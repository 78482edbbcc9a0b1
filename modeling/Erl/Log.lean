/-
  Erl.Log

  Messages about a run, and the trace of executed lines.

  Messages are kept in the order in which they were recorded.  The trace keeps the newest
  entries up to its capacity; entries that have fallen out of it are dropped in batches, so
  that adding one takes constant time on average.
-/

import Erl.Value

namespace Erl

/-- How bad a message is, the mildest first. -/
inductive Severity where
  | warning
  /-- A failed evaluation or a refused write; recorded only on request. -/
  | runtimeError
  | severe
  | fatal
  deriving Repr, DecidableEq

/-- The label of a severity. -/
def Severity.label : Severity → String
  | warning => "Warning"
  | runtimeError => "Runtime Error"
  | severe => "Severe"
  | fatal => "Fatal"

/-- Position in the order of severities. -/
def Severity.rank : Severity → Nat
  | warning => 0
  | runtimeError => 1
  | severe => 2
  | fatal => 3

/-- A message, with the program that it is about if there is one. -/
structure Message where
  severity : Severity
  program : Option String
  text : String
  deriving Repr, DecidableEq

/-- A message as a line of text. -/
def Message.line (d : Message) : String :=
  let subject := match d.program with
    | some program => program ++ ": "
    | none => ""
  "** " ++ d.severity.label ++ " ** " ++ subject ++ d.text

/-- An executed line; `value` is that of its expression, if it has one. -/
structure ExecutedLine where
  program : String
  line : Nat
  text : String
  value : Option Value
  deriving Repr, DecidableEq

/-- The messages and the trace of a run. -/
structure Log where
  records : Array Message
  traceCapacity : Nat
  /-- The trace, after entries that have fallen out of it. -/
  recent : Array ExecutedLine
  deriving Repr, DecidableEq

namespace Log

/-- Nothing recorded yet. -/
def empty (traceCapacity : Nat) : Log := ⟨#[], traceCapacity, #[]⟩

/-- Adds a message. -/
def record (l : Log) (severity : Severity) (program : Option String) (text : String) : Log :=
  { l with records := l.records.push ⟨severity, program, text⟩ }

/-- The messages of one severity. -/
def ofSeverity (l : Log) (severity : Severity) : List Message :=
  l.records.toList.filter fun d => d.severity == severity

/-- The messages of a severity or a worse one. -/
def atLeast (l : Log) (severity : Severity) : List Message :=
  l.records.toList.filter fun d => severity.rank ≤ d.severity.rank

/-- The messages as lines of text, oldest first. -/
def lines (l : Log) : List String :=
  l.records.toList.map Message.line

/-- The newest executed lines, as many as the capacity allows, oldest first. -/
def trace (l : Log) : List ExecutedLine :=
  l.recent.toList.drop (l.recent.size - l.traceCapacity)

/-- Adds an executed line. -/
def recordLine (l : Log) (entry : ExecutedLine) : Log :=
  if l.traceCapacity = 0 then l
  else if l.recent.size < 2 * l.traceCapacity then { l with recent := l.recent.push entry }
  else { l with recent := (l.recent.extract l.traceCapacity l.recent.size).push entry }

/-- Forgets all messages and the trace. -/
def clear (l : Log) : Log :=
  empty l.traceCapacity

/-- The trace after an executed line: the line comes last, and the oldest ones beyond the
    capacity are gone. -/
theorem trace_recordLine (l : Log) (entry : ExecutedLine) :
    (l.recordLine entry).trace
      = (l.trace ++ [entry]).drop ((l.trace ++ [entry]).length - l.traceCapacity) := by
  obtain ⟨records, capacity, ⟨recent⟩⟩ := l
  by_cases h0 : capacity = 0
  · simp [recordLine, trace, h0]
  by_cases h : recent.length < 2 * capacity
  · simp only [recordLine, trace, h0, h, if_false, if_true, List.size_toArray,
      List.push_toArray, List.length_append, List.length_drop, List.length_singleton]
    rw [← List.drop_append_of_le_length (by omega), List.drop_drop]
    congr 1
    omega
  · simp only [recordLine, trace, h0, h, if_false, List.size_toArray, Array.toList_push,
      Array.size_push, Array.size_extract, Array.toList_extract, List.length_append,
      List.length_drop, List.length_singleton, List.extract_eq_take_drop, Nat.min_self]
    rw [List.take_of_length_le (by simp), ← List.drop_append_of_le_length (by omega),
      ← List.drop_append_of_le_length (by omega), List.drop_drop, List.drop_drop]
    congr 1
    omega

/-- A message is found under its own severity only. -/
theorem ofSeverity_record (l : Log) (severity wanted : Severity) (program : Option String)
    (text : String) :
    (l.record severity program text).ofSeverity wanted
      = l.ofSeverity wanted
        ++ (if severity = wanted then [⟨severity, program, text⟩] else []) := by
  simp only [record, ofSeverity, Array.toList_push, List.filter_append]
  congr 1
  by_cases h : severity = wanted <;> simp [h]

/-- An executed line is no message. -/
@[simp] theorem ofSeverity_recordLine (l : Log) (severity : Severity) (line : ExecutedLine) :
    (l.recordLine line).ofSeverity severity = l.ofSeverity severity := by
  unfold recordLine ofSeverity
  split
  · rfl
  · split <;> rfl

end Log

end Erl
