/-
  Erl.Proofs.Controller.LetterCase

  Letter case does not matter anywhere in a source.

  A program may be written in two ways whose lines are cut into the same tokens, up to the case of
  letters in keywords, names and names of functions.  Declared with either source, it is compiled to
  the same instructions over the same nodes, with its locals at the same positions, or refused for
  the same reasons in the same lines; and whatever is asked of the two controllers afterwards is
  answered alike.  Only the spelling of locals, of lines and of messages shows which source it was.
-/

import Erl.Proofs.Guise.Session

namespace Erl

theorem newest_map {α β : Type} (f : α → β) (room : Nat) (xs : List α) :
    (newest room xs).map f = newest room (xs.map f) := by
  rw [newest, newest, List.map_drop, List.length_map]

/-! ## One controller by itself -/

/-- What a controller records. -/
def Controller.recording (c : Controller) : Recording :=
  ⟨c.image.settings.output.emsErrors, c.image.settings.output.fullTrace,
    c.machine.log.traceCapacity⟩

/-- The guise of controllers that record the same and differ in their spelling only. -/
def Guise.ofSpelling (r : Respelling) (recording : Recording) : Guise :=
  ⟨r, recording, recording⟩

namespace Guise

variable {r : Respelling} {recording : Recording}

theorem sameController_self (r : Respelling) (c : Controller) :
    (ofSpelling r c.recording).SameController c c where
  image := ⟨⟨rfl, rfl⟩, ⟨rfl, rfl⟩, rfl, rfl, rfl, rfl, rfl, rfl, rfl⟩
  sources := rfl
  machine := ⟨rfl, ⟨rfl, rfl, rfl, fun _ =>
    ⟨_, _, rfl, c.machine.log.trace_eq_newest, c.machine.log.trace_eq_newest⟩⟩, rfl⟩
  exchange := rfl
  cells := rfl
  constructions := rfl
  schedule := rfl
  problems := rfl
  compiled := rfl
  terminated := rfl

theorem ofSpelling_records (l : Log) :
    (ofSpelling r recording).records l = l.records.toList.map r.message := by
  have hall : (fun d : Message => (ofSpelling r recording).compares d.severity)
      = fun _ => true := by
    funext d
    unfold compares
    rw [Bool.or_eq_true_iff]
    exact .inr (beq_self_eq_true recording.errors)
  unfold records
  rw [hall, List.filter_true]
  rfl

theorem SameLog.trace_map {l l' : Log} (h : (ofSpelling r recording).SameLog l l') :
    l.trace.map r.executed = l'.trace.map r.executed := by
  obtain ⟨past, past', hpast, htrace, htrace'⟩ := h.trace rfl
  rw [htrace, htrace', newest_map, newest_map]
  exact congrArg (newest recording.capacity) hpast

end Guise

/-! ## Letter case -/

namespace Controller

/-- Two controllers between which only the spelling of sources may differ: the names of locals,
    the texts and columns of lines, and names in messages and problems. -/
structure SameUpToSpelling (r : Respelling) (a b : Controller) : Prop where
  nodes : a.image.nodes = b.image.nodes
  programs : a.image.programs.map r.program = b.image.programs.map r.program
  store : r.store a.machine.store = r.store b.machine.store
  trends : a.image.trends = b.image.trends
  generator : a.machine.generator = b.machine.generator
  exchange : a.exchange = b.exchange
  cells : a.cells = b.cells
  constructions : a.constructions = b.constructions
  schedule : a.schedule = b.schedule
  problems : a.problems.map r.problem = b.problems.map r.problem
  compiled : a.compiled = b.compiled
  terminated : a.terminated = b.terminated
  messages : a.machine.log.records.toList.map r.message = b.machine.log.records.toList.map r.message
  trace : a.machine.log.trace.map r.executed = b.machine.log.trace.map r.executed

theorem sameUpToSpelling_of_same {r : Respelling} {recording : Recording} {a b : Controller}
    (h : (Guise.ofSpelling r recording).SameController a b) : a.SameUpToSpelling r b where
  nodes := h.image.nodes
  programs := h.image.programs
  store := h.machine.store
  trends := h.image.trends
  generator := h.machine.generator
  exchange := h.exchange
  cells := h.cells
  constructions := h.constructions
  schedule := h.schedule
  problems := h.problems
  compiled := h.compiled
  terminated := h.terminated
  messages := by
    have hrecords := h.machine.log.records
    rwa [Guise.ofSpelling_records, Guise.ofSpelling_records] at hrecords
  trace := h.machine.log.trace_map

/-- Declares a program of either kind. -/
def addCode (c : Controller) : ProgramKind → String → String →
    Except ModelProblem ProgramId × Controller
  | .main => c.addProgram
  | .subroutine => c.addSubroutine

theorem addCode_sameResult (c : Controller) (kind : ProgramKind) (name : String)
    {source source' : String} (h : SameTokens source source') :
    (Guise.ofSpelling .letterCase c.recording).SameResult (c.addCode kind name source)
      (c.addCode kind name source') := by
  have hself := Guise.sameController_self .letterCase c
  cases kind with
  | main => exact hself.addProgram name (parseCode_congr h)
  | subroutine => exact hself.addSubroutine name (parseCode_congr h)

/-- A program may be written in any letter case: its declaration has the same result, compiling has
    the same verdict and leaves the same controller up to letter case, and so does every session
    after that, with the same answers. -/
theorem letter_case_inert (c : Controller) (kind : ProgramKind) (name : String)
    {source source' : String} (h : SameTokens source source') :
    (c.addCode kind name source).1 = (c.addCode kind name source').1
      ∧ Respelling.letterCase.answer (.verdict (c.addCode kind name source).2.compile.verdict)
        = Respelling.letterCase.answer (.verdict (c.addCode kind name source').2.compile.verdict)
      ∧ (c.addCode kind name source).2.compile.SameUpToSpelling .letterCase
          (c.addCode kind name source').2.compile
      ∧ ∀ requests : List Request,
        Option.Rel
          (fun r r' : List Answer × Controller =>
            r.1.map Respelling.letterCase.answer = r'.1.map Respelling.letterCase.answer
              ∧ r.2.SameUpToSpelling .letterCase r'.2)
          ((c.addCode kind name source).2.compile.askEach? requests)
          ((c.addCode kind name source').2.compile.askEach? requests) := by
  obtain ⟨hresult, hadded⟩ := c.addCode_sameResult kind name h
  -- from here on the two controllers are one controller in two guises
  have hcompiled := hadded.compile
  refine ⟨hresult, hcompiled.verdict, sameUpToSpelling_of_same hcompiled, fun requests => ?_⟩
  refine rel_imp (hcompiled.askEach? requests) fun r r' hr => ?_
  exact ⟨hr.1, sameUpToSpelling_of_same hr.2⟩

/-- A program that reads a local before it is assigned, calls a subroutine and names a function. -/
def lowerSource : String :=
  "set count = total + 1\nif count > @max pi 2\n  run helper\nendif"

/-- The same program in other letters, with other blanks and a comment. -/
def mixedSource : String :=
  "SET Count = TOTAL+1\n\tIF cOUNT > @MAX Pi 2 ! again\n  Run HELPER\nEndIf  "

/-- A controller with the subroutine that the program calls. -/
def withHelper : Controller :=
  ((ofSettings .default .zero).addSubroutine "Helper" "SET done = TRUE").2

theorem letter_case_inert_mixedSource :
    SameTokens lowerSource mixedSource
      ∧ (withHelper.addCode .main "Main" lowerSource).2.compile.compiled = true
      ∧ (withHelper.addCode .main "Main" lowerSource).2.compile.SameUpToSpelling .letterCase
          (withHelper.addCode .main "Main" mixedSource).2.compile := by
  have hsame : SameTokens lowerSource mixedSource := ⟨by decide +kernel, by decide +kernel⟩
  refine ⟨hsame, by decide +kernel, ?_⟩
  exact (letter_case_inert withHelper .main "Main" hsame).2.2.1

end Controller

end Erl
