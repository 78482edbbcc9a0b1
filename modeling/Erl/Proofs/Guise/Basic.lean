/-
  Erl.Proofs.Guise.Basic

  One controller in two guises.

  Two controllers may differ in how their sources are spelled and in what they record: whether
  failed evaluations and executed lines are recorded at all, and how many of the lines are kept.
  A guise says which of these differences are looked through.  What is left of the variables, of the
  log, of the compiled programs and of a controller is the same in both; the other modules about
  guises show that it stays the same whatever is asked of the two.

  The traces are compared through everything that was ever executed: each keeps the newest lines of
  it, as many as it has room for.
-/

import Erl.Controller.Run
import Erl.Proofs.Code.Respelling
import Erl.Proofs.Machine.Search
import Erl.Proofs.Store

namespace Erl

/-! ## The newest entries of a list -/

/-- The last entries of a list, as many as there is room for. -/
def newest {α : Type} (room : Nat) (xs : List α) : List α :=
  xs.drop (xs.length - room)

section Newest

variable {α : Type}

theorem newest_of_length_le {room : Nat} {xs : List α} (h : xs.length ≤ room) :
    newest room xs = xs := by
  rw [newest, Nat.sub_eq_zero_of_le h, List.drop_zero]

/-- What stands before enough entries is not among the newest. -/
theorem newest_append {room : Nat} (older : List α) {xs : List α} (h : room ≤ xs.length) :
    newest room (older ++ xs) = newest room xs := by
  have hdrop : (older ++ xs).length - room = older.length + (xs.length - room) := by
    rw [List.length_append]
    omega
  rw [newest, newest, hdrop, List.drop_append, List.drop_of_length_le (by omega), List.nil_append]
  congr 1
  omega

/-- The newest of some of the newest are the newest of all. -/
theorem newest_newest_append {room room' : Nat} (h : room ≤ room') (xs later : List α) :
    newest room (newest room' xs ++ later) = newest room (xs ++ later) := by
  by_cases hall : xs.length ≤ room'
  · rw [newest_of_length_le hall]
  · have hkept : (newest room' xs).length = room' := by
      rw [newest, List.length_drop]
      omega
    have hsplit : xs = xs.take (xs.length - room') ++ newest room' xs :=
      (List.take_append_drop _ xs).symm
    have henough : room ≤ (newest room' xs ++ later).length := by
      rw [List.length_append]
      omega
    calc newest room (newest room' xs ++ later)
        = newest room (xs.take (xs.length - room') ++ (newest room' xs ++ later)) :=
          (newest_append _ henough).symm
      _ = newest room (xs ++ later) := by rw [← List.append_assoc, ← hsplit]

theorem newest_newest {room room' : Nat} (h : room ≤ room') (xs : List α) :
    newest room (newest room' xs) = newest room xs := by
  simpa using newest_newest_append h xs []

end Newest

theorem Log.trace_eq_newest (l : Log) : l.trace = newest l.traceCapacity l.trace := by
  refine (newest_of_length_le ?_).symm
  rw [trace, List.length_drop, Array.length_toList]
  omega

/-! ## Optional values that are related -/

section OptionalValues

variable {α β γ δ : Type} {R : α → β → Prop} {x : Option α} {y : Option β}

theorem rel_imp {S : α → β → Prop} (h : Option.Rel R x y) (hRS : ∀ a b, R a b → S a b) :
    Option.Rel S x y := by
  cases h with
  | none => exact .none
  | some hab => exact .some (hRS _ _ hab)

theorem rel_map {S : γ → δ → Prop} (h : Option.Rel R x y) {f : α → γ} {k : β → δ}
    (hf : ∀ a b, R a b → S (f a) (k b)) : Option.Rel S (x.map f) (y.map k) := by
  cases h with
  | none => exact .none
  | some hab => exact .some (hf _ _ hab)

end OptionalValues

/-! ## What is left without the spelling

A respelling of code shows in the names of locals, in messages and traces, in compiled lines and in
the problems of code. -/

namespace Respelling

variable (r : Respelling)

/-- Only locals take their names from a source. -/
def entry (v : Variable) : Variable :=
  match v.scope with
  | .global => v
  | .local_ _ => { v with name := r.spell v.name }

def store (t : Store) : Store :=
  .ofEntries (t.entries.map r.entry)

def message (d : Message) : Message :=
  { d with text := r.spell d.text }

def executed (e : ExecutedLine) : ExecutedLine :=
  { e with text := r.script e.text }

def readyLine (l : ReadyLine) : ReadyLine :=
  ⟨r.place l.location, r.script l.text, l.instruction⟩

/-- A program without its source. -/
def program (p : Program) : Program :=
  ⟨p.name, p.kind, "", p.lines.map r.readyLine⟩

/-- The problems of code are told in its spelling. -/
def problem : ModelProblem → ModelProblem
  | .parse program error => .parse program (r.error error)
  | .readOnlyAssignment program name line => .readOnlyAssignment program (r.spell name) line
  | .trendAssignment program name line => .trendAssignment program (r.spell name) line
  | .unknownSubroutine program name line => .unknownSubroutine program (r.spell name) line
  | p => p

/-- What a program is read as. -/
def sourceCode (p : Program) : Except SyntaxError (Array SourceLine) :=
  r.code (parseCode p.source)

end Respelling

/-! ## Guises -/

/-- What a log takes in besides messages: failed evaluations, executed lines, and how many of the
    latter. -/
structure Recording where
  errors : Bool
  lines : Bool
  capacity : Nat

/-- The differences that are looked through. -/
structure Guise extends Respelling where
  left : Recording
  right : Recording

namespace Guise

variable (g : Guise)

/-- Failed evaluations and refused writes are compared only if both record them, or none does. -/
def compares (severity : Severity) : Bool :=
  severity != .runtimeError || g.left.errors == g.right.errors

def records (l : Log) : List Message :=
  (l.records.toList.filter fun d => g.compares d.severity).map g.message

/-- Two logs of one run. -/
structure SameLog (l l' : Log) : Prop where
  records : g.records l = g.records l'
  left : l.traceCapacity = g.left.capacity
  right : l'.traceCapacity = g.right.capacity
  trace : g.left.lines = g.right.lines → ∃ past past' : List ExecutedLine,
    past.map g.executed = past'.map g.executed ∧ l.trace = newest g.left.capacity past
      ∧ l'.trace = newest g.right.capacity past'

structure SameMachine (m m' : Machine) : Prop where
  store : g.store m.store = g.store m'.store
  log : g.SameLog m.log m'.log
  generator : m.generator = m'.generator

/-- Whether settings ask for what is recorded. -/
structure Asks (settings : Settings) (recording : Recording) : Prop where
  errors : settings.output.emsErrors = recording.errors
  lines : settings.output.fullTrace = recording.lines

structure SameImage (img img' : Image) : Prop where
  left : Asks img.settings g.left
  right : Asks img'.settings g.right
  limits : img.settings.limits = img'.settings.limits
  timestepHours : img.settings.timestepHours = img'.settings.timestepHours
  routines : img.routines = img'.routines
  curves : img.curves = img'.curves
  trendCatalog : img.trendCatalog = img'.trendCatalog
  nodes : img.nodes = img'.nodes
  programs : img.programs.map g.program = img'.programs.map g.program

structure SameController (c c' : Controller) : Prop where
  image : g.SameImage c.image c'.image
  sources : c.image.programs.map g.sourceCode = c'.image.programs.map g.sourceCode
  machine : g.SameMachine c.machine c'.machine
  exchange : c.exchange = c'.exchange
  cells : c.cells = c'.cells
  constructions : c.constructions = c'.constructions
  schedule : c.schedule = c'.schedule
  problems : c.problems.map g.problem = c'.problems.map g.problem
  compiled : c.compiled = c'.compiled
  terminated : c.terminated = c'.terminated

end Guise

/-! ## Variables

What is looked up in a store does not depend on the spelling of locals, and every change of a store
is the same change of what is left of it. -/

namespace Respelling

variable {r : Respelling}

@[simp] theorem entry_scope (v : Variable) : (r.entry v).scope = v.scope := by
  unfold entry
  split <;> rfl

@[simp] theorem entry_origin (v : Variable) : (r.entry v).origin = v.origin := by
  unfold entry
  split <;> rfl

@[simp] theorem entry_value (v : Variable) : (r.entry v).value = v.value := by
  unfold entry
  split <;> rfl

@[simp] theorem fold_entry_name (v : Variable) : Text.fold (r.entry v).name = Text.fold v.name := by
  unfold entry
  split
  · rfl
  · exact r.fold_spell v.name

theorem sameName_spell (s : String) {name name' : String} (h : r.spell name = r.spell name') :
    Text.sameName s name = Text.sameName s name' := by
  unfold Text.sameName
  rw [r.fold_eq h]

@[simp] theorem size_store (t : Store) : (r.store t).size = t.size :=
  Array.size_map

theorem find?_store (t : Store) (scope : Scope) {name name' : String}
    (h : r.spell name = r.spell name') : (r.store t).find? scope name = t.find? scope name' := by
  rw [Store.find?_eq, Store.find?_eq, store, Store.ofEntries, Array.findIdx?_map]
  congr 1
  funext v
  show ((r.entry v).scope == scope && Text.sameName (r.entry v).name name) = _
  rw [entry_scope, ← sameName_spell _ h]
  unfold Text.sameName
  rw [fold_entry_name]

@[simp] theorem value_store (t : Store) (id : VariableId) : (r.store t).value id = t.value id := by
  unfold Store.value store Store.ofEntries
  rw [Array.getElem?_map]
  cases t.entries[id]? with
  | none => rfl
  | some v => exact entry_value v

@[simp] theorem isProtected_store (t : Store) (id : VariableId) :
    (r.store t).isProtected id = t.isProtected id := by
  unfold Store.isProtected store Store.ofEntries
  rw [Array.getElem?_map]
  cases t.entries[id]? with
  | none => rfl
  | some v => exact congrArg Origin.isProtected (entry_origin v)

theorem store_adjust (t : Store) (id : VariableId) {f : Variable → Variable}
    (hname : ∀ v, (f v).name = v.name) (hscope : ∀ v, (f v).scope = v.scope)
    (hf : ∀ v, r.entry (f v) = f (r.entry v)) :
    r.store (t.adjust id f hname hscope) = (r.store t).adjust id f hname hscope := by
  refine Store.ext_entries ?_
  show (t.entries.modify id f).map r.entry = (t.entries.map r.entry).modify id f
  apply Array.ext_getElem?
  intro j
  simp only [Array.getElem?_map, Array.getElem?_modify]
  split
  · cases t.entries[j]? with
    | none => rfl
    | some v => exact congrArg some (hf v)
  · rfl

theorem store_set (t : Store) (id : VariableId) (x : Value) :
    r.store (t.set id x) = (r.store t).set id x := by
  refine store_adjust t id _ _ fun v => ?_
  unfold entry
  dsimp only
  split <;> rfl

theorem store_linkActuator (t : Store) (id : VariableId) (actuator : Nat) :
    r.store (t.linkActuator id actuator) = (r.store t).linkActuator id actuator := by
  refine store_adjust t id _ _ fun v => ?_
  unfold entry
  dsimp only
  split <;> rfl

theorem store_push_global (t : Store) (name : String) (origin : Origin) :
    r.store (t.push name .global origin) = (r.store t).push name .global origin := by
  simp only [store, Store.push, Store.add, Store.ofEntries, Array.map_push, entry]

theorem store_push_local (t : Store) (name : String) (program : ProgramId) (origin : Origin) :
    r.store (t.push name (.local_ program) origin)
      = (r.store t).push (r.spell name) (.local_ program) origin := by
  simp only [store, Store.push, Store.add, Store.ofEntries, Array.map_push, entry]

section Stores

variable {t t' : Store} (h : r.store t = r.store t')
include h

theorem size_eq : t.size = t'.size := by
  rw [← size_store (r := r) t, h, size_store]

theorem find?_eq (scope : Scope) {name name' : String} (hname : r.spell name = r.spell name') :
    t.find? scope name = t'.find? scope name' := by
  rw [← find?_store t scope rfl, h, find?_store t' scope hname]

theorem global?_eq (name : String) : t.global? name = t'.global? name :=
  find?_eq h .global rfl

theorem lookup?_eq (program : ProgramId) {name name' : String}
    (hname : r.spell name = r.spell name') :
    t.lookup? program name = t'.lookup? program name' := by
  rw [Store.lookup?, Store.lookup?, find?_eq h _ hname, Store.global?, Store.global?,
    find?_eq h _ hname]

theorem value_eq (id : VariableId) : t.value id = t'.value id := by
  rw [← value_store (r := r) t, h, value_store]

theorem isProtected_eq (id : VariableId) : t.isProtected id = t'.isProtected id := by
  rw [← isProtected_store (r := r) t, h, isProtected_store]

theorem set_congr (id : VariableId) (x : Value) : r.store (t.set id x) = r.store (t'.set id x) := by
  rw [store_set, store_set, h]

theorem linkActuator_congr (id : VariableId) (actuator : Nat) :
    r.store (t.linkActuator id actuator) = r.store (t'.linkActuator id actuator) := by
  rw [store_linkActuator, store_linkActuator, h]

theorem push_global_congr (name : String) (origin : Origin) :
    r.store (t.push name .global origin) = r.store (t'.push name .global origin) := by
  rw [store_push_global, store_push_global, h]

theorem push_local_congr (program : ProgramId) {name name' : String}
    (hname : r.spell name = r.spell name') (origin : Origin) :
    r.store (t.push name (.local_ program) origin)
      = r.store (t'.push name' (.local_ program) origin) := by
  rw [store_push_local, store_push_local, h, hname]

end Stores

/-! ## Programs -/

variable (r) in
/-- Two programs that are the same apart from their sources and the texts of their lines. -/
structure SameProgram (p p' : Program) : Prop where
  name : p.name = p'.name
  kind : p.kind = p'.kind
  lines : p.lines.map r.readyLine = p'.lines.map r.readyLine

variable (r) in
/-- Two lines that are the same apart from their texts and columns. -/
structure SameLine (l l' : ReadyLine) : Prop where
  number : l.location.line = l'.location.line
  text : r.script l.text = r.script l'.text
  instruction : l.instruction = l'.instruction

theorem sameProgram_of_eq {p p' : Program} (h : r.program p = r.program p') :
    r.SameProgram p p' := by
  injection h with hname hkind _ hlines
  exact ⟨hname, hkind, hlines⟩

theorem sameLine_of_eq {l l' : ReadyLine} (h : r.readyLine l = r.readyLine l') :
    r.SameLine l l' := by
  injection h with hplace htext hinstruction
  refine ⟨?_, htext, hinstruction⟩
  rw [← r.line_place l.location, hplace, r.line_place]

theorem getElem?_rel {α β : Type} {f : α → β} {xs xs' : Array α} (h : xs.map f = xs'.map f)
    (i : Nat) : Option.Rel (fun x x' => f x = f x') xs[i]? xs'[i]? := by
  have hget : (xs[i]?).map f = (xs'[i]?).map f := by
    rw [← Array.getElem?_map, h, Array.getElem?_map]
  cases hx : xs[i]? with
  | none =>
    rw [hx] at hget
    rw [Option.map_eq_none_iff.1 hget.symm]
    exact .none
  | some x =>
    rw [hx] at hget
    obtain ⟨x', hx', hf⟩ := Option.map_eq_some_iff.1 hget.symm
    rw [hx']
    exact .some hf.symm

theorem SameProgram.line {p p' : Program} (h : r.SameProgram p p') (i : Nat) :
    Option.Rel r.SameLine p.lines[i]? p'.lines[i]? :=
  rel_imp (getElem?_rel h.lines i) fun _ _ => sameLine_of_eq

theorem SameProgram.size {p p' : Program} (h : r.SameProgram p p') :
    p.lines.size = p'.lines.size := by
  have hsize := congrArg Array.size h.lines
  rwa [Array.size_map, Array.size_map] at hsize

/-- Programs at the same position are of the same kind. -/
theorem kind_eq {programs programs' : Array Program}
    (h : programs.map r.program = programs'.map r.program) (id : ProgramId) :
    (programs[id]?).map Program.kind = (programs'[id]?).map Program.kind := by
  have hview : ∀ programs : Array Program, (programs[id]?).map Program.kind
      = ((programs.map r.program)[id]?).map Program.kind := fun programs => by
    rw [Array.getElem?_map, Option.map_map]
    rfl
  rw [hview, h, ← hview]

/-- A program is found by its name alone. -/
theorem programNamed?_eq {programs programs' : Array Program}
    (h : programs.map r.program = programs'.map r.program) {name name' : String}
    (hname : r.spell name = r.spell name') :
    programNamed? programs name = programNamed? programs' name' := by
  unfold programNamed?
  have hview : ∀ programs : Array Program, programs.findIdx? (fun p => Text.sameName p.name name)
      = (programs.map r.program).findIdx? fun p => Text.sameName p.name name := fun programs => by
    rw [Array.findIdx?_map]
    rfl
  rw [hview, h, ← hview]
  congr 1
  funext p
  exact sameName_spell p.name hname

end Respelling

/-! ## Logs -/

namespace Guise

open Respelling

variable {g : Guise}

namespace SameLog

variable {l l' : Log}

theorem records_record (l : Log) (severity : Severity) (program : Option String) (text : String) :
    g.records (l.record severity program text)
      = g.records l
        ++ if g.compares severity then [⟨severity, program, g.spell text⟩] else [] := by
  simp only [Guise.records, Log.record, Array.toList_push, List.filter_append, List.map_append]
  congr 1
  by_cases hcompares : g.compares severity = true
  · simp [hcompares, message]
  · simp [hcompares]

/-- A message that both logs take in. -/
theorem record (h : g.SameLog l l') (severity : Severity) (program : Option String)
    {text text' : String} (htext : g.spell text = g.spell text') :
    g.SameLog (l.record severity program text) (l'.record severity program text') := by
  refine ⟨?_, h.left, h.right, h.trace⟩
  rw [records_record, records_record, h.records, htext]

/-- A failed evaluation that each log takes in if it is asked to. -/
theorem report (h : g.SameLog l l') (program : Option String) (text : String) :
    g.SameLog (if g.left.errors then l.record .runtimeError program text else l)
      (if g.right.errors then l'.record .runtimeError program text else l') := by
  by_cases hsame : g.left.errors = g.right.errors
  · rw [hsame]
    split
    · exact h.record .runtimeError program rfl
    · exact h
  · -- such messages are not compared then
    have hunheard : g.compares .runtimeError = false := by
      simpa [compares] using hsame
    refine ⟨?_, ?_, ?_, ?_⟩
    · split <;> split <;> simp [records_record, hunheard, h.records]
    · split <;> exact h.left
    · split <;> exact h.right
    · split <;> split <;> exact h.trace

theorem records_recordLine (l : Log) (e : ExecutedLine) :
    g.records (l.recordLine e) = g.records l := by
  unfold Guise.records Log.recordLine
  split
  · rfl
  · split <;> rfl

theorem capacity_recordLine (l : Log) (e : ExecutedLine) :
    (l.recordLine e).traceCapacity = l.traceCapacity := by
  unfold Log.recordLine
  split
  · rfl
  · split <;> rfl

/-- An executed line is the newest one of everything that was executed. -/
theorem trace_recordLine_newest {l : Log} {past : List ExecutedLine} {room : Nat}
    (hroom : l.traceCapacity = room) (h : l.trace = newest room past) (e : ExecutedLine) :
    (l.recordLine e).trace = newest room (past ++ [e]) := by
  rw [Log.trace_recordLine, hroom, h]
  exact newest_newest_append (Nat.le_refl room) past [e]

/-- An executed line that each log takes in if it is asked to. -/
theorem note (h : g.SameLog l l') {e e' : ExecutedLine} (he : g.executed e = g.executed e') :
    g.SameLog (if g.left.lines then l.recordLine e else l)
      (if g.right.lines then l'.recordLine e' else l') := by
  refine ⟨?_, ?_, ?_, fun hsame => ?_⟩
  · split <;> split <;> simp only [records_recordLine, h.records]
  · split <;> simp only [capacity_recordLine, h.left]
  · split <;> simp only [capacity_recordLine, h.right]
  · obtain ⟨past, past', hpast, htrace, htrace'⟩ := h.trace hsame
    -- either both trace the line, which is then the last of both pasts, or neither does
    rw [hsame]
    split
    · refine ⟨past ++ [e], past' ++ [e'], ?_, ?_, ?_⟩
      · rw [List.map_append, List.map_append, hpast, List.map_singleton, List.map_singleton, he]
      · exact trace_recordLine_newest h.left htrace e
      · exact trace_recordLine_newest h.right htrace' e'
    · exact ⟨past, past', hpast, htrace, htrace'⟩

end SameLog

theorem SameMachine.withStore {m m' : Machine} (h : g.SameMachine m m') {t t' : Store}
    (ht : g.store t = g.store t') :
    g.SameMachine { m with store := t } { m' with store := t' } :=
  ⟨ht, h.log, h.generator⟩

theorem SameMachine.withLog {m m' : Machine} (h : g.SameMachine m m') {l l' : Log}
    (hl : g.SameLog l l') : g.SameMachine { m with log := l } { m' with log := l' } :=
  ⟨h.store, hl, h.generator⟩


theorem SameImage.trends {img img' : Image} (h : g.SameImage img img') : img.trends = img'.trends :=
  congrArg Catalog.entries h.trendCatalog

theorem SameImage.program {img img' : Image} (h : g.SameImage img img') (id : ProgramId) :
    Option.Rel g.SameProgram img.programs[id]? img'.programs[id]? :=
  rel_imp (getElem?_rel h.programs id) fun _ _ => sameProgram_of_eq

end Guise

end Erl
