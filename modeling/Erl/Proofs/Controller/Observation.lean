/-
  Erl.Proofs.Controller.Observation

  What is recorded has no influence on what happens.

  Two controllers are set up in the same way, from settings that differ in their output only:
  whether failed evaluations are recorded, whether executed lines are traced, how many of them are
  kept, and what is listed.  In every session both give the same answers and are left with the same
  variables, trends, random numbers, cells and overrides, compiled or not, terminated or not.  They
  have recorded the same messages apart from those about failed evaluations and refused writes, and
  if both trace, the shorter trace is the end of the longer one.
-/

import Erl.Proofs.Guise.Session

namespace Erl

/-! ## Sources as they are -/

namespace Respelling

/-- No other spelling. -/
def identity : Respelling where
  spell := id
  place := id
  script := id
  fold_spell _ := rfl
  spell_append _ _ := rfl
  line_place _ := rfl

theorem identity_token (t : Token) : identity.token t = t := by
  cases t <;> rfl

theorem identity_error (e : SyntaxError) : identity.error e = e := by
  obtain ⟨fault, location⟩ := e
  have hfault : identity.fault fault = fault := by
    cases fault <;> first | rfl | simp only [Transcription.fault, identity_token]
  rw [Transcription.error, hfault]
  rfl

theorem identity_store (t : Store) : identity.store t = t := by
  have hentry : identity.entry = id := by
    funext v
    unfold entry
    split <;> rfl
  apply Store.ext_entries
  show t.entries.map identity.entry = t.entries
  rw [hentry, Array.map_id]

theorem identity_problems (problems : List ModelProblem) :
    problems.map identity.problem = problems := by
  have hproblem : identity.problem = id := by
    funext p
    cases p with
    | parse program error => exact congrArg (ModelProblem.parse program) (identity_error error)
    | _ => rfl
  rw [hproblem, List.map_id]

theorem identity_answers (answers : List Answer) : answers.map identity.answer = answers := by
  have hanswer : identity.answer = id := by
    funext a
    unfold answer
    split
    · rw [identity_problems]
      rfl
    · rfl
  rw [hanswer, List.map_id]

end Respelling

/-- What a log takes in under output settings. -/
def OutputSettings.recording (o : OutputSettings) : Recording :=
  ⟨o.emsErrors, o.fullTrace, o.traceCapacity⟩

/-- The guise of controllers that differ in their output settings only. -/
def Guise.ofOutput (o o' : OutputSettings) : Guise :=
  ⟨.identity, o.recording, o'.recording⟩

namespace Guise

variable {o o' : OutputSettings}

theorem ofOutput_records (l : Log) :
    (ofOutput o o').records l
      = l.records.toList.filter fun d => (ofOutput o o').compares d.severity :=
  List.map_id _

end Guise

/-! ## Observation -/

namespace Log

/-- The messages that are recorded whether or not this is asked for. -/
def unconditional (l : Log) : List Message :=
  l.records.toList.filter fun d => d.severity != .runtimeError

/-- Of two traces of one run the one with less room is the end of the other. -/
structure SameTrace (l l' : Log) : Prop where
  left : l.traceCapacity ≤ l'.traceCapacity → l.trace = newest l.traceCapacity l'.trace
  right : l'.traceCapacity ≤ l.traceCapacity → l'.trace = newest l'.traceCapacity l.trace

end Log

namespace Guise.SameLog

variable {o o' : OutputSettings} {l l' : Log} (h : (ofOutput o o').SameLog l l')
include h

theorem unconditional : l.unconditional = l'.unconditional := by
  have hrecords := congrArg (List.filter fun d => d.severity != .runtimeError) h.records
  rw [ofOutput_records, ofOutput_records, List.filter_filter, List.filter_filter] at hrecords
  -- what is recorded in any case is compared in any case
  have hboth : (fun d : Message => d.severity != .runtimeError
      && (ofOutput o o').compares d.severity) = fun d => d.severity != .runtimeError := by
    funext d
    unfold compares
    cases d.severity != .runtimeError <;> rfl
  rwa [hboth] at hrecords

theorem sameTrace (hlines : o.fullTrace = o'.fullTrace) : l.SameTrace l' := by
  obtain ⟨past, past', hpast, htrace, htrace'⟩ := h.trace hlines
  have hsame : past = past' := by
    rw [← List.map_id past, ← List.map_id past']
    exact hpast
  subst hsame
  rw [← h.left] at htrace
  rw [← h.right] at htrace'
  -- both traces are the newest lines of one past
  constructor
  · intro hle
    rw [htrace, htrace', newest_newest hle]
  · intro hle
    rw [htrace, htrace', newest_newest hle]

end Guise.SameLog

namespace Controller

/-- Two controllers with the same state, apart from failed evaluations, refused writes and traces
    that they have recorded. -/
structure BehavesAs (a b : Controller) : Prop where
  store : a.machine.store = b.machine.store
  generator : a.machine.generator = b.machine.generator
  routines : a.image.routines = b.image.routines
  curves : a.image.curves = b.image.curves
  trends : a.image.trends = b.image.trends
  nodes : a.image.nodes = b.image.nodes
  /-- What is published and tied, and the override of each point. -/
  exchange : a.exchange = b.exchange
  cells : a.cells = b.cells
  constructions : a.constructions = b.constructions
  schedule : a.schedule = b.schedule
  problems : a.problems = b.problems
  compiled : a.compiled = b.compiled
  terminated : a.terminated = b.terminated
  messages : a.machine.log.unconditional = b.machine.log.unconditional

theorem ofSettings_sameController (s : Settings) (o : OutputSettings) (stream : RandomStream) :
    (Guise.ofOutput s.output o).SameController (ofSettings s stream)
      (ofSettings { s with output := o } stream) where
  image := ⟨⟨rfl, rfl⟩, ⟨rfl, rfl⟩, rfl, rfl, rfl, rfl, rfl, rfl, rfl⟩
  sources := rfl
  machine := ⟨rfl, ⟨rfl, rfl, rfl, fun _ => ⟨[], [], rfl, rfl, rfl⟩⟩, rfl⟩
  exchange := rfl
  cells := rfl
  constructions := rfl
  schedule := rfl
  problems := rfl
  compiled := rfl
  terminated := rfl

theorem behavesAs_of_same {o o' : OutputSettings} {a b : Controller}
    (h : (Guise.ofOutput o o').SameController a b) : a.BehavesAs b where
  store := by
    have hstore := h.machine.store
    change Respelling.identity.store _ = Respelling.identity.store _ at hstore
    rwa [Respelling.identity_store, Respelling.identity_store] at hstore
  generator := h.machine.generator
  routines := h.image.routines
  curves := h.image.curves
  trends := h.image.trends
  nodes := h.image.nodes
  exchange := h.exchange
  cells := h.cells
  constructions := h.constructions
  schedule := h.schedule
  problems := by
    have hproblems := h.problems
    change a.problems.map Respelling.identity.problem = b.problems.map Respelling.identity.problem
      at hproblems
    rwa [Respelling.identity_problems, Respelling.identity_problems] at hproblems
  compiled := h.compiled
  terminated := h.terminated
  messages := h.machine.log.unconditional

/-- Whatever is asked of controllers whose settings differ in their output only, both give the
    same answers and behave in the same way afterwards.  If both trace, the traces agree as far as
    they reach.  The beginning of a session is a session too, so all this holds after each of its
    requests. -/
theorem output_settings_inert (s : Settings) (o : OutputSettings) (stream : RandomStream)
    (requests : List Request) :
    Option.Rel
      (fun r r' : List Answer × Controller =>
        r.1 = r'.1 ∧ r.2.BehavesAs r'.2
          ∧ r.2.machine.log.traceCapacity = s.output.traceCapacity
          ∧ r'.2.machine.log.traceCapacity = o.traceCapacity
          ∧ (s.output.fullTrace → o.fullTrace → r.2.machine.log.SameTrace r'.2.machine.log))
      ((ofSettings s stream).askEach? requests)
      ((ofSettings { s with output := o } stream).askEach? requests) := by
  have hsession := (ofSettings_sameController s o stream).askEach? requests
  refine rel_imp hsession fun r r' hr => ?_
  obtain ⟨hanswers, hcontroller⟩ := hr
  change r.1.map Respelling.identity.answer = r'.1.map Respelling.identity.answer at hanswers
  rw [Respelling.identity_answers, Respelling.identity_answers] at hanswers
  refine ⟨hanswers, behavesAs_of_same hcontroller, hcontroller.machine.log.left,
    hcontroller.machine.log.right, fun hlines hlines' => ?_⟩
  exact hcontroller.machine.log.sameTrace (hlines.trans hlines'.symm)

end Controller

end Erl
