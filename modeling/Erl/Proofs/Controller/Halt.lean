/-
  Erl.Proofs.Controller.Halt

  Fatal halts are final and accounted for once.

  A request for a fatal halt records one fatal message and interrupts the program, and nothing
  between the request and the run of the calling point takes the interrupt for a value or for a
  status.  So a run leaves a fatal message exactly when it terminates the controller; since
  later runs do not start, there is never a second one.
-/

import Erl.Proofs.Controller.Reachable

namespace Erl

/-! ## Statuses of programs -/

/-- A computation that ends only with values of a kind, if it is not interrupted. -/
def Exec.Yields {α : Type} (Q : α → Prop) (x : Exec α) : Prop :=
  ∀ m a m', x m = .ok a m' → Q a

namespace Exec.Yields

variable {α β : Type} {Q : β → Prop}

theorem pure {b : β} (h : Q b) : Yields Q (Pure.pure b : Exec β) := by
  intro m a m' hm
  cases hm
  exact h

theorem bind {P : α → Prop} {x : Exec α} {f : α → Exec β} (hx : Yields P x)
    (hf : ∀ a, P a → Yields Q (f a)) : Yields Q (x >>= f) := by
  intro m b m' h
  obtain ⟨a, m₁, hxm, hfm⟩ := Exec.bind_eq_ok_iff.1 h
  exact hf a (hx m a m₁ hxm) m₁ b m' hfm

theorem andThen {x : Exec α} {f : α → Exec β} (hf : ∀ a, Yields Q (f a)) :
    Yields Q (x >>= f) := by
  refine bind (P := fun _ => True) (fun _ _ _ _ => trivial) fun a _ => hf a

end Exec.Yields

section Steps

variable {img : Image} {p : Program} {call : Option (ProgramId → Exec Ending)}

theorem callSubroutine_ne_fatal (hcall : ∀ f ∈ call, ∀ id, (f id).Yields (· ≠ .fatal))
    (callee : ProgramId) : (callSubroutine img p call callee).Yields (· ≠ .fatal) := by
  cases call with
  | none => exact .andThen fun _ => .pure (by simp)
  | some f => exact hcall f rfl callee

theorem runLine_ne_fatal (hcall : ∀ f ∈ call, ∀ id, (f id).Yields (· ≠ .fatal))
    (budget index : Nat) (line : ReadyLine) :
    (runLine img p call budget index line).Yields (· ≠ .halt .fatal) := by
  unfold runLine
  split
  · exact .andThen fun _ => .andThen fun _ => .pure (by simp)
  · refine .andThen fun _ => .bind (callSubroutine_ne_fatal hcall _) fun status hstatus => ?_
    split
    · exact .pure (by simp)
    · exact .pure (by simpa using hstatus)
  · exact .andThen fun _ => .pure (by simp)
  · exact .andThen fun _ => .pure (by simp)
  · exact .pure (by simp)
  · exact .pure (by simp)
  · exact .pure (by simp)
  · refine .andThen fun v => ?_
    split
    · cases budget with
      | zero => exact .andThen fun _ => .pure (by simp)
      | succ budget => exact .pure (by simp)
    · exact .pure (by simp)
  · exact .pure (by simp)

theorem seekLine_ne_fatal (budget index : Nat) :
    (seekLine img p budget index).Yields (· ≠ .halt .fatal) := by
  unfold seekLine
  split
  · split
    · exact .andThen fun _ => .pure (by simp)
    · exact .pure (by simp)
  · exact .pure (by simp)

theorem step_ne_fatal (hcall : ∀ f ∈ call, ∀ id, (f id).Yields (· ≠ .fatal)) (budget : Nat)
    (cursor : Cursor) : (step img p call budget cursor).Yields (· ≠ .halt .fatal) := by
  cases cursor with
  | run index =>
    rw [step]
    split
    · exact runLine_ne_fatal hcall _ _ _
    · exact .pure (by simp)
  | seek index => exact seekLine_ne_fatal _ _

theorem walk_ne_fatal (hcall : ∀ f ∈ call, ∀ id, (f id).Yields (· ≠ .fatal))
    (steps budget : Nat) (cursor : Cursor) :
    (walk img p call steps budget cursor).Yields (· ≠ .fatal) := by
  induction steps generalizing budget cursor with
  | zero =>
    intro m a m' h
    cases h
  | succ steps ih =>
    rw [walk]
    refine .bind (step_ne_fatal hcall budget cursor) fun progress hprogress => ?_
    cases progress with
    | next budget' cursor' => exact ih budget' cursor'
    | halt status => exact .pure fun hfatal => hprogress (by rw [hfatal])

end Steps

namespace Image

variable (img : Image)

/-- An invocation that comes to an end does not end as fatal: only an interrupt does. -/
theorem invoke_ne_fatal (depth : Nat) (id : ProgramId) :
    (img.invoke depth id).Yields (· ≠ .fatal) := by
  have hstart : ∀ (call : Option (ProgramId → Exec Ending)) (id : ProgramId),
      (∀ f ∈ call, ∀ id, (f id).Yields (· ≠ .fatal)) →
        (img.start call id).Yields (· ≠ .fatal) := by
    intro call id hcall
    unfold start
    split
    · exact .pure (by simp)
    · exact walk_ne_fatal hcall _ _ _
  induction depth generalizing id with
  | zero => exact hstart none id (by simp)
  | succ depth ih =>
    refine hstart (some (img.invoke depth)) id ?_
    intro f hf
    cases hf
    exact ih

variable {img}

/-- None of the programs that run to their ends ends as fatal. -/
theorem Runs.status_ne_fatal {m m' : Machine} {programs : List ProgramId}
    {outcomes : List Outcome} (h : img.Runs m programs outcomes m') :
    ∀ o ∈ outcomes, o.status ≠ .fatal := by
  induction h with
  | nil => simp
  | @cons m m₁ m' id status rest outcomes hmain _ ih =>
    intro o ho
    rcases List.mem_cons.1 ho with rfl | ho
    · exact img.invoke_ne_fatal _ id m status m₁ hmain
    · exact ih o ho

end Image

/-! ## Fatal messages -/

namespace Controller

/-- The fatal messages that were recorded. -/
def fatalMessages (c : Controller) : List Message :=
  c.machine.log.ofSeverity .fatal

/-- Variables have nothing to do with fatal messages. -/
theorem withStore_fatalMessages (c : Controller) (store : Store) :
    (c.withStore store).terminated = c.terminated
      ∧ (c.withStore store).fatalMessages = c.fatalMessages :=
  ⟨rfl, rfl⟩

/-- Reporting commands that were refused records no fatal message. -/
theorem reportRefused_fatal (log : Log) (commands : List Command) :
    (reportRefused log commands).ofSeverity .fatal = log.ofSeverity .fatal := by
  unfold reportRefused
  induction commands generalizing log with
  | nil => rfl
  | cons command rest ih =>
    rw [List.foldl_cons, ih]
    cases command with
    | refuse actuator v => rw [Log.ofSeverity_record, if_neg (by decide), List.append_nil]
    | write available x => rfl
    | release available => rfl

theorem finishRun_fatalMessages (c : Controller) (commands : List Command) :
    (c.finishRun commands).fatalMessages = c.fatalMessages := by
  show Log.ofSeverity (if _ then _ else _) _ = _
  split
  · exact reportRefused_fatal _ _
  · rfl

variable {c c' : Controller} {point : CallingPoint} {r : Except RunError (List Outcome)}

/-- A run that ends with a fatal halt terminates the controller and records one fatal message;
    any other run does neither. -/
theorem RunsTo.fatalMessages (h : RunsTo c point r c') :
    (c'.terminated = c.terminated ∧ c'.fatalMessages = c.fatalMessages
        ∧ ∀ program message outcomes, r ≠ .error (.fatalHalt program message outcomes))
      ∨ ∃ store id message outcomes program, c.Starts point store
          ∧ c.image.Stops { c.machine with store } (c.schedule.programs point) outcomes id
              (.fatal message) c'.machine
          ∧ r = .error (.fatalHalt (c.image.programName id) message outcomes)
          ∧ c'.terminated = true
          ∧ c'.fatalMessages = c.fatalMessages ++ [⟨.fatal, some program, message⟩] := by
  cases h with
  | @fatal store outcomes id message m hstarts hstops =>
    obtain ⟨m₁, program, hbecomes, rfl⟩ := hstops.endsWith
    refine .inr ⟨store, id, message, outcomes, program, hstarts, hstops, rfl, rfl, ?_⟩
    show (m₁.log.record _ _ _).ofSeverity _ = _
    rw [Log.ofSeverity_record, if_pos rfl, hbecomes.fatal]
    rfl
  | done hstarts hruns hcommands =>
    refine .inl ⟨rfl, ?_, by simp⟩
    rw [finishRun_fatalMessages]
    exact hruns.becomes.fatal
  | unwritable hstarts hruns hcommands => exact .inl ⟨rfl, hruns.becomes.fatal, by simp⟩
  | @breakdown store outcomes id m hstarts hstops =>
    have hbecomes : Machine.Becomes c.image { c.machine with store } m := hstops.endsWith
    exact .inl ⟨rfl, hbecomes.fatal, by simp⟩
  | @outOfSteps store outcomes id m hstarts hstops =>
    have hbecomes : Machine.Becomes c.image { c.machine with store } m := hstops.endsWith
    exact .inl ⟨rfl, hbecomes.fatal, by simp⟩
  | terminated _ => exact .inl ⟨rfl, rfl, by simp⟩
  | notCompiled _ _ => exact .inl ⟨rfl, rfl, by simp⟩
  | nothing _ _ _ => exact .inl ⟨rfl, rfl, by simp⟩
  | unreadable _ => exact .inl ⟨rfl, rfl, by simp⟩

/-- Every operation but a run keeps the fatal messages and does not terminate. -/
theorem Does.fatalMessages (h : Does c c') :
    (c'.terminated = c.terminated ∧ c'.fatalMessages = c.fatalMessages)
      ∨ ∃ point, c' = (c.run point).2 := by
  obtain ⟨_, heffect⟩ := h.effect
  cases heffect with
  | run point => exact .inr ⟨point, rfl⟩
  | compile => exact .inl ⟨rfl, c.compile_le.2⟩
  | host routines curves cells constructions => exact .inl ⟨rfl, rfl⟩
  | publish _ => exact .inl ⟨rfl, rfl⟩
  | refuse problem => exact .inl ⟨rfl, rfl⟩
  | addVariable _ _ _ => exact .inl (c.withStore_fatalMessages _)
  | assign v _ => exact .inl (c.withStore_fatalMessages _)
  | updateClock clock => exact .inl (c.withStore_fatalMessages _)
  | addTrend _ => exact .inl ⟨rfl, rfl⟩
  | addProgram _ _ => exact .inl ⟨rfl, rfl⟩
  | bind point _ => exact .inl ⟨rfl, rfl⟩

/-- There is one fatal message in a controller that was terminated and none in any other. -/
theorem Reachable.length_fatalMessages (h : Reachable c) :
    c.fatalMessages.length = if c.terminated then 1 else 0 := by
  induction h with
  | ofSettings settings stream => rfl
  | @does c c' _ hdoes ih =>
    rcases hdoes.fatalMessages with ⟨hterminated, hmessages⟩ | ⟨point, rfl⟩
    · rw [hterminated, hmessages, ih]
    · rcases (c.run_runsTo point).fatalMessages with
        ⟨hterminated, hmessages, -⟩ | ⟨_, _, _, _, _, hstarts, -, -, hterminated, hmessages⟩
      · rw [hterminated, hmessages, ih]
      · -- the run started, so there was no fatal message before
        rw [hmessages, List.length_append, ih, hstarts.active, hterminated]
        rfl

/-- A controller that was terminated stays so. -/
theorem Later.terminated (h : Later c c') (hterminated : c.terminated = true) :
    c'.terminated = true := by
  induction h with
  | refl => exact hterminated
  | @tail c₁ c₂ _ hdoes ih =>
    rcases hdoes.fatalMessages with ⟨hkept, -⟩ | ⟨point, rfl⟩
    · rw [hkept, ih]
    · rcases (c₁.run_runsTo point).fatalMessages with
        ⟨hkept, -, -⟩ | ⟨_, _, _, _, _, -, -, -, hfatal, -⟩
      · rw [hkept, ih]
      · exact hfatal

/-- A regular run has one outcome for each bound program, in order. -/
theorem RunsTo.outcomes_of_ok {outcomes : List Outcome} (h : RunsTo c point (.ok outcomes) c') :
    outcomes.map Outcome.program = (c.schedule.programs point).map c.image.programName
      ∧ ∀ o ∈ outcomes, o.status ≠ .fatal := by
  cases h with
  | nothing _ _ hnone => simp [hnone]
  | done _ hruns _ => exact ⟨hruns.map_program, hruns.status_ne_fatal⟩

/-- Fatal halts are final and accounted for once.

    A controller is terminated exactly when it holds a fatal message, and it holds at most one.
    Only a run terminates a controller, and it does so exactly when it ends with a fatal halt.
    The outcomes are then those of the programs up to the one that was interrupted, in the order
    in which they are bound; the last and no other is fatal, and the message is the text of the
    only fatal message.  From then on no run starts or changes anything.  A regular run has one
    outcome for each bound program, in order, and none is fatal. -/
theorem Reachable.fatal_halt_is_final (h : Reachable c) :
    (c.terminated = true ↔ ∃ d ∈ c.machine.log.records, d.severity = .fatal)
      ∧ (c.machine.log.ofSeverity .fatal).length ≤ 1
      ∧ (∀ c', Does c c' → c.terminated = false → c'.terminated = true →
          ∃ point program message outcomes, c' = (c.run point).2
            ∧ (c.run point).1 = .error (.fatalHalt program message outcomes))
      ∧ (∀ point program message outcomes,
          (c.run point).1 = .error (.fatalHalt program message outcomes) →
          c.terminated = false ∧ (c.run point).2.terminated = true
            ∧ (∃ recorder, (c.run point).2.machine.log.ofSeverity .fatal
                = [⟨.fatal, some recorder, message⟩])
            ∧ ∃ store before id after ended m₁,
                c.exchange.refresh? c.cells c.machine.store = some store
                ∧ c.schedule.programs point = before ++ id :: after
                ∧ c.image.Runs { c.machine with store } before ended m₁
                ∧ c.image.runMain id m₁ = .error (.fatal message) (c.run point).2.machine
                ∧ program = c.image.programName id
                ∧ outcomes = ended ++ [⟨program, .fatal⟩]
                ∧ ended.map Outcome.program = before.map c.image.programName
                ∧ ∀ o ∈ ended, o.status ≠ .fatal)
      ∧ (c.terminated = true →
          ∀ c', Later c c' → ∀ point, c'.run point = (.error .terminated, c'))
      ∧ ∀ point outcomes, (c.run point).1 = .ok outcomes →
          outcomes.map Outcome.program = (c.schedule.programs point).map c.image.programName
            ∧ ∀ o ∈ outcomes, o.status ≠ .fatal := by
  have hlength := h.length_fatalMessages
  refine ⟨?_, ?_, ?_, ?_, ?_, ?_⟩
  · have hmem : (∃ d ∈ c.machine.log.records, d.severity = .fatal) ↔ c.fatalMessages ≠ [] := by
      simp [fatalMessages, Log.ofSeverity, List.filter_eq_nil_iff]
    rw [hmem, ← List.length_pos_iff, hlength]
    cases c.terminated <;> simp
  · show c.fatalMessages.length ≤ 1
    rw [hlength]
    split <;> omega
  · intro c' hdoes hactive hterminated
    rcases hdoes.fatalMessages with ⟨hkept, -⟩ | ⟨point, rfl⟩
    · rw [hkept, hactive] at hterminated
      cases hterminated
    · rcases (c.run_runsTo point).fatalMessages with
        ⟨hkept, -, -⟩ | ⟨store, id, message, outcomes, recorder, -, -, hr, -, -⟩
      · rw [hkept, hactive] at hterminated
        cases hterminated
      · exact ⟨point, _, message, outcomes, rfl, hr⟩
  · intro point program message outcomes hrun
    rcases (c.run_runsTo point).fatalMessages with
      ⟨-, -, hne⟩ | ⟨store, id, message', outcomes', recorder, hstarts, hstops, hr, hterminated,
        hmessages⟩
    · exact absurd hrun (hne program message outcomes)
    · obtain ⟨rfl, rfl, rfl⟩ : program = c.image.programName id ∧ message = message'
          ∧ outcomes = outcomes' := by
        rw [hr] at hrun
        cases hrun
        exact ⟨rfl, rfl, rfl⟩
      obtain ⟨before, after, ended, m₁, hprograms, hruns, hstop, rfl⟩ := hstops
      refine ⟨hstarts.active, hterminated, ⟨recorder, ?_⟩, store, before, id, after, ended, m₁,
        hstarts.refreshed, hprograms, hruns, hstop, rfl, rfl, hruns.map_program,
        hruns.status_ne_fatal⟩
      -- no fatal message was there before, since the run started
      rw [hstarts.active] at hlength
      have hnone : c.fatalMessages = [] := List.eq_nil_of_length_eq_zero hlength
      rw [hnone] at hmessages
      exact hmessages
  · intro hterminated c' hlater point
    rw [run, hlater.terminated hterminated]
    rfl
  · intro point outcomes hok
    have hends := c.run_runsTo point
    rw [hok] at hends
    exact hends.outcomes_of_ok

/-- A controller with a program that ends, and one whose subroutine asks for a fatal halt in a
    guard. -/
def halting : Controller :=
  let c := ((Controller.ofSettings .default .zero).addProgram "first" "SET a = b").2
  let c := (c.addProgram "main" "RUN sub").2
  let c := (c.addSubroutine "sub" "IF @FatalHaltEp \"stop\"\nENDIF").2
  let c := (c.bindProgram .beginNewEnvironment "first").2
  (c.bindProgram .beginNewEnvironment "main").2.compile

theorem Reachable.fatal_halt_is_final_halting :
    Reachable halting
      ∧ (halting.run .beginNewEnvironment).1
          = .error (.fatalHalt "main" "stop" [⟨"first", .normal⟩, ⟨"main", .fatal⟩])
      ∧ (∃ recorder, (halting.run .beginNewEnvironment).2.machine.log.ofSeverity .fatal
          = [⟨.fatal, some recorder, "stop"⟩])
      ∧ ∀ c', Later (halting.run .beginNewEnvironment).2 c' →
          ∀ point, c'.run point = (.error .terminated, c') := by
  have hreach : Reachable halting :=
    ((((((Reachable.ofSettings .default .zero).does (.addProgram _ _)).does (.addProgram _ _)).does
      (.addSubroutine _ _)).does (.bindProgram _ _)).does (.bindProgram _ _)).does .compile
  have hrun : (halting.run .beginNewEnvironment).1
      = .error (.fatalHalt "main" "stop" [⟨"first", .normal⟩, ⟨"main", .fatal⟩]) := by
    decide +kernel
  obtain ⟨-, hterminated, hrecord, -⟩ := hreach.fatal_halt_is_final.2.2.2.1 _ _ _ _ hrun
  have hafter : Reachable (halting.run .beginNewEnvironment).2 := hreach.does (.run _)
  exact ⟨hreach, hrun, hrecord, hafter.fatal_halt_is_final.2.2.2.2.1 hterminated⟩

end Controller

end Erl
