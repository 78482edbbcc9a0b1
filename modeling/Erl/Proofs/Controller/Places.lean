/-
  Erl.Proofs.Controller.Places

  The places that invocations and runs come to, and what holds of the variables there.

  Evaluating an expression assigns nothing.  A step assigns the value of an expression to one
  variable, or assigns none, or it calls a subroutine.  So what every assignment on the way keeps of
  the variables holds at all places that an invocation comes to, and where it ends, also if it is
  interrupted.  A run invokes one program after another, and what reading the sources keeps as well
  holds wherever the run evaluates an expression, and at its end.
-/

import Erl.Proofs.Controller.RunFrame
import Erl.Proofs.Machine.Breakdown

namespace Erl

/-! ## Ends -/

namespace Exec.EndsIn

variable {α β : Type} {P Q : Machine → Prop}

theorem mono {r : EStateM.Result Interrupt Machine α} (h : EndsIn P r) (hPQ : ∀ m, P m → Q m) :
    EndsIn Q r := by
  cases r with
  | ok a m => exact hPQ m h
  | error e m => exact hPQ m h

/-- The machine of an end. -/
theorem of_eq {r : EStateM.Result Interrupt Machine α} {m : Machine} (h : EndsIn P r)
    (heq : EndsIn (· = m) r) : P m := by
  cases r with
  | ok a m' =>
    cases heq
    exact h
  | error e m' =>
    cases heq
    exact h

/-- Two computations end where the second does after the first, or where the first is
    interrupted. -/
theorem bind {x : Exec α} {f : α → Exec β} {m : Machine} (hx : EndsIn P (x m))
    (hf : ∀ a m', x m = .ok a m' → P m' → EndsIn Q (f a m')) (hPQ : ∀ m', P m' → Q m') :
    EndsIn Q ((x >>= f) m) := by
  cases hxm : x m with
  | ok a m' =>
    rw [hxm] at hx
    rw [Exec.bind_ok hxm]
    exact hf a m' hxm hx
  | error e m' =>
    rw [hxm] at hx
    rw [Exec.bind_error hxm]
    exact hPQ m' hx

end Exec.EndsIn

/-! ## Expressions -/

section Expressions

variable (img : Image)

/-- What assigns nothing keeps all variables. -/
theorem storeLaw (store : Store) :
    Footprint.Law ⟨fun _ => True, fun _ => False, fun _ => True⟩ img
      fun _ x => x.Keeps fun m => m.store = store := by
  have hlasting : Machine.Lasting (fun _ => False) fun m : Machine => m.store = store :=
    ⟨fun _ _ h => h, fun _ _ _ h => h, fun _ _ _ h _ => h.elim⟩
  exact Footprint.law_keeps hlasting (fun _ h => h) img

theorem readOperands_store (program : String) (os : List Operand) (m : Machine) :
    Exec.EndsIn (fun m' => m'.store = m.store) (readOperands (img.evaluate program) os m) := by
  have hlaw := storeLaw img m.store
  exact hlaw.readOperands (fun _ _ => trivial)
    (fun _ _ => hlaw.evaluate fun _ _ => ⟨fun _ _ => trivial, fun _ _ => trivial⟩) m rfl

theorem evaluateLine_store (p : Program) (line : ReadyLine) (e : NodeId) (m : Machine) :
    Exec.EndsIn (fun m' => m'.store = m.store) (evaluateLine img p line e m) := by
  have hlaw := storeLaw img m.store
  refine hlaw.bind ?_ (fun v => hlaw.bind (hlaw.reportError line v) fun _ =>
    hlaw.bind (hlaw.noteLine line _) fun _ => hlaw.pure v) m rfl
  exact hlaw.evaluate fun _ _ => ⟨fun _ _ => trivial, fun _ _ => trivial⟩

variable {img} {p : Program} {line : ReadyLine} {m m' : Machine}

theorem noteLine_store {v : Option Value} (h : noteLine img p line v m = .ok () m') :
    m'.store = m.store := by
  have hnote := (storeLaw img m.store).noteLine (p := p) line v m rfl
  rw [h] at hnote
  exact hnote

/-- The value of a line is that of its expression. -/
theorem exists_of_evaluateLine {e : NodeId} {v : Value}
    (h : evaluateLine img p line e m = .ok v m') : ∃ m₁, img.evaluate p.name e m = .ok v m₁ := by
  obtain ⟨v', m₁, hvalue, h⟩ := Exec.bind_eq_ok_iff.1 h
  obtain ⟨_, m₂, -, h⟩ := Exec.bind_eq_ok_iff.1 h
  obtain ⟨_, m₃, -, h⟩ := Exec.bind_eq_ok_iff.1 h
  cases h
  exact ⟨m₁, hvalue⟩

end Expressions

/-! ## Steps -/

/-- A step at a place runs a line that assigns the value of an expression to a variable. -/
def Program.SetsAt (p : Program) (cursor : Cursor) (target : VariableId) (e : NodeId) : Prop :=
  ∃ index line, cursor = .run index ∧ p.lines[index]? = some line
    ∧ line.instruction = .set target e

theorem Program.SetsAt.expressionAt? {p : Program} {cursor : Cursor} {target : VariableId}
    {e : NodeId} (h : p.SetsAt cursor target e) : p.expressionAt? cursor = some e := by
  obtain ⟨index, line, rfl, hline, hi⟩ := h
  rw [Program.expressionAt?, hline, Option.bind_some, hi]
  rfl

/-- What a step makes of the variables, however it ends. -/
inductive StepMakes (img : Image) (p : Program) (call : Option (ProgramId → Exec Ending))
    (cursor : Cursor) (m : Machine) : Machine → Prop where
  /-- It assigns nothing. -/
  | nothing {m' : Machine} : m'.store = m.store → StepMakes img p call cursor m m'
  /-- It assigns the value of an expression. -/
  | assigned {target : VariableId} {e : NodeId} {v : Value} {m₁ m' : Machine} :
      p.SetsAt cursor target e → img.evaluate p.name e m = .ok v m₁ →
      m'.store = m.store.set target v → StepMakes img p call cursor m m'
  /-- It does what the subroutine does that it calls. -/
  | called {line : ReadyLine} {callee : ProgramId} {m₁ m' : Machine} :
      p.CallsAt cursor line callee → noteLine img p line none m = .ok () m₁ →
      Exec.EndsIn (· = m') (callSubroutine img p call callee m₁) → StepMakes img p call cursor m m'

section Steps

variable {img : Image} {p : Program} {call : Option (ProgramId → Exec Ending)} {m : Machine}

/-- A line that evaluates an expression and then assigns nothing. -/
theorem evaluateLine_bind_makes {line : ReadyLine} {e : NodeId} {cursor : Cursor}
    {f : Value → Exec Progress} (hf : ∀ v m, Exec.EndsIn (fun m' => m'.store = m.store) (f v m)) :
    Exec.EndsIn (StepMakes img p call cursor m) ((evaluateLine img p line e >>= f) m) := by
  refine Exec.EndsIn.bind (evaluateLine_store img p line e m) ?_ fun m' hm' => .nothing hm'
  intro v m₁ _ hm₁
  exact (hf v m₁).mono fun m' hm' => .nothing (hm'.trans hm₁)

theorem runLine_makes (budget : Nat) {index : Nat} {line : ReadyLine}
    (hline : p.lines[index]? = some line) :
    Exec.EndsIn (StepMakes img p call (.run index) m)
      (runLine img p call budget index line m) := by
  unfold runLine
  cases hi : line.instruction with
  | set target e =>
    refine Exec.EndsIn.bind (evaluateLine_store img p line e m) ?_ fun m' hm' => .nothing hm'
    intro v m₁ hvalue hm₁
    obtain ⟨m₂, hvalue⟩ := exists_of_evaluateLine hvalue
    exact .assigned ⟨index, line, rfl, hline, hi⟩ hvalue (congrArg (·.set target v) hm₁)
  | run callee =>
    obtain ⟨m₁, hnote⟩ := noteLine_ok img p line none m
    dsimp only
    rw [Exec.bind_ok hnote]
    -- whatever status the subroutine ends with, nothing is assigned after it
    have hmakes : Exec.EndsIn (StepMakes img p call (.run index) m)
        (callSubroutine img p call callee m₁) := by
      cases hcall : callSubroutine img p call callee m₁ with
      | ok status m₂ => exact .called ⟨index, rfl, hline, hi⟩ hnote (by rw [hcall]; rfl)
      | error i m₂ => exact .called ⟨index, rfl, hline, hi⟩ hnote (by rw [hcall]; rfl)
    refine hmakes.bind (fun status m₂ _ hm₂ => ?_) fun _ h => h
    cases status <;> exact hm₂
  | return_ =>
    obtain ⟨m₁, hnote⟩ := noteLine_ok img p line none m
    dsimp only
    rw [Exec.bind_ok hnote]
    exact .nothing (noteLine_store hnote)
  | if_ e next => exact evaluateLine_bind_makes fun _ _ => rfl
  | while_ e stop =>
    refine evaluateLine_bind_makes fun v m => ?_
    split
    · cases budget <;> exact rfl
    · exact rfl
  | _ => exact .nothing rfl

/-- Every step makes one of these changes. -/
theorem step_makes (budget : Nat) (cursor : Cursor) :
    Exec.EndsIn (StepMakes img p call cursor m) (step img p call budget cursor m) := by
  cases cursor with
  | run index =>
    rw [step]
    cases hline : p.lines[index]? with
    | none => exact .nothing rfl
    | some line => exact runLine_makes budget hline
  | seek index =>
    rw [step, seekLine]
    cases hline : p.lines[index]? with
    | none => exact .nothing rfl
    | some line =>
      cases hi : line.instruction with
      | elseIf e next stop =>
        simp only [hi]
        exact evaluateLine_bind_makes fun _ _ => rfl
      | _ =>
        simp only [hi]
        exact .nothing rfl

/-- A call with no depth left assigns nothing, and any other is an invocation. -/
theorem callSubroutine_calls (img : Image) (p : Program) (depth : Nat) (callee : ProgramId)
    (m : Machine) :
    Exec.EndsIn (fun m' => m'.store = m.store) (callSubroutine img p (img.calls depth) callee m)
      ∨ ∃ left, depth = left + 1
        ∧ callSubroutine img p (img.calls depth) callee m = img.invoke left callee m := by
  cases depth with
  | zero => exact .inl rfl
  | succ left => exact .inr ⟨left, rfl, rfl⟩

/-- A step keeps what its assignment keeps and what the subroutine that it calls keeps. -/
theorem step_keeps {P : Store → Prop} {depth : Nat} (budget : Nat) {cursor : Cursor}
    (hset : ∀ target e v m₁, p.SetsAt cursor target e → img.evaluate p.name e m = .ok v m₁ →
      P (m.store.set target v))
    (hcall : ∀ line callee left m₁, p.CallsAt cursor line callee →
      noteLine img p line none m = .ok () m₁ → depth = left + 1 → P m₁.store →
      Exec.EndsIn (fun m' => P m'.store) (img.invoke left callee m₁))
    (hm : P m.store) :
    Exec.EndsIn (fun m' => P m'.store) (step img p (img.calls depth) budget cursor m) := by
  refine (step_makes budget cursor).mono fun m' hmakes => ?_
  cases hmakes with
  | nothing hstore => rwa [hstore]
  | assigned hsets hvalue hstore =>
    rw [hstore]
    exact hset _ _ _ _ hsets hvalue
  | @called line callee m₁ _ hcalls hnote hends =>
    have hm₁ : P m₁.store := by rwa [noteLine_store hnote]
    rcases callSubroutine_calls img p depth callee m₁ with hnothing | ⟨left, rfl, hinvoke⟩
    · have hstore : m'.store = m₁.store := hnothing.of_eq hends
      rwa [hstore]
    · rw [hinvoke] at hends
      exact (hcall line callee left m₁ hcalls hnote rfl hm₁).of_eq hends

end Steps

/-! ## Invocations -/

/-- An invocation comes to a place, in its own program or in a subroutine that it calls. -/
inductive Image.ComesTo (img : Image) (q : Program) (at_ : Cursor) (m' : Machine) :
    Nat → ProgramId → Machine → Prop where
  | here {depth budget : Nat} {id : ProgramId} {m : Machine} :
      img.programs[id]? = some q →
      Walks img q (img.calls depth) img.settings.limits.loopEntries (.run 0) m budget at_ m' →
      ComesTo img q at_ m' depth id m
  | call {depth budget : Nat} {id callee : ProgramId} {p : Program} {line : ReadyLine}
      {cursor : Cursor} {m m₁ m₂ : Machine} :
      img.programs[id]? = some p →
      Walks img p (img.calls (depth + 1)) img.settings.limits.loopEntries (.run 0) m budget cursor
        m₁ →
      p.CallsAt cursor line callee → noteLine img p line none m₁ = .ok () m₂ →
      ComesTo img q at_ m' depth callee m₂ → ComesTo img q at_ m' (depth + 1) id m

section Invocations

variable {img : Image} {P : Store → Prop}

/-- What all steps keep that an invocation may take holds at the places that they lead to. -/
theorem Walks.keeps {p : Program} {call : Option (ProgramId → Exec Ending)}
    {budget budget' : Nat} {cursor cursor' : Cursor} {m m' : Machine}
    (h : Walks img p call budget cursor m budget' cursor' m')
    (hstep : ∀ budget' cursor' m', Walks img p call budget cursor m budget' cursor' m' →
      P m'.store → Exec.EndsIn (fun m => P m.store) (Erl.step img p call budget' cursor' m'))
    (hm : P m.store) : P m'.store := by
  induction h with
  | refl => exact hm
  | step hfirst _ ih =>
    have hnext := hstep _ _ _ .refl hm
    rw [hfirst] at hnext
    exact ih (fun _ _ _ hwalks => hstep _ _ _ (.step hfirst hwalks)) hnext

/-- What all steps keep that an invocation may take holds at its end. -/
theorem walk_keeps {p : Program} {call : Option (ProgramId → Exec Ending)}
    {steps budget : Nat} {cursor : Cursor} {m : Machine}
    (hstep : ∀ budget' cursor' m', Walks img p call budget cursor m budget' cursor' m' →
      P m'.store → Exec.EndsIn (fun m => P m.store) (step img p call budget' cursor' m'))
    (hm : P m.store) :
    Exec.EndsIn (fun m => P m.store) (walk img p call steps budget cursor m) := by
  induction steps generalizing budget cursor m with
  | zero => exact hm
  | succ steps ih =>
    rw [walk]
    refine (hstep _ _ _ .refl hm).bind (fun progress m₁ hfirst hm₁ => ?_) fun _ h => h
    cases progress with
    | halt status => exact hm₁
    | next budget₁ cursor₁ =>
      exact ih (fun _ _ _ hwalks => hstep _ _ _ (.step hfirst hwalks)) hm₁

/-- What every assignment on the way keeps holds at the end of an invocation and at all places that
    it comes to. -/
theorem Image.invoke_invariant {depth : Nat} {id : ProgramId} {m : Machine}
    (hset : ∀ q cursor m', img.ComesTo q cursor m' depth id m → P m'.store →
      ∀ target e v m₁, q.SetsAt cursor target e → img.evaluate q.name e m' = .ok v m₁ →
        P (m'.store.set target v))
    (hm : P m.store) :
    Exec.EndsIn (fun m' => P m'.store) (img.invoke depth id m)
      ∧ ∀ q cursor m', img.ComesTo q cursor m' depth id m → P m'.store := by
  -- by induction on the depth: subroutines run one level deeper
  induction depth using Nat.strongRecOn generalizing id m with
  | ind depth ih =>
    cases hp : img.programs[id]? with
    | none =>
      rw [img.invoke_eq, Image.start, hp]
      refine ⟨hm, fun q cursor m' hcomes => ?_⟩
      cases hcomes with
      | here hq => simp [hp] at hq
      | call hq => simp [hp] at hq
    | some p =>
      have hstep : ∀ budget cursor m₁, Walks img p (img.calls depth)
            img.settings.limits.loopEntries (.run 0) m budget cursor m₁ → P m₁.store →
          Exec.EndsIn (fun m => P m.store) (step img p (img.calls depth) budget cursor m₁) := by
        intro budget cursor m₁ hwalks hm₁
        refine step_keeps budget (hset p cursor m₁ (.here hp hwalks) hm₁) ?_ hm₁
        rintro line callee left m₂ hcalls hnote rfl hm₂
        exact (ih left (by omega) (fun q at_ m' hcomes =>
          hset q at_ m' (.call hp hwalks hcalls hnote hcomes)) hm₂).1
      constructor
      · rw [img.invoke_eq, Image.start, hp]
        exact walk_keeps hstep hm
      · intro q at_ m' hcomes
        cases hcomes with
        | here hq hwalks =>
          cases hp.symm.trans hq
          exact hwalks.keeps hstep hm
        | @call depth budget _ callee _ line cursor _ m₁ m₂ hq hwalks hcalls hnote hcomes =>
          cases hp.symm.trans hq
          have hm₂ : P m₂.store := by
            rw [noteLine_store hnote]
            exact hwalks.keeps hstep hm
          exact (ih depth (by omega) (fun q at_ m' hcomes =>
            hset q at_ m' (.call hp hwalks hcalls hnote hcomes)) hm₂).2 q at_ m' hcomes

/-- An invocation comes to the evaluation of an expression exactly if it comes to a place where one
    is evaluated. -/
theorem Image.comes_iff {program : String} {e : NodeId} {m' : Machine} {depth : Nat}
    {id : ProgramId} {m : Machine} :
    img.Comes program e m' depth id m ↔ ∃ q cursor, img.ComesTo q cursor m' depth id m
      ∧ q.name = program ∧ q.expressionAt? cursor = some e := by
  constructor
  · intro h
    induction h with
    | here hp hname hwalks he => exact ⟨_, _, .here hp hwalks, hname, he⟩
    | call hp hwalks hcalls hnote _ ih =>
      obtain ⟨q, cursor, hcomes, hname, he⟩ := ih
      exact ⟨q, cursor, .call hp hwalks hcalls hnote hcomes, hname, he⟩
  · rintro ⟨q, cursor, hcomes, hname, he⟩
    induction hcomes with
    | here hq hwalks => exact .here hq hname hwalks he
    | call hp hwalks hcalls hnote _ ih => exact .call hp hwalks hcalls hnote ih

end Invocations

/-! ## Runs -/

/-- Programs that run one after another come to the turn of one. -/
def Image.ComesToTurn (img : Image) (m : Machine) (programs : List ProgramId) (id : ProgramId)
    (m' : Machine) : Prop :=
  ∃ before after ended, programs = before ++ id :: after ∧ img.Runs m before ended m'

/-- What every program keeps whose turn comes holds when its turn comes, and at the end. -/
theorem Image.runAll_invariant {img : Image} {P : Store → Prop} {programs : List ProgramId}
    {m : Machine}
    (hturn : ∀ id m', img.ComesToTurn m programs id m' → P m'.store →
      Exec.EndsIn (fun m => P m.store) (img.runMain id m'))
    (hm : P m.store) :
    P (img.runAll m programs).2.2.store
      ∧ ∀ id m', img.ComesToTurn m programs id m' → P m'.store := by
  induction programs generalizing m with
  | nil =>
    refine ⟨hm, ?_⟩
    rintro id m' ⟨before, after, ended, hprograms, -⟩
    simp at hprograms
  | cons id rest ih =>
    have hfirst := hturn id m ⟨[], rest, [], rfl, .nil⟩ hm
    rw [runAll]
    cases hmain : img.runMain id m with
    | error interrupt m₁ =>
      rw [hmain] at hfirst
      refine ⟨hfirst, ?_⟩
      -- no other turn comes
      rintro id' m' ⟨before, after, ended, hprograms, hruns⟩
      cases hruns with
      | nil => exact hm
      | cons hok _ =>
        cases (List.cons.inj hprograms).1
        rw [hmain] at hok
        cases hok
    | ok status m₁ =>
      rw [hmain] at hfirst
      obtain ⟨hlast, hturns⟩ := ih (m := m₁) (fun id' m' hcomes => by
        obtain ⟨before, after, ended, rfl, hruns⟩ := hcomes
        exact hturn id' m' ⟨id :: before, after, _, rfl, .cons hmain hruns⟩) hfirst
      refine ⟨hlast, ?_⟩
      rintro id' m' ⟨before, after, ended, hprograms, hruns⟩
      cases hruns with
      | nil => exact hm
      | @cons _ m₂ _ _ _ before ended hok hruns =>
        obtain ⟨rfl, hrest⟩ := List.cons.inj hprograms
        cases hmain.symm.trans hok
        exact hturns id' m' ⟨before, after, ended, hrest, hruns⟩

namespace Controller

variable {c : Controller} {point : CallingPoint} {P : Store → Prop}

/-- A run comes to the evaluation of an expression. -/
def Evaluates (c : Controller) (point : CallingPoint) (program : String) (e : NodeId)
    (m : Machine) : Prop :=
  ∃ store id m₁, c.Starts point store
    ∧ c.image.ComesToTurn { c.machine with store } (c.schedule.programs point) id m₁
    ∧ c.image.Comes program e m c.image.settings.limits.depth id m₁

/-- What reading the sources and every assignment keep holds where a run evaluates expressions, and
    at its end. -/
theorem run_invariant (hrefreshed : ∀ store, c.Starts point store → P store)
    (hset : ∀ program e m, c.Evaluates point program e m → P m.store →
      ∀ v m', c.image.evaluate program e m = .ok v m' → ∀ target, P (m.store.set target v))
    (hm : P c.machine.store) :
    P (c.run point).2.machine.store
      ∧ ∀ program e m, c.Evaluates point program e m → P m.store := by
  have hinvoke : ∀ store id m₁, c.Starts point store →
      c.image.ComesToTurn { c.machine with store } (c.schedule.programs point) id m₁ →
      P m₁.store → Exec.EndsIn (fun m => P m.store) (c.image.runMain id m₁)
        ∧ ∀ q cursor m', c.image.ComesTo q cursor m' c.image.settings.limits.depth id m₁ →
          P m'.store := by
    intro store id m₁ hstarts hturn hm₁
    refine Image.invoke_invariant (fun q cursor m' hcomes hm' target e v m₂ hsets hvalue => ?_) hm₁
    have hevaluates : c.Evaluates point q.name e m' := ⟨store, id, m₁, hstarts, hturn,
      Image.comes_iff.2 ⟨q, cursor, hcomes, rfl, hsets.expressionAt?⟩⟩
    exact hset q.name e m' hevaluates hm' v m₂ hvalue target
  have hprograms := fun store (hstarts : c.Starts point store) =>
    Image.runAll_invariant (m := { c.machine with store })
      (fun id m₁ hturn hm₁ => (hinvoke store id m₁ hstarts hturn hm₁).1) (hrefreshed store hstarts)
  constructor
  · rcases (c.run_runsTo point).store with ⟨hsame, -⟩ | ⟨store, -, hstarts, -⟩
    · rwa [hsame]
    · obtain ⟨log, -, hmachine⟩ := c.runPrograms_machine store (c.schedule.programs point)
      rw [hstarts.run_eq, hmachine]
      exact (hprograms store hstarts).1
  · rintro program e m ⟨store, id, m₁, hstarts, hturn, hcomes⟩
    obtain ⟨q, cursor, hcomes, -⟩ := Image.comes_iff.1 hcomes
    have hm₁ := (hprograms store hstarts).2 id m₁ hturn
    exact (hinvoke store id m₁ hstarts hturn hm₁).2 q cursor m hcomes

end Controller

end Erl
