/-
  Erl.Proofs.Machine.Breakdown

  Where runs break down.

  A computation breaks down where one of its parts does, after the parts before it came to their
  ends.  Followed down to the operands of expressions, this leads to one place: a call of a numeric
  function whose routine breaks down.  With the standard routines that is a normal draw with a bound
  that is not a number.  `Asks` is the way from an expression to such a call, and `Comes` the way
  from an invocation to the expression, through the steps before and the subroutines that are
  called.
-/

import Erl.Proofs.Machine.Checked
import Erl.Proofs.Routine

namespace Erl

/-! ## Computations -/

/-- A computation that breaks down on a machine. -/
def Exec.Breaks {α : Type} (x : Exec α) (m : Machine) : Prop :=
  ∃ m', x m = .error .breakdown m'

namespace Exec

variable {α β : Type} {m : Machine}

theorem not_breaks_of_ok {x : Exec α} {a : α} {m' : Machine} (h : x m = .ok a m') :
    ¬ x.Breaks m := by
  rintro ⟨m'', hbreaks⟩
  rw [h] at hbreaks
  cases hbreaks

theorem not_breaks_pure (a : α) : ¬ (pure a : Exec α).Breaks m :=
  not_breaks_of_ok rfl

/-- Two computations break down if the first does, or the second after the first has ended. -/
theorem bind_breaks_iff {x : Exec α} {f : α → Exec β} :
    (x >>= f).Breaks m ↔ x.Breaks m ∨ ∃ a m', x m = .ok a m' ∧ (f a).Breaks m' := by
  unfold Breaks
  cases hx : x m with
  | ok a m' => simp [bind_ok hx, and_assoc]
  | error e m' => simp [bind_error hx]

theorem ok_bind_breaks_iff {x : Exec α} {f : α → Exec β} {a : α} {m' : Machine}
    (h : x m = .ok a m') : (x >>= f).Breaks m ↔ (f a).Breaks m' := by
  unfold Breaks
  rw [bind_ok h]

/-- A computation with nothing but ends after it. -/
theorem bind_breaks_iff_of_ok {x : Exec α} {f : α → Exec β}
    (hf : ∀ a m, ∃ b m', f a m = .ok b m') : (x >>= f).Breaks m ↔ x.Breaks m := by
  rw [bind_breaks_iff]
  refine or_iff_left ?_
  rintro ⟨a, m', -, hbreaks⟩
  obtain ⟨b, m'', hok⟩ := hf a m'
  exact not_breaks_of_ok hok hbreaks

/-- What a computation does with the machine that it starts from. -/
theorem get_bind_breaks_iff {f : Machine → Exec β} :
    (MonadState.get >>= f).Breaks m ↔ (f m).Breaks m :=
  Iff.rfl

theorem set_bind_breaks_iff {m₁ : Machine} {x : Exec β} :
    ((MonadStateOf.set m₁ : Exec PUnit) >>= fun _ => x).Breaks m ↔ x.Breaks m₁ :=
  Iff.rfl

end Exec

/-! ## Functions -/

theorem callMessage_not_breaks (program : String) (f : MessageFunction) (args : List Value)
    (m : Machine) : ¬ (callMessage program f args).Breaks m := by
  rintro ⟨m', h⟩
  cases f <;> cases h

section Functions

variable {img : Image} (hroutines : img.routines = .standard) {program : String} {m : Machine}
include hroutines

theorem callRoutine_breaks_iff (f : Builtin) (args : List Value) :
    (callRoutine img f args).Breaks m
      ↔ ∃ xs, numericArguments f args = .ok xs ∧ CutsToNaN f xs := by
  unfold callRoutine
  cases hxs : numericArguments f args with
  | error fault => exact iff_of_false (Exec.not_breaks_pure _) (by simp)
  | ok xs =>
    have hbreakdown : (img.routines f xs m.generator).1 = .breakdown
        ↔ ∃ ys, (Except.ok xs : Except EvalFault (List Float)) = .ok ys ∧ CutsToNaN f ys := by
      rw [hroutines, Routines.standard_eq_breakdown_iff]
      simp
    rw [← hbreakdown]
    refine Exec.get_bind_breaks_iff.trans ?_
    generalize img.routines f xs m.generator = r
    obtain ⟨reply, generator⟩ := r
    refine Exec.set_bind_breaks_iff.trans ?_
    cases reply with
    | value x => exact iff_of_false (Exec.not_breaks_pure _) (by simp)
    | refused e => exact iff_of_false (Exec.not_breaks_pure _) (by simp)
    | breakdown => exact iff_of_true ⟨_, rfl⟩ rfl

/-- A built-in function breaks down where it cuts to a bound that is not a number. -/
theorem applyBuiltin_breaks_iff (f : Builtin) (args : List Value) :
    (applyBuiltin img program f args).Breaks m
      ↔ ∃ xs, numericArguments f args = .ok xs ∧ CutsToNaN f xs := by
  -- only mathematical functions draw
  have hnone : ∀ g, (∀ k, g ≠ .math k) →
      ¬ ∃ xs, numericArguments g args = .ok xs ∧ CutsToNaN g xs := by
    rintro g hg ⟨xs, -, hcuts⟩
    cases hcuts
    exact hg _ rfl
  cases f with
  | math f => exact callRoutine_breaks_iff hroutines _ _
  | air f => exact callRoutine_breaks_iff hroutines _ _
  | message f => exact iff_of_false (callMessage_not_breaks _ f args m) (hnone _ (by simp))
  | trend f => exact iff_of_false (Exec.not_breaks_pure _) (hnone _ (by simp))
  | curveValue => exact iff_of_false (Exec.not_breaks_pure _) (hnone _ (by simp))

/-- An operation on as many values as it takes breaks down if it is a call that does. -/
theorem Operation.apply_breaks_iff {o : Operation} {args : List Value}
    (harity : o.arity.accepts args.length = true) :
    (o.apply img program args).Breaks m
      ↔ ∃ f xs, o = .call f ∧ numericArguments f args = .ok xs ∧ CutsToNaN f xs := by
  by_cases hcall : ∃ f, o = .call f
  · obtain ⟨f, rfl⟩ := hcall
    have happly : (Operation.call f).apply img program args = applyBuiltin img program f args :=
      if_pos harity
    rw [happly, applyBuiltin_breaks_iff hroutines]
    simp
  · -- any other operation has a value at once
    have hpure : ∃ v, o.apply img program args = pure v := by
      unfold Operation.apply
      split
      · exact ⟨_, rfl⟩
      · exact ⟨_, rfl⟩
      · exact ⟨_, rfl⟩
      · exact absurd ⟨_, rfl⟩ hcall
      · exact ⟨_, rfl⟩
    obtain ⟨v, hv⟩ := hpure
    rw [hv]
    refine iff_of_false (Exec.not_breaks_pure v) ?_
    rintro ⟨f, xs, hf, -⟩
    exact hcall ⟨f, hf⟩

end Functions

/-! ## Expressions -/

section Operands

variable {sub : NodeId → Exec Value} {m : Machine}

theorem Operand.read_breaks_iff (o : Operand) :
    (o.read sub).Breaks m ↔ ∃ e, o = .node e ∧ (sub e).Breaks m := by
  cases o with
  | node e => simp [Operand.read]
  | constant l => exact iff_of_false (Exec.not_breaks_pure _) (by simp)
  | trendRef t => exact iff_of_false (Exec.not_breaks_pure _) (by simp)
  | variableRef v => exact iff_of_false (Exec.not_breaks_of_ok rfl) (by simp)

/-- Operands break down where one of them does, after those before it have values. -/
theorem readOperands_breaks_iff (os : List Operand) :
    (readOperands sub os).Breaks m ↔
      ∃ before e after values m', os = before ++ .node e :: after
        ∧ readOperands sub before m = .ok (.ok values) m' ∧ (sub e).Breaks m' := by
  induction os generalizing m with
  | nil => exact iff_of_false (Exec.not_breaks_pure _) (by simp)
  | cons o rest ih =>
    constructor
    · intro h
      rw [readOperands, Exec.bind_breaks_iff] at h
      rcases h with h | ⟨v, m₁, hread, h⟩
      · obtain ⟨e, rfl, he⟩ := (Operand.read_breaks_iff o).1 h
        exact ⟨[], e, rest, [], m, rfl, rfl, he⟩
      · -- the first operand has a value; if that is an error, the others are not read
        split at h
        · exact absurd h (Exec.not_breaks_pure _)
        · next hvalue =>
          have hrest : (readOperands sub rest).Breaks m₁ := by
            rcases Exec.bind_breaks_iff.1 h with hrest | ⟨r, m₂, -, hpure⟩
            · exact hrest
            · cases r <;> exact absurd hpure (Exec.not_breaks_pure _)
          obtain ⟨before, e, after, values, m', rfl, hbefore, he⟩ := ih.1 hrest
          refine ⟨o :: before, e, after, v :: values, m', rfl, ?_, he⟩
          exact (readOperands_cons_eq_ok_iff sub).2
            ⟨v, values, m₁, hread, by simpa using hvalue, hbefore, rfl⟩
    · rintro ⟨before, e, after, values, m', hos, hbefore, he⟩
      cases before with
      | nil =>
        cases hos
        cases hbefore
        exact Exec.bind_breaks_iff.2 (.inl he)
      | cons o' before =>
        cases hos
        obtain ⟨v, values', m₁, hread, hvalue, hrest, rfl⟩ :=
          (readOperands_cons_eq_ok_iff sub).1 hbefore
        have hbreaks := ih.2 ⟨before, e, after, values', m', rfl, hrest, he⟩
        refine Exec.bind_breaks_iff.2 (.inr ⟨v, m₁, hread, ?_⟩)
        rw [hvalue, if_neg Bool.false_ne_true]
        exact Exec.bind_breaks_iff.2 (.inl hbreaks)

end Operands

/-- The evaluation of an expression comes to a call of a function on numbers: its own, or one that
    the evaluation of an operand comes to, after the operands before it. -/
inductive Image.Asks (img : Image) (program : String) (f : Builtin) (xs : List Float) :
    NodeId → Machine → Prop where
  | call {e : NodeId} {os : List Operand} {args : List Value} {m m' : Machine} :
      img.nodes[e]? = some ⟨.call f, os⟩ →
      readOperands (img.evaluate program) os m = .ok (.ok args) m' →
      numericArguments f args = .ok xs → Asks img program f xs e m
  | operand {e sub : NodeId} {n : Node} {before after : List Operand} {values : List Value}
      {m m' : Machine} :
      img.nodes[e]? = some n → n.operands = before ++ .node sub :: after →
      readOperands (img.evaluate program) before m = .ok (.ok values) m' →
      Asks img program f xs sub m' → Asks img program f xs e m

section Nodes

variable {img : Image} (hroutines : img.routines = .standard) {program : String}
include hroutines

/-- A node breaks down where one of its operands does, or its own call on their values. -/
theorem Node.evaluate_breaks_iff {n : Node} {sub : NodeId → Exec Value} {m : Machine}
    (harity : n.operation.arity.accepts n.operands.length = true) :
    (n.evaluate img program sub).Breaks m ↔ (readOperands sub n.operands).Breaks m
      ∨ ∃ f xs args m', n.operation = .call f ∧ readOperands sub n.operands m = .ok (.ok args) m'
        ∧ numericArguments f args = .ok xs ∧ CutsToNaN f xs := by
  unfold Node.evaluate
  split
  · -- a literal has one operand, and is read like it
    next o rest hoperation hoperands =>
    rw [hoperation, hoperands] at harity
    obtain rfl : rest = [] := by simpa [Operation.arity, Arity.accepts] using harity
    rw [hoperation, hoperands]
    constructor
    · intro hbreaks
      exact .inl (Exec.bind_breaks_iff.2 (.inl hbreaks))
    · rintro (hbreaks | ⟨f, -, -, -, hcall, -⟩)
      · obtain ⟨before, e, after, values, m', hos, hbefore, he⟩ :=
          (readOperands_breaks_iff [o]).1 hbreaks
        cases before with
        | nil =>
          cases hos
          cases hbefore
          exact he
        | cons o' before => simp at hos
      · cases hcall
  · next hoperation hoperands =>
    rw [hoperation, hoperands] at harity
    exact absurd harity (by decide)
  · rw [Exec.bind_breaks_iff]
    refine or_congr Iff.rfl ⟨?_, ?_⟩
    · rintro ⟨r, m', hread, hbreaks⟩
      cases r with
      | error v => exact absurd hbreaks (Exec.not_breaks_pure _)
      | ok args =>
        rw [← length_of_readOperands sub hread] at harity
        obtain ⟨f, xs, hf, hxs, hcuts⟩ := (Operation.apply_breaks_iff hroutines harity).1 hbreaks
        exact ⟨f, xs, args, m', hf, hread, hxs, hcuts⟩
    · rintro ⟨f, xs, args, m', hf, hread, hxs, hcuts⟩
      rw [← length_of_readOperands sub hread] at harity
      exact ⟨_, m', hread, (Operation.apply_breaks_iff hroutines harity).2 ⟨f, xs, hf, hxs, hcuts⟩⟩

/-- The evaluation of an expression breaks down exactly if it comes to a cut to a bound that is not
    a number. -/
theorem Image.evaluate_breaks_iff {vars trends : Nat} (h : NodesInRange vars trends img.nodes)
    (e : NodeId) (m : Machine) :
    (img.evaluate program e).Breaks m ↔ ∃ f xs, CutsToNaN f xs ∧ img.Asks program f xs e m := by
  have hforest := h.isForest
  constructor
  · -- by induction on the position: operands stand before the node
    intro hbreaks
    induction e using Nat.strongRecOn generalizing m with
    | ind e ih =>
      cases hn : img.nodes[e]? with
      | none =>
        rw [Image.evaluate, hn] at hbreaks
        exact absurd hbreaks (Exec.not_breaks_pure _)
      | some n =>
        rw [img.evaluate_eq program hn (hforest e n hn),
          Node.evaluate_breaks_iff hroutines (h e n hn).arity] at hbreaks
        rcases hbreaks with hbreaks | ⟨f, xs, args, m', hf, hread, hxs, hcuts⟩
        · obtain ⟨before, sub, after, values, m', hos, hbefore, hsub⟩ :=
            (readOperands_breaks_iff _).1 hbreaks
          have hlt : sub < e := hforest e n hn (.node sub) (by simp [hos])
          obtain ⟨f, xs, hcuts, hasks⟩ := ih sub hlt m' hsub
          exact ⟨f, xs, hcuts, .operand hn hos hbefore hasks⟩
        · obtain ⟨operation, os⟩ := n
          cases hf
          exact ⟨f, xs, hcuts, .call hn hread hxs⟩
  · rintro ⟨f, xs, hcuts, hasks⟩
    induction hasks with
    | call hn hread hxs =>
      rw [img.evaluate_eq program hn (hforest _ _ hn),
        Node.evaluate_breaks_iff hroutines (h _ _ hn).arity]
      exact .inr ⟨f, xs, _, _, rfl, hread, hxs, hcuts⟩
    | operand hn hos hbefore _ ih =>
      rw [img.evaluate_eq program hn (hforest _ _ hn),
        Node.evaluate_breaks_iff hroutines (h _ _ hn).arity, readOperands_breaks_iff]
      exact .inl ⟨_, _, _, _, _, hos, hbefore, ih⟩

end Nodes

/-! ## Steps -/

/-- The expression that is evaluated when a line is run. -/
def Instruction.evaluated? {τ ε σ : Type} : Instruction τ ε σ → Option ε
  | set _ value => some value
  | if_ condition _ => some condition
  | while_ condition _ => some condition
  | _ => none

/-- The expression that is evaluated when a branch is tried. -/
def Instruction.tried? {τ ε σ : Type} : Instruction τ ε σ → Option ε
  | elseIf condition _ _ => some condition
  | _ => none

/-- The expression that a step at a place evaluates. -/
def Program.expressionAt? (p : Program) : Cursor → Option NodeId
  | .run index => p.lines[index]?.bind fun line => line.instruction.evaluated?
  | .seek index => p.lines[index]?.bind fun line => line.instruction.tried?

/-- A step at a place runs a line that calls a subroutine. -/
def Program.CallsAt (p : Program) (cursor : Cursor) (line : ReadyLine) (callee : ProgramId) :
    Prop :=
  ∃ index, cursor = .run index ∧ p.lines[index]? = some line ∧ line.instruction = .run callee

section Steps

variable {img : Image} {p : Program} {call : Option (ProgramId → Exec Ending)} {m : Machine}

theorem noteLine_ok (img : Image) (p : Program) (line : ReadyLine) (v : Option Value)
    (m : Machine) :
    ∃ m', noteLine img p line v m = .ok () m' := by
  unfold noteLine
  split <;> exact ⟨_, rfl⟩

theorem reportError_ok (line : ReadyLine) (v : Value) (m : Machine) :
    ∃ m', reportError img p line v m = .ok () m' := by
  unfold reportError
  split
  · split <;> exact ⟨_, rfl⟩
  · exact ⟨_, rfl⟩

theorem evaluateLine_breaks_iff (line : ReadyLine) (e : NodeId) :
    (evaluateLine img p line e).Breaks m ↔ (img.evaluate p.name e).Breaks m := by
  refine Exec.bind_breaks_iff_of_ok fun v m => ?_
  obtain ⟨m₁, hreport⟩ := reportError_ok line v m
  obtain ⟨m₂, hnote⟩ := noteLine_ok img p line (some v) m₁
  exact ⟨v, m₂, by rw [Exec.bind_ok hreport, Exec.bind_ok hnote]; rfl⟩

theorem enterLoop_ok (budget line : Nat) (m : Machine) :
    ∃ progress m', enterLoop img p budget line m = .ok progress m' := by
  cases budget <;> exact ⟨_, _, rfl⟩

theorem callSubroutine_breaks_iff (callee : ProgramId) :
    (callSubroutine img p call callee).Breaks m ↔ ∃ f, call = some f ∧ (f callee).Breaks m := by
  cases call with
  | none => exact iff_of_false (Exec.not_breaks_of_ok rfl) (by simp)
  | some f => simp [callSubroutine]

/-- A line breaks down where its expression does, or the subroutine that it calls. -/
theorem runLine_breaks_iff (budget index : Nat) (line : ReadyLine) :
    (runLine img p call budget index line).Breaks m ↔
      (∃ e, line.instruction.evaluated? = some e ∧ (img.evaluate p.name e).Breaks m)
        ∨ ∃ callee f m₁, line.instruction = .run callee ∧ call = some f
          ∧ noteLine img p line none m = .ok () m₁ ∧ (f callee).Breaks m₁ := by
  -- whatever a line does with a value, it does not break down over it
  have hvalue : ∀ (e : NodeId) (rest : Value → Exec Progress),
      (∀ v m, ∃ progress m', rest v m = .ok progress m') →
      ((evaluateLine img p line e >>= rest).Breaks m ↔ (img.evaluate p.name e).Breaks m) :=
    fun e rest hrest => (Exec.bind_breaks_iff_of_ok hrest).trans (evaluateLine_breaks_iff line e)
  obtain ⟨m₁, hnote⟩ := noteLine_ok img p line none m
  unfold runLine
  cases hi : line.instruction with
  | set target e =>
    refine (hvalue e _ fun v m => ⟨_, _, rfl⟩).trans ?_
    simp [Instruction.evaluated?]
  | run callee =>
    refine (Exec.ok_bind_breaks_iff hnote).trans ?_
    refine (Exec.bind_breaks_iff_of_ok fun status m => ?_).trans ?_
    · cases status <;> exact ⟨_, _, rfl⟩
    · rw [callSubroutine_breaks_iff]
      simp [hnote, Instruction.evaluated?]
  | return_ =>
    refine (Exec.ok_bind_breaks_iff hnote).trans ?_
    exact iff_of_false (Exec.not_breaks_pure _) (by simp [Instruction.evaluated?])
  | if_ e next =>
    refine (hvalue e _ fun v m => ⟨_, _, rfl⟩).trans ?_
    simp [Instruction.evaluated?]
  | while_ e stop =>
    refine (hvalue e _ fun v m => ?_).trans ?_
    · split
      · exact enterLoop_ok _ _ _
      · exact ⟨_, _, rfl⟩
    · simp [Instruction.evaluated?]
  | _ => exact iff_of_false (Exec.not_breaks_pure _) (by simp [Instruction.evaluated?])

/-- A step breaks down where the expression that it evaluates does, or the subroutine that it
    calls. -/
theorem step_breaks_iff (budget : Nat) (cursor : Cursor) :
    (step img p call budget cursor).Breaks m ↔
      (∃ e, p.expressionAt? cursor = some e ∧ (img.evaluate p.name e).Breaks m)
        ∨ ∃ line callee f m₁, p.CallsAt cursor line callee ∧ call = some f
          ∧ noteLine img p line none m = .ok () m₁ ∧ (f callee).Breaks m₁ := by
  cases cursor with
  | run index =>
    rw [step, Program.expressionAt?]
    cases hline : p.lines[index]? with
    | none => exact iff_of_false (Exec.not_breaks_pure _) (by simp [Program.CallsAt, hline])
    | some line =>
      refine (runLine_breaks_iff budget index line).trans (or_congr Iff.rfl ?_)
      constructor
      · rintro ⟨callee, f, m₁, hi, hf, hnote, hbreaks⟩
        exact ⟨line, callee, f, m₁, ⟨index, rfl, hline, hi⟩, hf, hnote, hbreaks⟩
      · rintro ⟨line', callee, f, m₁, ⟨index', heq, hline', hi⟩, hf, hnote, hbreaks⟩
        cases heq
        cases hline.symm.trans hline'
        exact ⟨callee, f, m₁, hi, hf, hnote, hbreaks⟩
  | seek index =>
    -- conditions of branches are evaluated while one is looked for, but nothing is called
    have hnocall : ¬ ∃ line callee f m₁, p.CallsAt (.seek index) line callee ∧ call = some f
        ∧ noteLine img p line none m = .ok () m₁ ∧ (f callee).Breaks m₁ := by
      rintro ⟨line, callee, f, m₁, ⟨index', heq, -⟩, -⟩
      cases heq
    rw [or_iff_left hnocall, step, seekLine, Program.expressionAt?]
    cases p.lines[index]? with
    | none => exact iff_of_false (Exec.not_breaks_pure _) (by simp)
    | some line =>
      dsimp only
      split
      · next e next stop hi =>
        refine (Exec.bind_breaks_iff_of_ok fun v m => ⟨_, _, rfl⟩).trans ?_
        rw [evaluateLine_breaks_iff]
        simp [hi, Instruction.tried?]
      · next hi =>
        refine iff_of_false (Exec.not_breaks_pure _) ?_
        rintro ⟨e, he, -⟩
        cases h : line.instruction with
        | elseIf e next stop => exact hi e next stop h
        | _ => simp [h, Instruction.tried?] at he

end Steps

/-! ## Invocations -/

/-- The steps of an invocation lead from one place to another. -/
inductive Walks (img : Image) (p : Program) (call : Option (ProgramId → Exec Ending)) :
    Nat → Cursor → Machine → Nat → Cursor → Machine → Prop where
  | refl {budget : Nat} {cursor : Cursor} {m : Machine} :
      Walks img p call budget cursor m budget cursor m
  | step {budget budget' budget'' : Nat} {cursor cursor' cursor'' : Cursor} {m m' m'' : Machine} :
      step img p call budget cursor m = .ok (.next budget' cursor') m' →
      Walks img p call budget' cursor' m' budget'' cursor'' m'' →
      Walks img p call budget cursor m budget'' cursor'' m''

section Walks

variable {img : Image} {p : Program} {call : Option (ProgramId → Exec Ending)}

/-- Steps that lead to an interrupt lead to a step that is interrupted. -/
theorem Ends.walks {budget : Nat} {cursor : Cursor} {m m' : Machine} {i : Interrupt}
    (h : Ends img p call budget cursor m (.error i m')) :
    ∃ budget' cursor' m₁, Walks img p call budget cursor m budget' cursor' m₁
      ∧ step img p call budget' cursor' m₁ = .error i m' := by
  generalize hr : (.error i m' : EStateM.Result Interrupt Machine Ending) = r at h
  induction h with
  | next hstep _ ih =>
    obtain ⟨budget', cursor', m₁, hwalks, hlast⟩ := ih hr
    exact ⟨budget', cursor', m₁, .step hstep hwalks, hlast⟩
  | halt hstep => cases hr
  | interrupt hstep =>
    cases hr
    exact ⟨_, _, _, .refl, hstep⟩

/-- An invocation ends where the steps from a place on its way lead. -/
theorem Walks.ends {budget budget' : Nat} {cursor cursor' : Cursor} {m m' : Machine}
    {r : EStateM.Result Interrupt Machine Ending}
    (h : Walks img p call budget cursor m budget' cursor' m')
    (hends : Ends img p call budget' cursor' m' r) : Ends img p call budget cursor m r := by
  induction h with
  | refl => exact hends
  | step hstep _ ih => exact .next hstep (ih hends)

end Walks

/-- An invocation comes to the evaluation of an expression, in its own program or in a subroutine
    that it calls. -/
inductive Image.Comes (img : Image) (program : String) (e : NodeId) (m' : Machine) :
    Nat → ProgramId → Machine → Prop where
  | here {depth budget : Nat} {id : ProgramId} {p : Program} {cursor : Cursor} {m : Machine} :
      img.programs[id]? = some p → p.name = program →
      Walks img p (img.calls depth) img.settings.limits.loopEntries (.run 0) m budget cursor m' →
      p.expressionAt? cursor = some e → Comes img program e m' depth id m
  | call {depth budget : Nat} {id callee : ProgramId} {p : Program} {line : ReadyLine}
      {cursor : Cursor} {m m₁ m₂ : Machine} :
      img.programs[id]? = some p →
      Walks img p (img.calls (depth + 1)) img.settings.limits.loopEntries (.run 0) m budget cursor
        m₁ →
      p.CallsAt cursor line callee → noteLine img p line none m₁ = .ok () m₂ →
      Comes img program e m' depth callee m₂ → Comes img program e m' (depth + 1) id m

namespace Image.IsSound

variable {img : Image} (h : img.IsSound)
include h

/-- An invocation breaks down exactly if its steps lead to one that does. -/
theorem invoke_breaks_iff_step (depth : Nat) {id : ProgramId} {p : Program}
    (hp : img.programs[id]? = some p) (m : Machine) :
    (img.invoke depth id).Breaks m ↔
      ∃ budget cursor m₁, Walks img p (img.calls depth) img.settings.limits.loopEntries (.run 0) m
          budget cursor m₁
        ∧ (step img p (img.calls depth) budget cursor).Breaks m₁ := by
  have hends := h.ends_invoke depth hp m
  constructor
  · rintro ⟨m', hbreaks⟩
    rw [hbreaks] at hends
    obtain ⟨budget, cursor, m₁, hwalks, hstep⟩ := hends.walks
    exact ⟨budget, cursor, m₁, hwalks, m', hstep⟩
  · rintro ⟨budget, cursor, m₁, hwalks, m', hstep⟩
    exact ⟨m', hends.unique (hwalks.ends (.interrupt hstep))⟩

/-- An invocation breaks down exactly if it comes to an expression whose evaluation does. -/
theorem invoke_breaks_iff (depth : Nat) (id : ProgramId) (m : Machine) :
    (img.invoke depth id).Breaks m ↔
      ∃ program e m', img.Comes program e m' depth id m ∧ (img.evaluate program e).Breaks m' := by
  constructor
  · intro hbreaks
    induction depth using Nat.strongRecOn generalizing id m with
    | ind depth ih =>
      cases hp : img.programs[id]? with
      | none =>
        rw [Image.invoke_eq, Image.start, hp] at hbreaks
        exact absurd hbreaks (Exec.not_breaks_pure _)
      | some p =>
        obtain ⟨budget, cursor, m₁, hwalks, hstep⟩ :=
          (h.invoke_breaks_iff_step depth hp m).1 hbreaks
        rcases (step_breaks_iff budget cursor).1 hstep with
          ⟨e, he, hvalue⟩ | ⟨line, callee, f, m₂, hcall, hf, hnote, hcallee⟩
        · exact ⟨p.name, e, m₁, .here hp rfl hwalks he, hvalue⟩
        · -- the subroutine runs one level deeper
          cases depth with
          | zero => cases hf
          | succ depth =>
            cases hf
            obtain ⟨program, e, m', hcomes, hvalue⟩ := ih depth (by omega) callee m₂ hcallee
            exact ⟨program, e, m', .call hp hwalks hcall hnote hcomes, hvalue⟩
  · rintro ⟨program, e, m', hcomes, hbreaks⟩
    induction hcomes with
    | @here depth budget id p cursor m hp hname hwalks he =>
      rw [← hname] at hbreaks
      exact (h.invoke_breaks_iff_step depth hp m).2
        ⟨budget, cursor, m', hwalks, (step_breaks_iff budget cursor).2 (.inl ⟨e, he, hbreaks⟩)⟩
    | @call depth budget id callee p line cursor m m₁ m₂ hp hwalks hcall hnote _ ih =>
      have hstep := (step_breaks_iff budget cursor).2
        (.inr ⟨line, callee, img.invoke depth, m₂, hcall, rfl, hnote, ih⟩)
      exact (h.invoke_breaks_iff_step (depth + 1) hp m).2 ⟨budget, cursor, m₁, hwalks, hstep⟩

end Image.IsSound

end Erl
