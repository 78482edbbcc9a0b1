/-
  Erl.Proofs.Machine.Independence

  Programs that do not depend on one another.

  An invocation ends alike on machines that agree on the variables of its footprint.  If its
  functions are steady, it comes to its end and leaves all variables as they are but those that its
  footprint assigns.  So two programs neither of which assigns what the other reads or assigns can
  run in either order: each of them finds its own variables as it left them, and its end is the
  same.  The orders differ in the log only.
-/

import Erl.Proofs.Machine.Footprint
import Erl.Proofs.Routine

namespace Erl

/-! ## Machines that agree -/

/-- Two machines agree on variables and on the random numbers to come. -/
structure Machine.AgreesOn (vars : VariableId → Prop) (m m' : Machine) : Prop where
  store : ∀ v, vars v → m.store.get? v = m'.store.get? v
  generator : m.generator = m'.generator

namespace Machine.AgreesOn

variable {vars : VariableId → Prop} {m m' m'' : Machine}

theorem refl (vars : VariableId → Prop) (m : Machine) : m.AgreesOn vars m :=
  ⟨fun _ _ => rfl, rfl⟩

theorem trans (h : m.AgreesOn vars m') (h' : m'.AgreesOn vars m'') : m.AgreesOn vars m'' :=
  ⟨fun v hv => (h.store v hv).trans (h'.store v hv), h.generator.trans h'.generator⟩

/-- Messages do not count. -/
theorem log (h : m.AgreesOn vars m') (log log' : Log) :
    AgreesOn vars { m with log } { m' with log := log' } :=
  ⟨h.store, h.generator⟩

/-- The same assignment leaves machines in agreement. -/
theorem set (h : m.AgreesOn vars m') (target : VariableId) (x : Value) :
    AgreesOn vars { m with store := m.store.set target x }
      { m' with store := m'.store.set target x } := by
  refine ⟨fun v hv => ?_, h.generator⟩
  show (m.store.set target x).get? v = (m'.store.set target x).get? v
  rw [Store.get?_set, Store.get?_set, h.store v hv]

/-- An assignment leaves the other variables as they are. -/
theorem set_right {target : VariableId} (htarget : ¬ vars target) (m : Machine) (x : Value) :
    m.AgreesOn vars { m with store := m.store.set target x } := by
  refine ⟨fun v hv => ?_, rfl⟩
  have hne : target ≠ v := fun heq => htarget (heq ▸ hv)
  exact (m.store.get?_set_of_ne hne x).symm

/-- Machines that agree on all variables differ in the log only. -/
theorem eq_of_all (h : m.AgreesOn (fun _ => True) m') : m' = { m with log := m'.log } := by
  have hstore : m'.store = m.store :=
    Store.ext_entries (Array.ext_getElem? fun v => (h.store v trivial).symm)
  cases m
  cases m'
  cases hstore
  cases h.generator
  rfl

end Machine.AgreesOn

/-! ## Ends that depend on the footprint only -/

section Parallel

variable {img : Image} {vars : VariableId → Prop}

theorem callRoutine_parallel (f : Builtin) (args : List Value) :
    Exec.Parallel (Machine.AgreesOn vars) (callRoutine img f args) (callRoutine img f args) := by
  unfold callRoutine
  split
  · exact .pure _
  · next xs _ =>
    refine .getBind fun m m' h => ?_
    -- the same random numbers are to come, so the routine replies and draws the same
    rw [← h.generator]
    generalize img.routines f xs m.generator = r
    obtain ⟨reply, generator⟩ := r
    have hdrawn : Machine.AgreesOn vars { m with generator } { m' with generator } :=
      ⟨h.store, rfl⟩
    cases reply with
    | value x => exact Exec.Parallel.pure (Value.number x) _ _ hdrawn
    | refused e => exact Exec.Parallel.pure (Value.ofFault (.domain f e)) _ _ hdrawn
    | breakdown => exact Exec.Parallel.throw .breakdown _ _ hdrawn

theorem record_parallel (severity : Severity) (program message : String) :
    Exec.Parallel (Machine.AgreesOn vars) (Exec.record severity program message)
      (Exec.record severity program message) :=
  .modify fun _ _ h => h.log _ _

theorem callMessage_parallel (program : String) (f : MessageFunction) (args : List Value) :
    Exec.Parallel (Machine.AgreesOn vars) (callMessage program f args)
      (callMessage program f args) := by
  unfold callMessage
  cases f with
  | fatalHalt => exact .bind (record_parallel _ _ _) fun _ => .throw _
  | severe => exact .bind (record_parallel _ _ _) fun _ => .pure _
  | warning => exact .bind (record_parallel _ _ _) fun _ => .pure _

/-- Code runs alike on machines that agree on its footprint. -/
theorem Footprint.law_parallel {s : Footprint} (img : Image) (hreads : ∀ v, s.reads v → vars v) :
    s.Law img fun _ x => Exec.Parallel (Machine.AgreesOn vars) x x where
  pure := .pure
  bind := .bind
  value := fun {v} hv => by
    refine .getBind fun m m' h => ?_
    have hvalue : m.store.value v = m'.store.value v := by
      rw [Store.value_eq, Store.value_eq, h.store v (hreads v hv)]
    rw [hvalue]
    exact Exec.Parallel.pure _ m m' h
  call := fun program f args _ => by
    cases f with
    | math f => exact callRoutine_parallel _ _
    | air f => exact callRoutine_parallel _ _
    | message f => exact callMessage_parallel _ _ _
    | trend f => exact .pure _
    | curveValue => exact .pure _
  report := fun program message _ => record_parallel _ program message
  note := fun _ => .modify fun _ _ h => h.log _ _
  assign := fun {target} v _ => .modify fun _ _ h => h.set target v
  cutOff := .throw _

/-- An invocation ends alike on machines that agree on the variables that it reads. -/
theorem Image.invoke_parallel {id : ProgramId}
    (hreads : ∀ v, (img.footprint id).reads v → vars v) (depth : Nat) :
    Exec.Parallel (Machine.AgreesOn vars) (img.invoke depth id) (img.invoke depth id) :=
  (Footprint.law_parallel img hreads).invoke depth

end Parallel

/-! ## Changes within the footprint only -/

/-- A computation that ends with a value, unless it is cut off, and leaves all but some variables
    as they are. -/
def Exec.Confined {α : Type} (writes : VariableId → Prop) (x : Exec α) : Prop :=
  ∀ m : Machine, (∃ a m', x m = .ok a m' ∧ m.AgreesOn (fun v => ¬ writes v) m')
    ∨ ∃ m', x m = .error .outOfSteps m'

namespace Exec.Confined

variable {α β : Type} {writes : VariableId → Prop}

theorem pure (a : α) : Confined writes (Pure.pure a : Exec α) :=
  fun m => .inl ⟨a, m, rfl, .refl _ m⟩

theorem bind {x : Exec α} {f : α → Exec β} (hx : Confined writes x)
    (hf : ∀ a, Confined writes (f a)) : Confined writes (x >>= f) := by
  intro m
  rcases hx m with ⟨a, m₁, hxm, hagrees⟩ | ⟨m₁, hxm⟩
  · rw [Exec.bind_ok hxm]
    rcases hf a m₁ with ⟨b, m₂, hfm, hagrees'⟩ | ⟨m₂, hfm⟩
    · exact .inl ⟨b, m₂, hfm, hagrees.trans hagrees'⟩
    · exact .inr ⟨m₂, hfm⟩
  · rw [Exec.bind_error hxm]
    exact .inr ⟨m₁, rfl⟩

theorem modify {f : Machine → Machine}
    (hf : ∀ m : Machine, m.AgreesOn (fun v => ¬ writes v) (f m)) :
    Confined writes (modify f : Exec PUnit) :=
  fun m => .inl ⟨PUnit.unit, f m, rfl, hf m⟩

theorem record (severity : Severity) (program message : String) :
    Confined writes (Exec.record severity program message) :=
  modify fun m => (Machine.AgreesOn.refl _ m).log _ _

end Exec.Confined

section Confined

variable {img : Image} {writes : VariableId → Prop}

theorem callRoutine_confined (hroutines : img.routines.AreSteady) {f : Builtin}
    (hf : f.isSteady = true) (args : List Value) :
    (callRoutine img f args).Confined writes := by
  unfold callRoutine
  split
  · exact .pure _
  · next xs _ =>
    -- a steady routine gives the numbers to come back as it got them
    obtain ⟨reply, hreply, hroutine⟩ := hroutines f xs hf
    simp only [hroutine]
    intro m
    cases reply with
    | value x => exact .inl ⟨.number x, m, rfl, .refl _ m⟩
    | refused e => exact .inl ⟨.ofFault (.domain f e), m, rfl, .refl _ m⟩
    | breakdown => exact absurd rfl hreply

theorem callMessage_confined (program : String) {f : MessageFunction} (hf : f ≠ .fatalHalt)
    (args : List Value) : (callMessage program f args).Confined writes := by
  unfold callMessage
  cases f with
  | fatalHalt => exact absurd rfl hf
  | severe => exact .bind (.record _ _ _) fun _ => .pure _
  | warning => exact .bind (.record _ _ _) fun _ => .pure _

/-- Code with steady functions changes nothing but what its footprint assigns. -/
theorem Footprint.law_confined {s : Footprint} (hroutines : img.routines.AreSteady)
    (huses : ∀ f, s.uses f → f.isSteady = true) :
    s.Law img fun _ x => x.Confined s.writes where
  pure := .pure
  bind := .bind
  value := fun {v} _ m => .inl ⟨m.store.value v, m, rfl, .refl _ m⟩
  call := fun program f args hf => by
    have hsteady := huses f hf
    cases f with
    | math f => exact callRoutine_confined hroutines hsteady _
    | air f => exact callRoutine_confined hroutines hsteady _
    | message f =>
      refine callMessage_confined _ (fun hfatal => ?_) _
      rw [hfatal] at hsteady
      exact absurd hsteady (by decide)
    | trend f => exact .pure _
    | curveValue => exact .pure _
  report := fun program message _ => .record _ program message
  note := fun _ => .modify fun m => (Machine.AgreesOn.refl _ m).log _ _
  assign := fun {target} v hv => .modify fun m => .set_right (fun hnot => hnot hv) m v
  cutOff := fun m => .inr ⟨m, rfl⟩

/-- An invocation with steady functions comes to its end, and changes nothing but what its
    footprint assigns. -/
theorem Image.IsSound.invoke_confined (h : img.IsSound) (hroutines : img.routines.AreSteady)
    {id : ProgramId} (huses : ∀ f, (img.footprint id).uses f → f.isSteady = true) (depth : Nat)
    (m : Machine) :
    ∃ status m', img.invoke depth id m = .ok status m'
      ∧ m.AgreesOn (fun v => ¬ (img.footprint id).writes v) m' := by
  rcases (Footprint.law_confined hroutines huses).invoke depth m with hok | ⟨m', hcut⟩
  · exact hok
  · exact absurd hcut (h.invoke_finishes depth id m m')

end Confined

/-! ## Either order -/

/-- Neither program assigns what the other reads or assigns, and the functions of both are
    steady. -/
structure Image.Independent (img : Image) (p q : ProgramId) : Prop where
  left : ∀ v, (img.footprint p).writes v →
    ¬ (img.footprint q).reads v ∧ ¬ (img.footprint q).writes v
  right : ∀ v, (img.footprint q).writes v →
    ¬ (img.footprint p).reads v ∧ ¬ (img.footprint p).writes v
  steady : ∀ f, (img.footprint p).uses f ∨ (img.footprint q).uses f → f.isSteady = true

/-- An operation that calls no function, or a steady one. -/
def Operation.isSteady : Operation → Bool
  | .call f => f.isSteady
  | _ => true

/-- Whether no variable that some programs assign is read or assigned by others, which evaluate
    the nodes at some positions. -/
def Image.leavesAlone (img : Image) (programs others : List ProgramId) (nodes : List NodeId) :
    Bool :=
  (img.targetsOf programs).all fun v =>
    !(img.operandsAt nodes).contains (.variableRef v) && !(img.targetsOf others).contains v

namespace Image

variable {img : Image} {p q : ProgramId}

section Lists

variable {programs others : List ProgramId} {nodes nodes' : List NodeId}

theorem not_mentioned_of_leavesAlone (h : img.leavesAlone programs others nodes' = true)
    (hclosed : img.isClosed programs nodes = true) (hclosed' : img.isClosed others nodes' = true)
    (hp : p ∈ programs) (hq : q ∈ others) (v : VariableId) (hv : (img.footprint p).writes v) :
    ¬ (img.footprint q).reads v ∧ ¬ (img.footprint q).writes v := by
  have hwithin := footprint_within_listed hclosed' hq
  have hapart := List.all_eq_true.1 h v ((footprint_within_listed hclosed hp).writes v hv)
  simp only [Bool.and_eq_true, Bool.not_eq_true', List.contains_eq_mem,
    decide_eq_false_iff_not] at hapart
  exact ⟨fun hreads => hapart.1 (hwithin.reads v hreads),
    fun hwrites => hapart.2 (hwithin.writes v hwrites)⟩

/-- Programs are independent if closed lists of what they mention are apart. -/
theorem independent_of_lists (hclosed : img.isClosed programs nodes = true)
    (hclosed' : img.isClosed others nodes' = true) (hp : p ∈ programs) (hq : q ∈ others)
    (hleft : img.leavesAlone programs others nodes' = true)
    (hright : img.leavesAlone others programs nodes = true)
    (hsteady : (img.operationsAt nodes ++ img.operationsAt nodes').all Operation.isSteady = true) :
    img.Independent p q := by
  refine ⟨not_mentioned_of_leavesAlone hleft hclosed hclosed' hp hq,
    not_mentioned_of_leavesAlone hright hclosed' hclosed hq hp, fun f hf => ?_⟩
  have hmem : .call f ∈ img.operationsAt nodes ++ img.operationsAt nodes' := by
    rw [List.mem_append]
    exact hf.imp ((footprint_within_listed hclosed hp).uses f)
      ((footprint_within_listed hclosed' hq).uses f)
  exact List.all_eq_true.1 hsteady _ hmem

end Lists

theorem Independent.symm (h : img.Independent p q) : img.Independent q p :=
  ⟨h.right, h.left, fun f hf => h.steady f hf.symm⟩

/-- A program ends as it would have ended before an independent one ran, and leaves the same
    values in all variables but those that the other one assigns. -/
theorem Independent.invoke_after (h : img.Independent p q) {depth : Nat} {m m₁ m₂ : Machine}
    {status : Ending} (hafter : m.AgreesOn (fun v => ¬ (img.footprint p).writes v) m₁)
    (hq : img.invoke depth q m = .ok status m₂) :
    ∃ m₃, img.invoke depth q m₁ = .ok status m₃
      ∧ m₂.AgreesOn (fun v => ¬ (img.footprint p).writes v) m₃ := by
  -- the other program assigned nothing that this one reads
  have hends := img.invoke_parallel (fun v hv hwrites => (h.left v hwrites).1 hv) depth m m₁ hafter
  rw [hq] at hends
  generalize hr : img.invoke depth q m₁ = r at hends
  cases hends with
  | ok _ hagrees => exact ⟨_, rfl, hagrees⟩

/-- Independent programs run in either order to the same ends, and leave the same machine but for
    the log. -/
theorem IsSound.invoke_commute (hsound : img.IsSound) (hroutines : img.routines.AreSteady)
    (h : img.Independent p q) (depth : Nat) (m : Machine) :
    ∃ status status' m₁ m₂ m₁' m₂', img.invoke depth p m = .ok status m₁
      ∧ img.invoke depth q m₁ = .ok status' m₂
      ∧ img.invoke depth q m = .ok status' m₁'
      ∧ img.invoke depth p m₁' = .ok status m₂'
      ∧ m₂.AgreesOn (fun _ => True) m₂' := by
  obtain ⟨status, m₁, hp, hkept⟩ :=
    hsound.invoke_confined hroutines (fun f hf => h.steady f (.inl hf)) depth m
  obtain ⟨status', m₁', hq, hkept'⟩ :=
    hsound.invoke_confined hroutines (fun f hf => h.steady f (.inr hf)) depth m
  -- each of them runs second as it runs first
  obtain ⟨m₂, hq₂, hagrees⟩ := h.invoke_after hkept hq
  obtain ⟨m₂', hp₂, hagrees'⟩ := h.symm.invoke_after hkept' hp
  refine ⟨status, status', m₁, m₂, m₁', m₂', hp, hq₂, hq, hp₂, fun v _ => ?_, ?_⟩
  · by_cases hwrites : (img.footprint p).writes v
    · -- what the first program assigned is left alone by the second, in both orders
      have hnot : ¬ (img.footprint q).writes v := (h.left v hwrites).2
      obtain ⟨status₂, n₂, hn₂, hkept₂⟩ :=
        hsound.invoke_confined hroutines (fun f hf => h.steady f (.inr hf)) depth m₁
      rw [hq₂] at hn₂
      cases hn₂
      rw [← hkept₂.store v hnot, hagrees'.store v hnot]
    · -- the first program leaves it alone, so it is what the second one made of it
      obtain ⟨status₂, n₂, hn₂, hkept₂⟩ :=
        hsound.invoke_confined hroutines (fun f hf => h.steady f (.inl hf)) depth m₁'
      rw [hp₂] at hn₂
      cases hn₂
      rw [← hkept₂.store v hwrites, hagrees.store v hwrites]
  · rw [← hagrees.generator, ← hkept'.generator, hkept.generator, hagrees'.generator]

end Image

end Erl
