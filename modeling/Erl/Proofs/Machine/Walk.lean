/-
  Erl.Proofs.Machine.Walk

  Every walk over well-targeted lines ends.

  `Ends` is where the steps of an invocation lead when nothing counts them.  `Moves` says what a
  step does to the budget and the cursor.  Under `potential` every step goes down: entering a
  loop takes from the budget what a whole pass over the lines can cost, and all other steps go
  forward, except that the end of a loop goes back to its start; but the start of a loop counts
  as a place right before its exit.

  So the allowance of an invocation is never used up, and a walk ends where its steps lead.
-/

import Erl.Machine.Execute
import Erl.Proofs.Code.Target
import Erl.Proofs.Machine.Exec

namespace Erl

/-! ## Steps -/

/-- What a step does to the budget and the cursor of an invocation that goes on. -/
inductive Moves {τ ε σ : Type} (lines : List (Line τ ε σ)) :
    Nat → Cursor → Nat → Cursor → Prop where
  /-- A plain line, the end of a branch, or a guard that holds. -/
  | onward {b i : Nat} {o : Instruction Unit Unit Unit} :
      outlineAt? lines i = some o → (∀ stop, o ≠ .while_ () stop) →
      Moves lines b (.run i) b (.run (i + 1))
  /-- A guard that does not hold. -/
  | refuse {b i next : Nat} :
      outlineAt? lines i = some (.if_ () next) → Moves lines b (.run i) b (.seek next)
  /-- The end of an arm, at the line of the next one. -/
  | leave {b i stop : Nat} :
      (∃ next, outlineAt? lines i = some (.elseIf () next stop))
        ∨ outlineAt? lines i = some (.else_ stop) →
      Moves lines b (.run i) b (.run stop)
  /-- A loop that goes on. -/
  | enter {b i : Nat} : Moves lines (b + 1) (.run i) b (.run (i + 1))
  /-- A loop that is over. -/
  | exit {b i stop : Nat} :
      outlineAt? lines i = some (.while_ () stop) → Moves lines b (.run i) b (.run (stop + 1))
  /-- The end of a loop. -/
  | back {b i start : Nat} :
      outlineAt? lines i = some (.endWhile start) → Moves lines b (.run i) b (.run start)
  /-- An arm that is taken. -/
  | take {b i : Nat} : Moves lines b (.seek i) b (.run (i + 1))
  /-- An arm whose guard does not hold. -/
  | pass {b i next stop : Nat} :
      outlineAt? lines i = some (.elseIf () next stop) →
      Moves lines b (.seek i) b (.seek next)

section Steps

variable {img : Image} {p : Program} {call : Option (ProgramId → Exec Ending)}

/-- A step that runs a line moves as its instruction says. -/
theorem runLine_moves {budget budget' index : Nat} {cursor' : Cursor} {line : ReadyLine}
    {m m' : Machine} (hline : p.lines[index]? = some line)
    (h : runLine img p call budget index line m = .ok (.next budget' cursor') m') :
    Moves p.lines.toList budget (.run index) budget' cursor' := by
  rw [← Array.getElem?_toList] at hline
  have hout : outlineAt? p.lines.toList index = some line.instruction.outline := by
    rw [outlineAt?, hline]
    rfl
  -- a step that goes on says nothing about the values it read, only where it goes
  unfold runLine at h
  cases hi : line.instruction with
  | set target e =>
    rw [hi] at h hout
    obtain ⟨v, m₁, -, h⟩ := Exec.bind_eq_ok_iff.1 h
    obtain ⟨-, m₂, -, h⟩ := Exec.bind_eq_ok_iff.1 h
    cases h
    exact .onward hout (by simp [Instruction.outline])
  | run callee =>
    rw [hi] at h hout
    obtain ⟨-, m₁, -, h⟩ := Exec.bind_eq_ok_iff.1 h
    obtain ⟨status, m₂, -, h⟩ := Exec.bind_eq_ok_iff.1 h
    split at h
    · cases h
      exact .onward hout (by simp [Instruction.outline])
    · cases h
  | return_ =>
    rw [hi] at h
    obtain ⟨-, m₁, -, h⟩ := Exec.bind_eq_ok_iff.1 h
    cases h
  | if_ e next =>
    rw [hi] at h hout
    obtain ⟨v, m₁, -, h⟩ := Exec.bind_eq_ok_iff.1 h
    cases h
    split
    · exact .onward hout (by simp [Instruction.outline])
    · exact .refuse hout
  | elseIf e next stop =>
    rw [hi] at h hout
    cases h
    exact .leave (.inl ⟨next, hout⟩)
  | else_ stop =>
    rw [hi] at h hout
    cases h
    exact .leave (.inr hout)
  | endIf =>
    rw [hi] at h hout
    cases h
    exact .onward hout (by simp [Instruction.outline])
  | while_ e stop =>
    rw [hi] at h hout
    obtain ⟨v, m₁, -, h⟩ := Exec.bind_eq_ok_iff.1 h
    split at h
    · cases budget with
      | zero =>
        obtain ⟨-, m₂, -, h⟩ := Exec.bind_eq_ok_iff.1 h
        cases h
      | succ budget =>
        cases h
        exact .enter
    · cases h
      exact .exit hout
  | endWhile start =>
    rw [hi] at h hout
    cases h
    exact .back hout

/-- A step that tries a branch takes it or passes on to the next. -/
theorem seekLine_moves {budget budget' index : Nat} {cursor' : Cursor} {m m' : Machine}
    (h : seekLine img p budget index m = .ok (.next budget' cursor') m') :
    Moves p.lines.toList budget (.seek index) budget' cursor' := by
  unfold seekLine at h
  cases hline : p.lines[index]? with
  | none =>
    rw [hline] at h
    cases h
    exact .take
  | some line =>
    rw [hline] at h
    cases hi : line.instruction with
    | elseIf e next stop =>
      simp only [hi] at h
      obtain ⟨v, m₁, -, h⟩ := Exec.bind_eq_ok_iff.1 h
      cases h
      split
      · exact .take
      · have hout : outlineAt? p.lines.toList index = some (.elseIf () next stop) := by
          rw [outlineAt?, Array.getElem?_toList, hline, Option.map_some, hi]
          rfl
        exact .pass hout
    | _ =>
      simp only [hi] at h
      cases h
      exact .take

/-- What a step of an invocation that goes on does to budget and cursor. -/
theorem step_moves {budget budget' : Nat} {cursor cursor' : Cursor} {m m' : Machine}
    (h : step img p call budget cursor m = .ok (.next budget' cursor') m') :
    Moves p.lines.toList budget cursor budget' cursor' := by
  cases cursor with
  | run index =>
    rw [step] at h
    cases hline : p.lines[index]? with
    | none =>
      rw [hline] at h
      cases h
    | some line =>
      rw [hline] at h
      exact runLine_moves hline h
  | seek index => exact seekLine_moves h

end Steps

/-! ## Potential -/

/-- How far a cursor can still go without entering a loop, two for each line. -/
def Cursor.distance {τ ε σ : Type} (lines : List (Line τ ε σ)) : Cursor → Nat
  | .run i =>
    match outlineAt? lines i with
    | some (.while_ _ stop) => 2 * (lines.length - (stop + 1)) + 2
    | _ => 2 * (lines.length - i) + 1
  | .seek i => 2 * (lines.length - i) + 2

/-- How many steps an invocation can still take. -/
def potential {τ ε σ : Type} (lines : List (Line τ ε σ)) (budget : Nat) (cursor : Cursor) : Nat :=
  budget * (2 * lines.length + 3) + cursor.distance lines

section Potential

variable {τ ε σ : Type} {lines : List (Line τ ε σ)}

theorem lt_length_of_outlineAt? {i : Nat} {o : Instruction Unit Unit Unit}
    (h : outlineAt? lines i = some o) : i < lines.length := by
  obtain ⟨l, hl, -⟩ := Option.map_eq_some_iff.1 h
  exact (List.getElem?_eq_some_iff.1 hl).1

/-- A line is at most two steps for each line from it on. -/
theorem distance_run_le (hw : WellTargeted lines) (i : Nat) :
    (Cursor.run i).distance lines ≤ 2 * (lines.length - i) + 1 := by
  rw [Cursor.distance]
  split
  · next stop hi =>
    obtain ⟨hlt, -⟩ := hw i _ hi
    have hlength := lt_length_of_outlineAt? hi
    omega
  · exact Nat.le_refl _

/-- A line that is not the start of a loop is two steps for each line from it on. -/
theorem distance_run_eq {i : Nat} {o : Instruction Unit Unit Unit}
    (h : outlineAt? lines i = some o) (ho : ∀ stop, o ≠ .while_ () stop) :
    (Cursor.run i).distance lines = 2 * (lines.length - i) + 1 := by
  rw [Cursor.distance, h]
  split
  · next stop hi => exact absurd (Option.some.inj hi) (ho stop)
  · rfl

/-- The start of a loop is one step before its exit. -/
theorem distance_while {i stop : Nat} (h : outlineAt? lines i = some (.while_ () stop)) :
    (Cursor.run i).distance lines = 2 * (lines.length - (stop + 1)) + 2 := by
  rw [Cursor.distance, h]

/-- Every step goes down. -/
theorem Moves.potential_lt (hw : WellTargeted lines) {b b' : Nat} {c c' : Cursor}
    (h : Moves lines b c b' c') : potential lines b' c' < potential lines b c := by
  -- in every case but `enter` the budget stays, and the distance goes down
  unfold potential
  cases h with
  | @onward _ i o hi ho =>
    have hlength := lt_length_of_outlineAt? hi
    have hnext := distance_run_le hw (i + 1)
    rw [distance_run_eq hi ho]
    omega
  | @refuse _ i next hi =>
    have hlt : i < next := hw i _ hi
    have hlength := lt_length_of_outlineAt? hi
    rw [distance_run_eq hi (by simp), Cursor.distance]
    omega
  | @leave _ i stop hi =>
    have hlt : i < stop ∧ i < lines.length
        ∧ (Cursor.run i).distance lines = 2 * (lines.length - i) + 1 := by
      rcases hi with ⟨next, hi⟩ | hi
      · exact ⟨(hw i _ hi).2, lt_length_of_outlineAt? hi, distance_run_eq hi (by simp)⟩
      · exact ⟨hw i _ hi, lt_length_of_outlineAt? hi, distance_run_eq hi (by simp)⟩
    have hstop := distance_run_le hw stop
    omega
  | @enter _ i =>
    -- one of the budget pays for a whole pass over the lines
    have hnext := distance_run_le hw (i + 1)
    have hbudget := Nat.add_one_mul b' (2 * lines.length + 3)
    omega
  | @exit _ i stop hi =>
    have hnext := distance_run_le hw (stop + 1)
    rw [distance_while hi]
    omega
  | @back _ i start hi =>
    -- back to a start whose distance is that of the exit right behind this line
    obtain ⟨hlt, hstart⟩ := hw i _ hi
    have hlength := lt_length_of_outlineAt? hi
    rw [distance_while hstart, distance_run_eq hi (by simp)]
    omega
  | @take _ i =>
    have hnext := distance_run_le hw (i + 1)
    rw [Cursor.distance.eq_2]
    omega
  | @pass _ i next stop hi =>
    have hlt : i < next := (hw i _ hi).1
    have hlength := lt_length_of_outlineAt? hi
    rw [Cursor.distance, Cursor.distance]
    omega

end Potential

/-- The allowance of an invocation is more than it can take. -/
theorem potential_lt_allowance {τ ε σ : Type} {lines : List (Line τ ε σ)}
    (hw : WellTargeted lines) (budget : Nat) :
    potential lines budget (.run 0) < allowance budget lines.length := by
  have hfirst := distance_run_le hw 0
  have hbudget := Nat.add_one_mul budget (2 * lines.length + 3)
  unfold potential allowance
  omega

/-! ## Where steps lead -/

/-- Where the steps of an invocation lead. -/
inductive Ends (img : Image) (p : Program) (call : Option (ProgramId → Exec Ending)) :
    Nat → Cursor → Machine → EStateM.Result Interrupt Machine Ending → Prop where
  | next {budget budget' : Nat} {cursor cursor' : Cursor} {m m' : Machine}
      {r : EStateM.Result Interrupt Machine Ending} :
      step img p call budget cursor m = .ok (.next budget' cursor') m' →
      Ends img p call budget' cursor' m' r → Ends img p call budget cursor m r
  | halt {budget : Nat} {cursor : Cursor} {m m' : Machine} {status : Ending} :
      step img p call budget cursor m = .ok (.halt status) m' →
      Ends img p call budget cursor m (.ok status m')
  | interrupt {budget : Nat} {cursor : Cursor} {m m' : Machine} {e : Interrupt} :
      step img p call budget cursor m = .error e m' →
      Ends img p call budget cursor m (.error e m')

section Ends

variable {img : Image} {p : Program} {call : Option (ProgramId → Exec Ending)}

/-- Steps lead to one end only. -/
theorem Ends.unique {budget : Nat} {cursor : Cursor} {m : Machine}
    {r r' : EStateM.Result Interrupt Machine Ending} (h : Ends img p call budget cursor m r)
    (h' : Ends img p call budget cursor m r') : r = r' := by
  induction h with
  | next hstep _ ih =>
    cases h' with
    | next hstep' hrest =>
      cases hstep.symm.trans hstep'
      exact ih hrest
    | halt hstep' => cases hstep.symm.trans hstep'
    | interrupt hstep' => cases hstep.symm.trans hstep'
  | halt hstep =>
    cases h' with
    | next hstep' hrest => cases hstep.symm.trans hstep'
    | halt hstep' =>
      cases hstep.symm.trans hstep'
      rfl
    | interrupt hstep' => cases hstep.symm.trans hstep'
  | interrupt hstep =>
    cases h' with
    | next hstep' hrest => cases hstep.symm.trans hstep'
    | halt hstep' => cases hstep.symm.trans hstep'
    | interrupt hstep' =>
      cases hstep.symm.trans hstep'
      rfl

/-- A walk that may take more steps than the potential ends where its steps lead. -/
theorem ends_walk (hw : WellTargeted p.lines.toList) {steps budget : Nat} {cursor : Cursor}
    (h : potential p.lines.toList budget cursor < steps) (m : Machine) :
    Ends img p call budget cursor m (walk img p call steps budget cursor m) := by
  -- each step lowers the potential, so what is left of the steps stays above it
  induction steps generalizing budget cursor m with
  | zero => exact absurd h (Nat.not_lt_zero _)
  | succ steps ih =>
    rw [walk]
    cases hstep : step img p call budget cursor m with
    | error e m' =>
      rw [Exec.bind_error hstep]
      exact .interrupt hstep
    | ok progress m' =>
      rw [Exec.bind_ok hstep]
      cases progress with
      | halt status => exact .halt hstep
      | next budget' cursor' =>
        have hdown := (step_moves hstep).potential_lt hw
        exact .next hstep (ih (by omega) m')

/-- Steps lead to an end from everywhere. -/
theorem exists_ends (hw : WellTargeted p.lines.toList) (budget : Nat) (cursor : Cursor)
    (m : Machine) : ∃ r, Ends img p call budget cursor m r :=
  ⟨_, ends_walk hw (Nat.lt_succ_self _) m⟩

/-- An invocation ends where the steps from the first line lead. -/
theorem ends_start (hw : WellTargeted p.lines.toList) {id : ProgramId}
    (hp : img.programs[id]? = some p) (m : Machine) :
    Ends img p call img.settings.limits.loopEntries (.run 0) m (img.start call id m) := by
  rw [Image.start, hp]
  refine ends_walk hw ?_ m
  rw [← Array.length_toList]
  exact potential_lt_allowance hw _

end Ends

end Erl
