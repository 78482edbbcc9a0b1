/-
  Erl.Proofs.Machine.Course

  The course of an invocation.

  `Course` follows the steps of an invocation from one place to another and counts how often they
  enter the body of a loop, whatever the budget says.  Each entry takes one from the budget and
  nothing else does, so the entries and what is left of the budget add up.

  An invocation ends with its last step, and every place that it comes to leads there.  It is
  halted by a loop that would go on with no budget left (`RunsAway`), by a call with no depth left
  (`NestsTooDeep`), or by a subroutine that was halted itself (`Receives`).
-/

import Erl.Proofs.Machine.Breakdown

namespace Erl

/-- The machine with one more severe message. -/
def Machine.severe (m : Machine) (program message : String) : Machine :=
  { m with log := m.log.record .severe (some program) message }

/-- What is recorded when a loop would go on with no budget left. -/
def Image.runawayText (img : Image) : String :=
  "WHILE loop exceeded " ++ Nat.repr img.settings.limits.loopEntries
    ++ " iterations; program halted"

/-- What is recorded when a subroutine is called with the depth used up. -/
def Image.nestingText (img : Image) : String :=
  "RUN nested deeper than " ++ Nat.repr img.settings.limits.depth ++ " levels; program halted"

/-- A line that starts a loop whose guard holds.  Evaluating the guard leads from one machine to
    another. -/
def Program.GoesOn (img : Image) (p : Program) (index : Nat) (m m' : Machine) : Prop :=
  ∃ line e stop v, p.lines[index]? = some line ∧ line.instruction = .while_ e stop
    ∧ evaluateLine img p line e m = .ok v m' ∧ v.holds = true

/-- A call is not the start of a loop. -/
theorem Program.CallsAt.not_while {p : Program} {cursor : Cursor} {line line' : ReadyLine}
    {callee : ProgramId} {index stop : Nat} {e : NodeId} (h : p.CallsAt cursor line callee)
    (hcursor : cursor = .run index) (hline : p.lines[index]? = some line') :
    line'.instruction ≠ .while_ e stop := by
  intro hi
  obtain ⟨index', rfl, hline', hi'⟩ := h
  cases hcursor
  cases hline.symm.trans hline'
  cases hi.symm.trans hi'

/-! ## Steps -/

section Steps

variable {img : Image} {p : Program} {call : Option (ProgramId → Exec Ending)} {budget : Nat}

/-- A loop whose guard holds is entered, if the budget allows. -/
theorem step_goesOn {index : Nat} {m m' : Machine} (h : p.GoesOn img index m m') :
    step img p call budget (.run index) m = enterLoop img p budget index m' := by
  obtain ⟨line, e, stop, v, hline, hi, hvalue, hholds⟩ := h
  simp only [step, hline, runLine, hi]
  rw [Exec.bind_ok hvalue, if_pos hholds]

/-- A call runs the subroutine, and the program goes on only after a normal end. -/
theorem step_callsAt (call : Option (ProgramId → Exec Ending)) (budget : Nat) {cursor : Cursor}
    {line : ReadyLine} {callee : ProgramId} {m m₁ m' : Machine} {status : Ending}
    (h : p.CallsAt cursor line callee)
    (hnote : noteLine img p line none m = .ok () m₁)
    (hcall : callSubroutine img p call callee m₁ = .ok status m') :
    ∃ index, cursor = .run index ∧ step img p call budget cursor m
      = .ok (if status = .normal then .next budget (.run (index + 1)) else .halt status) m' := by
  obtain ⟨index, rfl, hline, hi⟩ := h
  refine ⟨index, rfl, ?_⟩
  simp only [step, hline, runLine, hi]
  rw [Exec.bind_ok hnote, Exec.bind_ok hcall]
  cases status <;> rfl

/-- A step at a loop that goes on takes one from the budget and comes to the body. -/
theorem step_enters {index : Nat} {m m₁ m' : Machine} {budget' : Nat} {cursor' : Cursor}
    (hgoes : p.GoesOn img index m m₁)
    (h : step img p call budget (.run index) m = .ok (.next budget' cursor') m') :
    budget = budget' + 1 ∧ cursor' = .run (index + 1) ∧ m' = m₁ := by
  rw [step_goesOn hgoes] at h
  cases budget with
  | zero => cases h
  | succ budget =>
    cases h
    exact ⟨rfl, rfl, rfl⟩

/-- What a step leads to, and why. -/
inductive StepLeads (img : Image) (p : Program) (call : Option (ProgramId → Exec Ending))
    (budget : Nat) (cursor : Cursor) (m : Machine) : Progress → Machine → Prop where
  /-- The invocation goes on with the budget as it is. -/
  | stays {cursor' : Cursor} {m' : Machine} :
      StepLeads img p call budget cursor m (.next budget cursor') m'
  /-- A loop goes on. -/
  | enters {index budget' : Nat} {cursor' : Cursor} {m' : Machine} : cursor = .run index →
      p.GoesOn img index m m' → StepLeads img p call budget cursor m (.next budget' cursor') m'
  /-- The program is over. -/
  | ends {m' : Machine} : StepLeads img p call budget cursor m (.halt .normal) m'
  /-- A loop would go on, but the budget is used up. -/
  | runaway {index : Nat} {m' : Machine} : budget = 0 → cursor = .run index →
      p.GoesOn img index m m' → StepLeads img p call budget cursor m (.halt .runawayLoop)
        (m'.severe p.name img.runawayText)
  /-- A subroutine did not end normally. -/
  | called {line : ReadyLine} {callee : ProgramId} {m₁ m' : Machine} {status : Ending} :
      p.CallsAt cursor line callee → noteLine img p line none m = .ok () m₁ →
      callSubroutine img p call callee m₁ = .ok status m' →
      StepLeads img p call budget cursor m (.halt status) m'

theorem runLine_leads {index : Nat} {line : ReadyLine} {m m' : Machine} {r : Progress}
    (hline : p.lines[index]? = some line)
    (h : runLine img p call budget index line m = .ok r m') :
    StepLeads img p call budget (.run index) m r m' := by
  unfold runLine at h
  cases hi : line.instruction with
  | set target e =>
    rw [hi] at h
    obtain ⟨v, m₁, -, h⟩ := Exec.bind_eq_ok_iff.1 h
    obtain ⟨-, m₂, -, h⟩ := Exec.bind_eq_ok_iff.1 h
    cases h
    exact .stays
  | run callee =>
    rw [hi] at h
    obtain ⟨u, m₁, hnote, h⟩ := Exec.bind_eq_ok_iff.1 h
    obtain ⟨status, m₂, hcall, h⟩ := Exec.bind_eq_ok_iff.1 h
    split at h
    · cases h
      exact .stays
    · cases h
      exact .called ⟨index, rfl, hline, hi⟩ hnote hcall
  | return_ =>
    rw [hi] at h
    obtain ⟨-, m₁, -, h⟩ := Exec.bind_eq_ok_iff.1 h
    cases h
    exact .ends
  | if_ e next =>
    rw [hi] at h
    obtain ⟨v, m₁, -, h⟩ := Exec.bind_eq_ok_iff.1 h
    cases h
    exact .stays
  | while_ e stop =>
    rw [hi] at h
    obtain ⟨v, m₁, hvalue, h⟩ := Exec.bind_eq_ok_iff.1 h
    split at h
    · next hholds =>
      -- the guard holds: what is left of the budget decides
      have hgoes : p.GoesOn img index m m₁ := ⟨line, e, stop, v, hline, hi, hvalue, hholds⟩
      cases budget with
      | zero =>
        cases h
        exact .runaway rfl rfl hgoes
      | succ budget =>
        cases h
        exact .enters rfl hgoes
    · cases h
      exact .stays
  | _ =>
    rw [hi] at h
    cases h
    exact .stays

/-- While a branch is looked for the budget stays as it is, and nothing ends. -/
theorem seekLine_leads {index : Nat} {m m' : Machine} {r : Progress}
    (h : seekLine img p budget index m = .ok r m') :
    StepLeads img p call budget (.seek index) m r m' := by
  unfold seekLine at h
  cases hline : p.lines[index]? with
  | none =>
    rw [hline] at h
    cases h
    exact .stays
  | some line =>
    rw [hline] at h
    cases hi : line.instruction with
    | elseIf e next stop =>
      simp only [hi] at h
      obtain ⟨v, m₁, -, h⟩ := Exec.bind_eq_ok_iff.1 h
      cases h
      exact .stays
    | _ =>
      simp only [hi] at h
      cases h
      exact .stays

/-- Every step leads on or ends the invocation in one of these ways. -/
theorem step_leads {cursor : Cursor} {m m' : Machine} {r : Progress}
    (h : step img p call budget cursor m = .ok r m') :
    StepLeads img p call budget cursor m r m' := by
  cases cursor with
  | run index =>
    rw [step] at h
    cases hline : p.lines[index]? with
    | none =>
      rw [hline] at h
      cases h
      exact .ends
    | some line =>
      rw [hline] at h
      exact runLine_leads hline h
  | seek index => exact seekLine_leads h

end Steps

/-! ## Courses -/

/-- The steps from one place of an invocation to another, with the number of times that they enter
    the body of a loop. -/
inductive Course (img : Image) (p : Program) (call : Option (ProgramId → Exec Ending)) :
    Nat → Nat → Cursor → Machine → Nat → Cursor → Machine → Prop where
  | refl {budget : Nat} {cursor : Cursor} {m : Machine} :
      Course img p call 0 budget cursor m budget cursor m
  /-- A step that enters no body. -/
  | pass {entries budget budget' budget'' : Nat} {cursor cursor' cursor'' : Cursor}
      {m m' m'' : Machine} :
      (∀ index m₁, cursor = .run index → ¬ p.GoesOn img index m m₁) →
      step img p call budget cursor m = .ok (.next budget' cursor') m' →
      Course img p call entries budget' cursor' m' budget'' cursor'' m'' →
      Course img p call entries budget cursor m budget'' cursor'' m''
  /-- A loop goes on, and the first line of its body is next. -/
  | enter {entries index budget budget' budget'' : Nat} {cursor'' : Cursor} {m m' m'' : Machine} :
      p.GoesOn img index m m' →
      step img p call budget (.run index) m = .ok (.next budget' (.run (index + 1))) m' →
      Course img p call entries budget' (.run (index + 1)) m' budget'' cursor'' m'' →
      Course img p call (entries + 1) budget (.run index) m budget'' cursor'' m''

namespace Course

variable {img : Image} {p : Program} {call : Option (ProgramId → Exec Ending)}
  {n n' b b' b'' : Nat} {k k' k'' : Cursor} {m m' m'' : Machine}

/-- A step, and the course from where it leads. -/
theorem cons (hstep : step img p call b k m = .ok (.next b' k') m')
    (h : Course img p call n b' k' m' b'' k'' m'') :
    ∃ n', Course img p call n' b k m b'' k'' m'' := by
  by_cases hgoes : ∃ index m₁, k = .run index ∧ p.GoesOn img index m m₁
  · obtain ⟨index, m₁, rfl, hgoes⟩ := hgoes
    obtain ⟨-, rfl, rfl⟩ := step_enters hgoes hstep
    exact ⟨n + 1, .enter hgoes hstep h⟩
  · exact ⟨n, .pass (fun index m₁ hk hon => hgoes ⟨index, m₁, hk, hon⟩) hstep h⟩

theorem trans (h : Course img p call n b k m b' k' m')
    (h' : Course img p call n' b' k' m' b'' k'' m'') :
    Course img p call (n + n') b k m b'' k'' m'' := by
  induction h with
  | refl => rwa [Nat.zero_add]
  | pass hstays hstep _ ih => exact .pass hstays hstep (ih h')
  | enter hgoes hstep _ ih =>
    rw [Nat.succ_add_eq_add_succ]
    exact .enter hgoes hstep (ih h')

/-- The entries and what is left of the budget add up to the budget at the start. -/
theorem entries_add_budget (h : Course img p call n b k m b' k' m') : n + b' = b := by
  induction h with
  | refl => exact Nat.zero_add _
  | pass hstays hstep _ ih =>
    -- without an entry the budget stays, so there is nothing to add
    cases step_leads hstep with
    | stays => exact ih
    | enters hk hgoes => exact absurd hgoes (hstays _ _ hk)
  | enter hgoes hstep _ ih =>
    have htaken := (step_enters hgoes hstep).1
    omega

theorem walks (h : Course img p call n b k m b' k' m') :
    Walks img p call b k m b' k' m' := by
  induction h with
  | refl => exact .refl
  | pass _ hstep _ ih => exact .step hstep ih
  | enter _ hstep _ ih => exact .step hstep ih

/-- From a place whose step does not go on no other place is reached. -/
theorem eq_of_last
    (hlast : ∀ budget cursor m₁, step img p call b k m ≠ .ok (.next budget cursor) m₁)
    (h : Course img p call n b k m b' k' m') : n = 0 ∧ k' = k ∧ m' = m := by
  cases h with
  | refl => exact ⟨rfl, rfl, rfl⟩
  | pass _ hstep _ => exact absurd hstep (hlast _ _ _)
  | enter _ hstep _ => exact absurd hstep (hlast _ _ _)

/-- A place whose step does not go on comes after all places of the invocation. -/
theorem last (h : Course img p call n b k m b' k' m')
    (hlast : ∀ budget cursor m₁, step img p call b' k' m' ≠ .ok (.next budget cursor) m₁)
    (h' : Course img p call n' b k m b'' k'' m'') :
    ∃ rest, n' + rest = n ∧ Course img p call rest b'' k'' m'' b' k' m' := by
  -- the two courses take the same steps as long as both go on
  induction h' generalizing n with
  | refl => exact ⟨n, Nat.zero_add n, h⟩
  | pass hstays hstep _ ih =>
    cases h with
    | refl => exact absurd hstep (hlast _ _ _)
    | pass _ hstep' hrest =>
      cases hstep.symm.trans hstep'
      exact ih hrest
    | enter hgoes _ _ => exact absurd hgoes (hstays _ _ rfl)
  | enter hgoes hstep _ ih =>
    cases h with
    | refl => exact absurd hstep (hlast _ _ _)
    | pass hstays _ _ => exact absurd hgoes (hstays _ _ rfl)
    | enter _ hstep' hrest =>
      cases hstep.symm.trans hstep'
      obtain ⟨rest, hsum, hto⟩ := ih hrest
      exact ⟨rest, by omega, hto⟩

end Course

/-- An invocation that ends has come to a step that ends it. -/
theorem Ends.course {img : Image} {p : Program} {call : Option (ProgramId → Exec Ending)}
    {b : Nat} {k : Cursor} {m m' : Machine} {status : Ending}
    (h : Ends img p call b k m (.ok status m')) :
    ∃ n b' k' m₁, Course img p call n b k m b' k' m₁
      ∧ step img p call b' k' m₁ = .ok (.halt status) m' := by
  -- the end stays the same along the way, so it is fixed before the induction
  generalize hr : (.ok status m' : EStateM.Result Interrupt Machine Ending) = r at h
  induction h with
  | next hstep _ ih =>
    obtain ⟨n, b', k', m₁, hcourse, hlast⟩ := ih hr
    obtain ⟨n', hlonger⟩ := hcourse.cons hstep
    exact ⟨n', b', k', m₁, hlonger, hlast⟩
  | halt hstep =>
    cases hr
    exact ⟨0, _, _, _, .refl, hstep⟩
  | interrupt _ => cases hr

/-! ## Invocations -/

/-- An invocation at a depth comes to a place, after it has entered the bodies of loops a number
    of times. -/
def Image.Reaches (img : Image) (depth : Nat) (p : Program) (m : Machine) (entries : Nat)
    (cursor : Cursor) (m' : Machine) : Prop :=
  ∃ budget, Course img p (img.calls depth) entries img.settings.limits.loopEntries (.run 0) m
    budget cursor m'

/-- From one place an invocation at a depth comes to another. -/
def Image.LeadsTo (img : Image) (depth : Nat) (p : Program) (cursor : Cursor) (m : Machine)
    (cursor' : Cursor) (m' : Machine) : Prop :=
  ∃ entries budget budget', Course img p (img.calls depth) entries budget cursor m
    budget' cursor' m'

/-- The last step of an invocation, at a place that it comes to. -/
def Image.EndsAt (img : Image) (depth : Nat) (p : Program) (m : Machine) (entries : Nat)
    (cursor : Cursor) (m₁ : Machine) (status : Ending) (m' : Machine) : Prop :=
  ∃ budget, Course img p (img.calls depth) entries img.settings.limits.loopEntries (.run 0) m
      budget cursor m₁
    ∧ step img p (img.calls depth) budget cursor m₁ = .ok (.halt status) m'

/-- An invocation comes to a loop that goes on, after it has entered the bodies of loops as often
    as it may; one severe message is recorded then. -/
def Image.RunsAway (img : Image) (depth : Nat) (p : Program) (m : Machine) (cursor : Cursor)
    (m₁ m' : Machine) : Prop :=
  img.Reaches depth p m img.settings.limits.loopEntries cursor m₁
    ∧ ∃ index m₂, cursor = .run index ∧ p.GoesOn img index m₁ m₂
      ∧ m' = m₂.severe p.name img.runawayText

/-- An invocation comes to a call, the subroutine runs one level deeper, and what it ends with. -/
def Image.Receives (img : Image) (depth : Nat) (p : Program) (m : Machine) (entries : Nat)
    (cursor : Cursor) (m₁ : Machine) (status : Ending) (m' : Machine) : Prop :=
  img.Reaches depth p m entries cursor m₁
    ∧ ∃ line callee m₂ depth', p.CallsAt cursor line callee
      ∧ noteLine img p line none m₁ = .ok () m₂
      ∧ depth = depth' + 1 ∧ img.invoke depth' callee m₂ = .ok status m'

/-- An invocation comes to a call with no depth left; one severe message is recorded then. -/
def Image.NestsTooDeep (img : Image) (depth : Nat) (p : Program) (m : Machine) (cursor : Cursor)
    (m₁ m' : Machine) : Prop :=
  depth = 0 ∧ (∃ entries, img.Reaches depth p m entries cursor m₁)
    ∧ ∃ line callee m₂, p.CallsAt cursor line callee ∧ noteLine img p line none m₁ = .ok () m₂
      ∧ m' = m₂.severe p.name img.nestingText

namespace Image

variable {img : Image} {depth n : Nat} {p : Program} {m m₁ m' : Machine} {k : Cursor}
  {status : Ending}

/-- The entries of an invocation are never more than the limit. -/
theorem Reaches.entries_le (h : img.Reaches depth p m n k m₁) :
    n ≤ img.settings.limits.loopEntries := by
  obtain ⟨budget, hcourse⟩ := h
  have hsum := hcourse.entries_add_budget
  omega

/-- A loop that goes on before the limit is reached is entered once more. -/
theorem Reaches.enter {index : Nat} (h : img.Reaches depth p m n (.run index) m₁)
    (hgoes : p.GoesOn img index m₁ m') (hn : n < img.settings.limits.loopEntries) :
    img.Reaches depth p m (n + 1) (.run (index + 1)) m' := by
  obtain ⟨budget, hcourse⟩ := h
  have hsum := hcourse.entries_add_budget
  obtain ⟨left, rfl⟩ : ∃ left, budget = left + 1 := ⟨budget - 1, by omega⟩
  exact ⟨left, hcourse.trans (.enter hgoes (step_goesOn hgoes) .refl)⟩

/-- After a subroutine that ends normally the next line runs, with as many entries as before. -/
theorem Receives.next (h : img.Receives depth p m n k m₁ .normal m') :
    ∃ index, k = .run index ∧ img.Reaches depth p m n (.run (index + 1)) m' := by
  obtain ⟨⟨budget, hcourse⟩, line, callee, m₂, depth, hcalls, hnote, rfl, hends⟩ := h
  obtain ⟨index, rfl, hstep⟩ := step_callsAt (img.calls (depth + 1)) budget hcalls hnote hends
  refine ⟨index, rfl, budget, hcourse.trans (.pass ?_ hstep .refl)⟩
  rintro index' m₃ hk ⟨line', e, stop, v, hline, hi, -⟩
  exact hcalls.not_while hk hline hi

/-- A subroutine that does not end normally is the last that the program calls. -/
theorem Receives.endsAt (h : img.Receives depth p m n k m₁ status m') (hstatus : status ≠ .normal) :
    img.EndsAt depth p m n k m₁ status m' := by
  obtain ⟨⟨budget, hcourse⟩, line, callee, m₂, depth, hcalls, hnote, rfl, hends⟩ := h
  obtain ⟨index, rfl, hstep⟩ := step_callsAt (img.calls (depth + 1)) budget hcalls hnote hends
  rw [if_neg hstatus] at hstep
  exact ⟨budget, hcourse, hstep⟩

/-- A call with no depth left is the last thing in its program. -/
theorem NestsTooDeep.endsAt (h : img.NestsTooDeep depth p m k m₁ m') :
    ∃ n, img.EndsAt depth p m n k m₁ .recursionLimit m' := by
  obtain ⟨rfl, ⟨n, budget, hcourse⟩, line, callee, m₂, hcalls, hnote, rfl⟩ := h
  have hcall : callSubroutine img p (img.calls 0) callee m₂
      = .ok .recursionLimit (m₂.severe p.name img.nestingText) := rfl
  obtain ⟨index, rfl, hstep⟩ := step_callsAt (img.calls 0) budget hcalls hnote hcall
  exact ⟨n, budget, hcourse, hstep⟩

/-- A loop that runs away is the last thing in its program. -/
theorem RunsAway.endsAt (h : img.RunsAway depth p m k m₁ m') :
    img.EndsAt depth p m img.settings.limits.loopEntries k m₁ .runawayLoop m' := by
  obtain ⟨⟨budget, hcourse⟩, index, m₂, rfl, hgoes, rfl⟩ := h
  have hsum := hcourse.entries_add_budget
  obtain rfl : budget = 0 := by omega
  exact ⟨0, hcourse, step_goesOn hgoes⟩

/-- An invocation is halted by a loop that runs away, by a call with no depth left, or by a
    subroutine that was halted. -/
theorem EndsAt.cases (h : img.EndsAt depth p m n k m₁ status m') (hstatus : status ≠ .normal) :
    (status = .runawayLoop ∧ img.RunsAway depth p m k m₁ m')
      ∨ (status = .recursionLimit ∧ img.NestsTooDeep depth p m k m₁ m')
      ∨ img.Receives depth p m n k m₁ status m' := by
  obtain ⟨budget, hcourse, hlast⟩ := h
  cases step_leads hlast with
  | ends => exact absurd rfl hstatus
  | @runaway index m₂ hbudget hk hgoes =>
    have hsum := hcourse.entries_add_budget
    obtain rfl : n = img.settings.limits.loopEntries := by omega
    exact .inl ⟨rfl, ⟨budget, hcourse⟩, index, m₂, hk, hgoes, rfl⟩
  | called hcalls hnote hcall =>
    refine .inr ?_
    cases depth with
    | zero =>
      cases hcall
      exact .inl ⟨rfl, rfl, ⟨n, budget, hcourse⟩, _, _, _, hcalls, hnote, rfl⟩
    | succ depth =>
      exact .inr ⟨⟨budget, hcourse⟩, _, _, _, depth, hcalls, hnote, rfl, hcall⟩

/-- Every place of an invocation leads to its last step. -/
theorem EndsAt.leadsTo (h : img.EndsAt depth p m n k m₁ status m') {n' : Nat} {k' : Cursor}
    {m₂ : Machine} (hto : img.Reaches depth p m n' k' m₂) : img.LeadsTo depth p k' m₂ k m₁ := by
  obtain ⟨budget, hcourse, hlast⟩ := h
  obtain ⟨budget', hcourse'⟩ := hto
  obtain ⟨rest, -, hon⟩ :=
    hcourse.last (fun _ _ _ hstep => by cases hlast.symm.trans hstep) hcourse'
  exact ⟨rest, budget', budget, hon⟩

/-- The last step of an invocation is at one place only. -/
theorem EndsAt.unique (h : img.EndsAt depth p m n k m₁ status m') {n' : Nat} {k' : Cursor}
    {m₂ m'' : Machine} {status' : Ending} (h' : img.EndsAt depth p m n' k' m₂ status' m'') :
    n = n' ∧ k = k' ∧ m₁ = m₂ := by
  obtain ⟨budget, hcourse, hlast⟩ := h
  obtain ⟨budget', hcourse', hlast'⟩ := h'
  obtain ⟨rest, hsum, hon⟩ :=
    hcourse.last (fun _ _ _ hstep => by cases hlast.symm.trans hstep) hcourse'
  obtain ⟨rfl, rfl, rfl⟩ := hon.eq_of_last fun _ _ _ hstep => by cases hlast'.symm.trans hstep
  exact ⟨hsum.symm, rfl, rfl⟩

/-- A loop that runs away is not a call. -/
theorem RunsAway.not_receives (h : img.RunsAway depth p m k m₁ m') {k' : Cursor} {m₂ m'' : Machine}
    (hstatus : status ≠ .normal) : ¬ img.Receives depth p m n k' m₂ status m'' := by
  intro hcalled
  -- both would be the last step, and one line is not both a loop and a call
  obtain ⟨-, rfl, rfl⟩ := h.endsAt.unique (hcalled.endsAt hstatus)
  obtain ⟨-, index, m₃, hk, ⟨line, e, stop, v, hline, hi, -⟩, -⟩ := h
  obtain ⟨-, line', callee, m₄, depth', hcalls, -⟩ := hcalled
  exact hcalls.not_while hk hline hi

end Image

namespace Image.IsSound

variable {img : Image} (h : img.IsSound) {id : ProgramId} {p : Program}
  (hp : img.programs[id]? = some p)
include h hp

/-- An invocation ends with its last step. -/
theorem invoke_eq_iff {depth : Nat} {m m' : Machine} {status : Ending} :
    img.invoke depth id m = .ok status m' ↔ ∃ n k m₁, img.EndsAt depth p m n k m₁ status m' := by
  have hends := h.ends_invoke depth hp m
  constructor
  · intro hresult
    rw [hresult] at hends
    obtain ⟨n, budget, k, m₁, hcourse, hlast⟩ := hends.course
    exact ⟨n, k, m₁, budget, hcourse, hlast⟩
  · rintro ⟨n, k, m₁, budget, hcourse, hlast⟩
    exact hends.unique (hcourse.walks.ends (.halt hlast))

end Image.IsSound

end Erl
