/-
  Erl.Proofs.Controller.ReadBack

  What is assigned can be read back.

  A name after `SET` and the same name in an expression stand for the same variable of a program,
  and as long as no step assigns the variable it keeps its value, whatever else runs.  So a line
  reads what the program assigned before, unless the name is one of the constants: these are
  read as constants, although they can be assigned.
-/

import Erl.Proofs.Controller.InRange
import Erl.Proofs.Controller.Limits
import Erl.Proofs.Controller.Places

namespace Erl

/-! ## Assignments on the way -/

/-- The variables that the lines of a program assign and the subroutines that they run. -/
def Program.uses (p : Program) : List (Option VariableId × Option ProgramId) :=
  p.lines.toList.map fun l => (l.instruction.target?, l.instruction.subroutine?)

theorem Program.getElem?_uses {p : Program} {index : Nat} {line : ReadyLine}
    (h : p.lines[index]? = some line) :
    p.uses[index]? = some (line.instruction.target?, line.instruction.subroutine?) := by
  rw [Program.uses, List.getElem?_map, Array.getElem?_toList, h, Option.map_some]

namespace Image

/-- An invocation comes to an assignment of a variable, in its own program or in a subroutine that
    it calls. -/
def Stores (img : Image) (target : VariableId) (depth : Nat) (id : ProgramId) (m : Machine) :
    Prop :=
  ∃ q cursor m' e, img.ComesTo q cursor m' depth id m ∧ q.SetsAt cursor target e

/-- A step assigns a variable, by its own line or in the subroutine that it calls. -/
def StepStores (img : Image) (target : VariableId) (p : Program) (depth : Nat) (cursor : Cursor)
    (m : Machine) : Prop :=
  (∃ e, p.SetsAt cursor target e)
    ∨ ∃ line callee left m₁, p.CallsAt cursor line callee ∧ noteLine img p line none m = .ok () m₁
      ∧ depth = left + 1 ∧ img.Stores target left callee m₁

/-- The steps of an invocation lead from one place to another, and none of them assigns a
    variable. -/
inductive WalksSparing (img : Image) (target : VariableId) (p : Program) (depth : Nat) :
    Nat → Cursor → Machine → Nat → Cursor → Machine → Prop where
  | refl {budget : Nat} {cursor : Cursor} {m : Machine} :
      WalksSparing img target p depth budget cursor m budget cursor m
  | step {budget budget' budget'' : Nat} {cursor cursor' cursor'' : Cursor} {m m' m'' : Machine} :
      ¬ img.StepStores target p depth cursor m →
      Erl.step img p (img.calls depth) budget cursor m = .ok (.next budget' cursor') m' →
      WalksSparing img target p depth budget' cursor' m' budget'' cursor'' m'' →
      WalksSparing img target p depth budget cursor m budget'' cursor'' m''

end Image

/-! ## Variables that are spared -/

section Sparing

variable {img : Image} {target : VariableId} {p : Program}

/-- An invocation that does not come to an assignment of a variable leaves it as it is. -/
theorem Image.invoke_spares {depth : Nat} {id : ProgramId} {m : Machine} {x : Option Variable}
    (h : ¬ img.Stores target depth id m) (hm : m.store.get? target = x) :
    Exec.EndsIn (fun m' => m'.store.get? target = x) (img.invoke depth id m) := by
  have hset : ∀ q cursor m', img.ComesTo q cursor m' depth id m → m'.store.get? target = x →
      ∀ target' e v m₁, q.SetsAt cursor target' e → img.evaluate q.name e m' = .ok v m₁ →
        (m'.store.set target' v).get? target = x := by
    intro q cursor m' hcomes hm' target' e v m₁ hsets _
    have hne : target' ≠ target := by
      rintro rfl
      exact h ⟨q, cursor, m', e, hcomes, hsets⟩
    rw [Store.get?_set_of_ne _ hne, hm']
  exact (Image.invoke_invariant (P := fun t => t.get? target = x) hset hm).1

/-- A step that does not assign a variable leaves it as it is. -/
theorem step_spares {depth : Nat} (budget : Nat) {cursor : Cursor} {m : Machine}
    {x : Option Variable} (h : ¬ img.StepStores target p depth cursor m)
    (hm : m.store.get? target = x) :
    Exec.EndsIn (fun m' => m'.store.get? target = x)
      (step img p (img.calls depth) budget cursor m) := by
  refine step_keeps (P := fun t => t.get? target = x) budget ?_ ?_ hm
  · intro target' e v m₁ hsets _
    have hne : target' ≠ target := by
      rintro rfl
      exact h (.inl ⟨e, hsets⟩)
    rw [Store.get?_set_of_ne _ hne, hm]
  · intro line callee left m₁ hcalls hnote hdepth hm₁
    refine Image.invoke_spares (fun hstores => ?_) hm₁
    exact h (.inr ⟨line, callee, left, m₁, hcalls, hnote, hdepth, hstores⟩)

/-- A variable that no step assigns keeps its value. -/
theorem Image.WalksSparing.get?_eq {depth budget budget' : Nat} {cursor cursor' : Cursor}
    {m m' : Machine} (h : img.WalksSparing target p depth budget cursor m budget' cursor' m') :
    m'.store.get? target = m.store.get? target := by
  induction h with
  | refl => rfl
  | @step budget _ _ _ _ _ _ _ _ hspares hstep _ ih =>
    have hkept := step_spares budget hspares rfl
    rw [hstep] at hkept
    exact ih.trans hkept

/-- Programs that call only one another do not come to an assignment of a variable that none of
    them assigns. -/
theorem Image.not_stores (within : ProgramId → Prop)
    (hwithin : ∀ id p, within id → img.programs[id]? = some p → ∀ use ∈ p.uses,
      use.1 ≠ some target ∧ ∀ callee, use.2 = some callee → within callee)
    {depth : Nat} {id : ProgramId} {m : Machine} (hid : within id) :
    ¬ img.Stores target depth id m := by
  rintro ⟨q, at_, m', e, hcomes, index, line, rfl, hline, hi⟩
  induction hcomes with
  | here hq _ =>
    have huse := List.mem_of_getElem? (Program.getElem?_uses hline)
    refine (hwithin _ _ hid hq _ huse).1 ?_
    rw [hi, Instruction.target?]
  | call hp _ hcalls _ _ ih =>
    obtain ⟨index', -, hline', hi'⟩ := hcalls
    have huse := List.mem_of_getElem? (Program.getElem?_uses hline')
    refine ih ((hwithin _ _ hid hp _ huse).2 _ ?_)
    rw [hi', Instruction.subroutine?]

/-- A step at a line that does not assign a variable, and calls at most such programs, does not
    assign it. -/
theorem Image.not_stepStores (within : ProgramId → Prop)
    (hwithin : ∀ id p, within id → img.programs[id]? = some p → ∀ use ∈ p.uses,
      use.1 ≠ some target ∧ ∀ callee, use.2 = some callee → within callee)
    {depth index : Nat} {use : Option VariableId × Option ProgramId} {m : Machine}
    (huse : p.uses[index]? = some use) (htarget : use.1 ≠ some target)
    (hcallee : ∀ callee, use.2 = some callee → within callee) :
    ¬ img.StepStores target p depth (.run index) m := by
  rintro (⟨e, _, line, hrun, hline, hi⟩ | ⟨line, callee, left, m₁, hcalls, -, -, hstores⟩)
  · cases hrun
    rw [Program.getElem?_uses hline, hi] at huse
    exact htarget (congrArg Prod.fst (Option.some.inj huse)).symm
  · obtain ⟨_, hrun, hline, hi⟩ := hcalls
    cases hrun
    rw [Program.getElem?_uses hline, hi] at huse
    have hcalled := hcallee callee (congrArg Prod.snd (Option.some.inj huse)).symm
    exact Image.not_stores within hwithin hcalled hstores

end Sparing

/-! ## Names -/

/-- A word means the constant that it denotes, or else what it stands for as a name. -/
theorem Parser.meaning_word (img : Image) (names : Naming) (title spelling : String)
    (location : Location) :
    (Parser.word spelling location).meaning img names title
      = (Literal.named? spelling).elim (Referent.read (names.resolve? spelling))
          fun l => pure l.value := by
  rw [Parser.word]
  cases Literal.named? spelling with
  | none => rw [Expr.meaning, Option.elim]
  | some l => rw [Expr.meaning, Option.elim]

/-- The name that an expression consists of. -/
def Expr.name? : Expr → Option String
  | name spelling _ => some spelling
  | _ => none

/-- A name that denotes no constant is written as a word. -/
theorem Parser.exists_word_eq {e : Expr} {spelling : String} (h : e.name? = some spelling)
    (hname : Literal.named? spelling = none) :
    ∃ location, e = Parser.word spelling location := by
  cases e with
  | name s location =>
    cases h
    refine ⟨location, ?_⟩
    rw [Parser.word, hname]
  | _ => cases h

/-- A step at a line that assigns a variable stores the value of its expression and goes on to the
    next line. -/
theorem step_assigns {img : Image} {p : Program} {call : Option (ProgramId → Exec Ending)}
    {budget index : Nat} {line : ReadyLine} {target : VariableId} {e : NodeId} {m m' : Machine}
    {r : Progress} (hline : p.lines[index]? = some line) (hi : line.instruction = .set target e)
    (htarget : target < m.store.size)
    (h : step img p call budget (.run index) m = .ok r m') :
    r = .next budget (.run (index + 1))
      ∧ ∃ v m₁, img.evaluate p.name e m = .ok v m₁ ∧ m'.store.value target = v := by
  rw [step, hline] at h
  simp only [runLine, hi] at h
  obtain ⟨v, m₂, hvalue, h⟩ := Exec.bind_eq_ok_iff.1 h
  cases h
  obtain ⟨m₁, heval⟩ := exists_of_evaluateLine hvalue
  have hstore := evaluateLine_store img p line e m
  rw [hvalue] at hstore
  refine ⟨rfl, v, m₁, heval, ?_⟩
  rw [Store.value_set, show m₂.store = m.store from hstore, if_pos ⟨rfl, htarget⟩]

namespace Controller

/-- What is assigned can be read back, unless the name denotes a constant.

    In a program that was compiled, a line that assigns a name and a later line that consists of
    the same name, in any letter case, refer to the same variable.  A step at the first line that
    ends stores the value of its expression and goes on to the next line.  Wherever the invocation
    comes to from there, in as many steps as it takes, with loops and calls of subroutines on the
    way: if none of the steps assigns the variable, the later line has that value, and evaluating
    it changes nothing.  A name that denotes a constant has the value of the constant instead. -/
theorem read_back_assigned (c : Controller) (hcompiled : c.compile.compiled = true)
    {id : ProgramId} {p : Program} (hp : c.compile.image.programs[id]? = some p) :
    ∃ source, parseCode p.source = .ok source
      ∧ ∀ (i j : Nat) (line later : SourceLine) (x y : String) (e : Expr) (location : Location),
        source[i]? = some line → line.instruction = .set x e →
        source[j]? = some later →
        later.instruction.expression? = some (Parser.word y location) →
        Text.sameName x y = true →
        ∃ (assigning reading : ReadyLine) (target : VariableId) (n k : NodeId),
          p.lines[i]? = some assigning ∧ assigning.instruction = .set target n
          ∧ p.lines[j]? = some reading ∧ reading.instruction.expression? = some k
          ∧ ∀ (img : Image) (depth budget : Nat) (m m₁ : Machine) (r : Progress),
            img.nodes = c.compile.image.nodes → c.compile.machine.store.size ≤ m.store.size →
            step img p (img.calls depth) budget (.run i) m = .ok r m₁ →
            r = .next budget (.run (i + 1))
            ∧ ∃ v m₀, img.evaluate p.name n m = .ok v m₀ ∧ m₁.store.value target = v
              ∧ ∀ budget' cursor m₂,
                img.WalksSparing target p depth budget (.run (i + 1)) m₁ budget' cursor m₂ →
                img.evaluate p.name k m₂
                  = .ok ((Literal.named? y).elim v Literal.value) m₂ := by
  obtain ⟨source, hparse, hlines⟩ := c.compile_spec.2.2 id p hp (.inl hcompiled)
  refine ⟨source, hparse, ?_⟩
  intro i j line later x y e location hline hset hlater hword hsame
  rw [← Array.getElem?_toList] at hline hlater
  -- the first line, with the variable that its name stands for
  obtain ⟨assigning, hassigning, hrealizes⟩ := getElem?_of_forall₂ hlines hline
  have hassigns := hrealizes.instruction
  rw [hset] at hassigns
  generalize hinstruction : assigning.instruction = instruction at hassigns
  obtain @⟨_, _, target, n, hresolve, -⟩ := hassigns
  have htarget : target < c.compile.machine.store.size := Naming.resolve?_inRange hresolve 0
  -- the later line, which is the same name
  obtain ⟨reading, hreading, hreads⟩ := getElem?_of_forall₂ hlines hlater
  obtain ⟨k, hk, hdenotes⟩ := hreads.instruction.denotesWhole hword
  have hfit := parseCode_fits hparse (List.mem_of_getElem? hlater) _ hword
  refine ⟨assigning, reading, target, n, k, by rwa [← Array.getElem?_toList], hinstruction,
    by rwa [← Array.getElem?_toList], hk, ?_⟩
  intro img depth budget m m₁ r hnodes hsize hstep
  rw [Array.getElem?_toList] at hassigning
  obtain ⟨hr, v, m₀, hvalue, hstored⟩ :=
    step_assigns hassigning hinstruction (Nat.lt_of_lt_of_le htarget hsize) hstep
  refine ⟨hr, v, m₀, hvalue, hstored, ?_⟩
  intro budget' cursor m₂ hwalks
  have hkept : m₂.store.value target = v := by
    rw [Store.value_eq, hwalks.get?_eq, ← Store.value_eq, hstored]
  rw [← hnodes] at hdenotes
  rw [hdenotes.evaluate_eq hfit p.name, Parser.meaning_word,
    ← Naming.resolve?_congr _ hsame, hresolve]
  cases Literal.named? y with
  | some l => rfl
  | none =>
    rw [← hkept]
    rfl

/-- A controller with a program that assigns a local, runs a subroutine that assigns a local with
    the same name, and reads its own. -/
def readsBack : Controller :=
  let source := "SET x = 2 + 3\nRUN other\nIF X\nENDIF"
  let c := ((Controller.ofSettings .default .zero).addProgram "main" source).2
  (c.addSubroutine "other" "SET x = 7").2

/-- The first two steps of a program, with the value of a variable in between. -/
def firstSteps (img : Image) (p : Program) (target : VariableId) : Exec (Value × Progress) := do
  let _ ← step img p (img.calls 1) 0 (.run 0)
  let m ← get
  let second ← step img p (img.calls 1) 0 (.run 1)
  return (m.store.value target, second)

theorem read_back_assigned_readsBack :
    readsBack.compile.compiled = true
      ∧ ∃ p k m₁ m₂, readsBack.compile.image.programs[0]? = some p
        ∧ step readsBack.compile.image p (readsBack.compile.image.calls 1) 0 (.run 0)
            readsBack.compile.machine = .ok (.next 0 (.run 1)) m₁
        ∧ readsBack.compile.image.WalksSparing 16 p 1 0 (.run 1) m₁ 0 (.run 2) m₂
        ∧ m₁.store.value 16 = .number 5.0
        ∧ readsBack.compile.image.evaluate p.name k m₂ = .ok (.number 5.0) m₂ := by
  have hcompiled : readsBack.compile.compiled = true := by decide +kernel
  have hmain : (readsBack.compile.image.programs[0]?).map (fun p => (p.source, p.uses))
        = some ("SET x = 2 + 3\nRUN other\nIF X\nENDIF",
            [(some 16, none), (none, some 1), (none, none), (none, none)]) := by
    decide +kernel
  have hsteps : (readsBack.compile.image.programs[0]?).bind (fun p =>
          (firstSteps readsBack.compile.image p 16).run' readsBack.compile.machine)
        = some (.number 5.0, .next 0 (.run 2)) := by
    decide +kernel
  have hother : (readsBack.compile.image.programs[1]?).map Program.uses
      = some [(some 17, none)] := by
    decide +kernel
  have hwritten : (parseCode "SET x = 2 + 3\nRUN other\nIF X\nENDIF").toOption.map (fun source =>
        ((source[0]?).bind fun l => l.instruction.target?,
          (source[2]?).bind fun l => l.instruction.expression?.bind Expr.name?))
      = some (some "x", some "X") := by
    decide +kernel
  obtain ⟨p, hp, hmain⟩ := Option.map_eq_some_iff.1 hmain
  obtain ⟨hsource, huses⟩ := Prod.mk.inj hmain
  rw [hp, Option.bind_some] at hsteps
  obtain ⟨source, hparse, hback⟩ := readsBack.read_back_assigned hcompiled hp
  -- the first and the third line as they are written
  rw [hsource] at hparse
  rw [hparse] at hwritten
  obtain ⟨hfirst, hthird⟩ := Prod.mk.inj (Option.some.inj hwritten)
  obtain ⟨line, hline, htarget⟩ := Option.bind_eq_some_iff.1 hfirst
  obtain ⟨e, hset⟩ : ∃ e, line.instruction = .set "x" e := by
    cases hi : line.instruction with
    | set target e =>
      rw [hi] at htarget
      cases htarget
      exact ⟨e, rfl⟩
    | _ =>
      rw [hi] at htarget
      cases htarget
  obtain ⟨later, hlater, hname⟩ := Option.bind_eq_some_iff.1 hthird
  obtain ⟨w, hw, hname⟩ := Option.bind_eq_some_iff.1 hname
  obtain ⟨location, rfl⟩ := Parser.exists_word_eq hname rfl
  obtain ⟨assigning, reading, target, n, k, hassigning, hinstruction, -, -, hback⟩ :=
    hback 0 2 line later "x" "X" e location hline hset hlater hw (by decide)
  have huse := Program.getElem?_uses hassigning
  rw [huses, hinstruction] at huse
  cases huse
  -- the two steps
  obtain ⟨m₃, hsteps⟩ := Exec.exists_of_run' hsteps
  obtain ⟨first, m₁, hone, hsteps⟩ := Exec.bind_eq_ok_iff.1 hsteps
  obtain ⟨_, m₁', hget, hsteps⟩ := Exec.bind_eq_ok_iff.1 hsteps
  cases hget
  obtain ⟨second, m₂, htwo, hsteps⟩ := Exec.bind_eq_ok_iff.1 hsteps
  obtain ⟨hstored, rfl⟩ := Prod.mk.inj (EStateM.Result.ok.inj hsteps).1
  obtain ⟨rfl, v, m₀, -, rfl, hback⟩ := hback _ 1 0 _ m₁ first rfl (Nat.le_refl _) hone
  -- the subroutine assigns its own local and calls nothing
  have hspares : ¬ readsBack.compile.image.StepStores 16 p 1 (.run 1) m₁ := by
    have hsecond : p.uses[1]? = some (none, some 1) := by rw [huses]; rfl
    refine Image.not_stepStores (· = 1) ?_ hsecond (by decide) (by simp)
    rintro id q rfl hq use huse
    rw [hq] at hother
    rw [Option.some.inj hother, List.mem_singleton] at huse
    subst huse
    exact ⟨by decide, by simp⟩
  have hwalks := Image.WalksSparing.step hspares htwo .refl
  refine ⟨hcompiled, p, k, m₁, m₂, hp, hone, hwalks, hstored, ?_⟩
  rw [hback _ _ _ hwalks, hstored]
  rfl

/-- A controller with a program that assigns a name that denotes a constant. -/
def namedOn : Controller :=
  let c := ((Controller.ofSettings .default .zero).addGlobal "y" .user).2
  let c := (c.addProgram "Main" "SET on = 5\nSET y = on").2
  (c.bindProgram .beginTimestepBeforePredictor "Main").2.compile

/-- A name that denotes a constant can be assigned, but not read back. -/
theorem namedOn_not_read_back :
    namedOn.compiled = true
      ∧ (namedOn.run .beginTimestepBeforePredictor).1 = .ok [⟨"Main", .normal⟩]
      ∧ (namedOn.run .beginTimestepBeforePredictor).2.readInProgram "Main" "on"
          = .ok (.number 5.0)
      ∧ (namedOn.run .beginTimestepBeforePredictor).2.readGlobal "y" = .ok (.number 1.0) := by
  decide +kernel

end Controller

end Erl
