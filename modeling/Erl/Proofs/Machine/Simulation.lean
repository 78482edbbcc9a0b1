/-
  Erl.Proofs.Machine.Simulation

  Flat programs run like their trees.

  `Leads` compares the steps from a cursor with the end of a part of a tree: where the part ends
  the invocation, the steps lead there; where it comes to its end, they lead on to the line
  behind it.  It holds of every block at the position of its code, by induction on the tree; for
  a loop by induction on the budget.
-/

import Erl.Proofs.Machine.Structured
import Erl.Proofs.Machine.Termination

namespace Erl

/-- The line at a position of a program carries out a line of a source. -/
def Frame.Carries (f : Frame) (p : Program) (i : Nat) (source : SourceLine) : Prop :=
  ∃ line, p.lines[i]? = some line
    ∧ LineRealizes f.names f.img.nodes f.img.programs source line
    ∧ ∀ e ∈ source.instruction.expression?, e.FitsArity

/-! ## Steps -/

section Steps

variable {f : Frame} {p : Program} (htitle : p.name = f.title)
include htitle

theorem reportError_eq {mark : Mark} {line : ReadyLine}
    (hlocation : line.location = mark.location) (v : Value) :
    reportError f.img p line v = f.report mark v := by
  unfold reportError Frame.report
  rewrite [hlocation, htitle]
  rfl

theorem noteLine_eq {mark : Mark} {line : ReadyLine} (hlocation : line.location = mark.location)
    (htext : line.text = mark.text) (v : Option Value) :
    noteLine f.img p line v = f.note mark v := by
  unfold noteLine Frame.note
  rw [hlocation, htext, htitle]

/-- The value of the expression of a line. -/
theorem evaluateLine_eq {mark : Mark} {line : ReadyLine} {e : Expr} {n : NodeId}
    (hlocation : line.location = mark.location) (htext : line.text = mark.text)
    (hden : DenotesWhole f.names f.img.nodes e n) (hfit : e.FitsArity) :
    evaluateLine f.img p line n = f.value mark e := by
  simp only [evaluateLine, Frame.value, hden.evaluate_eq hfit, htitle,
    reportError_eq htitle hlocation, noteLine_eq htitle hlocation htext]

/-- A call runs the subroutine that its name stands for. -/
theorem callSubroutine_eq {name : String} {id : ProgramId}
    (hid : subroutineNamed? f.img.programs name = some id) :
    callSubroutine f.img p f.call id = f.runSubroutine name := by
  unfold callSubroutine Frame.runSubroutine
  rw [hid]
  cases f.call with
  | none => rw [htitle]
  | some call => rfl

/-- A plain line. -/
theorem step_plain {mark : Mark} {s : Plain} {i : Nat}
    (h : f.Carries p i (mark.line s.instruction)) (budget : Nat) :
    step f.img p f.call budget (.run i) = (do
      match ← f.plain mark s with
      | none => return .next budget (.run (i + 1))
      | some status => return .halt status) := by
  obtain ⟨⟨location, text, instruction⟩, hline, ⟨hlocation, htext, hreal⟩, hfit⟩ := h
  rw [step, hline]
  cases s with
  | set target value =>
    cases hreal with
    | set hname hden =>
      have hvalue := evaluateLine_eq htitle hlocation htext hden (hfit _ rfl)
      simp only [runLine, hvalue, Frame.plain, Frame.assign, hname, assign, bind_assoc, pure_bind]
  | run subroutine =>
    cases hreal with
    | run hid =>
      have hnote := noteLine_eq htitle hlocation htext none
      simp only [runLine, hnote, callSubroutine_eq htitle hid, Frame.plain, bind_assoc]
      congr 1
      funext _
      congr 1
      funext status
      cases status <;> simp
  | return_ =>
    cases hreal
    have hnote := noteLine_eq htitle hlocation htext none
    simp only [runLine, hnote, Frame.plain, bind_assoc, pure_bind]

/-- The first line of a branch. -/
theorem step_if {mark : Mark} {c : Expr} {i next : Nat}
    (h : f.Carries p i (mark.line (.if_ c next))) (budget : Nat) :
    step f.img p f.call budget (.run i) = (do
      let v ← f.value mark c
      return .next budget (if v.holds then .run (i + 1) else .seek next)) := by
  obtain ⟨⟨location, text, instruction⟩, hline, ⟨hlocation, htext, hreal⟩, hfit⟩ := h
  rw [step, hline]
  cases hreal with
  | if_ hden =>
    have hvalue := evaluateLine_eq htitle hlocation htext hden (hfit _ rfl)
    simp only [runLine, hvalue]

/-- The first line of a loop. -/
theorem step_while {mark : Mark} {c : Expr} {i stop : Nat}
    (h : f.Carries p i (mark.line (.while_ c stop))) (budget : Nat) :
    step f.img p f.call budget (.run i) = (do
      let v ← f.value mark c
      if v.holds then enterLoop f.img p budget i
      else return .next budget (.run (stop + 1))) := by
  obtain ⟨⟨location, text, instruction⟩, hline, ⟨hlocation, htext, hreal⟩, hfit⟩ := h
  rw [step, hline]
  cases hreal with
  | while_ hden =>
    have hvalue := evaluateLine_eq htitle hlocation htext hden (hfit _ rfl)
    simp only [runLine, hvalue]

/-- An arm with a guard, where the guards before do not hold. -/
theorem step_seek_elseIf {mark : Mark} {c : Expr} {i next stop : Nat}
    (h : f.Carries p i (mark.line (.elseIf c next stop))) (budget : Nat) :
    step f.img p f.call budget (.seek i) = (do
      let v ← f.value mark c
      return .next budget (if v.holds then .run (i + 1) else .seek next)) := by
  obtain ⟨⟨location, text, instruction⟩, hline, ⟨hlocation, htext, hreal⟩, hfit⟩ := h
  rw [step, seekLine, hline]
  cases hreal with
  | elseIf hden =>
    have hvalue := evaluateLine_eq htitle hlocation htext hden (hfit _ rfl)
    simp only [hvalue]

end Steps

section Jumps

variable {f : Frame} {p : Program} {mark : Mark} {i : Nat}

/-- The end of an arm goes to the end of its branch. -/
theorem step_elseIf {c : Expr} {next stop : Nat}
    (h : f.Carries p i (mark.line (.elseIf c next stop))) (budget : Nat) :
    step f.img p f.call budget (.run i) = pure (.next budget (.run stop)) := by
  obtain ⟨⟨location, text, instruction⟩, hline, ⟨-, -, hreal⟩, -⟩ := h
  rw [step, hline]
  cases hreal
  rfl

theorem step_else {stop : Nat} (h : f.Carries p i (mark.line (.else_ stop))) (budget : Nat) :
    step f.img p f.call budget (.run i) = pure (.next budget (.run stop)) := by
  obtain ⟨⟨location, text, instruction⟩, hline, ⟨-, -, hreal⟩, -⟩ := h
  rw [step, hline]
  cases hreal
  rfl

/-- The end of a branch goes on. -/
theorem step_endIf (h : f.Carries p i (mark.line .endIf)) (budget : Nat) :
    step f.img p f.call budget (.run i) = pure (.next budget (.run (i + 1))) := by
  obtain ⟨⟨location, text, instruction⟩, hline, ⟨-, -, hreal⟩, -⟩ := h
  rw [step, hline]
  cases hreal
  rfl

/-- The end of a loop goes back to its start. -/
theorem step_endWhile {start : Nat} (h : f.Carries p i (mark.line (.endWhile start)))
    (budget : Nat) :
    step f.img p f.call budget (.run i) = pure (.next budget (.run start)) := by
  obtain ⟨⟨location, text, instruction⟩, hline, ⟨-, -, hreal⟩, -⟩ := h
  rw [step, hline]
  cases hreal
  rfl

/-- An arm without a guard, or the end of the branch, is taken when no guard holds. -/
theorem step_seek_else {stop : Nat} (h : f.Carries p i (mark.line (.else_ stop)))
    (budget : Nat) :
    step f.img p f.call budget (.seek i) = pure (.next budget (.run (i + 1))) := by
  obtain ⟨⟨location, text, instruction⟩, hline, ⟨-, -, hreal⟩, -⟩ := h
  rw [step, seekLine, hline]
  cases hreal
  rfl

theorem step_seek_endIf (h : f.Carries p i (mark.line .endIf)) (budget : Nat) :
    step f.img p f.call budget (.seek i) = pure (.next budget (.run (i + 1))) := by
  obtain ⟨⟨location, text, instruction⟩, hline, ⟨-, -, hreal⟩, -⟩ := h
  rw [step, seekLine, hline]
  cases hreal
  rfl

end Jumps

/-! ## Parts of a tree -/

/-- The steps from a cursor lead where a part of a tree ends: to the end of the invocation, or on
    to the line at `exit` with what is left of the budget. -/
def Leads (f : Frame) (p : Program) (exit budget : Nat) (cursor : Cursor) (m : Machine)
    {b : Nat} : EStateM.Result Interrupt Machine (Flow b) → Prop
  | .error e m' => Ends f.img p f.call budget cursor m (.error e m')
  | .ok (.halt status) m' => Ends f.img p f.call budget cursor m (.ok status m')
  | .ok (.through left _) m' => ∀ r, Ends f.img p f.call left (.run exit) m' r →
      Ends f.img p f.call budget cursor m r

namespace Leads

variable {f : Frame} {p : Program} {exit exit' budget budget' b : Nat} {cursor cursor' : Cursor}
  {m m' : Machine}

/-- A way to a cursor before a part from it. -/
theorem before {r : EStateM.Result Interrupt Machine (Flow b)}
    (hway : ∀ r', Ends f.img p f.call budget' cursor' m' r' →
      Ends f.img p f.call budget cursor m r')
    (h : Leads f p exit budget' cursor' m' r) : Leads f p exit budget cursor m r := by
  match r, h with
  | .error e m'', h => exact hway _ h
  | .ok (.halt status) m'', h => exact hway _ h
  | .ok (.through left le) m'', h => exact fun r hr => hway r (h r hr)

/-- A step before a part. -/
theorem step {r : EStateM.Result Interrupt Machine (Flow b)}
    (hstep : Erl.step f.img p f.call budget cursor m = .ok (.next budget' cursor') m')
    (h : Leads f p exit budget' cursor' m' r) : Leads f p exit budget cursor m r :=
  h.before fun _ => .next hstep

/-- A way on from the line behind a part to another line. -/
theorem exit_to {r : EStateM.Result Interrupt Machine (Flow b)}
    (h : Leads f p exit budget cursor m r)
    (hexit : ∀ left m' r', Ends f.img p f.call left (.run exit') m' r' →
      Ends f.img p f.call left (.run exit) m' r') : Leads f p exit' budget cursor m r := by
  match r, h with
  | .error e m'', h => exact h
  | .ok (.halt status) m'', h => exact h
  | .ok (.through left le) m'', h => exact fun r hr => h r (hexit left m'' r hr)

/-- What a part leaves may be stated within a larger budget. -/
theorem mono {b' : Nat} {x : Exec (Flow b)} (hle : b ≤ b')
    (h : Leads f p exit budget cursor m (x m')) :
    Leads f p exit budget cursor m ((do return (← x).mono hle : Exec (Flow b')) m') := by
  cases hx : x m' with
  | error e m'' =>
    rw [hx] at h
    rw [Exec.bind_error hx]
    exact h
  | ok flow m'' =>
    rw [hx] at h
    rw [Exec.bind_ok hx]
    cases flow with
    | halt status => exact h
    | through left le => exact h

/-- One part after another. -/
theorem andThen {x : Exec (Flow b)} {k : (left : Nat) → Exec (Flow left)}
    (hx : Leads f p exit budget cursor m (x m'))
    (hk : ∀ left m', Leads f p exit' left (.run exit) m' (k left m')) :
    Leads f p exit' budget cursor m (Flow.andThen x k m') := by
  unfold Flow.andThen
  cases hx' : x m' with
  | error e m'' =>
    rw [hx'] at hx
    rw [Exec.bind_error hx']
    exact hx
  | ok flow m'' =>
    rw [hx'] at hx
    rw [Exec.bind_ok hx']
    cases flow with
    | halt status => exact hx
    | through left le =>
      exact ((hk left m'').mono le).before hx

/-- A guard before two parts. -/
theorem guard {mark : Mark} {c : Expr} {cursor₁ cursor₂ : Cursor} {yes no : Exec (Flow b)}
    (hstep : Erl.step f.img p f.call budget cursor = (do
      let v ← f.value mark c
      return .next budget (if v.holds then cursor₁ else cursor₂)))
    (hyes : ∀ m', Leads f p exit budget cursor₁ m' (yes m'))
    (hno : ∀ m', Leads f p exit budget cursor₂ m' (no m')) (m : Machine) :
    Leads f p exit budget cursor m
      ((do if (← f.value mark c).holds then yes else no : Exec (Flow b)) m) := by
  have hstep' := congrFun hstep m
  cases hv : f.value mark c m with
  | error e m' =>
    rw [Exec.bind_error hv] at hstep' ⊢
    exact .interrupt hstep'
  | ok v m' =>
    rw [Exec.bind_ok hv] at hstep' ⊢
    by_cases hholds : v.holds = true
    · rw [if_pos hholds] at hstep' ⊢
      exact (hyes m').step hstep'
    · rw [if_neg hholds] at hstep' ⊢
      exact (hno m').step hstep'

end Leads

/-! ## Branches and loops -/

section Parts

variable {f : Frame} {p : Program}

/-- The last line of the arms is the end of their branch. -/
theorem Arms.carries_endIf (arms : Arms) {start : Nat}
    (h : EachFrom (f.Carries p) start (arms.code start)) :
    ∃ mark : Mark, f.Carries p (start + arms.size - 1) (mark.line .endIf) := by
  cases arms with
  | endIf mark =>
    rw [Arms.code, EachFrom.cons_iff] at h
    exact ⟨mark, h.1⟩
  | else_ mark body close =>
    rw [Arms.code, EachFrom.cons_iff, EachFrom.append_iff, EachFrom.cons_iff,
      Block.length_code] at h
    refine ⟨close, ?_⟩
    have hpos : start + (body.size + 2) - 1 = start + 1 + body.size := by omega
    rw [Arms.size, hpos]
    exact h.2.2.1
  | elseIf mark c body more =>
    rw [Arms.code, EachFrom.cons_iff, EachFrom.append_iff, Block.length_code] at h
    obtain ⟨close, hclose⟩ := more.carries_endIf h.2.2
    have hmore := more.size_pos
    have hpos : start + (body.size + more.size + 1) - 1 = start + 1 + body.size + more.size - 1 := by
      omega
    refine ⟨close, ?_⟩
    rw [Arms.size, hpos]
    exact hclose

/-- A body that comes to the line of the next arm goes on behind the branch. -/
theorem Arms.ends_of_body (arms : Arms) {start : Nat}
    (h : EachFrom (f.Carries p) start (arms.code start)) {budget : Nat} {m : Machine}
    {r : EStateM.Result Interrupt Machine Ending}
    (hr : Ends f.img p f.call budget (.run (start + arms.size)) m r) :
    Ends f.img p f.call budget (.run start) m r := by
  -- the last line of the arms goes on behind them
  obtain ⟨close, hclose⟩ := arms.carries_endIf h
  have hpos := arms.size_pos
  have hlast : Ends f.img p f.call budget (.run (start + arms.size - 1)) m r := by
    refine .next (congrFun (step_endIf hclose budget) m) ?_
    rwa [Nat.sub_add_cancel (Nat.le_trans hpos (Nat.le_add_left _ _))]
  cases arms with
  | endIf mark => exact hlast
  | else_ mark body close =>
    rw [Arms.code, EachFrom.cons_iff] at h
    have hstop : start + (Arms.else_ mark body close).size - 1 = start + 1 + body.size := by
      rw [Arms.size]
      omega
    rw [hstop] at hlast
    exact .next (congrFun (step_else h.1 budget) m) hlast
  | elseIf mark c body more =>
    rw [Arms.code, EachFrom.cons_iff] at h
    have hstop : start + (Arms.elseIf mark c body more).size - 1 = start + body.size + more.size := by
      rw [Arms.size]
      omega
    rw [hstop] at hlast
    exact .next (congrFun (step_elseIf h.1 budget) m) hlast

/-- A loop whose body leads to its last line leads to the line behind it. -/
theorem Frame.iterate_leads (htitle : p.name = f.title) {mark close : Mark} {c : Expr}
    {body : (b : Nat) → Exec (Flow b)} {start stop : Nat}
    (hstart : f.Carries p start (mark.line (.while_ c stop)))
    (hstop : f.Carries p stop (close.line (.endWhile start)))
    (hbody : ∀ budget m, Leads f p stop budget (.run (start + 1)) m (body budget m))
    (budget : Nat) (m : Machine) :
    Leads f p (stop + 1) budget (.run start) m (f.iterate mark c body budget m) := by
  -- each body takes from the budget, so what is left after one is smaller
  induction budget using Nat.strongRecOn generalizing m with
  | ind budget ih =>
    have hstep := congrFun (step_while htitle hstart budget) m
    cases hv : f.value mark c m with
    | error e m' =>
      rw [Exec.bind_error hv] at hstep
      cases budget <;>
      · rw [Frame.iterate, Exec.bind_error hv]
        exact .interrupt hstep
    | ok v m' =>
      rw [Exec.bind_ok hv] at hstep
      by_cases hholds : v.holds = true
      · rw [if_pos hholds] at hstep
        cases budget with
        | zero =>
          rw [Frame.iterate, Exec.bind_ok hv, if_pos hholds]
          rw [enterLoop, htitle] at hstep
          exact .halt hstep
        | succ budget =>
          rw [Frame.iterate, Exec.bind_ok hv, if_pos hholds]
          refine Leads.step hstep ?_
          have hround := hbody budget m'
          cases hx : body budget m' with
          | error e m'' =>
            rw [hx] at hround
            rw [Exec.bind_error hx]
            exact hround
          | ok flow m'' =>
            rw [hx] at hround
            rw [Exec.bind_ok hx]
            cases flow with
            | halt status => exact hround
            | through left le =>
              -- the last line goes back to the start, with a smaller budget
              have hagain := ih left (Nat.lt_succ_of_le le) m''
              have hback := hagain.step (congrFun (step_endWhile hstop left) m'')
              exact (hback.mono (Nat.le_succ_of_le le)).before hround
      · rw [if_neg hholds] at hstep
        cases budget <;>
        · rw [Frame.iterate, Exec.bind_ok hv, if_neg hholds]
          exact fun r hr => .next hstep hr

mutual

/-- The steps from the first line of a block lead where the block ends. -/
theorem Block.leads (htitle : p.name = f.title) (b : Block) {start : Nat}
    (h : EachFrom (f.Carries p) start (b.code start)) (budget : Nat) (m : Machine) :
    Leads f p (start + b.size) budget (.run start) m (b.exec f budget m) := by
  cases b with
  | done =>
    rw [Block.exec]
    exact fun r hr => hr
  | plain mark s rest =>
    rw [Block.code, EachFrom.cons_iff] at h
    have hstep := congrFun (step_plain htitle h.1 budget) m
    have hrest := rest.leads htitle h.2
    rw [Block.exec]
    cases hs : f.plain mark s m with
    | error e m' =>
      rw [Exec.bind_error hs] at hstep ⊢
      exact .interrupt hstep
    | ok status? m' =>
      rw [Exec.bind_ok hs] at hstep ⊢
      cases status? with
      | some status => exact .halt hstep
      | none =>
        rw [Block.size, ← Nat.add_assoc, Nat.add_right_comm]
        exact (hrest budget m').step hstep
  | branch mark c body arms rest =>
    rw [Block.code, EachFrom.cons_iff, EachFrom.append_iff, EachFrom.append_iff,
      Block.length_code, Arms.length_code] at h
    obtain ⟨hif, hbody, harms, hrest⟩ := h
    -- the branch ends in front of the rest, whichever arm is taken
    rw [Block.exec]
    have hsize : start + (Block.branch mark c body arms rest).size
        = start + 1 + body.size + arms.size + rest.size := by
      rw [Block.size]
      omega
    rw [hsize]
    refine Leads.andThen ?_ (rest.leads htitle hrest)
    refine Leads.guard (step_if htitle hif budget) ?_ (arms.leads htitle harms budget) m
    -- a body that is through comes to the first arm, and from there behind the branch
    intro m'
    exact (body.leads htitle hbody budget m').exit_to fun _ _ _ => arms.ends_of_body harms
  | loop mark c body close rest =>
    rw [Block.code, EachFrom.cons_iff, EachFrom.append_iff, EachFrom.cons_iff,
      Block.length_code] at h
    obtain ⟨hwhile, hbody, hend, hrest⟩ := h
    rw [Block.exec]
    have hsize : start + (Block.loop mark c body close rest).size
        = start + 1 + body.size + 1 + rest.size := by
      rw [Block.size]
      omega
    rw [hsize]
    refine Leads.andThen ?_ (rest.leads htitle hrest)
    exact Frame.iterate_leads htitle hwhile hend (body.leads htitle hbody) budget m

/-- The steps from arms that are tried lead where the arms end. -/
theorem Arms.leads (htitle : p.name = f.title) (arms : Arms) {start : Nat}
    (h : EachFrom (f.Carries p) start (arms.code start)) (budget : Nat) (m : Machine) :
    Leads f p (start + arms.size) budget (.seek start) m (arms.exec f budget m) := by
  cases arms with
  | endIf mark =>
    rw [Arms.code, EachFrom.cons_iff] at h
    rw [Arms.exec]
    exact fun r hr => .next (congrFun (step_seek_endIf h.1 budget) m) hr
  | else_ mark body close =>
    rw [Arms.code, EachFrom.cons_iff, EachFrom.append_iff, EachFrom.cons_iff,
      Block.length_code] at h
    obtain ⟨helse, hbody, hclose, -⟩ := h
    -- the body ends at the line that ends the branch
    rw [Arms.exec]
    have hin := (body.leads htitle hbody budget m).step (congrFun (step_seek_else helse budget) m)
    have hsize : start + (Arms.else_ mark body close).size = start + 1 + body.size + 1 := by
      rw [Arms.size]
      omega
    rw [hsize]
    exact hin.exit_to fun left m' r hr => .next (congrFun (step_endIf hclose left) m') hr
  | elseIf mark c body more =>
    rw [Arms.code, EachFrom.cons_iff, EachFrom.append_iff, Block.length_code] at h
    obtain ⟨helse, hbody, hmore⟩ := h
    rw [Arms.exec]
    have hsize : start + (Arms.elseIf mark c body more).size
        = start + 1 + body.size + more.size := by
      rw [Arms.size]
      omega
    rw [hsize]
    refine Leads.guard (step_seek_elseIf htitle helse budget) ?_ (more.leads htitle hmore budget) m
    intro m'
    exact (body.leads htitle hbody budget m').exit_to fun _ _ _ => more.ends_of_body hmore

end

end Parts

/-! ## Invocations -/

/-- The lines of a compiled program carry out the code of the tree of its source. -/
theorem Program.IsCompiled.carries {f : Frame} {p : Program}
    (h : p.IsCompiled f.names f.img.nodes f.img.programs) {tree : Block}
    (htree : tree.IsTreeOf p.source) :
    EachFrom (f.Carries p) 0 (tree.code 0) ∧ p.lines.size = tree.size := by
  obtain ⟨source, hparse, hlines⟩ := h
  obtain rfl : (tree.code 0).toArray = source :=
    Except.ok.inj (htree.parseCode.symm.trans hparse)
  constructor
  · intro i line hline
    obtain ⟨ready, hready, hreal⟩ := getElem?_of_forall₂ hlines hline
    refine ⟨ready, ?_, hreal, parseCode_fits hparse (List.mem_of_getElem? hline)⟩
    rwa [Nat.zero_add, ← Array.getElem?_toList]
  · rw [← Array.length_toList, ← hlines.length_eq]
    exact tree.length_code 0

/-- An invocation of a compiled program runs the tree of its source. -/
theorem Program.IsCompiled.start_eq_run {f : Frame} {p : Program} {id : ProgramId}
    (hp : f.img.programs[id]? = some p) (htitle : p.name = f.title)
    (h : p.IsCompiled f.names f.img.nodes f.img.programs) {tree : Block}
    (htree : tree.IsTreeOf p.source) : f.img.start f.call id = tree.run f := by
  funext m
  obtain ⟨hcarries, hsize⟩ := h.carries htree
  -- steps lead to one end only, so it is enough that they lead to that of the tree
  refine (ends_start h.wellTargeted hp m).unique ?_
  have hleads := tree.leads htitle hcarries f.img.settings.limits.loopEntries m
  rw [Nat.zero_add] at hleads
  rw [Block.run]
  cases hexec : tree.exec f f.img.settings.limits.loopEntries m with
  | error e m' =>
    rw [hexec] at hleads
    rw [Exec.bind_error hexec]
    exact hleads
  | ok flow m' =>
    rw [hexec] at hleads
    rw [Exec.bind_ok hexec]
    cases flow with
    | halt status => exact hleads
    | through left le =>
      -- there is no line behind the tree
      have hpast : step f.img p f.call left (.run tree.size) = pure (.halt .normal) := by
        rw [step, ← hsize, Array.getElem?_eq_none (Nat.le_refl _)]
      exact hleads _ (.halt (congrFun hpast m'))

section Trees

variable {img : Image} {names : ProgramId → Naming} {trees : ProgramId → Block}
  (h : ∀ (id : ProgramId) (p : Program), img.programs[id]? = some p →
    p.IsCompiled (names id) img.nodes img.programs ∧ (trees id).IsTreeOf p.source)
include h

/-- An invocation runs the tree of its program, whatever it calls subroutines with. -/
theorem Image.start_eq_run (call : Option (ProgramId → Exec Ending)) (id : ProgramId) :
    img.start call id =
      match img.programs[id]? with
      | none => pure .normal
      | some p => (trees id).run ⟨img, names id, p.name, call⟩ := by
  cases hp : img.programs[id]? with
  | none => rw [Image.start, hp]
  | some p =>
    obtain ⟨hcompiled, htree⟩ := h id p hp
    exact Program.IsCompiled.start_eq_run (f := ⟨img, names id, p.name, call⟩) hp rfl hcompiled htree

/-- Compiled programs run like the trees of their sources, at every depth. -/
theorem Image.invoke_eq_interpret (depth : Nat) (id : ProgramId) :
    img.invoke depth id = img.interpret names trees depth id := by
  induction depth generalizing id with
  | zero =>
    rw [Image.invoke, Image.interpret]
    exact Image.start_eq_run h none id
  | succ depth ih =>
    have hcall : img.invoke depth = img.interpret names trees depth := funext ih
    rw [Image.invoke, Image.interpret, hcall]
    exact Image.start_eq_run h _ id

end Trees

end Erl
