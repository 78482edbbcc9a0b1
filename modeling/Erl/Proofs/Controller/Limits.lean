/-
  Erl.Proofs.Controller.Limits

  The limits of loops and of nested calls.

  All loops of an invocation share one count of entries, and a subroutine has a count of its own.
  `Stacked` is the stack of invocations while a program runs: each but the last has been called by
  the next one, which waits at the call.  A call with no depth left halts the invocation that makes
  it, and an invocation that is halted halts all those that wait for it.
-/

import Erl.Proofs.Controller.Reachable
import Erl.Proofs.Controller.Run
import Erl.Proofs.Machine.Course

namespace Erl

/-- A computation with a value ends on some machine. -/
theorem Exec.exists_of_run' {α : Type} {x : Exec α} {m : Machine} {a : α}
    (h : x.run' m = some a) : ∃ m', x m = .ok a m' := by
  unfold EStateM.run' EStateM.run at h
  split at h
  · next v m' hx =>
    cases h
    exact ⟨m', hx⟩
  · cases h

/-! ## Loops -/

namespace Controller

/-- Loops are halted exactly at the limit.

    An invocation never enters the bodies of loops more often than the limit says.  A loop that
    goes on before that is entered, and a subroutine that ends leaves the count as it was, however
    often it entered loops itself.  A loop that goes on when the count is at the limit halts the
    invocation: it is the last place that the invocation comes to, and all that is left to do is
    to record one severe message with the name of the program.  An invocation that is halted for
    its loops in any other way has called a subroutine that was. -/
theorem Reachable.loop_limit_exact {c : Controller} (h : Reachable c) (depth : Nat)
    {id : ProgramId} {p : Program} (hp : c.image.programs[id]? = some p) (m : Machine) :
    (∀ n k m₁, c.image.Reaches depth p m n k m₁ → n ≤ c.image.settings.limits.loopEntries)
      ∧ (∀ n index m₁ m₂, c.image.Reaches depth p m n (.run index) m₁ →
          p.GoesOn c.image index m₁ m₂ → n < c.image.settings.limits.loopEntries →
          c.image.Reaches depth p m (n + 1) (.run (index + 1)) m₂)
      ∧ (∀ n k m₁ m', c.image.Receives depth p m n k m₁ .normal m' →
          ∃ index, k = .run index ∧ c.image.Reaches depth p m n (.run (index + 1)) m')
      ∧ (∀ m', c.image.invoke depth id m = .ok .runawayLoop m' ↔
          (∃ k m₁, c.image.RunsAway depth p m k m₁ m')
            ∨ ∃ n k m₁, c.image.Receives depth p m n k m₁ .runawayLoop m')
      ∧ ∀ k m₁ m', c.image.RunsAway depth p m k m₁ m' →
          (∀ n k' m₂, c.image.Reaches depth p m n k' m₂ → c.image.LeadsTo depth p k' m₂ k m₁)
            ∧ ∀ n k' m₂ m'', ¬ c.image.Receives depth p m n k' m₂ .runawayLoop m'' := by
  refine ⟨fun n k m₁ hto => hto.entries_le, fun n index m₁ m₂ hto => hto.enter,
    fun n k m₁ m' hcalled => hcalled.next, ?_, ?_⟩
  · intro m'
    rw [h.isSound.invoke_eq_iff hp]
    constructor
    · rintro ⟨n, k, m₁, hends⟩
      rcases hends.cases (by decide) with ⟨-, hruns⟩ | ⟨hstatus, -⟩ | hcalled
      · exact .inl ⟨k, m₁, hruns⟩
      · cases hstatus
      · exact .inr ⟨n, k, m₁, hcalled⟩
    · rintro (⟨k, m₁, hruns⟩ | ⟨n, k, m₁, hcalled⟩)
      · exact ⟨_, k, m₁, hruns.endsAt⟩
      · exact ⟨n, k, m₁, hcalled.endsAt (by decide)⟩
  · intro k m₁ m' hruns
    exact ⟨fun n k' m₂ hto => hruns.endsAt.leadsTo hto,
      fun n k' m₂ m'' => hruns.not_receives (by decide)⟩

/-- A controller with a loop that ends and two that do not, one in the other, and three entries
    allowed. -/
def runaway : Controller :=
  let limits := { Settings.default.limits with loopEntries := 3 }
  let source := "SET a = ON\nWHILE a\n  SET a = OFF\nENDWHILE\n"
    ++ "WHILE ON\n  WHILE ON\n  ENDWHILE\nENDWHILE"
  let c := Controller.ofSettings { Settings.default with limits } .zero
  (c.addProgram "main" source).2.compile

theorem Reachable.loop_limit_exact_runaway : Reachable runaway
    ∧ ∃ p m' k m₁, runaway.image.programs[0]? = some p
      ∧ runaway.image.invoke 0 0 runaway.machine = .ok .runawayLoop m'
      ∧ runaway.image.settings.limits.loopEntries = 3
      ∧ runaway.image.RunsAway 0 p runaway.machine k m₁ m' := by
  have hreach : Reachable runaway :=
    ((Reachable.ofSettings _ _).does (.addProgram _ _)).does .compile
  obtain ⟨hsome, hrun, hlimit⟩ : (runaway.image.programs[0]?).isSome
      ∧ (runaway.image.invoke 0 0).run' runaway.machine = some .runawayLoop
      ∧ runaway.image.settings.limits.loopEntries = 3 := by decide +kernel
  obtain ⟨p, hp⟩ := Option.isSome_iff_exists.1 hsome
  obtain ⟨m', hends⟩ := Exec.exists_of_run' hrun
  -- nothing is called at depth zero, so the loops of the program itself are what halts it
  rcases ((hreach.loop_limit_exact 0 hp runaway.machine).2.2.2.1 m').1 hends with
    ⟨k, m₁, hruns⟩ | ⟨n, k, m₁, -, line, callee, m₂, depth, -, -, hdepth, -⟩
  · exact ⟨hreach, p, m', k, m₁, hp, hends, hlimit, hruns⟩
  · cases hdepth

end Controller

/-! ## Nested calls -/

/-- An invocation that is under way: what it runs, the depth that is left to it, the machine that
    it started from, and the place that it has come to. -/
structure Image.Activation (img : Image) where
  left : Nat
  id : ProgramId
  program : Program
  start : Machine
  entries : Nat
  cursor : Cursor
  machine : Machine
  code : img.programs[id]? = some program
  reached : img.Reaches left program start entries cursor machine

/-- An invocation that is about to run its first line. -/
def Image.Activation.first {img : Image} (left : Nat) {id : ProgramId} {p : Program} (m : Machine)
    (code : img.programs[id]? = some p) : img.Activation :=
  ⟨left, id, p, m, 0, .run 0, m, code, _, .refl⟩

/-- What an invocation ends with. -/
def Image.Activation.result {img : Image} (a : img.Activation) :
    EStateM.Result Interrupt Machine Ending :=
  img.invoke a.left a.id a.start

/-- The invocation is at its last step: all places that it comes to lead there. -/
def Image.Activation.IsLast {img : Image} (a : img.Activation) : Prop :=
  ∀ n k m, img.Reaches a.left a.program a.start n k m →
    img.LeadsTo a.left a.program k m a.cursor a.machine

/-- One invocation has come to a call, and the other is the invocation that it calls. -/
structure Image.Activation.Calls {img : Image} (caller callee : img.Activation) : Prop where
  left_eq : caller.left = callee.left + 1
  exists_line : ∃ line, caller.program.CallsAt caller.cursor line callee.id
    ∧ noteLine img caller.program line none caller.machine = .ok () callee.start

/-- The invocations that are under way while a program runs, the innermost first. -/
inductive Image.Stacked (img : Image) (id : ProgramId) (m : Machine) :
    List img.Activation → Prop where
  | main {a : img.Activation} :
      a.left = img.settings.limits.depth → a.id = id → a.start = m → Stacked img id m [a]
  | call {a b : img.Activation} {outer : List img.Activation} :
      Stacked img id m (b :: outer) → b.Calls a → Stacked img id m (a :: b :: outer)

namespace Image

variable {img : Image} {id : ProgramId} {m m' : Machine} {a b : img.Activation}
  {outer : List img.Activation} {status : Ending}

/-- Callers and the depth that is left add up to the limit. -/
theorem Stacked.left_add_length (h : img.Stacked id m (a :: outer)) :
    a.left + outer.length = img.settings.limits.depth := by
  generalize hstack : a :: outer = stack at h
  induction h generalizing a outer with
  | main hleft _ _ =>
    cases hstack
    exact hleft
  | call _ hcalls ih =>
    -- a call adds a caller and takes one of the depth
    cases hstack
    have hcaller := ih rfl
    rw [hcalls.left_eq] at hcaller
    rw [List.length_cons]
    omega

/-- The innermost invocation may be at any of its places. -/
theorem Stacked.move (h : img.Stacked id m (a :: outer)) (hleft : b.left = a.left)
    (hid : b.id = a.id) (hstart : b.start = a.start) : img.Stacked id m (b :: outer) := by
  cases h with
  | main hmain hmainId hmainStart =>
    exact .main (hleft.trans hmain) (hid.trans hmainId) (hstart.trans hmainStart)
  | call hrest hcalls =>
    refine .call hrest ⟨hleft ▸ hcalls.left_eq, ?_⟩
    rw [hid, hstart]
    exact hcalls.exists_line

end Image

namespace Image.IsSound

variable {img : Image} (h : img.IsSound) {id : ProgramId} {m m' : Machine} {a b : img.Activation}
  {outer : List img.Activation} {status : Ending}
include h

/-- A subroutine that is halted halts its caller, at the call. -/
theorem result_of_calls (hcalls : b.Calls a) (hends : a.result = .ok status m')
    (hstatus : status ≠ .normal) : b.result = .ok status m' ∧ b.IsLast := by
  obtain ⟨line, hline, hnote⟩ := hcalls.exists_line
  have hreceives : img.Receives b.left b.program b.start b.entries b.cursor b.machine status m' :=
    ⟨b.reached, line, a.id, a.start, a.left, hline, hnote, hcalls.left_eq, hends⟩
  have hlast := hreceives.endsAt hstatus
  exact ⟨(h.invoke_eq_iff b.code).2 ⟨_, _, _, hlast⟩, fun n k m₁ hto => hlast.leadsTo hto⟩

/-- An invocation that is halted halts all that wait for it. -/
theorem result_of_stacked (hstack : img.Stacked id m (a :: outer))
    (hends : a.result = .ok status m') (hstatus : status ≠ .normal) :
    (∀ b ∈ outer, b.result = .ok status m' ∧ b.IsLast) ∧ img.runMain id m = .ok status m' := by
  generalize hs : a :: outer = stack at hstack
  induction hstack generalizing a outer with
  | main hleft hid hstart =>
    cases hs
    rw [Activation.result, hleft, hid, hstart] at hends
    exact ⟨by simp, hends⟩
  | @call _ caller rest _ hcalls ih =>
    cases hs
    -- from the innermost invocation outwards, caller by caller
    obtain ⟨hcaller, hlast⟩ := h.result_of_calls hcalls hends hstatus
    obtain ⟨hrest, hmain⟩ := ih hcaller rfl
    exact ⟨List.forall_mem_cons.2 ⟨⟨hcaller, hlast⟩, hrest⟩, hmain⟩

/-- An invocation that is halted for the depth has come to a call with no depth left, or to one
    of a subroutine that is halted for it. -/
theorem nestsTooDeep_or_calls (hstack : img.Stacked id m (a :: outer))
    (hends : a.result = .ok .recursionLimit m') :
    (∃ b, img.Stacked id m (b :: outer)
        ∧ img.NestsTooDeep b.left b.program b.start b.cursor b.machine m')
      ∨ ∃ b callee, img.Stacked id m (callee :: b :: outer) ∧ callee.left < a.left
        ∧ callee.result = .ok .recursionLimit m' := by
  obtain ⟨n, k, m₁, hlast⟩ := (h.invoke_eq_iff a.code).1 hends
  rcases hlast.cases (by decide) with ⟨hstatus, -⟩ | ⟨-, hdeep⟩ | hcalled
  · cases hstatus
  · have hdeep' := hdeep
    obtain ⟨-, ⟨entries, hto⟩, -⟩ := hdeep'
    exact .inl ⟨⟨a.left, a.id, a.program, a.start, entries, k, m₁, a.code, hto⟩,
      hstack.move rfl rfl rfl, hdeep⟩
  · obtain ⟨hto, line, callee, m₂, left, hcalls, hnote, hleft, hcallee⟩ := hcalled
    -- there is such a subroutine, or the call would end normally
    cases hcode : img.programs[callee]? with
    | none =>
      rw [Image.invoke_eq, Image.start, hcode] at hcallee
      cases hcallee
    | some q =>
      refine .inr ⟨⟨a.left, a.id, a.program, a.start, n, k, m₁, a.code, hto⟩,
        .first left m₂ hcode, .call (hstack.move rfl rfl rfl) ⟨hleft, line, hcalls, hnote⟩, ?_,
        hcallee⟩
      show left < a.left
      omega

/-- An invocation that is halted for the depth has come, through the subroutines that it called,
    to a call with no depth left. -/
theorem nestsTooDeep_of_result (hstack : img.Stacked id m (a :: outer))
    (hends : a.result = .ok .recursionLimit m') :
    ∃ b outer', img.Stacked id m (b :: outer')
      ∧ img.NestsTooDeep b.left b.program b.start b.cursor b.machine m' := by
  -- on the depth that is left: a callee has less of it
  induction hleft : a.left using Nat.strongRecOn generalizing a outer with
  | ind left ih =>
    rcases h.nestsTooDeep_or_calls hstack hends with
      ⟨b, hb, hdeep⟩ | ⟨b, callee, hrest, hlt, hcallee⟩
    · exact ⟨b, outer, hb, hdeep⟩
    · exact ih callee.left (hleft ▸ hlt) hrest hcallee rfl

/-- A program that is halted for the depth is one that comes to a call with no depth left. -/
theorem runMain_eq_recursionLimit_iff :
    img.runMain id m = .ok .recursionLimit m' ↔
      ∃ a outer, img.Stacked id m (a :: outer)
        ∧ img.NestsTooDeep a.left a.program a.start a.cursor a.machine m' := by
  constructor
  · intro hends
    cases hcode : img.programs[id]? with
    | none =>
      rw [Image.runMain, Image.invoke_eq, Image.start, hcode] at hends
      cases hends
    | some p =>
      have hmain : img.Stacked id m [.first img.settings.limits.depth m hcode] := .main rfl rfl rfl
      exact h.nestsTooDeep_of_result hmain hends
  · rintro ⟨a, outer, hstack, hdeep⟩
    obtain ⟨n, hlast⟩ := hdeep.endsAt
    have hends := (h.invoke_eq_iff a.code).2 ⟨n, _, _, hlast⟩
    exact (h.result_of_stacked hstack hends (by decide)).2

end Image.IsSound

namespace Controller

/-- Calls are nested to the limit and no deeper, and what halts a subroutine halts its callers.

    While a program runs there are never more callers than the limit says.  The program ends with
    the recursion limit exactly if an invocation with as many callers comes to a call, and then one
    severe message is recorded with the name of the program that made the call.  An invocation
    that is halted, at whatever depth and for whatever limit, halts all its callers alike, where
    they wait, and changes nothing more.  The other programs of the calling point run all the
    same. -/
theorem Reachable.nesting_limit_exact {c : Controller} (h : Reachable c) (id : ProgramId)
    (m : Machine) :
    (∀ a outer, c.image.Stacked id m (a :: outer) →
        outer.length ≤ c.image.settings.limits.depth)
      ∧ (∀ m', c.image.runMain id m = .ok .recursionLimit m' ↔
          ∃ a outer line callee m₁, c.image.Stacked id m (a :: outer)
            ∧ outer.length = c.image.settings.limits.depth
            ∧ a.program.CallsAt a.cursor line callee
            ∧ noteLine c.image a.program line none a.machine = .ok () m₁
            ∧ m' = m₁.severe a.program.name c.image.nestingText)
      ∧ (∀ a outer status m', c.image.Stacked id m (a :: outer) → a.result = .ok status m' →
          status ≠ .normal →
          (∀ b ∈ outer, b.result = .ok status m' ∧ b.IsLast)
            ∧ c.image.runMain id m = .ok status m')
      ∧ ∀ point store before after ended status m', c.Starts point store →
          c.schedule.programs point = before ++ id :: after →
          c.image.Runs { c.machine with store } before ended m →
          c.image.runMain id m = .ok status m' →
          c.run point = c.runPrograms store (c.schedule.programs point)
            ∧ c.image.runAll { c.machine with store } (c.schedule.programs point)
              = (ended ++ ⟨c.image.programName id, status⟩ :: (c.image.runAll m' after).1,
                (c.image.runAll m' after).2) := by
  have hsound := h.isSound
  refine ⟨?_, ?_, fun a outer status m' => hsound.result_of_stacked, ?_⟩
  · intro a outer hstack
    have hsum := hstack.left_add_length
    omega
  · intro m'
    rw [hsound.runMain_eq_recursionLimit_iff]
    constructor
    · rintro ⟨a, outer, hstack, hleft, -, line, callee, m₁, hcalls, hnote, hm'⟩
      have hsum := hstack.left_add_length
      exact ⟨a, outer, line, callee, m₁, hstack, by omega, hcalls, hnote, hm'⟩
    · rintro ⟨a, outer, line, callee, m₁, hstack, hlength, hcalls, hnote, hm'⟩
      have hsum := hstack.left_add_length
      exact ⟨a, outer, hstack, by omega, ⟨a.entries, a.reached⟩, line, callee, m₁, hcalls, hnote,
        hm'⟩
  · intro point store before after ended status m' hstarts hbound hbefore hmain
    refine ⟨hstarts.run_eq, ?_⟩
    rw [hbound, hbefore.runAll_append, Image.runAll, hmain]

/-- A controller with two subroutines that call one another, in a loop and in a branch, and a
    program that is bound after the one that calls them. -/
def nesting : Controller :=
  let limits := { Settings.default.limits with depth := 2 }
  let c := Controller.ofSettings { Settings.default with limits } .zero
  let c := (c.addProgram "main" "RUN ping").2
  let c := (c.addSubroutine "ping" "WHILE ON\n  RUN pong\nENDWHILE").2
  let c := (c.addSubroutine "pong" "IF ON\n  RUN ping\nENDIF").2
  let c := (c.addProgram "next" "SET a = ON").2
  let c := (c.bindProgram .beginNewEnvironment "main").2
  (c.bindProgram .beginNewEnvironment "next").2.compile

theorem Reachable.nesting_limit_exact_nesting : Reachable nesting
    ∧ (nesting.run .beginNewEnvironment).1 = .ok [⟨"main", .recursionLimit⟩, ⟨"next", .normal⟩]
    ∧ ∃ m' a outer, nesting.image.runMain 0 nesting.machine = .ok .recursionLimit m'
      ∧ nesting.image.Stacked 0 nesting.machine (a :: outer) ∧ outer.length = 2
      ∧ ∃ m₁ : Machine, m'
        = m₁.severe a.program.name "RUN nested deeper than 2 levels; program halted" := by
  have hreach : Reachable nesting :=
    (((((((Reachable.ofSettings _ _).does (.addProgram _ _)).does (.addSubroutine _ _)).does
      (.addSubroutine _ _)).does (.addProgram _ _)).does (.bindProgram _ _)).does
      (.bindProgram _ _)).does .compile
  obtain ⟨hrun, hmain, hdepth, htext⟩ :
      (nesting.run .beginNewEnvironment).1 = .ok [⟨"main", .recursionLimit⟩, ⟨"next", .normal⟩]
      ∧ (nesting.image.runMain 0).run' nesting.machine = some .recursionLimit
      ∧ nesting.image.settings.limits.depth = 2
      ∧ nesting.image.nestingText = "RUN nested deeper than 2 levels; program halted" := by
    decide +kernel
  obtain ⟨m', hends⟩ := Exec.exists_of_run' hmain
  obtain ⟨a, outer, line, callee, m₁, hstack, hlength, -, -, hm'⟩ :=
    ((hreach.nesting_limit_exact 0 nesting.machine).2.1 m').1 hends
  rw [hdepth] at hlength
  rw [htext] at hm'
  exact ⟨hreach, hrun, m', a, outer, hends, hstack, hlength, m₁, hm'⟩

end Controller

end Erl
