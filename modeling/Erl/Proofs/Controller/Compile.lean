/-
  Erl.Proofs.Controller.Compile

  Compiled controllers.

  Every program in which compiling finds no problem carries out its source, with the names of
  the complete model: what is compiled later adds names and nodes, and takes nothing back.
  The values of its expressions are their meanings.
-/

import Erl.Proofs.Controller.Lowering
import Erl.Proofs.Machine.Compiled

namespace Erl

open Lowering

namespace Site

/-! ## Instructions -/

/-- An expression is compiled to a node that is the expression from then on. -/
theorem lowerWhole_spec (site : Site) (e : Expr) {s s' : Lowering} {id : NodeId}
    (h : (site.lowerWhole e).run s = (id, s')) :
    Grows site s s' ∧ DenotesWhole (site.names s') s'.nodes e id := by
  rw [lowerWhole] at h
  obtain ⟨o, s₁, he, h⟩ := Lower.bind_run h
  obtain ⟨hgrows, hbelow, hden⟩ := site.lower_spec e he
  split at h
  · obtain ⟨rfl, rfl⟩ := Lower.pure_run h
    exact ⟨hgrows, .inl hden⟩
  · obtain ⟨hgrows', hget, hn, -⟩ := site.push_spec h (by simpa [Node.Below] using hbelow)
    have hle := hgrows'.le
    refine ⟨hgrows.trans hgrows', .inr ⟨o, hden.mono (hle.names site.program) hle.nodes, ?_, hget⟩⟩
    simpa [Node.Below] using hn

/-- The target of an assignment is what its name stands for from then on. -/
theorem lowerTarget_spec (site : Site) (name : String) (line : Nat) {s s' : Lowering}
    {r : Except ModelProblem VariableId} (h : (site.lowerTarget name line).run s = (r, s')) :
    Grows site s s'
      ∧ ∀ id, r = .ok id → (site.names s').resolve? name = some (.variableAt id) := by
  have heq := (site.names s).resolve?_eq name
  rw [lowerTarget] at h
  obtain ⟨_, _, hget, h⟩ := Lower.bind_run h
  cases hget
  cases hlookup : s.store.lookup? site.program name with
  | some id =>
    simp only [hlookup] at h
    split at h
    · obtain ⟨rfl, rfl⟩ := Lower.pure_run h
      exact ⟨.refl s, fun _ hid => by cases hid⟩
    · obtain ⟨rfl, rfl⟩ := Lower.pure_run h
      refine ⟨.refl s, fun _ hid => ?_⟩
      cases hid
      rw [heq]
      simp only [names, hlookup]
  | none =>
    simp only [hlookup] at h
    split at h
    · obtain ⟨rfl, rfl⟩ := Lower.pure_run h
      exact ⟨.refl s, fun _ hid => by cases hid⟩
    · next htrend =>
      have hnone : (site.names s).resolve? name = none :=
        Naming.resolve?_eq_none_iff.2 ⟨hlookup, by simpa [names, trend?_eq] using htrend⟩
      obtain ⟨id, s₁, hadd, h⟩ := Lower.bind_run h
      rw [run_ensureLocal hnone] at hadd
      cases hadd
      obtain ⟨rfl, rfl⟩ := Lower.pure_run h
      refine ⟨.single (.addLocal hnone), fun _ hid => ?_⟩
      cases hid
      exact Naming.resolve?_addLocal hnone

/-- A call runs the subroutine with the name. -/
theorem lowerCallee_eq_ok_iff {site : Site} {name : String} {line : Nat} {id : ProgramId} :
    site.lowerCallee name line = .ok id ↔ subroutineNamed? site.programs name = some id := by
  unfold lowerCallee subroutineNamed?
  rw [site.program?_eq]
  cases programNamed? site.programs name with
  | none => simp
  | some found =>
    cases hkind : (site.programs[found]?).map Program.kind with
    | none => simp [hkind, Option.filter]
    | some kind => cases kind <;> simp [hkind, Option.filter]

/-- What an instruction is compiled to carries it out from then on. -/
theorem lowerInstruction_spec (site : Site) (line : Nat) (i : Instruction String Expr String)
    {s s' : Lowering} {r : Except ModelProblem (Instruction VariableId NodeId ProgramId)}
    (h : (site.lowerInstruction line i).run s = (r, s')) :
    Grows site s s'
      ∧ ∀ i', r = .ok i' → Realizes (site.names s') s'.nodes site.programs i i' := by
  cases i with
  | set name value =>
    rw [lowerInstruction] at h
    obtain ⟨target, s₁, htarget, h⟩ := Lower.bind_run h
    obtain ⟨hgrows, hok⟩ := site.lowerTarget_spec name line htarget
    split at h
    · obtain ⟨rfl, rfl⟩ := Lower.pure_run h
      exact ⟨hgrows, fun _ hi => by cases hi⟩
    · next id =>
      obtain ⟨n, s₂, hvalue, h⟩ := Lower.bind_run h
      obtain ⟨rfl, rfl⟩ := Lower.pure_run h
      obtain ⟨hgrows', hden⟩ := site.lowerWhole_spec value hvalue
      refine ⟨hgrows.trans hgrows', fun _ hi => ?_⟩
      cases hi
      exact .set ((hgrows'.le.names site.program).resolve? (hok id rfl)) hden
  | run name =>
    obtain ⟨rfl, rfl⟩ := Lower.pure_run h
    refine ⟨.refl s, fun _ hi => ?_⟩
    cases hcallee : site.lowerCallee name line with
    | error problem => simp [hcallee, Except.map] at hi
    | ok id =>
      rw [hcallee] at hi
      cases hi
      exact .run (lowerCallee_eq_ok_iff.1 hcallee)
  | return_ =>
    obtain ⟨rfl, rfl⟩ := Lower.pure_run h
    exact ⟨.refl s, fun _ hi => by cases hi; exact .return_⟩
  | if_ condition next =>
    obtain ⟨n, s₁, hc, h⟩ := Lower.bind_run h
    obtain ⟨rfl, rfl⟩ := Lower.pure_run h
    obtain ⟨hgrows, hden⟩ := site.lowerWhole_spec condition hc
    exact ⟨hgrows, fun _ hi => by cases hi; exact .if_ hden⟩
  | elseIf condition next stop =>
    obtain ⟨n, s₁, hc, h⟩ := Lower.bind_run h
    obtain ⟨rfl, rfl⟩ := Lower.pure_run h
    obtain ⟨hgrows, hden⟩ := site.lowerWhole_spec condition hc
    exact ⟨hgrows, fun _ hi => by cases hi; exact .elseIf hden⟩
  | else_ stop =>
    obtain ⟨rfl, rfl⟩ := Lower.pure_run h
    exact ⟨.refl s, fun _ hi => by cases hi; exact .else_⟩
  | endIf =>
    obtain ⟨rfl, rfl⟩ := Lower.pure_run h
    exact ⟨.refl s, fun _ hi => by cases hi; exact .endIf⟩
  | while_ condition stop =>
    obtain ⟨n, s₁, hc, h⟩ := Lower.bind_run h
    obtain ⟨rfl, rfl⟩ := Lower.pure_run h
    obtain ⟨hgrows, hden⟩ := site.lowerWhole_spec condition hc
    exact ⟨hgrows, fun _ hi => by cases hi; exact .while_ hden⟩
  | endWhile start =>
    obtain ⟨rfl, rfl⟩ := Lower.pure_run h
    exact ⟨.refl s, fun _ hi => by cases hi; exact .endWhile⟩

/-! ## Lines -/

/-- Lines without a problem are carried out one for one. -/
theorem lowerLines_spec (site : Site) (source : List SourceLine) {s s' : Lowering}
    {lines : List ReadyLine} {problems : List ModelProblem}
    (h : (site.lowerLines source).run s = ((lines, problems), s')) :
    Grows site s s' ∧ (problems = [] →
      List.Forall₂ (LineRealizes (site.names s') s'.nodes site.programs) source lines) := by
  induction source generalizing s lines problems with
  | nil =>
    obtain ⟨hr, rfl⟩ := Lower.pure_run h
    cases hr
    exact ⟨.refl s, fun _ => .nil⟩
  | cons line rest ih =>
    rw [lowerLines] at h
    obtain ⟨result, s₁, hline, h⟩ := Lower.bind_run h
    obtain ⟨⟨lines', problems'⟩, s₂, hrest, h⟩ := Lower.bind_run h
    obtain ⟨hgrows, hok⟩ := site.lowerInstruction_spec _ _ hline
    cases result with
    | error problem =>
      obtain ⟨hr, rfl⟩ := Lower.pure_run h
      cases hr
      exact ⟨hgrows.trans (ih hrest).1, fun hnil => by cases hnil⟩
    | ok instruction =>
      obtain ⟨hr, rfl⟩ := Lower.pure_run h
      cases hr
      obtain ⟨hgrows', hlines⟩ := ih hrest
      have hle := hgrows'.le
      refine ⟨hgrows.trans hgrows', fun hnil => .cons ⟨rfl, rfl, ?_⟩ (hlines hnil)⟩
      exact (hok instruction rfl).mono (hle.names site.program) hle.nodes

/-- A source without a problem is carried out by the lines it is compiled to; one with a problem
    is compiled to no lines. -/
theorem compile_spec (site : Site) (source : String) {s s' : Lowering}
    {lines : Array ReadyLine} {problems : List ModelProblem}
    (h : (site.compile source).run s = ((lines, problems), s')) :
    Grows site s s' ∧
      if problems = [] then
        ∃ parsed, parseCode source = .ok parsed
          ∧ List.Forall₂ (LineRealizes (site.names s') s'.nodes site.programs)
              parsed.toList lines.toList
      else lines = #[] := by
  rw [compile] at h
  cases hparse : parseCode source with
  | error e =>
    rw [hparse] at h
    obtain ⟨hr, rfl⟩ := Lower.pure_run h
    cases hr
    exact ⟨.refl s, by simp⟩
  | ok parsed =>
    rw [hparse] at h
    obtain ⟨⟨compiled, found⟩, s₁, hlines, h⟩ := Lower.bind_run h
    obtain ⟨hgrows, hok⟩ := site.lowerLines_spec _ hlines
    dsimp only at h
    cases found with
    | nil =>
      obtain ⟨hr, rfl⟩ := Lower.pure_run h
      cases hr
      exact ⟨hgrows, by simpa using hok rfl⟩
    | cons problem others =>
      obtain ⟨hr, rfl⟩ := Lower.pure_run h
      cases hr
      exact ⟨hgrows, by simp⟩

end Site

/-! ## Programs -/

/-- A program without its lines. -/
def Program.uncompiled (p : Program) : Program :=
  { p with lines := #[] }

/-- Subroutines are found without regard to lines. -/
theorem subroutineNamed?_uncompiled (programs : Array Program) (name : String) :
    subroutineNamed? (programs.map Program.uncompiled) name = subroutineNamed? programs name := by
  simp only [subroutineNamed?, programNamed?, Array.findIdx?_map, Array.getElem?_map,
    Option.map_map]
  rfl

/-- An instruction is carried out with regard to the names and kinds of programs only. -/
theorem Realizes.congr {names : Naming} {nodes : Array Node} {programs programs' : Array Program}
    (hp : programs.map Program.uncompiled = programs'.map Program.uncompiled)
    {i : Instruction String Expr String} {r : Instruction VariableId NodeId ProgramId}
    (h : Realizes names nodes programs i r) : Realizes names nodes programs' i r := by
  cases h with
  | run hid =>
    refine .run ?_
    rwa [← subroutineNamed?_uncompiled, ← hp, subroutineNamed?_uncompiled]
  | set ht hv => exact .set ht hv
  | return_ => exact .return_
  | if_ hc => exact .if_ hc
  | elseIf hc => exact .elseIf hc
  | else_ => exact .else_
  | endIf => exact .endIf
  | while_ hc => exact .while_ hc
  | endWhile => exact .endWhile

theorem Program.IsCompiled.congr {names : Naming} {nodes : Array Node}
    {programs programs' : Array Program}
    (hp : programs.map Program.uncompiled = programs'.map Program.uncompiled) {p : Program}
    (h : p.IsCompiled names nodes programs) : p.IsCompiled names nodes programs' := by
  obtain ⟨source, hparse, hlines⟩ := h
  exact ⟨source, hparse, hlines.imp fun _ _ hline =>
    ⟨hline.location, hline.text, hline.instruction.congr hp⟩⟩

namespace Controller

/-- Programs keep everything but their lines, and those in which no problem is found are
    compiled. -/
theorem compilePrograms_spec {trends : Catalog Trend.foldedName}
    {all : Catalog Program.foldedName} (list : List Program) {first : ProgramId}
    {s s' : Lowering} {programs : List Program} {problems : List ModelProblem}
    (h : (compilePrograms trends all first list).run s = ((programs, problems), s')) :
    s.Le trends.entries s' ∧ (IsForest s.nodes → IsForest s'.nodes)
      ∧ programs.map Program.uncompiled = list.map Program.uncompiled
      ∧ ∀ (k : Nat) (p : Program), programs[k]? = some p → problems = [] ∨ p.lines ≠ #[] →
          p.IsCompiled ⟨s'.store, trends.entries, first + k⟩ s'.nodes all.entries := by
  induction list generalizing first s programs problems with
  | nil =>
    obtain ⟨hr, rfl⟩ := Lower.pure_run h
    cases hr
    exact ⟨.refl trends.entries s, fun hs => hs, rfl, by simp⟩
  | cons p rest ih =>
    rw [compilePrograms] at h
    obtain ⟨⟨lines, found⟩, s₁, hone, h⟩ := Lower.bind_run h
    obtain ⟨⟨programs', others⟩, s₂, hrest, h⟩ := Lower.bind_run h
    obtain ⟨hr, rfl⟩ := Lower.pure_run h
    cases hr
    obtain ⟨hgrows, hcompiled⟩ := Site.compile_spec _ p.source hone
    obtain ⟨hle, hforest, hmap, hall⟩ := ih hrest
    refine ⟨hgrows.le.trans hle, fun hs => hforest (hgrows.isForest hs), ?_, ?_⟩
    · rw [List.map_cons, List.map_cons, hmap]
      rfl
    · intro k q hq hproblems
      cases k with
      | zero =>
        cases hq
        -- a program with lines has no problem of its own, whatever the others have
        have hnone : found = [] := by
          by_contra hfound
          rw [if_neg hfound] at hcompiled
          rcases hproblems with hnil | hlines
          · exact hfound (List.append_eq_nil_iff.1 hnil).1
          · exact hlines hcompiled
        rw [if_pos hnone] at hcompiled
        obtain ⟨parsed, hparse, hlines⟩ := hcompiled
        -- what is compiled after it keeps its names and nodes
        have hq : ({ p with lines } : Program).IsCompiled ⟨s₁.store, trends.entries, first⟩
            s₁.nodes all.entries := ⟨parsed, hparse, hlines⟩
        exact hq.mono (hle.names first) hle.nodes
      | succ k =>
        rw [← Nat.add_assoc, Nat.add_right_comm]
        exact hall k q hq (hproblems.imp_left fun hnil => (List.append_eq_nil_iff.1 hnil).2)

/-- Compiling gives a forest of nodes and programs that differ from those before only in their
    lines; those in which no problem is found are compiled. -/
theorem compile_spec (c : Controller) :
    IsForest c.compile.image.nodes
      ∧ c.compile.image.programs.map Program.uncompiled
          = c.image.programs.map Program.uncompiled
      ∧ ∀ (id : ProgramId) (p : Program), c.compile.image.programs[id]? = some p →
          c.compile.compiled = true ∨ p.lines ≠ #[] →
          p.IsCompiled ⟨c.compile.machine.store, c.compile.image.trends, id⟩
            c.compile.image.nodes c.compile.image.programs := by
  generalize hrun :
    (compilePrograms c.image.trendCatalog c.image.programCatalog 0 c.image.programs.toList).run
      ⟨c.machine.store, c.machine.log, #[]⟩ = r
  obtain ⟨⟨programs, found⟩, s⟩ := r
  obtain ⟨-, hforest, hmap, hall⟩ := compilePrograms_spec _ hrun
  have hmap' : programs.toArray.map Program.uncompiled
      = c.image.programs.map Program.uncompiled := by
    apply Array.toList_inj.1
    rw [Array.toList_map, Array.toList_map, hmap]
  -- the table starts empty, so nothing is left over from an earlier time
  simp only [compile, hrun]
  refine ⟨hforest isForest_empty, hmap', ?_⟩
  intro id p hp hok
  have hp' : programs.toArray[id]? = some p := hp
  refine (Nat.zero_add id ▸ hall id p (by simpa using hp') (hok.imp_left ?_)).congr hmap'.symm
  intro hcompiled
  exact (List.append_eq_nil_iff.1 (List.isEmpty_iff.1 hcompiled)).2

/-- Compiling keeps the kinds of all programs. -/
theorem compile_kind (c : Controller) (id : ProgramId) :
    (c.compile.image.programs[id]?).map Program.kind
      = (c.image.programs[id]?).map Program.kind := by
  have hsame := congrArg (fun ps => (ps[id]?).map Program.kind) c.compile_spec.2.1
  simp only [Array.getElem?_map, Option.map_map] at hsame
  exact hsame

/-- Compiling keeps all variables and records no fatal message. -/
theorem compile_le (c : Controller) :
    c.machine.store.Grows c.compile.machine.store
      ∧ c.compile.machine.log.ofSeverity .fatal = c.machine.log.ofSeverity .fatal := by
  generalize hrun :
    (compilePrograms c.image.trendCatalog c.image.programCatalog 0 c.image.programs.toList).run
      ⟨c.machine.store, c.machine.log, #[]⟩ = r
  obtain ⟨⟨programs, found⟩, s⟩ := r
  obtain ⟨hle, -⟩ := compilePrograms_spec _ hrun
  simp only [compile, hrun]
  exact ⟨hle.store, hle.fatal⟩

/-- Compiling preserves the meaning of expressions: the node of an expression of a program that
    was compiled has, in every later state, the value that the expression has when its names are
    resolved against the variables and trends as they are after compiling, and it changes the
    state in the same way. -/
theorem evaluate_eq_meaning (c : Controller) {id : ProgramId} {p : Program}
    (hp : c.compile.image.programs[id]? = some p)
    (hok : c.compile.compiled = true ∨ p.lines ≠ #[]) :
    ∃ source, parseCode p.source = .ok source ∧ p.lines.size = source.size
      ∧ ∀ (i : Nat) (line : SourceLine) (e : Expr), source[i]? = some line →
          line.instruction.expression? = some e →
          ∃ (ready : ReadyLine) (n : NodeId), p.lines[i]? = some ready
            ∧ ready.instruction.expression? = some n
            ∧ ∀ (img : Image) (m : Machine), img.nodes = c.compile.image.nodes →
                img.evaluate p.name n m
                  = e.meaning img ⟨c.compile.machine.store, c.compile.image.trends, id⟩
                      p.name m := by
  obtain ⟨source, hparse, hlines⟩ := c.compile_spec.2.2 id p hp hok
  refine ⟨source, hparse, by simpa using hlines.length_eq.symm, ?_⟩
  intro i line e hline he
  rw [← Array.getElem?_toList] at hline
  obtain ⟨ready, hready, hrealizes⟩ := getElem?_of_forall₂ hlines hline
  obtain ⟨n, hn, hden⟩ := hrealizes.instruction.denotesWhole he
  have hfit : e.FitsArity := parseCode_fits hparse (List.mem_of_getElem? hline) e he
  refine ⟨ready, n, by rwa [← Array.getElem?_toList], hn, ?_⟩
  intro img m hnodes
  rw [← hnodes] at hden
  rw [hden.evaluate_eq hfit p.name]

/-- A controller with a program that assigns a local from a global and from a name that it
    never assigns. -/
def unassignedName : Controller :=
  ((Controller.ofSettings .default .zero).addProgram "main" "SET a = -day && @Mod b day").2

theorem evaluate_eq_meaning_unassignedName :
    ∃ p, unassignedName.compile.image.programs[0]? = some p
      ∧ unassignedName.compile.compiled = true
      ∧ ∃ source, parseCode p.source = .ok source ∧ p.lines.size = source.size
        ∧ ∀ (i : Nat) (line : SourceLine) (e : Expr), source[i]? = some line →
            line.instruction.expression? = some e →
            ∃ (ready : ReadyLine) (n : NodeId), p.lines[i]? = some ready
              ∧ ready.instruction.expression? = some n
              ∧ ∀ (img : Image) (m : Machine), img.nodes = unassignedName.compile.image.nodes →
                  img.evaluate p.name n m
                    = e.meaning img ⟨unassignedName.compile.machine.store,
                        unassignedName.compile.image.trends, 0⟩ p.name m := by
  have hcompiled : unassignedName.compile.compiled = true
      ∧ (unassignedName.compile.image.programs[0]?).isSome = true := by
    decide +kernel
  obtain ⟨p, hp⟩ := Option.isSome_iff_exists.1 hcompiled.2
  exact ⟨p, hp, hcompiled.1, unassignedName.evaluate_eq_meaning hp (.inl hcompiled.1)⟩

end Controller

end Erl
