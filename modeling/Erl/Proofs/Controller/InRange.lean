/-
  Erl.Proofs.Controller.InRange

  What compiled code refers to.

  Compiling adds nodes whose operands exist and whose functions take as many of them as there
  are, also for lines that are refused for another reason.  A line that is compiled refers to a
  node that exists, assigns a variable that may be assigned, or runs a subroutine.
-/

import Erl.Proofs.Controller.Compile
import Erl.Proofs.Machine.Checked

namespace Erl

open Lowering

/-! ## Names -/

/-- A variable that is found exists. -/
theorem Store.lt_size_of_find? {t : Store} {scope : Scope} {name : String} {id : VariableId}
    (h : t.find? scope name = some id) : id < t.size := by
  rw [find?_eq] at h
  exact (Array.findIdx?_eq_some_iff_getElem.1 h).1

/-- What a name stands for exists. -/
theorem Naming.resolve?_inRange {names : Naming} {name : String} {r : Referent}
    (h : names.resolve? name = some r) (id : NodeId) :
    r.operand.InRange names.store.size names.trends.size id := by
  unfold resolve? at h
  split at h
  · next hlocal =>
    cases h
    exact Store.lt_size_of_find? hlocal
  · split at h
    · next hglobal =>
      cases h
      exact Store.lt_size_of_find? hglobal
    · obtain ⟨t, ht, rfl⟩ := Option.map_eq_some_iff.1 h
      exact lt_size_of_trendNamed? ht

/-- A variable that a name denotes inside a program exists. -/
theorem Store.lt_size_of_lookup? {t : Store} {program : ProgramId} {name : String}
    {id : VariableId} (h : t.lookup? program name = some id) : id < t.size := by
  rcases Option.or_eq_some_iff.1 h with hlocal | ⟨-, hglobal⟩
  · exact lt_size_of_find? hlocal
  · exact lt_size_of_find? hglobal

/-- The variable at a position may be assigned. -/
def Store.Assignable (t : Store) (id : VariableId) : Prop :=
  ∃ o, t.origin? id = some o ∧ o.isProtected = false

/-- A variable that exists and is not protected may be assigned. -/
theorem Store.assignable_of_lt {t : Store} {id : VariableId} (hlt : id < t.size)
    (h : t.isProtected id = false) : t.Assignable id := by
  obtain ⟨o, horigin⟩ := exists_origin?_of_lt hlt
  rw [isProtected_eq, horigin] at h
  exact ⟨o, horigin, h⟩

/-! ## Expressions -/

/-- All nodes that were added so far are in range. -/
def Lowering.InRange (trends : Array Trend) (s : Lowering) : Prop :=
  NodesInRange s.store.size trends.size s.nodes

/-- An operand refers to what there is so far. -/
def Lowering.Holds (trends : Array Trend) (s : Lowering) (o : Operand) : Prop :=
  o.InRange s.store.size trends.size s.nodes.size

theorem Lowering.Holds.mono {trends : Array Trend} {s s' : Lowering} {o : Operand}
    (h : s.Holds trends o) (hle : s.Le trends s') : s'.Holds trends o :=
  Operand.InRange.mono hle.store.keeps.size_le (Nat.le_refl _) h hle.size

namespace Site

variable (site : Site) {s s' : Lowering}

/-- A node with operands that exist is added. -/
theorem push_inRange {n : Node} {id : NodeId} (h : (Lower.push n).run s = (id, s'))
    (hs : s.InRange site.trends) (harity : n.operation.arity.accepts n.operands.length = true)
    (hoperands : ∀ o ∈ n.operands, s.Holds site.trends o) :
    s'.InRange site.trends ∧ id < s'.nodes.size := by
  cases h
  refine ⟨NodesInRange.push hs ⟨harity, hoperands⟩, ?_⟩
  show s.nodes.size < (s.nodes.push n).size
  rw [Array.size_push]
  omega

/-- Compiling a name adds no nodes. -/
theorem lowerName_nodes {name : String} {location : Location} {o : Operand}
    (h : (site.lowerName name location).run s = (o, s')) : s'.nodes = s.nodes := by
  rw [lowerName] at h
  obtain ⟨_, _, hget, h⟩ := Lower.bind_run h
  cases hget
  split at h
  · cases h
    rfl
  · split at h
    · cases h
      rfl
    · obtain ⟨_, s₁, hwarn, h⟩ := Lower.bind_run h
      obtain ⟨id, s₂, hlocal, h⟩ := Lower.bind_run h
      cases h
      cases hwarn
      cases hlocal
      rfl

/-- Compiling a name gives an operand that exists. -/
theorem lowerName_inRange {name : String} {location : Location} {o : Operand}
    (h : (site.lowerName name location).run s = (o, s')) (hs : s.InRange site.trends) :
    s'.InRange site.trends ∧ s'.Holds site.trends o := by
  obtain ⟨hgrows, r, hr, rfl⟩ := site.lowerName_spec name location h
  refine ⟨?_, Naming.resolve?_inRange hr _⟩
  show NodesInRange s'.store.size _ s'.nodes
  rw [site.lowerName_nodes h]
  exact NodesInRange.mono hgrows.le.store.keeps.size_le (Nat.le_refl _) hs

mutual

/-- Compiling an expression adds nodes that are in range and gives an operand that exists. -/
theorem lower_inRange : ∀ (e : Expr) {s s' : Lowering} {o : Operand},
    (site.lower e).run s = (o, s') → e.FitsArity → s.InRange site.trends →
      s'.InRange site.trends ∧ s'.Holds site.trends o
  | .literal l, s, s', o, h, _, hs => by
    rw [lower] at h
    cases h
    exact ⟨hs, trivial⟩
  | .name name location, s, s', o, h, _, hs => by
    rw [lower] at h
    exact site.lowerName_inRange h hs
  | .negate e, s, s', o, h, .negate hfit, hs => by
    rw [lower] at h
    obtain ⟨o₁, s₁, he, h⟩ := Lower.bind_run h
    obtain ⟨id, s₂, hpush, h⟩ := Lower.bind_run h
    cases h
    obtain ⟨hs₁, ho₁⟩ := lower_inRange e he hfit hs
    exact site.push_inRange hpush hs₁ rfl (by simpa using ho₁)
  | .binary op a b, s, s', o, h, .binary hfita hfitb, hs => by
    rw [lower] at h
    obtain ⟨left, s₁, ha, h⟩ := Lower.bind_run h
    obtain ⟨right, s₂, hb, h⟩ := Lower.bind_run h
    obtain ⟨id, s₃, hpush, h⟩ := Lower.bind_run h
    cases h
    obtain ⟨hs₁, hleft⟩ := lower_inRange a ha hfita hs
    obtain ⟨hs₂, hright⟩ := lower_inRange b hb hfitb hs₁
    -- the left operand still exists after the right one is compiled
    have hleft' := hleft.mono (site.lower_spec b hb).1.le
    exact site.push_inRange hpush hs₂ rfl (by simp [hleft', hright])
  | .call f args location, s, s', o, h, .call haccepts hfits, hs => by
    rw [lower] at h
    obtain ⟨os, s₁, hargs, h⟩ := Lower.bind_run h
    obtain ⟨id, s₂, hpush, h⟩ := Lower.bind_run h
    cases h
    obtain ⟨hs₁, hos⟩ := lowerArguments_inRange f args hargs hfits hs
    have hlength := (site.lowerArguments_spec f args hargs).2.2.length_eq
    refine site.push_inRange hpush hs₁ ?_ hos
    show f.arity.accepts os.length = true
    rw [hlength]
    exact haccepts

theorem lowerArguments_inRange (f : Builtin) : ∀ (args : List Expr)
    {s s' : Lowering} {os : List Operand}, (site.lowerArguments f args).run s = (os, s') →
      (∀ a ∈ args, a.FitsArity) → s.InRange site.trends →
      s'.InRange site.trends ∧ ∀ o ∈ os, s'.Holds site.trends o
  | [], s, s', os, h, _, hs => by
    rw [lowerArguments] at h
    cases h
    exact ⟨hs, by simp⟩
  | arg :: rest, s, s', os, h, hfits, hs => by
    rw [lowerArguments] at h
    have hfit := hfits arg List.mem_cons_self
    have hrestfits : ∀ a ∈ rest, a.FitsArity := fun a ha => hfits a (List.mem_cons_of_mem arg ha)
    split at h
    · next id hid =>
      obtain ⟨o, s₁, hfirst, h⟩ := Lower.bind_run h
      obtain ⟨rfl, rfl⟩ := Lower.pure_run hfirst
      obtain ⟨os', s₂, hrest, h⟩ := Lower.bind_run h
      obtain ⟨rfl, rfl⟩ := Lower.pure_run h
      obtain ⟨hs₂, hos⟩ := lowerAll_inRange rest hrest hrestfits hs
      rw [site.trendArgument?_eq] at hid
      obtain ⟨name, -, hnamed⟩ := Option.bind_eq_some_iff.1 hid
      exact ⟨hs₂, List.forall_mem_cons.2 ⟨lt_size_of_trendNamed? hnamed, hos⟩⟩
    · obtain ⟨o, s₁, hfirst, h⟩ := Lower.bind_run h
      obtain ⟨os', s₂, hrest, h⟩ := Lower.bind_run h
      cases h
      obtain ⟨hs₁, ho⟩ := lower_inRange arg hfirst hfit hs
      obtain ⟨hs₂, hos⟩ := lowerAll_inRange rest hrest hrestfits hs₁
      have ho' := ho.mono (site.lowerAll_spec rest hrest).1.le
      exact ⟨hs₂, List.forall_mem_cons.2 ⟨ho', hos⟩⟩

theorem lowerAll_inRange : ∀ (es : List Expr)
    {s s' : Lowering} {os : List Operand}, (site.lowerAll es).run s = (os, s') →
      (∀ e ∈ es, e.FitsArity) → s.InRange site.trends →
      s'.InRange site.trends ∧ ∀ o ∈ os, s'.Holds site.trends o
  | [], s, s', os, h, _, hs => by
    rw [lowerAll] at h
    cases h
    exact ⟨hs, by simp⟩
  | e :: rest, s, s', os, h, hfits, hs => by
    rw [lowerAll] at h
    obtain ⟨o, s₁, he, h⟩ := Lower.bind_run h
    obtain ⟨os', s₂, hrest, h⟩ := Lower.bind_run h
    cases h
    obtain ⟨hs₁, ho⟩ := lower_inRange e he (hfits e List.mem_cons_self) hs
    obtain ⟨hs₂, hos⟩ := lowerAll_inRange rest hrest
      (fun a ha => hfits a (List.mem_cons_of_mem e ha)) hs₁
    have ho' := ho.mono (site.lowerAll_spec rest hrest).1.le
    exact ⟨hs₂, List.forall_mem_cons.2 ⟨ho', hos⟩⟩

end

/-- An expression that stands alone is compiled to a node that exists. -/
theorem lowerWhole_inRange {e : Expr} {id : NodeId} (h : (site.lowerWhole e).run s = (id, s'))
    (hfit : e.FitsArity) (hs : s.InRange site.trends) :
    s'.InRange site.trends ∧ id < s'.nodes.size := by
  rw [lowerWhole] at h
  obtain ⟨o, s₁, he, h⟩ := Lower.bind_run h
  obtain ⟨hs₁, ho⟩ := site.lower_inRange e he hfit hs
  split at h
  · obtain ⟨rfl, rfl⟩ := Lower.pure_run h
    exact ⟨hs₁, ho⟩
  · exact site.push_inRange h hs₁ rfl (by simpa using ho)

end Site

/-! ## Instructions -/

/-- What an instruction refers to exists, and is of the right kind. -/
def Instruction.Refers (store : Store) (nodes : Nat) (programs : Array Program) :
    Instruction VariableId NodeId ProgramId → Prop
  | set target value => store.Assignable target ∧ value < nodes
  | run callee => (programs[callee]?).map Program.kind = some .subroutine
  | if_ condition _ => condition < nodes
  | elseIf condition _ _ => condition < nodes
  | while_ condition _ => condition < nodes
  | return_ => True
  | else_ _ => True
  | endIf => True
  | endWhile _ => True

/-- An instruction keeps what it refers to when variables, nodes and programs are added. -/
theorem Instruction.Refers.mono {store store' : Store} {nodes nodes' : Nat}
    {programs programs' : Array Program} {i : Instruction VariableId NodeId ProgramId}
    (h : i.Refers store nodes programs)
    (hstore : store.Keeps store') (hnodes : nodes ≤ nodes')
    (hprograms : ∀ id : ProgramId, (programs[id]?).map Program.kind = some .subroutine →
      (programs'[id]?).map Program.kind = some .subroutine) :
    i.Refers store' nodes' programs' := by
  cases i with
  | set target value =>
    obtain ⟨⟨o, horigin, hfree⟩, hlt⟩ := h
    exact ⟨⟨o, hstore _ _ horigin, hfree⟩, Nat.lt_of_lt_of_le hlt hnodes⟩
  | run callee => exact hprograms callee h
  | if_ condition next => exact Nat.lt_of_lt_of_le h hnodes
  | elseIf condition next stop => exact Nat.lt_of_lt_of_le h hnodes
  | while_ condition stop => exact Nat.lt_of_lt_of_le h hnodes
  | return_ => trivial
  | else_ stop => trivial
  | endIf => trivial
  | endWhile start => trivial

/-- The expression of an instruction is a node that exists. -/
theorem Instruction.Refers.expression_lt {store : Store} {nodes : Nat} {programs : Array Program}
    {i : Instruction VariableId NodeId ProgramId} (h : i.Refers store nodes programs) {e : NodeId}
    (he : i.expression? = some e) : e < nodes := by
  cases i with
  | set target value =>
    cases he
    exact h.2
  | if_ condition next =>
    cases he
    exact h
  | elseIf condition next stop =>
    cases he
    exact h
  | while_ condition stop =>
    cases he
    exact h
  | run callee => cases he
  | return_ => cases he
  | else_ stop => cases he
  | endIf => cases he
  | endWhile start => cases he

/-- Lines refer to what there is so far. -/
def Lowering.Carries (programs : Array Program) (s : Lowering) (lines : List ReadyLine) : Prop :=
  ∀ line ∈ lines, line.instruction.Refers s.store s.nodes.size programs

theorem Lowering.Carries.mono {trends : Array Trend} {programs : Array Program} {s s' : Lowering}
    {lines : List ReadyLine} (h : s.Carries programs lines) (hle : s.Le trends s') :
    s'.Carries programs lines :=
  fun line hline =>
    (h line hline).mono hle.store.keeps hle.size fun _ hkind => hkind

namespace Site

variable (site : Site) {s s' : Lowering}

/-- The target of an assignment may be assigned, and finding it adds no nodes. -/
theorem lowerTarget_assignable {name : String} {line : Nat} {r : Except ModelProblem VariableId}
    (h : (site.lowerTarget name line).run s = (r, s')) :
    s'.nodes = s.nodes ∧ ∀ id, r = .ok id → s'.store.Assignable id := by
  rw [lowerTarget] at h
  obtain ⟨_, _, hget, h⟩ := Lower.bind_run h
  cases hget
  cases hlookup : s.store.lookup? site.program name with
  | some id =>
    simp only [hlookup] at h
    split at h
    · obtain ⟨rfl, rfl⟩ := Lower.pure_run h
      exact ⟨rfl, fun _ hid => by cases hid⟩
    · next hfree =>
      obtain ⟨rfl, rfl⟩ := Lower.pure_run h
      refine ⟨rfl, fun _ hid => ?_⟩
      cases hid
      exact Store.assignable_of_lt (Store.lt_size_of_lookup? hlookup) (by simpa using hfree)
  | none =>
    simp only [hlookup] at h
    split at h
    · obtain ⟨rfl, rfl⟩ := Lower.pure_run h
      exact ⟨rfl, fun _ hid => by cases hid⟩
    · next htrend =>
      have hnone : (site.names s).resolve? name = none :=
        Naming.resolve?_eq_none_iff.2 ⟨hlookup, by simpa [names, trend?_eq] using htrend⟩
      obtain ⟨id, s₁, hadd, h⟩ := Lower.bind_run h
      rw [run_ensureLocal hnone] at hadd
      cases hadd
      obtain ⟨rfl, rfl⟩ := Lower.pure_run h
      refine ⟨rfl, fun _ hid => ?_⟩
      cases hid
      -- the new local stands last, and locals may be assigned
      refine ⟨.user, ?_, rfl⟩
      show (Store.get? (s.store.push _ _ _) s.store.size).map Variable.origin = _
      rw [Store.get?_push, if_pos rfl]
      rfl

/-- Compiling an instruction keeps nodes in range, and what it is compiled to refers to what
    exists. -/
theorem lowerInstruction_refers {line : Nat} {i : Instruction String Expr String}
    {r : Except ModelProblem (Instruction VariableId NodeId ProgramId)}
    (h : (site.lowerInstruction line i).run s = (r, s'))
    (hfit : ∀ e ∈ i.expression?, e.FitsArity) (hs : s.InRange site.trends) :
    s'.InRange site.trends
      ∧ ∀ i', r = .ok i' → i'.Refers s'.store s'.nodes.size site.programs := by
  cases i with
  | set name value =>
    rw [lowerInstruction] at h
    obtain ⟨target, s₁, htarget, h⟩ := Lower.bind_run h
    have hgrows := (site.lowerTarget_spec name line htarget).1
    obtain ⟨hnodes, hok⟩ := site.lowerTarget_assignable htarget
    have hs₁ : s₁.InRange site.trends := by
      show NodesInRange _ _ s₁.nodes
      rw [hnodes]
      exact NodesInRange.mono hgrows.le.store.keeps.size_le (Nat.le_refl _) hs
    split at h
    · obtain ⟨rfl, rfl⟩ := Lower.pure_run h
      exact ⟨hs₁, fun _ hi => by cases hi⟩
    · next id =>
      obtain ⟨n, s₂, hvalue, h⟩ := Lower.bind_run h
      obtain ⟨rfl, rfl⟩ := Lower.pure_run h
      obtain ⟨hs₂, hn⟩ := site.lowerWhole_inRange hvalue (hfit value rfl) hs₁
      refine ⟨hs₂, fun _ hi => ?_⟩
      cases hi
      obtain ⟨o, horigin, hfree⟩ := hok id rfl
      have hle := (site.lowerWhole_spec value hvalue).1.le
      exact ⟨⟨o, hle.store.keeps _ _ horigin, hfree⟩, hn⟩
  | run name =>
    obtain ⟨rfl, rfl⟩ := Lower.pure_run h
    refine ⟨hs, fun _ hi => ?_⟩
    cases hcallee : site.lowerCallee name line with
    | error problem => simp [hcallee, Except.map] at hi
    | ok id =>
      rw [hcallee] at hi
      cases hi
      have hnamed := lowerCallee_eq_ok_iff.1 hcallee
      show (site.programs[id]?).map Program.kind = some .subroutine
      simpa using (Option.filter_eq_some_iff.1 hnamed).2
  | if_ condition next =>
    obtain ⟨n, s₁, hc, h⟩ := Lower.bind_run h
    obtain ⟨rfl, rfl⟩ := Lower.pure_run h
    obtain ⟨hs₁, hn⟩ := site.lowerWhole_inRange hc (hfit condition rfl) hs
    exact ⟨hs₁, fun _ hi => by cases hi; exact hn⟩
  | elseIf condition next stop =>
    obtain ⟨n, s₁, hc, h⟩ := Lower.bind_run h
    obtain ⟨rfl, rfl⟩ := Lower.pure_run h
    obtain ⟨hs₁, hn⟩ := site.lowerWhole_inRange hc (hfit condition rfl) hs
    exact ⟨hs₁, fun _ hi => by cases hi; exact hn⟩
  | while_ condition stop =>
    obtain ⟨n, s₁, hc, h⟩ := Lower.bind_run h
    obtain ⟨rfl, rfl⟩ := Lower.pure_run h
    obtain ⟨hs₁, hn⟩ := site.lowerWhole_inRange hc (hfit condition rfl) hs
    exact ⟨hs₁, fun _ hi => by cases hi; exact hn⟩
  | return_ =>
    obtain ⟨rfl, rfl⟩ := Lower.pure_run h
    exact ⟨hs, fun _ hi => by cases hi; trivial⟩
  | else_ stop =>
    obtain ⟨rfl, rfl⟩ := Lower.pure_run h
    exact ⟨hs, fun _ hi => by cases hi; trivial⟩
  | endIf =>
    obtain ⟨rfl, rfl⟩ := Lower.pure_run h
    exact ⟨hs, fun _ hi => by cases hi; trivial⟩
  | endWhile start =>
    obtain ⟨rfl, rfl⟩ := Lower.pure_run h
    exact ⟨hs, fun _ hi => by cases hi; trivial⟩

/-! ## Lines and programs -/

/-- Compiling lines keeps nodes in range, and the lines that are compiled refer to what
    exists. -/
theorem lowerLines_refers {source : List SourceLine} {lines : List ReadyLine}
    {problems : List ModelProblem}
    (h : (site.lowerLines source).run s = ((lines, problems), s'))
    (hfit : ∀ line ∈ source, ∀ e ∈ line.instruction.expression?, e.FitsArity)
    (hs : s.InRange site.trends) :
    s'.InRange site.trends ∧ s'.Carries site.programs lines := by
  induction source generalizing s s' lines problems with
  | nil =>
    obtain ⟨hr, rfl⟩ := Lower.pure_run h
    cases hr
    exact ⟨hs, by simp [Lowering.Carries]⟩
  | cons line rest ih =>
    rw [lowerLines] at h
    obtain ⟨result, s₁, hline, h⟩ := Lower.bind_run h
    obtain ⟨⟨lines', problems'⟩, s₂, hrest, h⟩ := Lower.bind_run h
    obtain ⟨hs₁, hrefers⟩ :=
      site.lowerInstruction_refers hline (hfit line List.mem_cons_self) hs
    obtain ⟨hs₂, hcarries⟩ :=
      ih hrest (fun l hl => hfit l (List.mem_cons_of_mem line hl)) hs₁
    cases result with
    | error problem =>
      obtain ⟨hr, rfl⟩ := Lower.pure_run h
      cases hr
      exact ⟨hs₂, hcarries⟩
    | ok instruction =>
      obtain ⟨hr, rfl⟩ := Lower.pure_run h
      cases hr
      have hle := (site.lowerLines_spec rest hrest).1.le
      have hfirst := (hrefers instruction rfl).mono hle.store.keeps hle.size
        fun _ hkind => hkind
      exact ⟨hs₂, List.forall_mem_cons.2 ⟨hfirst, hcarries⟩⟩

/-- Compiling a source keeps nodes in range, and its lines refer to what exists. -/
theorem compile_refers {source : String} {lines : Array ReadyLine} {problems : List ModelProblem}
    (h : (site.compile source).run s = ((lines, problems), s')) (hs : s.InRange site.trends) :
    s'.InRange site.trends ∧ s'.Carries site.programs lines.toList := by
  rw [compile] at h
  cases hparse : parseCode source with
  | error e =>
    rw [hparse] at h
    obtain ⟨hr, rfl⟩ := Lower.pure_run h
    cases hr
    exact ⟨hs, by simp [Lowering.Carries]⟩
  | ok parsed =>
    rw [hparse] at h
    obtain ⟨⟨compiled, found⟩, s₁, hlines, h⟩ := Lower.bind_run h
    obtain ⟨hs₁, hcarries⟩ :=
      site.lowerLines_refers hlines (fun line hline => parseCode_fits hparse hline) hs
    dsimp only at h
    split at h
    · obtain ⟨hr, rfl⟩ := Lower.pure_run h
      cases hr
      exact ⟨hs₁, hcarries⟩
    · obtain ⟨hr, rfl⟩ := Lower.pure_run h
      cases hr
      exact ⟨hs₁, by simp [Lowering.Carries]⟩

end Site

namespace Controller

/-- Compiling programs keeps nodes in range, and the lines of all programs refer to what
    exists in the end. -/
theorem compilePrograms_refers {trends : Catalog Trend.foldedName}
    {all : Catalog Program.foldedName} {list : List Program} {first : ProgramId} {s s' : Lowering}
    {programs : List Program} {problems : List ModelProblem}
    (h : (compilePrograms trends all first list).run s = ((programs, problems), s'))
    (hs : s.InRange trends.entries) :
    s'.InRange trends.entries ∧ ∀ p ∈ programs, s'.Carries all.entries p.lines.toList := by
  induction list generalizing first s s' programs problems with
  | nil =>
    obtain ⟨hr, rfl⟩ := Lower.pure_run h
    cases hr
    exact ⟨hs, by simp⟩
  | cons p rest ih =>
    rw [compilePrograms] at h
    obtain ⟨⟨lines, found⟩, s₁, hone, h⟩ := Lower.bind_run h
    obtain ⟨⟨programs', others⟩, s₂, hrest, h⟩ := Lower.bind_run h
    obtain ⟨hr, rfl⟩ := Lower.pure_run h
    cases hr
    obtain ⟨hs₁, hcarries⟩ := Site.compile_refers ⟨trends, all, first, p.name⟩ hone hs
    obtain ⟨hs₂, hothers⟩ := ih hrest hs₁
    have hle := (compilePrograms_spec rest hrest).1
    exact ⟨hs₂, List.forall_mem_cons.2 ⟨hcarries.mono hle, hothers⟩⟩

/-- After compiling all nodes are in range and all lines refer to what exists. -/
theorem compile_refers (c : Controller) :
    NodesInRange c.compile.machine.store.size c.compile.image.trends.size c.compile.image.nodes
      ∧ ∀ p ∈ c.compile.image.programs, ∀ line ∈ p.lines,
          line.instruction.Refers c.compile.machine.store c.compile.image.nodes.size
            c.compile.image.programs := by
  -- calls were compiled against the programs as they were before
  have hkind := c.compile_kind
  generalize hrun :
    (compilePrograms c.image.trendCatalog c.image.programCatalog 0 c.image.programs.toList).run
      ⟨c.machine.store, c.machine.log, #[]⟩ = r
  obtain ⟨⟨programs, found⟩, s⟩ := r
  have hempty : Lowering.InRange c.image.trends ⟨c.machine.store, c.machine.log, #[]⟩ := by
    intro id n hn
    simp at hn
  obtain ⟨hrange, hcarries⟩ := compilePrograms_refers hrun hempty
  simp only [compile, hrun] at hkind ⊢
  refine ⟨hrange, fun p hp line hline => ?_⟩
  have hp' : p ∈ programs.toArray := hp
  have hrefers := hcarries p (by simpa using hp') line (Array.mem_toList_iff.2 hline)
  exact hrefers.mono (.refl _) (Nat.le_refl _) fun id hid => (hkind id).trans hid

end Controller

end Erl
