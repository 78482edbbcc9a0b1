/-
  Erl.Proofs.Controller.Lowering

  What compiling an expression leaves behind.

  Compiling changes its state in three ways only: it adds a node that refers to nodes before
  it, adds a local for a name that stands for nothing, or warns.  Hence the table of nodes
  stays a forest and names keep what they stand for, and the operand that an expression is
  compiled to is that expression from then on.
-/

import Mathlib.Logic.Relation
import Erl.Controller.Lowering
import Erl.Proofs.Controller.Naming
import Erl.Proofs.Store

namespace Erl

theorem Site.trend?_eq (site : Site) (name : String) :
    site.trend? name = trendNamed? site.trends name :=
  find?_eq_trendNamed? site.trendCatalog name

theorem Site.program?_eq (site : Site) (name : String) :
    site.program? name = programNamed? site.programs name :=
  find?_eq_programNamed? site.programCatalog name

/-- What the names of the program that is compiled stand for. -/
def Site.names (site : Site) (s : Lowering) : Naming :=
  ⟨s.store, site.trends, site.program⟩

/-! ## Changes of the state -/

/-- One change that compiling a program makes. -/
inductive Lowering.Change (site : Site) (s : Lowering) : Lowering → Prop where
  | node {n : Node} : n.Below s.nodes.size → Change site s { s with nodes := s.nodes.push n }
  | addLocal {name : String} : (site.names s).resolve? name = none →
      Change site s { s with store := s.store.push name (.local_ site.program) .user }
  | warn {message : String} :
      Change site s { s with log := s.log.record .warning (some site.name) message }

/-- The changes that compiling a program makes one after another. -/
def Lowering.Grows (site : Site) : Lowering → Lowering → Prop :=
  Relation.ReflTransGen (Change site)

/-- The nodes and variables stay as they are, the names of every program keep what they stand
    for, and no fatal message is recorded. -/
structure Lowering.Le (trends : Array Trend) (s s' : Lowering) : Prop where
  nodes : NodesLe s.nodes s'.nodes
  size : s.nodes.size ≤ s'.nodes.size
  names : ∀ program, (Naming.mk s.store trends program).Le ⟨s'.store, trends, program⟩
  store : s.store.Grows s'.store
  fatal : s'.log.ofSeverity .fatal = s.log.ofSeverity .fatal

namespace Lowering

theorem Le.refl (trends : Array Trend) (s : Lowering) : s.Le trends s :=
  ⟨fun h => h, Nat.le_refl _, fun _ => ⟨rfl, fun h => h⟩, .refl _, rfl⟩

theorem Le.trans {trends : Array Trend} {s s' s'' : Lowering} (h : s.Le trends s')
    (h' : s'.Le trends s'') : s.Le trends s'' :=
  ⟨fun hn => h'.nodes (h.nodes hn), Nat.le_trans h.size h'.size,
    fun program => ⟨rfl, fun hr => (h'.names program).resolve? ((h.names program).resolve? hr)⟩,
    h.store.trans h'.store, h'.fatal.trans h.fatal⟩

/-- A change keeps nodes, variables and names. -/
theorem Change.le {site : Site} {s s' : Lowering} (h : Change site s s') :
    s.Le site.trends s' := by
  cases h with
  | @node n hn =>
    refine ⟨?_, by simp, fun _ => ⟨rfl, fun h => h⟩, .refl _, rfl⟩
    intro id n' hid
    obtain ⟨hlt, -⟩ := Array.getElem?_eq_some_iff.1 hid
    rw [Array.getElem?_push_lt hlt, ← hid, Array.getElem?_eq_getElem hlt]
  | addLocal hname =>
    exact ⟨fun h => h, Nat.le_refl _, fun program => Naming.le_addLocal _ hname, .add _ _, rfl⟩
  | warn =>
    refine ⟨fun h => h, Nat.le_refl _, fun _ => ⟨rfl, fun h => h⟩, .refl _, ?_⟩
    rw [Log.ofSeverity_record, if_neg (by decide), List.append_nil]

/-- A change keeps the table of nodes a forest. -/
theorem Change.isForest {site : Site} {s s' : Lowering} (h : Change site s s')
    (hs : IsForest s.nodes) : IsForest s'.nodes := by
  cases h with
  | node hn => exact hs.push hn
  | addLocal hname => exact hs
  | warn => exact hs

/-- Compiling a program keeps nodes, variables and names. -/
theorem Grows.le {site : Site} {s s' : Lowering} (h : Grows site s s') :
    s.Le site.trends s' := by
  induction h with
  | refl => exact Le.refl site.trends s
  | tail _ hchange ih => exact ih.trans hchange.le

/-- Compiling a program keeps the table of nodes a forest. -/
theorem Grows.isForest {site : Site} {s s' : Lowering} (h : Grows site s s')
    (hs : IsForest s.nodes) : IsForest s'.nodes := by
  induction h with
  | refl => exact hs
  | tail _ hchange ih => exact hchange.isForest ih

theorem Grows.trans {site : Site} {s s' s'' : Lowering} (h : Grows site s s')
    (h' : Grows site s' s'') : Grows site s s'' :=
  Relation.ReflTransGen.trans h h'

theorem Grows.single {site : Site} {s s' : Lowering} (h : Change site s s') :
    Grows site s s' :=
  Relation.ReflTransGen.single h

theorem Grows.refl {site : Site} (s : Lowering) : Grows site s s :=
  Relation.ReflTransGen.refl

end Lowering

open Lowering

/-- Two computations one after another. -/
theorem Lower.bind_run {α β : Type} {x : Lower α} {f : α → Lower β} {s s'' : Lowering} {b : β}
    (h : (x >>= f).run s = (b, s'')) :
    ∃ a s', x.run s = (a, s') ∧ (f a).run s' = (b, s'') :=
  ⟨(x.run s).1, (x.run s).2, rfl, h⟩

/-- A computation that only gives a value. -/
theorem Lower.pure_run {α : Type} {a b : α} {s s' : Lowering}
    (h : (pure a : Lower α).run s = (b, s')) : a = b ∧ s = s' :=
  Prod.mk.inj h

/-! ## Names -/

namespace Site

/-- A local is added for a name that stands for nothing. -/
theorem run_ensureLocal {site : Site} {s : Lowering} {name : String}
    (h : (site.names s).resolve? name = none) :
    (Lower.ensureLocal site.program name).run s
      = (s.store.size, { s with store := s.store.push name (.local_ site.program) .user }) := by
  have hlookup := (Naming.resolve?_eq_none_iff.1 h).1
  have hfind : s.store.find? (.local_ site.program) name = none :=
    (Option.or_eq_none_iff.1 hlookup).1
  show ((s.store.ensureLocal site.program name).1,
    { s with store := (s.store.ensureLocal site.program name).2 }) = _
  rw [Store.ensureLocal_of_none hfind]

/-- Compiling a name gives the operand of what it stands for from then on. -/
theorem lowerName_spec (site : Site) (name : String) (location : Location) {s s' : Lowering}
    {o : Operand} (h : (site.lowerName name location).run s = (o, s')) :
    Grows site s s' ∧ ∃ r, (site.names s').resolve? name = some r ∧ o = r.operand := by
  have heq := (site.names s).resolve?_eq name
  cases hlookup : s.store.lookup? site.program name with
  | some id =>
    have hrun : (site.lowerName name location).run s = (.variableRef id, s) := by
      simp [lowerName, hlookup]
      rfl
    obtain ⟨rfl, rfl⟩ := Prod.mk.inj (hrun.symm.trans h)
    refine ⟨.refl s, .variableAt id, ?_, rfl⟩
    rw [heq]
    simp [names, hlookup]
  | none =>
    cases htrend : trendNamed? site.trends name with
    | some id =>
      have hrun : (site.lowerName name location).run s = (.trendRef id, s) := by
        simp [lowerName, hlookup, trend?_eq, htrend]
        rfl
      obtain ⟨rfl, rfl⟩ := Prod.mk.inj (hrun.symm.trans h)
      refine ⟨.refl s, .trendAt id, ?_, rfl⟩
      rw [heq]
      simp [names, hlookup, htrend]
    | none =>
      have hnone : (site.names s).resolve? name = none :=
        Naming.resolve?_eq_none_iff.2 ⟨hlookup, htrend⟩
      -- the warning comes first; it changes neither names nor nodes
      obtain ⟨s₁, hwarn, hnames, hrun⟩ : ∃ s₁, Change site s s₁ ∧ site.names s₁ = site.names s
          ∧ (site.lowerName name location).run s
            = (.variableRef ((Lower.ensureLocal site.program name).run s₁).1,
                ((Lower.ensureLocal site.program name).run s₁).2) := by
        refine ⟨((site.warnUndefined name location.line).run s).2, .warn, rfl, ?_⟩
        simp [lowerName, hlookup, trend?_eq, htrend]
        rfl
      rw [run_ensureLocal (hnames ▸ hnone)] at hrun
      obtain ⟨rfl, rfl⟩ := Prod.mk.inj (hrun.symm.trans h)
      refine ⟨(Grows.single hwarn).trans (.single (.addLocal (hnames ▸ hnone))),
        .variableAt s₁.store.size, ?_, rfl⟩
      exact Naming.resolve?_addLocal (hnames ▸ hnone)

/-! ## Expressions -/

/-- The first argument of a function of trends is a trend if its name is that of one. -/
theorem trendArgument?_eq (site : Site) (f : Builtin) (arg : Expr) :
    site.trendArgument? f arg = (f.trendName? arg).bind (trendNamed? site.trends) := by
  cases f <;> cases arg <;> first | rfl | exact site.trend?_eq _

/-- A first argument that is not the name of a trend is compiled like any other. -/
theorem denotesArguments_of_denotes {names : Naming} {nodes : Array Node} {f : Builtin}
    {arg : Expr} {rest : List Expr} {o : Operand} {os : List Operand}
    (hnone : (f.trendName? arg).bind (trendNamed? names.trends) = none)
    (h : Denotes names nodes arg o) (hrest : DenotesAll names nodes rest os) :
    DenotesArguments names nodes f (arg :: rest) (o :: os) := by
  cases hname : f.trendName? arg with
  | none => exact .plain hname h hrest
  | some s =>
    -- the name is not that of a trend, so it stands for the same as anywhere else
    rw [hname, Option.bind_some] at hnone
    obtain ⟨location, rfl⟩ : ∃ location, arg = .name s location := by
      unfold Builtin.trendName? at hname
      split at hname
      · cases hname
        exact ⟨_, rfl⟩
      · cases hname
    cases h with
    | name hr => exact .trend hname (by rw [Naming.resolveTrend?, hnone, hr]) hrest

/-- A node that refers to nodes of the table is added to it. -/
theorem push_spec (site : Site) {s s' : Lowering} {n : Node} {id : NodeId}
    (h : (Lower.push n).run s = (id, s')) (hn : n.Below s.nodes.size) :
    Grows site s s' ∧ s'.nodes[id]? = some n ∧ n.Below id ∧ id < s'.nodes.size := by
  cases h
  refine ⟨.single (.node hn), Array.getElem?_push_size, hn, ?_⟩
  show s.nodes.size < (s.nodes.push n).size
  rw [Array.size_push]
  exact Nat.lt_succ_self _

mutual

/-- An expression is compiled to an operand that is the expression from then on. -/
theorem lower_spec (site : Site) : ∀ (e : Expr) {s s' : Lowering} {o : Operand},
    (site.lower e).run s = (o, s') →
      Grows site s s' ∧ o.Below s'.nodes.size ∧ Denotes (site.names s') s'.nodes e o
  | .literal l, s, s', o, h => by
    rw [lower] at h
    cases h
    exact ⟨.refl s, trivial, .literal⟩
  | .name name location, s, s', o, h => by
    rw [lower] at h
    obtain ⟨hgrows, r, hr, rfl⟩ := site.lowerName_spec name location h
    refine ⟨hgrows, ?_, .name hr⟩
    cases r <;> trivial
  | .negate e, s, s', o, h => by
    rw [lower] at h
    obtain ⟨o₁, s₁, he, h⟩ := Lower.bind_run h
    obtain ⟨id, s₂, hpush, h⟩ := Lower.bind_run h
    cases h
    obtain ⟨hgrows, hbelow, hden⟩ := site.lower_spec e he
    obtain ⟨hgrows', hget, hn, hid⟩ := site.push_spec hpush (by simpa [Node.Below] using hbelow)
    have hle := hgrows'.le
    exact ⟨hgrows.trans hgrows', hid,
      .negate (hden.mono (hle.names site.program) hle.nodes) hget hn⟩
  | .binary op a b, s, s', o, h => by
    rw [lower] at h
    obtain ⟨left, s₁, ha, h⟩ := Lower.bind_run h
    obtain ⟨right, s₂, hb, h⟩ := Lower.bind_run h
    obtain ⟨id, s₃, hpush, h⟩ := Lower.bind_run h
    cases h
    obtain ⟨hgrows₁, hbelow₁, hden₁⟩ := site.lower_spec a ha
    obtain ⟨hgrows₂, hbelow₂, hden₂⟩ := site.lower_spec b hb
    -- the left operand stays in place while the right one is compiled
    have hleft : left.Below s₂.nodes.size := hbelow₁.mono hgrows₂.le.size
    obtain ⟨hgrows₃, hget, hn, hid⟩ :=
      site.push_spec hpush (by simp [Node.Below, hleft, hbelow₂])
    have hle₁ := (hgrows₂.trans hgrows₃).le
    have hle₂ := hgrows₃.le
    exact ⟨(hgrows₁.trans hgrows₂).trans hgrows₃, hid,
      .binary (hden₁.mono (hle₁.names site.program) hle₁.nodes)
        (hden₂.mono (hle₂.names site.program) hle₂.nodes) hget hn⟩
  | .call f args location, s, s', o, h => by
    rw [lower] at h
    obtain ⟨os, s₁, hargs, h⟩ := Lower.bind_run h
    obtain ⟨id, s₂, hpush, h⟩ := Lower.bind_run h
    cases h
    obtain ⟨hgrows, hbelow, hden⟩ := site.lowerArguments_spec f args hargs
    obtain ⟨hgrows', hget, hn, hid⟩ := site.push_spec hpush hbelow
    have hle := hgrows'.le
    exact ⟨hgrows.trans hgrows', hid,
      .call (hden.mono (hle.names site.program) hle.nodes) hget hn⟩

/-- The arguments of a function are compiled to operands that are the arguments. -/
theorem lowerArguments_spec (site : Site) (f : Builtin) : ∀ (args : List Expr)
    {s s' : Lowering} {os : List Operand}, (site.lowerArguments f args).run s = (os, s') →
      Grows site s s' ∧ (∀ o ∈ os, o.Below s'.nodes.size)
        ∧ DenotesArguments (site.names s') s'.nodes f args os
  | [], s, s', os, h => by
    rw [lowerArguments] at h
    cases h
    exact ⟨.refl s, by simp, .nil⟩
  | arg :: rest, s, s', os, h => by
    rw [lowerArguments] at h
    have htrend := site.trendArgument?_eq f arg
    split at h
    · next id hid =>
      obtain ⟨o, s₁, hfirst, h⟩ := Lower.bind_run h
      obtain ⟨rfl, rfl⟩ := Lower.pure_run hfirst
      obtain ⟨os', s₂, hrest, h⟩ := Lower.bind_run h
      obtain ⟨rfl, rfl⟩ := Lower.pure_run h
      obtain ⟨hgrows, hbelow, hden⟩ := site.lowerAll_spec rest hrest
      rw [hid] at htrend
      obtain ⟨name, hname, hnamed⟩ := Option.bind_eq_some_iff.1 htrend.symm
      have hr : (site.names s₂).resolveTrend? name = some (.trendAt id) := by
        rw [Naming.resolveTrend?]
        simp only [names, hnamed]
      exact ⟨hgrows, by simpa [Operand.Below] using hbelow, .trend hname hr hden⟩
    · next hnone =>
      obtain ⟨o, s₁, hfirst, h⟩ := Lower.bind_run h
      obtain ⟨os', s₂, hrest, h⟩ := Lower.bind_run h
      cases h
      obtain ⟨hgrows, hbelow, hden⟩ := site.lower_spec arg hfirst
      obtain ⟨hgrows', hbelow', hden'⟩ := site.lowerAll_spec rest hrest
      have hle := hgrows'.le
      rw [hnone] at htrend
      refine ⟨hgrows.trans hgrows', List.forall_mem_cons.2 ⟨hbelow.mono hle.size, hbelow'⟩, ?_⟩
      exact denotesArguments_of_denotes htrend.symm
        (hden.mono (hle.names site.program) hle.nodes) hden'

/-- Expressions are compiled to operands that are the expressions. -/
theorem lowerAll_spec (site : Site) : ∀ (es : List Expr)
    {s s' : Lowering} {os : List Operand}, (site.lowerAll es).run s = (os, s') →
      Grows site s s' ∧ (∀ o ∈ os, o.Below s'.nodes.size)
        ∧ DenotesAll (site.names s') s'.nodes es os
  | [], s, s', os, h => by
    rw [lowerAll] at h
    cases h
    exact ⟨.refl s, by simp, .nil⟩
  | e :: rest, s, s', os, h => by
    rw [lowerAll] at h
    obtain ⟨o, s₁, he, h⟩ := Lower.bind_run h
    obtain ⟨os', s₂, hrest, h⟩ := Lower.bind_run h
    cases h
    obtain ⟨hgrows, hbelow, hden⟩ := site.lower_spec e he
    obtain ⟨hgrows', hbelow', hden'⟩ := site.lowerAll_spec rest hrest
    have hle := hgrows'.le
    exact ⟨hgrows.trans hgrows', List.forall_mem_cons.2 ⟨hbelow.mono hle.size, hbelow'⟩,
      .cons (hden.mono (hle.names site.program) hle.nodes) hden'⟩

end

end Site

end Erl
