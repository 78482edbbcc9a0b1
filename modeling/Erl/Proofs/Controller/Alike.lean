/-
  Erl.Proofs.Controller.Alike

  Controllers with the same declarations.

  Two controllers may have come by the same declarations while one of them was compiled in
  between.  Compiling leaves locals among the globals, so variables stand at other positions, and
  it leaves nodes, lines, messages and problems.  Everything else is the same, and stays the same
  under every further declaration: a global is found by its name in both, and is the same variable.
-/

import Erl.Proofs.Controller.ByName

namespace Erl

/-! ## Controllers -/

theorem Instruction.Reaches.mono {names names' : Naming}
    (h : ∀ s, names.Assignable s → names'.Assignable s) {n : String}
    {i : Instruction String Expr String} (hi : i.Reaches names n) : i.Reaches names' n := by
  cases hi with
  | target hsame => exact .target hsame
  | value hfree hnamed => exact .value (h _ hfree) hnamed
  | if_ hnamed => exact .if_ hnamed
  | elseIf hnamed => exact .elseIf hnamed
  | while_ hnamed => exact .while_ hnamed

theorem Naming.Reaches.mono {names names' : Naming}
    (h : ∀ s, names.Assignable s → names'.Assignable s) {source n : String}
    (hn : names.Reaches source n) : names'.Reaches source n := by
  obtain ⟨lines, hparse, line, hline, hreach⟩ := hn
  exact ⟨lines, hparse, line, hline, hreach.mono h⟩

/-- Trends with the same name and samples, which follow variables that correspond. -/
structure Trend.Alike (rel : VariableId → VariableId → Prop) (t t' : Trend) : Prop where
  name : t.name = t'.name
  history : t.history = t'.history
  source : rel t.source t'.source

/-- Ties under the same name to the same thing, of variables that correspond. -/
structure Tie.Alike (rel : VariableId → VariableId → Prop) (t t' : Tie) : Prop where
  name : t.name = t'.name
  available : t.available = t'.available
  target : rel t.target t'.target

/-- The same is published, and the same ties are made. -/
structure Exchange.Alike (rel : VariableId → VariableId → Prop) (b b' : Exchange) : Prop where
  pointCatalog : b.pointCatalog = b'.pointCatalog
  outputCatalog : b.outputCatalog = b'.outputCatalog
  internalCatalog : b.internalCatalog = b'.internalCatalog
  actuators : List.Forall₂ (Tie.Alike rel) b.actuators.toList b'.actuators.toList
  sensors : List.Forall₂ (Tie.Alike rel) b.sensors.toList b'.sensors.toList
  internalVariables :
    List.Forall₂ (Tie.Alike rel) b.internalVariables.toList b'.internalVariables.toList

theorem Exchange.Alike.mono {rel rel' : VariableId → VariableId → Prop}
    (h : ∀ {i j}, rel i j → rel' i j) {b b' : Exchange} (hb : b.Alike rel b') :
    b.Alike rel' b' := by
  have htie : ∀ t t', Tie.Alike rel t t' → Tie.Alike rel' t t' :=
    fun t t' ht => ⟨ht.name, ht.available, h ht.target⟩
  exact ⟨hb.pointCatalog, hb.outputCatalog, hb.internalCatalog, hb.actuators.imp htie,
    hb.sensors.imp htie, hb.internalVariables.imp htie⟩

namespace Controller

/-- Every local is there for a name that its program reaches. -/
def Explained (c : Controller) : Prop :=
  ∀ (program : ProgramId) (n : String), c.machine.store.find? (.local_ program) n ≠ none →
    ∃ p, c.image.programs[program]? = some p ∧ (c.names program).Reaches p.source n

/-- Locals stay explained when globals, trends and programs are declared. -/
theorem Explained.mono {c c' : Controller} (h : c.Explained)
    (hstore : c.machine.store.Declares c'.machine.store)
    (hprograms : ∀ (program : ProgramId) (p : Program), c.image.programs[program]? = some p →
      ∃ p', c'.image.programs[program]? = some p' ∧ p'.source = p.source) : c'.Explained := by
  intro program n hlocal
  obtain ⟨p, hp, hreach⟩ := h program n (hstore.locals hlocal)
  obtain ⟨p', hp', hsource⟩ := hprograms program p hp
  rw [← hsource] at hreach
  exact ⟨p', hp', hreach.mono fun s => hstore.assignable⟩

/-- Two controllers that have come by the same declarations, the first of which may have been
    compiled in between. -/
structure Alike (a b : Controller) : Prop where
  store : a.machine.store.Alike b.machine.store
  generator : a.machine.generator = b.machine.generator
  settings : a.image.settings = b.image.settings
  routines : a.image.routines = b.image.routines
  curves : a.image.curves = b.image.curves
  trends : List.Forall₂ (Trend.Alike (Store.GlobalPair a.machine.store b.machine.store))
    a.image.trends.toList b.image.trends.toList
  programs : a.image.programs.map Program.uncompiled = b.image.programs.map Program.uncompiled
  exchange : a.exchange.Alike (Store.GlobalPair a.machine.store b.machine.store) b.exchange
  cells : a.cells = b.cells
  constructions : a.constructions = b.constructions
  schedule : a.schedule = b.schedule
  terminated : a.terminated = b.terminated
  problems : a.problems.filter (!·.isFoundByCompiling) = b.problems.filter (!·.isFoundByCompiling)
  explained : a.Explained

namespace Alike

variable {a b : Controller}

/-- Globals are declared or changed in both. -/
theorem withStore (h : Alike a b) {t t' : Store} (ht : t.Alike t')
    (hleft : a.machine.store.Declares t) (hright : b.machine.store.Declares t') :
    Alike (a.withStore t) (b.withStore t') := by
  have hpair : ∀ {i j}, Store.GlobalPair a.machine.store b.machine.store i j →
      Store.GlobalPair t t' i j := hleft.globalPair hright
  exact { h with
    store := ht
    trends := h.trends.imp fun _ _ hs => ⟨hs.name, hs.history, hpair hs.source⟩
    exchange := h.exchange.mono hpair
    explained := h.explained.mono hleft fun _ p hp => ⟨p, hp, rfl⟩ }

/-- A global of both is changed in the same way. -/
theorem adjust (h : Alike a b) {i j : VariableId}
    (hij : Store.GlobalPair a.machine.store b.machine.store i j) {f : Variable → Variable}
    (hf : Variable.Keeps f) :
    Alike (a.withStore (a.machine.store.adjust i f hf.name hf.scope))
      (b.withStore (b.machine.store.adjust j f hf.name hf.scope)) :=
  h.withStore (h.store.adjust hij hf) (.adjust hf _ _) (.adjust hf _ _)

end Alike

/-! ## Attempts -/

/-- Two attempts that end alike: both are refused for the same reason, or both lead to controllers
    that are alike. -/
inductive Matched {α : Type} (rel : Controller → Controller → α → α → Prop) :
    Except ModelProblem (α × Controller) → Except ModelProblem (α × Controller) → Prop where
  | ok {a b : Controller} {u v : α} :
      Alike a b → rel a b u v → Matched rel (.ok (u, a)) (.ok (v, b))
  | error (problem : ModelProblem) : Matched rel (.error problem) (.error problem)

/-- The same global of both. -/
def SameGlobal (a b : Controller) (i j : VariableId) : Prop :=
  Store.GlobalPair a.machine.store b.machine.store i j

namespace Matched

variable {α β : Type} {rel : Controller → Controller → α → α → Prop}
  {rel' : Controller → Controller → β → β → Prop}

theorem check {r : Except ModelProblem β} {f g : β → Except ModelProblem (α × Controller)}
    (h : ∀ u, Matched rel (f u) (g u)) : Matched rel (r >>= f) (r >>= g) := by
  cases r with
  | ok u => exact h u
  | error problem => exact .error problem

theorem bind {x y : Except ModelProblem (α × Controller)}
    {f g : α × Controller → Except ModelProblem (β × Controller)} (h : Matched rel x y)
    (hf : ∀ a b u v, Alike a b → rel a b u v → Matched rel' (f (u, a)) (g (v, b))) :
    Matched rel' (x >>= f) (y >>= g) := by
  cases h with
  | ok halike hrel => exact hf _ _ _ _ halike hrel
  | error problem => exact .error problem

end Matched

variable {a b : Controller}

/-- What is refused is recorded in both. -/
theorem Alike.record (h : Alike a b) (problem : ModelProblem) :
    Alike { a with problems := a.problems ++ [problem] }
      { b with problems := b.problems ++ [problem] } :=
  { h with
    problems := by
      dsimp only
      rw [List.filter_append, List.filter_append, h.problems]
    explained := h.explained }

theorem Alike.orRecord {α : Type} (h : Alike a b) (rel : Controller → Controller → α → α → Prop)
    {x y : Except ModelProblem (α × Controller)} (hxy : Matched rel x y) :
    Alike (a.orRecord x).2 (b.orRecord y).2 := by
  cases hxy with
  | ok halike _ => exact halike
  | error problem => exact h.record problem

/-! ## Variables -/

theorem Alike.attemptVariable (h : Alike a b) (name : String) (origin : Origin) :
    Matched SameGlobal (a.attemptVariable name origin) (b.attemptVariable name origin) := by
  unfold Controller.attemptVariable
  cases hleft : a.machine.store.global? name with
  | some i =>
    obtain ⟨j, hright, -⟩ := h.store.exists_pair hleft
    rw [Store.addGlobal_of_some hleft, Store.addGlobal_of_some hright]
    exact .error _
  | none =>
    have hright := (h.store.global?_eq_none_iff name).1 hleft
    rw [Store.addGlobal_of_none hleft, Store.addGlobal_of_none hright]
    refine .ok (h.withStore (h.store.push name origin) (.push _ _ _) (.push _ _ _)) ?_
    -- the new global is found by its name
    have hfound : ∀ t : Store, t.global? name = none →
        (t.push name .global origin).global? name = some t.size := by
      intro t hnone
      rw [Store.global?, Store.find?_push, ← Store.global?, hnone, Option.none_or,
        if_pos ⟨rfl, Text.sameName_self name⟩]
    exact ⟨name, hfound _ hleft, hfound _ hright⟩

theorem Alike.attemptConstant (h : Alike a b) (name : String) (origin : Origin) (x : Float) :
    Matched SameGlobal (a.attemptConstant name origin x) (b.attemptConstant name origin x) := by
  refine (h.attemptVariable name origin).bind fun a b i j halike hij => ?_
  have hkeeps := Variable.keeps_value (.number x)
  exact .ok (halike.adjust hij hkeeps)
    ((Store.Declares.adjust hkeeps _ _).globalPair (.adjust hkeeps _ _) hij)

theorem Alike.addGlobal (h : Alike a b) (name : String) (origin : Origin) :
    Matched SameGlobal (do checkName .globalVariable name; a.attemptVariable name origin)
      (do checkName .globalVariable name; b.attemptVariable name origin) :=
  .check fun _ => h.attemptVariable name origin

theorem Alike.declareInitial (h : Alike a b) (d : GlobalDeclaration) :
    Alike (a.declareInitial d).2 (b.declareInitial d).2 := by
  have hadded := h.addGlobal d.name d.origin
  unfold Controller.declareInitial Controller.addGlobal
  generalize (do checkName .globalVariable d.name; a.attemptVariable d.name d.origin :
    Except ModelProblem (VariableId × Controller)) = x at hadded
  generalize (do checkName .globalVariable d.name; b.attemptVariable d.name d.origin :
    Except ModelProblem (VariableId × Controller)) = y at hadded
  -- the starting number is assigned after the global was added
  cases hadded with
  | error problem => cases d.initial <;> exact h.record problem
  | ok halike hij =>
    cases d.initial with
    | none => exact halike
    | some x => exact halike.adjust hij (Variable.keeps_value (.number x))

theorem Alike.declareCurveIndex (h : Alike a b) (name curve : String) :
    Alike (a.declareCurveIndex name curve).2 (b.declareCurveIndex name curve).2 := by
  refine h.orRecord SameGlobal (.check fun _ => ?_)
  rw [h.curves]
  cases b.image.curves.index? curve with
  | none => exact .error _
  | some index => exact h.attemptConstant name .curveIndex _

theorem Alike.declareConstructionIndex (h : Alike a b) (name construction : String) :
    Alike (a.declareConstructionIndex name construction).2
      (b.declareConstructionIndex name construction).2 := by
  have hindex : a.constructionIndex? construction = b.constructionIndex? construction := by
    rw [constructionIndex?, h.constructions]
    rfl
  refine h.orRecord SameGlobal (.check fun _ => ?_)
  rw [hindex]
  cases b.constructionIndex? construction with
  | none => exact .error _
  | some index => exact h.attemptConstant name .constructionIndex _

/-! ## Exchange -/

/-- What agrees one for one is found at the same position. -/
theorem findIdx?_eq_of_forall₂ {α β : Type} {R : α → β → Prop} {xs : Array α} {ys : Array β}
    (h : List.Forall₂ R xs.toList ys.toList) {p : α → Bool} {q : β → Bool}
    (hpq : ∀ x y, R x y → p x = q y) : xs.findIdx? p = ys.findIdx? q := by
  obtain ⟨xs⟩ := xs
  obtain ⟨ys⟩ := ys
  rw [List.findIdx?_toArray, List.findIdx?_toArray]
  dsimp only at h
  induction h with
  | nil => rfl
  | cons hxy _ ih => rw [List.findIdx?_cons, List.findIdx?_cons, hpq _ _ hxy, ih]

theorem forall₂_push {α β : Type} {R : α → β → Prop} {xs : Array α} {ys : Array β}
    (h : List.Forall₂ R xs.toList ys.toList) {x : α} {y : β} (hxy : R x y) :
    List.Forall₂ R (xs.push x).toList (ys.push y).toList := by
  rw [Array.toList_push, Array.toList_push]
  exact List.rel_append h (.cons hxy .nil)

section Catalogs

variable {α β κ ι : Type} [DecidableEq κ] [DecidableEq ι] {key : α → κ} {key' : β → ι}
  {R : α → β → Prop} {t : Catalog key} {t' : Catalog key'}

/-- Catalogs whose entries agree one for one find what they hold at the same position. -/
theorem find?_eq_of_forall₂ (h : List.Forall₂ R t.entries.toList t'.entries.toList) {k : κ} {k' : ι}
    (hk : ∀ x y, R x y → (key x = k ↔ key' y = k')) : t.find? k = t'.find? k' := by
  rw [t.find?_eq_findIdx?, t'.find?_eq_findIdx?]
  exact findIdx?_eq_of_forall₂ h fun x y hxy => decide_eq_decide.2 (hk x y hxy)

/-- Both catalogs take an entry at the same position, or both have one already. -/
theorem enter_of_forall₂ (h : List.Forall₂ R t.entries.toList t'.entries.toList) {x : α} {y : β}
    (hxy : R x y) (hkey : ∀ x' y', R x' y' → (key x' = key x ↔ key' y' = key' y)) :
    (t.enter x).1 = (t'.enter y).1
      ∧ List.Forall₂ R (t.enter x).2.entries.toList (t'.enter y).2.entries.toList := by
  have hfind := find?_eq_of_forall₂ h hkey
  cases hfound : t'.find? (key' y) with
  | some i =>
    rw [t.enter_of_some x (hfind.trans hfound), t'.enter_of_some y hfound]
    exact ⟨rfl, h⟩
  | none =>
    rw [t.enter_of_none x (hfind.trans hfound), t'.enter_of_none y hfound]
    exact ⟨h.length_eq, forall₂_push h hxy⟩

end Catalogs

/-- Ties of the same global to the same source have the same ends. -/
theorem ends_eq_iff_of_alike {t t' u u' : Tie} (ht : Tie.Alike (SameGlobal a b) t t')
    (hu : Tie.Alike (SameGlobal a b) u u') : t.ends = u.ends ↔ t'.ends = u'.ends := by
  have htarget : t.target = u.target ↔ t'.target = u'.target :=
    (Store.pairing a.machine.store b.machine.store).unique ht.target.rel hu.target.rel
  rw [Tie.ends, Tie.ends, Tie.ends, Tie.ends, Prod.mk.injEq, Prod.mk.injEq, ht.available,
    hu.available, htarget]

theorem Alike.attemptActuator (h : Alike a b) (name : String) (available : Nat) :
    Matched SameGlobal (a.attemptActuator name available) (b.attemptActuator name available) := by
  refine (h.attemptVariable name .actuator).bind fun a b i j halike hij => ?_
  have hkey : ∀ {a b : Controller} (t t' : Tie), Tie.Alike (SameGlobal a b) t t' →
      (t.available = available ↔ t'.available = available) := fun _ _ ht => by rw [ht.available]
  have hposition : (a.exchange.actuatorCatalog.enter ⟨name, i, available⟩).1
      = (b.exchange.actuatorCatalog.enter ⟨name, j, available⟩).1 :=
    (enter_of_forall₂ halike.exchange.actuators (x := ⟨name, i, available⟩)
      (y := ⟨name, j, available⟩) ⟨rfl, rfl, hij⟩ hkey).1
  dsimp only [Exchange.tieActuator]
  rw [hposition]
  generalize (b.exchange.actuatorCatalog.enter ⟨name, j, available⟩).1 = actuator
  have hkeeps := Variable.keeps_actuator actuator
  have hpair := (Store.Declares.adjust hkeeps a.machine.store i).globalPair
    (.adjust hkeeps b.machine.store j) hij
  have hlinked := halike.adjust hij hkeeps
  refine .ok { hlinked with exchange := ?_, explained := hlinked.explained } hpair
  exact { hlinked.exchange with
    actuators := (enter_of_forall₂ hlinked.exchange.actuators (x := ⟨name, i, available⟩)
      (y := ⟨name, j, available⟩) ⟨rfl, rfl, hpair⟩ hkey).2 }

/-- What agrees one for one agrees at every position. -/
theorem getElem?_rel_of_forall₂ {α β : Type} {R : α → β → Prop} {xs : Array α} {ys : Array β}
    (h : List.Forall₂ R xs.toList ys.toList) (k : Nat) : Option.Rel R xs[k]? ys[k]? := by
  obtain ⟨xs⟩ := xs
  obtain ⟨ys⟩ := ys
  rw [List.getElem?_toArray, List.getElem?_toArray]
  dsimp only at h
  induction h generalizing k with
  | nil => exact .none
  | cons hxy _ ih =>
    cases k with
    | zero => exact .some hxy
    | succ k => exact ih k

theorem Alike.attachActuator (h : Alike a b)
    (name componentType uniqueName controlType : String) :
    Alike (a.attachActuator name componentType uniqueName controlType).2
      (b.attachActuator name componentType uniqueName controlType).2 := by
  have hpoint : a.exchange.findPoint? componentType uniqueName controlType
      = b.exchange.findPoint? componentType uniqueName controlType := by
    rw [Exchange.findPoint?, h.exchange.pointCatalog]
    rfl
  refine h.orRecord SameGlobal (.check fun _ => ?_)
  rw [hpoint]
  cases b.exchange.findPoint? componentType uniqueName controlType with
  | none => exact .error _
  | some available =>
    have hactuator : a.exchange.actuatorOf? available = b.exchange.actuatorOf? available :=
      find?_eq_of_forall₂ h.exchange.actuators fun t t' ht => by rw [ht.available]
    have hused : Option.Rel (Tie.Alike (SameGlobal a b))
        ((a.exchange.actuatorOf? available).bind (a.exchange.actuators[·]?))
        ((b.exchange.actuatorOf? available).bind (b.exchange.actuators[·]?)) := by
      rw [hactuator]
      cases b.exchange.actuatorOf? available with
      | none => exact .none
      | some k => exact getElem?_rel_of_forall₂ h.exchange.actuators k
    -- a point that is used already keeps its variable in both
    dsimp only
    generalize (a.exchange.actuatorOf? available).bind (a.exchange.actuators[·]?) = x at hused
    generalize (b.exchange.actuatorOf? available).bind (b.exchange.actuators[·]?) = y at hused
    cases hused with
    | none => exact h.attemptActuator name available
    | some htie =>
      dsimp only
      rw [htie.name]
      split
      · exact .ok h htie.target
      · exact .error _

/-- The same global is tied to the same thing in both, or in neither. -/
theorem isTied_eq {ties ties' : Array Tie}
    (hties : List.Forall₂ (Tie.Alike (SameGlobal a b)) ties.toList ties'.toList)
    {i j : VariableId} (hij : SameGlobal a b i j) (available : Nat) :
    Exchange.isTied ties i available = Exchange.isTied ties' j available := by
  rw [Exchange.isTied, Exchange.isTied, ← Array.findIdx?_isSome, ← Array.findIdx?_isSome]
  refine congrArg Option.isSome (findIdx?_eq_of_forall₂ hties fun t t' ht => ?_)
  have hsame : t.target = i ↔ t'.target = j :=
    (Store.pairing a.machine.store b.machine.store).unique ht.target.rel hij.rel
  have htarget : (t.target == i) = (t'.target == j) := by
    rw [Bool.eq_iff_iff, beq_iff_eq, beq_iff_eq]
    exact hsame
  rw [ht.available, htarget]

theorem Alike.tieSensor (h : Alike a b) {t t' : Tie} (ht : Tie.Alike (SameGlobal a b) t t') :
    (a.exchange.tieSensor t).2.Alike (SameGlobal a b) (b.exchange.tieSensor t').2 :=
  { h.exchange with
    sensors := (enter_of_forall₂ h.exchange.sensors ht fun _ _ hu => ends_eq_iff_of_alike hu ht).2 }

theorem Alike.tieInternal (h : Alike a b) {t t' : Tie} (ht : Tie.Alike (SameGlobal a b) t t') :
    (a.exchange.tieInternal t).2.Alike (SameGlobal a b) (b.exchange.tieInternal t').2 :=
  { h.exchange with
    internalVariables := (enter_of_forall₂ h.exchange.internalVariables ht
      fun _ _ hu => ends_eq_iff_of_alike hu ht).2 }

/-- A global that is tied already is the same in both. -/
theorem Alike.tiedGlobal? (h : Alike a b) {ties ties' : Array Tie}
    (hties : List.Forall₂ (Tie.Alike (SameGlobal a b)) ties.toList ties'.toList) (name : String)
    (available : Nat) :
    Option.Rel (SameGlobal a b) (a.tiedGlobal? ties name available)
      (b.tiedGlobal? ties' name available) := by
  unfold Controller.tiedGlobal?
  cases hleft : a.machine.store.global? name with
  | none =>
    rw [(h.store.global?_eq_none_iff name).1 hleft]
    exact .none
  | some i =>
    obtain ⟨j, hright, hij⟩ := h.store.exists_pair hleft
    rw [hright, Option.filter_some, Option.filter_some, isTied_eq hties hij]
    split
    · exact .some hij
    · exact .none

/-- A source is attached in both, if the same is found and the tie is made alike. -/
theorem Alike.attachSource (h : Alike a b) (entity : Entity) (origin : Origin) (name : String)
    (missing : ModelProblem) {found found' : Option Nat} (hfound : found = found')
    {ties ties' : Array Tie}
    (hties : List.Forall₂ (Tie.Alike (SameGlobal a b)) ties.toList ties'.toList)
    {tie : Exchange → Tie → Nat × Exchange}
    (htie : ∀ {a b : Controller}, Alike a b → ∀ {t t'}, Tie.Alike (SameGlobal a b) t t' →
      (tie a.exchange t).2.Alike (SameGlobal a b) (tie b.exchange t').2) :
    Alike
      (a.orRecord do
        checkName entity name
        match found with
        | none => throw missing
        | some available =>
          match a.tiedGlobal? ties name available with
          | some id => return (id, a)
          | none =>
            let (id, c) ← a.attemptVariable name origin
            return (id, { c with exchange := (tie c.exchange ⟨name, id, available⟩).2 })).2
      (b.orRecord do
        checkName entity name
        match found' with
        | none => throw missing
        | some available =>
          match b.tiedGlobal? ties' name available with
          | some id => return (id, b)
          | none =>
            let (id, c) ← b.attemptVariable name origin
            return (id, { c with exchange := (tie c.exchange ⟨name, id, available⟩).2 })).2 := by
  subst hfound
  refine h.orRecord SameGlobal (.check fun _ => ?_)
  cases found with
  | none => exact .error _
  | some available =>
    have htied := h.tiedGlobal? hties name available
    dsimp only
    generalize a.tiedGlobal? ties name available = x at htied
    generalize b.tiedGlobal? ties' name available = y at htied
    -- a global that has the tie is returned, any other is added with it
    cases htied with
    | some hij => exact .ok h hij
    | none =>
      refine (h.attemptVariable name origin).bind fun a b i j halike hij => ?_
      refine .ok { halike with exchange := ?_, explained := halike.explained } hij
      exact htie halike ⟨rfl, rfl, hij⟩

theorem Alike.attachSensor (h : Alike a b) (name quantity key : String) :
    Alike (a.attachSensor name quantity key).2 (b.attachSensor name quantity key).2 := by
  have hfound : a.exchange.findOutput? quantity key = b.exchange.findOutput? quantity key := by
    rw [Exchange.findOutput?, h.exchange.outputCatalog]
    rfl
  exact h.attachSource .sensor .sensor name _ hfound h.exchange.sensors Alike.tieSensor

theorem Alike.attachInternalVariable (h : Alike a b) (name quantity key : String) :
    Alike (a.attachInternalVariable name quantity key).2
      (b.attachInternalVariable name quantity key).2 := by
  have hfound : a.exchange.findInternal? quantity key = b.exchange.findInternal? quantity key := by
    rw [Exchange.findInternal?, h.exchange.internalCatalog]
    rfl
  exact h.attachSource .internalVariable .internalVariable name _ hfound
    h.exchange.internalVariables Alike.tieInternal

/-! ## Trends and programs -/

theorem Alike.trendNamed? (h : Alike a b) (name : String) :
    trendNamed? a.image.trends name = trendNamed? b.image.trends name :=
  findIdx?_eq_of_forall₂ h.trends fun t t' ht => by rw [ht.name]

/-- Both can have the trend, or neither. -/
theorem Alike.trendSource (h : Alike a b) (name variableName : String) (capacity : Nat) :
    (∃ i j, a.trendSource name variableName capacity = .ok i
        ∧ b.trendSource name variableName capacity = .ok j ∧ SameGlobal a b i j)
      ∨ ∃ problem, a.trendSource name variableName capacity = .error problem
          ∧ b.trendSource name variableName capacity = .error problem := by
  unfold Controller.trendSource
  rw [a.image.findTrend?_eq, b.image.findTrend?_eq, h.trendNamed? name]
  cases checkName .trend name with
  | error problem => exact .inr ⟨problem, rfl, rfl⟩
  | ok _ =>
    cases (Erl.trendNamed? b.image.trends name).isSome with
    | true => exact .inr ⟨_, rfl, rfl⟩
    | false =>
      cases hleft : a.machine.store.global? variableName with
      | none =>
        rw [(h.store.global?_eq_none_iff variableName).1 hleft]
        exact .inr ⟨_, rfl, rfl⟩
      | some i =>
        obtain ⟨j, hright, hij⟩ := h.store.exists_pair hleft
        rw [hright]
        by_cases hcapacity : capacity = 0
        · subst hcapacity
          exact .inr ⟨_, rfl, rfl⟩
        · refine .inl ⟨i, j, ?_, ?_, hij⟩ <;> simp [hcapacity, pure, Except.pure, bind, Except.bind]

/-- Both have the trend afterwards, or there is no room for it in either. -/
theorem Alike.declareTrend? (h : Alike a b) (name variableName : String) (capacity : Nat) :
    Option.Rel (fun r r' => Alike r.2 r'.2) (a.declareTrend? name variableName capacity)
      (b.declareTrend? name variableName capacity) := by
  unfold Controller.declareTrend?
  obtain ⟨i, j, hleft, hright, hij⟩ | ⟨problem, hleft, hright⟩ :=
    h.trendSource name variableName capacity
  · rw [hleft, hright]
    dsimp only
    cases (History.ofCapacity? capacity : Option (History Float)) with
    | none => exact .none
    | some history =>
      have htrends := (enter_of_forall₂ (x := ⟨name, i, history⟩) (y := ⟨name, j, history⟩)
        h.trends ⟨rfl, rfl, hij⟩ fun _ _ ht => by rw [Trend.foldedName, ht.name]; rfl).2
      refine .some { h with trends := htrends, explained := ?_ }
      exact h.explained.mono (.refl _) fun _ p hp => ⟨p, hp, rfl⟩
  · rw [hleft, hright]
    exact .some (h.record problem)

/-- What depends on names, kinds and sources of programs only is the same in both. -/
theorem Alike.program? (h : Alike a b) (id : ProgramId) :
    (a.image.programs[id]?).map Program.uncompiled
      = (b.image.programs[id]?).map Program.uncompiled := by
  rw [← Array.getElem?_map, ← Array.getElem?_map, h.programs]

theorem Alike.findProgram? (h : Alike a b) (name : String) :
    a.image.findProgram? name = b.image.findProgram? name := by
  have hfind : ∀ img : Image, img.findProgram? name
      = (img.programs.map Program.uncompiled).findIdx? fun p => Text.sameName p.name name := by
    intro img
    rw [img.findProgram?_eq, Array.findIdx?_map]
    rfl
  rw [hfind, hfind, h.programs]

theorem Alike.attemptProgram (h : Alike a b) (entity : Entity) (kind : ProgramKind)
    (name source : String) :
    Matched (fun _ _ _ _ => True) (a.attemptProgram entity kind name source)
      (b.attemptProgram entity kind name source) := by
  unfold Controller.attemptProgram
  rw [h.findProgram? name]
  cases NameFlaw.ofProgram? name with
  | some flaw => exact .error _
  | none =>
    dsimp only
    split
    · exact .error _
    · next hnew =>
      have hright : b.image.findProgram? name = none := Option.not_isSome_iff_eq_none.1 hnew
      have hleft := (h.findProgram? name).trans hright
      rw [a.image.programCatalog.enter_of_none ⟨name, kind, source, #[]⟩ hleft,
        b.image.programCatalog.enter_of_none ⟨name, kind, source, #[]⟩ hright]
      refine .ok { h with programs := ?_, explained := ?_ } trivial
      · show (a.image.programs.push _).map _ = (b.image.programs.push _).map _
        rw [Array.map_push, Array.map_push, h.programs]
      · refine h.explained.mono (.refl _) fun id p hp => ⟨p, ?_, rfl⟩
        have hlt := (Array.getElem?_eq_some_iff.1 hp).1
        exact (Array.getElem?_push_lt hlt).trans (Array.getElem?_eq_getElem hlt ▸ hp)

theorem Alike.attemptBind (h : Alike a b) (point : CallingPoint) (name : String) :
    Matched (fun _ _ _ _ => True) (a.attemptBind point name) (b.attemptBind point name) := by
  have hkind : ∀ id : ProgramId, (a.image.programs[id]?).map Program.kind
      = (b.image.programs[id]?).map Program.kind := by
    intro id
    have hkind := congrArg (Option.map Program.kind) (h.program? id)
    rw [Option.map_map, Option.map_map] at hkind
    exact hkind
  unfold Controller.attemptBind
  rw [h.findProgram? name]
  cases b.image.findProgram? name with
  | none => exact .error _
  | some id =>
    dsimp only
    rw [hkind id]
    split
    · refine .ok { h with schedule := ?_, explained := h.explained } trivial
      dsimp only
      rw [h.schedule]
    · exact .error _

/-- A declaration keeps controllers alike. -/
theorem Alike.declare? (h : Alike a b) (d : Declaration) :
    Option.Rel (fun r r' => Alike r.2 r'.2) (a.declare? d) (b.declare? d) := by
  cases d with
  | global d => exact .some (h.declareInitial d)
  | sensor d => exact .some (h.attachSensor _ _ _)
  | actuator d => exact .some (h.attachActuator _ _ _ _)
  | internalVariable d => exact .some (h.attachInternalVariable _ _ _)
  | curveIndex d => exact .some (h.declareCurveIndex _ _)
  | constructionIndex d => exact .some (h.declareConstructionIndex _ _)
  | trend d =>
    have htrend := h.declareTrend? d.name d.source d.capacity
    show Option.Rel _ ((a.declareTrend? d.name d.source d.capacity).map declare?.discard)
      ((b.declareTrend? d.name d.source d.capacity).map declare?.discard)
    generalize a.declareTrend? d.name d.source d.capacity = x at htrend
    generalize b.declareTrend? d.name d.source d.capacity = y at htrend
    cases htrend with
    | none => exact .none
    | some halike => exact .some halike
  | program d => exact .some (h.orRecord _ (h.attemptProgram _ _ _ _))
  | subroutine d => exact .some (h.orRecord _ (h.attemptProgram _ _ _ _))
  | unknownPoint name => exact .some (h.record _)
  | bind point program => exact .some (h.orRecord _ (h.attemptBind _ _))

/-! ## Operations of the host -/

theorem Alike.publishPoint (h : Alike a b) (p : ControlPoint) :
    Alike (a.publishPoint p).2 (b.publishPoint p).2 := by
  have hpoints : (a.exchange.pointCatalog.enter p).2 = (b.exchange.pointCatalog.enter p).2 := by
    rw [h.exchange.pointCatalog]
  exact { h with
    exchange := { h.exchange with pointCatalog := hpoints }
    explained := h.explained }

theorem Alike.publishOutput (h : Alike a b) (p : SourcePoint) :
    Alike (a.publishOutput p) (b.publishOutput p) := by
  have houtputs : (a.exchange.outputCatalog.enter p).2 = (b.exchange.outputCatalog.enter p).2 := by
    rw [h.exchange.outputCatalog]
  exact { h with
    exchange := { h.exchange with outputCatalog := houtputs }
    explained := h.explained }

theorem Alike.publishInternal (h : Alike a b) (p : SourcePoint) :
    Alike (a.publishInternal p) (b.publishInternal p) := by
  have hinternals : (a.exchange.internalCatalog.enter p).2
      = (b.exchange.internalCatalog.enter p).2 := by
    rw [h.exchange.internalCatalog]
  exact { h with
    exchange := { h.exchange with internalCatalog := hinternals }
    explained := h.explained }

theorem Alike.publishConstruction (h : Alike a b) (name : String) :
    Alike (a.publishConstruction name).2 (b.publishConstruction name).2 := by
  unfold Controller.publishConstruction Controller.constructionIndex?
  rw [h.constructions]
  cases (b.constructions.findIdx? (· == Text.fold name)).map (· + 1) with
  | some index => exact h
  | none =>
    exact { h with constructions := rfl, explained := h.explained }

/-- The variables that follow the clock are found by their names. -/
theorem clockVariables_find? :
    ∀ k < Clock.variableNames.length, ∃ n, clockVariables.find? .global n = some k := by
  have hnames : ∀ k < Clock.variableNames.length,
      clockVariables.find? .global (Clock.variableNames.getD k "") = some k := by
    decide +kernel
  exact fun k hk => ⟨_, hnames k hk⟩

theorem Alike.updateClock (h : Alike a b) (clock : Clock) :
    Alike (a.updateClock clock) (b.updateClock clock) := by
  -- value by value, each for a variable that stands at the same position in both
  have hvalues : ∀ values : List (Float × VariableId),
      (∀ p ∈ values, p.2 < Clock.variableNames.length) → ∀ {a b : Controller}, Alike a b →
      Alike (a.withStore (values.foldl (fun t p => t.set p.2 (.number p.1)) a.machine.store))
        (b.withStore (values.foldl (fun t p => t.set p.2 (.number p.1)) b.machine.store)) := by
    intro values
    induction values with
    | nil =>
      intro _ a b h
      exact h
    | cons p rest ih =>
      intro hlt a b h
      obtain ⟨n, hn⟩ := clockVariables_find? p.2 (hlt p List.mem_cons_self)
      have hpair : Store.GlobalPair a.machine.store b.machine.store p.2 p.2 :=
        ⟨n, h.store.clock hn⟩
      exact ih (fun q hq => hlt q (List.mem_cons_of_mem p hq))
        (h.adjust hpair (Variable.keeps_value (.number p.1)))
  refine hvalues _ (fun p hp => ?_) h
  obtain ⟨-, hlt, -⟩ := List.mem_zipIdx hp
  rw [Nat.zero_add] at hlt
  exact hlt

/-- The host may assign a global in both, or in neither for the same reason. -/
theorem Alike.writeGlobal (h : Alike a b) (name : String) (v : Value) :
    (∃ a' b', a.writeGlobal name v = .ok a' ∧ b.writeGlobal name v = .ok b' ∧ Alike a' b')
      ∨ ∃ e, a.writeGlobal name v = .error e ∧ b.writeGlobal name v = .error e := by
  unfold Controller.writeGlobal
  cases hleft : a.machine.store.global? name with
  | none =>
    rw [(h.store.global?_eq_none_iff name).1 hleft]
    exact .inr ⟨_, rfl, rfl⟩
  | some i =>
    obtain ⟨j, hright, hij⟩ := h.store.exists_pair hleft
    have hentry : a.machine.store.get? i = b.machine.store.get? j := by
      rw [← Store.named?_of_find? hleft, ← Store.named?_of_find? hright, h.store.global]
    have hprotected : a.machine.store.isProtected i = b.machine.store.isProtected j := by
      rw [Store.isProtected_eq, Store.isProtected_eq, Store.origin?, Store.origin?, hentry]
    rw [hright]
    dsimp only
    rw [hprotected]
    split
    · exact .inr ⟨_, rfl, rfl⟩
    · exact .inl ⟨_, _, rfl, rfl, h.adjust hij (Variable.keeps_value v)⟩

/-! ## Without a model -/

theorem clockVariables_global : ∀ v ∈ clockVariables.entries, v.scope = .global := by
  decide +kernel

theorem clockVariables_bare (program : ProgramId) (n : String) :
    clockVariables.find? (.local_ program) n = none := by
  rw [Store.find?_eq, Array.findIdx?_eq_none_iff]
  intro v hv
  rw [clockVariables_global v hv]
  rfl

/-- Nothing is left of programs where there are no locals. -/
theorem explained_of_bare {c : Controller}
    (h : ∀ (program : ProgramId) (n : String),
      c.machine.store.find? (.local_ program) n = none) : c.Explained :=
  fun program n hlocal => absurd (h program n) hlocal

theorem alike_ofSettings (settings : Settings) (stream : RandomStream) :
    Alike (ofSettings settings stream) (ofSettings settings stream) where
  store := .refl_of_bare clockVariables_bare fun h => h
  generator := rfl
  settings := rfl
  routines := rfl
  curves := rfl
  trends := .nil
  programs := rfl
  exchange := ⟨rfl, rfl, rfl, .nil, .nil, .nil⟩
  cells := rfl
  constructions := rfl
  schedule := rfl
  terminated := rfl
  problems := rfl
  explained := explained_of_bare clockVariables_bare

theorem forall₂_right {α β : Type} {R : α → β → Prop} {S : β → β → Prop} {xs : List α}
    {ys : List β} (h : List.Forall₂ R xs ys) (hRS : ∀ x y, R x y → S y y) :
    List.Forall₂ S ys ys := by
  induction h with
  | nil => exact .nil
  | cons hxy _ ih => exact .cons (hRS _ _ hxy) ih

/-- The controller that was not compiled in between is like itself. -/
theorem Alike.right (h : Alike a b) : Alike b b := by
  have hpair : ∀ {i j}, SameGlobal a b i j → SameGlobal b b j j :=
    fun ⟨n, _, hj⟩ => ⟨n, hj, hj⟩
  have htie : ∀ t t' : Tie, Tie.Alike (SameGlobal a b) t t' → Tie.Alike (SameGlobal b b) t' t' :=
    fun t t' ht => ⟨rfl, rfl, hpair ht.target⟩
  exact {
    store := .refl_of_bare h.store.bare fun hi => (h.store.clock hi).2
    generator := rfl
    settings := rfl
    routines := rfl
    curves := rfl
    trends := forall₂_right h.trends fun _ _ ht => ⟨rfl, rfl, hpair ht.source⟩
    programs := rfl
    exchange := ⟨rfl, rfl, rfl, forall₂_right h.exchange.actuators htie,
      forall₂_right h.exchange.sensors htie, forall₂_right h.exchange.internalVariables htie⟩
    cells := rfl
    constructions := rfl
    schedule := rfl
    terminated := rfl
    problems := rfl
    explained := explained_of_bare h.store.bare }

/-! ## Compiling in between -/

/-- Compiling adds locals that hold nothing yet, and no globals. -/
theorem Covered.alike {trends : Array Trend} {first : ProgramId} {list : List Program}
    {t t' u : Store} (hcovered : Covered trends first list t t') (h : t.Alike u) :
    t'.Alike u := by
  have hgrows := hcovered.kept.store
  refine ⟨fun n => ?_, fun {program n v} hv => ?_, h.bare, fun hi => ?_⟩
  · rw [← h.global n]
    cases hglobal : t.named? .global n with
    | some v => exact Store.named?_of_grows hgrows hglobal
    | none =>
      refine Store.named?_eq_none_iff.2 ?_
      by_contra hnew
      rcases hcovered.added .global n hnew with hold | ⟨k, p, -, hscope, -⟩
      · exact hold (Store.named?_eq_none_iff.1 hglobal)
      · cases hscope
  · obtain ⟨i, hi, hget⟩ := Option.bind_eq_some_iff.1 hv
    rcases hcovered.fresh i v hget with hold | hnew
    · -- the local was there before, and was found
      obtain ⟨v', hget', hscope, hname⟩ := Store.get?_of_find? hi
      obtain rfl := Option.some.inj (hget.symm.trans hget')
      have hsome := Store.find?_ne_none_of_get? hold hname
      rw [hscope] at hsome
      obtain ⟨i', hi'⟩ := Option.ne_none_iff_exists'.1 hsome
      obtain rfl := Option.some.inj ((Store.find?_of_grows hgrows hi').symm.trans hi)
      exact h.fresh ((Store.named?_of_find? hi').trans hold)
    · exact ⟨hnew.1, hnew.2.1⟩
  · obtain ⟨hleft, hright⟩ := h.clock hi
    exact ⟨Store.find?_of_grows hgrows hleft, hright⟩

/-- Compiling leaves each program its source. -/
theorem compile_source? (c : Controller) (id : ProgramId) :
    (c.compile.image.programs[id]?).map Program.source
      = (c.image.programs[id]?).map Program.source := by
  have hsame := congrArg (fun ps => (ps[id]?).map Program.source) c.compile_spec.2.1
  simp only [Array.getElem?_map, Option.map_map] at hsame
  exact hsame

theorem compile_program? (c : Controller) {id : ProgramId} {p : Program}
    (hp : c.image.programs[id]? = some p) :
    ∃ p', c.compile.image.programs[id]? = some p' ∧ p'.source = p.source := by
  have hsame := c.compile_source? id
  rw [hp] at hsame
  exact Option.map_eq_some_iff.1 hsame

/-- Locals that are left are explained by the sources, and so are those that are added. -/
theorem Explained.compile {c : Controller} (h : c.Explained) : c.compile.Explained := by
  have hcovered := c.compile_covered
  intro program n hlocal
  rcases hcovered.added _ n hlocal with hold | ⟨k, p, hp, hscope, hreach⟩
  · obtain ⟨p, hp, hreach⟩ := h program n hold
    obtain ⟨p', hp', hsource⟩ := c.compile_program? hp
    refine ⟨p', hp', hsource ▸ hreach.mono fun s hs => ?_⟩
    refine (hcovered.kept.assignable_iff ?_).2 hs
    obtain ⟨id, hid, -⟩ := hs
    exact fun hnone => Option.some_ne_none _ (hid.symm.trans hnone)
  · obtain rfl : program = 0 + k := Scope.local_.inj hscope
    rw [Nat.zero_add] at hreach ⊢
    obtain ⟨p', hp', hsource⟩ := c.compile_program? (Array.getElem?_toList ▸ hp)
    exact ⟨p', hp', hsource ▸ hreach⟩

/-- Only one of two controllers is compiled in between. -/
theorem Alike.compile (h : Alike a b) : Alike a.compile b := by
  have hcovered := a.compile_covered
  have hpair : ∀ {i j}, SameGlobal a b i j →
      Store.GlobalPair a.compile.machine.store b.machine.store i j :=
    fun ⟨n, hi, hj⟩ => ⟨n, Store.find?_of_grows hcovered.kept.store hi, hj⟩
  exact { h with
    store := hcovered.alike h.store
    trends := h.trends.imp fun _ _ ht => ⟨ht.name, ht.history, hpair ht.source⟩
    programs := a.compile_spec.2.1.trans h.programs
    exchange := h.exchange.mono hpair
    problems := by
      have hfound : a.found.filter (!·.isFoundByCompiling) = [] := by
        have hall : ∀ problem ∈ a.found, problem.isFoundByCompiling = true :=
          compilePrograms_problems rfl
        simpa using hall
      rw [problems_compile, List.filter_append, hfound, List.append_nil, List.filter_filter]
      simp only [Bool.and_self]
      exact h.problems
    explained := h.explained.compile }

end Controller

end Erl
