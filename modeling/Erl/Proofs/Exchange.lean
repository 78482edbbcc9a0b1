/-
  Erl.Proofs.Exchange

  What the exchange with a host does.

  Reading copies each source into its variable and touches nothing else.  Writing hands one
  number to the host for each actuator whose variable holds one, and flags the points of
  actuators; no two actuators use the same point, so no delivery undoes another.
-/

import Mathlib.Data.List.Basic
import Erl.Exchange
import Erl.Proofs.Store

namespace Erl

/-! ## Reading -/

namespace Exchange

section Reading

variable (cells : Cells) (sources : Array SourcePoint)

theorem readTie_origin? (t : Store) (tie : Tie) (id : VariableId) :
    (readTie cells sources t tie).origin? id = t.origin? id := by
  unfold readTie
  split
  · exact Store.origin?_set _ _ _ _
  · rfl

theorem readTie_size (t : Store) (tie : Tie) : (readTie cells sources t tie).size = t.size := by
  unfold readTie
  split
  · exact Store.size_set _ _ _
  · rfl

theorem readTie_get? {t : Store} {tie : Tie} {id : VariableId} (h : tie.target ≠ id) :
    (readTie cells sources t tie).get? id = t.get? id := by
  unfold readTie
  split
  · exact Store.get?_set_of_ne _ h _
  · rfl

/-- Variables that no tie leads to stay as they are. -/
theorem get?_foldl_readTie {ties : List Tie} {id : VariableId}
    (h : ∀ tie ∈ ties, tie.target ≠ id) (t : Store) :
    (ties.foldl (readTie cells sources) t).get? id = t.get? id := by
  induction ties generalizing t with
  | nil => rfl
  | cons tie rest ih =>
    rw [List.foldl_cons, ih fun other hother => h other (List.mem_cons_of_mem tie hother)]
    exact readTie_get? cells sources (h tie List.mem_cons_self)

/-- If ties lead to different variables, each variable gets the number of its source. -/
theorem value_foldl_readTie {ties : List Tie} (hnodup : (ties.map Tie.target).Nodup) {tie : Tie}
    (hmem : tie ∈ ties) {p : SourcePoint} (hp : sources[tie.available]? = some p) {t : Store}
    (hlt : tie.target < t.size) :
    (ties.foldl (readTie cells sources) t).value tie.target = .number (cells.read p.cell) := by
  induction ties generalizing t with
  | nil => cases hmem
  | cons first rest ih =>
    rw [List.map_cons, List.nodup_cons] at hnodup
    obtain ⟨hfirst, hrest⟩ := hnodup
    rw [List.foldl_cons]
    rcases List.mem_cons.1 hmem with rfl | hmem
    · -- the ties after it lead to other variables
      have hothers : ∀ other ∈ rest, other.target ≠ tie.target :=
        fun other hother heq => hfirst (heq ▸ List.mem_map_of_mem hother)
      rw [Store.value_eq, get?_foldl_readTie cells sources hothers, ← Store.value_eq]
      simp only [readTie, hp, Store.value_set]
      rw [if_pos ⟨trivial, hlt⟩]
    · exact ih hrest hmem (by rwa [readTie_size])

end Reading

/-- Reading the sources keeps the origins of all variables. -/
theorem refresh_origin? (b : Exchange) (cells : Cells) (t : Store) (id : VariableId) :
    (b.refresh cells t).origin? id = t.origin? id := by
  unfold refresh
  rw [← Array.foldl_toList, ← Array.foldl_toList,
    Store.origin?_foldl_set _ (readTie_origin? cells b.internals),
    Store.origin?_foldl_set _ (readTie_origin? cells b.outputs)]

/-- Reading the sources keeps all variables that no tie leads to. -/
theorem refresh_get? {b : Exchange} (cells : Cells) (t : Store) {id : VariableId}
    (hsensors : ∀ tie ∈ b.sensors, tie.target ≠ id)
    (hinternals : ∀ tie ∈ b.internalVariables, tie.target ≠ id) :
    (b.refresh cells t).get? id = t.get? id := by
  unfold refresh
  rw [← Array.foldl_toList, ← Array.foldl_toList,
    get?_foldl_readTie _ _ fun tie htie => hinternals tie (Array.mem_toList_iff.1 htie),
    get?_foldl_readTie _ _ fun tie htie => hsensors tie (Array.mem_toList_iff.1 htie)]

/-- The sources are read in full or not at all. -/
theorem refresh?_eq_some {b : Exchange} {cells : Cells} {t t' : Store}
    (h : b.refresh? cells t = some t') : t' = b.refresh cells t := by
  unfold refresh? at h
  split at h
  · exact (Option.some.inj h).symm
  · cases h

end Exchange

/-! ## Writing -/

/-- A number that a host gets for the controlled point at a position. -/
structure Delivery where
  available : Nat
  point : ControlPoint
  value : Float
  deriving Repr, DecidableEq

/-- What a host makes of a delivery. -/
def Delivery.take {H : Type} (write : Exchange.Writer H) (host : H) (d : Delivery) : H :=
  write d.available d.point d.value host

/-- A point after the value of its variable was carried out: a number is put in force, null
    takes it out of force, and anything else changes nothing. -/
def ControlPoint.flagged (v : Value) (p : ControlPoint) : ControlPoint :=
  match v with
  | .number _ => { p with overridden := true }
  | .null => { p with overridden := false }
  | _ => p

namespace Exchange

/-- What the host gets for an actuator: a number, as the storage of the point would hold it. -/
def delivery? (b : Exchange) (t : Store) (tie : Tie) : Option Delivery :=
  match t.value tie.target with
  | .number x =>
    (b.points[tie.available]?).map fun p => ⟨tie.available, p, p.storage.coerce x⟩
  | _ => none

/-- What the host gets for actuators, in their order. -/
def deliveries (b : Exchange) (t : Store) (ties : List Tie) : List Delivery :=
  ties.filterMap (b.delivery? t)

theorem deliveries_cons (b : Exchange) (t : Store) (tie : Tie) (rest : List Tie) :
    b.deliveries t (tie :: rest) = (b.delivery? t tie).toList ++ b.deliveries t rest := by
  unfold deliveries
  cases hd : b.delivery? t tie <;> simp [hd]

section Writing

variable {H : Type} (write : Writer H) (t : Store)

/-- A command changes controlled points only, and adds none. -/
theorem performOn_eq (b : Exchange) (host : H) (c : Command) :
    ∃ pointCatalog : Catalog ControlPoint.foldedKey, pointCatalog.entries.size = b.points.size
      ∧ (performOn write (b, host) c).1 = { b with pointCatalog } := by
  cases c with
  | write available x =>
    unfold performOn
    dsimp only
    split
    · exact ⟨_, Array.size_modify, rfl⟩
    · exact ⟨_, rfl, rfl⟩
  | release available => exact ⟨_, Array.size_modify, rfl⟩
  | refuse actuator v => exact ⟨_, rfl, rfl⟩

theorem points_setOverride (b : Exchange) (available k : Nat) (on : Bool) :
    (b.setOverride available on).points[k]?
      = if available = k then (b.points[k]?).map fun p => { p with overridden := on }
        else b.points[k]? :=
  Array.getElem?_modify

/-- The command of an actuator flags its point and no other. -/
theorem points_performOn (b : Exchange) (host : H) (tie : Tie) (k : Nat) :
    (performOn write (b, host) (command t tie)).1.points[k]?
      = if tie.available = k then (b.points[k]?).map (ControlPoint.flagged (t.value tie.target))
        else b.points[k]? := by
  unfold command performOn
  cases t.value tie.target with
  | number x =>
    dsimp only
    cases hp : b.points[tie.available]? with
    | some p => exact points_setOverride b tie.available k true
    | none =>
      show b.points[k]? = _
      by_cases heq : tie.available = k
      · rw [if_pos heq, ← heq, hp]
        rfl
      · rw [if_neg heq]
  | null => exact points_setOverride b tie.available k false
  | _ =>
    show b.points[k]? = if tie.available = k then (b.points[k]?).map id else b.points[k]?
    simp

/-- The command of an actuator hands its delivery to the host, if there is one. -/
theorem host_performOn (b : Exchange) (host : H) (tie : Tie) :
    (performOn write (b, host) (command t tie)).2
      = (b.delivery? t tie).toList.foldl (Delivery.take write) host := by
  unfold command performOn delivery?
  cases t.value tie.target with
  | number x =>
    dsimp only
    cases b.points[tie.available]? <;> rfl
  | _ => rfl

theorem performAllOn_cons (b : Exchange) (host : H) (c : Command) (cs : List Command) :
    b.performAllOn write host (c :: cs)
      = (performOn write (b, host) c).1.performAllOn write (performOn write (b, host) c).2 cs :=
  rfl

/-- Commands change controlled points only, and add none. -/
theorem performAllOn_eq (b : Exchange) (host : H) (cs : List Command) :
    ∃ pointCatalog : Catalog ControlPoint.foldedKey, pointCatalog.entries.size = b.points.size
      ∧ (b.performAllOn write host cs).1 = { b with pointCatalog } := by
  induction cs generalizing b host with
  | nil => exact ⟨_, rfl, rfl⟩
  | cons c rest ih =>
    obtain ⟨pointCatalog, hsize, hfirst⟩ := performOn_eq write b host c
    obtain ⟨after, hsize', hrest⟩ := ih { b with pointCatalog } (performOn write (b, host) c).2
    refine ⟨after, hsize'.trans hsize, ?_⟩
    rw [performAllOn_cons, hfirst, hrest]

/-- What becomes of the controlled points does not depend on the host. -/
theorem fst_performAllOn {H' : Type} (write' : Writer H') (b : Exchange) (host : H) (host' : H')
    (cs : List Command) :
    (b.performAllOn write host cs).1 = (b.performAllOn write' host' cs).1 := by
  induction cs generalizing b host host' with
  | nil => rfl
  | cons c rest ih =>
    have hfirst : (performOn write (b, host) c).1 = (performOn write' (b, host') c).1 := by
      cases c with
      | write available x =>
        unfold performOn
        dsimp only
        split <;> rfl
      | release available => rfl
      | refuse actuator v => rfl
    rw [performAllOn_cons, performAllOn_cons, hfirst]
    exact ih _ _ _

variable {ties : List Tie}

/-- A point that no actuator uses stays as it is. -/
theorem points_performAllOn_of_unused (b : Exchange) (host : H) {k : Nat}
    (h : ∀ tie ∈ ties, tie.available ≠ k) :
    (b.performAllOn write host (ties.map (command t))).1.points[k]? = b.points[k]? := by
  induction ties generalizing b host with
  | nil => rfl
  | cons tie rest ih =>
    rw [List.map_cons, performAllOn_cons,
      ih _ _ fun other hother => h other (List.mem_cons_of_mem tie hother), points_performOn,
      if_neg (h tie List.mem_cons_self)]

/-- The actuators after the first use other points. -/
theorem available_ne_of_nodup {tie : Tie} {rest : List Tie}
    (h : ((tie :: rest).map Tie.available).Nodup) :
    ∀ other ∈ rest, other.available ≠ tie.available := by
  rw [List.map_cons, List.nodup_cons] at h
  exact fun other hother heq => h.1 (heq ▸ List.mem_map_of_mem hother)

/-- The point of an actuator is flagged as the value of its variable asks for. -/
theorem points_performAllOn_of_used (hnodup : (ties.map Tie.available).Nodup) {tie : Tie}
    (hmem : tie ∈ ties) (b : Exchange) (host : H) :
    (b.performAllOn write host (ties.map (command t))).1.points[tie.available]?
      = (b.points[tie.available]?).map (ControlPoint.flagged (t.value tie.target)) := by
  induction ties generalizing b host with
  | nil => cases hmem
  | cons first rest ih =>
    have hothers := available_ne_of_nodup hnodup
    rw [List.map_cons, performAllOn_cons]
    rcases List.mem_cons.1 hmem with rfl | hmem
    · rw [points_performAllOn_of_unused _ _ _ _ hothers, points_performOn, if_pos rfl]
    · rw [ih (List.nodup_cons.1 hnodup).2 hmem, points_performOn,
        if_neg (hothers tie hmem).symm]

/-- The host gets all deliveries and nothing else. -/
theorem host_performAllOn (hnodup : (ties.map Tie.available).Nodup) (b : Exchange) (host : H) :
    (b.performAllOn write host (ties.map (command t))).2
      = (b.deliveries t ties).foldl (Delivery.take write) host := by
  induction ties generalizing b host with
  | nil => rfl
  | cons tie rest ih =>
    -- the first command leaves the points of the others as they are
    have hsame : (performOn write (b, host) (command t tie)).1.deliveries t rest
        = b.deliveries t rest := by
      refine List.filterMap_congr fun other hother => ?_
      have hne := available_ne_of_nodup hnodup other hother
      unfold delivery?
      rw [points_performOn, if_neg hne.symm]
    rw [List.map_cons, performAllOn_cons, ih (List.nodup_cons.1 hnodup).2, hsame, host_performOn,
      ← List.foldl_append, deliveries_cons]

end Writing

/-- A delivery for an actuator is for its point. -/
theorem available_of_delivery? {b : Exchange} {t : Store} {tie : Tie} {d : Delivery}
    (h : b.delivery? t tie = some d) : d.available = tie.available := by
  unfold delivery? at h
  split at h
  · obtain ⟨p, -, rfl⟩ := Option.map_eq_some_iff.1 h
    rfl
  · cases h

theorem filter_deliveries_of_unused (b : Exchange) (t : Store) {ties : List Tie} {k : Nat}
    (h : ∀ tie ∈ ties, tie.available ≠ k) :
    (b.deliveries t ties).filter (fun d => d.available = k) = [] := by
  rw [List.filter_eq_nil_iff]
  intro d hd
  obtain ⟨tie, htie, hdelivery⟩ := List.mem_filterMap.1 hd
  simpa [available_of_delivery? hdelivery] using h tie htie

/-- The point of an actuator gets at most one number, which is that of its variable. -/
theorem filter_deliveries_of_used (b : Exchange) (t : Store) {ties : List Tie}
    (hnodup : (ties.map Tie.available).Nodup) {tie : Tie} (hmem : tie ∈ ties) :
    (b.deliveries t ties).filter (fun d => d.available = tie.available)
      = (b.delivery? t tie).toList := by
  induction ties with
  | nil => cases hmem
  | cons first rest ih =>
    have hothers := available_ne_of_nodup hnodup
    rw [deliveries_cons, List.filter_append]
    rcases List.mem_cons.1 hmem with rfl | hmem
    · rw [filter_deliveries_of_unused b t hothers, List.append_nil, List.filter_eq_self]
      intro d hd
      simpa using available_of_delivery? (Option.mem_toList.1 hd)
    · rw [ih (List.nodup_cons.1 hnodup).2 hmem]
      have hnone : ((b.delivery? t first).toList).filter
          (fun d => d.available = tie.available) = [] := by
        rw [List.filter_eq_nil_iff]
        intro d hd
        have havailable := available_of_delivery? (Option.mem_toList.1 hd)
        simpa [havailable] using (hothers tie hmem).symm
      rw [hnone, List.nil_append]

end Exchange

end Erl
