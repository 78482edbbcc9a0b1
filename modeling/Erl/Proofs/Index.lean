/-
  Erl.Proofs.Index

  Entries of a table by their keys.

  A table that takes an entry only under a new key has each entry under a key of its own.  A search
  for a key then finds the only entry that has it, and so does an index that is in step with the
  table.
-/

import Mathlib.Data.List.Basic
import Erl.Catalog

namespace Erl

variable {α κ : Type}

/-! ## Keys -/

/-- No two entries of a table have the same key. -/
def KeysDiffer (key : α → κ) (entries : Array α) : Prop :=
  ∀ (i j : Nat) (x y : α), entries[i]? = some x → entries[j]? = some y → key x = key y → i = j

namespace KeysDiffer

variable {key : α → κ} {entries : Array α}

theorem empty (key : α → κ) : KeysDiffer key #[] := by
  intro i j x y hx
  simp at hx

/-- An entry may be added under a key that no other has. -/
theorem push (h : KeysDiffer key entries) {x : α} (hnew : ∀ y ∈ entries, key y ≠ key x) :
    KeysDiffer key (entries.push x) := by
  have hother : ∀ (i : Nat) (y : α), entries[i]? = some y → key y ≠ key x :=
    fun i y hy => hnew y (Array.mem_of_getElem? hy)
  intro i j y z hy hz hkey
  rw [Array.getElem?_push] at hy hz
  split at hy
  · next hi =>
    cases hy
    split at hz
    · next hj => rw [hi, hj]
    · exact absurd hkey.symm (hother j z hz)
  · split at hz
    · cases hz
      exact absurd hkey (hother i y hy)
    · exact h i j y z hy hz hkey

/-- Only keys matter. -/
theorem of_keys (h : KeysDiffer key entries) {entries' : Array α}
    (hkeys : ∀ (i : Nat) (x : α), entries'[i]? = some x →
      ∃ y, entries[i]? = some y ∧ key y = key x) : KeysDiffer key entries' := by
  intro i j x y hx hy hkey
  obtain ⟨x', hx', hkeyx⟩ := hkeys i x hx
  obtain ⟨y', hy', hkeyy⟩ := hkeys j y hy
  exact h i j x' y' hx' hy' (by rw [hkeyx, hkeyy, hkey])

/-- A change that keeps the keys of entries does not matter. -/
theorem of_map (h : KeysDiffer key entries) {entries' : Array α} {f : α → α}
    (hf : ∀ x, key (f x) = key x) (heq : entries'.map f = entries.map f) :
    KeysDiffer key entries' := by
  refine h.of_keys fun i x hx => ?_
  have hfx : (entries.map f)[i]? = some (f x) := by
    rw [← heq, Array.getElem?_map, hx]
    rfl
  rw [Array.getElem?_map] at hfx
  obtain ⟨y, hy, hfy⟩ := Option.map_eq_some_iff.1 hfx
  exact ⟨y, hy, by rw [← hf y, hfy, hf]⟩

/-- A search for what entries with one key have finds the entry that has it. -/
theorem findIdx?_eq_some_iff (h : KeysDiffer key entries) {p : α → Bool}
    (hp : ∀ x y, p x = true → p y = true → key x = key y) {i : Nat} :
    entries.findIdx? p = some i ↔ ∃ x, entries[i]? = some x ∧ p x = true := by
  constructor
  · intro hfound
    obtain ⟨hlt, hx, -⟩ := Array.findIdx?_eq_some_iff_getElem.1 hfound
    exact ⟨_, Array.getElem?_eq_getElem hlt, hx⟩
  · rintro ⟨x, hx, hpx⟩
    cases hfound : entries.findIdx? p with
    | none =>
      have hnot := Array.findIdx?_eq_none_iff.1 hfound x (Array.mem_of_getElem? hx)
      rw [hpx] at hnot
      cases hnot
    | some j =>
      -- what was found first has the key as well
      obtain ⟨hlt, hy, -⟩ := Array.findIdx?_eq_some_iff_getElem.1 hfound
      have hsame := h j i _ x (Array.getElem?_eq_getElem hlt) hx (hp _ x hy hpx)
      rw [hsame]

/-- A look-up in an index finds the entry under a key and nothing else, if entries under one key of
    the index are under one key of the table. -/
theorem get?_ofEntries_eq_some_iff {ι : Type} [DecidableEq ι] {key? : α → Option ι}
    (h : KeysDiffer key entries)
    (hkey : ∀ (x y : α) (k : ι), key? x = some k → key? y = some k → key x = key y) {k : ι}
    {i : Nat} :
    (Index.ofEntries key? entries).get? k = some i
      ↔ ∃ x, entries[i]? = some x ∧ key? x = some k := by
  rw [Index.get?_ofEntries (p := fun a => decide (key? a = some k)) fun a => decide_eq_true_iff,
    h.findIdx?_eq_some_iff fun x y hx hy =>
      hkey x y k (of_decide_eq_true hx) (of_decide_eq_true hy)]
  simp only [decide_eq_true_eq]

end KeysDiffer

namespace Catalog

variable {key : α → κ}

theorem size_le_push (t : Catalog key) (a : α) : t.entries.size ≤ (t.push a).entries.size := by
  rw [entries_push, Array.size_push]
  exact Nat.le_succ _

variable [DecidableEq κ] {t : Catalog key}

/-- A catalog whose entries have keys of their own finds the entry with a key and nothing else. -/
theorem find?_eq_some_iff (h : KeysDiffer key t.entries) {k : κ} {i : Nat} :
    t.find? k = some i ↔ ∃ a, t.entries[i]? = some a ∧ key a = k := by
  rw [find?, t.inStep, h.get?_ofEntries_eq_some_iff fun x y k hx hy =>
    Option.some.inj (hx.trans hy.symm)]
  simp only [Option.some.injEq]

/-- The index of a catalog leads from each key to the entry under it, and nowhere else. -/
def IsIndexed (t : Catalog key) : Prop :=
  ∀ (k : κ) (i : Nat), t.index.get? k = some i ↔ ∃ a, t.entries[i]? = some a ∧ key a = k

theorem isIndexed (h : KeysDiffer key t.entries) : t.IsIndexed :=
  fun _ _ => find?_eq_some_iff h

theorem key_ne_of_find? {k : κ} (h : t.find? k = none) : ∀ a ∈ t.entries, key a ≠ k := by
  rw [t.find?_eq_findIdx?] at h
  intro a ha
  exact of_decide_eq_false (Array.findIdx?_eq_none_iff.1 h a ha)

/-- An entry under a new key is found at the end. -/
theorem find?_push_of_none {a : α} (h : t.find? (key a) = none) :
    (t.push a).find? (key a) = some t.entries.size := by
  rw [t.find?_eq_findIdx?] at h
  rw [(t.push a).find?_eq_findIdx?, entries_push, Array.findIdx?_push, h]
  simp

/-- An entry that was offered, or that with its key, is found where it was told to be. -/
theorem find?_enter (t : Catalog key) (a : α) :
    (t.enter a).2.find? (key a) = some (t.enter a).1 := by
  rcases t.enter_cases a with ⟨i, hi, hfound⟩ | ⟨hnone, hnew⟩
  · rw [hfound]
    exact hi
  · rw [hnew]
    exact find?_push_of_none hnone

end Catalog

end Erl
