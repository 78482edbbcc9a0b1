/-
  Erl.Catalog

  Entries in the order in which they were taken, and where to find them by key.

  An index maps keys to positions.  A catalog puts the position of an entry down in its index when
  it takes the entry, which it does only under a key that is not there yet.  Nothing else writes to
  the index, and yet it stays in step with the entries: it is the index that the keys of the
  entries make, and a look-up in it finds what a search of the entries finds.
-/

namespace Erl

/-! ## Indexes -/

/-- Positions by key. -/
structure Index (κ : Type) where
  pairs : List (κ × Nat)
  deriving Repr, DecidableEq

namespace Index

variable {α κ : Type}

/-- No positions. -/
def empty : Index κ := ⟨[]⟩

/-- The index of a list of keys: each stands for its position, if it is there. -/
def ofKeys (keys : List (Option κ)) : Index κ :=
  ⟨keys.zipIdx.filterMap fun p => p.1.map fun k => (k, p.2)⟩

/-- The index of entries under those keys that they have. -/
def ofEntries (key? : α → Option κ) (entries : Array α) : Index κ :=
  ofKeys (entries.toList.map key?)

variable {key? : α → Option κ} {entries : Array α}

/-- An entry without a key is not put down. -/
theorem ofEntries_push_of_none {x : α} (hx : key? x = none) :
    ofEntries key? (entries.push x) = ofEntries key? entries := by
  simp [ofEntries, ofKeys, List.zipIdx_append, hx]

/-- Only keys matter. -/
theorem ofEntries_congr {entries' : Array α} (h : entries'.map key? = entries.map key?) :
    ofEntries key? entries' = ofEntries key? entries := by
  rw [ofEntries, ofEntries, ← Array.toList_map, ← Array.toList_map, h]

variable [DecidableEq κ]

/-- The position of a key. -/
def get? (x : Index κ) (k : κ) : Option Nat :=
  x.pairs.lookup k

/-- Puts a position down in the place of the one that a key has, or else at the end. -/
def put (k : κ) (i : Nat) : List (κ × Nat) → List (κ × Nat)
  | [] => [(k, i)]
  | p :: rest => if k = p.1 then (k, i) :: rest else p :: put k i rest

/-- The index with a position for a key. -/
def insert (x : Index κ) (k : κ) (i : Nat) : Index κ :=
  ⟨put k i x.pairs⟩

theorem put_of_lookup_none {pairs : List (κ × Nat)} {k : κ} (h : pairs.lookup k = none) (i : Nat) :
    put k i pairs = pairs ++ [(k, i)] := by
  induction pairs with
  | nil => rfl
  | cons p rest ih =>
    rw [List.lookup_cons] at h
    rw [put]
    by_cases hkey : k = p.1
    · simp [hkey] at h
    · rw [beq_false_of_ne hkey] at h
      rw [if_neg hkey, ih h, List.cons_append]

theorem lookup_put (k k' : κ) (i : Nat) (pairs : List (κ × Nat)) :
    (put k i pairs).lookup k' = if k' = k then some i else pairs.lookup k' := by
  induction pairs with
  | nil =>
    by_cases hk : k' = k <;> simp [put, hk]
  | cons p rest ih =>
    rw [put]
    by_cases hkey : k = p.1
    · rw [if_pos hkey, List.lookup_cons, List.lookup_cons, ← hkey]
      by_cases hk : k' = k
      · simp [hk]
      · rw [if_neg hk, beq_false_of_ne hk]
    · rw [if_neg hkey, List.lookup_cons, List.lookup_cons, ih]
      by_cases hk : k' = k
      · have hp : k' ≠ p.1 := fun hp => hkey (hk.symm.trans hp)
        rw [if_pos hk, if_pos hk, beq_false_of_ne hp]
      · rw [if_neg hk, if_neg hk]

/-- A key has the position that was put down for it, and other keys keep theirs. -/
theorem get?_insert (x : Index κ) (k k' : κ) (i : Nat) :
    (x.insert k i).get? k' = if k' = k then some i else x.get? k' :=
  lookup_put k k' i x.pairs

/-- An entry under a new key is put down with its position. -/
theorem insert_size {x : α} {k : κ} (hx : key? x = some k)
    (hnew : (ofEntries key? entries).get? k = none) :
    (ofEntries key? entries).insert k entries.size = ofEntries key? (entries.push x) := by
  rw [insert, put_of_lookup_none hnew]
  simp [ofEntries, ofKeys, List.zipIdx_append, hx]

/-- A look-up finds what a search for the key finds. -/
theorem get?_ofEntries {k : κ} {p : α → Bool} (hp : ∀ a, p a = true ↔ key? a = some k) :
    (ofEntries key? entries).get? k = entries.findIdx? p := by
  obtain ⟨entries⟩ := entries
  -- the positions may start anywhere
  have hfrom : ∀ start, (((entries.map key?).zipIdx start).filterMap
      fun p => p.1.map fun k => (k, p.2)).lookup k = (entries.findIdx? p).map (· + start) := by
    induction entries with
    | nil =>
      intro start
      rfl
    | cons a rest ih =>
      intro start
      rw [List.map_cons, List.zipIdx_cons, List.findIdx?_cons]
      by_cases ha : key? a = some k
      · simp [(hp a).2 ha, ha]
      · have hnot : p a = false := Bool.eq_false_iff.2 fun h => ha ((hp a).1 h)
        have hrest : (rest.findIdx? p).map (· + (start + 1))
            = ((rest.findIdx? p).map (· + 1)).map (· + start) := by
          rw [Option.map_map]
          congr 1
          funext i
          exact Nat.add_right_comm i start 1
        rw [hnot, if_neg Bool.false_ne_true, ← hrest, ← ih (start + 1)]
        cases hkey : key? a with
        | none => rfl
        | some k' =>
          have hne : k ≠ k' := fun h => ha (hkey.trans (congrArg some h.symm))
          simp only [List.filterMap_cons, Option.map_some, List.lookup_cons, beq_false_of_ne hne]
  have hall := hfrom 0
  simpa [ofEntries, ofKeys, get?] using hall

end Index

/-- A change that keeps a property of all entries keeps it in an array. -/
theorem map_modify_eq {α β : Type} {f : α → α} {g : α → β} (h : ∀ a, g (f a) = g a)
    (entries : Array α) (i : Nat) : (entries.modify i f).map g = entries.map g := by
  apply Array.ext_getElem?
  intro j
  rw [Array.getElem?_map, Array.getElem?_map, Array.getElem?_modify]
  split
  · rw [Option.map_map]
    congr 1
    funext a
    exact h a
  · rfl

/-! ## Catalogs -/

/-- Entries under their keys. -/
structure Catalog {α κ : Type} (key : α → κ) where
  entries : Array α
  index : Index κ
  inStep : index = .ofEntries (fun a => some (key a)) entries

namespace Catalog

variable {α κ : Type} {key : α → κ}

/-- The catalog of some entries. -/
def ofEntries (entries : Array α) : Catalog key :=
  ⟨entries, .ofEntries (fun a => some (key a)) entries, rfl⟩

/-- The catalog with one more entry. -/
def push (t : Catalog key) (a : α) : Catalog key :=
  .ofEntries (t.entries.push a)

/-- Catalogs with the same entries are the same. -/
theorem ext_entries {t t' : Catalog key} (h : t.entries = t'.entries) : t = t' := by
  obtain ⟨entries, index, rfl⟩ := t
  obtain ⟨entries', index', rfl⟩ := t'
  obtain rfl : entries = entries' := h
  rfl

instance [DecidableEq α] : DecidableEq (Catalog key) := fun t t' =>
  decidable_of_iff (t.entries = t'.entries) ⟨ext_entries, fun h => h ▸ rfl⟩

instance [Repr α] : Repr (Catalog key) :=
  ⟨fun t => reprPrec t.entries⟩

/-- A catalog without entries. -/
def empty : Catalog key := ⟨#[], .empty, rfl⟩

/-- The catalog with other entries under the same keys. -/
def update (t : Catalog key) (entries : Array α) (h : entries.map key = t.entries.map key) :
    Catalog key where
  entries
  index := t.index
  inStep := by
    have hkeys : entries.map (some ∘ key) = t.entries.map (some ∘ key) := by
      rw [← Array.map_map, ← Array.map_map, h]
    exact t.inStep.trans (Index.ofEntries_congr hkeys).symm

/-- The catalog with each entry changed, but not its key. -/
def map (t : Catalog key) (f : α → α) (hf : ∀ a, key (f a) = key a) : Catalog key :=
  t.update (t.entries.map f) <| by
    rw [Array.map_map]
    congr 1
    funext a
    exact hf a

/-- The catalog with an entry changed, but not its key. -/
def modify (t : Catalog key) (i : Nat) (f : α → α) (hf : ∀ a, key (f a) = key a) : Catalog key :=
  t.update (t.entries.modify i f) (map_modify_eq hf t.entries i)

@[simp] theorem entries_push (t : Catalog key) (a : α) : (t.push a).entries = t.entries.push a :=
  rfl

theorem update_eq (t : Catalog key) (entries : Array α)
    (h : entries.map key = t.entries.map key) : t.update entries h = .ofEntries entries :=
  ext_entries rfl

variable [DecidableEq κ]

/-- The position of the entry with a key. -/
def find? (t : Catalog key) (k : κ) : Option Nat :=
  t.index.get? k

/-- Takes an entry and tells its position, unless an entry with its key is there: then that one is
    told. -/
def enter (t : Catalog key) (a : α) : Nat × Catalog key :=
  match h : t.find? (key a) with
  | some existing => (existing, t)
  | none =>
    (t.entries.size, {
      entries := t.entries.push a
      index := t.index.insert (key a) t.entries.size
      inStep := by
        have hnew := h
        rw [find?, t.inStep] at hnew
        rw [t.inStep]
        exact Index.insert_size rfl hnew })

/-- A look-up finds what a search of the entries finds. -/
theorem find?_eq (t : Catalog key) {k : κ} {p : α → Bool} (hp : ∀ a, p a = true ↔ key a = k) :
    t.find? k = t.entries.findIdx? p := by
  rw [find?, t.inStep]
  exact Index.get?_ofEntries fun a => by rw [hp, Option.some.injEq]

theorem find?_eq_findIdx? (t : Catalog key) (k : κ) :
    t.find? k = t.entries.findIdx? fun a => decide (key a = k) :=
  t.find?_eq fun _ => decide_eq_true_iff

/-- What is found is there, under the key. -/
theorem exists_of_find? {t : Catalog key} {k : κ} {i : Nat} (h : t.find? k = some i) :
    ∃ a, t.entries[i]? = some a ∧ key a = k := by
  rw [t.find?_eq_findIdx?] at h
  obtain ⟨hlt, hkey, -⟩ := Array.findIdx?_eq_some_iff_getElem.1 h
  exact ⟨_, Array.getElem?_eq_getElem hlt, of_decide_eq_true hkey⟩

theorem lt_size_of_find? {t : Catalog key} {k : κ} {i : Nat} (h : t.find? k = some i) :
    i < t.entries.size := by
  obtain ⟨a, ha, -⟩ := exists_of_find? h
  exact (Array.getElem?_eq_some_iff.1 ha).1

theorem enter_of_some (t : Catalog key) (a : α) {i : Nat} (h : t.find? (key a) = some i) :
    t.enter a = (i, t) := by
  unfold enter
  split
  · next existing hfound =>
    cases h.symm.trans hfound
    rfl
  · next hnone => cases h.symm.trans hnone

theorem enter_of_none (t : Catalog key) (a : α) (h : t.find? (key a) = none) :
    t.enter a = (t.entries.size, t.push a) := by
  unfold enter
  split
  · next existing hfound => cases h.symm.trans hfound
  · exact Prod.ext rfl (ext_entries rfl)

/-- An entry is found under its key, or it is taken. -/
theorem enter_cases (t : Catalog key) (a : α) :
    (∃ i, t.find? (key a) = some i ∧ t.enter a = (i, t))
      ∨ t.find? (key a) = none ∧ t.enter a = (t.entries.size, t.push a) := by
  cases hfound : t.find? (key a) with
  | some i => exact .inl ⟨i, rfl, t.enter_of_some a hfound⟩
  | none => exact .inr ⟨rfl, t.enter_of_none a hfound⟩

end Catalog

end Erl
