/-
  Erl.Proofs.Controller.Lookup

  What the catalogs take for the same names.

  The names of an entry are compared through one key, in which a separator stands between them.  A
  key tells its names apart as long as one of two entries has no separator within a name.  If both
  have one, the key no longer shows where the names end: entries whose names fall into the same
  pieces are then taken for one entry, although the names differ.

  So the catalogs find the entry that was published first under the names that are asked for, or
  under names that are mistaken for them, and the points that are published under such names share
  one flag.
-/

import Erl.Proofs.Controller.Catalogs
import Erl.Proofs.Text.Line

namespace Erl

/-! ## Names and pieces -/

/-- Names as the catalogs compare them, without the blanks around them and in upper case. -/
def foldedNames (names : List String) : List String :=
  names.map fun name => Text.fold (Text.trimmed name)

/-- What stands between the separators of a key, those within its names included. -/
def keyPieces (names : List String) : List (List Char) :=
  (foldedNames names).flatMap fun name => name.toList.splitOn '\x1f'

/-- Names that agree one by one. -/
def NamesAgree (names names' : List String) : Prop :=
  foldedNames names = foldedNames names'

instance (names names' : List String) : Decidable (NamesAgree names names') :=
  inferInstanceAs (Decidable (foldedNames names = foldedNames names'))

/-- Names that differ and fall into the same pieces: on both sides a name has a separator in it,
    which is taken for the end of the name. -/
structure NamesBlur (names names' : List String) : Prop where
  differ : ¬ NamesAgree names names'
  left : ∃ name ∈ names, '\x1f' ∈ name.toList
  right : ∃ name ∈ names', '\x1f' ∈ name.toList
  pieces : keyPieces names = keyPieces names'

/-- Names that are taken for the same: they agree, or they are mistaken for one another. -/
def NamesMatch (names names' : List String) : Prop :=
  NamesAgree names names' ∨ NamesBlur names names'

theorem keyPieces_cons (name : String) (rest : List String) :
    keyPieces (name :: rest)
      = (Text.fold (Text.trimmed name)).toList.splitOn '\x1f' ++ keyPieces rest :=
  List.flatMap_cons

/-- A key is cut into its pieces at the separators. -/
theorem splitOn_foldedKey {names : List String} (h : names ≠ []) :
    (foldedKey names).toList.splitOn '\x1f' = keyPieces names := by
  have hseparator : "\x1f".toList = ['\x1f'] := rfl
  rw [foldedKey, String.toList_intercalate, hseparator]
  induction names with
  | nil => exact absurd rfl h
  | cons name rest ih =>
    cases rest with
    | nil => simp [keyPieces, foldedNames]
    | cons next rest =>
      have hrest := ih (List.cons_ne_nil next rest)
      simp only [List.map_cons, List.intercalate_cons_cons, List.append_assoc,
        List.singleton_append] at hrest ⊢
      rw [List.splitOn_append_cons_self, hrest, keyPieces_cons name]

/-- Two keys are the same exactly if they have the same pieces. -/
theorem foldedKey_eq_iff_keyPieces {names names' : List String} (h : names ≠ [])
    (h' : names' ≠ []) : foldedKey names = foldedKey names' ↔ keyPieces names = keyPieces names' := by
  rw [← splitOn_foldedKey h, ← splitOn_foldedKey h']
  constructor
  · intro hkey
    rw [hkey]
  · intro hpieces
    -- put together again, the pieces are the key
    have hjoined := congrArg (List.intercalate ['\x1f']) hpieces
    rw [List.intercalate_splitOn, List.intercalate_splitOn] at hjoined
    exact String.toList_injective hjoined

/-- Blanks and letter case aside, a name has the separators that it is written with. -/
theorem separator_of_folded {name : String}
    (h : '\x1f' ∈ (Text.fold (Text.trimmed name)).toList) : '\x1f' ∈ name.toList := by
  have hlow : '\x1f'.val.toNat < 65 := by decide
  have hcontains := Text.contains_map_toUpper hlow (Text.trimmed name).toList
  rw [Text.toList_fold, ← List.contains_iff_mem, hcontains, List.contains_iff_mem, Text.trimmed,
    String.toList_ofList] at h
  exact Text.mem_of_mem_trim h

/-- Names without separators are their own pieces. -/
theorem keyPieces_of_no_separator {names : List String} (h : ∀ name ∈ names, '\x1f' ∉ name.toList) :
    keyPieces names = (foldedNames names).map String.toList := by
  induction names with
  | nil => rfl
  | cons name rest ih =>
    have hname : '\x1f' ∉ (Text.fold (Text.trimmed name)).toList := fun hmem =>
      h name List.mem_cons_self (separator_of_folded hmem)
    rw [keyPieces_cons, List.splitOn_eq_singleton hname,
      ih fun other hother => h other (List.mem_cons_of_mem name hother)]
    rfl

/-- There is a piece for each name. -/
theorem length_le_keyPieces (names : List String) : names.length ≤ (keyPieces names).length := by
  induction names with
  | nil => exact Nat.le_refl 0
  | cons name rest ih =>
    have hpos := List.length_pos_iff.2
      (List.splitOn_ne_nil '\x1f' (Text.fold (Text.trimmed name)).toList)
    rw [keyPieces_cons, List.length_append, List.length_cons]
    omega

/-- If there are no more pieces than names, the pieces are the names. -/
theorem keyPieces_of_length_le {names : List String} (h : (keyPieces names).length ≤ names.length) :
    keyPieces names = (foldedNames names).map String.toList := by
  induction names with
  | nil => rfl
  | cons name rest ih =>
    have hrest := length_le_keyPieces rest
    rw [keyPieces_cons, List.length_append, List.length_cons] at h
    have hpos := List.length_pos_iff.2
      (List.splitOn_ne_nil '\x1f' (Text.fold (Text.trimmed name)).toList)
    -- nothing is left for a second piece of the first name
    obtain ⟨piece, hpiece⟩ := List.length_eq_one_iff.1
      (show ((Text.fold (Text.trimmed name)).toList.splitOn '\x1f').length = 1 by omega)
    have hself : piece = (Text.fold (Text.trimmed name)).toList := by
      have hjoined := congrArg (List.intercalate ['\x1f']) hpiece
      rw [List.intercalate_splitOn, List.intercalate_singleton] at hjoined
      exact hjoined.symm
    rw [keyPieces_cons, hpiece, hself, ih (by omega)]
    rfl

/-- Names without separators agree with all names, as many, that fall into the same pieces. -/
theorem namesAgree_of_keyPieces {names names' : List String} (hlength : names.length = names'.length)
    (hplain : ∀ name ∈ names, '\x1f' ∉ name.toList) (hpieces : keyPieces names = keyPieces names') :
    NamesAgree names names' := by
  have hplain := keyPieces_of_no_separator hplain
  have hcount : (keyPieces names').length ≤ names'.length := by
    rw [← hpieces, hplain, List.length_map, foldedNames, List.length_map, hlength]
  have hsame : (foldedNames names).map String.toList = (foldedNames names').map String.toList := by
    rw [← hplain, hpieces, keyPieces_of_length_le hcount]
  exact List.map_injective_iff.2 (fun _ _ => String.toList_injective) hsame

/-- As many names have the same key exactly if they are taken for the same. -/
theorem foldedKey_eq_iff {names names' : List String} (hlength : names.length = names'.length)
    (hsome : names ≠ []) : foldedKey names = foldedKey names' ↔ NamesMatch names names' := by
  have hsome' : names' ≠ [] := by
    rintro rfl
    exact hsome (List.eq_nil_of_length_eq_zero hlength)
  rw [foldedKey_eq_iff_keyPieces hsome hsome']
  constructor
  · intro hpieces
    by_cases hagree : NamesAgree names names'
    · exact .inl hagree
    refine .inr ⟨hagree, ?_, ?_, hpieces⟩
    · by_contra hnone
      push Not at hnone
      exact hagree (namesAgree_of_keyPieces hlength hnone hpieces)
    · by_contra hnone
      push Not at hnone
      exact hagree (namesAgree_of_keyPieces hlength.symm hnone hpieces.symm).symm
  · rintro (hagree | hblur)
    · rw [keyPieces, keyPieces, hagree]
    · exact hblur.pieces

/-! ## Publications -/

/-- The names of a controlled point. -/
def ControlPoint.names (p : ControlPoint) : List String :=
  [p.componentType, p.uniqueName, p.controlType]

/-- The names of a source. -/
def SourcePoint.names (p : SourcePoint) : List String :=
  [p.quantity, p.key]

theorem ControlPoint.foldedKey_eq_iff (p : ControlPoint)
    (componentType uniqueName controlType : String) :
    p.foldedKey = Erl.foldedKey [componentType, uniqueName, controlType] ↔
      NamesMatch p.names [componentType, uniqueName, controlType] :=
  Erl.foldedKey_eq_iff rfl (List.cons_ne_nil _ _)

theorem SourcePoint.foldedKey_eq_iff (p : SourcePoint) (quantity key : String) :
    p.foldedKey = Erl.foldedKey [quantity, key] ↔ NamesMatch p.names [quantity, key] :=
  Erl.foldedKey_eq_iff rfl (List.cons_ne_nil _ _)

/-- Something that the host publishes. -/
inductive Publication where
  | point (p : ControlPoint)
  | output (p : SourcePoint)
  | internal (p : SourcePoint)

namespace Publication

/-- The controlled point that is published. -/
def point? : Publication → Option ControlPoint
  | point p => some p
  | _ => none

/-- The output that is published. -/
def output? : Publication → Option SourcePoint
  | output p => some p
  | _ => none

/-- The internal variable of the host that is published. -/
def internal? : Publication → Option SourcePoint
  | internal p => some p
  | _ => none

end Publication

/-- An entry of a list, at a position, is the first one with a property. -/
structure IsFirstAt {α : Type} (xs : List α) (p : α → Prop) (i : Nat) (a : α) : Prop where
  entry : xs[i]? = some a
  holds : p a
  first : ∀ (j : Nat) (b : α), j < i → xs[j]? = some b → ¬ p b

/-- The entry of a catalog at a position is the first one under names that are taken for those asked
    for, in the catalog and of all that was published. -/
def IsFoundAt {α : Type} (catalog published : List α) (names : α → List String)
    (asked : List String) (i : Nat) : Prop :=
  ∃ a n, IsFirstAt catalog (fun a => NamesMatch (names a) asked) i a
    ∧ IsFirstAt published (fun a => NamesMatch (names a) asked) n a

section FirstAt

variable {α : Type} {key : α → String} {k : String}

/-- Finding a key gives the position of the first entry under it. -/
theorem findIdx?_eq_some_iff_isFirstAt {xs : List α} {p : α → Prop}
    (hp : ∀ a, key a = k ↔ p a) {i : Nat} :
    xs.findIdx? (fun a => key a == k) = some i ↔ ∃ a, IsFirstAt xs p i a := by
  rw [List.findIdx?_eq_some_iff_getElem]
  constructor
  · rintro ⟨hlt, hkey, hbefore⟩
    refine ⟨xs[i], List.getElem?_eq_getElem hlt, (hp _).1 (beq_iff_eq.1 hkey), ?_⟩
    intro j b hj hb hholds
    obtain ⟨hlt', rfl⟩ := List.getElem?_eq_some_iff.1 hb
    exact hbefore j hj (beq_iff_eq.2 ((hp _).2 hholds))
  · rintro ⟨a, hentry, hholds, hfirst⟩
    obtain ⟨hlt, rfl⟩ := List.getElem?_eq_some_iff.1 hentry
    refine ⟨hlt, beq_iff_eq.2 ((hp _).2 hholds), fun j hj hkey => ?_⟩
    have hlt' : j < xs.length := Nat.lt_trans hj hlt
    exact hfirst j xs[j] hj (List.getElem?_eq_getElem hlt') ((hp _).1 (beq_iff_eq.1 hkey))

/-- Lists with the same first entries have the same entry first. -/
theorem SameFirsts.isFirstAt {xs ys : List α} (h : SameFirsts key xs ys) {p : α → Prop}
    (hp : ∀ a, key a = k ↔ p a) {i : Nat} {a : α} (ha : IsFirstAt xs p i a) :
    ∃ n, IsFirstAt ys p n a := by
  have hfound : xs.find? (fun b => key b == k) = some a := by
    rw [List.find?_eq_bind_findIdx?_getElem?, (findIdx?_eq_some_iff_isFirstAt hp).2 ⟨a, ha⟩]
    exact ha.entry
  rw [h k, List.find?_eq_bind_findIdx?_getElem?] at hfound
  obtain ⟨n, hn, hentry⟩ := Option.bind_eq_some_iff.1 hfound
  obtain ⟨b, hb⟩ := (findIdx?_eq_some_iff_isFirstAt hp).1 hn
  obtain rfl : a = b := Option.some.inj (hentry.symm.trans hb.entry)
  exact ⟨n, hb⟩

/-- A catalog that holds the first of what was published finds it there. -/
theorem SameFirsts.find?_eq_some_iff {t : Catalog key} {published : List α}
    (h : SameFirsts key t.entries.toList published) {names : α → List String} {asked : List String}
    (hkey : ∀ a, key a = k ↔ NamesMatch (names a) asked) (i : Nat) :
    t.find? k = some i ↔ IsFoundAt t.entries.toList published names asked i := by
  rw [t.find?_eq_findIdx?_toList, findIdx?_eq_some_iff_isFirstAt hkey]
  constructor
  · rintro ⟨a, ha⟩
    obtain ⟨n, hn⟩ := h.isFirstAt hkey ha
    exact ⟨a, n, ha, hn⟩
  · rintro ⟨a, n, ha, -⟩
    exact ⟨a, ha⟩

end FirstAt

namespace Exchange

/-- Publishes something. -/
def publish (b : Exchange) : Publication → Exchange
  | .point p => (b.publishPoint p).2
  | .output p => b.publishOutput p
  | .internal p => b.publishInternal p

/-- The catalogs after publications one after another. -/
def publishAll (published : List Publication) : Exchange :=
  published.foldl publish empty

/-- The flag that a point gets when it is published after other things, by its position. -/
def flagAfter (before : List Publication) (p : ControlPoint) : Nat :=
  ((publishAll before).publishPoint p).1

/-! ### One publication -/

/-- Points stay where they are. -/
theorem points_publish (b : Exchange) (x : Publication) :
    b.points.toList <+: (b.publish x).points.toList := by
  cases x with
  | point p =>
    show b.points.toList <+: (b.pointCatalog.enter p).2.entries.toList
    rcases b.pointCatalog.enter_cases p with ⟨i, -, heq⟩ | ⟨-, heq⟩
    · rw [heq]
    · rw [heq]
      exact prefix_push b.points p
  | output p => exact List.prefix_rfl
  | internal p => exact List.prefix_rfl

/-- Under each key the catalogs hold the first of what was published. -/
structure Holds (b : Exchange) (points : List ControlPoint) (outputs internals : List SourcePoint) :
    Prop where
  points : SameFirsts ControlPoint.foldedKey b.points.toList points
  outputs : SameFirsts SourcePoint.foldedKey b.outputs.toList outputs
  internals : SameFirsts SourcePoint.foldedKey b.internals.toList internals

theorem Holds.publish {b : Exchange} {points : List ControlPoint}
    {outputs internals : List SourcePoint} (h : b.Holds points outputs internals)
    (x : Publication) :
    (b.publish x).Holds (points ++ x.point?.toList) (outputs ++ x.output?.toList)
      (internals ++ x.internal?.toList) := by
  obtain ⟨hpoints, houtputs, hinternals⟩ := h
  cases x with
  | point p =>
    simp only [Exchange.publish, Publication.point?, Publication.output?, Publication.internal?,
      Option.toList_some, Option.toList_none, List.append_nil]
    exact ⟨hpoints.enter p, houtputs, hinternals⟩
  | output p =>
    simp only [Exchange.publish, Publication.point?, Publication.output?, Publication.internal?,
      Option.toList_some, Option.toList_none, List.append_nil]
    exact ⟨hpoints, houtputs.enter p, hinternals⟩
  | internal p =>
    simp only [Exchange.publish, Publication.point?, Publication.output?, Publication.internal?,
      Option.toList_some, Option.toList_none, List.append_nil]
    exact ⟨hpoints, houtputs, hinternals.enter p⟩

/-! ### All publications -/

theorem publishAll_concat (published : List Publication) (x : Publication) :
    publishAll (published ++ [x]) = (publishAll published).publish x :=
  List.foldl_concat ..

theorem holds_publishAll (published : List Publication) :
    (publishAll published).Holds (published.filterMap Publication.point?)
      (published.filterMap Publication.output?) (published.filterMap Publication.internal?) := by
  induction published using List.reverseRecOn with
  | nil => exact ⟨fun _ => rfl, fun _ => rfl, fun _ => rfl⟩
  | append_singleton before x ih =>
    have hadded : ∀ {α : Type} (f : Publication → Option α),
        (before ++ [x]).filterMap f = before.filterMap f ++ (f x).toList := by
      intro α f
      cases hf : f x <;> simp [hf]
    rw [publishAll_concat, hadded, hadded, hadded]
    exact ih.publish x

theorem points_publishAll (before after : List Publication) :
    (publishAll before).points.toList <+: (publishAll (before ++ after)).points.toList := by
  induction after using List.reverseRecOn with
  | nil => rw [List.append_nil]
  | append_singleton after x ih =>
    rw [← List.append_assoc, publishAll_concat]
    exact ih.trans (points_publish _ x)

/-- A point that was published is found at its flag, whatever is published after it. -/
theorem find?_publishAll (before after : List Publication) (p : ControlPoint) :
    (publishAll (before ++ .point p :: after)).pointCatalog.find? p.foldedKey
      = some (flagAfter before p) := by
  have hextends := points_publishAll (before ++ [.point p]) after
  rw [publishAll_concat, List.append_assoc, List.singleton_append] at hextends
  exact find?_of_extends hextends ((publishAll before).pointCatalog.find?_enter p)

/-- Two published points have one flag exactly if they have one key. -/
theorem flagAfter_eq_iff {published before before' after after' : List Publication}
    {p p' : ControlPoint} (hp : published = before ++ .point p :: after)
    (hp' : published = before' ++ .point p' :: after') :
    flagAfter before p = flagAfter before' p' ↔ p.foldedKey = p'.foldedKey := by
  have hfound := find?_publishAll before after p
  have hfound' := find?_publishAll before' after' p'
  rw [← hp] at hfound
  rw [← hp'] at hfound'
  constructor
  · -- what stands at the flag has both keys
    intro hflag
    rw [← hflag] at hfound'
    obtain ⟨q, hq, hkey⟩ := Catalog.exists_of_find? hfound
    obtain ⟨q', hq', hkey'⟩ := Catalog.exists_of_find? hfound'
    obtain rfl := Option.some.inj (hq.symm.trans hq')
    exact hkey.symm.trans hkey'
  · intro hkey
    rw [hkey, hfound'] at hfound
    exact (Option.some.inj hfound).symm

/-- Looking up names, whatever was published.  The catalogs find the entry that was published first
    under names that agree with those asked for, one by one without blanks and letter case, or that
    are mistaken for them, and they find nothing else.  Two published points share a flag exactly if
    their names agree or are mistaken for one another. -/
theorem lookup_finds_first (published : List Publication) :
    (∀ (componentType uniqueName controlType : String) (i : Nat),
        (publishAll published).findPoint? componentType uniqueName controlType = some i ↔
          IsFoundAt (publishAll published).points.toList (published.filterMap Publication.point?)
            ControlPoint.names [componentType, uniqueName, controlType] i)
      ∧ (∀ (quantity key : String) (i : Nat),
        (publishAll published).findOutput? quantity key = some i ↔
          IsFoundAt (publishAll published).outputs.toList
            (published.filterMap Publication.output?) SourcePoint.names [quantity, key] i)
      ∧ (∀ (quantity key : String) (i : Nat),
        (publishAll published).findInternal? quantity key = some i ↔
          IsFoundAt (publishAll published).internals.toList
            (published.filterMap Publication.internal?) SourcePoint.names [quantity, key] i)
      ∧ ∀ (before before' after after' : List Publication) (p p' : ControlPoint),
        published = before ++ .point p :: after → published = before' ++ .point p' :: after' →
          (flagAfter before p = flagAfter before' p' ↔ NamesMatch p.names p'.names) := by
  obtain ⟨hpoints, houtputs, hinternals⟩ := holds_publishAll published
  refine ⟨fun x y z i => ?_, fun x y i => ?_, fun x y i => ?_, fun _ _ _ _ p p' hp hp' => ?_⟩
  · exact hpoints.find?_eq_some_iff (fun p => p.foldedKey_eq_iff x y z) i
  · exact houtputs.find?_eq_some_iff (fun p => p.foldedKey_eq_iff x y) i
  · exact hinternals.find?_eq_some_iff (fun p => p.foldedKey_eq_iff x y) i
  · rw [flagAfter_eq_iff hp hp']
    exact p.foldedKey_eq_iff ..

/-- A fan, an output, and the fan again in other letters and with blanks around its names. -/
def publishedTwice : List Publication :=
  [.point ⟨"Fan", "Supply", "Speed", "W", .real, 0, false⟩, .output ⟨"Power", "Supply", "W", 1⟩,
    .point ⟨"FAN", " supply ", "speed", "", .logical, 2, true⟩]

theorem lookup_finds_first_publishedTwice :
    (publishAll publishedTwice).findPoint? "fan" "SUPPLY" "speed " = some 0
      ∧ IsFoundAt (publishAll publishedTwice).points.toList
          (publishedTwice.filterMap Publication.point?) ControlPoint.names
          ["fan", "SUPPLY", "speed "] 0
      ∧ flagAfter [] ⟨"Fan", "Supply", "Speed", "W", .real, 0, false⟩
          = flagAfter (publishedTwice.take 2)
            ⟨"FAN", " supply ", "speed", "", .logical, 2, true⟩ := by
  obtain ⟨hpoints, -, -, hflags⟩ := lookup_finds_first publishedTwice
  have hfound : (publishAll publishedTwice).findPoint? "fan" "SUPPLY" "speed " = some 0 := by
    decide +kernel
  refine ⟨hfound, (hpoints _ _ _ _).1 hfound, ?_⟩
  exact (hflags [] (publishedTwice.take 2) _ [] _ _ rfl rfl).2 (.inl (by decide +kernel))

/-- A point with a separator in a name is found under other names. -/
theorem lookup_mistakes_names :
    (publishAll [.point ⟨"A\x1fB", "C", "D", "", .real, 0, false⟩]).findPoint? "A" "B\x1fC" "D"
        = some 0
      ∧ ¬ NamesAgree ["A\x1fB", "C", "D"] ["A", "B\x1fC", "D"] := by
  decide +kernel

end Exchange

end Erl
