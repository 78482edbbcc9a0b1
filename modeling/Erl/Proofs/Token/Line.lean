/-
  Erl.Proofs.Token.Line

  Lines and what is written on them.

  A line is blanks, tokens with blanks after them, and a rest.  `Tight` says that every token on
  it ends where its text does; then reading finds these tokens and goes on with the rest.  Every
  line is of this form, with a rest that is nothing, a comment, or something that starts no
  token.
-/

import Mathlib.Data.List.Forall2
import Erl.Proofs.Token.Scan

namespace Erl

open Decimal Text

/-! ## Separators -/

namespace Token

/-- What stands in no token but a text: a blank, or the mark of a comment. -/
def separates (c : Char) : Bool :=
  isBlank c || c == '!'

theorem separates_of_continuesName {c : Char} (h : continuesName c = true) :
    separates c = false := by
  have hblank : isBlank c = false := by
    by_contra hc
    rw [continuesName_of_isBlank (eq_true_of_ne_false hc)] at h
    cases h
  have hmark : (c == '!') = false := by
    rw [beq_eq_false_iff_ne]
    rintro rfl
    cases h
  rw [separates, hblank, hmark]
  rfl

theorem separates_of_mem_numeral {n : Numeral} {c : Char} (h : c ∈ n.spelling) :
    separates c = false := by
  rcases List.mem_append.1 h with hm | he
  · rcases Bool.or_eq_true_iff.1 (isMantissa_of_mem_mantissa hm) with hdigit | hpoint
    · exact separates_of_continuesName (continuesName_of_isDigit hdigit)
    · rw [beq_iff_eq.1 hpoint]
      rfl
  · cases hexponent : n.exponent with
    | none =>
      rw [hexponent] at he
      cases he
    | some e =>
      rw [hexponent] at he
      rcases List.mem_cons.1 he with rfl | he
      · rcases e.isMark with hmark | hmark <;> rw [hmark] <;> rfl
      rcases List.mem_append.1 he with hsign | hdigit
      · rcases e.isSign c (Option.mem_toList.1 hsign) with rfl | rfl <;> rfl
      · exact separates_of_continuesName (continuesName_of_isDigit (e.isDigit c hdigit))

/-- No token but a text has a separator in it. -/
theorem Spells.separates_eq_false {t : Token} {w : List Char} (h : Spells t w)
    (ht : t.family ≠ some .text) : ∀ c ∈ w, separates c = false := by
  cases h with
  | number n => exact fun _ hc => separates_of_mem_numeral hc
  | text _ => exact absurd rfl ht
  | name hc hrest _ =>
    intro d hd
    rcases List.mem_cons.1 hd with rfl | hd
    · exact separates_of_continuesName (continuesName_of_startsName hc)
    · exact separates_of_continuesName (hrest d hd)
  | function _ hword =>
    intro d hd
    rcases List.mem_cons.1 hd with rfl | hd
    · rfl
    · exact separates_of_continuesName (hword d hd)
  | keyword hk =>
    obtain ⟨c, rest, rfl, hc, hrest⟩ := word_of_fold hk
    intro d hd
    rcases List.mem_cons.1 hd with rfl | hd
    · exact separates_of_continuesName (continuesName_of_startsName hc)
    · exact separates_of_continuesName (hrest d hd)
  | operator op =>
    have hall : op.symbol.toList.all (fun c => !separates c) = true := by cases op <;> decide
    exact fun c hc => by simpa using List.all_eq_true.1 hall c hc
  | assign => exact List.forall_mem_singleton.2 rfl
  | leftParen => exact List.forall_mem_singleton.2 rfl
  | rightParen => exact List.forall_mem_singleton.2 rfl

theorem Spells.exists_cons {t : Token} {w : List Char} (h : Spells t w) : ∃ c cs, w = c :: cs := by
  cases h with
  | number n =>
    obtain ⟨c, cs, hm⟩ := List.exists_cons_of_ne_nil n.mantissa_ne_nil
    exact ⟨c, cs ++ n.exponent.elim [] Exponent.spelling, by rw [Numeral.spelling, hm]; rfl⟩
  | text _ => exact ⟨_, _, rfl⟩
  | name _ _ _ => exact ⟨_, _, rfl⟩
  | function _ _ => exact ⟨_, _, rfl⟩
  | keyword hk =>
    obtain ⟨c, rest, rfl, -⟩ := word_of_fold hk
    exact ⟨c, rest, rfl⟩
  | operator op => cases op <;> exact ⟨_, _, rfl⟩
  | assign => exact ⟨_, _, rfl⟩
  | leftParen => exact ⟨_, _, rfl⟩
  | rightParen => exact ⟨_, _, rfl⟩

/-- No token starts with a separator. -/
theorem Spells.separates_first {t : Token} {c : Char} {cs : List Char} (h : Spells t (c :: cs)) :
    separates c = false := by
  by_cases ht : t.family = some .text
  · generalize hw : c :: cs = w at h
    cases h with
    | text _ =>
      cases hw
      rfl
    | _ => cases ht
  · exact h.separates_eq_false ht c List.mem_cons_self

/-- Every token ends before a separator. -/
theorem Spells.ends_of_separates {t : Token} {w rest : List Char} (h : Spells t w)
    (hrest : ∀ c ∈ rest.head?, separates c = true) : Ends w rest := by
  by_cases ht : t.family = some .text
  · cases h with
    | @text body _ => exact ends_text body rest
    | _ => cases ht
  · obtain ⟨c, cs, rfl⟩ := h.exists_cons
    constructor
    · rintro more ⟨after, rfl⟩ hne t' hspells
      obtain ⟨d, more, rfl⟩ := List.exists_cons_of_ne_nil hne
      -- what starts alike is no text either, so it has no separator in it
      have hfamily : t'.family = t.family := by
        rw [h.family_eq]
        exact hspells.family_eq
      have hd := hspells.separates_eq_false (by rwa [hfamily]) d (by simp)
      rw [hrest d rfl] at hd
      cases hd
    · intro n _ _ d hd
      rw [beq_eq_false_iff_ne]
      rintro rfl
      exact absurd (hrest '.' hd) (by decide)

/-- A text that ends before some rest ends before the start of it. -/
theorem Ends.of_start {w rest rest' : List Char} (h : Ends w rest) (hstarts : rest' <+: rest) :
    Ends w rest' := by
  constructor
  · intro more hmore
    exact h.longest more (hmore.trans hstarts)
  · intro n he hn
    cases rest' with
    | nil => exact .nil
    | cons c rest' =>
      obtain ⟨after, rfl⟩ := hstarts
      exact .cons (h.noPoint n he hn c rfl)

end Token

/-! ## Written lines -/

/-- A token as it is written, with the blanks after it. -/
structure Item where
  token : Token
  chars : List Char
  gap : List Char
  spells : token.Spells chars
  isGap : ∀ c ∈ gap, isBlank c = true

namespace Item

/-- The characters of an item. -/
def text (i : Item) : List Char :=
  i.chars ++ i.gap

end Item

namespace LexedLine

open Token

/-- The characters of items in a row. -/
def written (items : List Item) : List Char :=
  items.flatMap Item.text

/-- The tokens of items in a row, with their places. -/
def lexemesAt (line : Nat) : Nat → List Item → List Lexeme
  | _, [] => []
  | column, i :: rest => ⟨i.token, ⟨line, column⟩⟩ :: lexemesAt line (column + i.text.length) rest

/-- Every token in a row ends where its text does. -/
def Tight (tail : List Char) : List Item → Prop
  | [] => True
  | i :: rest => Ends i.chars (i.gap ++ (written rest ++ tail)) ∧ Tight tail rest

theorem written_cons (i : Item) (rest : List Item) : written (i :: rest) = i.text ++ written rest :=
  List.flatMap_cons

/-- Reading goes over blanks. -/
theorem readFrom_blanks {gap : List Char} (h : ∀ c ∈ gap, isBlank c = true) (line column : Nat)
    (rest : List Char) :
    readFrom line column (gap ++ rest) = readFrom line (column + gap.length) rest := by
  induction gap generalizing column with
  | nil => rfl
  | cons c gap ih =>
    rw [List.cons_append, readFrom.eq_def]
    dsimp only
    rw [if_pos (h c List.mem_cons_self), ih fun d hd => h d (.tail c hd), List.length_cons]
    congr 1
    omega

/-- Reading goes over a token that ends where its text does. -/
theorem readFrom_token {t : Token} {w rest : List Char} (h : t.Spells w) (hends : Ends w rest)
    (line column : Nat) :
    readFrom line column (w ++ rest)
      = (readFrom line (column + w.length) rest).map fun l =>
          { l with lexemes := ⟨t, ⟨line, column⟩⟩ :: l.lexemes } := by
  obtain ⟨c, cs, rfl⟩ := h.exists_cons
  obtain ⟨hblank, hmark⟩ := Bool.or_eq_false_iff.1 h.separates_first
  have hscan : scan c (cs ++ rest) = .ok (t, cs.length) := scan_of_spells rfl h hends
  have hcolumn : column + 1 + cs.length = column + (c :: cs).length := by
    rw [List.length_cons]
    omega
  rw [List.cons_append, readFrom.eq_def]
  dsimp only
  rw [if_neg (by rw [hblank]; decide), if_neg (by simpa using hmark), hscan]
  dsimp only
  rw [List.drop_left, hcolumn]
  cases readFrom line (column + (c :: cs).length) rest <;> rfl

/-- Reading goes over items that are tight. -/
theorem readFrom_written {items : List Item} {tail : List Char} (h : Tight tail items)
    (line column : Nat) :
    readFrom line column (written items ++ tail)
      = (readFrom line (column + (written items).length) tail).map fun l =>
          { l with lexemes := lexemesAt line column items ++ l.lexemes } := by
  induction items generalizing column with
  | nil =>
    show readFrom line column tail = (readFrom line column tail).map id
    cases readFrom line column tail <;> rfl
  | cons i rest ih =>
    obtain ⟨hends, hrest⟩ := h
    have hcolumn : column + i.chars.length + i.gap.length = column + i.text.length := by
      rw [Item.text, List.length_append]
      omega
    have hstop : column + (written (i :: rest)).length
        = column + i.text.length + (written rest).length := by
      rw [written_cons, List.length_append]
      omega
    have htext : written (i :: rest) ++ tail = i.chars ++ (i.gap ++ (written rest ++ tail)) := by
      simp [written_cons, Item.text]
    rw [htext, readFrom_token i.spells hends, readFrom_blanks i.isGap, hcolumn, ih hrest, hstop]
    cases readFrom line (column + i.text.length + (written rest).length) tail <;> rfl

/-- What is left of a line when its tokens were read: nothing, a comment, or a fault. -/
inductive Rest : List Char → Prop where
  | nothing : Rest []
  | comment (text : List Char) : Rest ('!' :: text)
  | fault {c : Char} {cs : List Char} {f : LexicalFault} : isBlank c = false → c ≠ '!' →
      scan c cs = .error f → Rest (c :: cs)

/-- Every line is blanks, tokens that end where their texts do, and what is left. -/
theorem exists_items (cs : List Char) :
    ∃ (lead : List Char) (items : List Item) (tail : List Char),
      cs = lead ++ (written items ++ tail) ∧ (∀ c ∈ lead, isBlank c = true) ∧ Tight tail items
        ∧ Rest tail := by
  induction hlength : cs.length using Nat.strongRecOn generalizing cs with
  | ind n ih =>
    obtain ⟨lead, after, rfl, hlead, hafter⟩ := exists_stretch isBlank cs
    cases after with
    | nil => exact ⟨lead, [], [], rfl, hlead, trivial, .nothing⟩
    | cons c rest =>
      by_cases hmark : c = '!'
      · subst hmark
        exact ⟨lead, [], '!' :: rest, rfl, hlead, trivial, .comment rest⟩
      have hscans := scans_scan c rest
      generalize hscan : scan c rest = result at hscans
      cases hscans with
      | fault _ =>
        exact ⟨lead, [], c :: rest, rfl, hlead, trivial, .fault (hafter c rfl) hmark hscan⟩
      | @token t w after hsplit hw hspells hends =>
        have hshorter : after.length < n := by
          have hw' := List.length_pos_iff.2 hw
          have hsum := congrArg List.length hsplit
          rw [List.length_append] at hsum hlength
          omega
        obtain ⟨gap, items, tail, rfl, hgap, htight, hrest⟩ := ih after.length hshorter after rfl
        refine ⟨lead, ⟨t, w, gap, hspells, hgap⟩ :: items, tail, ?_, hlead, ⟨hends, htight⟩, hrest⟩
        rw [hsplit, written_cons, Item.text]
        simp

theorem readFrom_comment (line column : Nat) (text : List Char) :
    readFrom line column ('!' :: text) = .ok ⟨[], ⟨line, column⟩⟩ := by
  rw [readFrom.eq_def]
  dsimp only
  rw [if_neg (by decide), if_pos rfl]

theorem readFrom_fault {c : Char} {cs : List Char} {f : LexicalFault} (hblank : isBlank c = false)
    (hmark : c ≠ '!') (hscan : scan c cs = .error f) (line column : Nat) :
    readFrom line column (c :: cs) = .error ⟨f, ⟨line, column⟩⟩ := by
  rw [readFrom.eq_def]
  dsimp only
  rw [if_neg (by rw [hblank]; decide), if_neg hmark, hscan]

/-- A line that ends after its tokens, or has a comment there, is read as these tokens. -/
theorem read_written {lead tail : List Char} {items : List Item}
    (hlead : ∀ c ∈ lead, isBlank c = true) (htight : Tight tail items)
    (htail : tail = [] ∨ ∃ text, tail = '!' :: text) (line : Nat) :
    read (lead ++ (written items ++ tail)) line
      = .ok ⟨lexemesAt line (lead.length + 1) items,
          ⟨line, lead.length + (written items).length + 1⟩⟩ := by
  have hrest : ∀ column, readFrom line column tail = .ok ⟨[], ⟨line, column⟩⟩ := by
    intro column
    rcases htail with rfl | ⟨text, rfl⟩
    · rw [readFrom.eq_def]
    · exact readFrom_comment line column text
  have hcolumn : 1 + lead.length + (written items).length
      = lead.length + (written items).length + 1 := by omega
  rw [read, readFrom_blanks hlead, readFrom_written htight, hrest, hcolumn, Nat.add_comm 1]
  simp [Except.map]

/-- A line with a fault after its tokens is refused there. -/
theorem read_fault {lead cs : List Char} {c : Char} {items : List Item} {f : LexicalFault}
    (hlead : ∀ c ∈ lead, isBlank c = true) (htight : Tight (c :: cs) items)
    (hblank : isBlank c = false) (hmark : c ≠ '!') (hscan : scan c cs = .error f) (line : Nat) :
    read (lead ++ (written items ++ c :: cs)) line
      = .error ⟨f, ⟨line, lead.length + (written items).length + 1⟩⟩ := by
  have hcolumn : 1 + lead.length + (written items).length
      = lead.length + (written items).length + 1 := by omega
  rw [read, readFrom_blanks hlead, readFrom_written htight, readFrom_fault hblank hmark hscan,
    hcolumn]
  rfl

end LexedLine

/-! ## Stretches of a line -/

/-- A stretch of a text, by the number of characters before it. -/
structure Span where
  start : Nat
  chars : List Char

namespace Span

/-- The number of characters up to the end of a stretch. -/
def stop (s : Span) : Nat :=
  s.start + s.chars.length

/-- The stretch has the character at a position. -/
def Covers (s : Span) (i : Nat) : Prop :=
  s.start ≤ i ∧ i < s.stop

end Span

/-- A token is written in a stretch of a line: its text stands there from its column on, and no
    longer text from there on is written for any token. -/
structure Lexeme.StandsAt (x : Lexeme) (source : List Char) (line : Nat) (s : Span) : Prop where
  location : x.location = ⟨line, s.start + 1⟩
  inLine : s.chars <+: source.drop s.start
  nonempty : s.chars ≠ []
  spells : x.token.Spells s.chars
  longest : Token.Longest s.chars (source.drop s.stop)

namespace LexedLine

open Token

/-- The tokens of a line are written in stretches of it, up to where it stops: they stand in order
    and apart, only blanks stand between them, and the line stops at its first `!` outside texts,
    or at its end. -/
structure Cuts (l : LexedLine) (source : List Char) (line : Nat) (spans : List Span)
    (stop : Nat) : Prop where
  tokens : List.Forall₂ (fun x s => x.StandsAt source line s) l.lexemes spans
  ordered : spans.Pairwise fun s s' => s.stop ≤ s'.start
  within : ∀ s ∈ spans, s.stop ≤ stop
  blank : ∀ i c, i < stop → source[i]? = some c → (∀ s ∈ spans, ¬ s.Covers i) → isBlank c = true
  location : l.stop = ⟨line, stop + 1⟩
  comment : stop = source.length ∨ source[stop]? = some '!'
  inText : ∀ i < stop, source[i]? = some '!' →
    ∃ x s, (x, s) ∈ l.lexemes.zip spans ∧ (∃ text, x.token = .text text) ∧ s.Covers i

/-- The stretches of items in a row. -/
def spansAt : Nat → List Item → List Span
  | _, [] => []
  | start, i :: rest => ⟨start, i.chars⟩ :: spansAt (start + i.text.length) rest

/-- The stretches of items lie where the items do. -/
theorem spansAt_within (start : Nat) (items : List Item) :
    ∀ s ∈ spansAt start items, start ≤ s.start ∧ s.stop ≤ start + (written items).length := by
  induction items generalizing start with
  | nil => simp [spansAt]
  | cons i rest ih =>
    have hlength : (written (i :: rest)).length
        = i.chars.length + i.gap.length + (written rest).length := by
      rw [written_cons, Item.text, List.length_append, List.length_append]
    have htext : i.text.length = i.chars.length + i.gap.length := List.length_append
    intro s hs
    rcases List.mem_cons.1 hs with rfl | hs
    · refine ⟨Nat.le_refl _, ?_⟩
      rw [Span.stop, hlength]
      dsimp only
      omega
    · have hrest := ih (start + i.text.length) s hs
      omega

theorem spansAt_ordered (start : Nat) (items : List Item) :
    (spansAt start items).Pairwise fun s s' => s.stop ≤ s'.start := by
  induction items generalizing start with
  | nil => exact .nil
  | cons i rest ih =>
    refine .cons (fun s hs => ?_) (ih _)
    have hstart := (spansAt_within _ rest s hs).1
    have htext : i.text.length = i.chars.length + i.gap.length := List.length_append
    rw [Span.stop]
    dsimp only
    omega

/-- Items in a row stand in their stretches. -/
theorem standsAt_spansAt {items : List Item} {tail : List Char} (h : Tight tail items)
    (line : Nat) {before source : List Char} (hsource : source = before ++ (written items ++ tail)) :
    List.Forall₂ (fun x s => x.StandsAt source line s)
      (lexemesAt line (before.length + 1) items) (spansAt before.length items) := by
  induction items generalizing before with
  | nil => exact .nil
  | cons i rest ih =>
    obtain ⟨hends, hrest⟩ := h
    have hsplit : source = before ++ (i.chars ++ (i.gap ++ (written rest ++ tail))) := by
      rw [hsource]
      simp [written_cons, Item.text]
    refine .cons ?_ ?_
    · obtain ⟨c, cs, hchars⟩ := i.spells.exists_cons
      refine ⟨rfl, ?_, by simp [hchars], i.spells, ?_⟩
      · rw [hsplit, List.drop_left]
        exact List.prefix_append _ _
      · have hafter : source.drop (before.length + i.chars.length)
            = i.gap ++ (written rest ++ tail) := by
          rw [hsplit, List.drop_length_add_append, List.drop_left]
        rw [Span.stop, hafter]
        exact hends.longest
    · have hnext : source = (before ++ i.text) ++ (written rest ++ tail) := by
        rw [hsplit]
        simp [Item.text]
      have hnext := ih hrest hnext
      rw [List.length_append] at hnext
      rw [Nat.add_right_comm]
      exact hnext

/-- Between the stretches of items there are blanks. -/
theorem isBlank_of_not_covers {items : List Item} {tail before source : List Char}
    (hsource : source = before ++ (written items ++ tail)) {i : Nat} {c : Char}
    (hlow : before.length ≤ i) (hhigh : i < before.length + (written items).length)
    (hc : source[i]? = some c) (hnone : ∀ s ∈ spansAt before.length items, ¬ s.Covers i) :
    isBlank c = true := by
  induction items generalizing before with
  | nil => exact absurd hhigh (Nat.not_lt.2 hlow)
  | cons item rest ih =>
    have hsplit : source = (before ++ item.chars) ++ (item.gap ++ (written rest ++ tail)) := by
      rw [hsource]
      simp [written_cons, Item.text]
    have hnext : source = (before ++ item.text) ++ (written rest ++ tail) := by
      rw [hsplit]
      simp [Item.text]
    have htext : item.text.length = item.chars.length + item.gap.length := List.length_append
    have hpast : before.length + item.chars.length ≤ i := by
      have hself := hnone ⟨before.length, item.chars⟩ List.mem_cons_self
      by_contra hlt
      exact hself ⟨hlow, by rw [Span.stop]; dsimp only; omega⟩
    by_cases hgap : i < before.length + item.text.length
    · -- a position in the blanks after the first item
      have hpos : source[i]? = item.gap[i - (before.length + item.chars.length)]? := by
        rw [hsplit, List.getElem?_append_right (by rw [List.length_append]; exact hpast),
          List.length_append, List.getElem?_append_left (by omega)]
      rw [hpos] at hc
      exact item.isGap c (List.mem_of_getElem? hc)
    · have hlength : (written (item :: rest)).length
          = item.text.length + (written rest).length := by
        rw [written_cons, List.length_append]
      refine ih hnext ?_ ?_ fun s hs => ?_
      · rw [List.length_append]
        omega
      · rw [List.length_append]
        omega
      · rw [List.length_append] at hs
        exact hnone s (.tail _ hs)

/-- Lists that agree one for one pair each of the second with one of the first. -/
theorem exists_zip_of_forall₂ {α β : Type} {R : α → β → Prop} {xs : List α} {ys : List β}
    (h : List.Forall₂ R xs ys) {y : β} (hy : y ∈ ys) : ∃ x, (x, y) ∈ xs.zip ys ∧ R x y := by
  induction h with
  | nil => cases hy
  | @cons x z _ _ hxz _ ih =>
    rcases List.mem_cons.1 hy with rfl | hy
    · exact ⟨x, List.mem_cons_self, hxz⟩
    · obtain ⟨x', hx', hR⟩ := ih hy
      exact ⟨x', .tail _ hx', hR⟩

/-- What a line has at a position that a stretch of it covers is in the stretch. -/
theorem mem_of_covers {source : List Char} {s : Span} (hs : s.chars <+: source.drop s.start)
    {i : Nat} {c : Char} (hi : s.Covers i) (hc : source[i]? = some c) : c ∈ s.chars := by
  obtain ⟨rest, hrest⟩ := hs
  have hlow : s.start ≤ i := hi.1
  have hhigh : i < s.start + s.chars.length := hi.2
  have hpos : s.chars[i - s.start]? = some c := by
    have hdrop : (source.drop s.start)[i - s.start]? = some c := by
      rw [List.getElem?_drop, Nat.add_sub_cancel' hlow, hc]
    rwa [← hrest, List.getElem?_append_left (by omega)] at hdrop
  exact List.mem_of_getElem? hpos

/-- A token with a `!` in it is a text. -/
theorem exists_text_of_mem {t : Token} {w : List Char} (h : t.Spells w) (hmem : '!' ∈ w) :
    ∃ text, t = .text text := by
  by_cases ht : t.family = some .text
  · cases h with
    | text _ => exact ⟨_, rfl⟩
    | _ => cases ht
  · exact absurd (h.separates_eq_false ht '!' hmem) (by decide)

/-- Items in a row, with blanks before them, are cut out of their line. -/
theorem cuts_written {lead tail source : List Char} {items : List Item}
    (hsource : source = lead ++ (written items ++ tail)) (hlead : ∀ c ∈ lead, isBlank c = true)
    (htight : Tight tail items) (htail : tail = [] ∨ ∃ text, tail = '!' :: text) (line : Nat) :
    Cuts ⟨lexemesAt line (lead.length + 1) items, ⟨line, lead.length + (written items).length + 1⟩⟩
      source line (spansAt lead.length items) (lead.length + (written items).length) := by
  have htokens := standsAt_spansAt htight line hsource
  have hblank : ∀ i c, i < lead.length + (written items).length → source[i]? = some c →
      (∀ s ∈ spansAt lead.length items, ¬ s.Covers i) → isBlank c = true := by
    intro i c hi hc hnone
    by_cases hlow : lead.length ≤ i
    · exact isBlank_of_not_covers hsource hlow hi hc hnone
    · rw [hsource, List.getElem?_append_left (by omega)] at hc
      exact hlead c (List.mem_of_getElem? hc)
  refine ⟨htokens, spansAt_ordered _ _, fun s hs => (spansAt_within _ _ s hs).2, hblank, rfl,
    ?_, ?_⟩
  · rcases htail with rfl | ⟨text, rfl⟩
    · left
      rw [hsource]
      simp
    · right
      rw [hsource, ← List.append_assoc, ← List.length_append]
      simp
  · intro i hi hc
    by_cases hcovers : ∃ s ∈ spansAt lead.length items, s.Covers i
    · obtain ⟨s, hs, hi⟩ := hcovers
      obtain ⟨x, hzip, hx⟩ := exists_zip_of_forall₂ htokens hs
      exact ⟨x, s, hzip, exists_text_of_mem hx.spells (mem_of_covers hx.inLine hi hc), hi⟩
    · have hmark := hblank i '!' hi hc fun s hs hi => hcovers ⟨s, hs, hi⟩
      exact absurd hmark (by decide)

/-- Tokens that end before some rest end before the start of it. -/
theorem Tight.of_start {items : List Item} {tail tail' : List Char} (h : Tight tail items)
    (hstarts : tail' <+: tail) : Tight tail' items := by
  induction items with
  | nil => trivial
  | cons i rest ih =>
    obtain ⟨after, rfl⟩ := hstarts
    refine ⟨h.1.of_start ⟨after, by simp⟩, ih h.2⟩

/-- The end of a line is the only token that is not written. -/
theorem Cuts.filter_withEnd {l : LexedLine} {source : List Char} {line stop : Nat}
    {spans : List Span} (h : l.Cuts source line spans stop) :
    (l.withEnd.filter fun x => x.token = .endOfLine) = [⟨.endOfLine, l.stop⟩] := by
  have hnone : ∀ x ∈ l.lexemes, ¬ decide (x.token = .endOfLine) = true := by
    intro x hx
    obtain ⟨s, -, hstands⟩ := exists_zip_of_forall₂ h.tokens.flip hx
    have hspells := hstands.spells
    intro htoken
    rw [of_decide_eq_true htoken] at hspells
    cases hspells
  rw [withEnd, List.filter_append, List.filter_eq_nil_iff.2 hnone]
  rfl

/-- No token ends where scanning finds a fault. -/
theorem not_ends_of_scan {c : Char} {cs : List Char} {f : LexicalFault}
    (h : scan c cs = .error f) (w rest : List Char) (t : Token) (hsplit : c :: cs = w ++ rest)
    (hspells : Spells t w) : ¬ Ends w rest := by
  intro hends
  obtain ⟨d, ds, rfl⟩ := hspells.exists_cons
  obtain ⟨rfl, rfl⟩ := List.cons.inj hsplit
  rw [scan_of_spells rfl hspells hends] at h
  cases h

/-- Reading a line loses nothing and locates everything.  The tokens of a line that is read are
    written in stretches of it; its end is one token more, the last.  A line that is refused is
    refused at the place of its first fault: no token is written there that ends, and the line
    up to there is read. -/
theorem read_cuts (source : List Char) (line : Nat) :
    (∀ l, read source line = .ok l →
      (l.withEnd.filter fun x => x.token = .endOfLine) = [⟨.endOfLine, l.stop⟩]
        ∧ l.withEnd.getLast? = some ⟨.endOfLine, l.stop⟩
        ∧ ∃ spans stop, l.Cuts source line spans stop)
    ∧ ∀ e, read source line = .error e →
      ∃ k, e.location = ⟨line, k + 1⟩ ∧ k < source.length
        ∧ e.fault.Arises (source.drop k)
        ∧ (∀ w rest t, source.drop k = w ++ rest → Spells t w → ¬ Ends w rest)
        ∧ ∃ l, read (source.take k) line = .ok l ∧ l.stop = e.location := by
  obtain ⟨lead, items, tail, hsource, hlead, htight, hrest⟩ := exists_items source
  have hread : (tail = [] ∨ ∃ text, tail = '!' :: text) ∨ ∃ c cs f, tail = c :: cs
      ∧ isBlank c = false ∧ c ≠ '!' ∧ scan c cs = .error f := by
    cases hrest with
    | nothing => exact .inl (.inl rfl)
    | comment text => exact .inl (.inr ⟨text, rfl⟩)
    | fault hblank hmark hscan => exact .inr ⟨_, _, _, rfl, hblank, hmark, hscan⟩
  rcases hread with htail | ⟨c, cs, f, rfl, hblank, hmark, hscan⟩
  · have hok := read_written hlead htight htail line
    have hcuts := cuts_written hsource hlead htight htail line
    rw [← hsource] at hok
    rw [hok]
    refine ⟨fun l hl => ?_, fun e he => by cases he⟩
    cases hl
    exact ⟨hcuts.filter_withEnd, List.getLast?_concat, _, _, hcuts⟩
  · have herror := read_fault hlead htight hblank hmark hscan line
    have hsplit : source = (lead ++ written items) ++ c :: cs := by
      rw [hsource, List.append_assoc]
    have hlength : lead.length + (written items).length = (lead ++ written items).length :=
      List.length_append.symm
    rw [← hsource] at herror
    rw [herror]
    refine ⟨fun l hl => absurd hl (by simp), fun e he => ?_⟩
    cases he
    refine ⟨lead.length + (written items).length, rfl, ?_, ?_, ?_, ?_⟩
    · rw [hlength, hsplit, List.length_append]
      simp
    · rw [hlength, hsplit, List.drop_left]
      have hscans := scans_scan c cs
      rw [hscan] at hscans
      cases hscans with
      | fault harises => exact harises
    · rw [hlength, hsplit, List.drop_left]
      exact not_ends_of_scan hscan
    · -- the tokens before the fault end also where nothing follows
      have hbefore := read_written hlead (htight.of_start List.nil_prefix) (.inl rfl) line
      rw [List.append_nil] at hbefore
      rw [hlength, hsplit, List.take_left]
      exact ⟨_, hbefore, by rw [← hlength]⟩

/-- A text with a `!` in it before a comment, and digits with two points after a numeral. -/
theorem read_cuts_commented_and_refused :
    (∃ l, read "x = \"a!b\" !c".toList 1 = .ok l
      ∧ (l.withEnd.filter fun x => x.token = .endOfLine) = [⟨.endOfLine, l.stop⟩]
      ∧ l.withEnd.getLast? = some ⟨.endOfLine, l.stop⟩
      ∧ ∃ spans stop, l.Cuts "x = \"a!b\" !c".toList 1 spans stop)
    ∧ ∃ e, read "1e 2.3.4".toList 1 = .error e
      ∧ ∃ k, e.location = ⟨1, k + 1⟩ ∧ k < "1e 2.3.4".toList.length
        ∧ e.fault.Arises ("1e 2.3.4".toList.drop k)
        ∧ (∀ w rest t, "1e 2.3.4".toList.drop k = w ++ rest → Spells t w → ¬ Ends w rest)
        ∧ ∃ l, read ("1e 2.3.4".toList.take k) 1 = .ok l ∧ l.stop = e.location := by
  have hok : read "x = \"a!b\" !c".toList 1
      = .ok ⟨[⟨.name "x", ⟨1, 1⟩⟩, ⟨.assign, ⟨1, 3⟩⟩, ⟨.text "a!b", ⟨1, 5⟩⟩], ⟨1, 11⟩⟩ := by
    decide +kernel
  have herror : read "1e 2.3.4".toList 1 = .error ⟨.badNumeral "2.3.4", ⟨1, 4⟩⟩ := by
    decide +kernel
  exact ⟨⟨_, hok, (read_cuts _ 1).1 _ hok⟩, ⟨_, herror, (read_cuts _ 1).2 _ herror⟩⟩

/-! ## Lines that are written -/

/-- A line that is written: blanks, tokens with blanks after them, and an optional comment. -/
def rendered (lead : List Char) (items : List Item) (comment : Option (List Char)) : List Char :=
  lead ++ (written items ++ comment.elim [] ('!' :: ·))

/-- Tokens with blanks between them end where their texts do. -/
theorem tight_of_apart {items : List Item} {tail : List Char}
    (happart : ∀ i ∈ items.dropLast, i.gap ≠ []) (htail : ∀ c ∈ tail.head?, separates c = true) :
    Tight tail items := by
  induction items with
  | nil => trivial
  | cons i rest ih =>
    have hnext : ∀ c ∈ (i.gap ++ (written rest ++ tail)).head?, separates c = true := by
      cases hgap : i.gap with
      | cons d gap =>
        rintro c ⟨⟩
        rw [separates, i.isGap d (by rw [hgap]; exact List.mem_cons_self)]
        rfl
      | nil =>
        -- only the last token may have no blanks after it
        cases rest with
        | nil => exact htail
        | cons j rest => exact absurd hgap (happart i List.mem_cons_self)
    refine ⟨i.spells.ends_of_separates hnext, ih fun j hj => happart j ?_⟩
    cases rest with
    | nil => cases hj
    | cons k rest => exact .tail i hj

/-- The tokens of items in a row stand where the items do. -/
theorem getElem?_lexemesAt (line column : Nat) (items : List Item) (n : Nat) :
    (lexemesAt line column items)[n]?
      = items[n]?.map fun i => ⟨i.token, ⟨line, column + (written (items.take n)).length⟩⟩ := by
  induction items generalizing column n with
  | nil => rfl
  | cons i rest ih =>
    cases n with
    | zero => rfl
    | succ n =>
      rw [lexemesAt, List.getElem?_cons_succ, ih, List.getElem?_cons_succ, List.take_succ_cons,
        written_cons, List.length_append, Nat.add_assoc]

theorem map_token_lexemesAt (line column : Nat) (items : List Item) :
    (lexemesAt line column items).map Lexeme.token = items.map Item.token := by
  induction items generalizing column with
  | nil => rfl
  | cons i rest ih => rw [lexemesAt, List.map_cons, List.map_cons, ih]

/-- Reading undoes writing.  Tokens that are written one after another with blanks between them
    are read as these tokens, each at the place where it was written, and the end of the line. -/
theorem read_rendered {lead : List Char} {items : List Item} (comment : Option (List Char))
    (hlead : ∀ c ∈ lead, isBlank c = true) (happart : ∀ i ∈ items.dropLast, i.gap ≠ [])
    (line : Nat) :
    ∃ l, read (rendered lead items comment) line = .ok l
      ∧ l.withEnd.map Lexeme.token = items.map Item.token ++ [.endOfLine]
      ∧ (∀ (n : Nat) (i : Item), items[n]? = some i → l.lexemes[n]?
          = some ⟨i.token, ⟨line, (lead ++ written (items.take n)).length + 1⟩⟩)
      ∧ l.stop = ⟨line, (lead ++ written items).length + 1⟩ := by
  have htail : comment.elim [] ('!' :: ·) = [] ∨ ∃ text, comment.elim [] ('!' :: ·) = '!' :: text := by
    cases comment with
    | none => exact .inl rfl
    | some text => exact .inr ⟨text, rfl⟩
  have hseparates : ∀ c ∈ (comment.elim [] ('!' :: ·)).head?, separates c = true := by
    cases comment with
    | none => intro c hc; cases hc
    | some text => rintro c ⟨⟩; rfl
  have htight := tight_of_apart happart hseparates
  refine ⟨_, read_written hlead htight htail line, ?_, ?_, ?_⟩
  · rw [withEnd, List.map_append, map_token_lexemesAt]
    rfl
  · intro n i hi
    rw [getElem?_lexemesAt, hi, List.length_append, Option.map_some, Nat.add_right_comm]
  · rw [List.length_append]

/-- One and a half. -/
def sesqui : Numeral :=
  ⟨['1'], some ['5'], none, List.forall_mem_singleton.2 rfl, List.forall_mem_singleton.2 rfl,
    by decide⟩

/-- A keyword in small letters, a name, a numeral and a text with a `!` in it. -/
def assignment : List Item :=
  [⟨.keyword .set, ['s', 'e', 't'], [' '], .keyword (by decide), List.all_eq_true.1 (by decide)⟩,
    ⟨.name "x", ['x'], ['\t', ' '],
      .name (by decide) (List.forall_mem_nil _) (fun k => by cases k <;> decide),
      List.all_eq_true.1 (by decide)⟩,
    ⟨.number sesqui.value, sesqui.spelling, [' '], .number sesqui,
      List.all_eq_true.1 (by decide)⟩,
    ⟨.text "a!b", ['"', 'a', '!', 'b', '"'], [], .text (by decide), List.forall_mem_nil _⟩]

theorem read_rendered_assignment :
    (∀ c ∈ [' '], isBlank c = true) ∧ (∀ i ∈ assignment.dropLast, i.gap ≠ [])
      ∧ ∃ l, read (rendered [' '] assignment (some ['c'])) 1 = .ok l
        ∧ l.withEnd.map Lexeme.token
            = assignment.map Item.token ++ [.endOfLine]
        ∧ (∀ (n : Nat) (i : Item), assignment[n]? = some i → l.lexemes[n]?
            = some ⟨i.token, ⟨1, ([' '] ++ written (assignment.take n)).length + 1⟩⟩)
        ∧ l.stop = ⟨1, ([' '] ++ written assignment).length + 1⟩ := by
  have hlead : ∀ c ∈ [' '], isBlank c = true := List.all_eq_true.1 (by decide)
  have happart : ∀ i ∈ assignment.dropLast, i.gap ≠ [] := by
    simp [assignment]
  exact ⟨hlead, happart, read_rendered (some ['c']) hlead happart 1⟩

end LexedLine

end Erl
