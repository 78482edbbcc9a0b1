/-
  Erl.Proofs.Token.Spelling

  How tokens are written.

  `Spells` says which texts are written for a token, and `Ends` where such a text ends: before
  anything that would make it longer.  Digits and points stick together, so a numeral without an
  exponent does not end before a point either, even if the point makes no numeral of it.

  The first character tells what family a token is of.
-/

import Erl.Token.Lexer
import Erl.Proofs.Decimal.Numeral

namespace Erl

open Decimal Text

/-! ## Characters -/

namespace Text

/-- The code points of the blanks outside ASCII. -/
def farBlanks : List Nat :=
  [0x85, 0xA0, 0x1680, 0x2000, 0x2001, 0x2002, 0x2003, 0x2004, 0x2005, 0x2006, 0x2007, 0x2008,
    0x2009, 0x200A, 0x2028, 0x2029, 0x202F, 0x205F, 0x3000]

/-- No blank outside ASCII is a letter or a numeral. -/
theorem inRanges_farBlanks : ∀ code ∈ farBlanks,
    inRanges letterRanges code = false ∧ inRanges numeralRanges code = false := by
  simp only [inRanges, ← Array.any_toList]
  decide +kernel

theorem isBlank_cases {c : Char} (h : isBlank c = true) :
    (0x9 ≤ c.toNat ∧ c.toNat ≤ 0xD) ∨ c.toNat = 0x20 ∨ c.toNat ∈ farBlanks := by
  simp only [isBlank, Bool.or_eq_true, Bool.and_eq_true, decide_eq_true_eq, beq_iff_eq] at h
  simp only [farBlanks, List.mem_cons, List.not_mem_nil, or_false]
  omega

/-- The letters and digits of ASCII. -/
theorem continuesName_of_lt {c : Char} (h : c.toNat < 0x80) :
    continuesName c = (c.isAlpha || c.isDigit || c == '_') := by
  have hval : c.val < 0x80 := UInt32.lt_iff_toNat_lt.2 h
  rw [continuesName, isLetter, isNumeral, if_pos hval, if_pos hval]

theorem startsName_of_lt {c : Char} (h : c.toNat < 0x80) :
    startsName c = (c.isAlpha || c == '_') := by
  have hval : c.val < 0x80 := UInt32.lt_iff_toNat_lt.2 h
  rw [startsName, isLetter, if_pos hval]

theorem isDigit_iff {c : Char} : c.isDigit = true ↔ 48 ≤ c.toNat ∧ c.toNat ≤ 57 := by
  simp only [Char.isDigit, Bool.and_eq_true, decide_eq_true_eq, ge_iff_le,
    UInt32.le_iff_toNat_le]
  rfl

theorem isAlpha_iff {c : Char} :
    c.isAlpha = true ↔ (65 ≤ c.toNat ∧ c.toNat ≤ 90) ∨ (97 ≤ c.toNat ∧ c.toNat ≤ 122) := by
  show (decide (65 ≤ c.val ∧ c.val ≤ 90)
    || decide (97 ≤ c.val) && decide (c.val ≤ 122)) = true ↔ _
  simp only [Bool.or_eq_true, Bool.and_eq_true, decide_eq_true_eq, UInt32.le_iff_toNat_le]
  rfl

theorem continuesName_of_isDigit {c : Char} (h : c.isDigit = true) : continuesName c = true := by
  have hrange := isDigit_iff.1 h
  rw [continuesName_of_lt (by omega), h]
  simp

theorem startsName_of_isAlpha {c : Char} (h : c.isAlpha = true) : startsName c = true := by
  have hrange := isAlpha_iff.1 h
  rw [startsName_of_lt (by omega), h]
  rfl

theorem startsName_of_isDigit {c : Char} (h : c.isDigit = true) : startsName c = false := by
  have hrange := isDigit_iff.1 h
  have halpha : c.isAlpha = false := by
    rw [← Bool.not_eq_true, isAlpha_iff]
    omega
  have hscore : (c == '_') = false := by
    rw [beq_eq_false_iff_ne]
    rintro rfl
    cases h
  rw [startsName_of_lt (by omega), halpha, hscore]
  rfl

theorem continuesName_of_startsName {c : Char} (h : startsName c = true) :
    continuesName c = true := by
  rw [startsName, Bool.or_eq_true] at h
  rw [continuesName]
  rcases h with h | h <;> simp [h]

/-- No blank stands in a name. -/
theorem continuesName_of_isBlank {c : Char} (h : isBlank c = true) : continuesName c = false := by
  by_cases hfar : c.toNat ∈ farBlanks
  · have hout := inRanges_farBlanks c.toNat hfar
    have hle : 0x80 ≤ c.toNat :=
      (by decide : ∀ code ∈ farBlanks, 0x80 ≤ code) c.toNat hfar
    have hval : ¬ c.val < 0x80 := fun hlt => by
      have := UInt32.lt_iff_toNat_lt.1 hlt
      exact absurd hle (Nat.not_le.2 this)
    have hscore : (c == '_') = false := by
      rw [beq_eq_false_iff_ne]
      rintro rfl
      exact absurd hle (by decide)
    rw [continuesName, isLetter, isNumeral, if_neg hval, if_neg hval, hout.1, hout.2, hscore]
    rfl
  · have hnear : (0x9 ≤ c.toNat ∧ c.toNat ≤ 0xD) ∨ c.toNat = 0x20 := by
      rcases isBlank_cases h with hlow | hspace | hmem
      · exact .inl hlow
      · exact .inr hspace
      · exact absurd hmem hfar
    have halpha : c.isAlpha = false := by
      rw [← Bool.not_eq_true, isAlpha_iff]
      omega
    have hdigit : c.isDigit = false := by
      rw [← Bool.not_eq_true, isDigit_iff]
      omega
    have hscore : (c == '_') = false := by
      rw [beq_eq_false_iff_ne]
      rintro rfl
      exact absurd hnear (by decide)
    rw [continuesName_of_lt (by omega), halpha, hdigit, hscore]
    rfl

end Text

namespace Token

/-! ## Spelling -/

/-- The texts that are written for a token: a keyword in any letter case, a name that is no
    keyword, a function name after its mark, a text without quotes between quotes. -/
inductive Spells : Token → List Char → Prop where
  | number (n : Numeral) : Spells (.number n.value) n.spelling
  | text {body : List Char} : '"' ∉ body →
      Spells (.text (String.ofList body)) ('"' :: (body ++ ['"']))
  | name {c : Char} {rest : List Char} : startsName c = true →
      (∀ d ∈ rest, continuesName d = true) →
      (∀ k : Keyword, Text.fold (String.ofList (c :: rest)) ≠ k.spelling) →
      Spells (.name (String.ofList (c :: rest))) (c :: rest)
  | function {word : List Char} : word ≠ [] → (∀ d ∈ word, continuesName d = true) →
      Spells (.function (String.ofList word)) ('@' :: word)
  | keyword {k : Keyword} {word : List Char} : Text.fold (String.ofList word) = k.spelling →
      Spells (.keyword k) word
  | operator (op : BinaryOp) : Spells (.operator op) op.symbol.toList
  | assign : Spells .assign ['=']
  | leftParen : Spells .leftParen ['(']
  | rightParen : Spells .rightParen [')']

/-- No longer text from the same place on is written for a token. -/
def Longest (w rest : List Char) : Prop :=
  ∀ more, more <+: rest → more ≠ [] → ∀ t, ¬ Spells t (w ++ more)

/-- A text that is written for a token ends before the rest of its line. -/
structure Ends (w rest : List Char) : Prop where
  longest : Longest w rest
  /-- A point sticks to the digits before it. -/
  noPoint : ∀ n : Numeral, n.exponent = none → n.spelling = w → Breaks (· == '.') rest

/-! ## Words -/

/-- A text with the letters of a keyword is a word. -/
theorem word_of_fold {k : Keyword} {word : List Char}
    (h : Text.fold (String.ofList word) = k.spelling) :
    ∃ c rest, word = c :: rest ∧ startsName c = true ∧ ∀ d ∈ rest, continuesName d = true := by
  have hall : k.spelling.toList.all (fun d => decide (65 ≤ d.toNat ∧ d.toNat ≤ 90)) = true := by
    cases k <;> decide
  have hupper : ∀ d ∈ k.spelling.toList, 65 ≤ d.toNat ∧ d.toNat ≤ 90 := fun d hd =>
    of_decide_eq_true (List.all_eq_true.1 hall d hd)
  have hmap : word.map Char.toUpper = k.spelling.toList := by
    rw [← h, Text.fold]
    simp
  have halpha : ∀ c ∈ word, c.isAlpha = true := by
    intro c hc
    have hrange := hupper c.toUpper (hmap ▸ List.mem_map_of_mem hc)
    cases hlower : c.isLower with
    | true =>
      show (c.isUpper || c.isLower) = true
      rw [hlower, Bool.or_true]
    | false =>
      -- a character that is not in lower case is its own upper case
      have hsame : c.toUpper = c := by
        rw [Char.toUpper.eq_def]
        exact dif_neg fun hrange => by
          have hrange' : c.isLower = true := by
            show (decide (97 ≤ c.val) && decide (c.val ≤ 122)) = true
            rw [Bool.and_eq_true, decide_eq_true_eq, decide_eq_true_eq]
            exact hrange
          rw [hlower] at hrange'
          cases hrange'
      rw [hsame] at hrange
      exact isAlpha_iff.2 (.inl hrange)
  cases word with
  | nil =>
    have hne : k.spelling.toList ≠ [] := by cases k <;> decide
    exact absurd hmap.symm hne
  | cons c rest =>
    refine ⟨c, rest, rfl, startsName_of_isAlpha (halpha c List.mem_cons_self), fun d hd => ?_⟩
    exact continuesName_of_startsName (startsName_of_isAlpha (halpha d (.tail c hd)))

/-- A word is a keyword or a name. -/
theorem spells_ofWord {c : Char} {rest : List Char} (hc : startsName c = true)
    (hrest : ∀ d ∈ rest, continuesName d = true) :
    Spells (ofWord (String.ofList (c :: rest))) (c :: rest) := by
  rw [ofWord]
  split
  · next k hk =>
    have hsame := List.find?_some hk
    exact .keyword (beq_iff_eq.1 hsame).symm
  · next hnone =>
    refine .name hc hrest fun k hk => ?_
    have hmem : k ∈ Keyword.all := by cases k <;> decide
    have hother := List.find?_eq_none.1 hnone k hmem
    rw [hk] at hother
    simp at hother

/-- A name is not a keyword. -/
theorem ofWord_of_ne {word : String} (h : ∀ k : Keyword, Text.fold word ≠ k.spelling) :
    ofWord word = .name word := by
  have hnone : (Keyword.all.find? fun k => k.spelling == Text.fold word) = none := by
    rw [List.find?_eq_none]
    intro k _ hk
    exact h k (beq_iff_eq.1 hk).symm
  rw [ofWord, hnone]

/-- A keyword is one in any letter case. -/
theorem ofWord_of_fold {word : String} {k : Keyword} (h : Text.fold word = k.spelling) :
    ofWord word = .keyword k := by
  rw [ofWord, h]
  cases k <;> rfl

/-! ## Families -/

/-- The kinds of tokens, which differ in how they start. -/
inductive Family where
  | text
  | function
  | number
  | word
  | mark
  deriving Repr, DecidableEq

/-- The family of a token; the end of a line is not written. -/
def family : Token → Option Family
  | .number _ => some .number
  | .text _ => some .text
  | .name _ | .keyword _ => some .word
  | .function _ => some .function
  | .operator _ | .assign | .leftParen | .rightParen => some .mark
  | .endOfLine => none

/-- The family of the tokens that start with a character. -/
def Family.ofFirst (c : Char) : Family :=
  if c = '"' then .text
  else if c = '@' then .function
  else if c.isDigit || c == '.' then .number
  else if startsName c then .word
  else .mark

/-- A word starts as no other token does. -/
theorem ofFirst_of_startsName {c : Char} (h : startsName c = true) :
    Family.ofFirst c = .word := by
  have hquote : c ≠ '"' := by rintro rfl; cases h
  have hat : c ≠ '@' := by rintro rfl; cases h
  have hdigit : c.isDigit = false := by
    by_contra hd
    rw [startsName_of_isDigit (eq_true_of_ne_false hd)] at h
    cases h
  have hpoint : (c == '.') = false := by
    rw [beq_eq_false_iff_ne]
    rintro rfl
    cases h
  rw [Family.ofFirst, if_neg hquote, if_neg hat, hdigit, hpoint, if_neg (by simp), if_pos h]

/-- A numeral starts with a digit, or with a point and a digit. -/
theorem startsNumeral_spelling {n : Numeral} {c : Char} {cs rest : List Char}
    (h : n.spelling ++ rest = c :: cs) : startsNumeral c cs = true := by
  rw [Numeral.spelling, Numeral.mantissa] at h
  rw [startsNumeral]
  obtain ⟨whole, fraction, exponent, hwhole, hfraction, hne⟩ := n
  cases whole with
  | cons d ds =>
    cases h
    rw [hwhole _ List.mem_cons_self]
    rfl
  | nil =>
    cases fraction with
    | none => exact absurd rfl hne
    | some ds =>
      -- the digits that a numeral must have stand after the point
      obtain ⟨d, ds, rfl⟩ := List.exists_cons_of_ne_nil hne
      cases h
      simp [hfraction d List.mem_cons_self]

theorem ofFirst_of_startsNumeral {c : Char} {cs : List Char} (h : startsNumeral c cs = true) :
    Family.ofFirst c = .number := by
  have hfirst : (c.isDigit || c == '.') = true := by
    rw [startsNumeral, Bool.or_eq_true, Bool.and_eq_true] at h
    rw [Bool.or_eq_true]
    exact h.imp_right And.left
  have hquote : c ≠ '"' := by rintro rfl; cases hfirst
  have hat : c ≠ '@' := by rintro rfl; cases hfirst
  rw [Family.ofFirst, if_neg hquote, if_neg hat, if_pos hfirst]

/-- Tokens that start alike are of one family. -/
theorem Spells.family_eq {t : Token} {c : Char} {cs : List Char} (h : Spells t (c :: cs)) :
    t.family = some (Family.ofFirst c) := by
  generalize hw : c :: cs = w at h
  cases h with
  | number n =>
    rw [ofFirst_of_startsNumeral (startsNumeral_spelling (by rw [List.append_nil, hw]))]
    rfl
  | text hbody =>
    cases hw
    rfl
  | name hc hrest hne =>
    cases hw
    rw [ofFirst_of_startsName hc]
    rfl
  | function hne hword =>
    cases hw
    rfl
  | keyword hk =>
    obtain ⟨d, rest, rfl, hd, -⟩ := word_of_fold hk
    cases hw
    rw [ofFirst_of_startsName hd]
    rfl
  | operator op =>
    have hfirst : op.symbol.toList.head?.map Family.ofFirst = some .mark := by
      cases op <;> decide
    rw [← hw] at hfirst
    rw [Option.some.inj hfirst]
    rfl
  | assign =>
    cases hw
    decide
  | leftParen =>
    cases hw
    decide
  | rightParen =>
    cases hw
    decide

end Token

end Erl
