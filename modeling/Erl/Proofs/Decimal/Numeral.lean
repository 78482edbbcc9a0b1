/-
  Erl.Proofs.Decimal.Numeral

  What a numeral is.

  A numeral has digits before or after a point, and it may have an exponent with digits of its
  own.  Reading a number accepts exactly the numerals, and gives each the float that is nearest
  to its digits and exponent.
-/

import Mathlib.Data.List.TakeWhile
import Erl.Decimal.Numeral

namespace Erl

/-! ## Stretches of characters -/

namespace Text

/-- The text does not go on with a character of a class. -/
def Breaks (p : Char → Bool) (rest : List Char) : Prop :=
  ∀ c ∈ rest.head?, p c = false

variable {p : Char → Bool} {w rest : List Char}

theorem Breaks.nil : Breaks p [] := by
  intro c hc
  cases hc

theorem Breaks.cons {c : Char} (h : p c = false) : Breaks p (c :: rest) := by
  intro d hd
  cases hd
  exact h

theorem takeWhile_stretch (hw : ∀ c ∈ w, p c = true) (hrest : Breaks p rest) :
    (w ++ rest).takeWhile p = w := by
  rw [List.takeWhile_append_of_pos hw]
  cases rest with
  | nil => simp
  | cons c rest => simp [hrest c rfl]

theorem dropWhile_stretch (hw : ∀ c ∈ w, p c = true) (hrest : Breaks p rest) :
    (w ++ rest).dropWhile p = rest := by
  rw [List.dropWhile_append_of_pos hw]
  cases rest with
  | nil => simp
  | cons c rest => simp [hrest c rfl]

theorem Breaks.takeWhile_eq_nil (h : Breaks p rest) : rest.takeWhile p = [] :=
  takeWhile_stretch (w := []) (by simp) h

theorem Breaks.dropWhile_eq_self (h : Breaks p rest) : rest.dropWhile p = rest :=
  dropWhile_stretch (w := []) (by simp) h

theorem breaks_dropWhile (p : Char → Bool) (cs : List Char) : Breaks p (cs.dropWhile p) := by
  intro c hc
  have hhead := cs.head?_dropWhile_not p
  rw [Option.mem_def.1 hc] at hhead
  exact hhead

/-- Every text is a stretch of a class and what comes after it. -/
theorem exists_stretch (p : Char → Bool) (cs : List Char) :
    ∃ w rest, cs = w ++ rest ∧ (∀ c ∈ w, p c = true) ∧ Breaks p rest :=
  ⟨cs.takeWhile p, cs.dropWhile p, List.takeWhile_append_dropWhile.symm,
    fun _ hc => List.mem_takeWhile_imp hc, breaks_dropWhile p cs⟩

end Text

open Text

namespace Decimal

/-! ## Exponents -/

/-- An exponent of a numeral: a mark, an optional sign and digits. -/
structure Exponent where
  mark : Char
  sign : Option Char
  digits : List Char
  isMark : mark = 'e' ∨ mark = 'E'
  isSign : ∀ c ∈ sign, c = '+' ∨ c = '-'
  isDigit : ∀ c ∈ digits, c.isDigit = true
  nonempty : digits ≠ []

namespace Exponent

/-- How an exponent is written. -/
def spelling (e : Exponent) : List Char :=
  e.mark :: (e.sign.toList ++ e.digits)

/-- The power of ten that an exponent stands for. -/
def value (e : Exponent) : Int :=
  if e.sign = some '-' then -(ofDigits e.digits : Int) else ofDigits e.digits

end Exponent

/-- Whether a character is a sign. -/
def isSign (c : Char) : Bool :=
  c = '+' ∨ c = '-'

/-- A text is what stands after its sign, if it has one. -/
theorem exists_sign (cs : List Char) :
    ∃ (sign : Option Char) (rest : List Char), cs = sign.toList ++ rest
      ∧ (∀ c ∈ sign, c = '+' ∨ c = '-') ∧ (sign = none → Breaks isSign rest) := by
  cases cs with
  | nil => exact ⟨none, [], rfl, by simp, fun _ => .nil⟩
  | cons c rest =>
    cases hc : isSign c with
    | true => exact ⟨some c, rest, rfl, by simpa [isSign] using hc, by simp⟩
    | false => exact ⟨none, c :: rest, rfl, by simp, fun _ => .cons hc⟩

/-- What is read as an exponent, sign by sign. -/
theorem exponent?_signed {mark : Char} {sign : Option Char} {digits : List Char}
    (hsign : ∀ c ∈ sign, c = '+' ∨ c = '-') (hbreaks : sign = none → Breaks isSign digits) :
    exponent? (mark :: (sign.toList ++ digits))
      = if (mark = 'e' ∨ mark = 'E') ∧ digits ≠ [] ∧ digits.all Char.isDigit = true then
          some (if sign = some '-' then -(ofDigits digits : Int) else ofDigits digits)
        else none := by
  have hdigits : (digits.isEmpty || !digits.all Char.isDigit) = true
      ↔ ¬ (digits ≠ [] ∧ digits.all Char.isDigit = true) := by
    rw [not_and_or, Bool.or_eq_true, not_not, List.isEmpty_iff, Bool.not_eq_true',
      ← Bool.not_eq_true]
  by_cases hmark : mark = 'e' ∨ mark = 'E'
  · rw [exponent?.eq_def]
    simp only [hmark, true_and, ← not_or, not_true, if_false]
    rcases sign with _ | s
    · simp only [Option.toList_none, List.nil_append]
      split
      · exact absurd (hbreaks rfl '-' rfl) (by decide)
      · exact absurd (hbreaks rfl '+' rfl) (by decide)
      · simp only [hdigits, ite_not]
        rfl
    · rcases hsign s rfl with rfl | rfl
      · simp only [Option.toList_some, List.cons_append, List.nil_append, hdigits, ite_not]
        rfl
      · simp only [Option.toList_some, List.cons_append, List.nil_append, hdigits, ite_not]
        rfl
  · rw [exponent?.eq_def, if_neg fun h => hmark h.1]
    exact if_pos (not_or.1 hmark)

/-- A digit is no sign. -/
theorem breaks_isSign_digits {digits : List Char} (h : ∀ c ∈ digits, c.isDigit = true) :
    Breaks isSign digits := by
  intro c hc
  have hdigit := h c (List.mem_of_mem_head? hc)
  by_contra hsign
  rcases of_decide_eq_true (eq_true_of_ne_false hsign) with rfl | rfl <;> cases hdigit

theorem exponent?_spelling (e : Exponent) : exponent? e.spelling = some e.value := by
  rw [Exponent.spelling, exponent?_signed e.isSign fun _ => breaks_isSign_digits e.isDigit,
    if_pos ⟨e.isMark, e.nonempty, List.all_eq_true.2 e.isDigit⟩]
  rfl

/-- What is read as an exponent is nothing, or an exponent with its value. -/
theorem exponent?_eq_some_iff {cs : List Char} {x : Int} :
    exponent? cs = some x
      ↔ ∃ e : Option Exponent, e.elim [] Exponent.spelling = cs ∧ e.elim 0 Exponent.value = x := by
  constructor
  · intro h
    cases cs with
    | nil =>
      cases h
      exact ⟨none, rfl, rfl⟩
    | cons mark rest =>
      obtain ⟨sign, digits, rfl, hsign, hbreaks⟩ := exists_sign rest
      rw [exponent?_signed hsign hbreaks] at h
      split at h
      · next hgood =>
        cases h
        exact ⟨some ⟨mark, sign, digits, hgood.1, hsign, List.all_eq_true.1 hgood.2.2, hgood.2.1⟩,
          rfl, rfl⟩
      · cases h
  · rintro ⟨e, rfl, rfl⟩
    cases e with
    | none => rfl
    | some e => exact exponent?_spelling e

/-! ## Numerals -/

/-- A numeral: digits before or after a point, and an optional exponent. -/
structure Numeral where
  whole : List Char
  fraction : Option (List Char)
  exponent : Option Exponent
  isWhole : ∀ c ∈ whole, c.isDigit = true
  isFraction : ∀ c ∈ fraction.getD [], c.isDigit = true
  nonempty : whole ++ fraction.getD [] ≠ []

namespace Numeral

/-- The digits and the point of a numeral. -/
def mantissa (n : Numeral) : List Char :=
  n.whole ++ n.fraction.elim [] ('.' :: ·)

/-- How a numeral is written. -/
def spelling (n : Numeral) : List Char :=
  n.mantissa ++ n.exponent.elim [] Exponent.spelling

theorem mantissa_ne_nil (n : Numeral) : n.mantissa ≠ [] := by
  intro hnil
  obtain ⟨hwhole, hfraction⟩ := List.append_eq_nil_iff.1 hnil
  have hnone : n.fraction = none := by
    cases hf : n.fraction with
    | none => rfl
    | some ds =>
      rw [hf] at hfraction
      cases hfraction
  have hempty : n.whole ++ n.fraction.getD [] = [] := by
    rw [hwhole, hnone]
    rfl
  exact n.nonempty hempty

/-- The exact decimal value of a numeral. -/
def scaled (n : Numeral) : Scaled :=
  ⟨ofDigits (n.whole ++ n.fraction.getD []),
    n.exponent.elim 0 Exponent.value - (n.fraction.getD []).length⟩

/-- The float that a numeral denotes. -/
def value (n : Numeral) : Float :=
  n.scaled.toFloat

end Numeral

/-- An exponent does not start with a digit. -/
theorem breaks_isDigit_exponent (e : Option Exponent) :
    Breaks Char.isDigit (e.elim [] Exponent.spelling) := by
  cases e with
  | none => exact .nil
  | some e => exact .cons (by rcases e.isMark with h | h <;> rw [h] <;> rfl)

/-- Every text is digits, a point with digits if there is one, and what comes after them. -/
theorem exists_mantissa (cs : List Char) :
    ∃ (whole : List Char) (fraction : Option (List Char)) (rest : List Char),
      cs = whole ++ fraction.elim [] ('.' :: ·) ++ rest
      ∧ (∀ c ∈ whole, c.isDigit = true) ∧ (∀ c ∈ fraction.getD [], c.isDigit = true)
      ∧ Breaks Char.isDigit rest ∧ (fraction = none → Breaks (· == '.') rest) := by
  obtain ⟨whole, after, rfl, hwhole, hafter⟩ := exists_stretch Char.isDigit cs
  cases after with
  | nil => exact ⟨whole, none, [], by simp, hwhole, by simp, .nil, fun _ => .nil⟩
  | cons c after =>
    by_cases hc : c = '.'
    · subst hc
      obtain ⟨fraction, rest, rfl, hfraction, hrest⟩ := exists_stretch Char.isDigit after
      exact ⟨whole, some fraction, rest, by simp, hwhole, hfraction, hrest, by simp⟩
    · exact ⟨whole, none, c :: after, by simp, hwhole, by simp, hafter,
        fun _ => .cons (by simpa using hc)⟩

/-- What is read as a numeral, part by part. -/
theorem decimal?_mantissa {whole rest : List Char} {fraction : Option (List Char)}
    (hwhole : ∀ c ∈ whole, c.isDigit = true) (hfraction : ∀ c ∈ fraction.getD [], c.isDigit = true)
    (hrest : Breaks Char.isDigit rest) (hpoint : fraction = none → Breaks (· == '.') rest) :
    decimal? (whole ++ fraction.elim [] ('.' :: ·) ++ rest)
      = if whole ++ fraction.getD [] = [] then none
        else (exponent? rest).map fun e =>
          ⟨ofDigits (whole ++ fraction.getD []), e - (fraction.getD []).length⟩ := by
  have hafter : Breaks Char.isDigit (fraction.elim [] ('.' :: ·) ++ rest) := by
    cases fraction with
    | none => exact hrest
    | some ds => exact .cons rfl
  rw [List.append_assoc, decimal?, takeWhile_stretch hwhole hafter,
    dropWhile_stretch hwhole hafter]
  cases fraction with
  | none =>
    simp only [Option.elim_none, List.nil_append, Option.getD_none, List.append_nil]
    split
    · exact absurd (hpoint rfl '.' rfl) (by decide)
    · simp
  | some ds =>
    have htake : (ds ++ rest).takeWhile Char.isDigit = ds := takeWhile_stretch hfraction hrest
    have hdrop : (ds ++ rest).dropWhile Char.isDigit = rest := dropWhile_stretch hfraction hrest
    simp only [Option.elim_some, List.cons_append, htake, hdrop, Option.getD_some]
    simp

theorem decimal?_spelling (n : Numeral) : decimal? n.spelling = some n.scaled := by
  have hexponent : exponent? (n.exponent.elim [] Exponent.spelling)
      = some (n.exponent.elim 0 Exponent.value) := exponent?_eq_some_iff.2 ⟨_, rfl, rfl⟩
  have hpoint : Breaks (· == '.') (n.exponent.elim [] Exponent.spelling) := by
    cases n.exponent with
    | none => exact .nil
    | some e => exact .cons (by rcases e.isMark with h | h <;> rw [h] <;> rfl)
  rw [Numeral.spelling, Numeral.mantissa, decimal?_mantissa n.isWhole n.isFraction
    (breaks_isDigit_exponent _) fun _ => hpoint, if_neg n.nonempty, hexponent]
  rfl

theorem exists_numeral {cs : List Char} {d : Scaled} (h : decimal? cs = some d) :
    ∃ n : Numeral, n.spelling = cs ∧ n.scaled = d := by
  obtain ⟨whole, fraction, rest, rfl, hwhole, hfraction, hrest, hpoint⟩ := exists_mantissa cs
  rw [decimal?_mantissa hwhole hfraction hrest hpoint] at h
  split at h
  · cases h
  · next hne =>
    obtain ⟨x, hx, rfl⟩ := Option.map_eq_some_iff.1 h
    obtain ⟨e, rfl, rfl⟩ := exponent?_eq_some_iff.1 hx
    exact ⟨⟨whole, fraction, e, hwhole, hfraction, hne⟩, rfl, rfl⟩

/-- The numerals are the texts that are read as numbers. -/
theorem numeral?_eq_some_iff {cs : List Char} {x : Float} :
    numeral? cs = some x ↔ ∃ n : Numeral, n.spelling = cs ∧ n.value = x := by
  rw [numeral?, Option.map_eq_some_iff]
  constructor
  · rintro ⟨d, hd, rfl⟩
    obtain ⟨n, rfl, rfl⟩ := exists_numeral hd
    exact ⟨n, rfl, rfl⟩
  · rintro ⟨n, rfl, rfl⟩
    exact ⟨n.scaled, decimal?_spelling n, rfl⟩

end Decimal

end Erl
