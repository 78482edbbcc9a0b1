/-
  Erl.Proofs.Token.Scan

  Scanning takes a token that ends.

  A token is scanned exactly when a text that is written for it stands there and ends there.
  Where no such text stands, the fault says what is wrong.
-/

import Erl.Proofs.Token.Spelling

namespace Erl

open Decimal Text

namespace Token

/-! ## Numerals -/

/-- Digits and points, which stick together. -/
def isMantissa (c : Char) : Bool :=
  c.isDigit || c == '.'

theorem isMantissa_of_mem_mantissa {n : Numeral} {c : Char} (h : c ∈ n.mantissa) :
    isMantissa c = true := by
  rw [isMantissa, Bool.or_eq_true]
  rw [Numeral.mantissa, List.mem_append] at h
  rcases h with hwhole | hfraction
  · exact .inl (n.isWhole c hwhole)
  · cases hpoint : n.fraction with
    | none =>
      rw [hpoint] at hfraction
      cases hfraction
    | some ds =>
      rw [hpoint] at hfraction
      rcases List.mem_cons.1 hfraction with rfl | hmem
      · exact .inr rfl
      · exact .inl (n.isFraction c (by rw [hpoint]; exact hmem))

/-- An exponent starts with neither a digit nor a point. -/
theorem breaks_isMantissa_exponent (e : Exponent) (rest : List Char) :
    Breaks isMantissa (e.spelling ++ rest) :=
  .cons (by rcases e.isMark with h | h <;> rw [h] <;> rfl)

/-- The exponent at the start of a text, sign by sign. -/
theorem exponentPart_signed {mark : Char} {sign : Option Char} {rest : List Char}
    (hsign : ∀ c ∈ sign, c = '+' ∨ c = '-') (hbreaks : sign = none → Breaks isSign rest) :
    exponentPart (mark :: (sign.toList ++ rest))
      = if (mark = 'e' ∨ mark = 'E') ∧ rest.takeWhile Char.isDigit ≠ [] then
          mark :: (sign.toList ++ rest.takeWhile Char.isDigit)
        else [] := by
  have htake : ((sign.toList ++ rest).take 1).filter (fun c => decide (c = '+' ∨ c = '-'))
      = sign.toList := by
    cases sign with
    | some s => simp [hsign s rfl]
    | none =>
      cases rest with
      | nil => rfl
      | cons c rest =>
        have hc : decide (c = '+' ∨ c = '-') = false := hbreaks rfl c rfl
        simp only [Option.toList_none, List.nil_append, List.take_succ_cons, List.take_zero]
        rw [List.filter_cons_of_neg (by simp [hc]), List.filter_nil]
  rw [exponentPart.eq_def]
  simp only [htake, List.drop_left]
  by_cases hmark : mark = 'e' ∨ mark = 'E'
  · rw [if_pos hmark]
    by_cases hdigits : rest.takeWhile Char.isDigit = []
    · rw [if_pos (by rw [hdigits]; rfl), if_neg fun h => h.2 hdigits]
    · rw [if_neg (by simpa using hdigits), if_pos ⟨hmark, hdigits⟩]
  · rw [if_neg hmark, if_neg fun h => hmark h.1]

/-- The exponent at the start of a text is as long as it can be. -/
theorem exponentPart_append (e : Exponent) (rest : List Char) :
    exponentPart (e.spelling ++ rest) = e.spelling ++ rest.takeWhile Char.isDigit := by
  have hdigits : (e.digits ++ rest).takeWhile Char.isDigit
      = e.digits ++ rest.takeWhile Char.isDigit := List.takeWhile_append_of_pos e.isDigit
  have hbreaks : Breaks isSign (e.digits ++ rest) := by
    obtain ⟨d, ds, hd⟩ := List.exists_cons_of_ne_nil e.nonempty
    have hfirst := breaks_isSign_digits e.isDigit
    rw [hd] at hfirst ⊢
    exact .cons (hfirst d rfl)
  rw [Exponent.spelling, List.cons_append, List.append_assoc,
    exponentPart_signed e.isSign fun _ => hbreaks, hdigits, if_pos ⟨e.isMark, by simp [e.nonempty]⟩]
  simp

/-- What is cut off as an exponent is one, with all its digits; or there is none. -/
theorem exponentPart_cases (cs : List Char) :
    (exponentPart cs = [] ∧ ∀ e : Exponent, ¬ e.spelling <+: cs)
      ∨ ∃ (e : Exponent) (rest : List Char), exponentPart cs = e.spelling
          ∧ cs = e.spelling ++ rest ∧ Breaks Char.isDigit rest := by
  by_cases hnil : exponentPart cs = []
  · refine .inl ⟨hnil, ?_⟩
    rintro e ⟨rest, rfl⟩
    rw [exponentPart_append] at hnil
    cases hnil
  · cases cs with
    | nil => exact absurd rfl hnil
    | cons mark cs =>
      obtain ⟨sign, rest, rfl, hsign, hbreaks⟩ := exists_sign cs
      rw [exponentPart_signed hsign hbreaks] at hnil ⊢
      have hgood := (ite_ne_right_iff.1 hnil).1
      rw [if_pos hgood]
      have hdigits : ∀ c ∈ rest.takeWhile Char.isDigit, c.isDigit = true :=
        fun _ hc => List.mem_takeWhile_imp hc
      refine .inr ⟨⟨mark, sign, _, hgood.1, hsign, hdigits, hgood.2⟩, rest.dropWhile Char.isDigit,
        rfl, ?_, breaks_dropWhile _ _⟩
      simp [Exponent.spelling]

/-- The digits and points at the start of a numeral, and its exponent. -/
theorem numeralPart_eq {c : Char} {run rest : List Char} (hrun : ∀ d ∈ run, isMantissa d = true)
    (hrest : Breaks isMantissa rest) :
    numeralPart c (run ++ rest) = c :: (run ++ exponentPart rest) := by
  have htake : (run ++ rest).takeWhile (fun d => d.isDigit || d == '.') = run :=
    takeWhile_stretch hrun hrest
  rw [numeralPart, htake, List.drop_left]

/-- A numeral has a first digit or point. -/
theorem mantissa_eq_cons {n : Numeral} {c : Char} {cs rest : List Char}
    (h : n.mantissa ++ rest = c :: cs) :
    ∃ run, n.mantissa = c :: run ∧ cs = run ++ rest ∧ ∀ d ∈ run, isMantissa d = true := by
  obtain ⟨d, run, hm⟩ := List.exists_cons_of_ne_nil n.mantissa_ne_nil
  have hall : ∀ x ∈ d :: run, isMantissa x = true :=
    hm ▸ fun _ hx => isMantissa_of_mem_mantissa hx
  rw [hm] at h
  obtain ⟨rfl, rfl⟩ := List.cons.inj h
  exact ⟨run, hm, rfl, fun x hx => hall x (.tail _ hx)⟩

/-- A numeral with an exponent goes on with digits. -/
theorem numeralPart_of_exponent {n : Numeral} {e : Exponent} {c : Char} {cs rest : List Char}
    (he : n.exponent = some e) (h : n.spelling ++ rest = c :: cs) :
    numeralPart c cs = n.spelling ++ rest.takeWhile Char.isDigit := by
  rw [Numeral.spelling, he, Option.elim_some] at h ⊢
  rw [List.append_assoc] at h
  obtain ⟨run, hm, rfl, hrun⟩ := mantissa_eq_cons h
  rw [numeralPart_eq hrun (breaks_isMantissa_exponent e rest), exponentPart_append, hm]
  simp

/-- A numeral without an exponent goes on with digits and points, and with an exponent. -/
theorem numeralPart_of_no_exponent {n : Numeral} {c : Char} {cs rest : List Char}
    (he : n.exponent = none) (h : n.spelling ++ rest = c :: cs) :
    numeralPart c cs
      = n.spelling ++ (rest.takeWhile isMantissa ++ exponentPart (rest.dropWhile isMantissa)) := by
  rw [Numeral.spelling, he, Option.elim_none, List.append_nil] at h ⊢
  obtain ⟨run, hm, rfl, hrun⟩ := mantissa_eq_cons h
  have hmore : ∀ d ∈ run ++ rest.takeWhile isMantissa, isMantissa d = true := by
    intro d hd
    rcases List.mem_append.1 hd with hd | hd
    · exact hrun d hd
    · exact List.mem_takeWhile_imp hd
  have hsplit : run ++ rest = (run ++ rest.takeWhile isMantissa) ++ rest.dropWhile isMantissa := by
    rw [List.append_assoc, List.takeWhile_append_dropWhile]
  rw [hsplit, numeralPart_eq hmore (breaks_dropWhile _ _), hm]
  simp

/-- Every numeral at a place is the start of what is cut off there. -/
theorem spelling_prefix_numeralPart {n : Numeral} {c : Char} {cs : List Char}
    (h : n.spelling <+: c :: cs) : n.spelling <+: numeralPart c cs := by
  obtain ⟨rest, hrest⟩ := h
  cases he : n.exponent with
  | none => exact ⟨_, (numeralPart_of_no_exponent he hrest).symm⟩
  | some e => exact ⟨_, (numeralPart_of_exponent he hrest).symm⟩

/-- A numeral is one with a digit more. -/
theorem exists_append_digit (n : Numeral) {d : Char} (hd : d.isDigit = true) :
    ∃ n' : Numeral, n'.spelling = n.spelling ++ [d] := by
  have hmore : ∀ {ds : List Char}, (∀ c ∈ ds, c.isDigit = true) →
      ∀ c ∈ ds ++ [d], c.isDigit = true := by
    intro ds hds c hc
    rcases List.mem_append.1 hc with hc | hc
    · exact hds c hc
    · rw [List.mem_singleton.1 hc]
      exact hd
  obtain ⟨whole, fraction, exponent, hwhole, hfraction, hne⟩ := n
  cases exponent with
  | some e =>
    let e' : Exponent := { e with
      digits := e.digits ++ [d]
      isDigit := hmore e.isDigit
      nonempty := by simp }
    exact ⟨⟨whole, fraction, some e', hwhole, hfraction, hne⟩,
      by simp [Numeral.spelling, Numeral.mantissa, Exponent.spelling, e']⟩
  | none =>
    cases fraction with
    | none =>
      exact ⟨⟨whole ++ [d], none, none, hmore hwhole, hfraction, by simp⟩,
        by simp [Numeral.spelling, Numeral.mantissa]⟩
    | some ds =>
      exact ⟨⟨whole, some (ds ++ [d]), none, hwhole, hmore hfraction, by simp⟩,
        by simp [Numeral.spelling, Numeral.mantissa]⟩

/-- A numeral without an exponent is one with an exponent. -/
theorem exists_append_exponent {n : Numeral} (h : n.exponent = none) (e : Exponent) :
    ∃ n' : Numeral, n'.spelling = n.spelling ++ e.spelling :=
  ⟨{ n with exponent := some e }, by simp [Numeral.spelling, Numeral.mantissa, h]⟩

/-- A numeral that ends where it does is cut off as it is. -/
theorem numeralPart_of_ends {n : Numeral} {c : Char} {cs rest : List Char}
    (h : n.spelling ++ rest = c :: cs) (hends : Ends n.spelling rest) :
    numeralPart c cs = n.spelling := by
  have hdigit : Breaks Char.isDigit rest := by
    cases rest with
    | nil => exact .nil
    | cons d rest =>
      refine .cons ?_
      by_contra hd
      obtain ⟨n', hn'⟩ := exists_append_digit n (eq_true_of_ne_false hd)
      have hspells := Spells.number n'
      rw [hn'] at hspells
      exact hends.longest [d] ⟨rest, rfl⟩ (by simp) _ hspells
  cases he : n.exponent with
  | some e =>
    rw [numeralPart_of_exponent he h, hdigit.takeWhile_eq_nil, List.append_nil]
  | none =>
    have hmantissa : Breaks isMantissa rest := by
      intro d hd
      have hpoint : (d == '.') = false := hends.noPoint n he rfl d hd
      rw [isMantissa, hdigit d hd, hpoint]
      rfl
    rw [numeralPart_of_no_exponent he h, hmantissa.takeWhile_eq_nil, hmantissa.dropWhile_eq_self]
    rcases exponentPart_cases rest with ⟨hnil, -⟩ | ⟨e, rest', -, rfl, -⟩
    · rw [hnil, List.append_nil, List.append_nil]
    · obtain ⟨n', hn'⟩ := exists_append_exponent he e
      have hspells := Spells.number n'
      rw [hn'] at hspells
      have hne : e.spelling ≠ [] := by simp [Exponent.spelling]
      exact absurd hspells (hends.longest e.spelling ⟨rest', rfl⟩ hne _)

/-- What is cut off as a numeral ends there if it is one. -/
theorem ends_numeralPart {n : Numeral} {c : Char} {cs rest : List Char}
    (h : n.spelling ++ rest = c :: cs) (hpart : numeralPart c cs = n.spelling) :
    Ends n.spelling rest := by
  have hfirst : Family.ofFirst c = .number := ofFirst_of_startsNumeral (startsNumeral_spelling h)
  obtain ⟨w, hw⟩ : ∃ w, n.spelling = c :: w := by
    rw [numeralPart] at hpart
    exact ⟨_, hpart.symm⟩
  constructor
  · intro more hmore hne t hspells
    -- a longer text starts with the same character, so it is a numeral as well
    have hfamily : t.family = some .number := by
      rw [hw, List.cons_append] at hspells
      rw [hspells.family_eq, hfirst]
    obtain ⟨n', hn'⟩ : ∃ n' : Numeral, n'.spelling = n.spelling ++ more := by
      generalize n.spelling ++ more = text at hspells
      cases hspells with
      | number n' => exact ⟨n', rfl⟩
      | _ => cases hfamily
    -- and what is cut off has every numeral at its start
    have hstarts : n'.spelling <+: c :: cs := by
      rw [hn', ← h]
      exact (List.prefix_append_right_inj _).2 hmore
    have hlength := (spelling_prefix_numeralPart hstarts).length_le
    rw [hpart, hn', List.length_append] at hlength
    exact hne (List.length_eq_zero_iff.1 (by omega))
  · intro n' he hn' d hd
    rw [← hn'] at h hpart
    rw [numeralPart_of_no_exponent he h] at hpart
    have hnone := (List.append_eq_nil_iff.1 (List.append_right_eq_self.1 hpart)).1
    by_contra hpoint
    cases rest with
    | nil => cases hd
    | cons d' rest =>
      cases hd
      have hmantissa : isMantissa d = true :=
        Bool.or_eq_true_iff.2 (.inr (eq_true_of_ne_false hpoint))
      rw [List.takeWhile_cons_of_pos hmantissa] at hnone
      cases hnone

/-! ## Words and texts -/

/-- A text that starts no numeral ends if it is the longest. -/
theorem ends_of_longest {c : Char} {w rest : List Char} (hfirst : Family.ofFirst c ≠ .number)
    (h : Longest (c :: w) rest) : Ends (c :: w) rest := by
  refine ⟨h, fun n _ hn => ?_⟩
  have hfamily := (hn ▸ Spells.number n).family_eq
  exact absurd (Option.some.inj hfamily).symm hfirst

/-- A text ends with its second quote. -/
theorem ends_text (body rest : List Char) :
    Ends ('"' :: (body ++ ['"'])) rest := by
  refine ends_of_longest (by decide) ?_
  intro more _ hne t hspells
  rw [List.cons_append] at hspells
  have hfamily : t.family = some .text := hspells.family_eq
  generalize htext : '"' :: (body ++ ['"'] ++ more) = text at hspells
  cases hspells with
  | @text body' hbody' =>
    -- a quote that is not the last one would stand inside
    have hinside := congrArg List.dropLast (List.cons.inj htext).2
    rw [List.dropLast_append_of_ne_nil hne, List.dropLast_concat] at hinside
    exact hbody' (hinside ▸ by simp)
  | _ => cases hfamily

/-- A text ends before what cannot belong to a name, and nowhere else, if it can be made longer
    with what belongs to names and with nothing else. -/
theorem ends_iff_breaks {c : Char} {word rest : List Char} (hfirst : Family.ofFirst c ≠ .number)
    (hlonger : ∀ d, continuesName d = true → ∃ t, Spells t (c :: (word ++ [d])))
    (honly : ∀ t w, Spells t (c :: w) → ∀ d ∈ w, continuesName d = true) :
    Ends (c :: word) rest ↔ Breaks continuesName rest := by
  constructor
  · intro h
    cases rest with
    | nil => exact .nil
    | cons d rest =>
      refine .cons ?_
      by_contra hd
      obtain ⟨t, ht⟩ := hlonger d (eq_true_of_ne_false hd)
      exact h.longest [d] ⟨rest, rfl⟩ (by simp) t ht
  · intro h
    refine ends_of_longest hfirst ?_
    rintro more ⟨after, rfl⟩ hne t hspells
    obtain ⟨d, more, rfl⟩ := List.exists_cons_of_ne_nil hne
    have hd := honly t _ hspells d (by simp)
    rw [h d rfl] at hd
    cases hd

theorem continuesName_append {word : List Char} (hword : ∀ d ∈ word, continuesName d = true)
    {d : Char} (hd : continuesName d = true) : ∀ x ∈ word ++ [d], continuesName x = true := by
  intro x hx
  rcases List.mem_append.1 hx with hx | hx
  · exact hword x hx
  · rw [List.mem_singleton.1 hx]
    exact hd

/-- A word ends before what cannot belong to it. -/
theorem ends_word_iff {c : Char} {word rest : List Char} (hc : startsName c = true)
    (hword : ∀ d ∈ word, continuesName d = true) :
    Ends (c :: word) rest ↔ Breaks continuesName rest := by
  refine ends_iff_breaks (by rw [ofFirst_of_startsName hc]; decide)
    (fun d hd => ⟨_, spells_ofWord hc (continuesName_append hword hd)⟩) ?_
  intro t w hspells
  have hfamily : t.family = some .word := by
    rw [hspells.family_eq, ofFirst_of_startsName hc]
  generalize htext : c :: w = text at hspells
  cases hspells with
  | name _ hrest _ =>
    cases htext
    exact hrest
  | keyword hk =>
    obtain ⟨c', rest, rfl, -, hrest⟩ := word_of_fold hk
    cases htext
    exact hrest
  | _ => cases hfamily

/-- The name of a function ends before what cannot belong to it. -/
theorem ends_function_iff {word rest : List Char}
    (hword : ∀ d ∈ word, continuesName d = true) :
    Ends ('@' :: word) rest ↔ Breaks continuesName rest := by
  refine ends_iff_breaks (by decide)
    (fun d hd => ⟨_, .function (by simp) (continuesName_append hword hd)⟩) ?_
  intro t w hspells
  have hfamily : t.family = some .function := hspells.family_eq
  generalize htext : '@' :: w = text at hspells
  cases hspells with
  | function _ hword' =>
    cases htext
    exact hword'
  | _ => cases hfamily

/-! ## Marks -/

/-- The mark that two characters are. -/
def pair? : Char → Char → Option Token
  | '=', '=' => some (.operator .equal)
  | '<', '=' => some (.operator .lessOrEqual)
  | '<', '>' => some (.operator .notEqual)
  | '>', '=' => some (.operator .greaterOrEqual)
  | '&', '&' => some (.operator .and)
  | '|', '|' => some (.operator .or)
  | _, _ => none

/-- The mark that a character is. -/
def single? : Char → Option Token
  | '=' => some .assign
  | '<' => some (.operator .lessThan)
  | '>' => some (.operator .greaterThan)
  | '+' => some (.operator .add)
  | '-' => some (.operator .subtract)
  | '*' => some (.operator .multiply)
  | '/' => some (.operator .divide)
  | '^' => some (.operator .power)
  | '(' => some .leftParen
  | ')' => some .rightParen
  | _ => none

theorem mark?_nil (c : Char) : mark? c [] = (single? c).map (·, 0) := by
  unfold mark? single?
  grind

/-- A mark of two characters is preferred. -/
theorem mark?_cons (c d : Char) (cs : List Char) :
    mark? c (d :: cs) = ((pair? c d).map (·, 1)).or ((single? c).map (·, 0)) := by
  unfold mark? pair? single?
  grind

/-- The marks of one character. -/
theorem spells_single {c : Char} {t : Token} (h : single? c = some t) :
    Spells t [c] ∧ t.family = some .mark := by
  unfold single? at h
  split at h
  all_goals cases h
  · exact ⟨.assign, rfl⟩
  · exact ⟨.operator .lessThan, rfl⟩
  · exact ⟨.operator .greaterThan, rfl⟩
  · exact ⟨.operator .add, rfl⟩
  · exact ⟨.operator .subtract, rfl⟩
  · exact ⟨.operator .multiply, rfl⟩
  · exact ⟨.operator .divide, rfl⟩
  · exact ⟨.operator .power, rfl⟩
  · exact ⟨.leftParen, rfl⟩
  · exact ⟨.rightParen, rfl⟩

/-- The marks of two characters. -/
theorem spells_pair {c d : Char} {t : Token} (h : pair? c d = some t) :
    Spells t [c, d] ∧ t.family = some .mark := by
  unfold pair? at h
  split at h
  all_goals cases h
  · exact ⟨.operator .equal, rfl⟩
  · exact ⟨.operator .lessOrEqual, rfl⟩
  · exact ⟨.operator .notEqual, rfl⟩
  · exact ⟨.operator .greaterOrEqual, rfl⟩
  · exact ⟨.operator .and, rfl⟩
  · exact ⟨.operator .or, rfl⟩

/-- Every mark has one character or two. -/
theorem Spells.mark_cases {t : Token} {w : List Char} (h : Spells t w)
    (hfamily : t.family = some .mark) :
    (∃ c, w = [c] ∧ single? c = some t) ∨ ∃ c d, w = [c, d] ∧ pair? c d = some t := by
  cases h with
  | operator op =>
    cases op with
    | divide => exact .inl ⟨'/', rfl, rfl⟩
    | multiply => exact .inl ⟨'*', rfl, rfl⟩
    | subtract => exact .inl ⟨'-', rfl, rfl⟩
    | add => exact .inl ⟨'+', rfl, rfl⟩
    | equal => exact .inr ⟨'=', '=', rfl, rfl⟩
    | notEqual => exact .inr ⟨'<', '>', rfl, rfl⟩
    | lessOrEqual => exact .inr ⟨'<', '=', rfl, rfl⟩
    | greaterOrEqual => exact .inr ⟨'>', '=', rfl, rfl⟩
    | lessThan => exact .inl ⟨'<', rfl, rfl⟩
    | greaterThan => exact .inl ⟨'>', rfl, rfl⟩
    | power => exact .inl ⟨'^', rfl, rfl⟩
    | and => exact .inr ⟨'&', '&', rfl, rfl⟩
    | or => exact .inr ⟨'|', '|', rfl, rfl⟩
  | assign => exact .inl ⟨'=', rfl, rfl⟩
  | leftParen => exact .inl ⟨'(', rfl, rfl⟩
  | rightParen => exact .inl ⟨')', rfl, rfl⟩
  | _ => cases hfamily

/-- A mark of two characters ends. -/
theorem ends_pair {c d : Char} (h : Family.ofFirst c = .mark) (rest : List Char) :
    Ends [c, d] rest := by
  refine ends_of_longest (by rw [h]; decide) ?_
  intro more _ hne t hspells
  have hfamily : t.family = some .mark := by
    rw [← h]
    exact hspells.family_eq
  obtain ⟨e, more, rfl⟩ := List.exists_cons_of_ne_nil hne
  rcases hspells.mark_cases hfamily with ⟨a, heq, -⟩ | ⟨a, b, heq, -⟩ <;> cases heq

/-- A mark of one character ends before what makes no mark of two with it. -/
theorem ends_single_iff {c : Char} (h : Family.ofFirst c = .mark) {rest : List Char} :
    Ends [c] rest ↔ ∀ d ∈ rest.head?, pair? c d = none := by
  constructor
  · intro hends d hd
    cases hpair : pair? c d with
    | none => rfl
    | some t =>
      cases rest with
      | nil => cases hd
      | cons d' rest =>
        cases hd
        exact absurd (spells_pair hpair).1 (hends.longest [d] ⟨rest, rfl⟩ (by simp) t)
  · intro hnone
    refine ends_of_longest (by rw [h]; decide) ?_
    rintro more ⟨after, rfl⟩ hne t hspells
    obtain ⟨d, more, rfl⟩ := List.exists_cons_of_ne_nil hne
    have hfamily : t.family = some .mark := by
      rw [← h]
      exact hspells.family_eq
    rcases hspells.mark_cases hfamily with ⟨a, heq, -⟩ | ⟨a, b, heq, hpair⟩
    · cases heq
    · cases heq
      rw [hnone d rfl] at hpair
      cases hpair

/-- The mark that is found is written there and ends there. -/
theorem spells_of_mark? {c : Char} {cs : List Char} {t : Token} {n : Nat}
    (h : mark? c cs = some (t, n)) :
    ∃ w rest, c :: cs = w ++ rest ∧ w.length = n + 1 ∧ Spells t w ∧ Ends w rest := by
  have hsingle : ∀ {rest : List Char}, (∀ d ∈ rest.head?, pair? c d = none) →
      (single? c).map (·, 0) = some (t, n) → [c].length = n + 1 ∧ Spells t [c] ∧ Ends [c] rest := by
    intro rest hnone hone
    obtain ⟨t', ht, heq⟩ := Option.map_eq_some_iff.1 hone
    cases heq
    obtain ⟨hspells, hfamily⟩ := spells_single ht
    have hfirst := Option.some.inj (hspells.family_eq.symm.trans hfamily)
    exact ⟨rfl, hspells, (ends_single_iff hfirst).2 hnone⟩
  cases cs with
  | nil =>
    rw [mark?_nil] at h
    exact ⟨[c], [], rfl, hsingle (by simp) h⟩
  | cons d cs =>
    rw [mark?_cons] at h
    cases hpair : pair? c d with
    | none =>
      rw [hpair] at h
      refine ⟨[c], d :: cs, rfl, hsingle ?_ h⟩
      rintro d' ⟨⟩
      exact hpair
    | some t' =>
      rw [hpair] at h
      cases h
      obtain ⟨hspells, hfamily⟩ := spells_pair hpair
      have hfirst := Option.some.inj (hspells.family_eq.symm.trans hfamily)
      exact ⟨[c, d], cs, rfl, rfl, hspells, ends_pair hfirst cs⟩

/-- A mark that is written and ends is found. -/
theorem mark?_of_spells {c : Char} {cs w rest : List Char} {t : Token}
    (hfirst : Family.ofFirst c = .mark) (hcs : c :: cs = w ++ rest) (hw : w ≠ [])
    (hspells : Spells t w) (hends : Ends w rest) : mark? c cs = some (t, w.length - 1) := by
  obtain ⟨c', w, rfl⟩ := List.exists_cons_of_ne_nil hw
  cases hcs
  have hfamily : t.family = some .mark := by rw [hspells.family_eq, hfirst]
  rcases hspells.mark_cases hfamily with ⟨a, heq, hone⟩ | ⟨a, b, heq, htwo⟩
  · cases heq
    have hnone := (ends_single_iff hfirst).1 hends
    cases rest with
    | nil =>
      show mark? c [] = some (t, 0)
      rw [mark?_nil, hone]
      rfl
    | cons d rest =>
      show mark? c (d :: rest) = some (t, 0)
      rw [mark?_cons, hnone d rfl, hone]
      rfl
  · cases heq
    show mark? c (b :: rest) = some (t, 1)
    rw [mark?_cons, htwo]
    rfl

/-! ## Scanning -/

theorem scan_numeral {c : Char} {cs : List Char} (h : startsNumeral c cs = true) :
    scan c cs = (numeral? (numeralPart c cs)).elim
      (.error (.badNumeral (String.ofList (numeralPart c cs))))
      fun x => .ok (.number x, (numeralPart c cs).length - 1) := by
  have hfirst := ofFirst_of_startsNumeral h
  have hquote : c ≠ '"' := by rintro rfl; cases hfirst
  have hat : c ≠ '@' := by rintro rfl; cases hfirst
  rw [scan, if_neg hquote, if_neg hat, if_pos h]
  cases hn : numeral? (numeralPart c cs) <;> simp [hn]

theorem scan_word {c : Char} {word rest : List Char} (hc : startsName c = true)
    (hword : ∀ d ∈ word, continuesName d = true) (hrest : Breaks continuesName rest) :
    scan c (word ++ rest) = .ok (ofWord (String.ofList (c :: word)), word.length) := by
  have hfirst := ofFirst_of_startsName hc
  have hquote : c ≠ '"' := by rintro rfl; cases hc
  have hat : c ≠ '@' := by rintro rfl; cases hc
  have hnumeral : startsNumeral c (word ++ rest) ≠ true := by
    intro hn
    rw [ofFirst_of_startsNumeral hn] at hfirst
    cases hfirst
  rw [scan, if_neg hquote, if_neg hat, if_neg hnumeral, if_pos hc, takeWhile_stretch hword hrest]

theorem scan_function {word rest : List Char} (hne : word ≠ [])
    (hword : ∀ d ∈ word, continuesName d = true) (hrest : Breaks continuesName rest) :
    scan '@' (word ++ rest) = .ok (.function (String.ofList word), word.length) := by
  rw [scan, if_neg (by decide), if_pos rfl, takeWhile_stretch hword hrest]
  simp [hne]

theorem scan_text {body : List Char} (hbody : '"' ∉ body) (rest : List Char) :
    scan '"' (body ++ '"' :: rest) = .ok (.text (String.ofList body), body.length + 1) := by
  have hinside : ∀ d ∈ body, (d != '"') = true := by
    intro d hd
    rw [bne_iff_ne]
    rintro rfl
    exact hbody hd
  have hquote : Breaks (· != '"') ('"' :: rest) := .cons rfl
  rw [scan, if_pos rfl, takeWhile_stretch hinside hquote]
  simp

/-- What starts none of the other tokens is searched for marks. -/
theorem scan_mark {c : Char} {cs : List Char} (hquote : c ≠ '"') (hat : c ≠ '@')
    (hnumeral : startsNumeral c cs ≠ true) (hname : startsName c ≠ true) :
    scan c cs = (mark? c cs).elim (.error (.unexpected c)) .ok := by
  rw [scan, if_neg hquote, if_neg hat, if_neg hnumeral, if_neg hname]
  cases mark? c cs <;> rfl

/-- What is written there and ends there is scanned. -/
theorem scan_of_spells {c : Char} {cs w rest : List Char} {t : Token}
    (hcs : c :: cs = (c :: w) ++ rest) (hspells : Spells t (c :: w)) (hends : Ends (c :: w) rest) :
    scan c cs = .ok (t, w.length) := by
  have hfamily := hspells.family_eq
  -- marks are left to the search for them
  have hmark : t.family = some .mark → scan c cs = .ok (t, w.length) := by
    intro hmark
    have hfirst := Option.some.inj (hfamily.symm.trans hmark)
    have hquote : c ≠ '"' := by rintro rfl; cases hfirst
    have hat : c ≠ '@' := by rintro rfl; cases hfirst
    have hnumeral : startsNumeral c cs ≠ true := by
      intro hn
      rw [ofFirst_of_startsNumeral hn] at hfirst
      cases hfirst
    have hname : startsName c ≠ true := by
      intro hn
      rw [ofFirst_of_startsName hn] at hfirst
      cases hfirst
    rw [scan_mark hquote hat hnumeral hname, mark?_of_spells hfirst hcs (by simp) hspells hends]
    rfl
  generalize hw : c :: w = text at hspells hcs hends
  have hlength : w.length = text.length - 1 := by rw [← hw]; rfl
  rw [hlength] at hmark ⊢
  cases hspells with
  | number n =>
    rw [scan_numeral (startsNumeral_spelling hcs.symm), numeralPart_of_ends hcs.symm hends,
      numeral?_eq_some_iff.2 ⟨n, rfl, rfl⟩]
    rfl
  | @text body hbody =>
    obtain ⟨rfl, rfl⟩ := List.cons.inj hcs
    have hscan := scan_text hbody rest
    simpa using hscan
  | @name _ word hc hword hkeyword =>
    obtain ⟨rfl, rfl⟩ := List.cons.inj hcs
    have hscan := scan_word hc hword ((ends_word_iff hc hword).1 hends)
    rwa [ofWord_of_ne hkeyword] at hscan
  | @function word hne hword =>
    obtain ⟨rfl, rfl⟩ := List.cons.inj hcs
    exact scan_function hne hword ((ends_function_iff hword).1 hends)
  | keyword hk =>
    obtain ⟨_, word, rfl, hc, hword⟩ := word_of_fold hk
    obtain ⟨rfl, rfl⟩ := List.cons.inj hcs
    have hscan := scan_word hc hword ((ends_word_iff hc hword).1 hends)
    rwa [ofWord_of_fold hk] at hscan
  | operator op => exact hmark rfl
  | assign => exact hmark rfl
  | leftParen => exact hmark rfl
  | rightParen => exact hmark rfl

end Token

/-! ## Faults -/

namespace LexicalFault

open Token

/-- What is wrong with a text at its start: a quote without another one, a function mark without
    a name, digits and points that stick together with more than one point among them, or
    nothing that starts any token. -/
inductive Arises : LexicalFault → List Char → Prop where
  | unterminatedText {body : List Char} : '"' ∉ body → Arises .unterminatedText ('"' :: body)
  | missingFunctionName {rest : List Char} : Breaks continuesName rest →
      Arises .missingFunctionName ('@' :: rest)
  | badNumeral {c : Char} {run rest : List Char} {e : Option Exponent} :
      startsNumeral c run = true → (∀ d ∈ c :: run, isMantissa d = true) →
      2 ≤ (c :: run).count '.' → Breaks isMantissa (e.elim [] Exponent.spelling ++ rest) →
      Arises (.badNumeral (String.ofList (c :: run ++ e.elim [] Exponent.spelling)))
        (c :: run ++ e.elim [] Exponent.spelling ++ rest)
  | unexpected {c : Char} {rest : List Char} : c ≠ '"' → c ≠ '@' →
      (∀ w t, w <+: c :: rest → ¬ Spells t w) → Arises (.unexpected c) (c :: rest)

end LexicalFault

namespace Token

/-- Digits and points with at most one point among them are a numeral. -/
theorem exists_numeral_of_count {c : Char} {run : List Char} (hstart : startsNumeral c run = true)
    (hrun : ∀ d ∈ c :: run, isMantissa d = true) (hcount : (c :: run).count '.' < 2)
    (e : Option Exponent) :
    ∃ n : Numeral, n.spelling = c :: run ++ e.elim [] Exponent.spelling := by
  obtain ⟨whole, fraction, rest, heq, hwhole, hfraction, hrest, hpoint⟩ := exists_mantissa (c :: run)
  -- what is left over would start with a second point
  have hnil : rest = [] := by
    cases rest with
    | nil => rfl
    | cons d rest =>
      have hd : d = '.' := by
        have hmantissa := hrun d (by rw [heq]; simp)
        rw [isMantissa, hrest d rfl] at hmantissa
        simpa using hmantissa
      subst hd
      cases fraction with
      | none => exact absurd (hpoint rfl '.' rfl) (by decide)
      | some ds =>
        rw [heq] at hcount
        simp [List.count_append] at hcount
        omega
  subst hnil
  have hne : whole ++ fraction.getD [] ≠ [] := by
    intro hempty
    obtain ⟨rfl, hnone⟩ := List.append_eq_nil_iff.1 hempty
    cases fraction with
    | none => cases heq
    | some ds =>
      -- a point without digits starts no numeral
      cases hnone
      cases heq
      cases hstart
  refine ⟨⟨whole, fraction, e, hwhole, hfraction, hne⟩, ?_⟩
  rw [heq, List.append_nil]
  rfl

/-- Whether a numeral starts is decided by its digits and points. -/
theorem startsNumeral_run {c : Char} {run after : List Char}
    (h : startsNumeral c (run ++ after) = true) (hafter : Breaks isMantissa after) :
    startsNumeral c run = true := by
  cases run with
  | cons d run => exact h
  | nil =>
    cases after with
    | nil => exact h
    | cons d after =>
      have hd : d.isDigit = false := (Bool.or_eq_false_iff.1 (hafter d rfl)).1
      simp only [startsNumeral, List.nil_append, List.take_succ_cons, List.take_zero,
        List.any_cons, List.any_nil, hd] at h ⊢
      exact h

/-- What can be scanned from the start of a text: a token that is written there and ends there,
    or a fault. -/
inductive Scans (cs : List Char) : Except LexicalFault (Token × Nat) → Prop where
  | token {t : Token} {w rest : List Char} : cs = w ++ rest → w ≠ [] → Spells t w → Ends w rest →
      Scans cs (.ok (t, w.length - 1))
  | fault {f : LexicalFault} : f.Arises cs → Scans cs (.error f)

theorem scans_text (cs : List Char) : Scans ('"' :: cs) (scan '"' cs) := by
  obtain ⟨body, rest, rfl, hbody, hrest⟩ := exists_stretch (· != '"') cs
  have hnone : '"' ∉ body := fun hmem => absurd (hbody '"' hmem) (by decide)
  cases rest with
  | nil =>
    have hscan : scan '"' (body ++ []) = .error .unterminatedText := by
      rw [scan, if_pos rfl, takeWhile_stretch hbody hrest]
      simp
    rw [hscan, List.append_nil]
    exact .fault (.unterminatedText hnone)
  | cons c rest =>
    have hc : c = '"' := by
      have hbreak := hrest c rfl
      simpa using hbreak
    subst hc
    rw [scan_text hnone]
    have htoken : Scans ('"' :: (body ++ '"' :: rest))
        (.ok (.text (String.ofList body), ('"' :: (body ++ ['"'])).length - 1)) :=
      .token (by simp) (by simp) (.text hnone) (ends_text body rest)
    simpa using htoken

theorem scans_function (cs : List Char) : Scans ('@' :: cs) (scan '@' cs) := by
  obtain ⟨word, rest, rfl, hword, hrest⟩ := exists_stretch continuesName cs
  by_cases hne : word = []
  · subst hne
    have hscan : scan '@' ([] ++ rest) = .error .missingFunctionName := by
      rw [scan, if_neg (by decide), if_pos rfl, takeWhile_stretch hword hrest]
      rfl
    rw [hscan]
    exact .fault (.missingFunctionName hrest)
  · rw [scan_function hne hword hrest]
    exact .token (w := '@' :: word) rfl (by simp) (.function hne hword)
      ((ends_function_iff hword).2 hrest)

theorem scans_numeral {c : Char} {cs : List Char} (h : startsNumeral c cs = true) :
    Scans (c :: cs) (scan c cs) := by
  obtain ⟨run, after, rfl, hrun, hafter⟩ := exists_stretch isMantissa cs
  obtain ⟨e, rest, hpart, rfl⟩ : ∃ (e : Option Exponent) (rest : List Char),
      exponentPart after = e.elim [] Exponent.spelling
        ∧ after = e.elim [] Exponent.spelling ++ rest := by
    rcases exponentPart_cases after with ⟨hnil, -⟩ | ⟨e, rest, hpart, hsplit, -⟩
    · exact ⟨none, after, hnil, rfl⟩
    · exact ⟨some e, rest, hpart, hsplit⟩
  have hnumeral : numeralPart c (run ++ (e.elim [] Exponent.spelling ++ rest))
      = c :: run ++ e.elim [] Exponent.spelling := by
    rw [numeralPart_eq hrun hafter, hpart]
    rfl
  rw [scan_numeral h, hnumeral]
  cases hvalue : numeral? (c :: run ++ e.elim [] Exponent.spelling) with
  | some x =>
    obtain ⟨n, hn, rfl⟩ := numeral?_eq_some_iff.1 hvalue
    have hsplit : n.spelling ++ rest = c :: (run ++ (e.elim [] Exponent.spelling ++ rest)) := by
      rw [hn]
      simp
    have hne : n.spelling ≠ [] := by
      rw [hn]
      simp
    rw [← hn] at hnumeral ⊢
    exact .token hsplit.symm hne (.number n) (ends_numeralPart hsplit hnumeral)
  | none =>
    have hstart := startsNumeral_run h hafter
    have hall : ∀ d ∈ c :: run, isMantissa d = true := by
      intro d hd
      rcases List.mem_cons.1 hd with rfl | hd
      · rw [startsNumeral, Bool.or_eq_true, Bool.and_eq_true] at h
        exact Bool.or_eq_true_iff.2 (h.imp_right And.left)
      · exact hrun d hd
    have hcount : 2 ≤ (c :: run).count '.' := by
      by_contra hlt
      obtain ⟨n, hn⟩ := exists_numeral_of_count hstart hall (by omega) e
      rw [numeral?_eq_some_iff.2 ⟨n, hn, rfl⟩] at hvalue
      cases hvalue
    have hfault := LexicalFault.Arises.badNumeral hstart hall hcount hafter
    rw [List.append_assoc] at hfault
    exact .fault hfault

/-- A mark is found where one is written, whether it ends there or not. -/
theorem mark?_ne_none {t : Token} {c : Char} {cs w rest : List Char} (h : Spells t w)
    (hfamily : t.family = some .mark) (hsplit : w ++ rest = c :: cs) : mark? c cs ≠ none := by
  rcases h.mark_cases hfamily with ⟨a, rfl, hone⟩ | ⟨a, b, rfl, htwo⟩
  · obtain ⟨rfl, rfl⟩ := List.cons.inj hsplit
    cases rest with
    | nil =>
      show mark? a [] ≠ none
      simp [mark?_nil, hone]
    | cons d rest =>
      show mark? a (d :: rest) ≠ none
      simp [mark?_cons, hone]
  · obtain ⟨rfl, rfl⟩ := List.cons.inj hsplit
    show mark? a (b :: rest) ≠ none
    simp [mark?_cons, htwo]

/-- Where a token is written, one of the searches for tokens is made or finds something. -/
theorem Spells.ne_none {t : Token} {c : Char} {cs w rest : List Char} (h : Spells t w)
    (hsplit : w ++ rest = c :: cs) (hquote : c ≠ '"') (hat : c ≠ '@')
    (hnumeral : startsNumeral c cs ≠ true) (hname : startsName c ≠ true) :
    mark? c cs ≠ none := by
  have hmark : t.family = some .mark → mark? c cs ≠ none :=
    fun hfamily => mark?_ne_none h hfamily hsplit
  cases h with
  | number n => exact absurd (startsNumeral_spelling hsplit) hnumeral
  | text _ => exact absurd (List.cons.inj hsplit).1.symm hquote
  | name hc _ _ =>
    obtain ⟨rfl, rfl⟩ := List.cons.inj hsplit
    exact absurd hc hname
  | function _ _ => exact absurd (List.cons.inj hsplit).1.symm hat
  | keyword hk =>
    obtain ⟨_, _, rfl, hc, -⟩ := word_of_fold hk
    obtain ⟨rfl, rfl⟩ := List.cons.inj hsplit
    exact absurd hc hname
  | operator op => exact hmark rfl
  | assign => exact hmark rfl
  | leftParen => exact hmark rfl
  | rightParen => exact hmark rfl

/-- Scanning finds a token that is written there and ends there, or says what is wrong. -/
theorem scans_scan (c : Char) (cs : List Char) : Scans (c :: cs) (scan c cs) := by
  by_cases hquote : c = '"'
  · subst hquote
    exact scans_text cs
  by_cases hat : c = '@'
  · subst hat
    exact scans_function cs
  by_cases hnumeral : startsNumeral c cs = true
  · exact scans_numeral hnumeral
  by_cases hname : startsName c = true
  · obtain ⟨word, rest, rfl, hword, hrest⟩ := exists_stretch continuesName cs
    rw [scan_word hname hword hrest]
    exact .token (w := c :: word) rfl (by simp) (spells_ofWord hname hword)
      ((ends_word_iff hname hword).2 hrest)
  · rw [scan_mark hquote hat hnumeral hname]
    cases hmark : mark? c cs with
    | some r =>
      obtain ⟨w, rest, hsplit, hlength, hspells, hends⟩ := spells_of_mark? hmark
      have hr : r = (r.1, w.length - 1) := by rw [hlength]; rfl
      rw [hr]
      exact .token hsplit (List.ne_nil_of_length_eq_add_one hlength) hspells hends
    | none =>
      refine .fault (.unexpected hquote hat ?_)
      rintro w t ⟨rest, hrest⟩ hspells
      exact hspells.ne_none hrest hquote hat hnumeral hname hmark

end Token

end Erl
