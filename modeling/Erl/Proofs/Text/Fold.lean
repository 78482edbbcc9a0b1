/-
  Erl.Proofs.Text.Fold

  Letter case.

  Putting letters in upper case changes the letters `a` to `z` only.  So it does nothing the second
  time, and nothing to blanks, digits and signs.
-/

import Erl.Text.Fold
import Erl.Text.Line

namespace Erl.Text

/-- A letter in upper case is the letter itself, or one of `A` to `Z`. -/
theorem toUpper_eq_or_capital (c : Char) :
    c.toUpper = c ∨ 65 ≤ c.toUpper.val.toNat ∧ c.toUpper.val.toNat ≤ 90 := by
  unfold Char.toUpper
  split
  · next hlower =>
    refine .inr ?_
    have hge := UInt32.le_iff_toNat_le.1 hlower.1
    have hle := UInt32.le_iff_toNat_le.1 hlower.2
    have ha : 'a'.val.toNat = 97 := rfl
    have hz : 'z'.val.toNat = 122 := rfl
    have hshift : ('A'.val - 'a'.val).toNat = 4294967264 := rfl
    show 65 ≤ (c.val + ('A'.val - 'a'.val)).toNat ∧ (c.val + ('A'.val - 'a'.val)).toNat ≤ 90
    rw [UInt32.toNat_add]
    omega
  · exact .inl rfl

theorem toUpper_of_le {c : Char} (h : c.val.toNat ≤ 90) : c.toUpper = c := by
  unfold Char.toUpper
  rw [dif_neg]
  intro hlower
  have hge := UInt32.le_iff_toNat_le.1 hlower.1
  have ha : 'a'.val.toNat = 97 := rfl
  omega

theorem toUpper_toUpper (c : Char) : c.toUpper.toUpper = c.toUpper := by
  rcases toUpper_eq_or_capital c with hself | ⟨-, hle⟩
  · rw [hself, hself]
  · exact toUpper_of_le hle

/-- Only the sign itself is folded to the sign that marks a call. -/
theorem toUpper_eq_at_iff (c : Char) : c.toUpper = '@' ↔ c = '@' := by
  refine ⟨fun h => ?_, fun h => by rw [h]; rfl⟩
  rcases toUpper_eq_or_capital c with hself | ⟨hge, -⟩
  · rw [← hself, h]
  · rw [h] at hge
    exact absurd hge (by decide)

theorem toList_fold (s : String) : (fold s).toList = s.toList.map Char.toUpper := by
  rw [fold, String.toList_ofList]

theorem fold_fold (s : String) : fold (fold s) = fold s := by
  rw [fold, toList_fold, List.map_map]
  exact congrArg String.ofList (List.map_congr_left fun c _ => toUpper_toUpper c)

theorem fold_append (s s' : String) : fold (s ++ s') = fold s ++ fold s' := by
  rw [fold, String.toList_append, List.map_append, String.ofList_append]
  rfl

/-- What is not true of a letter does not depend on letter case. -/
theorem apply_toUpper {f : Char → Bool}
    (hf : ∀ c : Char, 65 ≤ c.val.toNat → c.val.toNat ≤ 122 → f c = false) (c : Char) :
    f c.toUpper = f c := by
  rcases toUpper_eq_or_capital c with hself | ⟨hge, hle⟩
  · rw [hself]
  · by_cases hc : 65 ≤ c.val.toNat ∧ c.val.toNat ≤ 122
    · rw [hf c hc.1 hc.2, hf c.toUpper hge (by omega)]
    · -- any other character is its own capital
      have hself : c.toUpper = c := by
        unfold Char.toUpper
        rw [dif_neg]
        intro hlower
        have hge := UInt32.le_iff_toNat_le.1 hlower.1
        have hle := UInt32.le_iff_toNat_le.1 hlower.2
        have ha : 'a'.val.toNat = 97 := rfl
        have hz : 'z'.val.toNat = 122 := rfl
        omega
      rw [hself]

theorem isBlank_toUpper (c : Char) : isBlank c.toUpper = isBlank c := by
  refine apply_toUpper (fun c hge hle => ?_) c
  unfold isBlank
  simp only [Bool.or_eq_false_iff, Bool.and_eq_false_iff, decide_eq_false_iff_not,
    beq_eq_false_iff_ne, ← c.toNat_val]
  omega

theorem isDigit_toUpper (c : Char) : c.toUpper.isDigit = c.isDigit := by
  refine apply_toUpper (fun c hge hle => ?_) c
  have hnine : '9'.val.toNat = 57 := rfl
  have hnot : ¬ c.val ≤ '9'.val := fun h => by
    have hle' := UInt32.le_iff_toNat_le.1 h
    omega
  exact Bool.and_eq_false_iff.2 (.inr (decide_eq_false hnot))

/-- A sign is found in a text in any letter case. -/
theorem contains_map_toUpper {sign : Char} (hsign : sign.val.toNat < 65) (cs : List Char) :
    (cs.map Char.toUpper).contains sign = cs.contains sign := by
  have hsame : ∀ c : Char, (sign == c.toUpper) = (sign == c) := by
    refine apply_toUpper (f := (sign == ·)) fun c hge _ => beq_eq_false_iff_ne.2 ?_
    rintro rfl
    omega
  rw [List.contains_eq_any_beq, List.contains_eq_any_beq, List.any_map]
  exact congrArg (cs.any ·) (funext hsame)

/-- Blanks are dropped before or after letters are put in upper case. -/
theorem map_trim (cs : List Char) : (trim cs).map Char.toUpper = trim (cs.map Char.toUpper) := by
  have hblank : isBlank ∘ Char.toUpper = isBlank := funext isBlank_toUpper
  have hstart : ∀ cs : List Char,
      (trimStart cs).map Char.toUpper = trimStart (cs.map Char.toUpper) := by
    intro cs
    rw [trimStart, trimStart, List.dropWhile_map, hblank]
  -- the end of a text is the start of the reversed one
  rw [trim, trim, List.map_reverse, hstart, List.map_reverse, hstart]

theorem fold_trimmed (s : String) : fold (trimmed s) = trimmed (fold s) := by
  rw [fold, trimmed, trimmed, String.toList_ofList, toList_fold, map_trim]

end Erl.Text
