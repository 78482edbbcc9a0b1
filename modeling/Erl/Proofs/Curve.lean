/-
  Erl.Proofs.Curve

  Tables of performance curves.

  A table takes a curve under a new name with the coefficients that its form needs, and refuses any
  other without a change.  So the number of a curve stays its number, a name finds the only curve
  that has it, and evaluation reads neither coefficients nor inputs past their ends.
-/

import Mathlib.Data.List.Basic
import Erl.Curve
import Erl.Proofs.Index

namespace Erl

namespace Curve

/-! ## Polynomials -/

/-- The polynomial of a curve that reads coefficients and inputs by their positions; there is none
    if one of them is read past the end. -/
def read? (c : Curve) (inputs : List Float) : Option Float := do
  let x ← (inputs[0]?).map c.x.cut
  let c₀ ← c.coefficients[0]?
  let c₁ ← c.coefficients[1]?
  match c.form with
  | .linear => return c₀ + c₁ * x
  | .quadratic =>
    let c₂ ← c.coefficients[2]?
    return c₀ + x * (c₁ + x * c₂)
  | .cubic =>
    let c₂ ← c.coefficients[2]?
    let c₃ ← c.coefficients[3]?
    return c₀ + x * (c₁ + x * (c₂ + x * c₃))
  | .biquadratic =>
    let y ← (inputs[1]?).map c.y.cut
    let c₂ ← c.coefficients[2]?
    let c₃ ← c.coefficients[3]?
    let c₄ ← c.coefficients[4]?
    let c₅ ← c.coefficients[5]?
    return c₀ + c₁ * x + c₂ * x * x + c₃ * y + c₄ * y * y + c₅ * x * y

/-- A curve with its coefficients has a polynomial in as many inputs as its form takes, and nothing
    is read past an end. -/
theorem polynomial?_eq_read? {c : Curve} {inputs : List Float}
    (hcoefficients : c.coefficients.length = c.form.coefficientsNeeded)
    (hinputs : inputs.length = c.form.inputsNeeded) :
    ∃ raw, c.read? inputs = some raw
      ∧ polynomial? c.form c.coefficients (c.cutInputs inputs) = some raw := by
  obtain ⟨name, form, coefficients, xLimits, yLimits, output⟩ := c
  cases form with
  | linear =>
    obtain ⟨a, b, rfl⟩ := List.length_eq_two.1 hcoefficients
    obtain ⟨x, rfl⟩ := List.length_eq_one_iff.1 hinputs
    exact ⟨_, rfl, rfl⟩
  | quadratic =>
    obtain ⟨a, b, k, rfl⟩ := List.length_eq_three.1 hcoefficients
    obtain ⟨x, rfl⟩ := List.length_eq_one_iff.1 hinputs
    exact ⟨_, rfl, rfl⟩
  | cubic =>
    obtain ⟨x, rfl⟩ := List.length_eq_one_iff.1 hinputs
    rcases coefficients with _ | ⟨a, _ | ⟨b, _ | ⟨k, _ | ⟨d, _ | ⟨e, rest⟩⟩⟩⟩⟩ <;> first
      | exact ⟨_, rfl, rfl⟩
      | simp [CurveShape.coefficientsNeeded] at hcoefficients
  | biquadratic =>
    obtain ⟨x, y, rfl⟩ := List.length_eq_two.1 hinputs
    rcases coefficients with _ | ⟨a, _ | ⟨b, _ | ⟨k, _ | ⟨d, _ | ⟨e, _ | ⟨f, _ | ⟨g, rest⟩⟩⟩⟩⟩⟩⟩ <;>
      first
      | exact ⟨_, rfl, rfl⟩
      | simp [CurveShape.coefficientsNeeded] at hcoefficients

theorem polynomial?_isSome {c : Curve} {inputs : List Float}
    (hcoefficients : c.coefficients.length = c.form.coefficientsNeeded)
    (hinputs : inputs.length = c.form.inputsNeeded) :
    (polynomial? c.form c.coefficients (c.cutInputs inputs)).isSome = true := by
  obtain ⟨raw, -, hpolynomial⟩ := polynomial?_eq_read? hcoefficients hinputs
  rw [hpolynomial]
  rfl

/-- A curve with its coefficients is evaluated by its polynomial, or there are too many or too few
    inputs. -/
theorem evaluate_eq {c : Curve}
    (hcoefficients : c.coefficients.length = c.form.coefficientsNeeded) (inputs : List Float) :
    (inputs.length ≠ c.form.inputsNeeded →
        c.evaluate inputs = .error (.inputsNeeded c.name c.form.inputsNeeded inputs.length))
      ∧ (inputs.length = c.form.inputsNeeded →
        ∃ raw, c.read? inputs = some raw ∧ c.evaluate inputs = finite c.name (c.output.cut raw)) := by
  refine ⟨fun hcount => ?_, fun hcount => ?_⟩
  · rw [evaluate, if_pos hcount]
  · obtain ⟨raw, hread, hpolynomial⟩ := polynomial?_eq_read? hcoefficients hcount
    refine ⟨raw, hread, ?_⟩
    rw [evaluate, if_neg (not_not_intro hcount), hpolynomial]

end Curve

namespace Curves

/-! ## Taking and refusing curves -/

variable {l l' : Curves} {c : Curve} {i : Nat}

/-- The table after it has taken a curve. -/
def take (l : Curves) (c : Curve) : Curves :=
  ⟨l.curves.push c, l.numbers.insert (Text.fold c.name) (l.size + 1)⟩

/-- A curve is taken under a new name and with the coefficients that its form needs; it stands at
    the end then.  Any other curve is refused, and the table stays as it is. -/
theorem register_cases (l : Curves) (c : Curve) :
    (∃ e, l.register c = (.error e, l)
        ∧ ¬ (l.index? c.name = none ∧ c.coefficients.length = c.form.coefficientsNeeded))
      ∨ l.register c = (.ok (l.size + 1), l.take c) ∧ l.index? c.name = none
        ∧ c.coefficients.length = c.form.coefficientsNeeded := by
  unfold register
  split
  · next hfound =>
    refine .inl ⟨_, rfl, fun hgood => ?_⟩
    rw [hgood.1] at hfound
    cases hfound
  · next hnew =>
    split
    · next hcount => exact .inl ⟨_, rfl, fun hgood => hcount hgood.2⟩
    · next hcount =>
      refine .inr ⟨?_, Option.not_isSome_iff_eq_none.1 hnew, not_not.1 hcount⟩
      simp only [take, size, Array.size_push]

/-- The table after a curve was offered to it. -/
def offer (l : Curves) (c : Curve) : Curves :=
  (l.register c).2

/-- The table after curves were offered one after another. -/
def offerAll (l : Curves) (offered : List Curve) : Curves :=
  offered.foldl offer l

/-- A table stays as it is, or it takes a curve. -/
theorem offer_cases (l : Curves) (c : Curve) :
    l.offer c = l ∨ l.offer c = l.take c ∧ l.index? c.name = none
      ∧ c.coefficients.length = c.form.coefficientsNeeded := by
  unfold offer
  rcases l.register_cases c with ⟨e, hrefused, -⟩ | ⟨htaken, hgood⟩
  · rw [hrefused]
    exact .inl rfl
  · rw [htaken]
    exact .inr ⟨rfl, hgood⟩

/-! ## Names and numbers -/

variable {name : String}

theorem get?_succ (l : Curves) (i : Nat) : l.get? (i + 1) = l.curves[i]? := by
  rw [get?, if_neg (Nat.succ_ne_zero i), Nat.add_sub_cancel]

/-- A curve that is taken gets the next number, and all others keep theirs. -/
theorem get?_take (l : Curves) (c : Curve) (i : Nat) :
    (l.take c).get? i = if i = l.size + 1 then some c else l.get? i := by
  cases i with
  | zero => rfl
  | succ i =>
    rw [get?_succ, get?_succ, take, Array.getElem?_push]
    simp only [Nat.add_right_cancel_iff]
    rfl

/-- The numbers of a table are those from one to its size. -/
theorem exists_get?_iff (l : Curves) (i : Nat) : (∃ c, l.get? i = some c) ↔ 1 ≤ i ∧ i ≤ l.size := by
  cases i with
  | zero => simp [get?]
  | succ i =>
    rw [get?_succ]
    constructor
    · rintro ⟨c, hc⟩
      exact ⟨Nat.le_add_left 1 i, (Array.getElem?_eq_some_iff.1 hc).1⟩
    · rintro ⟨-, hlt⟩
      exact ⟨_, Array.getElem?_eq_getElem hlt⟩

/-- Every curve of a table has the coefficients that its form needs. -/
def AreComplete (l : Curves) : Prop :=
  ∀ c ∈ l.curves, c.coefficients.length = c.form.coefficientsNeeded

/-- The names of a table lead to the curves that have them and nowhere else, and every curve has its
    coefficients. -/
structure Sound (l : Curves) : Prop where
  named : ∀ (k : String) (i : Nat),
    l.numbers.get? k = some i ↔ ∃ c, l.get? i = some c ∧ Text.fold c.name = k
  complete : l.AreComplete

theorem sound_empty : empty.Sound where
  named k i := by
    have hnone : empty.get? i = none := by cases i <;> rfl
    have hempty : empty.numbers.get? k = none := rfl
    simp [hnone, hempty]
  complete := by simp [AreComplete, empty]

theorem Sound.take (h : l.Sound) (hnew : l.index? c.name = none)
    (hcount : c.coefficients.length = c.form.coefficientsNeeded) : (l.take c).Sound where
  named k i := by
    have hnumbers : (l.take c).numbers.get? k
        = if k = Text.fold c.name then some (l.size + 1) else l.numbers.get? k :=
      Index.get?_insert _ _ _ _
    -- no curve with a number so far has the name
    have hother : ∀ d, l.get? i = some d → Text.fold d.name ≠ Text.fold c.name := by
      intro d hd hname
      have hfound := (h.named _ i).2 ⟨d, hd, hname⟩
      cases hnew.symm.trans hfound
    rw [hnumbers, get?_take]
    by_cases hi : i = l.size + 1
    · have hnone : ∀ k', l.numbers.get? k' ≠ some i := by
        intro k' hk'
        obtain ⟨d, hd, -⟩ := (h.named k' i).1 hk'
        have hle := ((l.exists_get?_iff i).1 ⟨d, hd⟩).2
        omega
      by_cases hk : k = Text.fold c.name
      · simp [hi, hk]
      · simp [hi ▸ hnone k, hi, hk, Ne.symm hk]
    · by_cases hk : k = Text.fold c.name
      · have hne : l.size + 1 ≠ i := Ne.symm hi
        simp only [hk, hi, if_true, if_false, Option.some.injEq, hne, false_iff]
        rintro ⟨d, hd, hname⟩
        exact hother d hd hname
      · simp only [hk, hi, if_false, h.named]
  complete d hd := by
    rcases Array.mem_push.1 hd with hold | rfl
    · exact h.complete d hold
    · exact hcount

theorem Sound.offer (h : l.Sound) (c : Curve) : (l.offer c).Sound := by
  rcases l.offer_cases c with heq | ⟨heq, hnew, hcount⟩
  · rw [heq]
    exact h
  · rw [heq]
    exact h.take hnew hcount

theorem Sound.offerAll (h : l.Sound) (offered : List Curve) : (l.offerAll offered).Sound := by
  induction offered generalizing l with
  | nil => exact h
  | cons c rest ih => exact ih (h.offer c)

/-- A name finds the curve that has it. -/
theorem Sound.index?_eq_some_iff (h : l.Sound) :
    l.index? name = some i ↔ ∃ c, l.get? i = some c ∧ Text.fold c.name = Text.fold name :=
  h.named (Text.fold name) i

/-- Curves under one name are one curve. -/
theorem Sound.get?_unique (h : l.Sound) {j : Nat} {d : Curve} (hc : l.get? i = some c)
    (hd : l.get? j = some d) (hname : Text.fold c.name = Text.fold d.name) : i = j := by
  have hi := h.index?_eq_some_iff.2 ⟨c, hc, hname⟩
  have hj := h.index?_eq_some_iff.2 ⟨d, hd, rfl⟩
  exact Option.some.inj (hi.symm.trans hj)

/-- A curve keeps its number when another one is offered. -/
theorem get?_offer (hc : l.get? i = some c) (d : Curve) : (l.offer d).get? i = some c := by
  rcases l.offer_cases d with heq | ⟨heq, -⟩
  · rw [heq, hc]
  · have hle := ((l.exists_get?_iff i).1 ⟨c, hc⟩).2
    rw [heq, get?_take, if_neg (by omega), hc]

theorem get?_offerAll (hc : l.get? i = some c) (later : List Curve) :
    (l.offerAll later).get? i = some c := by
  induction later generalizing l with
  | nil => exact hc
  | cons d rest ih => exact ih (get?_offer hc d)

/-! ## Tables of lists -/

/-- A table of a list of curves has taken all of them. -/
theorem offerAll_of_foldlM {curves : List Curve}
    (h : curves.foldlM add l = .ok l') :
    l.offerAll curves = l' := by
  induction curves generalizing l with
  | nil => exact Except.ok.inj h
  | cons c rest ih =>
    rw [List.foldlM_cons] at h
    rw [offerAll, List.foldl_cons]
    rcases l.register_cases c with ⟨e, hrefused, -⟩ | ⟨htaken, -⟩
    · rw [add, hrefused] at h
      cases h
    · rw [add, htaken] at h
      rw [offer, htaken]
      exact ih h

/-- The curves of a table that was made from a list are complete. -/
theorem areComplete_of_ofList {curves : List Curve} (h : ofList curves = .ok l) :
    l.AreComplete := by
  rw [← offerAll_of_foldlM h]
  exact (sound_empty.offerAll curves).complete

/-! ## Consistency -/

theorem Sound.length_coefficients (h : l.Sound) (hc : l.get? i = some c) :
    c.coefficients.length = c.form.coefficientsNeeded := by
  cases i with
  | zero => cases hc
  | succ i =>
    rw [get?_succ] at hc
    exact h.complete c (Array.mem_of_getElem? hc)

theorem value_of_get? (hc : l.get? i = some c) (inputs : List Float) :
    l.value i inputs = c.evaluate inputs := by
  rw [value, hc]

theorem value_of_none (hc : l.get? i = none) (inputs : List Float) :
    l.value i inputs = .error (.noCurve i) := by
  rw [value, hc]

/-- Tables of curves are consistent, whatever was offered to them.  A curve that is taken gets the
    new size as its number, and stands there; a curve that is refused leaves the table as it is, and
    a curve is taken exactly if its name is new and it has the coefficients that its form needs.  A
    number stands for the same curve ever after.  The map of names holds each curve under its name
    in upper case and nothing else; so a name finds the only curve that has it, in any letter case.
    Every curve has its coefficients.  So each number from one to the size, with any inputs, gives
    what the polynomial of its curve gives, which reads nothing past an end, or it is refused; any
    other number is refused. -/
theorem offered_table_consistent (offered : List Curve) (hl : empty.offerAll offered = l) :
    (∀ (c : Curve) (i : Nat) (grown : Curves), l.register c = (.ok i, grown) →
        i = grown.size ∧ grown.size = l.size + 1 ∧ grown.get? i = some c ∧ l.offer c = grown)
      ∧ (∀ (c : Curve) (e : Refusal) (after : Curves), l.register c = (.error e, after) → after = l)
      ∧ (∀ c : Curve, (∃ i, (l.register c).1 = .ok i) ↔
        l.index? c.name = none ∧ c.coefficients.length = c.form.coefficientsNeeded)
      ∧ (∀ (later : List Curve) (i : Nat) (c : Curve), l.get? i = some c →
        (l.offerAll later).get? i = some c)
      ∧ (∀ (k : String) (i : Nat), l.numbers.get? k = some i ↔
        ∃ c, l.get? i = some c ∧ Text.fold c.name = k)
      ∧ (∀ (name : String) (i : Nat), l.index? name = some i ↔
        ∃ c, l.get? i = some c ∧ Text.fold c.name = Text.fold name)
      ∧ (∀ (i j : Nat) (c d : Curve), l.get? i = some c → l.get? j = some d →
        Text.fold c.name = Text.fold d.name → i = j)
      ∧ (∀ (i : Nat) (c : Curve), l.get? i = some c →
        c.coefficients.length = c.form.coefficientsNeeded)
      ∧ (∀ i : Nat, (∃ c, l.get? i = some c) ↔ 1 ≤ i ∧ i ≤ l.size)
      ∧ ∀ (i : Nat) (inputs : List Float),
        (l.get? i = none → l.value i inputs = .error (.noCurve i))
          ∧ ∀ c, l.get? i = some c →
            (inputs.length ≠ c.form.inputsNeeded →
              l.value i inputs
                = .error (.inputsNeeded c.name c.form.inputsNeeded inputs.length))
            ∧ (inputs.length = c.form.inputsNeeded → ∃ raw, c.read? inputs = some raw
              ∧ l.value i inputs = finite c.name (c.output.cut raw)) := by
  have hsound : l.Sound := hl ▸ sound_empty.offerAll offered
  refine ⟨fun c i grown hregister => ?_, fun c e after hregister => ?_, fun c => ?_,
    fun later i c hc => get?_offerAll hc later, hsound.named,
    fun name i => hsound.index?_eq_some_iff, fun i j c d => hsound.get?_unique, fun i c => hsound.length_coefficients, l.exists_get?_iff,
    fun i inputs => ?_⟩
  · rcases l.register_cases c with ⟨e, hrefused, -⟩ | ⟨htaken, -⟩
    · cases hregister.symm.trans hrefused
    · cases hregister.symm.trans htaken
      have hsize : (l.take c).size = l.size + 1 := Array.size_push c
      refine ⟨hsize.symm, hsize, ?_, ?_⟩
      · rw [get?_take, if_pos rfl]
      · rw [offer, htaken]
  · rcases l.register_cases c with ⟨e', hrefused, -⟩ | ⟨htaken, -⟩
    · cases hregister.symm.trans hrefused
      rfl
    · cases hregister.symm.trans htaken
  · rcases l.register_cases c with ⟨e, hrefused, hbad⟩ | ⟨htaken, hgood⟩
    · rw [hrefused]
      refine ⟨?_, fun hgood => absurd hgood hbad⟩
      rintro ⟨i, htaken⟩
      cases htaken
    · rw [htaken]
      exact ⟨fun _ => hgood, fun _ => ⟨_, rfl⟩⟩
  · refine ⟨fun hnone => value_of_none hnone inputs, fun c hc => ?_⟩
    rw [value_of_get? hc]
    exact c.evaluate_eq (hsound.length_coefficients hc) inputs

/-- A curve in one input. -/
def fan : Curve :=
  ⟨"Fan", .quadratic, [1.0, 2.0, 3.0], ⟨none, none⟩, ⟨none, none⟩, ⟨none, none⟩⟩

/-- A curve without all coefficients that its form needs. -/
def pump : Curve :=
  { fan with name := "Pump", form := .cubic }

/-- A curve in two inputs, the first of which is cut. -/
def coil : Curve :=
  ⟨"Coil", .biquadratic, [1.0, 0.0, 0.0, 0.0, 0.0, 1.0], ⟨none, some 5.0⟩, ⟨none, none⟩,
    ⟨none, none⟩⟩

/-- Two good curves, and between them one without its coefficients and one whose name is taken. -/
def fanAndCoil : List Curve :=
  [fan, pump, { fan with name := "FAN" }, coil]

theorem offered_table_consistent_fanAndCoil :
    (∃ l, (empty.offerAll (fanAndCoil.take 3)).register coil = (.ok 2, l) ∧ 2 = l.size
        ∧ l.get? 2 = some coil)
      ∧ (empty.offerAll (fanAndCoil.take 1)).offer pump = empty.offerAll (fanAndCoil.take 1)
      ∧ (empty.offerAll fanAndCoil).get? 1 = some fan
      ∧ (empty.offerAll fanAndCoil).numbers.get? "FAN" = some 1
      ∧ (empty.offerAll fanAndCoil).index? "fAN" = some 1
      ∧ (empty.offerAll fanAndCoil).value 2 [9.0] = .error (.inputsNeeded "Coil" 2 1)
      ∧ ∃ raw, coil.read? [9.0, 3.0] = some raw
        ∧ (empty.offerAll fanAndCoil).value 2 [9.0, 3.0]
          = finite "Coil" (coil.output.cut raw) := by
  have htaken : (empty.offerAll (fanAndCoil.take 3)).register coil
      = (.ok 2, empty.offerAll fanAndCoil) := by
    decide +kernel
  have hrefused : (empty.offerAll (fanAndCoil.take 1)).register pump
      = (.error (.coefficientsNeeded "Pump" 4 3),
          (empty.offerAll (fanAndCoil.take 1)).offer pump) := by
    decide +kernel
  have hfirst : (empty.offerAll (fanAndCoil.take 1)).get? 1 = some fan := by
    decide +kernel
  obtain ⟨hregister, -⟩ := offered_table_consistent (fanAndCoil.take 3) rfl
  obtain ⟨-, hrefuse, -, hlater, -⟩ := offered_table_consistent (fanAndCoil.take 1) rfl
  obtain ⟨-, -, -, -, hmap, hname, -, -, -, hvalue⟩ := offered_table_consistent fanAndCoil rfl
  obtain ⟨hnumber, -, hcoil, -⟩ := hregister _ _ _ htaken
  have hfan : (empty.offerAll fanAndCoil).get? 1 = some fan :=
    hlater (fanAndCoil.drop 1) 1 fan hfirst
  exact ⟨⟨_, htaken, hnumber, hcoil⟩, hrefuse _ _ _ hrefused, hfan,
    (hmap _ _).2 ⟨fan, hfan, by decide +kernel⟩, (hname _ _).2 ⟨fan, hfan, by decide +kernel⟩,
    ((hvalue 2 [9.0]).2 coil hcoil).1 (by decide), ((hvalue 2 [9.0, 3.0]).2 coil hcoil).2 rfl⟩

end Curves

end Erl
