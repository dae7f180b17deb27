import Mathlib
import Hetnet.Text.Number

/-!
# Numbers as they may be written

A reader of numbers is lenient: it takes one plus sign and any number of leading zeros. So
a number has many numerals, and `Numeral` is the relation between the two. The reader
stops at the first fault, but it succeeds on the numerals of the numbers below its bound and
on nothing else (`readNumber_eq_ok_iff`), because what has been read never shrinks while more
digits follow: if the whole number is below the bound, so was every part of it.

The decimal form in which ids are printed is one of the numerals, the one without sign and
leading zeros, so every printed id is read back. Where only decimal forms are wanted, a number has
one (`decimalForm_iff`): digits are taken off at the end, and what is left of a
form of two digits or more is a form again, of a number that is not zero.
-/

namespace Hetnet

namespace Text

/-- The numerals of a number: at least one digit, and one plus sign before them or none. -/
def Numeral (cs : List Char) (value : Nat) : Prop :=
  ∃ digits, (cs = digits ∨ cs = '+' :: digits) ∧ digits ≠ [] ∧
    (∀ c ∈ digits, c.isDigit = true) ∧ Nat.ofDigitChars 10 digits 0 = value

theorem digit?_eq_some_iff {c : Char} {d : Nat} :
    digit? c = some d ↔ c.isDigit = true ∧ c.toNat - '0'.toNat = d := by
  rw [digit?]
  split
  · next h => simp [h]
  · next h => simp [h]

theorem le_ofDigitChars (cs : List Char) (value : Nat) :
    value ≤ Nat.ofDigitChars 10 cs value := by
  rw [Nat.ofDigitChars_eq_ofDigitChars_zero]
  exact le_trans (Nat.le_mul_of_pos_left value (Nat.pow_pos (by decide))) (Nat.le_add_right _ _)

theorem readDigits_eq_ok_iff {bound value result : Nat} {cs : List Char} (h : value < bound) :
    readDigits bound value cs = .ok result ↔ (∀ c ∈ cs, c.isDigit = true) ∧
      Nat.ofDigitChars 10 cs value = result ∧ result < bound := by
  induction cs generalizing value with
  | nil =>
      rw [readDigits, Nat.ofDigitChars_nil]
      constructor
      · intro heq
        cases heq
        exact ⟨List.forall_mem_nil _, rfl, h⟩
      · intro hparts
        rw [hparts.2.1]
  | cons c rest ih =>
      rw [readDigits, List.forall_mem_cons, Nat.ofDigitChars_cons, Nat.mul_comm 10]
      cases hdigit : digit? c with
      | none =>
          refine iff_of_false (fun heq => by cases heq) fun hparts => ?_
          rw [digit?, if_pos hparts.1.1] at hdigit
          cases hdigit
      | some d =>
          obtain ⟨hc, rfl⟩ := digit?_eq_some_iff.mp hdigit
          dsimp only
          split
          · next hlt => rw [ih hlt, and_iff_right hc]
          · next hlt =>
              refine iff_of_false (fun heq => by cases heq) fun hparts => hlt ?_
              obtain ⟨-, rfl, hresult⟩ := hparts
              exact lt_of_le_of_lt (le_ofDigitChars rest _) hresult

/-- A number is read from its numerals, if it is below the bound, and from nothing else. -/
theorem readNumber_eq_ok_iff {bound value : Nat} (hbound : 0 < bound) {cs : List Char} :
    readNumber bound cs = .ok value ↔ Numeral cs value ∧ value < bound := by
  have hplus : ¬ '+'.isDigit = true := by decide
  rw [readNumber.eq_def]
  split
  · refine iff_of_false (fun heq => by cases heq) fun hparts => ?_
    obtain ⟨⟨digits, rfl | hcs, hne, -⟩, -⟩ := hparts
    · exact hne rfl
    · cases hcs
  · refine iff_of_false (fun heq => by cases heq) fun hparts => ?_
    obtain ⟨⟨digits, rfl | hcs, hne, hdigits, -⟩, -⟩ := hparts
    · exact hplus (hdigits '+' List.mem_cons_self)
    · cases hcs
      exact hne rfl
  · next digits hne =>
      rw [readDigits_eq_ok_iff hbound]
      constructor
      · intro hparts
        obtain ⟨hdigits, hvalue, hlt⟩ := hparts
        exact ⟨⟨digits, Or.inr rfl, fun h => hne (by rw [h]), hdigits, hvalue⟩, hlt⟩
      · intro hparts
        obtain ⟨⟨others, rfl | hcs, -, hdigits, hvalue⟩, hlt⟩ := hparts
        · exact absurd (hdigits '+' List.mem_cons_self) hplus
        · cases hcs
          exact ⟨hdigits, hvalue, hlt⟩
  · next hempty _ hsign =>
      rw [readDigits_eq_ok_iff hbound]
      constructor
      · intro hparts
        obtain ⟨hdigits, hvalue, hlt⟩ := hparts
        exact ⟨⟨cs, Or.inl rfl, hempty, hdigits, hvalue⟩, hlt⟩
      · intro hparts
        obtain ⟨⟨digits, rfl | hcs, -, hdigits, hvalue⟩, hlt⟩ := hparts
        · exact ⟨hdigits, hvalue, hlt⟩
        · exact absurd hcs (hsign digits)

theorem numeral_toDigits (value : Nat) : Numeral (Nat.toDigits 10 value) value :=
  ⟨_, Or.inl rfl, Nat.toDigits_ne_nil,
    fun _ hc => Nat.isDigit_of_mem_toDigits (by decide) (by decide) hc,
    Nat.ofDigitChars_ten_toDigits⟩

/-! ## Decimal forms -/

/-- The decimal form of a number: digits, the first of which is no zero unless it is alone. -/
structure DecimalForm (cs : List Char) (value : Nat) : Prop where
  ne_nil : cs ≠ []
  digits : ∀ c ∈ cs, c.isDigit = true
  first : cs.head? = some '0' → cs = ['0']
  value : Nat.ofDigitChars 10 cs 0 = value

theorem head?_toDigits {value : Nat} :
    (Nat.toDigits 10 value).head? = some '0' ↔ value = 0 := by
  induction value using Nat.strong_induction_on with
  | _ value ih =>
      by_cases hlt : value < 10
      · rw [Nat.toDigits_of_lt_base hlt, List.head?_cons, Option.some_inj, Nat.digitChar_eq_zero]
      · have hle : 10 ≤ value := Nat.le_of_not_lt hlt
        rw [Nat.toDigits_of_base_le (by decide) hle,
          List.head?_append_of_ne_nil _ Nat.toDigits_ne_nil, ih (value / 10) (by omega)]
        omega

theorem decimalForm_toDigits (value : Nat) : DecimalForm (Nat.toDigits 10 value) value where
  ne_nil := Nat.toDigits_ne_nil
  digits _ hc := Nat.isDigit_of_mem_toDigits (by decide) (by decide) hc
  first hzero := by rw [head?_toDigits.mp hzero, Nat.toDigits_zero]
  value := Nat.ofDigitChars_ten_toDigits

theorem digit_lt_of_isDigit {c : Char} (h : c.isDigit = true) : c.toNat - '0'.toNat < 10 := by
  rw [Char.isDigit, Bool.and_eq_true, decide_eq_true_iff, decide_eq_true_iff] at h
  have hle : c.toNat ≤ 57 := h.2
  show c.toNat - 48 < 10
  omega

theorem toDigits_of_isDigit {c : Char} (h : c.isDigit = true) :
    Nat.toDigits 10 (c.toNat - '0'.toNat) = [c] := by
  have hlt := digit_lt_of_isDigit h
  rw [Nat.toDigits_of_lt_base hlt, List.singleton_inj, ← Char.toNat_inj,
    Nat.toNat_digitChar_of_lt_ten hlt]
  rw [Char.isDigit, Bool.and_eq_true, decide_eq_true_iff, decide_eq_true_iff] at h
  have hge : 48 ≤ c.toNat := h.1
  show 48 + (c.toNat - 48) = c.toNat
  omega

theorem DecimalForm.eq_toDigits {cs : List Char} {value : Nat} (h : DecimalForm cs value) :
    cs = Nat.toDigits 10 value := by
  induction cs using List.reverseRecOn generalizing value with
  | nil => exact absurd rfl h.ne_nil
  | append_singleton init c ih =>
      have hc : c.isDigit = true := h.digits c (List.mem_append_right _ List.mem_cons_self)
      have hvalue := h.value
      rw [Nat.ofDigitChars_append, Nat.ofDigitChars_cons, Nat.ofDigitChars_nil] at hvalue
      by_cases hinit : init = []
      · subst hinit
        rw [Nat.ofDigitChars_nil, Nat.mul_zero, Nat.zero_add] at hvalue
        rw [← hvalue, toDigits_of_isDigit hc, List.nil_append]
      · -- The digits before the last do not start with a zero, so they are a form themselves.
        have hfirst : init.head? ≠ some '0' := by
          intro hzero
          have heq := h.first (by rw [List.head?_append_of_ne_nil _ hinit, hzero])
          have hlength := congrArg List.length heq
          rw [List.length_append] at hlength
          exact hinit (List.length_eq_zero_iff.mp (Nat.succ.inj hlength))
        have hform := ih ⟨hinit, fun d hd => h.digits d (List.mem_append_left _ hd),
          fun hzero => absurd hzero hfirst, rfl⟩
        have hpos : 0 < Nat.ofDigitChars 10 init 0 := by
          refine Nat.pos_of_ne_zero fun hzero => hfirst ?_
          rw [hform, hzero, Nat.toDigits_zero]
          rfl
        rw [← hvalue, ← Nat.toDigits_append_toDigits (by decide) hpos (digit_lt_of_isDigit hc),
          ← hform, toDigits_of_isDigit hc]

/-- A number has one decimal form. -/
theorem decimalForm_iff {cs : List Char} {value : Nat} :
    DecimalForm cs value ↔ cs = Nat.toDigits 10 value := by
  constructor
  · exact DecimalForm.eq_toDigits
  · rintro rfl
    exact decimalForm_toDigits value

end Text

end Hetnet
