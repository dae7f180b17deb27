import Mathlib
import Hetnet.Decimal.Shortest

/-!
# Doubles are compared as the numbers they denote

Draws and probabilities meet in one comparison of doubles, and what sampling needs to
know about doubles is how this comparison behaves. Between finite doubles it is the
order of the denoted numbers: `Double.le_iff_of_value?`.

Doubles are unpacked into a sign, a significand and an exponent, and unpacked numbers
are compared by the exponent first. That is the order of the numbers because an unpacked
number is canonical: a significand without a leading one occurs at the least exponent
only.
-/

namespace Hetnet

open Float.Model Float.Model.UnpackedFloat

namespace Binary

/-- The number that is denoted; infinities and NaN denote none. -/
def value? : Binary → Option ℚ
  | finite negative m q => some (if negative then -(m * 2 ^ q) else m * 2 ^ q)
  | _ => none

/-- Whether a sign is the negative one. -/
def isNegative : Sign → Bool
  | .negative => true
  | .positive => false

/-- An unpacked double, decoded. -/
def ofUnpacked : UnpackedFloat → Binary
  | .notANumber => nan
  | .infinity s => infinite (isNegative s)
  | .zero s => finite (isNegative s) 0 leastExponent
  | .finite s m e _ => finite (isNegative s) m e

end Binary

namespace Double

/-! ## Unpacking -/

theorem toNat_unpackExponent (b : BitVec 64) :
    (@unpackExponent .binary64 b).toNat = b.toNat / 2 ^ 52 % 2 ^ 11 := by
  simp [unpackExponent, BitVec.extractLsb_toNat, Nat.shiftRight_eq_div_pow]

theorem toNat_unpackMantissa (b : BitVec 64) :
    (@unpackMantissa .binary64 b).toNat = b.toNat % 2 ^ 52 := by
  simp [unpackMantissa, BitVec.extractLsb_toNat]

theorem toNat_unpackSign (b : BitVec 64) :
    (@unpackSign .binary64 b).toNat = b.toNat / 2 ^ 63 := by
  have hlt : b.toNat < 2 ^ 64 := b.isLt
  simp only [unpackSign, BitVec.extractLsb_toNat, BitVec.toNat_cast, Nat.shiftRight_eq_div_pow]
  omega

theorem toNat_implicit (v : BitVec 52) : (1#1 ++ v).toNat = 2 ^ 52 + v.toNat := by
  rw [BitVec.toNat_append, ← Nat.shiftLeft_add_eq_or_of_lt v.isLt]
  rfl

theorem isNegative_unpackSign (b : BitVec 64) :
    Binary.isNegative (Sign.ofBitVec (@unpackSign .binary64 b)) =
      decide (b.toNat / 2 ^ 63 = 1) := by
  have hsign := toNat_unpackSign b
  have hlt : b.toNat < 2 ^ 64 := b.isLt
  have hzero : @unpackSign .binary64 b = 0#1 ↔ b.toNat / 2 ^ 63 = 0 := by
    rw [← hsign, ← BitVec.toNat_inj]
    rfl
  rw [Sign.ofBitVec]
  by_cases h : b.toNat / 2 ^ 63 = 0
  · rw [if_pos (hzero.mpr h), h]
    rfl
  · rw [if_neg fun heq => h (hzero.mp heq)]
    exact (decide_eq_true (show b.toNat / 2 ^ 63 = 1 by omega)).symm

theorem ofBits_eq (word : UInt64) :
    Binary.ofBits word =
      if word.toNat / 2 ^ 52 % 2 ^ 11 = 2047 then
        if word.toNat % 2 ^ 52 = 0 then .infinite (word.toNat / 2 ^ 63 = 1) else .nan
      else if word.toNat / 2 ^ 52 % 2 ^ 11 = 0 then
        .finite (word.toNat / 2 ^ 63 = 1) (word.toNat % 2 ^ 52) (-1074)
      else
        .finite (word.toNat / 2 ^ 63 = 1) (2 ^ 52 + word.toNat % 2 ^ 52)
          (((word.toNat / 2 ^ 52 % 2 ^ 11 : Nat) : Int) - 1 + -1074) :=
  rfl

/-- The word of a double is decoded as it is unpacked. -/
theorem ofBits_eq_ofUnpacked (word : UInt64) :
    Binary.ofBits word = Binary.ofUnpacked (UnpackedFloat.unpack .binary64 word.toBitVec) := by
  have hexponent := toNat_unpackExponent word.toBitVec
  have hfraction := toNat_unpackMantissa word.toBitVec
  have hones : @unpackExponent .binary64 word.toBitVec = -1#11 ↔
      word.toNat / 2 ^ 52 % 2 ^ 11 = 2047 := by
    rw [← UInt64.toNat_toBitVec, ← hexponent, ← BitVec.toNat_inj]
    rfl
  have hzeros : @unpackExponent .binary64 word.toBitVec = 0#11 ↔
      word.toNat / 2 ^ 52 % 2 ^ 11 = 0 := by
    rw [← UInt64.toNat_toBitVec, ← hexponent, ← BitVec.toNat_inj]
    rfl
  have hnone : @unpackMantissa .binary64 word.toBitVec = 0#52 ↔
      word.toNat % 2 ^ 52 = 0 := by
    rw [← UInt64.toNat_toBitVec, ← hfraction, ← BitVec.toNat_inj]
    rfl
  have hbias : ((Format.exponentBias .binary64 : Nat) : Int) = 1023 := rfl
  rw [ofBits_eq, UnpackedFloat.unpack]
  dsimp only
  -- Both sides ask the same questions of the exponent field, then of the fraction.
  by_cases h2047 : word.toNat / 2 ^ 52 % 2 ^ 11 = 2047
  · rw [if_pos h2047, if_pos (hones.mpr h2047)]
    by_cases h0 : word.toNat % 2 ^ 52 = 0
    · rw [if_pos h0, if_pos (hnone.mpr h0), Binary.ofUnpacked, isNegative_unpackSign]
      rfl
    · rw [if_neg h0, if_neg fun h => h0 (hnone.mp h)]
      rfl
  · rw [if_neg h2047, if_neg fun h => h2047 (hones.mp h)]
    by_cases he : word.toNat / 2 ^ 52 % 2 ^ 11 = 0
    · rw [if_pos he, if_pos (hzeros.mpr he)]
      by_cases h0 : word.toNat % 2 ^ 52 = 0
      · rw [dif_pos (hnone.mpr h0), h0, Binary.ofUnpacked, isNegative_unpackSign]
        rfl
      · rw [dif_neg fun h => h0 (hnone.mp h), Binary.ofUnpacked, isNegative_unpackSign,
          hfraction, hexponent, UInt64.toNat_toBitVec, he, hbias]
        rfl
    · rw [if_neg he, if_neg fun h => he (hzeros.mp h), Binary.ofUnpacked,
        isNegative_unpackSign, toNat_implicit, hfraction, hexponent, UInt64.toNat_toBitVec,
        hbias]
      congr 1
      omega

theorem ofFloat_eq_ofUnpacked (x : Float) :
    Binary.ofFloat x = Binary.ofUnpacked x.toModel.unpack :=
  ofBits_eq_ofUnpacked x.toBits

/-! ## Canonical numbers -/

/-- An unpacked number with a leading one, or else with the least exponent. -/
def Canonical : UnpackedFloat → Prop
  | .finite _ m e _ => m < 2 ^ 53 ∧ -1074 ≤ e ∧ (2 ^ 52 ≤ m ∨ e = -1074)
  | _ => True

theorem canonical_unpack (word : UInt64) :
    Canonical (UnpackedFloat.unpack .binary64 word.toBitVec) := by
  have hfraction : (@unpackMantissa .binary64 word.toBitVec).toNat < 2 ^ 52 :=
    BitVec.isLt _
  have hbias : ((Format.exponentBias .binary64 : Nat) : Int) = 1023 := rfl
  rw [UnpackedFloat.unpack]
  dsimp only
  split
  · split <;> trivial
  · split
    · next hzeros =>
        split
        · trivial
        · refine ⟨by omega, ?_, Or.inr ?_⟩ <;> rw [hzeros, hbias] <;> decide
    · next hzeros =>
        have hpos : (@unpackExponent .binary64 word.toBitVec).toNat ≠ 0 := by
          intro h
          exact hzeros (BitVec.eq_of_toNat_eq h)
        refine ⟨?_, ?_, Or.inl ?_⟩
        · rw [toNat_implicit]
          omega
        · rw [hbias]
          omega
        · rw [toNat_implicit]
          omega

/-- Among canonical numbers the one with the greater exponent is the greater one. -/
theorem mul_zpow_lt {m₁ m₂ : Nat} {e₁ e₂ : Int} (h₁ : m₁ < 2 ^ 53) (h₂ : 2 ^ 52 ≤ m₂)
    (h : e₁ < e₂) : (m₁ : ℚ) * 2 ^ e₁ < m₂ * 2 ^ e₂ := by
  have hm₁ : (m₁ : ℚ) < 2 ^ 53 := by exact_mod_cast h₁
  have hm₂ : (2 ^ 52 : ℚ) ≤ m₂ := by exact_mod_cast h₂
  have hpow : (2 : ℚ) ^ (e₁ + 1) ≤ 2 ^ e₂ := zpow_le_zpow_right₀ (by norm_num) (by omega)
  calc (m₁ : ℚ) * 2 ^ e₁ < 2 ^ 53 * 2 ^ e₁ := by gcongr
    _ = 2 ^ 52 * 2 ^ (e₁ + 1) := by
        rw [zpow_add₀ (by norm_num)]
        ring
    _ ≤ m₂ * 2 ^ e₂ := by gcongr

theorem compare_mul_zpow {m₁ m₂ : Nat} {e₁ e₂ : Int}
    (h₁ : m₁ < 2 ^ 53 ∧ -1074 ≤ e₁ ∧ (2 ^ 52 ≤ m₁ ∨ e₁ = -1074))
    (h₂ : m₂ < 2 ^ 53 ∧ -1074 ≤ e₂ ∧ (2 ^ 52 ≤ m₂ ∨ e₂ = -1074)) :
    compare ((m₁ : ℚ) * 2 ^ e₁) (m₂ * 2 ^ e₂) = (compare e₁ e₂).then (compare m₁ m₂) := by
  rcases lt_trichotomy e₁ e₂ with hlt | rfl | hgt
  · have hlead : 2 ^ 52 ≤ m₂ := h₂.2.2.resolve_right (by omega)
    rw [compare_lt_iff_lt.mpr hlt, compare_lt_iff_lt.mpr (mul_zpow_lt h₁.1 hlead hlt)]
    rfl
  · have hpos : (0 : ℚ) < 2 ^ e₁ := by positivity
    rw [compare_eq_iff_eq.mpr rfl]
    rcases lt_trichotomy m₁ m₂ with hlt | rfl | hgt
    · rw [compare_lt_iff_lt.mpr hlt, compare_lt_iff_lt.mpr (by gcongr)]
      rfl
    · rw [compare_eq_iff_eq.mpr rfl, compare_eq_iff_eq.mpr rfl]
      rfl
    · rw [compare_gt_iff_gt.mpr hgt, compare_gt_iff_gt.mpr (by gcongr)]
      rfl
  · have hlead : 2 ^ 52 ≤ m₁ := h₁.2.2.resolve_right (by omega)
    rw [compare_gt_iff_gt.mpr hgt, compare_gt_iff_gt.mpr (mul_zpow_lt h₂.1 hlead hgt)]
    rfl

/-! ## The comparison -/

theorem mul_zpow_pos {m : Nat} (hm : 0 < m) (e : Int) : (0 : ℚ) < m * 2 ^ e := by
  positivity

theorem compare_neg_neg (a b : ℚ) : compare (-a) (-b) = (compare a b).swap := by
  rw [← Std.OrientedCmp.eq_swap]
  rcases lt_trichotomy a b with hlt | rfl | hgt
  · rw [compare_gt_iff_gt.mpr (neg_lt_neg hlt), compare_gt_iff_gt.mpr hlt]
  · rw [compare_eq_iff_eq.mpr rfl, compare_eq_iff_eq.mpr rfl]
  · rw [compare_lt_iff_lt.mpr (neg_lt_neg hgt), compare_lt_iff_lt.mpr hgt]

/-- The unpacked doubles that denote numbers. -/
theorem cases_of_value? {u : UnpackedFloat} {a : ℚ} (h : (Binary.ofUnpacked u).value? = some a) :
    (∃ s, u = .zero s ∧ a = 0) ∨
      (∃ m e hm, u = .finite .positive m e hm ∧ a = m * 2 ^ e) ∨
        ∃ m e hm, u = .finite .negative m e hm ∧ a = -(m * 2 ^ e) := by
  match u with
  | .notANumber => cases h
  | .infinity .positive => cases h
  | .infinity .negative => cases h
  | .zero s =>
      refine Or.inl ⟨s, rfl, ?_⟩
      cases s <;> simpa [Binary.ofUnpacked, Binary.value?, Binary.isNegative] using h.symm
  | .finite .positive m e hm => exact Or.inr (Or.inl ⟨m, e, hm, rfl, (Option.some.inj h).symm⟩)
  | .finite .negative m e hm => exact Or.inr (Or.inr ⟨m, e, hm, rfl, (Option.some.inj h).symm⟩)

/-- Canonical numbers are compared as the numbers that they denote. -/
theorem compare_eq_compare {u v : UnpackedFloat} (hu : Canonical u) (hv : Canonical v)
    {a b : ℚ} (ha : (Binary.ofUnpacked u).value? = some a)
    (hb : (Binary.ofUnpacked v).value? = some b) : u.compare v = some (compare a b) := by
  rcases cases_of_value? ha with ⟨s, rfl, rfl⟩ | ⟨m₁, e₁, hm₁, rfl, rfl⟩ | ⟨m₁, e₁, hm₁, rfl, rfl⟩
  · rcases cases_of_value? hb with ⟨t, rfl, rfl⟩ | ⟨m₂, e₂, hm₂, rfl, rfl⟩ | ⟨m₂, e₂, hm₂, rfl, rfl⟩
    · rfl
    · rw [compare_lt_iff_lt.mpr (mul_zpow_pos hm₂ e₂)]
      rfl
    · rw [compare_gt_iff_gt.mpr (neg_lt_zero.mpr (mul_zpow_pos hm₂ e₂))]
      rfl
  · have hpos := mul_zpow_pos hm₁ e₁
    rcases cases_of_value? hb with ⟨t, rfl, rfl⟩ | ⟨m₂, e₂, hm₂, rfl, rfl⟩ | ⟨m₂, e₂, hm₂, rfl, rfl⟩
    · rw [compare_gt_iff_gt.mpr hpos]
      rfl
    -- Only numbers of one sign are compared by their exponents.
    · rw [compare_mul_zpow hu hv]
      rfl
    · rw [compare_gt_iff_gt.mpr ((neg_lt_zero.mpr (mul_zpow_pos hm₂ e₂)).trans hpos)]
      rfl
  · have hneg := neg_lt_zero.mpr (mul_zpow_pos hm₁ e₁)
    rcases cases_of_value? hb with ⟨t, rfl, rfl⟩ | ⟨m₂, e₂, hm₂, rfl, rfl⟩ | ⟨m₂, e₂, hm₂, rfl, rfl⟩
    · rw [compare_lt_iff_lt.mpr hneg]
      rfl
    · rw [compare_lt_iff_lt.mpr (hneg.trans (mul_zpow_pos hm₂ e₂))]
      rfl
    · rw [compare_neg_neg, compare_mul_zpow hu hv]
      rfl

/-- The number that a double denotes, unless it is infinite or NaN. -/
def value? (x : Float) : Option ℚ := (Binary.ofFloat x).value?

theorem le_iff_unpack {x y : Float} :
    x ≤ y ↔ UnpackedFloat.le x.toModel.unpack y.toModel.unpack = true := by
  show decide (x.toModel ≤ y.toModel) = true ↔ _
  rw [decide_eq_true_iff]
  rfl

/-- Finite doubles are compared as the numbers that they denote. -/
theorem le_iff_of_value? {x y : Float} {a b : ℚ} (hx : value? x = some a)
    (hy : value? y = some b) : x ≤ y ↔ a ≤ b := by
  rw [value?, ofFloat_eq_ofUnpacked] at hx hy
  have hcompare : x.toModel.unpack.compare y.toModel.unpack = some (compare a b) :=
    compare_eq_compare (canonical_unpack x.toBits) (canonical_unpack y.toBits) hx hy
  rw [le_iff_unpack, UnpackedFloat.le, hcompare, Option.any_some, Ordering.isLE_iff_ne_gt]
  exact compare_le_iff_le

theorem lt_iff_unpack {x y : Float} :
    x < y ↔ UnpackedFloat.lt x.toModel.unpack y.toModel.unpack = true := by
  show decide (x.toModel < y.toModel) = true ↔ _
  rw [decide_eq_true_iff]
  rfl

theorem lt_iff_of_value? {x y : Float} {a b : ℚ} (hx : value? x = some a)
    (hy : value? y = some b) : x < y ↔ a < b := by
  rw [value?, ofFloat_eq_ofUnpacked] at hx hy
  have hcompare : x.toModel.unpack.compare y.toModel.unpack = some (compare a b) :=
    compare_eq_compare (canonical_unpack x.toBits) (canonical_unpack y.toBits) hx hy
  rw [lt_iff_unpack, UnpackedFloat.lt, hcompare, beq_iff_eq, Option.some_inj]
  exact compare_lt_iff_lt

/-- Only one infinity lies above a number. -/
theorem le_infinity_iff {u : UnpackedFloat} {a : ℚ} (h : (Binary.ofUnpacked u).value? = some a)
    (s : Sign) : u.le (.infinity s) = true ↔ s = .positive := by
  rcases cases_of_value? h with ⟨t, rfl, -⟩ | ⟨m, e, hm, rfl, -⟩ | ⟨m, e, hm, rfl, -⟩ <;>
    cases s <;> simp [UnpackedFloat.le, UnpackedFloat.compare]

/-- Only the other infinity lies below a number. -/
theorem infinity_le_iff {u : UnpackedFloat} {a : ℚ} (h : (Binary.ofUnpacked u).value? = some a)
    (s : Sign) : UnpackedFloat.le (.infinity s) u = true ↔ s = .negative := by
  rcases cases_of_value? h with ⟨t, rfl, -⟩ | ⟨m, e, hm, rfl, -⟩ | ⟨m, e, hm, rfl, -⟩ <;>
    cases s <;> simp [UnpackedFloat.le, UnpackedFloat.compare]

theorem not_le_notANumber (u : UnpackedFloat) : u.le .notANumber = false := by
  cases u <;> rfl

/-- The order of the denoted numbers: both doubles denote one, and that of the first is
no greater. -/
def DenotesLE (x y : Float) : Prop :=
  ∃ a b, value? x = some a ∧ value? y = some b ∧ a ≤ b

theorem DenotesLE.le {x y : Float} (h : DenotesLE x y) : x ≤ y := by
  obtain ⟨a, b, hx, hy, hab⟩ := h
  exact (le_iff_of_value? hx hy).mpr hab

theorem DenotesLE.trans {x y z : Float} (hxy : DenotesLE x y) (hyz : DenotesLE y z) :
    DenotesLE x z := by
  obtain ⟨a, b, hx, hy, hab⟩ := hxy
  obtain ⟨b', c, hy', hz, hbc⟩ := hyz
  obtain rfl : b = b' := Option.some.inj (hy.symm.trans hy')
  exact ⟨a, c, hx, hz, hab.trans hbc⟩

theorem eq_of_value?_eq_none {u : UnpackedFloat} (h : (Binary.ofUnpacked u).value? = none) :
    u = .notANumber ∨ ∃ s, u = .infinity s := by
  cases u with
  | notANumber => exact Or.inl rfl
  | infinity s => exact Or.inr ⟨s, rfl⟩
  | zero s => cases h
  | finite s m e hm => cases h

/-- What lies above a number lies above every smaller number, be it an infinity. -/
theorem DenotesLE.le_of_le {x y z : Float} (hxy : DenotesLE x y) (h : y ≤ z) : x ≤ z := by
  obtain ⟨a, b, hx, hy, hab⟩ := hxy
  cases hz : value? z with
  | some c =>
      rw [le_iff_of_value? hy hz] at h
      rw [le_iff_of_value? hx hz]
      exact hab.trans h
  | none =>
      rw [value?, ofFloat_eq_ofUnpacked] at hx hy hz
      rw [le_iff_unpack] at h ⊢
      rcases eq_of_value?_eq_none hz with hu | ⟨s, hu⟩
      · rw [hu, not_le_notANumber] at h
        cases h
      · rw [hu, le_infinity_iff hy] at h
        rw [hu, le_infinity_iff hx, h]

/-- A double between two numbers is a number. -/
theorem exists_value?_of_le_of_le {x y z : Float} {a c : ℚ} (hx : value? x = some a)
    (hz : value? z = some c) (hxy : x ≤ y) (hyz : y ≤ z) : ∃ b, value? y = some b := by
  cases hy : value? y with
  | some b => exact ⟨b, rfl⟩
  | none =>
      rw [value?, ofFloat_eq_ofUnpacked] at hx hy hz
      rw [le_iff_unpack] at hxy hyz
      rcases eq_of_value?_eq_none hy with hu | ⟨s, hu⟩
      · rw [hu, not_le_notANumber] at hxy
        cases hxy
      · rw [hu, le_infinity_iff hx] at hxy
        rw [hu, infinity_le_iff hz, hxy] at hyz
        cases hyz

/-! ## Numbers with the positive sign

Neither conversion of a natural number nor a product can turn the sign, and no rounding
does, so what is drawn is at least zero. -/

/-- An unpacked double that has the positive sign. -/
def Positive : UnpackedFloat → Prop
  | .zero .positive => True
  | .infinity .positive => True
  | .finite .positive _ _ _ => True
  | _ => False

theorem positive_unpack_packComponents {spec : Format} {exponent : BitVec spec.exponentBits}
    {mantissa : BitVec spec.mantissaBitsWithoutImplicit}
    (h : exponent = -1#_ → mantissa = 0#_) :
    Positive (UnpackedFloat.unpack spec
      (packComponents spec .positive exponent mantissa)) := by
  simp only [UnpackedFloat.unpack, unpackExponent_packComponents, unpackMantissa_packComponents,
    unpackSign_packComponents, Sign.ofBitVec_toBitVec]
  split
  · next hones =>
      rw [if_pos (h hones)]
      trivial
  · split
    · split <;> trivial
    · trivial

theorem positive_unpack_pack {u : UnpackedFloat} (h : Positive u) :
    Positive (Float.Model.pack u).unpack := by
  show Positive (UnpackedFloat.unpack .binary64 (UnpackedFloat.pack .binary64 u))
  match u with
  | .zero .positive => exact positive_unpack_packComponents fun _ => rfl
  | .infinity .positive => exact positive_unpack_packComponents fun _ => rfl
  | .finite .positive m e hm =>
      rw [UnpackedFloat.pack]
      dsimp only
      split
      · exact positive_unpack_packComponents fun _ => rfl
      · next hsmall =>
          split
          · refine positive_unpack_packComponents fun hones => absurd ?_ hsmall
            have hnat := congrArg BitVec.toNat hones
            have hmod := Nat.mod_le (e + Format.exponentBias .binary64 +
              Format.mantissaBitsWithoutImplicit .binary64).toNat (2 ^ 11)
            rw [BitVec.toNat_ofNat, show (-1#(Format.exponentBits .binary64)).toNat = 2047 from rfl]
              at hnat
            show 2 ^ 11 ≤ _
            omega
          · exact positive_unpack_packComponents fun hones => absurd hones (by decide)

theorem positive_roundWithAccuracy (spec : Format) (m : Nat) (e : Int) (accuracy : Accuracy) :
    Positive (roundWithAccuracy spec .positive m e accuracy) := by
  rw [roundWithAccuracy]
  dsimp only
  split <;> trivial

theorem positive_ofNat (spec : Format) (n : Nat) : Positive (UnpackedFloat.ofNat spec n) := by
  rw [UnpackedFloat.ofNat, UnpackedFloat.ofInt, UnpackedFloat.normalize.eq_def]
  split
  · next hlt =>
      rw [compare_lt_iff_lt] at hlt
      omega
  · trivial
  · exact positive_roundWithAccuracy _ _ _ _

theorem positive_mul (spec : Format) {u : UnpackedFloat} (hu : Positive u) (m : Nat) (e : Int)
    (hm : 0 < m) : Positive (UnpackedFloat.mul spec u (.finite .positive m e hm)) := by
  match u with
  | .zero .positive => trivial
  | .infinity .positive => trivial
  | .finite .positive _ _ _ => exact positive_roundWithAccuracy _ _ _ _

theorem zero_le_of_positive {u : UnpackedFloat} (h : Positive u) (s : Sign) :
    UnpackedFloat.le (.zero s) u = true := by
  match u with
  | .zero .positive => rfl
  | .infinity .positive => rfl
  | .finite .positive _ _ _ => rfl

/-- A natural number of 64 bits times a positive double is at least zero. -/
theorem zero_le_toFloat_mul {x y : Float} {b : ℚ} (hx : value? x = some 0) (word : UInt64)
    (hy : value? y = some b) (hb : 0 < b) : x ≤ word.toFloat * y := by
  have hword : Positive word.toFloat.toModel.unpack :=
    positive_unpack_pack (positive_ofNat _ _)
  rw [value?, ofFloat_eq_ofUnpacked] at hx hy
  have hproduct : Positive (word.toFloat * y).toModel.unpack := by
    refine positive_unpack_pack ?_
    rcases cases_of_value? hy with ⟨s, -, rfl⟩ | ⟨m, e, hm, hu, -⟩ | ⟨m, e, hm, -, rfl⟩
    · exact absurd hb (lt_irrefl 0)
    · rw [hu]
      exact positive_mul _ hword m e hm
    · exact absurd hb (neg_lt_zero.mpr (mul_zpow_pos hm e)).asymm
  rw [le_iff_unpack]
  rcases cases_of_value? hx with ⟨s, hu, -⟩ | ⟨m, e, hm, -, hzero⟩ | ⟨m, e, hm, -, hzero⟩
  · rw [hu]
    exact zero_le_of_positive hproduct s
  · exact absurd hzero (mul_zpow_pos hm e).ne
  · exact absurd hzero (neg_lt_zero.mpr (mul_zpow_pos hm e)).ne'

/-! ## The bounds of a probability -/

theorem value?_zero : value? 0.0 = some 0 := by
  rw [value?, show Binary.ofFloat 0.0 = .finite false 0 (-1074) by decide +kernel]
  simp [Binary.value?]

theorem value?_half : value? 0.5 = some (1 / 2) := by
  rw [value?, show Binary.ofFloat 0.5 = .finite false (2 ^ 52) (-53) by decide +kernel]
  norm_num [Binary.value?]

theorem value?_one : value? 1.0 = some 1 := by
  rw [value?, show Binary.ofFloat 1.0 = .finite false (2 ^ 52) (-52) by decide +kernel]
  norm_num [Binary.value?]

/-- A probability is above zero unless it is zero, with either sign. -/
theorem zero_lt_iff_of_probability {p : Float} (hlow : 0.0 ≤ p) (hhigh : p ≤ 1.0) :
    0.0 < p ↔ value? p ≠ some 0 := by
  obtain ⟨a, ha⟩ := exists_value?_of_le_of_le value?_zero value?_one hlow hhigh
  have hnonneg : 0 ≤ a := (le_iff_of_value? value?_zero ha).mp hlow
  rw [lt_iff_of_value? value?_zero ha, ha, hnonneg.lt_iff_ne, ne_eq, ne_eq, Option.some_inj,
    eq_comm]

end Double

end Hetnet
