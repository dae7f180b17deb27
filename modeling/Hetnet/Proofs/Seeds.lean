import Mathlib
import Hetnet.Sampling

/-!
# Seeds of different searches differ

The search between two nodes draws from a seed that is scrambled out of the seed of the engine
and the pair. If two pairs had the same seed, their searches would make the same draws, and what
is skipped in one of them would be skipped in the other. That cannot happen, because nothing is
lost on the way: the two ids of a pair fill the two halves of a word, and a scrambling is made of
steps each of which can be undone.

Two of these steps are not seen at once to be such. Multiplying by an odd constant is undone by
multiplying with its inverse among the words. A word combined with itself moved to the right
is taken apart by looking at the difference of two words that come to the same: it does not change
when it is moved to the right, and only zero does not (`eq_of_xor_shiftRight`).
-/

namespace Hetnet

namespace Sampling

/-! ## Steps that can be undone -/

theorem eq_zero_of_shiftRight_eq {difference amount : Nat} (hamount : amount ≠ 0)
    (h : difference >>> amount = difference) : difference = 0 := by
  by_contra hne
  have hsmaller : difference / 2 ^ amount < difference :=
    Nat.div_lt_self (Nat.pos_of_ne_zero hne) (Nat.one_lt_two_pow hamount)
  rw [← Nat.shiftRight_eq_div_pow, h] at hsmaller
  exact lt_irrefl _ hsmaller

/-- A word is known from its combination with itself moved to the right. -/
theorem eq_of_xor_shiftRight {amount z w : UInt64} (hamount : amount.toNat % 64 ≠ 0)
    (h : z ^^^ (z >>> amount) = w ^^^ (w >>> amount)) : z = w := by
  have hmoved : (z ^^^ w) >>> amount = z ^^^ w := by
    have hboth : (z ^^^ (z >>> amount)) ^^^ (w ^^^ (w >>> amount)) = 0 :=
      UInt64.xor_eq_zero_iff.mpr h
    rw [UInt64.shiftRight_xor, eq_comm, ← UInt64.xor_eq_zero_iff, ← hboth]
    ac_rfl
  have hzero : (z ^^^ w).toNat = 0 := by
    refine eq_zero_of_shiftRight_eq hamount ?_
    rw [← UInt64.toNat_shiftRight, hmoved]
  exact UInt64.xor_eq_zero_iff.mp (UInt64.toNat_inj.mp hzero)

/-- A word is known from its product with a factor that has an inverse. -/
theorem eq_of_mul {factor inverse z w : UInt64} (hinverse : factor * inverse = 1)
    (h : z * factor = w * factor) : z = w := by
  calc z = z * factor * inverse := by rw [UInt64.mul_assoc, hinverse, UInt64.mul_one]
    _ = w * factor * inverse := by rw [h]
    _ = w := by rw [UInt64.mul_assoc, hinverse, UInt64.mul_one]

/-! ## Scrambling -/

/-- No two words are scrambled to the same word. -/
theorem mix_inj {z w : UInt64} : mix z = mix w ↔ z = w := by
  refine ⟨fun h => ?_, congrArg mix⟩
  have hfirst : (0xBF58476D1CE4E5B9 : UInt64) * 0x96DE1B173F119089 = 1 := by decide
  have hsecond : (0x94D049BB133111EB : UInt64) * 0x319642B2D24D8EC3 = 1 := by decide
  -- The steps are undone from the last to the first.
  have hmoved := eq_of_mul hsecond (eq_of_xor_shiftRight (by decide) h)
  have hshifted := eq_of_mul hfirst (eq_of_xor_shiftRight (by decide) hmoved)
  exact (UInt64.add_left_inj _).mp (eq_of_xor_shiftRight (by decide) hshifted)

theorem toNat_pairWord (start stop : NodeId) :
    (pairWord start stop).toNat = start.index * UInt32.size + stop.index := by
  have hstart := start.index_lt
  have hfits : start.index <<< 32 < 2 ^ 64 := by
    rw [Nat.shiftLeft_eq]
    exact Nat.mul_lt_mul_of_pos_right hstart (by decide)
  rw [pairWord, UInt64.toNat_or, UInt64.toNat_shiftLeft, UInt32.toNat_toUInt64,
    UInt32.toNat_toUInt64]
  show start.index <<< 32 % 2 ^ 64 ||| stop.index = _
  rw [Nat.mod_eq_of_lt hfits, ← Nat.shiftLeft_add_eq_or_of_lt stop.index_lt, Nat.shiftLeft_eq]

/-- The two nodes of a pair are read off its word. -/
theorem pairWord_inj {start stop first last : NodeId} :
    pairWord start stop = pairWord first last ↔ start = first ∧ stop = last := by
  constructor
  · intro h
    have hwords := congrArg UInt64.toNat h
    rw [toNat_pairWord, toNat_pairWord] at hwords
    have hstop := stop.index_lt
    have hlast := last.index_lt
    have hsize : UInt32.size = 4294967296 := rfl
    rw [hsize] at hwords hstop hlast
    exact ⟨TypedId.index_inj.mp (by omega), TypedId.index_inj.mp (by omega)⟩
  · rintro ⟨rfl, rfl⟩
    rfl

/-! ## Seeds of pairs -/

/-- Two pairs have one seed only if the engine seeds make up for the difference of the pairs. -/
theorem pairSeed_eq_iff {seed other : UInt64} {start stop first last : NodeId} :
    pairSeed seed start stop = pairSeed other first last ↔
      seed ^^^ mix (pairWord start stop) = other ^^^ mix (pairWord first last) :=
  mix_inj

/-- Under one engine seed, different pairs have different seeds, a pair and its reverse
included, and under different engine seeds every pair has different seeds. -/
theorem pairSeed_collisionFree :
    (∀ (seed : UInt64) (start stop first last : NodeId),
      pairSeed seed start stop = pairSeed seed first last ↔ (start, stop) = (first, last)) ∧
    (∀ (seed : UInt64) (start stop : NodeId),
      pairSeed seed start stop = pairSeed seed stop start ↔ start = stop) ∧
    ∀ (seed other : UInt64) (start stop : NodeId),
      pairSeed seed start stop = pairSeed other start stop ↔ seed = other := by
  have hpairs : ∀ (seed : UInt64) (start stop first last : NodeId),
      pairSeed seed start stop = pairSeed seed first last ↔ (start, stop) = (first, last) := by
    intro seed start stop first last
    rw [pairSeed_eq_iff, UInt64.xor_right_inj, mix_inj, pairWord_inj, Prod.mk.injEq]
  refine ⟨hpairs, fun seed start stop => ?_, fun seed other start stop => ?_⟩
  · rw [hpairs, Prod.mk.injEq, and_iff_left_of_imp Eq.symm]
  · rw [pairSeed_eq_iff, UInt64.xor_left_inj]

end Sampling

end Hetnet
