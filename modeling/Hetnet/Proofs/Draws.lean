import Mathlib
import Hetnet.Proofs.Doubles
import Hetnet.Sampling

/-!
# A higher probability skips more

What is drawn depends on the seed and not on the probability that the draw is held
against. Two samplers that differ in the probability alone therefore draw the same
numbers and the same seeds, and the one with the higher probability keeps a
sublist of what the other keeps: `Branch.kept_sublist` for edges and `keepPair_of_le`
for pairs. A probability of zero keeps everything, because no number drawn is negative.
-/

namespace Hetnet

open Double

theorem XorShift.zero_le_nextUnit (g : XorShift) {skip : Float} (h : value? skip = some 0) :
    skip ≤ g.nextUnit.1 := by
  have hunit : value? (Float.ofBits 0x3CA0000000000000) = some (2 ^ 52 * 2 ^ (-105 : Int)) := by
    rw [value?, show Binary.ofFloat (Float.ofBits 0x3CA0000000000000) =
      .finite false (2 ^ 52) (-105) by decide +kernel]
    norm_num [Binary.value?]
  exact zero_le_toFloat_mul h _ hunit (by positivity)

namespace Branch

theorem kept_cons (b : Branch) (node : NodeId) (rest : List NodeId) :
    b.kept (node :: rest) =
      if b.skip ≤ b.generator.nextUnit.1 then
        (node, b.nextEdge.1.2) :: b.nextEdge.2.kept rest
      else b.nextEdge.2.kept rest := by
  rw [kept]
  exact if_congr decide_eq_true_iff rfl rfl

theorem nextEdge_eq (generator : XorShift) (skip : Float) :
    (Branch.mk generator skip).nextEdge.1.2 = generator.nextUnit.2.next64.1 ∧
      (Branch.mk generator skip).nextEdge.2 = ⟨generator.nextUnit.2.next64.2, skip⟩ :=
  ⟨rfl, rfl⟩

/-- Of two branches with one generator the one with the higher probability keeps less. -/
theorem kept_sublist {low high : Float} (h : DenotesLE low high) (generator : XorShift)
    (nodes : List NodeId) :
    List.Sublist ((Branch.mk generator high).kept nodes)
      ((Branch.mk generator low).kept nodes) := by
  induction nodes generalizing generator with
  | nil => exact List.Sublist.refl _
  | cons node rest ih =>
      rw [kept_cons, kept_cons, (nextEdge_eq generator high).1, (nextEdge_eq generator high).2,
        (nextEdge_eq generator low).1, (nextEdge_eq generator low).2]
      -- Both have drawn the same number, and go on with the same generator.
      by_cases hkeep : high ≤ generator.nextUnit.1
      · rw [if_pos hkeep, if_pos (h.le_of_le hkeep)]
        exact (ih _).cons_cons _
      · rw [if_neg hkeep]
        split
        · exact (ih _).cons _
        · exact ih _

theorem map_fst_kept {skip : Float} (h : value? skip = some 0) (generator : XorShift)
    (nodes : List NodeId) : ((Branch.mk generator skip).kept nodes).map Prod.fst = nodes := by
  induction nodes generalizing generator with
  | nil => rfl
  | cons node rest ih =>
      rw [kept_cons, if_pos (generator.zero_le_nextUnit h), (nextEdge_eq generator skip).2,
        List.map_cons, ih]

end Branch

namespace Sampling

/-- A pair that is kept at a higher probability is kept at a lower one. -/
theorem keepPair_of_le {low high : Float} (h : DenotesLE low high) {seed : UInt64}
    {start stop : NodeId} (hkeep : keepPair seed start stop high = true) :
    keepPair seed start stop low = true := by
  rw [keepPair] at hkeep ⊢
  by_cases hzero : low ≤ 0.0
  · rw [if_pos hzero]
  · rw [if_neg fun hle => hzero (h.le_of_le hle), decide_eq_true_iff] at hkeep
    rw [if_neg hzero, decide_eq_true_iff]
    exact h.le_of_le hkeep

theorem keepPair_of_value? {skip : Float} (h : value? skip = some 0) (seed : UInt64)
    (start stop : NodeId) : keepPair seed start stop skip = true := by
  rw [keepPair, if_pos ((le_iff_of_value? h value?_zero).mpr (le_refl 0))]

end Sampling

end Hetnet
