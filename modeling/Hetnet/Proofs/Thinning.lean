import Mathlib
import Hetnet.Proofs.Draws
import Hetnet.Proofs.Requests

/-!
# Sampling only takes away

Raising a probability of skipping turns kept edges into skipped ones and kept pairs into
skipped ones, and changes nothing else: the walks recorded under the higher
probabilities are a sublist of those recorded under the lower ones, walk by walk and in
the same order (`Enumerator.walksOf_sublist`). Counts, paths, traces and pairs are all
read off this list, so each of them can only shrink.

That the seeds of a branch do not depend on what was kept before it carries the
induction: a walk that survives is followed with the seeds that it had.
-/

namespace Hetnet

open Double

/-- The same settings with other probabilities. -/
def SearchSettings.skipping (s : SearchSettings) (edgeSkip nodeSkip : Float) : SearchSettings :=
  { s with edgeSkip, nodeSkip }

namespace Search

/-- The walks of a search under a higher probability are among those under a lower one. -/
theorem walks_sublist (s : Search) {low high : Float} (h : DenotesLE low high) (remaining : Nat)
    (node : NodeId) (seed : UInt64) :
    List.Sublist ({ s with edgeSkip := high }.walks remaining node seed)
      ({ s with edgeSkip := low }.walks remaining node seed) := by
  induction remaining generalizing node seed with
  | zero => exact List.Sublist.refl _
  | succ remaining ih =>
      rw [walks, walks]
      have hkept : List.Sublist ({ s with edgeSkip := high }.kept node seed)
          ({ s with edgeSkip := low }.kept node seed) :=
        Branch.kept_sublist h _ _
      refine (hkept.flatMap _).trans (List.Sublist.flatMap_right _ fun entry _ => ?_)
      refine List.Sublist.cons_cons _ ?_
      dsimp only
      split
      · exact List.Sublist.refl _
      · exact (ih _ _).map _

theorem recorded_sublist (s : Search) {low high : Float} (h : DenotesLE low high)
    (start : NodeId) (seed : UInt64) :
    List.Sublist ({ s with edgeSkip := high }.recorded start seed)
      ({ s with edgeSkip := low }.recorded start seed) :=
  (s.walks_sublist h _ start seed).filter _

end Search

namespace Enumerator

variable (e : Enumerator) (settings : SearchSettings)

theorem walksBetween_sublist {p₁ p₂ : Float} (hp : DenotesLE p₁ p₂) (q₁ q₂ : Float)
    (ends : Ends) :
    List.Sublist (e.walksBetween (settings.skipping p₂ q₂) ends)
      (e.walksBetween (settings.skipping p₁ q₁) ends) :=
  ((e.search settings ends.2).recorded_sublist hp _ _).map _

theorem keeps_of_le {q₁ q₂ : Float} (hq : DenotesLE q₁ q₂) (p₁ p₂ : Float)
    {start stop : NodeId} (h : e.keeps (settings.skipping p₂ q₂) start stop = true) :
    e.keeps (settings.skipping p₁ q₁) start stop = true :=
  Sampling.keepPair_of_le hq h

theorem endsOf_sublist {q₁ q₂ : Float} (hq : DenotesLE q₁ q₂) (p₁ p₂ : Float)
    (request : Request) :
    List.Sublist (e.endsOf (settings.skipping p₂ q₂) request)
      (e.endsOf (settings.skipping p₁ q₁) request) := by
  cases request with
  | pair start stop => exact List.Sublist.refl _
  | walksFrom start => exact List.Sublist.refl _
  | wholeGraph range =>
      refine List.Sublist.flatMap_right _ fun start _ => List.Sublist.map _ ?_
      exact List.monotone_filter_right _ fun stop => keeps_of_le e settings hq p₁ p₂
  | pairs list =>
      refine List.Sublist.flatMap_right _ fun pair _ => ?_
      rw [endsOfPair, endsOfPair]
      split
      · next hkeep =>
          rw [if_pos (keeps_of_le e settings hq p₁ p₂ hkeep)]
      · exact List.nil_sublist _

theorem walksOf_sublist {p₁ p₂ q₁ q₂ : Float} (hp : DenotesLE p₁ p₂) (hq : DenotesLE q₁ q₂)
    (request : Request) :
    List.Sublist (e.walksOf (settings.skipping p₂ q₂) request)
      (e.walksOf (settings.skipping p₁ q₁) request) :=
  ((endsOf_sublist e settings hq p₁ p₂ request).flatMap _).trans
    (List.Sublist.flatMap_right _ fun ends _ => walksBetween_sublist e settings hp q₁ q₂ ends)

end Enumerator

/-! ## Runs compared -/

namespace Enumerator

variable {e : Enumerator} {settings : SearchSettings} {request : Request}

theorem within_of_denotesLE {p₁ p₂ q₁ q₂ : Float} (hp : DenotesLE p₁ p₂)
    (hq : DenotesLE q₁ q₂) :
    Within (e.occurrencesOf (settings.skipping p₂ q₂) request)
      (e.resultOf { settings.skipping p₂ q₂ with limit := none } request)
      (e.occurrencesOf (settings.skipping p₁ q₁) request)
      (e.resultOf { settings.skipping p₁ q₁ with limit := none } request) :=
  within_of_sublist (walksOf_sublist e settings hp hq request)
    (endsOf_sublist e settings hq p₁ p₂ request).length_le

/-- Whatever the seed and the request, a run with higher probabilities of skipping finds
nothing that a run with lower ones does not find at least as often; in particular it finds
nothing that is not there when nothing is skipped. -/
theorem within_of_skipping_more (hlength : 1 ≤ settings.maxLength)
    (hroom : Trace.reserve settings.maxLength = .ok ()) (hknows : e.Knows request)
    (hread : e.network.Readable e.direction)
    (haccept : ∀ sink, e.sink = some sink → ∀ dump, sink.takes dump = .ok ())
    {p₁ p₂ q₁ q₂ : Float} (hp₁ : DenotesLE 0.0 p₁) (hp : DenotesLE p₁ p₂)
    (hp₂ : DenotesLE p₂ 1.0) (hq₁ : DenotesLE 0.0 q₁) (hq : DenotesLE q₁ q₂)
    (hq₂ : DenotesLE q₂ 1.0) :
    ∃ o₀ r₀ o₁ r₁ o₂ r₂,
      e.Answers (settings.skipping 0.0 0.0) request o₀ r₀ ∧
      e.Answers (settings.skipping p₁ q₁) request o₁ r₁ ∧
      e.Answers (settings.skipping p₂ q₂) request o₂ r₂ ∧
      Within o₂ r₂ o₁ r₁ ∧ Within o₁ r₁ o₀ r₀ ∧ Within o₂ r₂ o₀ r₀ := by
  have hanswer : ∀ {p q : Float}, DenotesLE 0.0 p → DenotesLE p 1.0 → DenotesLE 0.0 q →
      DenotesLE q 1.0 → e.CanAnswer (settings.skipping p q) request := by
    intro p q hp₀ hp₁ hq₀ hq₁
    refine ⟨SearchSettings.validate_eq_ok.mpr ?_, hroom, hknows, hread, haccept⟩
    exact ⟨Nat.one_le_iff_ne_zero.mp hlength, ⟨hq₀.le, hq₁.le⟩, hp₀.le, hp₁.le⟩
  have hzero : DenotesLE 0.0 0.0 := ⟨0, 0, value?_zero, value?_zero, le_refl 0⟩
  have hone : DenotesLE 0.0 1.0 := hp₁.trans (hp.trans hp₂)
  exact ⟨_, _, _, _, _, _, (hanswer hzero hone hzero hone).answers,
    (hanswer hp₁ (hp.trans hp₂) hq₁ (hq.trans hq₂)).answers,
    (hanswer (hp₁.trans hp) hp₂ (hq₁.trans hq) hq₂).answers,
    within_of_denotesLE hp hq, within_of_denotesLE hp₁ hq₁,
    within_of_denotesLE (hp₁.trans hp) (hq₁.trans hq)⟩

/-- The pairs of the network of two nodes, searched with every second edge skipped and
with none, with every pair skipped and with every second one. -/
theorem within_of_skipping_more_twin :
    ∃ o₀ r₀ o₁ r₁ o₂ r₂,
      Answers { network := ListedNetwork.twin.network }
        (SearchSettings.skipping { maxLength := 3 } 0.0 0.0)
        (.pairs [(⟨0⟩, ⟨1⟩), (⟨1⟩, ⟨0⟩)]) o₀ r₀ ∧
      Answers { network := ListedNetwork.twin.network }
        (SearchSettings.skipping { maxLength := 3 } 0.0 0.5)
        (.pairs [(⟨0⟩, ⟨1⟩), (⟨1⟩, ⟨0⟩)]) o₁ r₁ ∧
      Answers { network := ListedNetwork.twin.network }
        (SearchSettings.skipping { maxLength := 3 } 0.5 1.0)
        (.pairs [(⟨0⟩, ⟨1⟩), (⟨1⟩, ⟨0⟩)]) o₂ r₂ ∧
      Within o₂ r₂ o₁ r₁ ∧ Within o₁ r₁ o₀ r₀ ∧ Within o₂ r₂ o₀ r₀ := by
  have hhalf : DenotesLE 0.0 0.5 := ⟨0, 1 / 2, value?_zero, value?_half, by norm_num⟩
  have hone : DenotesLE 0.5 1.0 := ⟨1 / 2, 1, value?_half, value?_one, by norm_num⟩
  have hzero : DenotesLE 0.0 0.0 := ⟨0, 0, value?_zero, value?_zero, le_refl 0⟩
  have hfull : DenotesLE 1.0 1.0 := ⟨1, 1, value?_one, value?_one, le_refl 1⟩
  refine within_of_skipping_more (by decide) (by decide) ?_ ListedNetwork.readable_twin
    (fun sink hsink => by cases hsink) hzero hhalf hone hhalf hone hfull
  show ∀ pair ∈ [((⟨0⟩ : NodeId), (⟨1⟩ : NodeId)), (⟨1⟩, ⟨0⟩)],
    ListedNetwork.twin.network.contains pair.1 = true ∧
      ListedNetwork.twin.network.contains pair.2 = true
  decide

end Enumerator

end Hetnet
