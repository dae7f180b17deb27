import Mathlib
import Hetnet.Workers

/-!
# Blocks tile the positions

Whoever hands out the positions below a length to workers must leave none out and hand none out
twice. Blocks that adjoin each other do neither, whatever their sizes (`Block.Adjoin`): the
positions of all blocks, one block after the other, are the positions from the start of the
first to the end of the last.

The blocks of a partition adjoin because all of them but the last begin and end at multiples of
one size. That the last such multiple is not past the length is the only thing about the
division that matters (`mul_div_le_length`), and it also keeps every product and every sum within
the word in which the length was given. If there are more blocks than positions, the size is
zero, all blocks but the last are empty, and nothing else changes.
-/

namespace Hetnet

namespace Block

/-- The positions of a block in order. -/
def positions (block : Block) : List Nat := List.range' block.start (block.stop - block.start)

/-- The positions that a block holds. -/
def Holds (block : Block) (x : Nat) : Prop := block.start ≤ x ∧ x < block.stop

/-! ## Adjoining blocks -/

/-- Blocks that lead from one position to another, each beginning where the one before it
ends. -/
inductive Adjoin : Nat → List Block → Nat → Prop
  | nil (start : Nat) : Adjoin start [] start
  | cons {start stop : Nat} {block : Block} {rest : List Block} (hstart : block.start = start)
      (hle : block.start ≤ block.stop) (hrest : Adjoin block.stop rest stop) :
      Adjoin start (block :: rest) stop

namespace Adjoin

variable {start middle stop : Nat} {blocks others : List Block}

theorem append (h : Adjoin start blocks middle) (hothers : Adjoin middle others stop) :
    Adjoin start (blocks ++ others) stop := by
  induction h with
  | nil _ => exact hothers
  | cons hstart hle _ ih => exact .cons hstart hle (ih hothers)

theorem le (h : Adjoin start blocks stop) : start ≤ stop := by
  induction h with
  | nil _ => exact le_rfl
  | cons hstart hle _ ih => exact hstart ▸ hle.trans ih

theorem start_le_of_mem (h : Adjoin start blocks stop) {block : Block} (hblock : block ∈ blocks) :
    start ≤ block.start ∧ block.start ≤ block.stop := by
  induction h with
  | nil _ => cases hblock
  | cons hstart hle _ ih =>
      rcases List.mem_cons.mp hblock with rfl | hrest
      · exact ⟨hstart.ge, hle⟩
      · obtain ⟨hlate, hstop⟩ := ih hrest
        exact ⟨hstart ▸ hle.trans hlate, hstop⟩

theorem isChain (h : Adjoin start blocks stop) :
    blocks.IsChain fun block next => next.start = block.stop := by
  induction h with
  | nil _ => exact .nil
  | cons _ _ hrest ih =>
      cases hrest with
      | nil _ => exact .singleton _
      | cons hnext _ _ => exact .cons_cons hnext ih

/-- One block after the other, adjoining blocks list every position once. -/
theorem flatMap_positions (h : Adjoin start blocks stop) :
    blocks.flatMap positions = List.range' start (stop - start) := by
  induction h with
  | nil start => rw [Nat.sub_self]; rfl
  | @cons start stop block rest hstart hle hrest ih =>
      have hstop : block.start + (block.stop - block.start) = block.stop := by omega
      have hsplit : stop - start = (block.stop - block.start) + (stop - block.stop) := by
        have := hrest.le
        omega
      subst hstart
      rw [List.flatMap_cons, ih, positions, hsplit, ← List.range'_append_1, hstop]

/-- A position is in one block and in no other. -/
theorem existsUnique (h : Adjoin start blocks stop) {x : Nat} (hlow : start ≤ x)
    (hhigh : x < stop) : ∃! i : Fin blocks.length, (blocks[i]).Holds x := by
  induction h with
  | nil _ => exact absurd hhigh (Nat.not_lt.mpr hlow)
  | @cons start stop block rest hstart hle hrest ih =>
      by_cases hfirst : x < block.stop
      · refine ⟨⟨0, Nat.succ_pos _⟩, ⟨hstart.trans_le hlow, hfirst⟩, fun i hi => ?_⟩
        -- All later blocks begin after the position.
        obtain ⟨_ | i, hlt⟩ := i
        · rfl
        · have hi' : i < rest.length := Nat.lt_of_succ_lt_succ hlt
          have hlate := (hrest.start_le_of_mem (List.getElem_mem hi')).1
          exact absurd (hlate.trans hi.1) (Nat.not_le.mpr hfirst)
      · obtain ⟨i, hi, honly⟩ := ih (Nat.not_lt.mp hfirst) hhigh
        refine ⟨i.succ, hi, fun j hj => ?_⟩
        obtain ⟨_ | j, hlt⟩ := j
        · exact absurd hj.2 hfirst
        · exact congrArg Fin.succ (honly ⟨j, Nat.lt_of_succ_lt_succ hlt⟩ hj)

end Adjoin

/-! ## The blocks of a partition -/

variable {parts : Nat}

theorem adjoin_multiples (size count : Nat) :
    Adjoin 0 ((List.range count).map fun i => ⟨i * size, i * size + size⟩) (count * size) := by
  induction count with
  | zero =>
      rw [Nat.zero_mul]
      exact .nil 0
  | succ count ih =>
      rw [List.range_succ, List.map_append, List.map_singleton, Nat.succ_mul]
      exact ih.append (.cons rfl (Nat.le_add_right _ _) (.nil _))

theorem mul_div_le_length (length : Nat) {i : Nat} (h : i ≤ parts) :
    i * (length / parts) ≤ length :=
  (Nat.mul_le_mul_right _ h).trans (Nat.mul_div_le length parts)

/-- All blocks but the last have the same size. -/
theorem partition_succ (length count : Nat) :
    partition length (count + 1) =
      ((List.range count).map fun i =>
          ⟨i * (length / (count + 1)), i * (length / (count + 1)) + length / (count + 1)⟩) ++
        [⟨count * (length / (count + 1)), length⟩] := by
  rw [partition, List.range_succ, List.map_append, List.map_singleton, if_pos rfl]
  refine congrArg (· ++ _) (List.map_congr_left fun i hi => ?_)
  have hlt := List.mem_range.mp hi
  rw [if_neg (by omega)]

theorem adjoin_partition (length : Nat) (h : parts ≠ 0) :
    Adjoin 0 (partition length parts) length := by
  obtain ⟨count, rfl⟩ := Nat.exists_eq_succ_of_ne_zero h
  rw [partition_succ]
  exact (adjoin_multiples _ count).append
    (.cons rfl (mul_div_le_length length (Nat.le_succ count)) (.nil length))

/-- The blocks that the positions below a length are cut into. -/
structure Tiling (length parts : Nat) (blocks : List Block) : Prop where
  count : blocks.length = parts
  ordered : ∀ block ∈ blocks, block.start ≤ block.stop
  first : blocks.head?.map Block.start = some 0
  next : blocks.IsChain fun block next => next.start = block.stop
  last : blocks.getLast?.map Block.stop = some length
  once : ∀ x < length, ∃! i : Fin blocks.length, (blocks[i]).Holds x
  positions : blocks.flatMap Block.positions = List.range length
  size : ∀ block ∈ blocks.dropLast, block.stop - block.start = length / parts

theorem tiling_partition (length : Nat) (h : parts ≠ 0) :
    Tiling length parts (partition length parts) where
  count := by rw [partition, List.length_map, List.length_range]
  ordered block hblock := ((adjoin_partition length h).start_le_of_mem hblock).2
  first := by
    obtain ⟨count, rfl⟩ := Nat.exists_eq_succ_of_ne_zero h
    rw [partition, List.range_succ_eq_map, List.map_cons, List.head?_cons, Option.map_some,
      Nat.zero_mul]
  next := (adjoin_partition length h).isChain
  last := by
    obtain ⟨count, rfl⟩ := Nat.exists_eq_succ_of_ne_zero h
    rw [partition_succ, List.getLast?_concat, Option.map_some]
  once x hx := (adjoin_partition length h).existsUnique (Nat.zero_le x) hx
  positions := by
    rw [(adjoin_partition length h).flatMap_positions, Nat.sub_zero, List.range_eq_range']
  size := by
    obtain ⟨count, rfl⟩ := Nat.exists_eq_succ_of_ne_zero h
    rw [partition_succ, List.dropLast_concat]
    intro block hblock
    obtain ⟨i, -, rfl⟩ := List.mem_map.mp hblock
    exact Nat.add_sub_cancel_left _ _

/-! ## In words of 64 bits -/

/-- A partition computed in words of 64 bits, in which products and sums wrap around. The list of
its blocks is requested at its full size. -/
def partitionWords (length parts : UInt64) : Except Failure (List (UInt64 × UInt64)) := do
  if parts = 0 then
    return []
  reserve parts.toNat bytes
  let size := length / parts
  return (List.range parts.toNat).map fun i =>
    let start := UInt64.ofNat i * size
    (start, if UInt64.ofNat i + 1 = parts then length else start + size)

/-- The block that two words bound. -/
def ofWords (bounds : UInt64 × UInt64) : Block := ⟨bounds.1.toNat, bounds.2.toNat⟩

/-- No product wraps around, because it is not past the length. -/
theorem toNat_multiple (length : UInt64) {parts : UInt64} {i : Nat} (h : i < parts.toNat) :
    (UInt64.ofNat i * (length / parts)).toNat = i * (length.toNat / parts.toNat) := by
  have hi : i < UInt64.size := h.trans parts.toNat_lt_size
  have hle := mul_div_le_length length.toNat h.le
  rw [UInt64.toNat_mul, UInt64.toNat_ofNat_of_lt' hi, UInt64.toNat_div]
  exact Nat.mod_eq_of_lt (hle.trans_lt length.toNat_lt)

/-- No sum wraps around either. -/
theorem toNat_next_multiple (length : UInt64) {parts : UInt64} {i : Nat} (h : i < parts.toNat) :
    (UInt64.ofNat i * (length / parts) + length / parts).toNat =
      i * (length.toNat / parts.toNat) + length.toNat / parts.toNat := by
  have hle := mul_div_le_length length.toNat (Nat.succ_le_of_lt h)
  rw [Nat.succ_mul] at hle
  rw [UInt64.toNat_add, toNat_multiple length h, UInt64.toNat_div]
  exact Nat.mod_eq_of_lt (hle.trans_lt length.toNat_lt)

theorem ofNat_succ_eq_iff {parts : UInt64} {i : Nat} (h : i < parts.toNat) :
    UInt64.ofNat i + 1 = parts ↔ i + 1 = parts.toNat := by
  have hi : i < UInt64.size := h.trans parts.toNat_lt_size
  have hle : i + 1 < 2 ^ 64 := (Nat.succ_le_of_lt h).trans_lt parts.toNat_lt
  rw [← UInt64.toNat_inj, UInt64.toNat_add, UInt64.toNat_ofNat_of_lt' hi, UInt64.toNat_one,
    Nat.mod_eq_of_lt hle]

/-- In words, a partition has the same blocks. -/
theorem partitionWords_eq_ok {length parts : UInt64}
    (hroom : reserve parts.toNat bytes = .ok ()) :
    ∃ words, partitionWords length parts = .ok words ∧
      words.map ofWords = partition length.toNat parts.toNat := by
  rw [partitionWords]
  split
  · next hzero => exact ⟨[], rfl, by rw [hzero]; rfl⟩
  · rw [hroom]
    refine ⟨_, rfl, ?_⟩
    rw [partition, List.map_map]
    refine List.map_congr_left fun i hi => ?_
    have hlt := List.mem_range.mp hi
    refine congrArg₂ Block.mk (toNat_multiple length hlt) ?_
    show (if UInt64.ofNat i + 1 = parts then length else _).toNat = _
    rw [apply_ite UInt64.toNat, toNat_next_multiple length hlt]
    exact if_congr (ofNat_succ_eq_iff hlt) rfl rfl

/-- A partition into at least one block tiles the positions, however many blocks there are, and
computing it in words gives the same blocks, because nothing that is computed is past the
length. -/
theorem partition_tiles (length : Nat) {parts : Nat} (h : 1 ≤ parts) :
    Tiling length parts (partition length parts) ∧
      (∀ i < parts, i * (length / parts) ≤ length ∧
        i * (length / parts) + length / parts ≤ length) ∧
      ∀ lengthWord partsWord : UInt64, lengthWord.toNat = length → partsWord.toNat = parts →
        reserve parts bytes = .ok () → ∃ words, partitionWords lengthWord partsWord = .ok words ∧
          words.map ofWords = partition length parts := by
  refine ⟨tiling_partition length (Nat.one_le_iff_ne_zero.mp h), fun i hi => ?_, ?_⟩
  · have hnext := mul_div_le_length length (Nat.succ_le_of_lt hi)
    rw [Nat.succ_mul] at hnext
    exact ⟨mul_div_le_length length hi.le, hnext⟩
  · rintro lengthWord partsWord rfl rfl hroom
    exact partitionWords_eq_ok hroom

/-- Two positions in four blocks, of which only the last holds any. -/
theorem partition_tiles_few :
    1 ≤ 4 ∧ reserve 4 bytes = .ok () ∧
      partition 2 4 = [⟨0, 0⟩, ⟨0, 0⟩, ⟨0, 0⟩, ⟨0, 2⟩] ∧ Tiling 2 4 (partition 2 4) ∧
      ∃ words, partitionWords 2 4 = .ok words ∧ words.map ofWords = partition 2 4 := by
  have hroom : reserve 4 bytes = .ok () := by decide +kernel
  obtain ⟨htiling, -, hwords⟩ := partition_tiles 2 (show 1 ≤ 4 by decide)
  exact ⟨by decide, hroom, by decide, htiling, hwords 2 4 rfl rfl hroom⟩

end Block

end Hetnet
