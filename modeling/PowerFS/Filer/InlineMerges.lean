import PowerFS.Filer.Migration

/-! # Commits of marked inline blocks

`merge_inline_dirty_blocks` lays the marked 4 KiB blocks of a client's buffer over the buffer
of the record. Seen byte by byte the loop is a pointwise choice, so commits that mark different
blocks can be applied in any order, as long as there is room for the buffer that the sizes ask
for. -/
namespace PowerFS.Filer.InlineMerges
open Lib.ByteString Lib.Positions InodeRecords Migration List

section Merge

variable (existing : Option Bytes) (existingSize : UInt64) (client : Bytes) (clientSize : UInt64)
  (mask : UInt32)

/-- The length of the merged buffer. -/
def mergedLen : Nat :=
  max (max (max (existing.getD []).length client.length) existingSize.toNat) clientSize.toNat

/-- What `vec![0u8; len]` can give: no vector has more than `isize::MAX` bytes. -/
def room (memory : Nat) : Nat := min memory (2 ^ 63 - 1)

/-- The merge with its buffer: `none` where the buffer cannot be had and the call panics or
the process goes down. -/
def mergeWithin (memory : Nat) : Option (Bytes × UInt64) :=
  if mergedLen existing existingSize client clientSize ≤ room memory then
    some (mergeInlineDirtyBlocks existing existingSize client clientSize mask)
  else none

/-- One marked block is laid over the buffer. -/
def mergeBlock (len : Nat) (merged : Bytes) (bit : Nat) : Bytes :=
  let start := bit * 4096
  let cend := min (min (start + 4096) len) client.length
  if start < len ∧ mask.toNat.testBit bit ∧ start < cend then
    pwrite merged start (slice client start cend)
  else merged

theorem merge_eq : (mergeInlineDirtyBlocks existing existingSize client clientSize mask).1 =
    (range 32).foldl (mergeBlock client mask (mergedLen existing existingSize client clientSize))
      (existing.getD [] ++ zeros (mergedLen existing existingSize client clientSize -
        (existing.getD []).length)) := rfl

/-- A block that is written again gets the same bytes. -/
theorem byteAt_blocks {len : Nat} (hlen : client.length ≤ len) (p : Nat) (bits : List Nat)
    (init : Bytes) : byteAt (bits.foldl (mergeBlock client mask len) init) p =
      if p / 4096 ∈ bits ∧ mask.toNat.testBit (p / 4096) = true ∧ p < client.length
      then byteAt client p else byteAt init p := by
  induction bits generalizing init with
  | nil => simp
  | cons bit bits ih =>
    rw [foldl_cons, ih]
    simp only [mem_cons]
    by_cases hlater : p / 4096 ∈ bits ∧ mask.toNat.testBit (p / 4096) = true ∧ p < client.length
    · rw [if_pos hlater, if_pos ⟨.inr hlater.1, hlater.2⟩]
    rw [if_neg hlater]
    by_cases hthis : bit = p / 4096 ∧ mask.toNat.testBit bit = true ∧ p < client.length
    · obtain ⟨rfl, htest, hp⟩ := hthis
      rw [mergeBlock, if_pos ⟨by omega, htest, by omega⟩, if_pos ⟨.inl rfl, htest, hp⟩,
        byteAt_pwrite, slice_length, if_pos (by omega), slice, byteAt_take, if_pos (by omega),
        byteAt_drop]
      congr 1
      omega
    have hkept : ¬ ((p / 4096 = bit ∨ p / 4096 ∈ bits) ∧ mask.toNat.testBit (p / 4096) = true ∧
        p < client.length) := by
      rintro ⟨rfl | hin, hmarked⟩
      · exact hthis ⟨rfl, hmarked⟩
      · exact hlater ⟨hin, hmarked⟩
    rw [if_neg hkept, mergeBlock]
    split
    case isFalse => rfl
    case isTrue hbit =>
      rw [byteAt_pwrite, slice_length, if_neg]
      rintro ⟨hlow, hhigh⟩
      exact hthis ⟨by omega, hbit.2.1, by omega⟩

theorem blocks_length {len : Nat} (bits : List Nat) (init : Bytes) (h : init.length = len) :
    (bits.foldl (mergeBlock client mask len) init).length = len := by
  induction bits generalizing init with
  | nil => exact h
  | cons bit bits ih =>
    refine ih _ ?_
    dsimp only [mergeBlock]
    split
    · rw [pwrite_length, slice_length]
      omega
    · exact h

/-- **A merge is a pointwise overlay.** -/
theorem byteAt_merge (p : Nat) :
    byteAt (mergeInlineDirtyBlocks existing existingSize client clientSize mask).1 p =
      if p / 4096 < 32 ∧ mask.toNat.testBit (p / 4096) = true ∧ p < client.length
      then byteAt client p else byteAt (existing.getD []) p := by
  rw [merge_eq, byteAt_blocks _ _ (by unfold mergedLen; omega), byteAt_append_zeros]
  simp only [mem_range]

theorem merge_length :
    (mergeInlineDirtyBlocks existing existingSize client clientSize mask).1.length =
      mergedLen existing existingSize client clientSize := by
  rw [merge_eq, blocks_length]
  rw [length_append, zeros_length, mergedLen]
  omega

end Merge

/-! ## Commits -/

/-- What a client commits. -/
structure Commit where
  client : Bytes
  size : UInt64
  mask : UInt32

/-- The file is inline: a masked commit of it is merged. -/
def Inline (info : InodeInfo) : Prop :=
  info.migration = none ∧ info.chunks = [] ∧ info.storageMode.isVolumeBacked = false

instance (info : InodeInfo) : Decidable (Inline info) := inferInstanceAs (Decidable (_ ∧ _ ∧ _))

namespace Commit

/-- The length of the buffer that the commit needs over a record. -/
def mergedLen (c : Commit) (info : InodeInfo) : Nat :=
  InlineMerges.mergedLen info.inlineData info.size c.client c.size

def update (c : Commit) : Update := ⟨c.size, [], some c.client, false, some c.mask⟩

/-- `update_inode_size_chunks_atomic` with the commit; `none` where it does not return. -/
def run (memory : Nat) (info : InodeInfo) (c : Commit) : Option (Except String InodeInfo) :=
  if Inline info ∧ room memory < c.mergedLen info then none
  else some (updateInodeSizeChunks c.update info)

/-- One commit after the other, to the first that fails. -/
def runAll (memory : Nat) (info : InodeInfo) : List Commit → Option (Except String InodeInfo)
  | [] => some (.ok info)
  | c :: cs => match run memory info c with
    | some (.ok info') => runAll memory info' cs
    | failed => failed

/-- What a commit makes of an inline record. -/
def apply (info : InodeInfo) (c : Commit) : InodeInfo :=
  let merged := mergeInlineDirtyBlocks info.inlineData info.size c.client c.size c.mask
  { info with
    size := merged.2, blocks := divCeil merged.2 512, inlineData := some merged.1
    storageMode := .inline }

variable {info : InodeInfo} {c d : Commit}

theorem update_inline (h : Inline info) :
    updateInodeSizeChunks c.update info =
      .ok (apply info c) := by
  obtain ⟨hmig, hchunks, hmode⟩ := h
  have hsync : syncData c.update info =
      { apply info c with storageMode := info.storageMode } := by
    simp [syncData, update, hchunks, hmode, apply]
  have hnone : c.update.chunks = [] := rfl
  unfold updateInodeSizeChunks
  rw [hmig]
  simp [hsync, hnone, apply, modeOfData, backfillFid, chunksChanged, hchunks]

theorem inline_apply (h : Inline info) : Inline (apply info c) := ⟨h.1, h.2.1, rfl⟩

theorem mergedLen_apply :
    d.mergedLen (apply info c) = max (c.mergedLen info) (d.mergedLen info) := by
  have hlen : ((apply info c).inlineData.getD []).length = c.mergedLen info := merge_length ..
  have hsize : (apply info c).size.toNat = max info.size.toNat c.size.toNat := toNat_max _ _
  unfold Commit.mergedLen InlineMerges.mergedLen at *
  rw [hlen, hsize]
  omega

theorem testBit_disjoint {a b : UInt32} (h : a &&& b = 0) {n : Nat}
    (ha : a.toNat.testBit n = true) : b.toNat.testBit n = false := by
  have hand := congrArg (fun m : UInt32 => m.toNat.testBit n) h
  simp only [UInt32.toNat_and, Nat.testBit_and, ha, Bool.true_and] at hand
  simpa using hand

/-- Two commits that mark different blocks commute. -/
theorem apply_comm (h : c.mask &&& d.mask = 0) (info : InodeInfo) :
    apply (apply info c) d = apply (apply info d) c := by
  have hdata : (apply (apply info c) d).inlineData = (apply (apply info d) c).inlineData := by
    refine congrArg some (ext_byteAt ?_ fun p => ?_)
    · rw [merge_length, merge_length]
      exact mergedLen_apply.trans ((max_comm _ _).trans mergedLen_apply.symm)
    · simp only [apply, byteAt_merge, Option.getD_some]
      by_cases hc : p / 4096 < 32 ∧ c.mask.toNat.testBit (p / 4096) = true ∧ p < c.client.length
      · rw [if_pos hc, if_pos hc, if_neg]
        rw [testBit_disjoint h hc.2.1]
        simp
      · rw [if_neg hc, if_neg hc]
  have hsize : (apply (apply info c) d).size = (apply (apply info d) c).size := by
    simp only [apply, mergeInlineDirtyBlocks, ← UInt64.toNat_inj, toNat_max]
    exact max_right_comm _ _ _
  have hput : ∀ (info : InodeInfo) (c d : Commit), apply (apply info c) d =
      { info with
        size := (apply (apply info c) d).size
        blocks := divCeil (apply (apply info c) d).size 512
        inlineData := (apply (apply info c) d).inlineData, storageMode := .inline } :=
    fun _ _ _ => rfl
  rw [hput info c d, hput info d c, hdata, hsize]

/-- A sequence of commits goes through exactly if there is room for each of them. -/
theorem runAll_iff {memory : Nat} {cs : List Commit} (h : Inline info) :
    ((∀ c ∈ cs, c.mergedLen info ≤ room memory) →
      runAll memory info cs = some (.ok (cs.foldl apply info))) ∧
    (∀ out, runAll memory info cs = some (.ok out) → ∀ c ∈ cs, c.mergedLen info ≤ room memory) := by
  induction cs generalizing info with
  | nil => exact ⟨fun _ => rfl, fun _ _ => forall_mem_nil _⟩
  | cons c cs ih =>
    obtain ⟨henough, hneeded⟩ := ih (inline_apply (c := c) h)
    unfold runAll run
    rw [update_inline h]
    simp only [mergedLen_apply] at henough hneeded
    by_cases hfits : c.mergedLen info ≤ room memory
    · rw [if_neg (fun hno => Nat.not_lt.mpr hfits hno.2)]
      refine ⟨fun hall => henough fun d hd => ?_, fun out hout => forall_mem_cons.mpr ⟨hfits, ?_⟩⟩
      · exact max_le hfits (hall d (mem_cons_of_mem c hd))
      · exact fun d hd => (le_max_right _ _).trans (hneeded out hout d hd)
    · rw [if_pos ⟨h, Nat.not_le.mp hfits⟩]
      exact ⟨fun hall => absurd (hall c mem_cons_self) hfits, fun out hout => by cases hout⟩

end Commit

/-- **Merges overlay, and disjoint commits commute, where there is room.** A merge gives a
buffer of the length of the longest buffer or size, in which a byte is the client's where its
block is marked and what was there, or 0, elsewhere, exactly if that length can be allocated.
Commits that mark pairwise different blocks of an inline file leave the same record in every
order exactly if this is so for each of them. -/
theorem masked_commits_overlay_iff (memory : Nat) (info : InodeInfo) (hinline : Inline info)
    (commits : List Commit) (hdisjoint : commits.Pairwise fun c d => c.mask &&& d.mask = 0) :
    (∀ existing existingSize client clientSize mask,
      (∃ merged, mergeWithin existing existingSize client clientSize mask memory = some merged ∧
        merged.1.length = mergedLen existing existingSize client clientSize ∧
        merged.2 = max existingSize clientSize ∧
        ∀ p, byteAt merged.1 p =
          if p / 4096 < 32 ∧ mask.toNat.testBit (p / 4096) = true ∧ p < client.length
          then byteAt client p else byteAt (existing.getD []) p) ↔
      mergedLen existing existingSize client clientSize ≤ room memory) ∧
    ((∃ out, ∀ order, commits.Perm order → Commit.runAll memory info order = some (.ok out)) ↔
      ∀ c ∈ commits, c.mergedLen info ≤ room memory) := by
  constructor
  · intro existing existingSize client clientSize mask
    unfold mergeWithin
    by_cases hroom : mergedLen existing existingSize client clientSize ≤ room memory
    · rw [if_pos hroom]
      exact iff_of_true ⟨_, rfl, merge_length .., rfl, fun p => byteAt_merge _ _ _ _ _ p⟩ hroom
    · rw [if_neg hroom]
      exact iff_of_false (fun ⟨_, h, _⟩ => by cases h) hroom
  · have : Std.Symm fun c d : Commit => c.mask &&& d.mask = 0 :=
      ⟨fun c d h => (UInt32.and_comm d.mask c.mask).trans h⟩
    constructor
    · rintro ⟨out, hall⟩
      exact (Commit.runAll_iff hinline).2 out (hall commits (.refl _))
    · intro hroom
      refine ⟨commits.foldl Commit.apply info, fun order hperm => ?_⟩
      rw [(Commit.runAll_iff hinline).1 fun c hc => hroom c (hperm.mem_iff.mpr hc)]
      refine congrArg (some ∘ Except.ok) (hperm.foldl_eq' (fun c hc d hd i => ?_) info).symm
      by_cases heq : c = d
      · rw [heq]
      · exact Commit.apply_comm (hdisjoint.forall hc hd heq) i

/-- Two clients fill the first and the third block of a new file. -/
theorem two_blocks_overlay :
    let one : Commit := ⟨[1], 1, 1⟩
    let two : Commit := ⟨List.replicate 8192 0 ++ [2], 8193, 4⟩
    ∃ out, ∀ order, [one, two].Perm order →
      Commit.runAll (2 ^ 20) (fileInode 0 2 1 ['f']) order = some (.ok out) := by
  intro one two
  refine ((masked_commits_overlay_iff (2 ^ 20) (fileInode 0 2 1 ['f']) (by decide) [one, two]
    (pairwise_pair.mpr (by decide))).2).mpr ?_
  exact forall_mem_cons.mpr ⟨by decide, forall_mem_singleton.mpr (by decide +kernel)⟩

/-- A client may name any size: no vector has 2^63 bytes, however much memory there is. -/
theorem huge_size_panics :
    mergeWithin none 0 [1] (2 ^ 63) 1 (2 ^ 64) = none ∧
      Commit.run (2 ^ 64) (fileInode 0 2 1 ['f']) ⟨[1], 2 ^ 63, 1⟩ = none := by
  constructor
  · decide +kernel
  · exact if_pos (by decide +kernel)

end PowerFS.Filer.InlineMerges
