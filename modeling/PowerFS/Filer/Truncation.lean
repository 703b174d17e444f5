import PowerFS.Filer.InlineMerges

/-! # Bytes that were cut off

`SetAttr` and `SetAttrData` set the size of a file; only the second also cuts the inline
buffer. After a cut the store runs on under any commands and writes of the needle, and
ghosts collect the positions that were written since and the sizes that were asked for.
What was cut off stays gone, in every later state, when the cut left no buffer past the
size; otherwise it comes back with an append of nothing or with the end of a migration. -/
namespace PowerFS.Filer.Truncation
open Lib.ByteString Lib.Positions InodeRecords MetadataShard ShardFacts RecordSteps InlineCommits
  Migration InlineMerges List Option

variable {json : Json} {now i : UInt64} {info : InodeInfo}

/-! ## What a command writes and asks for -/

/-- The command takes effect on the record. -/
def Taken (now : UInt64) (cmd : ShardCommand) (info : InodeInfo) : Prop := match cmd with
  | .updateInodeSizeChunks _ u => info.migration = none ∧ ¬ Dropped info u.inlineData u.isAppend
  | .beginMigration .. => (recordEffect now cmd info).migration ≠ info.migration
  | _ => True

/-- The positions of the file that the command writes. -/
def Writes (info : InodeInfo) (p : Nat) : ShardCommand → Prop
  | .updateInodeSizeChunks _ ⟨_, _, some delta, true, _⟩ =>
    (buffer info).length ≤ p ∧ p < (buffer info).length + delta.length
  | .updateInodeSizeChunks _ ⟨_, _, some client, false, mask⟩ =>
    p < client.length ∧ ∀ m, mask = some m → m.toNat.testBit (p / 4096) = true
  | .beginMigration _ r => Covered r.writes p
  | _ => False

/-- The size that the command asks for, or the end of what it writes. -/
def asks (info : InodeInfo) : ShardCommand → Nat
  | .updateFile _ size _ => size.toNat
  | .setAttr _ size .. => (size.getD 0).toNat
  | .setAttrData _ size => (size.getD 0).toNat
  | .updateInodeSizeChunks _ ⟨_, _, some delta, true, _⟩ =>
    if delta = [] then 0 else (buffer info).length + delta.length
  | .updateInodeSizeChunks _ ⟨size, _, some client, false, _⟩ => max size.toNat client.length
  | .updateInodeSizeChunks _ ⟨size, _, none, _, _⟩ => size.toNat
  | .beginMigration _ r => max r.initiatorSize.toNat (endOf r.writes 0)
  | _ => 0

/-! ## One record -/

/-- What a command on a record leaves: positions it does not write keep their byte or lose
it, and the buffer and the size end within what was there and what it asks for. -/
structure Within (now : UInt64) (cmd : ShardCommand) (a b : InodeInfo) : Prop where
  bytes : ∀ p, ¬ (Taken now cmd a ∧ Writes a p cmd) →
    byteAt (buffer b) p = byteAt (buffer a) p ∨ byteAt (buffer b) p = 0
  bounds : ∀ reached : Nat → Prop, (∀ m n, m ≤ n → reached n → reached m) →
    reached (buffer a).length → reached a.size.toNat → (Taken now cmd a → reached (asks a cmd)) →
    reached (buffer b).length ∧ reached b.size.toNat

variable {n cut : Nat} {cmd : ShardCommand} {a : InodeInfo} {w : Nat → Prop}

variable {m : Nat} {b c : InodeInfo} {s : json.Store}

theorem reached_max {reached : Nat → Prop} (hm : reached m) (hn : reached n) :
    reached (max m n) := by
  rcases Nat.le_total m n with h | h
  · rwa [Nat.max_eq_right h]
  · rwa [Nat.max_eq_left h]

theorem Within.congr (h : Within now cmd a b) (hdata : c.inlineData = b.inlineData)
    (hsize : c.size = b.size) : Within now cmd a c := by
  have hbuf : buffer c = buffer b := congrArg (·.getD []) hdata
  constructor
  · rw [hbuf]
    exact h.bytes
  · rw [hbuf, hsize]
    exact h.bounds

theorem within_of_same (hdata : b.inlineData = a.inlineData) (hsize : b.size = a.size) :
    Within now cmd a b :=
  Within.congr ⟨fun _ _ => .inl rfl, fun _ _ hbuf hlen _ => ⟨hbuf, hlen⟩⟩ hdata hsize

/-- Commands that only set the size. -/
theorem within_of_sized (hdata : b.inlineData = a.inlineData) (htaken : Taken now cmd a)
    (hsize : b.size.toNat = asks a cmd) : Within now cmd a b where
  bytes p _ := by
    rw [buffer, hdata]
    exact .inl rfl
  bounds reached _ hbuf _ hasks := by
    rw [buffer, hdata, hsize]
    exact ⟨hbuf, hasks htaken⟩

theorem within_setattrData (now : UInt64) (j : UInt64) (size : Option UInt64) (a : InodeInfo) :
    Within now (.setAttrData j size) a (setattrData now size a) := by
  cases size with
  | none => exact within_of_same rfl rfl
  | some n =>
    have hbuf : buffer (setattrData now (some n) a) =
        if n.toNat < (buffer a).length then (buffer a).take n.toNat else buffer a := by
      show (a.inlineData.map _).getD [] = _
      unfold buffer
      cases a.inlineData with
      | none | some => rfl
    refine ⟨fun p _ => ?_, fun reached hdown hold _ hasks => ⟨?_, hasks trivial⟩⟩
    · rw [hbuf]
      split
      · rw [byteAt_take]
        split
        · exact .inl rfl
        · exact .inr rfl
      · exact .inl rfl
    · rw [hbuf]
      split
      · exact hdown _ _ (length_take_le' _ _) hold
      · exact hold

theorem toNat_ofNat_le (n : Nat) : (UInt64.ofNat n).toNat ≤ n := by
  rw [UInt64.toNat_ofNat']
  exact Nat.mod_le _ _

theorem within_sync (now j : UInt64) (u : Update) (a : InodeInfo) :
    Within now (.updateInodeSizeChunks j u) a (sync u a) := by
  cases hopen : a.migration with
  | some window =>
    rw [sync_in_window _ hopen]
    exact within_of_same rfl rfl
  | none =>
    have hsame := sync_data u hopen
    obtain ⟨size, chunks, data, isAppend, mask⟩ := u
    by_cases hdropped : Dropped a data isAppend
    · rw [syncData_dropped hdropped] at hsame
      exact within_of_same hsame.inlineData hsame.size
    refine Within.congr ?_ hsame.inlineData hsame.size
    have hgrown : ∀ reached : Nat → Prop, reached a.size.toNat → reached size.toNat →
        reached (max a.size size).toNat := fun reached hlen hasked => by
      rw [toNat_max]
      exact reached_max hlen hasked
    cases isAppend with
    | true =>
      cases data with
      | none => exact ⟨fun _ _ => .inl rfl, fun reached _ hold hlen hasks =>
          ⟨hold, hgrown reached hlen (hasks ⟨hopen, hdropped⟩)⟩⟩
      | some delta =>
        refine ⟨fun p hp => .inl ?_, fun reached hdown hold hlen hasks => ?_⟩
        · show byteAt (buffer a ++ delta) p = byteAt (buffer a) p
          by_cases hlt : p < (buffer a).length
          · exact byteAt_append_left hlt
          · have hpast : ¬ p < (buffer a).length + delta.length :=
              fun h => hp ⟨⟨hopen, hdropped⟩, by omega, h⟩
            rw [byteAt_past (by rw [length_append]; omega), byteAt_past (by omega)]
        · have hcombined : reached (buffer a ++ delta).length := by
            rw [length_append]
            by_cases hnil : delta = []
            · rw [hnil]
              exact hold
            have hend : asks a (.updateInodeSizeChunks j ⟨size, chunks, some delta, true, mask⟩) =
                (buffer a).length + delta.length := if_neg hnil
            exact hend ▸ hasks ⟨hopen, hdropped⟩
          exact ⟨hcombined, hdown _ _ (toNat_ofNat_le _) hcombined⟩
    | false =>
      cases data with
      | none => exact ⟨fun p _ => .inr (byteAt_past (Nat.zero_le p)), fun reached hdown hold hlen
          hasks => ⟨hdown _ _ (Nat.zero_le _) hold, hgrown reached hlen (hasks ⟨hopen, hdropped⟩)⟩⟩
      | some client =>
        have htaken : ¬ (a.chunks ≠ [] ∨ a.storageMode.isVolumeBacked = true) :=
          fun h => hdropped ⟨rfl, rfl, h⟩
        dsimp only [syncData]
        rw [if_neg htaken]
        have hasked : ∀ reached : Nat → Prop, (∀ m n, m ≤ n → reached n → reached m) →
            reached (max size.toNat client.length) →
            reached client.length ∧ reached size.toNat := fun reached hdown hmax =>
          ⟨hdown _ _ (Nat.le_max_right _ _) hmax, hdown _ _ (Nat.le_max_left _ _) hmax⟩
        cases mask with
        | none =>
          refine ⟨fun p hp => .inr ?_, fun reached hdown _ _ hasks =>
            hasked reached hdown (hasks ⟨hopen, hdropped⟩)⟩
          show byteAt client p = 0
          have hpast : ¬ p < client.length := fun h => hp ⟨⟨hopen, hdropped⟩, h, by rintro m ⟨⟩⟩
          exact byteAt_past (by omega)
        | some m =>
          refine ⟨fun p hp => .inl ?_, fun reached hdown hold hlen hasks => ?_⟩
          · refine (byteAt_merge a.inlineData a.size client size m p).trans (if_neg ?_)
            rintro ⟨-, hbit, hlt⟩
            refine hp ⟨⟨hopen, hdropped⟩, hlt, ?_⟩
            rintro m' ⟨⟩
            exact hbit
          · obtain ⟨hclient, hasize⟩ := hasked reached hdown (hasks ⟨hopen, hdropped⟩)
            refine ⟨?_, hgrown reached hlen hasize⟩
            show reached (mergeInlineDirtyBlocks a.inlineData a.size client size m).1.length
            rw [merge_length]
            exact reached_max (reached_max (reached_max hold hclient) hlen) hasize

theorem within_begin (now j : UInt64) (r : Request) (a : InodeInfo) :
    Within now (.beginMigration j r) a (recordEffect now (.beginMigration j r) a) := by
  rcases begin_cases now j r a with heq | ⟨⟨hidle, -, -, -, hbound⟩, heq⟩
  · rw [heq]
    exact within_of_same rfl rfl
  have htaken : Taken now (.beginMigration j r) a := by
    show (recordEffect now (.beginMigration j r) a).migration ≠ a.migration
    rw [heq, hidle]
    exact some_ne_none _
  have hbuf : buffer (r.begun a) = writeAll r.writes (buffer a) ++
      zeros ((r.mergedSize a).toNat - (writeAll r.writes (buffer a)).length) := rfl
  rw [heq]
  refine ⟨?_, ?_⟩
  · intro p hp
    left
    rw [hbuf, byteAt_append_zeros]
    exact byteAt_writeAll_outside (fun h => hp ⟨htaken, h⟩) _
  · intro reached hdown hold hlen hasks
    have hasked : reached (max r.initiatorSize.toNat (endOf r.writes 0)) := hasks htaken
    have hend : reached (endOf r.writes (buffer a).length) := by
      rw [endOf_eq_max]
      exact reached_max hold (hdown _ _ (Nat.le_max_right _ _) hasked)
    have hmerged : reached (r.mergedSize a).toNat := by
      rw [Request.mergedSize, toNat_max, toNat_max]
      exact reached_max (reached_max hlen (hdown _ _ (Nat.le_max_left _ _) hasked))
        (hdown _ _ (toNat_ofNat_le _) hend)
    refine ⟨?_, hmerged⟩
    rw [hbuf, length_append, zeros_length, writeAll_length]
    refine hdown _ _ ?_ (reached_max hend hmerged)
    omega

/-- What a commit makes of a record: nothing, or a chunk in place of the buffer. -/
theorem commit_cases (now j epoch : UInt64) (a : InodeInfo) :
    recordEffect now (.commitMigration j epoch) a = a ∨
      a.migration ≠ none ∧ ∃ d chunk, recordEffect now (.commitMigration j epoch) a = d ∧
        d.chunks = [chunk] ∧ chunk.size = UInt64.ofNat (buffer a).length ∧ d.inlineData = none ∧
        d.size = max a.size (UInt64.ofNat (buffer a).length) ∧ d.migration = none := by
  by_cases hidle : ∀ st, a.migration = some st → st.epoch = epoch → st.allocs = []
  · exact .inl (commit_refused now j hidle)
  push Not at hidle
  obtain ⟨st, hst, rfl, hsome⟩ := hidle
  obtain ⟨⟨vid, nid⟩, others, hallocs⟩ := exists_cons_of_ne_nil hsome
  obtain ⟨d, hd, hchunks, hdata, hsize, hclosed, -⟩ := commit_in_window now j hst hallocs
  rw [hst]
  exact .inr ⟨some_ne_none st, d, _, hd, hchunks, rfl, hdata, hsize, hclosed⟩

theorem within_commit (now j epoch : UInt64) (a : InodeInfo) :
    Within now (.commitMigration j epoch) a (recordEffect now (.commitMigration j epoch) a) := by
  rcases commit_cases now j epoch a with heq | ⟨-, d, -, hd, -, -, hdata, hsize, -⟩
  · rw [heq]
    exact within_of_same rfl rfl
  have hbuf : buffer d = [] := by
    rw [buffer, hdata]
    rfl
  rw [hd]
  refine ⟨fun p _ => Or.inr ?_, fun reached hdown hold hlen _ => ⟨?_, ?_⟩⟩
  · rw [hbuf]
    exact byteAt_past (Nat.zero_le p)
  · rw [hbuf]
    exact hdown _ _ (Nat.zero_le _) hold
  · rw [hsize, toNat_max]
    exact reached_max hlen (hdown _ _ (toNat_ofNat_le _) hold)

theorem within_recordEffect (now : UInt64) (cmd : ShardCommand) (a : InodeInfo) :
    Within now cmd a (recordEffect now cmd a) := by
  cases cmd with
  | updateFile j size mtime => exact within_of_sized rfl trivial rfl
  | setAttr j size mode uid gid mtime atime =>
    cases size with
    | none => exact within_of_same rfl rfl
    | some n => exact within_of_sized rfl trivial rfl
  | setAttrData j size => exact within_setattrData now j size a
  | updateInodeSizeChunks j u => exact within_sync now j u a
  | beginMigration j r => exact within_begin now j r a
  | commitMigration j epoch => exact within_commit now j epoch a
  | _ => exact within_of_same rfl rfl

/-! ## Runs after a cut -/

/-- The store after a cut of the file `i`, the bytes of the needle of its migration window,
the chunk that a commit has put in place of the buffer with the bytes behind it, and what
commands have written and asked for since the cut. -/
structure Traced (json : Json) where
  store : json.Store
  needle : Bytes
  placed : Option (StoredFileChunk × Bytes)
  written : Nat → Prop
  asked : Nat → Prop

inductive Event where
  | command (now : UInt64) (cmd : ShardCommand)
  | materialise

/-- The command makes the inode anew, with all its data, or writes to it. -/
def WritesTo (json : Json) (i now : UInt64) (cmd : ShardCommand) (s : json.Store)
    (p : Nat) : Prop :=
  ¬ Kept (s.getInode i) ((applyCommand now s cmd).getInode i) ∧ target cmd = none ∨
    target cmd = some i ∧ ∃ a, s.getInode i = some a ∧ Taken now cmd a ∧ Writes a p cmd

def AsksFor (json : Json) (i now : UInt64) (cmd : ShardCommand) (s : json.Store) (n : Nat) : Prop :=
  (∃ made, creates now cmd = some made ∧ made.inode = i ∧
      (n = (buffer made).length ∨ n = made.size.toNat)) ∨
    target cmd = some i ∧ ∃ a, s.getInode i = some a ∧ Taken now cmd a ∧ n = asks a cmd

/-- The migration window of the inode. -/
def windowOf (s : json.Store) (i : UInt64) : Option MigrationState :=
  (s.getInode i).bind InodeInfo.migration

/-- The chunk of a commit that closes the window, with what the needle holds of it. -/
def placedBy (json : Json) (i now : UInt64) (cmd : ShardCommand) (t : Traced json) :
    Option (StoredFileChunk × Bytes) :=
  match cmd with
  | .commitMigration j _ =>
    if j = i ∧ (windowOf t.store i).isSome ∧ (windowOf (applyCommand now t.store cmd) i).isNone
    then ((applyCommand now t.store cmd).getInode i).bind fun d =>
      d.chunks.head?.map fun c => (c, t.needle.take c.size.toNat)
    else t.placed
  | _ => t.placed

/-- A new window starts with an empty needle; the leader writes the buffer to it. -/
def Traced.step (i : UInt64) (t : Traced json) : Event → Traced json
  | .command now cmd =>
    { store := applyCommand now t.store cmd
      needle := if (windowOf t.store i).isNone then [] else t.needle
      placed := placedBy json i now cmd t
      written := fun p => t.written p ∨ WritesTo json i now cmd t.store p
      asked := fun n => t.asked n ∨ AsksFor json i now cmd t.store n }
  | .materialise =>
    { t with
      needle := match t.store.getInode i with
        | some info => if info.migration.isSome then buffer info else t.needle
        | none => t.needle }

/-- What a reader gets: the inline data, or the needle of the migration. Other chunks are
not the store's. -/
def readable (t : Traced json) (info : InodeInfo) : Option Bytes :=
  match info.inlineData, info.chunks with
  | some data, _ => some (fit info.size.toNat data)
  | none, [] => some (fit info.size.toNat [])
  | none, chunks => match t.placed with
    | some (chunk, bytes) => if chunks = [chunk] then some (fit info.size.toNat bytes) else none
    | none => none

/-- No further than the cut, or than a command has asked for since. -/
def Reached (cut : Nat) (asked : Nat → Prop) (n : Nat) : Prop := n ≤ cut ∨ ∃ m, asked m ∧ n ≤ m

/-- Past the cut there are zeros, except where something was written since, and the file has
not grown except as asked. -/
def Gone (i : UInt64) (cut : Nat) (t : Traced json) : Prop :=
  ∀ info, t.store.getInode i = some info →
    Reached cut t.asked info.size.toNat ∧
      ∀ data, readable t info = some data →
        ∀ p, cut ≤ p → ¬ t.written p → byteAt data p = 0

/-! ### The invariant -/

/-- Bytes past the cut are zero unless they were written since. -/
def Clear (cut : Nat) (written : Nat → Prop) (b : Bytes) : Prop :=
  ∀ p, cut ≤ p → ¬ written p → byteAt b p = 0

structure Cut (i : UInt64) (cut : Nat) (t : Traced json) : Prop where
  numbered : Numbered t.store
  clear : ∀ info, t.store.getInode i = some info → Clear cut t.written (buffer info)
  bounded : ∀ info, t.store.getInode i = some info →
    Reached cut t.asked (buffer info).length ∧ Reached cut t.asked info.size.toNat
  needle : ∀ info, t.store.getInode i = some info → info.migration ≠ none →
    Clear cut t.written (t.needle.take (buffer info).length)
  placed : ∀ chunk bytes, t.placed = some (chunk, bytes) → Clear cut t.written bytes

theorem Clear.mono {w' : Nat → Prop} {b : Bytes} (h : Clear cut w b) (hw : ∀ p, w p → w' p) :
    Clear cut w' b :=
  fun p hp hnot => h p hp fun hwp => hnot (hw p hwp)

theorem Clear.take {b : Bytes} (h : Clear cut w (b.take n)) (hle : m ≤ n) :
    Clear cut w (b.take m) := by
  intro p hp hnot
  have hbyte := h p hp hnot
  rw [byteAt_take] at hbyte ⊢
  rw [ite_eq_right_iff]
  intro hlt
  rwa [if_pos (by omega)] at hbyte

theorem clear_nil (cut : Nat) (w : Nat → Prop) : Clear cut w [] :=
  fun p _ _ => byteAt_past (Nat.zero_le p)

theorem Reached.mono {a a' : Nat → Prop} (h : Reached cut a n) (ha : ∀ m, a m → a' m) :
    Reached cut a' n :=
  h.imp id fun ⟨m, hm, hle⟩ => ⟨m, ha m hm, hle⟩

theorem Reached.down {a : Nat → Prop} (m n : Nat) (hle : m ≤ n) (h : Reached cut a n) :
    Reached cut a m :=
  h.imp hle.trans fun ⟨k, hk, hn⟩ => ⟨k, hk, hle.trans hn⟩

variable {t : Traced json}

theorem Cut.gone (h : Cut i cut t) : Gone i cut t := by
  intro info hinfo
  refine ⟨(h.bounded info hinfo).2, ?_⟩
  intro data hdata p hp hnot
  have hclear := h.clear info hinfo p hp hnot
  unfold readable at hdata
  split at hdata
  · rename_i inline hinline
    obtain rfl := some.inj hdata
    rw [buffer, hinline, getD_some] at hclear
    rw [byteAt_fit, hclear, ite_self]
  · obtain rfl := some.inj hdata
    rw [byteAt_fit, byteAt_past (Nat.zero_le p), ite_self]
  · split at hdata
    · rename_i chunk bytes hplaced
      split at hdata
      · obtain rfl := some.inj hdata
        rw [byteAt_fit, h.placed chunk bytes hplaced p hp hnot, ite_self]
      · cases hdata
    · cases hdata

theorem Cut.materialise (h : Cut i cut t) : Cut i cut (t.step i .materialise) where
  numbered := h.numbered
  clear := h.clear
  bounded := h.bounded
  placed := h.placed
  needle info hinfo hwindow := by
    have hneedle : (t.step i .materialise).needle = buffer info := by
      have hstore : t.store.getInode i = some info := hinfo
      dsimp only [Traced.step]
      rw [hstore]
      exact if_pos (isSome_iff_ne_none.mpr hwindow)
    rw [hneedle, take_length]
    exact h.clear info hinfo

/-- Only a commit to the inode itself puts a chunk in place of its buffer. -/
theorem placedBy_other (h : target cmd ≠ some i) : placedBy json i now cmd t = t.placed := by
  unfold placedBy
  split
  · refine if_neg ?_
    rintro ⟨rfl, -⟩
    exact h rfl
  · rfl

/-- The needle is that of the window, or empty. -/
theorem clear_needle (h : Cut i cut t) (hw : ∀ p, t.written p → w p)
    (ha : t.store.getInode i = some a) (hle : a.migration ≠ none → n ≤ (buffer a).length) :
    Clear cut w ((if (windowOf t.store i).isNone then [] else t.needle).take n) := by
  have hwindow : windowOf t.store i = a.migration := by
    rw [windowOf, ha]
    rfl
  rw [hwindow]
  cases hst : a.migration with
  | none =>
    rw [isNone_none, if_pos rfl, take_nil]
    exact clear_nil cut w
  | some st =>
    have hopen : a.migration ≠ none := hst ▸ some_ne_none st
    rw [isNone_some, if_neg Bool.false_ne_true]
    exact ((h.needle a ha hopen).take (hle hopen)).mono hw

/-- A command that is not for the inode and keeps its file. -/
theorem Cut.kept (h : Cut i cut t) (now : UInt64) (htarget : target cmd ≠ some i)
    (hkept : Kept (t.store.getInode i) ((applyCommand now t.store cmd).getInode i)) :
    Cut i cut (t.step i (.command now cmd)) := by
  have hw : ∀ p, t.written p → (t.step i (.command now cmd)).written p := fun p => Or.inl
  have ha : ∀ n, t.asked n → (t.step i (.command now cmd)).asked n := fun n => Or.inl
  refine ⟨applyCommand_numbered h.numbered now cmd, ?_, ?_, ?_, ?_⟩
  · intro b hb
    obtain ⟨a, hinfo, _, _, _, _, _, _, rfl⟩ := hkept b hb
    exact (h.clear a hinfo).mono hw
  · intro b hb
    obtain ⟨a, hinfo, _, _, _, _, _, _, rfl⟩ := hkept b hb
    exact ⟨(h.bounded a hinfo).1.mono ha, (h.bounded a hinfo).2.mono ha⟩
  · intro b hb _
    obtain ⟨a, hinfo, _, _, _, _, _, _, rfl⟩ := hkept b hb
    exact clear_needle h hw hinfo fun _ => Nat.le_refl _
  · intro chunk bytes hchunk
    exact (h.placed chunk bytes ((placedBy_other htarget).symm.trans hchunk)).mono hw

/-- A command on names keeps the file or makes it anew. -/
theorem Cut.names (h : Cut i cut t) (now : UInt64) (htarget : target cmd = none) :
    Cut i cut (t.step i (.command now cmd)) := by
  by_cases hkept : Kept (t.store.getInode i) ((applyCommand now t.store cmd).getInode i)
  · exact h.kept now (htarget ▸ (some_ne_none i).symm) hkept
  have hall : ∀ b, Clear cut (t.step i (.command now cmd)).written b :=
    fun b p _ hnot => absurd (.inr (.inl ⟨hkept, htarget⟩)) hnot
  refine ⟨applyCommand_numbered h.numbered now cmd, fun _ _ => hall _, ?_, fun _ _ _ => hall _,
    fun _ _ _ => hall _⟩
  intro b hb
  obtain ⟨made, hmade, hnum, hmore⟩ :=
    (getInode_names h.numbered now htarget i).resolve_left hkept
  obtain ⟨a, hinfo, _, _, _, _, _, _, rfl⟩ := hmore b hb
  obtain rfl := some.inj hinfo
  exact ⟨Or.inr ⟨_, Or.inr (.inl ⟨_, hmade, hnum, Or.inl rfl⟩), Nat.le_refl _⟩,
    Or.inr ⟨_, Or.inr (.inl ⟨_, hmade, hnum, Or.inr rfl⟩), Nat.le_refl _⟩⟩

theorem window_shrinks (htarget : target cmd = some i) (hopen : a.migration ≠ none)
    (hstill : (recordEffect now cmd a).migration ≠ none) :
    (buffer (recordEffect now cmd a)).length ≤ (buffer a).length := by
  obtain ⟨st, hst⟩ := ne_none_iff_exists'.mp hopen
  by_cases hcommit : cmd = .commitMigration i st.epoch
  · subst hcommit
    rcases commit_cases now i st.epoch a with heq | ⟨-, d, -, hd, -, -, -, -, hclosed⟩
    · rw [heq]
    · rw [hd] at hstill
      exact absurd hclosed hstill
  · refine (recordEffect_in_window now hst htarget ?_).2.length_le
    rintro other rfl rfl
    exact hcommit rfl

/-- A command on the inode. -/
theorem Cut.record (h : Cut i cut t) (now : UInt64) (htarget : target cmd = some i) :
    Cut i cut (t.step i (.command now cmd)) := by
  have hget : (applyCommand now t.store cmd).getInode i =
      (t.store.getInode i).map (recordEffect now cmd) := by
    rw [getInode_record h.numbered htarget, if_pos rfl]
  have hbefore : ∀ b, (applyCommand now t.store cmd).getInode i = some b →
      ∃ a, t.store.getInode i = some a ∧ b = recordEffect now cmd a := by
    intro b hb
    rw [hget] at hb
    obtain ⟨a, ha, rfl⟩ := map_eq_some_iff.mp hb
    exact ⟨a, ha, rfl⟩
  have hw : ∀ p, t.written p → (t.step i (.command now cmd)).written p := fun p => Or.inl
  refine ⟨applyCommand_numbered h.numbered now cmd, ?_, ?_, ?_, ?_⟩
  · intro b hb p hp hnot
    obtain ⟨a, ha, rfl⟩ := hbefore b hb
    have hunwritten : ¬ (Taken now cmd a ∧ Writes a p cmd) :=
      fun hwrites => hnot (.inr (.inr ⟨htarget, a, ha, hwrites⟩))
    rcases (within_recordEffect now cmd a).bytes p hunwritten with heq | hzero
    · rw [heq]
      exact h.clear a ha p hp fun hwritten => hnot (.inl hwritten)
    · exact hzero
  · intro b hb
    obtain ⟨a, ha, rfl⟩ := hbefore b hb
    have hasked : ∀ n, t.asked n → (t.step i (.command now cmd)).asked n := fun n => Or.inl
    refine (within_recordEffect now cmd a).bounds
      (Reached cut (t.step i (.command now cmd)).asked) Reached.down
      ((h.bounded a ha).1.mono hasked) ((h.bounded a ha).2.mono hasked) ?_
    intro htaken
    exact .inr ⟨_, Or.inr (.inr ⟨htarget, a, ha, htaken, rfl⟩), Nat.le_refl _⟩
  · intro b hb hstill
    obtain ⟨a, ha, rfl⟩ := hbefore b hb
    exact clear_needle h hw ha fun hopen => window_shrinks htarget hopen hstill
  · intro chunk bytes hplaced
    have hold : ∀ {chunk bytes}, t.placed = some (chunk, bytes) →
        Clear cut (t.step i (.command now cmd)).written bytes :=
      fun hchunk => (h.placed _ _ hchunk).mono hw
    have hplaced' : placedBy json i now cmd t = some (chunk, bytes) := hplaced
    unfold placedBy at hplaced'
    split at hplaced'
    case h_2 => exact hold hplaced'
    case h_1 j epoch =>
      split at hplaced'
      case isFalse => exact hold hplaced'
      case isTrue hcommit =>
        -- the window closes: the chunk stands for what the needle holds of the buffer
        obtain ⟨rfl, hopen, hclosed⟩ := hcommit
        obtain ⟨d, hd, hhead⟩ := bind_eq_some_iff.mp hplaced'
        obtain ⟨a, ha, rfl⟩ := hbefore d hd
        obtain ⟨c, hc, heq⟩ := map_eq_some_iff.mp hhead
        obtain ⟨-, rfl⟩ := Prod.mk.inj heq
        have hwindow : windowOf t.store j = a.migration := by
          rw [windowOf, ha]
          rfl
        have hclosed' : (recordEffect now (.commitMigration j epoch) a).migration.isNone := by
          rwa [windowOf, hd] at hclosed
        rw [hwindow] at hopen
        have hneedle := h.needle a ha (isSome_iff_ne_none.mp hopen)
        rcases commit_cases now j epoch a with hsame | ⟨-, d, chunk, hd', hchunks, hsize, -⟩
        · rw [hsame, isNone_iff_eq_none] at hclosed'
          rw [hclosed'] at hopen
          cases hopen
        rw [hd', hchunks, head?_cons] at hc
        obtain rfl := some.inj hc
        refine (hneedle.take ?_).mono hw
        rw [hsize]
        exact toNat_ofNat_le _

theorem Cut.step (h : Cut i cut t) (e : Event) : Cut i cut (t.step i e) := by
  cases e with
  | materialise => exact h.materialise
  | command now cmd =>
    cases htarget : target cmd with
    | none => exact h.names now htarget
    | some j =>
      by_cases hj : j = i
      · exact h.record now (hj ▸ htarget)
      -- another inode: the record is the same
      refine h.kept now (fun heq => hj (some.inj (htarget.symm.trans heq))) ?_
      rw [getInode_record h.numbered htarget, if_neg hj]
      exact Kept.refl _

theorem Cut.run (events : List Event) (h : Cut i cut t) :
    Cut i cut (events.foldl (Traced.step i) t) := by
  induction events generalizing t with
  | nil => exact h
  | cons e events ih => exact ih (h.step e)

/-! ## When a cut holds -/

/-- A command that sets the size of the inode. -/
def Cuts (i size : UInt64) (cmd : ShardCommand) : Prop :=
  cmd = .setAttrData i (some size) ∨
    ∃ mode uid gid mtime atime, cmd = .setAttr i (some size) mode uid gid mtime atime

/-- The trace starts right after the cut, over whatever the needle holds. -/
def afterCut (json : Json) (now : UInt64) (s : json.Store) (cmd : ShardCommand)
    (needle : Bytes) : Traced json where
  store := applyCommand now s cmd
  needle := needle
  placed := none
  written _ := False
  asked _ := False

/-- A buffer that ends within the cut is all that the invariant needs. -/
theorem cut_of_short {needle : Bytes} (hs : Numbered s)
    (h : ∀ b, (applyCommand now s cmd).getInode i = some b →
      (buffer b).length ≤ cut ∧ b.size.toNat ≤ cut) :
    Cut i cut (afterCut json now s cmd needle) where
  numbered := applyCommand_numbered hs now cmd
  clear b hb p hp _ := byteAt_past ((h b hb).1.trans hp)
  bounded b hb := ⟨Or.inl (h b hb).1, Or.inl (h b hb).2⟩
  needle b hb _ p hp _ := by
    rw [byteAt_take, if_neg]
    have hshort := (h b hb).1
    omega
  placed _ _ hplaced := by cases hplaced

/-- A file that has grown though nobody asked for it. -/
theorem not_gone_of_grown {d : InodeInfo} (hd : t.store.getInode i = some d)
    (hgrown : cut < d.size.toNat) (hasked : ∀ n, t.asked n → n = 0) : ¬ Gone i cut t := by
  intro hgone
  rcases (hgone d hd).1 with hle | ⟨n, hn, hle⟩
  · omega
  · rw [hasked n hn] at hle
    omega

/-- A longer buffer brings the size back: by an append of nothing, or by the commit of the
migration that is under way. -/
theorem grown_of_long (needle : Bytes) (hs : Numbered s)
    (hc : (applyCommand now s cmd).getInode i = some c) (hlong : cut < (buffer c).length)
    (hlen : (buffer c).length < 2 ^ 64) (hwindow : ∀ st, c.migration = some st → st.allocs ≠ []) :
    ∃ e, ¬ Gone i cut ((afterCut json now s cmd needle).step i e) := by
  have hnumbered := applyCommand_numbered hs now cmd
  have hofNat : (UInt64.ofNat (buffer c).length).toNat = (buffer c).length :=
    UInt64.toNat_ofNat_of_lt' hlen
  cases hst : c.migration with
  | none =>
    have happend := (⟨0, 0, [], [], none⟩ : Append).effect_size hst (by simpa using hlen)
    have hget : (applyCommand 0 (applyCommand now s cmd)
        (.updateInodeSizeChunks i ⟨0, [], some [], true, none⟩)).getInode i =
          some ((⟨0, 0, [], [], none⟩ : Append).effect c) :=
      getInode_sync _ hnumbered hc
    refine ⟨.command 0 (.updateInodeSizeChunks i ⟨0, [], some [], true, none⟩),
      not_gone_of_grown hget ?_ ?_⟩
    · exact happend ▸ Nat.lt_of_lt_of_le hlong (Nat.le_add_right _ _)
    · rintro n (hfalse | ⟨made, hmade, -⟩ | ⟨-, a, -, -, rfl⟩)
      · exact hfalse.elim
      · cases hmade
      · rfl
  | some st =>
    obtain ⟨⟨vid, nid⟩, others, hallocs⟩ := exists_cons_of_ne_nil (hwindow st hst)
    obtain ⟨d, hd, -, -, hsize, -⟩ := commit_in_window 0 i hst hallocs
    have htarget : target (.commitMigration i st.epoch) = some i := rfl
    have hget : (applyCommand 0 (applyCommand now s cmd)
        (.commitMigration i st.epoch)).getInode i = some d := by
      rw [getInode_record hnumbered htarget, if_pos rfl, hc, map_some, hd]
    refine ⟨.command 0 (.commitMigration i st.epoch), not_gone_of_grown hget ?_ ?_⟩
    · rw [hsize, toNat_max, hofNat]
      omega
    · rintro n (hfalse | ⟨made, hmade, -⟩ | ⟨-, a, -, -, rfl⟩)
      · exact hfalse.elim
      · cases hmade
      · rfl

/-- **When truncated bytes stay gone.** A cut by `SetAttrData`, or by `SetAttr` to a size that
the buffer does not pass, holds in every later state; any other cut is undone by one more
command, unless a window without allocations keeps the inode locked for ever. -/
theorem truncated_bytes_stay_gone_iff (range : UInt64 × UInt64)
    (log : List (UInt64 × ShardCommand)) (now i size : UInt64) (cmd : ShardCommand)
    (needle : Bytes) (info : InodeInfo)
    (hinfo : (applyLog (freshStore json range) log).getInode i = some info)
    (hcut : Cuts i size cmd) (hlen : (buffer info).length < 2 ^ 64) :
    (cmd = .setAttrData i (some size) ∨ (buffer info).length ≤ size.toNat →
        ∀ events : List Event, Gone i size.toNat (events.foldl (Traced.step i)
          (afterCut json now (applyLog (freshStore json range) log) cmd needle))) ∧
      ((∀ st, info.migration = some st → st.allocs ≠ []) →
        (∀ events : List Event, Gone i size.toNat (events.foldl (Traced.step i)
          (afterCut json now (applyLog (freshStore json range) log) cmd needle))) →
        cmd = .setAttrData i (some size) ∨ (buffer info).length ≤ size.toNat) := by
  have hnumbered : Numbered (applyLog (freshStore json range) log) :=
    applyLog_numbered (numbered_fresh range) log
  have htarget : target cmd = some i := by
    rcases hcut with rfl | ⟨_, _, _, _, _, rfl⟩ <;> rfl
  have hget : (applyCommand now (applyLog (freshStore json range) log) cmd).getInode i =
      some (recordEffect now cmd info) := by
    rw [getInode_record hnumbered htarget, if_pos rfl, hinfo, map_some]
  constructor
  · intro hshort events
    refine (Cut.run events (cut_of_short hnumbered ?_)).gone
    intro b hb
    obtain rfl := some.inj (hget.symm.trans hb)
    rcases hcut with rfl | ⟨mode, uid, gid, mtime, atime, rfl⟩
    · refine ⟨?_, Nat.le_refl _⟩
      show ((info.inlineData.map _).getD []).length ≤ size.toNat
      cases info.inlineData with
      | none => exact Nat.zero_le _
      | some d =>
        dsimp only [map_some, getD_some]
        split
        · exact length_take_le _ _
        · omega
    · rcases hshort with heq | hshort
      · cases heq
      · exact ⟨hshort, Nat.le_refl _⟩
  · intro hwindow hgone
    rcases hcut with rfl | ⟨mode, uid, gid, mtime, atime, rfl⟩
    · exact .inl rfl
    right
    by_contra hlong
    obtain ⟨e, he⟩ := grown_of_long needle hnumbered hget (Nat.lt_of_not_le hlong) hlen hwindow
    exact he (hgone [e])

/-- The file is extended again, and a migration takes its data. -/
def extendedAgain : List Event :=
  [.command 4 (.setAttr 2 (some 2) none none none none none),
    .command 5 (.beginMigration 2 ⟨7, 1, [(3, 4)], 0, 0, []⟩), .materialise,
    .command 6 (.commitMigration 2 7)]

theorem setAttrData_cut_holds :
    Gone 2 (1 : UInt64).toNat (extendedAgain.foldl (Traced.step 2) (afterCut plainJson 3
      (applyLog plainStore inlineLog) (.setAttrData 2 (some 1)) [])) :=
  (truncated_bytes_stay_gone_iff (0, 100) inlineLog 3 2 1 (.setAttrData 2 (some 1)) [] inlineInode
    inlineLog_getInode (.inl rfl) (by decide)).1 (.inl rfl) extendedAgain

/-- A file is cut to nothing by `SetAttr`. Extended again it shows its old bytes, and a
migration without any data gives it back its old size. -/
theorem setAttr_cut_comes_back :
    ((applyLog plainStore (inlineLog ++
        [(3, .setAttr 2 (some 0) none none none none none)])).getInode 2).map content = some [] ∧
      ((applyLog plainStore (inlineLog ++
        [(3, .setAttr 2 (some 0) none none none none none),
          (4, .setAttr 2 (some 2) none none none none none)])).getInode 2).map content =
        some [10, 11] ∧
      ((applyLog plainStore (inlineLog ++
        [(3, .setAttr 2 (some 0) none none none none none),
          (4, .beginMigration 2 ⟨7, 1, [(3, 4)], 0, 0, []⟩),
          (5, .commitMigration 2 7)])).getInode 2).map
        (fun info => (info.size, info.chunks.map StoredFileChunk.size)) = some (2, [2]) := by
  decide +kernel

end PowerFS.Filer.Truncation
