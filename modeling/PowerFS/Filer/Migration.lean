import PowerFS.Filer.InlineCommits

/-! # Inline data goes to a volume

`BeginMigration` lays the blocks of the initiator over the inline buffer and opens a window,
the leader writes the buffer to a needle at some moment inside it, and `CommitMigration`
puts one chunk of the length of the buffer in its place. Inside the window the buffer can
only be cut, so it stays a prefix of the needle; but both ends of the window take the
length of the buffer for the end of the data, which it is not when the size has been set
below it. -/
namespace PowerFS.Filer.InodeRecords.Request
open Lib.ByteString Lib.Positions InlineCommits

/-- The blocks of the initiator as writes; empty ones are skipped. -/
def writes (r : Request) : List (Nat × Bytes) :=
  (r.initiatorBlocks.filter fun b => b.2 ≠ []).map fun b => (b.1.toNat * 4096, b.2)

def window (r : Request) : MigrationState :=
  ⟨r.epoch, r.targetMode, r.allocs, r.stripeSize⟩

/-- The size of the file when the window opens. -/
def mergedSize (r : Request) (info : InodeInfo) : UInt64 :=
  max (max info.size r.initiatorSize) (UInt64.ofNat (endOf r.writes (buffer info).length))

/-- The record when the window opens. -/
def begun (r : Request) (info : InodeInfo) : InodeInfo :=
  let buf := writeAll r.writes (buffer info)
  { info with
    size := r.mergedSize info
    blocks := divCeil (r.mergedSize info) 512
    inlineData := some (buf ++ zeros ((r.mergedSize info).toNat - buf.length))
    version := info.version + 1
    migration := some r.window }

/-- The old content with the blocks of the initiator over it, as long as it asks for. -/
def overlaid (r : Request) (info : InodeInfo) : Bytes :=
  let data := writeAll r.writes (content info)
  fit (max data.length r.initiatorSize.toNat) data

/-- The buffer holds nothing past the size but zeros and what is overwritten, and the request
extends the file over all of it. -/
def Snug (r : Request) (info : InodeInfo) : Prop :=
  (buffer info).length ≤ max (max info.size.toNat r.initiatorSize.toNat) (endOf r.writes 0) ∧
    ∀ p, info.size.toNat ≤ p → ¬ Covered r.writes p → byteAt (buffer info) p = 0

end PowerFS.Filer.InodeRecords.Request

namespace PowerFS.Filer.Migration
open Lib.ByteString Lib.Positions InodeRecords MetadataShard ShardFacts RecordSteps InlineCommits
  List Option

variable {json : Json} {s : json.Store} {now i : UInt64} {info : InodeInfo}

/-! ## Opening the window -/

/-- The blocks merged as the source does it are these writes, and they end within `2 ^ 44`. -/
theorem mergeBlocks_ok {inode : UInt64} {blocks : List (UInt32 × Bytes)} {buf : Bytes}
    {maxEnd : Nat} {merged : Bytes × Nat} (h : mergeBlocks inode blocks buf maxEnd = .ok merged) :
    merged = (writeAll ((blocks.filter fun b => b.2 ≠ []).map fun b => (b.1.toNat * 4096, b.2)) buf,
        endOf ((blocks.filter fun b => b.2 ≠ []).map fun b => (b.1.toNat * 4096, b.2)) maxEnd) ∧
      endOf ((blocks.filter fun b => b.2 ≠ []).map fun b => (b.1.toNat * 4096, b.2)) 0 ≤
        2 ^ 44 := by
  induction blocks generalizing buf maxEnd with
  | nil => exact ⟨(Except.ok.inj h).symm, Nat.zero_le _⟩
  | cons block blocks ih =>
    obtain ⟨idx, bytes⟩ := block
    simp only [mergeBlocks] at h
    by_cases hempty : bytes = []
    · have hlen : bytes.length = 0 := length_eq_zero_iff.mpr hempty
      rw [if_pos hlen] at h
      rw [filter_cons_of_neg (by simpa using hempty)]
      exact ih h
    · have hlen : bytes.length ≠ 0 := fun h => hempty (length_eq_zero_iff.mp h)
      rw [if_neg hlen] at h
      split at h
      · cases h
      obtain ⟨hmerged, hbound⟩ := ih h
      rw [filter_cons_of_pos (by simpa using hempty), map_cons]
      refine ⟨hmerged, ?_⟩
      show endOf _ (max 0 (idx.toNat * 4096 + bytes.length)) ≤ 2 ^ 44
      rw [endOf_eq_max]
      have hidx := idx.toNat_lt
      omega

/-- What a request does to a record: nothing, or it opens the window. -/
theorem begin_cases (now i : UInt64) (r : Request) (info : InodeInfo) :
    recordEffect now (.beginMigration i r) info = info ∨
      (info.migration = none ∧ info.chunks = [] ∧ info.storageMode.isVolumeBacked = false ∧
        r.allocs ≠ [] ∧ endOf r.writes 0 ≤ 2 ^ 44) ∧
      recordEffect now (.beginMigration i r) info = r.begun info := by
  dsimp only [recordEffect]
  cases hcheck : checkMigration i r.targetMode r.allocs with
  | error e => exact .inl rfl
  | ok u =>
    have hallocs : r.allocs ≠ [] := by
      intro hnil
      rw [checkMigration, if_pos hnil] at hcheck
      cases hcheck
    dsimp only [attempt, beginMigration]
    cases hmigration : info.migration with
    | some window =>
      dsimp only
      left
      split <;> rename_i heq
      · split at heq <;> cases heq
      · rfl
    | none =>
      by_cases hbacked : info.storageMode.isVolumeBacked = true ∨ info.chunks ≠ []
      · rw [if_pos hbacked]
        exact .inl rfl
      rw [if_neg hbacked]
      obtain ⟨hmode, hchunks⟩ := not_or.mp hbacked
      cases hmerge : mergeBlocks info.inode r.initiatorBlocks (info.inlineData.getD [])
          (info.inlineData.getD []).length with
      | error e => exact .inl rfl
      | ok merged =>
        obtain ⟨rfl, hbound⟩ := mergeBlocks_ok hmerge
        exact .inr ⟨⟨rfl, not_not.mp hchunks, Bool.eq_false_iff.mpr hmode, hallocs, hbound⟩, rfl⟩

theorem toNat_max (a b : UInt64) : (max a b).toNat = max a.toNat b.toNat := by
  show (if a ≤ b then b else a).toNat = max a.toNat b.toNat
  split
  case isTrue h =>
    have hle := UInt64.le_iff_toNat_le.mp h
    omega
  case isFalse h =>
    have hle := mt UInt64.le_iff_toNat_le.mpr h
    omega

theorem mergedSize_toNat (r : Request) (hlen : (buffer info).length < 2 ^ 64)
    (hbound : endOf r.writes 0 ≤ 2 ^ 44) :
    (r.mergedSize info).toNat =
      max (max info.size.toNat r.initiatorSize.toNat)
        (max (buffer info).length (endOf r.writes 0)) := by
  rw [Request.mergedSize, toNat_max, toNat_max, endOf_eq_max,
    UInt64.toNat_ofNat_of_lt' (by show _ < 2 ^ 64; omega)]

theorem byteAt_begun (r : Request) (p : Nat) :
    byteAt (content (r.begun info)) p =
      if p < (r.mergedSize info).toNat then byteAt (writeAll r.writes (buffer info)) p else 0 := by
  have hcontent : content (r.begun info) = fit (r.mergedSize info).toNat
      (writeAll r.writes (buffer info) ++
        zeros ((r.mergedSize info).toNat - (writeAll r.writes (buffer info)).length)) := rfl
  rw [hcontent, byteAt_fit, byteAt_append_zeros]

theorem begun_content_iff (r : Request) (hlen : (buffer info).length < 2 ^ 64)
    (hbound : endOf r.writes 0 ≤ 2 ^ 44) :
    content (r.begun info) = r.overlaid info ↔ r.Snug info := by
  have hmerged := mergedSize_toNat r hlen hbound
  have hbegun : (content (r.begun info)).length = (r.mergedSize info).toNat := fit_length _ _
  have hdata : (writeAll r.writes (content info)).length =
      max info.size.toNat (endOf r.writes 0) := by
    rw [writeAll_length, content, fit_length, endOf_eq_max]
  have hoverlaid : (r.overlaid info).length =
      max (max info.size.toNat (endOf r.writes 0)) r.initiatorSize.toNat := by
    rw [Request.overlaid, fit_length, hdata]
  have hbyte : ∀ p, byteAt (r.overlaid info) p =
      if p < (r.overlaid info).length then byteAt (writeAll r.writes (content info)) p else 0 := by
    intro p
    rw [hoverlaid, Request.overlaid, byteAt_fit, hdata]
  constructor
  · intro heq
    have hlens := congrArg length heq
    refine ⟨by omega, ?_⟩
    intro p hp houtside
    by_cases hin : p < (buffer info).length
    · have hat := congrArg (fun b => byteAt b p) heq
      simp only [byteAt_begun r, hbyte] at hat
      rw [if_pos (by omega), byteAt_writeAll_outside houtside, byteAt_writeAll_outside houtside,
        content, byteAt_fit, if_neg (show ¬ p < info.size.toNat by omega), ite_self] at hat
      exact hat
    · exact byteAt_past (by omega)
  · rintro ⟨hshort, hzero⟩
    refine ext_byteAt (by omega) ?_
    intro p
    rw [byteAt_begun r, hbyte, show (r.mergedSize info).toNat = (r.overlaid info).length by omega]
    split
    · by_cases hinside : Covered r.writes p
      · exact byteAt_writeAll_inside hinside _ _
      rw [byteAt_writeAll_outside hinside, byteAt_writeAll_outside hinside, content, byteAt_fit]
      split
      · rfl
      · exact hzero p (by omega) hinside
    · rfl

/-! ## Inside the window -/

/-- A command that neither makes the inode anew nor closes the window. -/
def Inside (i epoch : UInt64) (e : UInt64 × ShardCommand) : Prop :=
  (∀ made, creates e.1 e.2 = some made → made.inode ≠ i) ∧
    ∀ other, e.2 = .commitMigration i other → other ≠ epoch

variable {st : MigrationState}

/-- A command on a record in the window keeps the window and at most cuts the buffer. -/
theorem commit_refused_in_window (now i : UInt64) {epoch : UInt64}
    (hst : info.migration = some st) (hepoch : epoch ≠ st.epoch) :
    recordEffect now (.commitMigration i epoch) info = info :=
  commit_refused now i fun window hwindow heq => by
    cases hst.symm.trans hwindow
    exact absurd heq.symm hepoch

theorem recordEffect_in_window (now : UInt64) {cmd : ShardCommand} (hst : info.migration = some st)
    (htarget : target cmd = some i)
    (hopen : ∀ other, cmd = .commitMigration i other → other ≠ st.epoch) :
    (recordEffect now cmd info).migration = some st ∧
      buffer (recordEffect now cmd info) <+: buffer info := by
  have hsame : ∀ info', info'.migration = info.migration → info'.inlineData = info.inlineData →
      info'.migration = some st ∧ buffer info' <+: buffer info := by
    intro info' hm hd
    refine ⟨hm.trans hst, ?_⟩
    rw [buffer, hd]
    exact prefix_rfl
  cases cmd with
  | setAttrData j size =>
    cases size with
    | none => exact hsame _ rfl rfl
    | some n =>
      refine ⟨hst, ?_⟩
      show (info.inlineData.map _).getD [] <+: info.inlineData.getD []
      cases info.inlineData with
      | none => exact prefix_rfl
      | some d =>
        dsimp only [map_some, getD_some]
        split
        · exact take_prefix _ _
        · exact prefix_rfl
  | updateInodeSizeChunks j u =>
    have hsync : recordEffect now (.updateInodeSizeChunks j u) info = info := sync_in_window u hst
    rw [hsync]
    exact hsame info rfl rfl
  | beginMigration j r =>
    rcases begin_cases now j r info with heq | ⟨hidle, -⟩
    · exact hsame _ (congrArg InodeInfo.migration heq) (congrArg InodeInfo.inlineData heq)
    · rw [hst] at hidle
      exact absurd hidle.1 (some_ne_none st)
  | commitMigration j epoch =>
    obtain rfl := some.inj htarget
    rw [commit_refused_in_window now j hst (hopen epoch rfl)]
    exact hsame info rfl rfl
  | _ => exact hsame _ rfl rfl

/-- The record of the inode, if it is there, is in the window and its buffer is a prefix. -/
structure Open (i : UInt64) (st : MigrationState) (base : Bytes) (s : json.Store) : Prop where
  numbered : Numbered s
  record : ∀ c, s.getInode i = some c → c.migration = some st ∧ buffer c <+: base

theorem Open.step {base : Bytes} (h : Open i st base s) {e : UInt64 × ShardCommand}
    (hinside : Inside i st.epoch e) : Open i st base (applyCommand e.1 s e.2) := by
  refine ⟨applyCommand_numbered h.numbered e.1 e.2, ?_⟩
  intro c hc
  cases htarget : target e.2 with
  | none =>
    rcases getInode_names h.numbered e.1 htarget i with hkept | ⟨made, hmade, hnum, -⟩
    · obtain ⟨a, ha, _, _, _, _, _, _, rfl⟩ := hkept c hc
      exact h.record a ha
    · exact absurd hnum (hinside.1 made hmade)
  | some j =>
    rw [getInode_record h.numbered htarget] at hc
    split at hc
    case isFalse => exact h.record c hc
    case isTrue hj =>
      subst hj
      obtain ⟨a, ha, rfl⟩ := map_eq_some_iff.mp hc
      obtain ⟨hst, hbuf⟩ := h.record a ha
      obtain ⟨hst', hbuf'⟩ := recordEffect_in_window e.1 hst htarget hinside.2
      exact ⟨hst', hbuf'.trans hbuf⟩

theorem Open.run {base : Bytes} (h : Open i st base s) {log : List (UInt64 × ShardCommand)}
    (hinside : ∀ e ∈ log, Inside i st.epoch e) : Open i st base (applyLog s log) := by
  induction log generalizing s with
  | nil => exact h
  | cons e log ih =>
    exact ih (h.step (hinside e mem_cons_self)) fun e' he' =>
      hinside e' (mem_cons_of_mem _ he')

/-! ## Closing the window -/

/-- The chunk that stands for a buffer. -/
def snapshotChunk (now vid nid : UInt64) (data : Bytes) : StoredFileChunk :=
  ⟨0, UInt64.ofNat data.length, nid, vid, 0, now, false, .none⟩

theorem commit_in_window (now i : UInt64) {vid nid : UInt64} {others : List (UInt64 × UInt64)}
    (hst : info.migration = some st) (hallocs : st.allocs = (vid, nid) :: others) :
    ∃ d, recordEffect now (.commitMigration i st.epoch) info = d ∧
      d.chunks = [snapshotChunk now vid nid (buffer info)] ∧ d.inlineData = none ∧
      d.size = max info.size (UInt64.ofNat (buffer info).length) ∧ d.migration = none ∧
      d.storageMode.isVolumeBacked = true := by
  refine ⟨_, rfl, ?_⟩
  dsimp only [recordEffect, attempt, commitMigration]
  rw [hst]
  dsimp only
  rw [if_neg (not_not.mpr rfl), hallocs]
  refine ⟨rfl, rfl, rfl, rfl, ?_⟩
  dsimp only
  split <;> rfl

/-- What a reader gets from the needle through the chunk. -/
theorem committed_content_iff {size : UInt64} {data needle : Bytes} (hbegin : data <+: needle)
    (hlen : data.length < 2 ^ 64) :
    fit (max size (UInt64.ofNat data.length)).toNat
        (needle.take (UInt64.ofNat data.length).toNat) = fit size.toNat data ↔
      data.length ≤ size.toNat := by
  have hofNat : (UInt64.ofNat data.length).toNat = data.length := UInt64.toNat_ofNat_of_lt' hlen
  have htake : needle.take data.length = data := prefix_iff_eq_take.mp hbegin |>.symm
  rw [hofNat, htake, toNat_max, hofNat]
  constructor
  · intro heq
    have hlens := congrArg length heq
    rw [fit_length, fit_length] at hlens
    omega
  · intro hle
    rw [max_eq_left hle]

/-! ## The whole migration -/

/-- A log with a request at its end, and commands inside the window. -/
def windowLog (log : List (UInt64 × ShardCommand)) (now : UInt64) (r : Request) (i : UInt64)
    (inside : List (UInt64 × ShardCommand)) : List (UInt64 × ShardCommand) :=
  log ++ (now, .beginMigration i r) :: inside

theorem applyLog_append (s : json.Store) (log more : List (UInt64 × ShardCommand)) :
    applyLog s (log ++ more) = applyLog (applyLog s log) more :=
  foldl_append

/-- The record after a request, and the window it has opened. -/
theorem begun_of_opened {r : Request} {b : InodeInfo} (hs : Numbered s)
    (hinfo : s.getInode i = some info) (hidle : info.migration = none)
    (hb : (applyCommand now s (.beginMigration i r)).getInode i = some b)
    (hopened : b.migration ≠ none) :
    b = r.begun info ∧ r.allocs ≠ [] ∧ endOf r.writes 0 ≤ 2 ^ 44 := by
  have htarget : target (.beginMigration i r) = some i := rfl
  rw [getInode_record hs htarget, if_pos rfl, hinfo, map_some] at hb
  obtain rfl := some.inj hb
  rcases begin_cases now i r info with heq | ⟨⟨-, -, -, hallocs, hbound⟩, heq⟩
  · rw [heq] at hopened
    exact absurd hidle hopened
  · exact ⟨heq, hallocs, hbound⟩

/-- Requests and commits that find no window of theirs do nothing to the record. -/
structure Inert (json : Json) (i : UInt64) (s : json.Store) (epochs : UInt64 → Prop)
    (record : InodeInfo) : Prop where
  request : ∀ now (r : Request), epochs r.epoch →
    (applyCommand now s (.beginMigration i r)).getInode i = some record
  commit : ∀ now epoch, epochs epoch →
    (applyCommand now s (.commitMigration i epoch)).getInode i = some record

theorem inert_in_window {c : InodeInfo} (hs : Numbered s) (hc : s.getInode i = some c)
    (hst : c.migration = some st) :
    Inert json i s (fun epoch => epoch ≠ st.epoch) c ∧
      ∀ now (r : Request), (applyCommand now s (.beginMigration i r)).getInode i = some c := by
  have hrequest : ∀ now (r : Request),
      (applyCommand now s (.beginMigration i r)).getInode i = some c := by
    intro now r
    have htarget : target (.beginMigration i r) = some i := rfl
    rw [getInode_record hs htarget, if_pos rfl, hc, map_some]
    rcases begin_cases now i r c with heq | ⟨⟨hidle, -⟩, -⟩
    · rw [heq]
    · rw [hst] at hidle
      cases hidle
  refine ⟨⟨fun now r _ => hrequest now r, ?_⟩, hrequest⟩
  intro now epoch hepoch
  have htarget : target (.commitMigration i epoch) = some i := rfl
  rw [getInode_record hs htarget, if_pos rfl, hc, map_some,
    commit_refused_in_window now i hst hepoch]

theorem inert_after_commit {d : InodeInfo} (hs : Numbered s) (hd : s.getInode i = some d)
    (hidle : d.migration = none) (hbacked : d.storageMode.isVolumeBacked = true) :
    Inert json i s (fun _ => True) d := by
  constructor
  · intro now r _
    have htarget : target (.beginMigration i r) = some i := rfl
    rw [getInode_record hs htarget, if_pos rfl, hd, map_some]
    rcases begin_cases now i r d with heq | ⟨⟨-, -, hmode, -⟩, -⟩
    · rw [heq]
    · rw [hbacked] at hmode
      cases hmode
  · intro now epoch _
    have htarget : target (.commitMigration i epoch) = some i := rfl
    rw [getInode_record hs htarget, if_pos rfl, hd, map_some, commit_refused now i]
    intro window hwindow
    cases hidle.symm.trans hwindow

/-- **When a migration preserves the content.** The window opens on the record `info`, the
needle is written from the record `m` inside it, and the commit meets the record `c`. -/
theorem migration_preserves_content_iff (range : UInt64 × UInt64)
    (log before after : List (UInt64 × ShardCommand)) (now later i : UInt64) (r : Request)
    (info b m c : InodeInfo)
    (hinfo : (applyLog (freshStore json range) log).getInode i = some info)
    (hidle : info.migration = none) (hlen : (buffer info).length < 2 ^ 64)
    (hb : (applyLog (freshStore json range) (windowLog log now r i [])).getInode i = some b)
    (hopened : b.migration ≠ none) (hbefore : ∀ e ∈ before, Inside i r.epoch e)
    (hafter : ∀ e ∈ after, Inside i r.epoch e)
    (hm : (applyLog (freshStore json range) (windowLog log now r i before)).getInode i = some m)
    (hc : (applyLog (freshStore json range)
      (windowLog log now r i (before ++ after))).getInode i = some c) :
    (content b = r.overlaid info ↔ r.Snug info) ∧
      (∃ d chunk, (applyLog (freshStore json range) (windowLog log now r i (before ++ after ++
          [(later, .commitMigration i r.epoch)]))).getInode i = some d ∧ d.chunks = [chunk] ∧
        (fit d.size.toNat ((buffer m).take chunk.size.toNat) = content c ↔
          (buffer c).length ≤ c.size.toNat) ∧
        Inert json i (applyLog (freshStore json range) (windowLog log now r i (before ++ after ++
          [(later, .commitMigration i r.epoch)]))) (fun _ => True) d) ∧
      Inert json i (applyLog (freshStore json range) (windowLog log now r i (before ++ after)))
        (fun epoch => epoch ≠ r.epoch) c ∧
      ∀ again (r' : Request), (applyCommand again (applyLog (freshStore json range)
        (windowLog log now r i (before ++ after))) (.beginMigration i r')).getInode i = some c := by
  -- every log of the window starts from the store right after the request
  obtain ⟨s₁, hs₁⟩ : ∃ s₁, s₁ = applyCommand now (applyLog (freshStore json range) log)
    (.beginMigration i r) := ⟨_, rfl⟩
  have hrun : ∀ inside, applyLog (freshStore json range) (windowLog log now r i inside) =
      applyLog s₁ inside := by
    intro inside
    rw [hs₁, windowLog, applyLog_append]
    rfl
  have hnumbered : Numbered (applyLog (freshStore json range) log) :=
    applyLog_numbered (numbered_fresh range) log
  simp only [hrun] at hb hm hc ⊢
  have hb' : s₁.getInode i = some b := hb
  obtain ⟨hbegun, hallocs, hbound⟩ := begun_of_opened hnumbered hinfo hidle (hs₁ ▸ hb') hopened
  -- the record stays in the window, with a prefix of what it had when the needle was written
  have hopen₁ : Open i r.window (buffer b) s₁ := by
    refine ⟨hs₁ ▸ applyCommand_numbered hnumbered now _, ?_⟩
    intro c hc
    obtain rfl := some.inj (hb'.symm.trans hc)
    exact ⟨hbegun ▸ rfl, prefix_rfl⟩
  have hopen₂ := hopen₁.run hbefore
  have hopen₃ : Open i r.window (buffer m) (applyLog s₁ (before ++ after)) := by
    rw [applyLog_append]
    refine Open.run ⟨hopen₂.numbered, ?_⟩ hafter
    intro c hc
    obtain rfl := some.inj (hm.symm.trans hc)
    exact ⟨(hopen₂.record m hm).1, prefix_rfl⟩
  obtain ⟨hst, hbegin⟩ := hopen₃.record c hc
  have hshort : (buffer c).length < 2 ^ 64 := by
    have hcm := hbegin.length_le
    have hmb := (hopen₂.record m hm).2.length_le
    have hbuf : (buffer b).length = (r.mergedSize info).toNat := by
      have hmerged := mergedSize_toNat r hlen hbound
      rw [hbegun, buffer, Request.begun, getD_some, length_append, zeros_length,
        writeAll_length, endOf_eq_max]
      omega
    have hsize := (r.mergedSize info).toNat_lt
    omega
  obtain ⟨⟨vid, nid⟩, others, hcons⟩ := exists_cons_of_ne_nil hallocs
  obtain ⟨d, hd, hchunks, -, hsize, hclosed, hbacked⟩ :=
    commit_in_window later i hst hcons
  have hcommit : (applyLog s₁ (before ++ after ++
      [(later, .commitMigration i r.epoch)])).getInode i = some d := by
    have htarget : target (.commitMigration i r.epoch) = some i := rfl
    rw [applyLog_append]
    show (applyCommand later _ (.commitMigration i r.epoch)).getInode i = some d
    rw [getInode_record hopen₃.numbered htarget, if_pos rfl, hc, map_some, ← hd]
    rfl
  obtain ⟨hinert, hagain⟩ := inert_in_window hopen₃.numbered hc hst
  refine ⟨hbegun ▸ begun_content_iff r hlen hbound, ⟨d, _, hcommit, hchunks, ?_, ?_⟩, hinert,
    fun again r' => hagain again r'⟩
  · rw [hsize]
    exact committed_content_iff hbegin hshort
  · refine inert_after_commit ?_ hcommit hclosed hbacked
    rw [applyLog_append]
    exact applyLog_numbered hopen₃.numbered _

def laterRequest : Request := ⟨7, 1, [(3, 4)], 0, 3, [(0, [20])]⟩

/-- A file that is cut inside the window, after the needle was written. -/
theorem cut_in_window_kept :
    content (laterRequest.begun inlineInode) = laterRequest.overlaid inlineInode ∧
      (∃ d chunk, (applyLog plainStore (windowLog inlineLog 3
          laterRequest 2 ([] ++ [(5, .setAttrData 2 (some 1))] ++
            [(6, .commitMigration 2 7)]))).getInode 2 = some d ∧ d.chunks = [chunk] ∧
        fit d.size.toNat ((buffer (laterRequest.begun inlineInode)).take chunk.size.toNat) =
          content (setattrData 5 (some 1) (laterRequest.begun inlineInode)) ∧
        Inert plainJson 2 (applyLog plainStore (windowLog inlineLog 3
          laterRequest 2 ([] ++ [(5, .setAttrData 2 (some 1))] ++ [(6, .commitMigration 2 7)])))
          (fun _ => True) d) ∧
      Inert plainJson 2 (applyLog plainStore
        (windowLog inlineLog 3 laterRequest 2 ([] ++ [(5, .setAttrData 2 (some 1))])))
        (fun epoch => epoch ≠ 7) (setattrData 5 (some 1) (laterRequest.begun inlineInode)) ∧
      ∀ again (r' : Request), (applyCommand again (applyLog
        plainStore (windowLog inlineLog 3 laterRequest 2
          ([] ++ [(5, .setAttrData 2 (some 1))]))) (.beginMigration 2 r')).getInode 2 =
        some (setattrData 5 (some 1) (laterRequest.begun inlineInode)) := by
  have hcut : ∀ e ∈ [(5, ShardCommand.setAttrData 2 (some 1))], Inside 2 7 e := by
    intro e he
    obtain rfl := mem_singleton.mp he
    constructor
    · intro made hmade
      cases hmade
    · intro other hother
      cases hother
  obtain ⟨hbegun, ⟨d, chunk, hd, hchunk, hkept, hinert⟩, hrest⟩ :=
    migration_preserves_content_iff (0, 100) inlineLog [] [(5, .setAttrData 2 (some 1))] 3 6 2
      laterRequest inlineInode (laterRequest.begun inlineInode) (laterRequest.begun inlineInode)
      (setattrData 5 (some 1) (laterRequest.begun inlineInode)) inlineLog_getInode rfl (by decide)
      (by decide +kernel) (by decide) (fun e he => by cases he) hcut (by decide +kernel)
      (by decide +kernel)
  have hsnug : laterRequest.Snug inlineInode :=
    ⟨by decide, fun p hp _ => byteAt_past (b := [10, 11]) hp⟩
  exact ⟨hbegun.mpr hsnug, ⟨d, chunk, hd, hchunk, hkept.mpr (by decide +kernel), hinert⟩, hrest⟩

/-- Cut by `SetAttr` inside the window, the file has its old length back after the commit;
cut by `SetAttr` before the window, it has it back when the window opens. -/
theorem setAttr_cut_undone :
    ((applyLog plainStore (windowLog inlineLog 3
        ⟨7, 1, [(3, 4)], 0, 0, []⟩ 2 [])).getInode 2).map buffer = some [10, 11] ∧
      ((applyLog plainStore (windowLog inlineLog 3
        ⟨7, 1, [(3, 4)], 0, 0, []⟩ 2 [(5, .setAttr 2 (some 1) none none none none none)])).getInode
        2).map content = some [10] ∧
      ((applyLog plainStore (windowLog inlineLog 3
        ⟨7, 1, [(3, 4)], 0, 0, []⟩ 2 [(5, .setAttr 2 (some 1) none none none none none),
          (6, .commitMigration 2 7)])).getInode 2).map
        (fun d => (d.size, d.chunks.map StoredFileChunk.size)) = some (2, [2]) ∧
      ((applyLog plainStore (windowLog
        (inlineLog ++ [(5, .setAttr 2 (some 1) none none none none none)]) 3
        ⟨7, 1, [(3, 4)], 0, 0, []⟩ 2 [])).getInode 2).map content = some [10, 11] := by
  decide +kernel

end PowerFS.Filer.Migration
