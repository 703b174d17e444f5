import PowerFS.Filer.Intents

/-! # Replicas of a shard

Two replicas apply one log of commands, each at the times of its own clock; one of them
leads and also sweeps its stale rename intents, outside the log. A command that writes the
time of the local clock, applied at two different times, and a sweep that reaps anything
make the replicas differ, and nothing else does. -/
namespace PowerFS.Filer.Replicas
open Lib.StepRuns Lib.OrderedMap InodeRecords MetadataShard ShardFacts RecordSteps Intents
  ShardStore Option

variable {json : Json} {s : json.Store} {a b : UInt64}

/-! ## The local clock -/

/-- The command does not write the time of the clock: it never does, or what it would
change is not there, or it was already done. -/
def Unstamped (s : json.Store) : ShardCommand → Prop
  | .createFile .. | .putObject .. | .createSymlink .. => False
  | .createDirectory _ _ inode => inode ∈ s.inodes
  | .formatPosixRoot .. => (s.db.formatMarker.bind json.marker.fromSlice).isSome ∨ 1 ∈ s.inodes
  | .rename oldParent oldName newParent _ => s.getDirEntryInode oldParent oldName = none ∨
      s.getInode oldParent = none ∧ s.getInode newParent = none
  | .updateFile inode .. | .setAttr inode .. | .setAttrData inode .. | .setChunks inode ..
  | .setXattr inode .. | .removeXattr inode .. | .updateReliability inode ..
  | .updateToEC inode .. | .updateCompression inode .. | .renameInode inode .. =>
    s.getInode inode = none
  | .commitMigration inode epoch => ∀ info, s.getInode inode = some info →
      ∀ window, info.migration = some window → window.epoch = epoch → window.allocs = []
  | .renamePrepareSource renameId .. => (s.getRenameIntent renameId .source).isSome
  | .renamePrepareDest renameId .. => (s.getRenameIntent renameId .dest).isSome
  | _ => True

variable {info : InodeInfo} {cmd : ShardCommand} {t : json.Store} {p : UInt64}

variable {epoch inode now i q : UInt64} {n : Text}

/-- A commit outside its window does not look at the clock. -/
theorem commitMigration_unstamped
    (h : ∀ window, info.migration = some window → window.epoch = epoch → window.allocs = []) :
    commitMigration a epoch info = commitMigration b epoch info := by
  unfold commitMigration
  cases hwindow : info.migration with
  | none => rfl
  | some window =>
    dsimp only
    by_cases hepoch : window.epoch = epoch
    · rw [if_neg (not_not_intro hepoch), if_neg (not_not_intro hepoch), h window hwindow hepoch]
    · rw [if_pos hepoch, if_pos hepoch]

/-- **A command that writes no time does the same at any time.** -/
theorem applyCommand_unstamped (h : Unstamped s cmd) :
    applyCommand a s cmd = applyCommand b s cmd := by
  cases cmd with
  | createFile | putObject | createSymlink => exact h.elim
  | createDirectory p n i =>
    have hin : i ∈ s.inodes := h
    dsimp only [applyCommand, createDirectory]
    rw [if_pos hin, if_pos hin]
  | formatPosixRoot fsid shardCount createdAt =>
    dsimp only [applyCommand, applyFormatPosixRoot]
    rcases h with hmarked | hin
    · rw [if_pos hmarked, if_pos hmarked]
    · dsimp only [createDirectory]
      rw [if_pos hin, if_pos hin]
  | rename p n q m =>
    dsimp only [applyCommand, rename]
    rcases h with hentry | ⟨hp, hq⟩
    · rw [hentry]
    cases s.getDirEntryInode p n with
    | none => rfl
    | some inode =>
      have hskip : ∀ t : json.Store, t.inodes = s.inodes → ∀ now,
          ((t.modifyInode inode (moveTo m q)).modifyInode p (touch now)).modifyInode q
            (touch now) = t.modifyInode inode (moveTo m q) := by
        intro t ht now
        have hnone : ∀ i, s.getInode i = none →
            (t.modifyInode inode (moveTo m q)).getInode i = none := by
          intro i hi
          rw [getInode_modifyInode_isNone, getInode, ht]
          exact hi
        rw [modifyInode_of_none (hnone p hp), modifyInode_of_none (hnone q hq)]
      have hmoved := hskip ((s.eraseEntry p n).putEntry q m inode) rfl
      exact (hmoved a).trans (hmoved b).symm
  | updateFile | setChunks | setXattr | removeXattr | updateReliability | updateToEC
  | updateCompression =>
    exact (modifyInode_of_none h _).trans (modifyInode_of_none h _).symm
  | setAttr | setAttrData | renameInode =>
    exact (updateInodeWith_of_none h _).trans (updateInodeWith_of_none h _).symm
  | commitMigration i epoch =>
    dsimp only [applyCommand, tryUpdate]
    cases hi : s.inodes[i]? with
    | none => rfl
    | some info =>
      dsimp only
      rw [commitMigration_unstamped (h info hi)]
  | renamePrepareSource id p n i q m =>
    have hsome : (s.getRenameIntent id .source).isSome := h
    dsimp only [applyCommand, applyRenamePrepareSource]
    rw [if_pos hsome, if_pos hsome]
  | renamePrepareDest id p n i =>
    have hsome : (s.getRenameIntent id .dest).isSome := h
    dsimp only [applyCommand, applyRenamePrepareDest]
    rw [if_pos hsome, if_pos hsome]
  | _ => rfl

/-! ## Different times, different records -/

/-- What replicas have in common: records, entries, intents and statistics. -/
structure Agree (s t : json.Store) : Prop where
  inodes : s.inodes = t.inodes
  entries : s.directoryEntries = t.directoryEntries
  intents : s.db.renameIntents = t.db.renameIntents
  stats : s.stats = t.stats

theorem Agree.refl (s : json.Store) : Agree s s := ⟨rfl, rfl, rfl, rfl⟩

theorem Agree.getInode (h : Agree s t) (i : UInt64) : s.getInode i = t.getInode i := by
  unfold ShardStore.getInode
  rw [h.inodes]

/-- A commit in its window dates the chunk that it makes. -/
theorem commitMigration_stamped
    (h : attempt (commitMigration a epoch) info = attempt (commitMigration b epoch) info) :
    a = b ∨ ∀ window, info.migration = some window → window.epoch = epoch →
      window.allocs = [] := by
  by_contra hne
  push Not at hne
  obtain ⟨hne, window, hwindow, hepoch, hallocs⟩ := hne
  unfold attempt commitMigration at h
  rw [hwindow] at h
  dsimp only at h
  rw [if_neg (not_not_intro hepoch), if_neg (not_not_intro hepoch)] at h
  cases hcons : window.allocs with
  | nil => exact hallocs hcons
  | cons alloc rest =>
    rw [hcons] at h
    have hchunks := congrArg InodeInfo.chunks h
    exact hne (congrArg StoredFileChunk.mtime (List.cons.inj hchunks).1)

/-- A record that a command changed at two times and that is the same both times. -/
theorem recordEffect_stamped (htarget : target cmd = some inode)
    (hinfo : s.getInode inode = some info) (h : recordEffect a cmd info = recordEffect b cmd info) :
    a = b ∨ Unstamped s cmd := by
  cases cmd with
  | updateFile => exact .inl (congrArg InodeInfo.atime h)
  | setAttr | setAttrData | renameInode => exact .inl (congrArg InodeInfo.ctime h)
  | setXattr | removeXattr | updateReliability | updateToEC | updateCompression =>
    exact .inl (congrArg InodeInfo.mtime h)
  | setChunks i fid volumeId cookie offset size =>
    have hchunks := List.append_cancel_left (congrArg InodeInfo.chunks h)
    exact .inl (congrArg StoredFileChunk.mtime (List.cons.inj hchunks).1)
  | commitMigration i epoch =>
    obtain rfl := some.inj htarget
    refine (commitMigration_stamped h).imp_right ?_
    intro hnone info' hinfo'
    obtain rfl := some.inj (hinfo.symm.trans hinfo')
    exact hnone
  | setAttrMeta | updateInodeSizeChunks | beginMigration | incrementNlink =>
    exact .inr trivial
  | _ => cases htarget

theorem unstamped_of_absent (htarget : target cmd = some inode) (h : s.getInode inode = none) :
    Unstamped s cmd := by
  cases cmd with
  | updateFile | setAttr | setAttrData | renameInode | setXattr | removeXattr
  | updateReliability | updateToEC | updateCompression | setChunks =>
    obtain rfl := some.inj htarget
    exact h
  | commitMigration i epoch =>
    obtain rfl := some.inj htarget
    intro info hinfo
    exact absurd (hinfo.symm.trans h) (some_ne_none info)
  | setAttrMeta | updateInodeSizeChunks | beginMigration | incrementNlink => exact trivial
  | _ => cases htarget

theorem createLinked_stamped {info' : InodeInfo}
    (h : Agree (s.createLinked info) (s.createLinked info')) (hi : info.inode = info'.inode) :
    info = info' := by
  have hget := h.getInode info.inode
  have hleft : (s.createLinked info).getInode info.inode = some info := by
    refine (getInode_putInode info.inode info info.inode).trans ?_
    rw [if_pos rfl]
  have hright : (s.createLinked info').getInode info.inode = some info' := by
    refine (getInode_putInode info'.inode info' info.inode).trans ?_
    rw [if_pos hi.symm]
  exact some.inj (hleft.symm.trans (hget.trans hright))

theorem createDirectory_getInode (h : i ∉ s.inodes) :
    (s.createDirectory now p n i).getInode i = some (directoryInode now i p n) := by
  unfold createDirectory
  rw [if_neg h]
  refine (getInode_putInode i (directoryInode now i p n) i).trans ?_
  rw [if_pos rfl]

theorem touched_ctime (hi : i = p ∨ i = q) (hinfo : t.getInode i = some info) :
    (((t.modifyInode p (touch now)).modifyInode q (touch now)).getInode i).map InodeInfo.ctime =
      some now := by
  rw [getInode_modifyInode]
  by_cases hq : q = i
  · subst hq
    rw [if_pos rfl, getInode_modifyInode]
    split
    case isTrue hp => rw [hp, hinfo]; rfl
    case isFalse => rw [hinfo]; rfl
  · obtain rfl := hi.resolve_right fun heq => hq heq.symm
    rw [if_neg hq, getInode_modifyInode, if_pos rfl, hinfo]
    rfl

/-- The parents of a rename that are there are dated. -/
theorem rename_stamped {m : Text} (h : Agree (s.rename a p n q m) (s.rename b p n q m)) :
    a = b ∨ s.getDirEntryInode p n = none ∨ s.getInode p = none ∧ s.getInode q = none := by
  unfold rename at h
  cases hentry : s.getDirEntryInode p n with
  | none => exact .inr (.inl rfl)
  | some inode =>
    rw [hentry] at h
    dsimp only at h
    generalize ht : ((s.eraseEntry p n).putEntry q m inode).modifyInode inode (moveTo m q) = t at h
    have hthere : ∀ i, t.getInode i = none ↔ s.getInode i = none := by
      intro i
      rw [← ht, getInode_modifyInode_isNone]
      rfl
    have hdated : ∀ i, i = p ∨ i = q → a = b ∨ s.getInode i = none := by
      intro i hi
      cases hinfo : t.getInode i with
      | none => exact .inr ((hthere i).mp hinfo)
      | some info =>
        have hsame := congrArg (Option.map InodeInfo.ctime) (h.getInode i)
        rw [touched_ctime hi hinfo, touched_ctime hi hinfo] at hsame
        exact .inl (Option.some.inj hsame)
    rcases hdated p (.inl rfl) with hab | hp
    · exact .inl hab
    · exact (hdated q (.inr rfl)).imp_right fun hq => Or.inr ⟨hp, hq⟩

/-- An intent is dated. -/
theorem prepared_stamped {t' : json.Store} {intent intent' : RenameIntent}
    (h : Agree (t.putRenameIntent intent) (t'.putRenameIntent intent'))
    (hkey : renameIntentKey intent.renameId intent.side =
      renameIntentKey intent'.renameId intent'.side) : intent = intent' := by
  have hget : (t.putRenameIntent intent).getRenameIntent intent.renameId intent.side =
      (t'.putRenameIntent intent').getRenameIntent intent.renameId intent.side := by
    unfold getRenameIntent
    rw [h.intents]
  unfold getRenameIntent putRenameIntent at hget
  rw [get_insert, get_insert, if_pos rfl, if_pos hkey.symm, bind_some, bind_some,
    json.intent.fromSlice_toVec, json.intent.fromSlice_toVec] at hget
  exact some.inj hget

/-- **A command that writes the time tells two times apart.** -/
theorem applyCommand_stamped (hnum : Numbered s)
    (h : Agree (applyCommand a s cmd) (applyCommand b s cmd)) :
    a = b ∨ Unstamped s cmd := by
  cases htarget : target cmd with
  | some inode =>
    cases hinfo : s.getInode inode with
    | none => exact .inr (unstamped_of_absent htarget hinfo)
    | some info =>
      have hget := h.getInode inode
      rw [getInode_record hnum htarget, getInode_record hnum htarget, if_pos rfl, if_pos rfl, hinfo]
        at hget
      exact recordEffect_stamped htarget hinfo (some.inj hget)
  | none =>
    cases cmd with
    | createFile | putObject | createSymlink =>
      exact .inl (congrArg InodeInfo.ctime (createLinked_stamped h rfl))
    | createDirectory p n i =>
      by_cases hin : i ∈ s.inodes
      · exact .inr hin
      have hget := h.getInode i
      dsimp only [applyCommand] at hget
      rw [createDirectory_getInode hin, createDirectory_getInode hin] at hget
      exact .inl (congrArg InodeInfo.ctime (some.inj hget))
    | formatPosixRoot fsid shardCount createdAt =>
      by_cases hmarked : (s.db.formatMarker.bind json.marker.fromSlice).isSome
      · exact .inr (.inl hmarked)
      by_cases hin : 1 ∈ s.inodes
      · exact .inr (.inr hin)
      have hget := h.getInode 1
      dsimp only [applyCommand, applyFormatPosixRoot] at hget
      rw [if_neg hmarked, if_neg hmarked, createDirectory_getInode, createDirectory_getInode]
        at hget
      · exact .inl (congrArg InodeInfo.ctime (some.inj hget))
      · exact hin
      · exact hin
    | rename p n q m => exact rename_stamped h
    | renamePrepareSource id p n i q m =>
      by_cases hsome : (s.getRenameIntent id .source).isSome
      · exact .inr hsome
      dsimp only [applyCommand, applyRenamePrepareSource] at h
      rw [if_neg hsome, if_neg hsome] at h
      exact .inl (congrArg RenameIntent.createdAt (prepared_stamped h rfl))
    | renamePrepareDest id p n i =>
      by_cases hsome : (s.getRenameIntent id .dest).isSome
      · exact .inr hsome
      dsimp only [applyCommand, applyRenamePrepareDest] at h
      rw [if_neg hsome, if_neg hsome] at h
      exact .inl (congrArg RenameIntent.createdAt (prepared_stamped h rfl))
    | updateFile | setAttr | setAttrData | renameInode | setXattr | removeXattr
    | updateReliability | updateToEC | updateCompression | setChunks | commitMigration
    | setAttrMeta | updateInodeSizeChunks | beginMigration | incrementNlink => cases htarget
    | _ => exact .inr trivial

/-! ## Runs of two replicas -/

/-- A command of the log, applied at the time of the leader's clock and at that of the
follower's, or a sweep of the leader. -/
inductive Event where
  | apply (cmd : ShardCommand) (leaderNow followerNow : UInt64)
  | gc (now ttl : UInt64)

structure Pair (json : Json) where
  leader : json.Store
  follower : json.Store

def step (r : Pair json) : Event → Pair json
  | .apply cmd leaderNow followerNow =>
    ⟨applyCommand leaderNow r.leader cmd, applyCommand followerNow r.follower cmd⟩
  | .gc now ttl => ⟨r.leader.gcStaleRenameIntents now ttl, r.follower⟩

/-- A command that writes the time is applied at one time on both; a sweep finds nothing. -/
def Quiet (r : Pair json) : Event → Prop
  | .apply cmd leaderNow followerNow => leaderNow = followerNow ∨ Unstamped r.leader cmd
  | .gc now ttl => ¬ Stale r.leader now ttl

/-- The replicas are one store, which a log has made. -/
structure InStep (r : Pair json) : Prop where
  same : r.leader = r.follower
  numbered : Numbered r.leader
  keyed : Keyed r.leader

theorem inStep_fresh (range : UInt64 × UInt64) :
    InStep (⟨freshStore json range, freshStore json range⟩ : Pair json) :=
  ⟨rfl, numbered_fresh range, keyed_fresh range⟩

theorem InStep.step {r : Pair json} (h : InStep r) {e : Event} (hquiet : Quiet r e) :
    InStep (step r e) := by
  obtain ⟨leader, follower⟩ := r
  obtain ⟨hsame, hnum, hkeyed⟩ := h
  obtain rfl : leader = follower := hsame
  cases e with
  | apply cmd a b =>
    refine ⟨?_, applyCommand_numbered hnum a cmd, hkeyed.applyCommand hnum a cmd⟩
    rcases hquiet with hab | hun
    · exact congrArg (fun now => applyCommand now leader cmd) hab
    · exact applyCommand_unstamped hun
  | gc now ttl =>
    have hsame := gc_of_not_stale hkeyed hquiet
    refine ⟨hsame, ?_, ?_⟩
    · show Numbered (leader.gcStaleRenameIntents now ttl)
      rw [hsame]
      exact hnum
    · exact hkeyed.gc now ttl

/-- One event keeps replicas in step exactly when it is quiet. -/
theorem InStep.agree_iff {r : Pair json} (h : InStep r) (e : Event) :
    Agree (Replicas.step r e).leader (Replicas.step r e).follower ↔ Quiet r e := by
  constructor
  · intro hagree
    obtain ⟨leader, follower⟩ := r
    obtain ⟨hsame, hnum, hkeyed⟩ := h
    obtain rfl : leader = follower := hsame
    cases e with
    | apply cmd a b => exact applyCommand_stamped hnum hagree
    | gc now ttl =>
      intro hstale
      exact gc_of_stale hkeyed hstale hagree.intents
  · intro hquiet
    rw [(h.step hquiet).same]
    exact Agree.refl _

/-- **Replicas agree after every event exactly when every event is quiet.** -/
theorem replicas_agree_iff (range : UInt64 × UInt64) (events : List Event) :
    Along step (fun r e => Agree (step r e).leader (step r e).follower)
        ⟨freshStore json range, freshStore json range⟩ events ↔
      Along step Quiet ⟨freshStore json range, freshStore json range⟩ events :=
  along_iff (I := InStep) (fun _ _ h hagree => h.step ((h.agree_iff _).mp hagree))
    (fun _ e h => h.agree_iff e) events (inStep_fresh range)

/-- A file is created with the clocks one second apart. A prepared rename that the leader
reaps, and the follower does not. -/
theorem replicas_diverge :
    let created := step ⟨plainStore, plainStore⟩ (.apply (.createFile 1 ['a'] 2) 10 11)
    let reaped := [.apply (.addDirEntry 1 ['a'] 2) 10 10,
        .apply (.renamePrepareSource ['r'] 1 ['a'] 2 3 ['b']) 11 11, .gc 100 30].foldl
      step ⟨plainStore, plainStore⟩
    (created.leader.getInode 2).map InodeInfo.mtime = some 10 ∧
      (created.follower.getInode 2).map InodeInfo.mtime = some 11 ∧
      reaped.leader.getDirEntryInode 1 ['a'] = some 2 ∧
      reaped.follower.getDirEntryInode 1 ['a'] = none ∧
      reaped.leader.getRenameIntent ['r'] .source = none ∧
      reaped.follower.getRenameIntent ['r'] .source =
        some ⟨['r'], .source, 2, 1, ['a'], none, 11⟩ := by
  decide +kernel

end PowerFS.Filer.Replicas
