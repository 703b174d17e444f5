import PowerFS.Filer.RecordSteps

/-! # Rename intents

What the commands and the sweep of `gc_stale_rename_intents` do to the intents of a shard.
Only the commands of the rename protocol touch them, every intent is stored under its own
key, and a sweep changes a store exactly when it finds an intent older than its threshold. -/
namespace PowerFS.Filer.Intents
open Lib.OrderedMap InodeRecords MetadataShard ShardFacts RecordSteps ShardStore

variable {json : Json} {s : json.Store} {now : UInt64}

/-! ## Intents and the range of the shard -/

/-- A change of a record leaves the intents, and the range of the shard. -/
theorem frame_modifyInode (inode : UInt64) (f : InodeInfo → InodeInfo) :
    (s.modifyInode inode f).db.renameIntents = s.db.renameIntents ∧
      (s.modifyInode inode f).inodeRange = s.inodeRange := by
  unfold modifyInode
  split <;> exact ⟨rfl, rfl⟩

theorem frame_addDirEntry (p : UInt64) (n : Text) (i : UInt64) :
    (s.addDirEntry p n i).db.renameIntents = s.db.renameIntents ∧
      (s.addDirEntry p n i).inodeRange = s.inodeRange :=
  frame_modifyInode (s := s.putEntry p n i) p bumpVersion

theorem frame_removeDirEntry (p : UInt64) (n : Text) :
    (s.removeDirEntry p n).db.renameIntents = s.db.renameIntents ∧
      (s.removeDirEntry p n).inodeRange = s.inodeRange :=
  frame_modifyInode (s := s.eraseEntry p n) p bumpVersion

theorem intents_renameAbort (id : Text) (side : RenameSide) :
    (s.applyRenameAbort id side).db.renameIntents = s.db.renameIntents ∨
      (s.applyRenameAbort id side).db.renameIntents =
        s.db.renameIntents.erase (renameIntentKey id side) := by
  unfold applyRenameAbort
  split
  · exact .inl rfl
  rename_i intent _
  right
  unfold deleteRenameIntent
  cases side with
  | source =>
    dsimp only
    rw [(frame_addDirEntry _ _ _).1]
  | dest =>
    dsimp only
    split
    · rw [(frame_addDirEntry _ _ _).1, (frame_removeDirEntry _ _).1]
    · rw [(frame_removeDirEntry _ _).1]

/-! ## Keys -/

/-- Every stored intent can be read and is under its own key. -/
def Keyed (s : json.Store) : Prop :=
  ∀ (k : Text) (doc : json.Doc), s.db.renameIntents[k]? = some doc →
    ∃ intent, json.intent.fromSlice doc = some intent ∧
      k = renameIntentKey intent.renameId intent.side

theorem keyed_fresh (range : UInt64 × UInt64) : Keyed (freshStore json range) := by
  intro k doc hk
  exact absurd (hk.symm.trans Std.ExtTreeMap.getElem?_empty) (Option.some_ne_none doc)

/-- The intents that are left are among those that were there. -/
theorem Keyed.mono {t : json.Store} (h : Keyed s)
    (hsub : ∀ (k : Text) (doc : json.Doc), t.db.renameIntents[k]? = some doc →
      s.db.renameIntents[k]? = some doc) : Keyed t :=
  fun k doc hk => h k doc (hsub k doc hk)

theorem Keyed.applyCommand (h : Keyed s) (hnum : Numbered s) (now : UInt64)
    (cmd : ShardCommand) : Keyed (applyCommand now s cmd) := by
  have hwrites : Writes now cmd s (MetadataShard.applyCommand now s cmd) :=
    writes_applyCommand hnum
  generalize MetadataShard.applyCommand now s cmd = t at hwrites ⊢
  induction hwrites with
  | start => exact h
  | @putIntent _ intent _ _ _ ht =>
    intro k doc hk
    unfold putRenameIntent at hk
    rw [get_insert] at hk
    split at hk
    case isTrue hkey =>
      rw [← Option.some.inj hk]
      exact ⟨intent, json.intent.fromSlice_toVec intent, hkey.symm⟩
    case isFalse => exact ht k doc hk
  | deleteIntent _ _ _ _ ht =>
    refine ht.mono fun k doc hk => ?_
    unfold deleteRenameIntent at hk
    rw [get_erase] at hk
    split at hk
    · cases hk
    · exact hk
  | _ => assumption

/-! ## Sweeps -/

/-- `now.saturating_sub(ttl)` -/
def threshold (now ttl : UInt64) : UInt64 := if ttl ≤ now then now - ttl else 0

/-- A sweep finds an intent to reap. -/
def Stale (s : json.Store) (now ttl : UInt64) : Prop :=
  ∃ (k : Text) (doc : json.Doc) (intent : RenameIntent), s.db.renameIntents[k]? = some doc ∧
    json.intent.fromSlice doc = some intent ∧ intent.createdAt < threshold now ttl

/-- What the sweep does at one stored intent. -/
def reap (threshold : UInt64) (s : json.Store) (e : Text × json.Doc) : json.Store :=
  match json.intent.fromSlice e.2 with
  | none => { s with db.renameIntents := s.db.renameIntents.erase e.1 }
  | some intent =>
    if threshold ≤ intent.createdAt then s else s.applyRenameAbort intent.renameId intent.side

theorem gcStaleRenameIntents_eq (now ttl : UInt64) :
    s.gcStaleRenameIntents now ttl =
      s.db.renameIntents.toList.foldl (reap (threshold now ttl)) s := rfl

/-- A sweep only takes intents away. -/
theorem intents_reap (threshold : UInt64) (e : Text × json.Doc) (k : Text) (doc : json.Doc)
    (hk : (reap threshold s e).db.renameIntents[k]? = some doc) :
    s.db.renameIntents[k]? = some doc := by
  have herase : ∀ (k' : Text), (s.db.renameIntents.erase k')[k]? = some doc →
      s.db.renameIntents[k]? = some doc := by
    intro k' hk'
    rw [get_erase] at hk'
    split at hk'
    · cases hk'
    · exact hk'
  unfold reap at hk
  split at hk
  · exact herase e.1 hk
  rename_i intent _
  split at hk
  · exact hk
  rcases intents_renameAbort (s := s) intent.renameId intent.side with heq | heq
  · rwa [heq] at hk
  · rw [heq] at hk
    exact herase _ hk

theorem intents_sweep (threshold : UInt64) (es : List (Text × json.Doc)) (k : Text)
    (doc : json.Doc) (hk : (es.foldl (reap threshold) s).db.renameIntents[k]? = some doc) :
    s.db.renameIntents[k]? = some doc := by
  induction es generalizing s with
  | nil => exact hk
  | cons e es ih => exact intents_reap threshold e k doc (ih hk)

theorem Keyed.gc (h : Keyed s) (now ttl : UInt64) : Keyed (s.gcStaleRenameIntents now ttl) :=
  h.mono (intents_sweep (threshold now ttl) s.db.renameIntents.toList)

/-- A stale intent is gone after its turn. -/
theorem reap_stale {bound : UInt64} {k : Text} {doc : json.Doc} {intent : RenameIntent}
    (hread : json.intent.fromSlice doc = some intent)
    (hkey : k = renameIntentKey intent.renameId intent.side) (hstale : intent.createdAt < bound)
    (hsame : ∀ doc', s.db.renameIntents[k]? = some doc' → doc' = doc) :
    (reap bound s (k, doc)).db.renameIntents[k]? = none := by
  unfold reap
  rw [hread]
  dsimp only
  rw [if_neg (UInt64.not_le.mpr hstale)]
  unfold applyRenameAbort getRenameIntent
  rw [← hkey]
  cases hget : s.db.renameIntents[k]? with
  | none => exact hget
  | some doc' =>
    obtain rfl := hsame doc' hget
    rw [Option.bind_some, hread]
    dsimp only [deleteRenameIntent]
    rw [← hkey, get_erase, if_pos rfl]

/-- **A sweep that finds nothing stale changes nothing.** -/
theorem gc_of_not_stale (h : Keyed s) {ttl : UInt64} (hfresh : ¬ Stale s now ttl) :
    s.gcStaleRenameIntents now ttl = s := by
  rw [gcStaleRenameIntents_eq]
  have hall : ∀ e ∈ s.db.renameIntents.toList, reap (threshold now ttl) s e = s := by
    rintro ⟨k, doc⟩ he
    have hk := Std.ExtTreeMap.mem_toList_iff_getElem?_eq_some.mp he
    obtain ⟨intent, hread, -⟩ := h k doc hk
    unfold reap
    rw [hread]
    dsimp only
    rw [if_pos (UInt64.not_lt.mp fun hlt => hfresh ⟨k, doc, intent, hk, hread, hlt⟩)]
  generalize s.db.renameIntents.toList = es at hall
  induction es with
  | nil => rfl
  | cons e es ih =>
    rw [List.foldl_cons, hall e List.mem_cons_self]
    exact ih fun e' he' => hall e' (List.mem_cons_of_mem _ he')

/-- **A sweep that finds a stale intent takes it away.** -/
theorem gc_of_stale (h : Keyed s) {ttl : UInt64} (hstale : Stale s now ttl) :
    (s.gcStaleRenameIntents now ttl).db.renameIntents ≠ s.db.renameIntents := by
  obtain ⟨k, doc, intent, hk, hread, hlt⟩ := hstale
  obtain ⟨intent', hread', hkey⟩ := h k doc hk
  obtain rfl := Option.some.inj (hread.symm.trans hread')
  obtain ⟨before, after, hes⟩ :=
    List.append_of_mem (Std.ExtTreeMap.mem_toList_iff_getElem?_eq_some.mpr hk)
  intro heq
  -- what is there in the end was there right after the turn of the stale intent
  rw [← heq, gcStaleRenameIntents_eq, hes, List.foldl_append, List.foldl_cons] at hk
  have hleft := intents_sweep (threshold now ttl) after k doc hk
  rw [reap_stale hread hkey hlt] at hleft
  · cases hleft
  · intro doc' hdoc'
    have horiginal := intents_sweep (threshold now ttl) before k doc' hdoc'
    exact Option.some.inj (horiginal.symm.trans (Std.ExtTreeMap.mem_toList_iff_getElem?_eq_some.mp
      (hes ▸ List.mem_append_right before List.mem_cons_self)))

end PowerFS.Filer.Intents
