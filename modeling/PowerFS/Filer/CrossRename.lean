import PowerFS.Filer.Intents

/-! # Renames over two shards

A client moves a name from one shard to another with a command at a time: each side is
prepared, then both are committed or aborted. Each shard keeps an intent for its own side
and sweeps it away on its own when it gets old. The commands of the client can be sent again,
the client can stop at any point, and other clients create and unlink at the same two names.

One side of the rename is seen through its `Half`: the intent and the entry at the name. The
store of a shard refines that machine, whatever the order of the events. What the two sides
owe each other is then shown on halves, with a ledger of what the other clients did. -/
namespace PowerFS.Filer.CrossRename
open Lib.OrderedMap Lib.StepRuns InodeRecords MetadataShard ShardFacts RecordSteps Intents Function
  Std.ExtTreeMap ShardStore

/-! ## The protocol -/

structure Place where
  parentInode : UInt64
  name : Text
  deriving DecidableEq

structure Rename where
  id : Text
  inode : UInt64
  source : Place
  dest : Place

def Rename.place (r : Rename) : RenameSide → Place
  | .source => r.source
  | .dest => r.dest

/-- `0` is the source, `1` the destination -/
def sideCode : RenameSide → UInt8
  | .source => 0
  | .dest => 1

/-- The first phase. -/
def Rename.prepare (r : Rename) : RenameSide → ShardCommand
  | .source => .renamePrepareSource r.id r.source.parentInode r.source.name r.inode
      r.dest.parentInode r.dest.name
  | .dest => .renamePrepareDest r.id r.dest.parentInode r.dest.name r.inode

/-- The second phase. -/
def Rename.commit (r : Rename) : RenameSide → ShardCommand
  | .source => .renameCommitSource r.id r.source.parentInode r.source.name
  | .dest => .renameCommitDest r.id r.dest.parentInode r.dest.name

def Rename.abort (r : Rename) (side : RenameSide) : ShardCommand :=
  .renameAbort r.id (sideCode side) (r.place side).parentInode (r.place side).name r.inode

/-- What another client does at a name. -/
inductive Access where
  | addDirEntry (inode : UInt64)
  | createFile (inode : UInt64)
  | createSymlink (inode : UInt64) (target : Text)
  | createHardLink (inode : UInt64)
  | createFileAtomic (info : InodeInfo) (exclusive : Bool)
  | removeDirEntry
  | deleteFile

def Access.command (place : Place) : Access → ShardCommand
  | .addDirEntry inode => .addDirEntry place.parentInode place.name inode
  | .createFile inode => .createFile place.parentInode place.name inode
  | .createSymlink inode target => .createSymlink place.parentInode place.name inode target
  | .createHardLink inode => .createHardLink inode place.parentInode place.name
  | .createFileAtomic info exclusive =>
    .createFileAtomic { info with parentInode := place.parentInode, name := place.name } exclusive
  | .removeDirEntry => .removeDirEntry place.parentInode place.name
  | .deleteFile => .deleteFile place.parentInode place.name

inductive Act where
  | prepare
  | commit
  | abort
  | gc (ttlSecs : UInt64)
  | access (a : Access)

/-- Something happens on the shard of one side, at a time of its clock. A client that stops
is a run that ends. -/
structure Event where
  side : RenameSide
  now : UInt64
  act : Act

section Perform

variable {json : Json}

def perform (r : Rename) (side : RenameSide) (now : UInt64) (s : json.Store) :
    Act → json.Store
  | .prepare => applyCommand now s (r.prepare side)
  | .commit => applyCommand now s (r.commit side)
  | .abort => applyCommand now s (r.abort side)
  | .gc ttlSecs => s.gcStaleRenameIntents now ttlSecs
  | .access a => applyCommand now s (a.command (r.place side))

end Perform

/-! ## One side -/

/-- What one side of the rename comes to. -/
structure Half where
  intent : Option RenameIntent
  entry : Option UInt64
  admits : UInt64 → Bool

/-- What an access writes to the entry: an inode, nothing, or no change. -/
def Access.effect (admits : UInt64 → Bool) (entry : Option UInt64) :
    Access → Option (Option UInt64)
  | .addDirEntry inode | .createFile inode | .createSymlink inode _ | .createHardLink inode =>
    some (some inode)
  | .createFileAtomic info _ =>
    if admits info.inode && entry.isNone then some (some info.inode) else none
  | .removeDirEntry | .deleteFile => some none

def Half.rollBack (r : Rename) (side : RenameSide) (h : Half) : Half :=
  match h.intent with
  | none => h
  | some intent => { h with
      intent := none
      entry := match side with
        | .source => some r.inode
        | .dest => intent.replacedInode }

/-- A sweep takes the intent. -/
def Half.stale (now ttlSecs : UInt64) (h : Half) : Bool :=
  match h.intent with
  | none => false
  | some intent => decide (intent.createdAt < threshold now ttlSecs)

def Half.after (r : Rename) (side : RenameSide) (now : UInt64) (h : Half) : Act → Half
  | .prepare =>
    if h.intent.isSome then h
    else match side with
      | .source => { h with
          intent := some ⟨r.id, .source, r.inode, r.source.parentInode, r.source.name, none, now⟩
          entry := none }
      | .dest => { h with
          intent := some ⟨r.id, .dest, r.inode, r.dest.parentInode, r.dest.name, h.entry, now⟩
          entry := some r.inode }
  | .commit => { h with intent := none }
  | .abort => h.rollBack r side
  | .gc ttlSecs => if h.stale now ttlSecs then h.rollBack r side else h
  | .access a => { h with entry := (a.effect h.admits h.entry).getD h.entry }

/-! ## The store of a shard as a half -/

section Refinement

variable {json : Json} {s t : json.Store} {r : Rename} {side : RenameSide} {now : UInt64}

def half (r : Rename) (side : RenameSide) (s : json.Store) : Half where
  intent := s.getRenameIntent r.id side
  entry := s.getDirEntryInode (r.place side).parentInode (r.place side).name
  admits := s.containsInode

/-- Every intent of the shard is the one of this side of the rename. -/
def Own (r : Rename) (side : RenameSide) (s : json.Store) : Prop :=
  ∀ (k : Text) (doc : json.Doc), s.db.renameIntents[k]? = some doc →
    ∃ intent, json.intent.fromSlice doc = some intent ∧
      k = renameIntentKey r.id side ∧ intent.renameId = r.id ∧ intent.side = side ∧
      (⟨intent.parentInode, intent.name⟩ : Place) = r.place side ∧ intent.inode = r.inode

section

variable (h : Own r side s)
include h

theorem Own.keyed : Keyed s := by
  intro k doc hk
  obtain ⟨intent, hread, hkey, hid, hside, -⟩ := h k doc hk
  exact ⟨intent, hread, by rw [hkey, hid, hside]⟩

theorem Own.mono (hsub : ∀ (k : Text) (doc : json.Doc),
    t.db.renameIntents[k]? = some doc → s.db.renameIntents[k]? = some doc) : Own r side t :=
  fun k doc hk => h k doc (hsub k doc hk)

theorem Own.congr (heq : t.db.renameIntents = s.db.renameIntents) : Own r side t := by
  refine h.mono ?_
  intro k doc hk
  rwa [heq] at hk

theorem Own.erase {key : Text}
    (heq : t.db.renameIntents = s.db.renameIntents.erase key) : Own r side t := by
  refine h.mono ?_
  intro k doc hk
  rw [heq, get_erase] at hk
  split at hk
  · cases hk
  · exact hk

/-- The intent that is read is an intent of this side. -/
theorem Own.intent {intent : RenameIntent} (hget : s.getRenameIntent r.id side = some intent) :
    ∃ doc, s.db.renameIntents[renameIntentKey r.id side]? = some doc ∧
      json.intent.fromSlice doc = some intent ∧ intent.renameId = r.id ∧ intent.side = side ∧
      (⟨intent.parentInode, intent.name⟩ : Place) = r.place side ∧ intent.inode = r.inode := by
  obtain ⟨doc, hdoc, hread⟩ := Option.bind_eq_some_iff.mp hget
  obtain ⟨intent', hread', -, hrest⟩ := h _ doc hdoc
  obtain rfl := Option.some.inj (hread.symm.trans hread')
  exact ⟨doc, hdoc, hread, hrest⟩

end

/-! ### Intents -/

theorem getRenameIntent_congr (h : t.db.renameIntents = s.db.renameIntents) (id : Text)
    (side : RenameSide) : t.getRenameIntent id side = s.getRenameIntent id side := by
  unfold getRenameIntent
  rw [h]

theorem getRenameIntent_put (intent : RenameIntent) :
    (s.putRenameIntent intent).getRenameIntent intent.renameId intent.side = some intent := by
  unfold getRenameIntent putRenameIntent
  rw [get_insert, if_pos rfl, Option.bind_some, json.intent.fromSlice_toVec]

theorem getRenameIntent_delete (id : Text) (side : RenameSide) :
    (s.deleteRenameIntent id side).getRenameIntent id side = none := by
  unfold getRenameIntent deleteRenameIntent
  rw [get_erase, if_pos rfl, Option.bind_none]

/-! ### Entries -/

theorem entry_addDirEntry (p : UInt64) (n : Text) (i : UInt64) :
    (s.addDirEntry p n i).getDirEntryInode p n = some i := by
  unfold addDirEntry bumpDirVersion
  rw [modifyInode_entries, getDirEntryInode_putEntry, if_pos rfl]

theorem entry_removeDirEntry (p : UInt64) (n : Text) :
    (s.removeDirEntry p n).getDirEntryInode p n = none := by
  unfold removeDirEntry bumpDirVersion
  rw [modifyInode_entries, getDirEntryInode_eraseEntry, if_pos rfl]

theorem entry_createLinked (info : InodeInfo) :
    (s.createLinked info).getDirEntryInode info.parentInode info.name = some info.inode := by
  rw [createLinked_entries, if_pos rfl]

theorem entry_createFileAtomic (info : InodeInfo) (exclusive : Bool) :
    (s.createFileResolveExisting info exclusive).1.getDirEntryInode info.parentInode info.name =
      ((if s.containsInode info.inode &&
          (s.getDirEntryInode info.parentInode info.name).isNone then some (some info.inode)
        else none).getD (s.getDirEntryInode info.parentInode info.name)) := by
  rw [createFileResolveExisting_eq]
  split
  case isTrue hfree =>
    rw [bumpDirVersion, modifyInode_entries, entry_createLinked, hfree.1, hfree.2]
    rfl
  case isFalse htaken =>
    rw [if_neg (by simpa using htaken)]
    rfl

/-! ### What other clients leave -/

theorem frame_access (now : UInt64) (place : Place) (a : Access) :
    (applyCommand now s (a.command place)).db.renameIntents = s.db.renameIntents ∧
      (applyCommand now s (a.command place)).inodeRange = s.inodeRange := by
  cases a with
  | addDirEntry i => exact frame_addDirEntry _ _ i
  | createFile | createSymlink => exact ⟨rfl, rfl⟩
  | createHardLink i =>
    dsimp only [Access.command, applyCommand, createHardLink]
    split <;> exact ⟨rfl, rfl⟩
  | createFileAtomic info exclusive =>
    dsimp only [Access.command, applyCommand]
    rw [createFileResolveExisting_eq]
    split
    · exact frame_modifyInode (s := s.createLinked _) _ _
    · exact ⟨rfl, rfl⟩
  | removeDirEntry => exact frame_removeDirEntry _ _
  | deleteFile =>
    dsimp only [Access.command, applyCommand]
    fun_cases deleteFile <;> exact ⟨rfl, rfl⟩

theorem containsInode_congr (h : t.inodeRange = s.inodeRange) :
    t.containsInode = s.containsInode := by
  funext i
  unfold containsInode
  rw [h]

/-! ### The acts -/

theorem half_ext {h : Half} (hintent : t.getRenameIntent r.id side = h.intent)
    (hentry : t.getDirEntryInode (r.place side).parentInode (r.place side).name = h.entry)
    (hrange : t.containsInode = h.admits) : half r side t = h := by
  obtain ⟨intent, entry, admits⟩ := h
  unfold half
  rw [hintent, hentry, hrange]

section

variable (r : Rename) (side : RenameSide) (now : UInt64) (s : json.Store)

theorem half_prepare :
    half r side (perform r side now s .prepare) = (half r side s).after r side now .prepare := by
  by_cases hhave : (s.getRenameIntent r.id side).isSome
  · have hsame : perform r side now s .prepare = s := by
      cases side with
      | source | dest => exact if_pos hhave
    rw [hsame]
    exact (if_pos hhave).symm
  have hafter : (half r side s).after r side now .prepare = _ := if_neg hhave
  rw [hafter]
  cases side with
  | source =>
    have hperform : perform r .source now s .prepare = _ := if_neg hhave
    rw [hperform]
    refine half_ext ?_ ?_ ?_
    · exact getRenameIntent_put ⟨r.id, .source, r.inode, _, _, none, now⟩
    · exact entry_removeDirEntry _ _
    · exact containsInode_congr (frame_removeDirEntry _ _).2
  | dest =>
    have hperform : perform r .dest now s .prepare = _ := if_neg hhave
    rw [hperform]
    refine half_ext ?_ ?_ ?_
    · exact getRenameIntent_put ⟨r.id, .dest, r.inode, _, _, _, now⟩
    · exact entry_addDirEntry _ _ _
    · refine containsInode_congr ((frame_addDirEntry _ _ _).2.trans ?_)
      split
      · exact (frame_removeDirEntry _ _).2
      · rfl

theorem half_commit :
    half r side (perform r side now s .commit) = (half r side s).after r side now .commit := by
  have hdelete : perform r side now s .commit = s.deleteRenameIntent r.id side := by
    cases side <;> rfl
  rw [hdelete]
  exact half_ext (getRenameIntent_delete r.id side) rfl rfl

theorem perform_abort : perform r side now s .abort = s.applyRenameAbort r.id side := by
  cases side <;> rfl

end

theorem half_rollBack (hown : Own r side s) :
    half r side (s.applyRenameAbort r.id side) = (half r side s).rollBack r side := by
  unfold Half.rollBack applyRenameAbort
  cases hget : s.getRenameIntent r.id side with
  | none =>
    have hhalf : (half r side s).intent = none := hget
    rw [hhalf]
  | some intent =>
    have hhalf : (half r side s).intent = some intent := hget
    obtain ⟨-, -, -, -, -, hplace, hinode⟩ := hown.intent hget
    have hparent : intent.parentInode = (r.place side).parentInode := by rw [← hplace]
    have hname : intent.name = (r.place side).name := by rw [← hplace]
    rw [hhalf]
    dsimp only
    refine half_ext (getRenameIntent_delete r.id side) ?_ ?_
    · rw [hparent, hname, hinode]
      cases side with
      | source => exact entry_addDirEntry _ _ _
      | dest =>
        cases intent.replacedInode with
        | none => exact entry_removeDirEntry _ _
        | some replaced => exact entry_addDirEntry _ _ _
    · refine containsInode_congr ?_
      cases side with
      | source => exact (frame_addDirEntry _ _ _).2
      | dest =>
        cases intent.replacedInode with
        | none => exact (frame_removeDirEntry _ _).2
        | some replaced => exact (frame_addDirEntry _ _ _).2.trans (frame_removeDirEntry _ _).2

/-- A sweep that meets one intent over and over aborts it once. -/
theorem sweep_same {bound : UInt64} {e : Text × json.Doc} {es : List (Text × json.Doc)}
    (hall : ∀ e' ∈ es, e' = e) (honce : reap bound (reap bound s e) e = reap bound s e) :
    es.foldl (reap bound) (reap bound s e) = reap bound s e := by
  induction es with
  | nil => rfl
  | cons e' es ih =>
    rw [List.foldl_cons, hall e' List.mem_cons_self, honce]
    exact ih fun e'' he'' => hall e'' (List.mem_cons_of_mem _ he'')

theorem gc_own (hown : Own r side s) (now ttlSecs : UInt64) :
    s.gcStaleRenameIntents now ttlSecs =
      if (half r side s).stale now ttlSecs then s.applyRenameAbort r.id side else s := by
  cases hstale : (half r side s).stale now ttlSecs with
  | false =>
    refine gc_of_not_stale hown.keyed ?_
    rintro ⟨k, doc, intent, hk, hread, hlt⟩
    obtain ⟨-, -, hkey, -⟩ := hown k doc hk
    have hget : (half r side s).intent = some intent := by
      show (s.db.renameIntents[_]?).bind _ = _
      rw [← hkey, hk, Option.bind_some, hread]
    unfold Half.stale at hstale
    rw [hget] at hstale
    exact absurd hlt (of_decide_eq_false hstale)
  | true =>
    unfold Half.stale at hstale
    split at hstale
    · cases hstale
    rename_i intent hget
    have hlt := of_decide_eq_true hstale
    obtain ⟨doc, hdoc, hread, hid, hside, -⟩ := hown.intent hget
    have hreap : ∀ t : json.Store, reap (threshold now ttlSecs) t (renameIntentKey r.id side, doc) =
          t.applyRenameAbort r.id side := by
      intro t
      unfold reap
      rw [hread]
      dsimp only
      rw [if_neg (UInt64.not_le.mpr hlt), hid, hside]
    have hgone : (s.applyRenameAbort r.id side).getRenameIntent r.id side = none := by
      have hroll : (half r side (s.applyRenameAbort r.id side)).intent = _ :=
        congrArg Half.intent (half_rollBack hown)
      unfold Half.rollBack at hroll
      rw [hget] at hroll
      exact hroll
    have honce : (s.applyRenameAbort r.id side).applyRenameAbort r.id side =
        s.applyRenameAbort r.id side := by
      generalize s.applyRenameAbort r.id side = t at hgone
      unfold applyRenameAbort
      rw [hgone]
    -- the only stored intent is the one that is read
    have hall : ∀ e ∈ s.db.renameIntents.toList, e = (renameIntentKey r.id side, doc) := by
      rintro ⟨k, doc'⟩ he
      have hk := mem_toList_iff_getElem?_eq_some.mp he
      obtain ⟨-, -, hkey, -⟩ := hown k doc' hk
      rw [hkey, hdoc] at hk
      rw [hkey, Option.some.inj hk]
    have hmem := mem_toList_iff_getElem?_eq_some.mpr hdoc
    rw [gcStaleRenameIntents_eq]
    generalize s.db.renameIntents.toList = es at hall hmem
    cases es with
    | nil => cases hmem
    | cons e es =>
      rw [List.foldl_cons, hall e List.mem_cons_self,
        sweep_same (fun e' he' => hall e' (List.mem_cons_of_mem _ he'))]
      · exact hreap s
      · rw [hreap, hreap, honce]

theorem half_access (r : Rename) (side : RenameSide) (now : UInt64) (s : json.Store) (a : Access) :
    half r side (perform r side now s (.access a)) =
      (half r side s).after r side now (.access a) := by
  refine half_ext ?_ ?_ ?_
  · exact getRenameIntent_congr (frame_access now (r.place side) a).1 r.id side
  · cases a with
    | addDirEntry i => exact entry_addDirEntry _ _ i
    | createFile i => exact entry_createLinked (fileInode now i _ _)
    | createSymlink i target => exact entry_createLinked (symlinkInode now i _ _ target)
    | createHardLink i => exact (createHardLink_entries i _ _ _ _).trans (if_pos rfl)
    | createFileAtomic info exclusive =>
      exact entry_createFileAtomic
        { info with parentInode := (r.place side).parentInode, name := (r.place side).name }
        exclusive
    | removeDirEntry => exact entry_removeDirEntry _ _
    | deleteFile => exact (deleteFile_entries _ _ _ _).trans (if_pos rfl)
  · exact containsInode_congr (frame_access now (r.place side) a).2

/-- **The store of a shard refines its half of the rename.** -/
theorem half_perform (hown : Own r side s) (now : UInt64) (act : Act) :
    half r side (perform r side now s act) = (half r side s).after r side now act := by
  cases act with
  | prepare => exact half_prepare r side now s
  | commit => exact half_commit r side now s
  | abort =>
    rw [perform_abort]
    exact half_rollBack hown
  | gc ttlSecs =>
    show half r side (s.gcStaleRenameIntents now ttlSecs) = if _ then _ else _
    rw [gc_own hown]
    split
    · exact half_rollBack hown
    · rfl
  | access a => exact half_access r side now s a

theorem Own.put (h : Own r side s) {intent : RenameIntent} (hid : intent.renameId = r.id)
    (hside : intent.side = side)
    (hplace : (⟨intent.parentInode, intent.name⟩ : Place) = r.place side)
    (hinode : intent.inode = r.inode) : Own r side (s.putRenameIntent intent) := by
  intro k doc hk
  unfold putRenameIntent at hk
  rw [get_insert] at hk
  split at hk
  case isTrue hkey =>
    obtain rfl := Option.some.inj hk
    refine ⟨intent, json.intent.fromSlice_toVec intent, ?_, hid, hside, hplace, hinode⟩
    rw [← hkey, hid, hside]
  case isFalse => exact h k doc hk

theorem Own.perform (h : Own r side s) (now : UInt64) (act : Act) :
    Own r side (perform r side now s act) := by
  cases act with
  | prepare =>
    cases side with
    | source =>
      show Own r .source (s.applyRenamePrepareSource _ _ _ _ _)
      unfold applyRenamePrepareSource
      split
      · exact h
      · exact (h.congr (frame_removeDirEntry _ _).1).put rfl rfl rfl rfl
    | dest =>
      show Own r .dest (s.applyRenamePrepareDest _ _ _ _ _)
      unfold applyRenamePrepareDest
      split
      · exact h
      refine Own.put (h.congr ((frame_addDirEntry _ _ _).1.trans ?_)) rfl rfl rfl rfl
      split
      · exact (frame_removeDirEntry _ _).1
      · rfl
  | commit =>
    cases side with
    | source | dest => exact h.erase rfl
  | abort =>
    rw [perform_abort]
    rcases intents_renameAbort (s := s) r.id side with heq | heq
    · exact h.congr heq
    · exact h.erase heq
  | gc ttlSecs =>
    exact h.mono (intents_sweep (threshold now ttlSecs) s.db.renameIntents.toList)
  | access a => exact h.congr (frame_access now (r.place side) a).1

end Refinement

/-! ## The two sides -/

inductive Phase where
  | fresh
  | prepared
  | committed
  | aborted
  deriving DecidableEq

/-- What happened so far, for the record: how far each side has come, the entries of other
clients at the two names, the one that a prepared destination has replaced, and whether
another client unlinked the inode. -/
structure Ledger where
  phase : RenameSide → Phase
  others : RenameSide → Option UInt64
  target : Option UInt64
  unlinked : Bool

/-- A side is rolled back: what the destination had replaced is due again. -/
def Ledger.undo (l : Ledger) : RenameSide → Ledger
  | .source => { l with phase := Function.update l.phase .source .aborted }
  | .dest => { l with
      phase := Function.update l.phase .dest .aborted
      others := Function.update l.others .dest ((l.others .dest).or l.target)
      target := none }

def Ledger.after (r : Rename) (h : Half) (side : RenameSide) (now : UInt64) (l : Ledger) :
    Act → Ledger
  | .prepare =>
    if h.intent.isSome then l
    else match side with
      | .source => { l with phase := Function.update l.phase .source .prepared }
      | .dest => { l with
          phase := Function.update l.phase .dest .prepared
          others := Function.update l.others .dest none
          target := l.others .dest }
  | .commit =>
    if h.intent.isNone then l
    else match side with
      | .source => { l with phase := Function.update l.phase .source .committed }
      | .dest => { l with phase := Function.update l.phase .dest .committed, target := none }
  | .abort => if h.intent.isNone then l else l.undo side
  | .gc ttlSecs => if h.stale now ttlSecs then l.undo side else l
  | .access a => match a.effect h.admits h.entry with
    | none => l
    | some written => { l with
        others := Function.update l.others side written
        unlinked := l.unlinked || (written.isNone && decide (h.entry = some r.inode)) }

structure System (json : Json) where
  stores : RenameSide → json.Store
  ledger : Ledger

section Runs

variable {json : Json} {r : Rename}

def System.half (r : Rename) (sys : System json) (side : RenameSide) : Half :=
  CrossRename.half r side (sys.stores side)

/-- Before the rename, what is at the destination is an entry of another client. -/
def start (r : Rename) (stores : RenameSide → json.Store) : System json where
  stores := stores
  ledger := {
    phase := fun _ => .fresh
    others := fun
      | .source => none
      | .dest => (CrossRename.half r .dest (stores .dest)).entry
    target := none
    unlinked := false }

def step (r : Rename) (sys : System json) (e : Event) : System json where
  stores := Function.update sys.stores e.side (perform r e.side e.now (sys.stores e.side) e.act)
  ledger := sys.ledger.after r (sys.half r e.side) e.side e.now e.act

/-- There is no intent yet, and the source names the inode, the destination does not. -/
structure Ready (r : Rename) (stores : RenameSide → json.Store) : Prop where
  intents : ∀ side, (stores side).db.renameIntents = ∅
  source : (CrossRename.half r .source (stores .source)).entry = some r.inode
  dest : (CrossRename.half r .dest (stores .dest)).entry ≠ some r.inode

/-- Exactly one of the names has the inode unless another client unlinked it, and every entry
that is due to another client is there. -/
def Atomic (r : Rename) (sys : System json) : Prop :=
  (sys.ledger.unlinked = false → ∃! side, (sys.half r side).entry = some r.inode) ∧
    ∀ side inode, sys.ledger.others side = some inode → (sys.half r side).entry = some inode

/-- No intent of the rename is left. -/
def Over (r : Rename) (sys : System json) : Prop := ∀ side, (sys.half r side).intent = none

/-- A side can be rolled back: the other one is not committed, and no other client has put
an entry at the name. -/
def MayUndo (r : Rename) (halves : RenameSide → Half) (l : Ledger) : RenameSide → Prop
  | .source => l.phase .dest ≠ .committed ∧ (halves .source).entry = none
  | .dest => l.phase .source ≠ .committed ∧
      ((halves .dest).entry = some r.inode ∨ (halves .dest).entry = none)

/-- The order the protocol relies on. A side is prepared once, the source first and while it
names the inode; a side is committed when both are prepared; a side is rolled back, by the
client or by a sweep, only as `MayUndo` says; others create at a free name, and not the
inode. What finds its intent there, or gone, and does nothing is allowed at any time. -/
def Orderly (r : Rename) (halves : RenameSide → Half) (l : Ledger) (side : RenameSide)
    (now : UInt64) : Act → Prop
  | .prepare => (halves side).intent = none → match side with
    | .source => l.phase .source = .fresh ∧ (halves .source).entry = some r.inode
    | .dest => l.phase .dest = .fresh ∧ l.phase .source = .prepared
  | .commit => (halves side).intent ≠ none → ∀ other,
      l.phase other = .prepared ∨ l.phase other = .committed
  | .abort => (halves side).intent ≠ none → MayUndo r halves l side
  | .gc ttlSecs => (halves side).stale now ttlSecs = true → MayUndo r halves l side
  | .access a => ∀ inode, a.effect (halves side).admits (halves side).entry = some (some inode) →
      (halves side).entry = none ∧ inode ≠ r.inode

/-! ## What the sides owe each other -/

/-- The inode is to be found at this side. -/
def Phase.holds : RenameSide → Phase → Bool
  | .source, .fresh | .source, .aborted | .dest, .prepared | .dest, .committed => true
  | _, _ => false

/-- The entry is the inode where the side holds it, and otherwise that of the other clients. -/
def Kept (r : Rename) (l : Ledger) (side : RenameSide) (entry : Option UInt64) : Prop :=
  (entry = l.others side ∧ ((l.phase side).holds side = true → l.unlinked = true)) ∨
    (entry = some r.inode ∧ l.others side = none ∧ (l.phase side).holds side = true)

structure Inv (r : Rename) (halves : RenameSide → Half) (l : Ledger) : Prop where
  intent : ∀ side, (halves side).intent.isSome = decide (l.phase side = .prepared)
  replaced : ∀ intent, (halves .dest).intent = some intent → intent.replacedInode = l.target
  foreign : ∀ side, l.others side ≠ some r.inode
  target : l.target ≠ some r.inode
  kept : ∀ side, Kept r l side (halves side).entry
  sourceFirst : l.phase .dest ≠ .fresh → l.phase .source ≠ .fresh
  sourceDone : l.phase .source = .committed → (l.phase .dest).holds .dest = true
  destDone : l.phase .dest = .committed → (l.phase .source).holds .source = false

variable {halves : RenameSide → Half} {l : Ledger}

theorem forall_sides {P : RenameSide → Prop} : (∀ side, P side) ↔ P .source ∧ P .dest :=
  ⟨fun h => ⟨h .source, h .dest⟩, fun h side => by cases side; exacts [h.1, h.2]⟩

variable {h' : Half} {intent : RenameIntent} {side : RenameSide}

section

variable (h : Inv r halves l)
include h

/-- A step of one side. The other one is as it was, so what is left to show is about this side
and about the phases. -/
theorem Inv.change {l' : Ledger} (hphase : ∀ other, other ≠ side → l'.phase other = l.phase other)
    (hothers : ∀ other, other ≠ side → l'.others other = l.others other)
    (hunlinked : l.unlinked = true → l'.unlinked = true)
    (hintent : h'.intent.isSome = decide (l'.phase side = .prepared))
    (hreplaced : ∀ intent, (update halves side h' .dest).intent = some intent →
      intent.replacedInode = l'.target)
    (hforeign : l'.others side ≠ some r.inode) (htarget : l'.target ≠ some r.inode)
    (hkept : Kept r l' side h'.entry) (hfirst : l'.phase .dest ≠ .fresh → l'.phase .source ≠ .fresh)
    (hsource : l'.phase .source = .committed → (l'.phase .dest).holds .dest = true)
    (hdest : l'.phase .dest = .committed → (l'.phase .source).holds .source = false) :
    Inv r (update halves side h') l' := by
  refine ⟨fun other => ?_, hreplaced, fun other => ?_, htarget, fun other => ?_, hfirst, hsource,
    hdest⟩ <;> by_cases hne : other = side
  · rw [hne, update_self]
    exact hintent
  · rw [update_of_ne hne, hphase other hne]
    exact h.intent other
  · rw [hne]
    exact hforeign
  · rw [hothers other hne]
    exact h.foreign other
  · rw [hne, update_self]
    exact hkept
  · rw [update_of_ne hne, Kept, hphase other hne, hothers other hne]
    exact (h.kept other).imp_left fun hk => ⟨hk.1, fun hholds => hunlinked (hk.2 hholds)⟩

/-- A name that is free or has the inode has no entry of another client. -/
theorem Inv.others_none (hentry : (halves side).entry = some r.inode ∨ (halves side).entry = none) :
    l.others side = none := by
  rcases h.kept side with ⟨heq, -⟩ | ⟨-, hnone, -⟩
  · rcases hentry with hmine | hnone
    · exact absurd (heq.symm.trans hmine) (h.foreign side)
    · exact heq.symm.trans hnone
  · exact hnone

open Phase

theorem Inv.prepareSource (hfresh : l.phase .source = .fresh)
    (hentry : (halves .source).entry = some r.inode) (hintent : h'.intent.isSome)
    (hgone : h'.entry = none) :
    Inv r (update halves .source h') { l with phase := update l.phase .source .prepared } := by
  have hdest : l.phase .dest = .fresh := by
    by_contra hne
    exact h.sourceFirst hne hfresh
  have hothers := h.others_none (.inl hentry)
  refine h.change (fun _ hne => update_of_ne hne ..) (fun _ _ => rfl) id ?_ ?_
    (h.foreign _) h.target (.inl ⟨hgone.trans hothers.symm, ?_⟩) ?_ ?_ ?_
  · simp [hintent]
  · simpa using h.replaced
  · simp [holds]
  · simp
  · simp
  · simp [hdest]

theorem Inv.prepareDest (hfresh : l.phase .dest = .fresh)
    (hsource : l.phase .source = .prepared) (hintent : h'.intent = some intent)
    (hreplaced : intent.replacedInode = (halves .dest).entry) (hentry : h'.entry = some r.inode) :
    Inv r (update halves .dest h') { l with
      phase := update l.phase .dest .prepared
      others := update l.others .dest none
      target := l.others .dest } := by
  have hothers : (halves .dest).entry = l.others .dest := by
    rcases h.kept .dest with ⟨heq, -⟩ | ⟨-, -, hholds⟩
    · exact heq
    · rw [hfresh] at hholds
      cases hholds
  refine h.change (fun _ hne => update_of_ne hne ..)
    (fun _ hne => update_of_ne hne ..) id ?_ ?_ ?_ (h.foreign _)
    (.inr ⟨hentry, ?_, ?_⟩) ?_ ?_ ?_
  · simp [hintent]
  · simp [hintent, hreplaced, hothers]
  · simp
  · simp
  · simp [holds]
  · simp [hsource]
  · simp [hsource]
  · simp

theorem Inv.commitSource (hsource : l.phase .source = .prepared)
    (hdest : l.phase .dest = .prepared ∨ l.phase .dest = .committed) (hintent : h'.intent = none)
    (hentry : h'.entry = (halves .source).entry) :
    Inv r (update halves .source h') { l with phase := update l.phase .source .committed } := by
  have hkept := h.kept .source
  refine h.change (fun _ hne => update_of_ne hne ..) (fun _ _ => rfl) id ?_ ?_
    (h.foreign _) h.target ?_ ?_ ?_ ?_
  · simp [hintent]
  · simpa using h.replaced
  · simpa [Kept, hentry, hsource, holds] using hkept
  · simp
  · rcases hdest with hdest | hdest <;> simp [hdest, holds]
  · simp [holds]

theorem Inv.commitDest (hdest : l.phase .dest = .prepared)
    (hsource : l.phase .source = .prepared ∨ l.phase .source = .committed)
    (hintent : h'.intent = none) (hentry : h'.entry = (halves .dest).entry) :
    Inv r (update halves .dest h')
      { l with phase := update l.phase .dest .committed, target := none } := by
  have hkept := h.kept .dest
  refine h.change (fun _ hne => update_of_ne hne ..) (fun _ _ => rfl) id ?_ ?_
    (h.foreign _) ?_ ?_ ?_ ?_ ?_
  · simp [hintent]
  · simp [hintent]
  · simp
  · simpa [Kept, hentry, hdest, holds] using hkept
  · rcases hsource with hsource | hsource <;> simp [hsource]
  · simp [holds]
  · rcases hsource with hsource | hsource <;> simp [hsource, holds]

open Ledger

theorem Inv.undoSource (hmay : MayUndo r halves l .source)
    (hintent : h'.intent = none) (hentry : h'.entry = some r.inode) :
    Inv r (update halves .source h') (l.undo .source) := by
  obtain ⟨hdest, hfree⟩ := hmay
  have hothers := h.others_none (.inr hfree)
  refine h.change (fun _ hne => update_of_ne hne ..) (fun _ _ => rfl) id ?_ ?_
    (h.foreign _) h.target (.inr ⟨hentry, hothers, ?_⟩) ?_ ?_ ?_
  · simp [undo, hintent]
  · simpa [undo] using h.replaced
  · simp [undo, holds]
  · simp [undo]
  · simp [undo]
  · simp [undo, hdest]

theorem Inv.undoDest (hdest : l.phase .dest = .prepared)
    (hmay : MayUndo r halves l .dest) (hhad : (halves .dest).intent = some intent)
    (hintent : h'.intent = none) (hentry : h'.entry = intent.replacedInode) :
    Inv r (update halves .dest h') (l.undo .dest) := by
  obtain ⟨hsource, hfree⟩ := hmay
  have hothers := h.others_none hfree
  have hstarted : l.phase .source ≠ .fresh := h.sourceFirst (by simp [hdest])
  refine h.change (fun _ hne => update_of_ne hne ..)
    (fun _ hne => update_of_ne hne ..) id ?_ ?_ ?_ ?_ (.inl ⟨?_, ?_⟩) ?_ ?_ ?_
  · simp [undo, hintent]
  · simp [hintent]
  · simp [undo, hothers, h.target]
  · simp [undo]
  · simp [undo, hothers, hentry, h.replaced intent hhad]
  · simp [undo, holds]
  · simpa [undo] using hstarted
  · simp [undo, hsource]
  · simp [undo]

theorem Inv.access {written : Option UInt64}
    (hcreate : ∀ inode, written = some inode → (halves side).entry = none ∧ inode ≠ r.inode)
    (hintent : h'.intent = (halves side).intent) (hentry : h'.entry = written) :
    Inv r (update halves side h') { l with
      others := update l.others side written
      unlinked := l.unlinked ||
        (written.isNone && decide ((halves side).entry = some r.inode)) } := by
  refine h.change (fun _ _ => rfl) (fun _ hne => update_of_ne hne ..) (by simp +contextual)
    (hintent ▸ h.intent side) (fun intent hhave => h.replaced intent (hhave.symm.trans ?_).symm)
    (fun hmine => ?_) h.target (.inl ⟨?_, fun hholds => ?_⟩) h.sourceFirst h.sourceDone h.destDone
  · by_cases hside : .dest = side
    · rw [← hside, update_self, hintent, hside]
    · rw [update_of_ne hside]
  · simp only [update_self] at hmine
    exact (hcreate _ hmine).2 rfl
  · simp [hentry]
  -- a side that holds the inode has it, or it was unlinked already
  rcases h.kept side with ⟨-, hunlinked⟩ | ⟨hmine, -, -⟩
  · simp only [hunlinked hholds, Bool.true_or]
  cases written with
  | none => simp [hmine]
  | some inode =>
    rw [(hcreate inode rfl).1] at hmine
    cases hmine

/-! ## Every run -/

theorem Inv.prepared (hhad : (halves side).intent = some intent) : l.phase side = .prepared := by
  have hintent := h.intent side
  rw [hhad] at hintent
  exact of_decide_eq_true hintent.symm

theorem Inv.undo (hhad : (halves side).intent = some intent) (hmay : MayUndo r halves l side) :
    Inv r (update halves side ((halves side).rollBack r side)) (l.undo side) := by
  unfold Half.rollBack
  rw [hhad]
  cases side with
  | source => exact h.undoSource hmay rfl rfl
  | dest => exact h.undoDest (h.prepared hhad) hmay hhad rfl rfl

theorem Inv.after {now : UInt64} {act : Act} (horder : Orderly r halves l side now act) :
    Inv r (update halves side ((halves side).after r side now act))
      (l.after r (halves side) side now act) := by
  cases act with
  | prepare =>
    dsimp only [Half.after, Ledger.after]
    cases hhave : (halves side).intent with
    | some intent => simpa using h
    | none =>
      have hfirst := horder hhave
      cases side with
      | source => exact h.prepareSource hfirst.1 hfirst.2 rfl rfl
      | dest => exact h.prepareDest hfirst.1 hfirst.2 rfl rfl rfl
  | commit =>
    dsimp only [Half.after, Ledger.after]
    cases hhave : (halves side).intent with
    | none =>
      have hsame : ({ halves side with intent := none } : Half) = halves side := by
        rw [← hhave]
      simpa [hsame] using h
    | some intent =>
      have hphases := horder (by simp [hhave])
      cases side with
      | source => exact h.commitSource (h.prepared hhave) (hphases .dest) rfl rfl
      | dest => exact h.commitDest (h.prepared hhave) (hphases .source) rfl rfl
  | abort =>
    dsimp only [Half.after, Ledger.after]
    cases hhave : (halves side).intent with
    | none => simpa [Half.rollBack, hhave] using h
    | some intent => exact h.undo hhave (horder (by simp [hhave]))
  | gc ttlSecs =>
    dsimp only [Half.after, Ledger.after]
    cases hstale : (halves side).stale now ttlSecs with
    | false => simpa using h
    | true =>
      cases hhave : (halves side).intent with
      | none => simp [Half.stale, hhave] at hstale
      | some intent => exact h.undo hhave (horder hstale)
  | access a =>
    dsimp only [Half.after, Ledger.after]
    cases heffect : a.effect (halves side).admits (halves side).entry with
    | none => simpa using h
    | some written =>
      refine h.access ?_ rfl rfl
      rintro inode rfl
      exact horder inode heffect

omit h in
theorem inv_start {stores : RenameSide → json.Store} (hready : Ready r stores) :
    Inv r ((start r stores).half r) (start r stores).ledger := by
  have hnone : ∀ side, ((start r stores).half r side).intent = none := by
    intro side
    show ((stores side).db.renameIntents[_]?).bind _ = none
    rw [hready.intents side, getElem?_empty, Option.bind_none]
  exact {
    intent := fun side => by rw [hnone]; rfl
    replaced := by simp [hnone]
    foreign := forall_sides.mpr ⟨by simp [start], hready.dest⟩
    target := by simp [start]
    kept := forall_sides.mpr ⟨.inr ⟨hready.source, rfl, rfl⟩, .inl ⟨rfl, by simp [start, holds]⟩⟩
    sourceFirst := by simp [start]
    sourceDone := by simp [start]
    destDone := by simp [start] }

/-- Both stores have no intents but their own, and the ledger is kept. -/
def Sound (r : Rename) (sys : System json) : Prop :=
  (∀ side, Own r side (sys.stores side)) ∧ Inv r (sys.half r) sys.ledger

omit h in
theorem half_step (sys : System json) (e : Event) (hown : Own r e.side (sys.stores e.side)) :
    (step r sys e).half r = update (sys.half r) e.side
      ((sys.half r e.side).after r e.side e.now e.act) := by
  funext side
  unfold System.half step
  by_cases hside : side = e.side
  · subst hside
    simp only [update_self]
    exact half_perform hown e.now e.act
  · simp only [update_of_ne hside]

def OrderlyStep (r : Rename) (sys : System json) (e : Event) : Prop :=
  Orderly r (sys.half r) sys.ledger e.side e.now e.act

omit h in
theorem Sound.step (sys : System json) (e : Event) (h : Sound r sys)
    (horder : OrderlyStep r sys e) : Sound r (step r sys e) := by
  obtain ⟨hown, hinv⟩ := h
  refine ⟨?_, ?_⟩
  · intro side
    show Own r side (update sys.stores e.side _ side)
    by_cases hside : side = e.side
    · subst hside
      rw [update_self]
      exact (hown e.side).perform e.now e.act
    · rw [update_of_ne hside]
      exact hown side
  · rw [half_step sys e (hown e.side)]
    exact hinv.after horder

omit h in
theorem sound_start {stores : RenameSide → json.Store} (hready : Ready r stores) :
    Sound r (start r stores) := by
  refine ⟨?_, inv_start hready⟩
  intro side k doc hk
  have hempty : (stores side).db.renameIntents[k]? = none := by
    rw [hready.intents side, getElem?_empty]
  exact absurd (hk.symm.trans hempty) (Option.some_ne_none doc)

/-- The inode is held by one side once both are settled. -/
theorem Inv.one_holds (hover : ∀ side, (halves side).intent = none) :
    ∃ side, (l.phase side).holds side = true ∧
      ∀ other, other ≠ side → (l.phase other).holds other = false := by
  have hsettled : ∀ side, l.phase side ≠ .prepared := by
    intro side
    have hintent := h.intent side
    rw [hover] at hintent
    exact of_decide_eq_false hintent.symm
  cases hsource : l.phase .source with
  | prepared => exact absurd hsource (hsettled .source)
  | committed =>
    refine ⟨.dest, h.sourceDone hsource, ?_⟩
    rw [forall_sides, hsource]
    simp [holds]
  | fresh | aborted =>
    refine ⟨.source, by rw [hsource]; rfl, ?_⟩
    rw [forall_sides]
    refine ⟨fun hne => absurd rfl hne, fun _ => ?_⟩
    cases hdest : l.phase .dest with
    | prepared => exact absurd hdest (hsettled .dest)
    | committed =>
      have hdone := h.destDone hdest
      rw [hsource] at hdone
      cases hdone
    | fresh | aborted => rfl

theorem Inv.atomic (hover : ∀ side, (halves side).intent = none) :
    (l.unlinked = false → ∃! side, (halves side).entry = some r.inode) ∧
      ∀ side inode, l.others side = some inode → (halves side).entry = some inode := by
  refine ⟨?_, ?_⟩
  · intro hlinked
    obtain ⟨side, hholds, hothers⟩ := h.one_holds hover
    refine ⟨side, ?_, ?_⟩
    · rcases h.kept side with ⟨-, hunlinked⟩ | ⟨hmine, -, -⟩
      · rw [hunlinked hholds] at hlinked
        cases hlinked
      · exact hmine
    · intro other hmine
      by_contra hne
      rcases h.kept other with ⟨heq, -⟩ | ⟨-, -, hholds'⟩
      · exact h.foreign other (heq.symm.trans hmine)
      · rw [hothers other hne] at hholds'
        cases hholds'
  · intro side inode hdue
    rcases h.kept side with ⟨heq, -⟩ | ⟨-, hnone, -⟩
    · exact heq.trans hdue
    · rw [hnone] at hdue
      cases hdue

end

/-- **A rename whose events come in order is atomic.** In every state of such a run in which
no intent is left, exactly one of the two names has the inode unless another client unlinked
it, and no entry of another client and no replaced target is lost. -/
theorem rename_atomic (r : Rename) (stores : RenameSide → json.Store)
    (hready : Ready r stores) (events : List Event)
    (horder : Along (step r) (OrderlyStep r) (start r stores) events)
    (hover : Over r (events.foldl (step r) (start r stores))) :
    Atomic r (events.foldl (step r) (start r stores)) := by
  have hsound := Along.invariant (I := Sound r) Sound.step (sound_start hready) horder
  exact hsound.2.atomic hover

end Runs

/-! ## Runs -/

section Decide

instance decidableSides {P : RenameSide → Prop} [∀ side, Decidable (P side)] :
    Decidable (∀ side, P side) :=
  decidable_of_iff _ forall_sides.symm

instance (r : Rename) (halves : RenameSide → Half) (l : Ledger) :
    (side : RenameSide) → Decidable (MayUndo r halves l side)
  | .source => inferInstanceAs (Decidable (_ ∧ _))
  | .dest => inferInstanceAs (Decidable (_ ∧ (_ ∨ _)))

instance (r : Rename) (halves : RenameSide → Half) (l : Ledger) (now : UInt64) :
    (side : RenameSide) → (act : Act) → Decidable (Orderly r halves l side now act)
  | .source, .prepare => inferInstanceAs (Decidable (_ → _ ∧ _))
  | .dest, .prepare => inferInstanceAs (Decidable (_ → _ ∧ _))
  | side, .commit =>
    inferInstanceAs (Decidable ((halves side).intent ≠ none → ∀ other, _ ∨ _))
  | side, .abort => inferInstanceAs (Decidable (_ → MayUndo r halves l side))
  | side, .gc _ => inferInstanceAs (Decidable (_ → MayUndo r halves l side))
  | side, .access a =>
    match heffect : a.effect (halves side).admits (halves side).entry with
    | none => .isTrue fun inode h => by rw [heffect] at h; cases h
    | some none => .isTrue fun inode h => by rw [heffect] at h; cases h
    | some (some inode) =>
      decidable_of_iff ((halves side).entry = none ∧ inode ≠ r.inode) ⟨fun h inode' h' => by
          rw [heffect] at h'
          rwa [← Option.some.inj (Option.some.inj h')],
        fun h => h inode heffect⟩

instance {json : Json} (r : Rename) (sys : System json) (e : Event) :
    Decidable (OrderlyStep r sys e) :=
  inferInstanceAs (Decidable (Orderly r (sys.half r) sys.ledger e.side e.now e.act))

instance {json : Json} (r : Rename) (sys : System json) : Decidable (Over r sys) :=
  inferInstanceAs (Decidable (∀ side, (sys.half r side).intent = none))

end Decide

def moved : Rename := ⟨['r'], 7, ⟨1, ['a']⟩, ⟨2, ['b']⟩⟩

/-- The source names inode 7, the destination inode 9. -/
def twoStores : RenameSide → ShardStore plainJson.Doc
  | .source => applyCommand 0 plainStore (.addDirEntry 1 ['a'] 7)
  | .dest => applyCommand 0 plainStore (.addDirEntry 2 ['b'] 9)

theorem twoStores_ready : Ready moved twoStores where
  intents := by
    rw [forall_sides]
    exact ⟨isEmpty_iff.mp (by decide +kernel), isEmpty_iff.mp (by decide +kernel)⟩
  source := by decide +kernel
  dest := by decide +kernel

/-- A rename with a command that is sent twice, a sweep that comes too early, and a file that
another client creates at the name that became free. -/
def completed : List Event :=
  [⟨.source, 10, .prepare⟩, ⟨.source, 11, .prepare⟩, ⟨.dest, 12, .prepare⟩, ⟨.dest, 13, .gc 60⟩,
    ⟨.source, 14, .access (.createFile 8)⟩, ⟨.dest, 15, .commit⟩, ⟨.source, 16, .commit⟩]

theorem completed_atomic : Atomic moved (completed.foldl (step moved) (start moved twoStores)) :=
  rename_atomic moved twoStores twoStores_ready completed (by decide +kernel) (by decide +kernel)

/-- The client stops after it committed the destination; the source sweeps its intent. -/
def sweptSource : List Event :=
  [⟨.source, 10, .prepare⟩, ⟨.dest, 12, .prepare⟩, ⟨.dest, 13, .commit⟩, ⟨.source, 100, .gc 60⟩]

/-- The client stops after it committed the source; the destination sweeps its intent. -/
def sweptDest : List Event :=
  [⟨.source, 10, .prepare⟩, ⟨.dest, 12, .prepare⟩, ⟨.source, 13, .commit⟩, ⟨.dest, 100, .gc 60⟩]

/-- Another client creates a file at the source before the client aborts. -/
def overwritten : List Event :=
  [⟨.source, 10, .prepare⟩, ⟨.source, 11, .access (.createFile 8)⟩, ⟨.source, 12, .abort⟩]

/-- The preparation of the source arrives once more after the rename, and is swept. -/
def preparedAgain : List Event :=
  [⟨.source, 10, .prepare⟩, ⟨.dest, 12, .prepare⟩, ⟨.dest, 13, .commit⟩, ⟨.source, 14, .commit⟩,
    ⟨.source, 15, .prepare⟩, ⟨.source, 100, .gc 60⟩]

theorem not_atomic_of_entries {json : Json} {r : Rename} {sys : System json}
    (hlinked : sys.ledger.unlinked = false)
    (heq : decide ((sys.half r .source).entry = some r.inode) =
      decide ((sys.half r .dest).entry = some r.inode)) : ¬ Atomic r sys := by
  intro hatomic
  obtain ⟨side, hmine, hunique⟩ := hatomic.1 hlinked
  have hboth : (sys.half r .source).entry = some r.inode ↔
      (sys.half r .dest).entry = some r.inode := decide_eq_decide.mp heq
  have hsource : (sys.half r .source).entry = some r.inode := by
    cases side with
    | source => exact hmine
    | dest => exact hboth.mpr hmine
  cases (hunique .source hsource).trans (hunique .dest (hboth.mp hsource)).symm

/-- **A rename is not atomic.** Both names have the inode after a sweep of the source or a
late preparation, none has it after a sweep of the destination, and an abort overwrites the
entry of another client. -/
theorem rename_not_atomic :
    let after := fun events : List Event => events.foldl (step moved) (start moved twoStores)
    (Over moved (after sweptSource) ∧ ¬ Atomic moved (after sweptSource)) ∧
      (Over moved (after sweptDest) ∧ ¬ Atomic moved (after sweptDest)) ∧
      (Over moved (after overwritten) ∧ ¬ Atomic moved (after overwritten)) ∧
      (Over moved (after preparedAgain) ∧ ¬ Atomic moved (after preparedAgain)) := by
  intro after
  have hlost : ¬ Atomic moved (after overwritten) := by
    intro hatomic
    have hdue : (after overwritten).ledger.others .source = some 8 := by decide +kernel
    have hentry : ((after overwritten).half moved .source).entry = some 7 := by decide +kernel
    have heq := hentry.symm.trans (hatomic.2 .source 8 hdue)
    exact absurd heq (by decide)
  exact ⟨⟨by decide +kernel, not_atomic_of_entries (by decide +kernel) (by decide +kernel)⟩,
    ⟨by decide +kernel, not_atomic_of_entries (by decide +kernel) (by decide +kernel)⟩,
    ⟨by decide +kernel, hlost⟩,
    ⟨by decide +kernel, not_atomic_of_entries (by decide +kernel) (by decide +kernel)⟩⟩

end PowerFS.Filer.CrossRename
