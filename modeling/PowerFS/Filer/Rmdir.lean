import PowerFS.Filer.Reopen

/-! # Removing directories

`MetaShardManager::delete_directory` looks at the local replicas, finds the directory empty
and only then proposes to remove its entry and its record, on two shards; `DeleteDirectory`
as a command of one shard counts a child as live when its record is there too. Both run
among creations of other clients in the directory. A removed directory is empty, and stays
so, when no creation comes between the check and the removal or after it, and when the check
can see every entry: the replicas are up to date and the records are where it looks. -/
namespace PowerFS.Filer.Rmdir
open Lib.StepRuns InodeRecords MetadataShard ShardFacts RecordSteps Reopen List ShardStore

variable {json : Json} {s : json.Store} {now : UInt64} {m : Nat}

/-! ## The cluster -/

/-- Where inodes belong, and how the shards encode them. -/
structure Layout (m : Nat) extends Json where
  shardOf : UInt64 → Fin m
  ranges : Fin m → UInt64 × UInt64

/-- How far a call has come: it has resolved the name, found the directory empty, read the
link count, removed the entry, dropped the summary. -/
inductive Phase where
  | resolved
  | checked
  | read (nlink : UInt32)
  | unlinked (nlink : UInt32)
  | swept (nlink : UInt32)
  deriving DecidableEq

/-- A call of `delete_directory` in progress. -/
structure Call where
  parentInode : UInt64
  name : Text
  child : UInt64
  phase : Phase

/-- The committed log of every shard, how much of it the replicas on the node of the manager
have applied, and the calls there. `removed` is history: the directories whose record is
gone. -/
structure Cluster (m : Nat) where
  logs : Fin m → List (UInt64 × ShardCommand)
  seen : Fin m → Nat
  calls : Nat → Option Call
  removed : UInt64 → Bool

def empty : Cluster m := ⟨fun _ => [], fun _ => 0, fun _ => none, fun _ => false⟩

variable (L : Layout m)

def store (c : Cluster m) (k : Fin m) : L.Store :=
  applyLog (freshStore L.toJson (L.ranges k)) (c.logs k)

def view (c : Cluster m) (k : Fin m) : L.Store :=
  applyLog (freshStore L.toJson (L.ranges k)) ((c.logs k).take (c.seen k))

def hasRecord (c : Cluster m) (inode : UInt64) : Bool :=
  (List.finRange m).any fun k => ((store L c k).getInode inode).isSome

def isDirectory (c : Cluster m) (inode : UInt64) : Bool :=
  (List.finRange m).any fun k =>
    ((store L c k).getInode inode).any fun info => info.fileType = .directory

/-- What other clients create. -/
inductive Creation where
  | record (info : InodeInfo)
  | entry (parentInode : UInt64) (name : Text) (inode : UInt64)
  | file (parentInode : UInt64) (name : Text) (inode : UInt64)
  | directory (parentInode : UInt64) (name : Text) (inode : UInt64)
  | atomic (info : InodeInfo) (exclusive : Bool)

def Creation.command : Creation → ShardCommand
  | .record info => .createInode info
  | .entry parentInode name inode => .addDirEntry parentInode name inode
  | .file parentInode name inode => .createFile parentInode name inode
  | .directory parentInode name inode => .createDirectory parentInode name inode
  | .atomic info exclusive => .createFileAtomic info exclusive

/-- A record goes to the shard of its inode, everything else to that of the parent. -/
def Creation.shard : Creation → Fin m
  | .record info => L.shardOf info.inode
  | .entry parentInode .. | .file parentInode .. | .directory parentInode .. =>
    L.shardOf parentInode
  | .atomic info _ => L.shardOf info.parentInode

/-- `hidden` are the names that the cache of the node has as deleted. -/
inductive Event (m : Nat) where
  | create (now : UInt64) (creation : Creation)
  | deleteDirectory (now parentInode : UInt64) (name : Text)
  | catchUp (shard : Fin m)
  | resolve (call : Nat) (parentInode : UInt64) (name : Text)
  | check (call : Nat) (hidden : UInt64 → Text → Bool)
  | readNlink (call : Nat)
  | removeDirEntry (call : Nat) (now : UInt64)
  | deleteChildSummary (call : Nat) (now : UInt64)
  | removeInode (call : Nat) (now : UInt64)

/-- The stored entries under a number. -/
def listDirEntryInodesRocksdb (s : json.Store) (parentInode : UInt64) : List (Text × UInt64) :=
  let start := decimal parentInode ++ [':']
  s.db.dirEntries.toList.filterMap fun e =>
    if start.isPrefixOf e.1 ∧ 8 ≤ e.2.length then some (e.1.drop start.length, ofBeBytes e.2)
    else none

/-- No stored entry that the cache does not hide has a live record. -/
def isDirectoryEmptyStrict (c : Cluster m) (hidden : UInt64 → Text → Bool) (inode : UInt64) :
    Bool :=
  (listDirEntryInodesRocksdb (view L c (L.shardOf inode)) inode).all fun e =>
    hidden inode e.1 || match (view L c (L.shardOf e.2)).getInode e.2 with
      | some info => decide (info.deleteTime ≠ 0)
      | none => true

/-- The command that an event proposes, and where. -/
def issues (c : Cluster m) : Event m → Option (Fin m × UInt64 × ShardCommand)
  | .create now creation => some (creation.shard L, now, creation.command)
  | .deleteDirectory now parentInode name =>
    some (L.shardOf parentInode, now, .deleteDirectory parentInode name)
  | .removeDirEntry id now => match c.calls id with
    | some ⟨parentInode, name, _, .read _⟩ =>
      some (L.shardOf parentInode, now, .removeDirEntry parentInode name)
    | _ => none
  | .deleteChildSummary id now => match c.calls id with
    | some ⟨parentInode, name, _, .unlinked _⟩ =>
      some (L.shardOf parentInode, now, .deleteChildSummary parentInode name)
    | _ => none
  | .removeInode id now => match c.calls id with
    | some ⟨_, _, child, .swept nlink⟩ => some (L.shardOf child, now,
        if nlink > 1 then .decrementNlink child else .deleteInode child)
    | _ => none
  | _ => none

/-- How a call goes on; a call that is done is gone. -/
def callAfter (c : Cluster m) : Event m → Option (Nat × Option Call)
  | .resolve id parentInode name =>
    ((view L c (L.shardOf parentInode)).getDirEntryInode parentInode name).map fun child =>
      (id, some ⟨parentInode, name, child, .resolved⟩)
  | .check id hidden => match c.calls id with
    | some ⟨parentInode, name, child, .resolved⟩ =>
      if isDirectoryEmptyStrict L c hidden child then
        some (id, some ⟨parentInode, name, child, .checked⟩)
      else none
    | _ => none
  | .readNlink id => match c.calls id with
    | some ⟨parentInode, name, child, .checked⟩ =>
      let nlink := ((view L c (L.shardOf child)).getInode child).map InodeInfo.nlink
      some (id, some ⟨parentInode, name, child, .read (nlink.getD 0)⟩)
    | _ => none
  | .removeDirEntry id _ => match c.calls id with
    | some ⟨parentInode, name, child, .read nlink⟩ =>
      some (id, some ⟨parentInode, name, child, .unlinked nlink⟩)
    | _ => none
  | .deleteChildSummary id _ => match c.calls id with
    | some ⟨parentInode, name, child, .unlinked nlink⟩ =>
      some (id, some ⟨parentInode, name, child, .swept nlink⟩)
    | _ => none
  | .removeInode id _ => match c.calls id with
    | some ⟨_, _, _, .swept _⟩ => some (id, none)
    | _ => none
  | _ => none

def act (c : Cluster m) (e : Event m) : Cluster m where
  logs := match issues L c e with
    | some (k, now, cmd) => Function.update c.logs k (c.logs k ++ [(now, cmd)])
    | none => c.logs
  seen := match e with
    | .catchUp k => Function.update c.seen k (min (c.seen k + 1) (c.logs k).length)
    | _ => c.seen
  calls := match callAfter L c e with
    | some (id, call) => Function.update c.calls id call
    | none => c.calls
  removed := c.removed

/-- One event, and the directories whose record it leaves nowhere. -/
def step (c : Cluster m) (e : Event m) : Cluster m :=
  { act L c e with
    removed := fun inode => (c.removed inode || isDirectory L c inode) &&
      !hasRecord L (act L c e) inode }

/-- No entries under the inode, on any shard. -/
def Bare (c : Cluster m) (inode : UInt64) : Prop := ∀ k, Childless (store L c k) inode

/-! ## What the commands do -/

variable {L}

/-- The directory in which a command puts an entry. -/
def adds : ShardCommand → Option UInt64
  | .createFile parentInode .. | .createDirectory parentInode .. | .addDirEntry parentInode .. =>
    some parentInode
  | .createFileAtomic info _ => some info.parentInode
  | _ => none

/-- The commands that the events propose. -/
def Used : ShardCommand → Bool
  | .createInode .. | .createFile .. | .createDirectory .. | .addDirEntry ..
  | .createFileAtomic .. | .deleteDirectory .. | .removeDirEntry .. | .deleteChildSummary ..
  | .decrementNlink .. | .deleteInode .. => true
  | _ => false

/-- An event, and the command that it proposes. -/
inductive Issued (L : Layout m) (c : Cluster m) : Event m → Fin m → ShardCommand → Prop
  | create (t : UInt64) (creation : Creation) :
    Issued L c (.create t creation) (creation.shard L) creation.command
  | deleteDirectory : Issued L c (.deleteDirectory t p n) (L.shardOf p) (.deleteDirectory p n)
  | removeDirEntry : Issued L c (.removeDirEntry a t) (L.shardOf p) (.removeDirEntry p n)
  | deleteChildSummary :
    Issued L c (.deleteChildSummary a t) (L.shardOf p) (.deleteChildSummary p n)
  | removeInode (hcall : c.calls a = some ⟨p, n, d, .swept nlink⟩)
    (hcmd : cmd = .decrementNlink d ∨ cmd = .deleteInode d) :
    Issued L c (.removeInode a t) (L.shardOf d) cmd

variable {k : Fin m} {cmd : ShardCommand} {i q j p d : UInt64} {n : Text}
  {c : Cluster m} {e : Event m}

theorem issued_of (h : issues L c e = some (k, now, cmd)) : Issued L c e k cmd := by
  revert h
  fun_cases issues L c e <;> rintro ⟨⟩
  case case1 => exact .create _ _
  case case2 => exact .deleteDirectory
  case case3 => exact .removeDirEntry
  case case5 => exact .deleteChildSummary
  case case7 hcall => exact .removeInode hcall (ite_eq_or_eq _ _ _)

theorem issues_used (h : issues L c e = some (k, now, cmd)) : Used cmd = true := by
  cases issued_of h with
  | create t creation => cases creation <;> rfl
  | removeInode _ hcmd => rcases hcmd with rfl | rfl <;> rfl
  | _ => rfl

theorem entries_eraseDir {t : json.Store} (hdirs : t.directoryEntries = s.directoryEntries.erase i)
    (h : t.getDirEntryInode q n = some j) : s.getDirEntryInode q n = some j := by
  rw [getDirEntryInode_eraseDir hdirs] at h
  split at h
  · cases h
  · exact h

theorem entries_eraseEntry {r : Text} (h : (s.eraseEntry p n).getDirEntryInode q r = some j) :
    s.getDirEntryInode q r = some j := by
  rw [getDirEntryInode_eraseEntry] at h
  split at h
  · cases h
  · exact h

theorem entries_putEntry {r : Text} (h : (s.putEntry p n i).getDirEntryInode q r = some j) :
    p = q ∨ s.getDirEntryInode q r = some j := by
  rw [getDirEntryInode_putEntry] at h
  split at h
  case isTrue heq => exact .inl (Prod.mk.inj heq).1
  case isFalse => exact .inr h

/-- An entry after a command was there before or is under the directory it writes to. -/
theorem entries_after (hnum : Numbered s) (hused : Used cmd = true)
    (h : (applyCommand now s cmd).getDirEntryInode q n = some j) :
    adds cmd = some q ∨ s.getDirEntryInode q n = some j := by
  have hwrites : ∀ t, Writes now cmd s t → t.getDirEntryInode q n = some j →
      adds cmd = some q ∨ s.getDirEntryInode q n = some j := by
    intro t hw
    induction hw with
    | start => exact .inr
    | putEntry _ i hparent _ ih =>
      intro hput
      rcases entries_putEntry hput with rfl | hold
      · left
        cases cmd <;> first | exact hparent | cases hused
      · exact ih hold
    | eraseEntry _ p r _ ih => exact fun hold => ih (entries_eraseEntry hold)
    | dirs _ d _ hm ih =>
      intro hold
      rcases hm with rfl | ⟨i, rfl | rfl⟩
      · exact ih hold
      · exact ih (entries_eraseDir (i := i) rfl hold)
      · rw [getDirEntryInode, entriesOf_insert rfl] at hold
        split at hold
        · rw [Std.ExtTreeMap.getElem?_empty] at hold
          cases hold
        · exact ih hold
    | _ =>
      rename_i ih
      exact ih
  exact hwrites _ (writes_applyCommand hnum) h

/-- The command takes the record away. -/
def Victim (s : json.Store) (cmd : ShardCommand) (inode : UInt64) : Prop :=
  cmd = .deleteInode inode ∨ cmd = .decrementNlink inode ∨ ∃ parentInode name,
    cmd = .deleteDirectory parentInode name ∧ s.getDirEntryInode parentInode name = some inode ∧
      s.hasLive inode = false

/-- A record goes only with a command that takes it away. -/
theorem records_after (hnum : Numbered s) (hused : Used cmd = true) (hbefore : s.getInode d ≠ none)
    (hafter : (applyCommand now s cmd).getInode d = none) : Victim s cmd d := by
  by_contra hno
  have hwrites : ∀ t, Writes now cmd s t → t.getInode d ≠ none := by
    intro t hw
    induction hw with
    | start => exact hbefore
    | make _ _ ih | change _ _ _ _ ih =>
      rw [getInode_putInode]
      split
      · exact Option.some_ne_none _
      · exact ih
    | eraseInode _ hdrops ih =>
      rw [getInode_eraseInode, if_neg]
      · exact ih
      rintro rfl
      refine hno ?_
      cases cmd with
      | deleteInode => exact .inl (congrArg _ hdrops)
      | decrementNlink => exact .inr (.inl (congrArg _ hdrops))
      | deleteDirectory p r => exact .inr (.inr ⟨p, r, rfl, hdrops⟩)
      | deleteFile => cases hused
      | _ => exact hdrops.elim
    | _ =>
      rename_i ih
      exact ih
  exact hwrites _ (writes_applyCommand hnum) hafter

/-! ## What the events do -/

theorem numbered_store (c : Cluster m) (k : Fin m) : Numbered (store L c k) :=
  applyLog_numbered (numbered_fresh _) _

variable (L) in
/-- A store changes by the command that the event proposes to it. -/
theorem store_step (c : Cluster m) (e : Event m) (k : Fin m) :
    store L (step L c e) k = store L c k ∨
      ∃ now cmd, issues L c e = some (k, now, cmd) ∧
        store L (step L c e) k = applyCommand now (store L c k) cmd := by
  have hlogs : (step L c e).logs = match issues L c e with
      | some (k, now, cmd) => Function.update c.logs k (c.logs k ++ [(now, cmd)])
      | none => c.logs := rfl
  unfold store
  rw [hlogs]
  cases issues L c e with
  | none => exact .inl rfl
  | some issued =>
    obtain ⟨k', now, cmd⟩ := issued
    dsimp only
    by_cases hk : k = k'
    · subst hk
      rw [Function.update_self]
      refine .inr ⟨now, cmd, rfl, ?_⟩
      unfold applyLog
      rw [foldl_append]
      rfl
    · rw [Function.update_of_ne hk]
      exact .inl rfl

/-- A directory without entries gets one only from a command that adds it there. -/
theorem Bare.step (h : Bare L c d)
    (hadds : ∀ k now cmd, issues L c e = some (k, now, cmd) → adds cmd ≠ some d) :
    Bare L (step L c e) d := by
  intro k
  rw [childless_iff]
  intro n
  rcases store_step L c e k with heq | ⟨now, cmd, hissue, heq⟩
  · rw [heq]
    exact (childless_iff d).mp (h k) n
  rw [heq]
  cases hentry : (applyCommand now (store L c k) cmd).getDirEntryInode d n with
  | none => rfl
  | some j =>
    rcases entries_after (numbered_store c k) (issues_used hissue) hentry with hadd | hold
    · exact absurd hadd (hadds k now cmd hissue)
    · rw [(childless_iff d).mp (h k) n] at hold
      cases hold

/-! ## The condition -/

variable (L) in
/-- The check sees the entries under the directory: the replicas are up to date, every entry
is on the shard of the directory, stored, not hidden, and has a live record on its shard. -/
def Faithful (c : Cluster m) (hidden : UInt64 → Text → Bool) (child : UInt64) : Prop :=
  (∀ k, (c.logs k).length ≤ c.seen k) ∧
    ∀ k n j, (store L c k).getDirEntryInode child n = some j → k = L.shardOf child ∧
      (store L c k).db.dirEntries[dirEntryKey child n]? = some (beBytes j) ∧
      hidden child n = false ∧
      ∃ info, (store L c (L.shardOf j)).getInode j = some info ∧ info.deleteTime = 0

variable (L) in
/-- The condition on an event: a creation puts no entry in a directory that is gone or found
empty by a call, a `DeleteDirectory` meets the records of the children on its own shard, and
a check sees everything. -/
def Careful (c : Cluster m) : Event m → Prop
  | .create _ creation => ∀ p, adds creation.command = some p → c.removed p = false ∧
      ∀ id call, c.calls id = some call → call.phase ≠ .resolved → call.child ≠ p
  | .deleteDirectory _ parentInode name => ∀ d,
      (store L c (L.shardOf parentInode)).getDirEntryInode parentInode name = some d →
        ∀ k n j, (store L c k).getDirEntryInode d n = some j → k = L.shardOf parentInode ∧
          ∃ info, (store L c k).getInode j = some info ∧ info.deleteTime = 0
  | .check id hidden => ∀ call, c.calls id = some call → call.phase = .resolved →
      Faithful L c hidden call.child
  | _ => True

theorem view_eq_store (h : ∀ k, (c.logs k).length ≤ c.seen k) (k : Fin m) :
    view L c k = store L c k := by
  unfold view store
  rw [take_of_length_le (h k)]

/-- A stored entry is listed. -/
theorem mem_listDirEntryInodesRocksdb (h : s.db.dirEntries[dirEntryKey p n]? = some (beBytes j)) :
    (n, j) ∈ listDirEntryInodesRocksdb s p := by
  refine mem_filterMap.mpr ⟨(dirEntryKey p n, beBytes j),
    Std.ExtTreeMap.mem_toList_iff_getElem?_eq_some.mpr h, ?_⟩
  have hstart : (decimal p ++ [':']).isPrefixOf (dirEntryKey p n) = true := by
    rw [isPrefixOf_dirEntryKey]
    exact decide_eq_true rfl
  have hlen : 8 ≤ (beBytes j).length := (beBytes_length j).ge
  have hkey : dirEntryKey p n = (decimal p ++ [':']) ++ n := by
    rw [dirEntryKey, append_assoc]
    rfl
  have hvalue := ofBeBytes_beBytes j []
  rw [append_nil] at hvalue
  rw [if_pos ⟨hstart, hlen⟩, hvalue, hkey, drop_left]

/-- A directory that a faithful check finds empty is empty. -/
theorem Faithful.bare {hidden : UInt64 → Text → Bool} {child : UInt64}
    (h : Faithful L c hidden child)
    (hempty : isDirectoryEmptyStrict L c hidden child = true) : Bare L c child := by
  obtain ⟨hcurrent, hsees⟩ := h
  intro k
  rw [childless_iff]
  intro n
  cases hentry : (store L c k).getDirEntryInode child n with
  | none => rfl
  | some j =>
    obtain ⟨rfl, hstored, hshown, info, hinfo, hlive⟩ := hsees k n j hentry
    unfold isDirectoryEmptyStrict at hempty
    rw [all_eq_true] at hempty
    have hone := hempty (n, j) (by
      rw [view_eq_store hcurrent]
      exact mem_listDirEntryInodesRocksdb hstored)
    rw [hshown, view_eq_store hcurrent, hinfo, Bool.false_or] at hone
    exact absurd hlive (of_decide_eq_true hone)

/-- Live children on the same shard keep a `DeleteDirectory` away. -/
theorem not_hasLive (h : s.hasLive d = false) (hentry : s.getDirEntryInode d n = some j)
    {info : InodeInfo} (hinfo : s.getInode j = some info) : info.deleteTime ≠ 0 := by
  unfold hasLive at h
  rw [any_eq_false] at h
  have hone := h (n, j) (Std.ExtTreeMap.mem_toList_iff_getElem?_eq_some.mpr hentry)
  have hthere : s.inodes[j]? = some info := hinfo
  rw [hthere] at hone
  intro hlive
  exact hone (decide_eq_true hlive)

/-! ## Invariant -/

variable (L) in
/-- Directories that are gone, and those that a call is about to remove, have no entries. -/
structure Swept (c : Cluster m) : Prop where
  removed : ∀ d, c.removed d = true → Bare L c d
  calls : ∀ id call, c.calls id = some call → call.phase ≠ .resolved → Bare L c call.child

theorem swept_empty : Swept L (empty : Cluster m) := by
  constructor
  · intro d hd
    cases hd
  · intro id call hcall
    cases hcall

/-- A record of a directory goes only when there are no entries under it. -/
theorem Swept.victim (h : Swept L c) (hcareful : Careful L c e)
    (hissue : issues L c e = some (k, now, cmd)) (hvictim : Victim (store L c k) cmd d) :
    Bare L c d ∧ adds cmd = none := by
  cases issued_of hissue with
  | create t creation =>
    rcases hvictim with heq | heq | ⟨p, n, heq, -⟩ <;> cases creation <;> cases heq
  | deleteDirectory =>
    rcases hvictim with heq | heq | ⟨p', n', heq, hentry, hlive⟩
    · cases heq
    · cases heq
    cases heq
    refine ⟨?_, rfl⟩
    intro k
    rw [childless_iff]
    intro r
    cases hchild : (store L c k).getDirEntryInode d r with
    | none => rfl
    | some j =>
      obtain ⟨rfl, info, hinfo, hzero⟩ := hcareful d hentry k r j hchild
      exact absurd hzero (not_hasLive hlive hchild hinfo)
  | removeDirEntry | deleteChildSummary =>
    rcases hvictim with heq | heq | ⟨p', n', heq, -⟩ <;> cases heq
  | removeInode hcall hcmd =>
    have hbare := h.calls _ _ hcall Phase.noConfusion
    rcases hcmd with rfl | rfl <;> rcases hvictim with heq | heq | ⟨p', n', heq, -⟩ <;> cases heq
    · exact ⟨hbare, rfl⟩
    · exact ⟨hbare, rfl⟩

/-- A call past its check was so before, or has just found the directory empty. -/
theorem call_after {id : Nat} {call : Call} (hcall : (step L c e).calls id = some call)
    (hphase : call.phase ≠ .resolved) :
    (∃ old, c.calls id = some old ∧ old.phase ≠ .resolved ∧ old.child = call.child) ∨
      ∃ hidden old, e = .check id hidden ∧ c.calls id = some old ∧ old.phase = .resolved ∧
        old.child = call.child ∧ isDirectoryEmptyStrict L c hidden call.child = true := by
  have hcalls : (step L c e).calls = match callAfter L c e with
      | some (id, call) => Function.update c.calls id call
      | none => c.calls := rfl
  rw [hcalls] at hcall
  cases hafter : callAfter L c e with
  | none =>
    rw [hafter] at hcall
    exact .inl ⟨call, hcall, hphase, rfl⟩
  | some moved =>
    obtain ⟨id', call'⟩ := moved
    rw [hafter] at hcall
    dsimp only at hcall
    by_cases hid : id = id'
    case neg =>
      rw [Function.update_of_ne hid] at hcall
      exact .inl ⟨call, hcall, hphase, rfl⟩
    case pos =>
      subst hid
      rw [Function.update_self] at hcall
      subst hcall
      revert hafter
      fun_cases callAfter L c e
      case case1 =>
        intro hafter
        obtain ⟨child, -, heq⟩ := Option.map_eq_some_iff.mp hafter
        obtain ⟨rfl, heq⟩ := Prod.mk.inj heq
        cases heq
        exact absurd rfl hphase
      all_goals rintro ⟨⟩
      case case2 hidden p n child hempty hold =>
        exact .inr ⟨hidden, _, rfl, hold, rfl, rfl, hempty⟩
      case case5 hold | case7 hold | case9 hold =>
        exact .inl ⟨_, hold, Phase.noConfusion, rfl⟩

/-- **A directory loses its last record only when it is empty.** -/
theorem Swept.removes (h : Swept L c) (hcareful : Careful L c e)
    (hdir : isDirectory L c d = true) (hgone : hasRecord L (step L c e) d = false) :
    Bare L c d ∧ ∀ k now cmd, issues L c e = some (k, now, cmd) → adds cmd ≠ some d := by
  obtain ⟨k, -, hk⟩ := any_eq_true.mp hdir
  obtain ⟨info, hinfo, -⟩ := (Option.any_eq_true _ _).mp hk
  have hnone : (store L (step L c e) k).getInode d = none := by
    have hk := any_eq_false.mp hgone k (mem_finRange k)
    exact Option.not_isSome_iff_eq_none.mp hk
  have hbefore : (store L c k).getInode d ≠ none := by
    rw [hinfo]
    exact Option.some_ne_none info
  rcases store_step L c e k with heq | ⟨now, cmd, hissue, heq⟩
  · rw [heq] at hnone
    exact absurd hnone hbefore
  rw [heq] at hnone
  have hvictim := records_after (numbered_store c k) (issues_used hissue) hbefore hnone
  obtain ⟨hbare, hadds⟩ := h.victim hcareful hissue hvictim
  refine ⟨hbare, ?_⟩
  intro k' now' cmd' hissue' hadd
  obtain ⟨-, hcmd⟩ := Prod.mk.inj (Option.some.inj (hissue.symm.trans hissue'))
  obtain ⟨-, rfl⟩ := Prod.mk.inj hcmd
  rw [hadds] at hadd
  cases hadd

/-- Only creations add entries. -/
theorem adds_issued (hissue : issues L c e = some (k, now, cmd)) (hadds : adds cmd = some d) :
    ∃ t creation, e = .create t creation ∧ adds creation.command = some d := by
  cases issued_of hissue with
  | create t creation => exact ⟨t, creation, rfl, hadds⟩
  | removeInode _ hcmd => rcases hcmd with rfl | rfl <;> cases hadds
  | _ => cases hadds

theorem Swept.step (h : Swept L c) (hcareful : Careful L c e) : Swept L (step L c e) := by
  constructor
  · intro d hd
    have hboth : (c.removed d || isDirectory L c d) = true ∧
        hasRecord L (Rmdir.step L c e) d = false := by
      have hand : ((c.removed d || isDirectory L c d) &&
        !hasRecord L (Rmdir.step L c e) d) = true := hd
      rw [Bool.and_eq_true, Bool.not_eq_true'] at hand
      exact hand
    obtain ⟨hwas, hgone⟩ := hboth
    rcases Bool.or_eq_true_iff.mp hwas with hremoved | hdir
    · refine (h.removed d hremoved).step ?_
      intro k now cmd hissue hadds
      obtain ⟨t, creation, rfl, hadds⟩ := adds_issued hissue hadds
      have hfalse := (hcareful d hadds).1
      rw [hremoved] at hfalse
      cases hfalse
    · obtain ⟨hbare, hadds⟩ := h.removes hcareful hdir hgone
      exact hbare.step hadds
  · intro id call hcall hphase
    rcases call_after hcall hphase with
      ⟨old, hold, hpast, hchild⟩ | ⟨hidden, old, rfl, hold, hresolved, hchild, hempty⟩
    · rw [← hchild]
      refine (h.calls id old hold hpast).step ?_
      intro k now cmd hissue hadds
      obtain ⟨t, creation, rfl, hadds⟩ := adds_issued hissue hadds
      exact (hcareful old.child hadds).2 id old hold hpast rfl
    · have hfaithful := hcareful old hold hresolved
      rw [hchild] at hfaithful
      refine (hfaithful.bare hempty).step ?_
      intro k now cmd hissue
      cases hissue

/-- **In a careful run directories are only removed when they are empty, and stay so.** No
event takes the last record of a directory away while there is an entry under it on any
shard, and no state has an entry under a directory whose record is gone. -/
theorem directories_removed_empty (events : List (Event m))
    (hcareful : Along (step L) (Careful L) empty events) :
    Along (step L) (fun c e =>
      (∀ d, isDirectory L c d = true → hasRecord L (step L c e) d = false →
        Bare L c d) ∧
      ∀ d, (step L c e).removed d = true → Bare L (step L c e) d) empty events :=
  hcareful.each (I := Swept L)
    (fun _ _ h hc => ⟨h.step hc, fun _ hdir hgone => (h.removes hc hdir hgone).1,
      (h.step hc).removed⟩) swept_empty

/-- One shard for everything. -/
def oneShard : Layout 1 := ⟨plainJson, fun _ => 0, fun _ => (0, 100)⟩

/-- A directory is made with another one in it. The inner one is deleted, and a call finds the
outer one empty and removes it. -/
def emptied : List (Event 1) :=
  [.create 1 (.record { directoryInode 1 2 1 ['d'] with nlink := 1 }),
    .create 2 (.entry 1 ['d'] 2), .create 3 (.record (directoryInode 3 3 2 ['e'])),
    .create 4 (.entry 2 ['e'] 3), .deleteDirectory 5 2 ['e'], .catchUp 0, .catchUp 0, .catchUp 0,
    .catchUp 0, .catchUp 0, .resolve 0 1 ['d'], .check 0 fun _ _ => false, .readNlink 0,
    .removeDirEntry 0 6, .deleteChildSummary 0 7, .removeInode 0 8]

/-- The cluster after the first events. -/
def emptying (k : Nat) : Cluster 1 := (emptied.take k).foldl (step oneShard) empty

theorem emptied_removed :
    Along (step oneShard) (fun c e =>
      (∀ d, isDirectory oneShard c d = true →
        hasRecord oneShard (step oneShard c e) d = false →
        Bare oneShard c d) ∧
      ∀ d, (step oneShard c e).removed d = true →
        Bare oneShard (step oneShard c e) d) empty emptied := by
  have hnone : ∀ k i, (Childless (store oneShard (emptying k) 0) i) →
      ∀ (l : Fin 1) n, (store oneShard (emptying k) l).getDirEntryInode i n = none := by
    intro k i hbare l n
    obtain rfl : l = 0 := Subsingleton.elim l 0
    exact (childless_iff i).mp hbare n
  have hrecord : ∀ k now info, Careful oneShard (emptying k) (.create now (.record info)) := by
    intro k now info p hadds
    cases hadds
  have houter : Careful oneShard (emptying 1) (.create 2 (.entry 1 ['d'] 2)) := by
    intro p hadds
    obtain rfl := Option.some.inj hadds
    exact ⟨by decide +kernel, fun id call hcall => by cases hcall⟩
  have hinner : Careful oneShard (emptying 3) (.create 4 (.entry 2 ['e'] 3)) := by
    intro p hadds
    obtain rfl := Option.some.inj hadds
    exact ⟨by decide +kernel, fun id call hcall => by cases hcall⟩
  have hdeleted : Careful oneShard (emptying 4) (.deleteDirectory 5 2 ['e']) := by
    intro d hd k n j hentry
    have hthree : (store oneShard (emptying 4) 0).getDirEntryInode 2 ['e'] = some 3 := by
      decide +kernel
    obtain rfl := Option.some.inj (hthree.symm.trans hd)
    rw [hnone 4 3 (Std.ExtTreeMap.isEmpty_iff.mp (by decide +kernel)) k n] at hentry
    cases hentry
  have hchecked : Careful oneShard (emptying 11) (.check 0 fun _ _ => false) := by
    intro call hcall _
    have hchild : ((emptying 11).calls 0).map Call.child = some 2 := by decide +kernel
    rw [hcall] at hchild
    refine ⟨by decide +kernel, fun k n j hentry => ?_⟩
    rw [Option.some.inj hchild,
      hnone 11 2 (Std.ExtTreeMap.isEmpty_iff.mp (by decide +kernel)) k n] at hentry
    cases hentry
  exact directories_removed_empty emptied ⟨hrecord 0 _ _, houter, hrecord 2 _ _, hinner, hdeleted,
    trivial, trivial, trivial, trivial, trivial, trivial, hchecked, trivial, trivial, trivial,
    trivial, trivial⟩

/-- Inode 3 is on the second shard, everything else on the first. -/
def twoShards : Layout 2 := ⟨plainJson, fun inode => if inode = 3 then 1 else 0, fun _ => (0, 100)⟩

/-- An entry comes after the directory is gone; a directory goes whose child is a record of
another shard. -/
theorem removed_while_not_empty :
    let late := [.create 1 (.directory 1 ['d'] 2), .deleteDirectory 2 1 ['d'],
      .create 3 (.entry 2 ['f'] 3)].foldl (step oneShard) empty
    let split := [.create 1 (.directory 1 ['d'] 2), .create 2 (.record (fileInode 2 3 2 ['f'])),
      .create 3 (.entry 2 ['f'] 3)].foldl (step twoShards) empty
    let after := step twoShards split (.deleteDirectory 4 1 ['d'])
    (late.removed 2 = true ∧ (store oneShard late 0).getDirEntryInode 2 ['f'] = some 3) ∧
      isDirectory twoShards split 2 = true ∧
      hasRecord twoShards after 2 = false ∧
      (store twoShards split 0).getDirEntryInode 2 ['f'] = some 3 := by
  decide +kernel

end PowerFS.Filer.Rmdir
