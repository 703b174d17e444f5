import PowerFS.Wal.Effects

/-! # The cells of the index

A record concerns one needle id. What the index has for an id, its live entry, its
tombstone and its purge marker, is the cell of the id; a record changes the cell of
its id and may push one dead copy. -/
namespace PowerFS.Wal.Cells
open Lib.FinTable Index Effects WalIndex

/-! ## Cells -/

structure Cell where
  live : Option NeedleEntry
  tomb : Option TombstoneEntry
  mark : Option Nat

def cellOf (idx : WalIndex) (id : Nat) : Cell :=
  ⟨idx.needles.lookup id, idx.tombstones.lookup id, idx.purged.lookup id⟩

namespace Cell

def empty : Cell := ⟨none, none, none⟩

/-- The version the cell has, live or deleted. -/
def stale (c : Cell) (lsn : Nat) : Bool :=
  (match c.live with
    | some cur => decide (lsn ≤ cur.versionLsn)
    | none => false) ||
  (match c.tomb with
    | some tb => decide (lsn ≤ tb.versionLsn)
    | none => false)

def suppressed (c : Cell) (lsn : Nat) : Bool :=
  match c.mark with
  | some purgeLsn => decide (lsn ≤ purgeLsn)
  | none => false

/-- A new live version: what it replaces becomes a dead copy. -/
def install (c : Cell) (entry : NeedleEntry) : Cell × Option DeadCopy :=
  match c.tomb with
  | some tb => (⟨some entry, none, c.mark⟩, some tb.toDead)
  | none => (⟨some entry, none, c.mark⟩, c.live.map NeedleEntry.toDead)

/-- What a record does to the cell of its id, and the dead copy it pushes. -/
def apply (c : Cell) (now : Int64) : Effect → Cell × Option DeadCopy
  | .data p needleId dataLen =>
    if c.suppressed p.lsn then (c, none)
    else if c.stale p.lsn then ({ c with mark := none }, none)
    else { c with mark := none }.install (WalIndex.entryAt p needleId dataLen now 0)
  | .delete lsn needleId deletedAt retentionUntil =>
    if c.stale lsn then (c, none)
    else match c.live with
      | none => (c, none)
      | some active =>
        (⟨none, some (WalIndex.tombstoneOf active needleId lsn deletedAt retentionUntil), c.mark⟩,
          none)
  | .migrate p needleId expectVersion dataLen =>
    if c.suppressed p.lsn then (c, none)
    else match c.tomb with
      | some _ => (c, none)
      | none => match c.live with
        | none => c.install (WalIndex.entryAt p needleId dataLen now needleFlagMigrated)
        | some cur =>
          if cur.versionLsn = expectVersion then
            c.install (WalIndex.entryAt p needleId dataLen now needleFlagMigrated)
          else (c, none)
  | .purge lsn _ =>
    (⟨c.live, none, some (max (c.mark.getD 0) lsn)⟩, c.tomb.map TombstoneEntry.toDead)
  | _ => (c, none)

end Cell

def needleId? : Effect → Option Nat
  | .data _ needleId _ => some needleId
  | .delete _ needleId _ _ => some needleId
  | .migrate _ needleId _ _ => some needleId
  | .purge _ needleId => some needleId
  | _ => none

/-! ## What a record does to the index -/

/-- The record of needle `k` leaves the cell `res.1` and the dead copy `res.2`. -/
structure ActsOn (idx idx' : WalIndex) (k : Nat) (res : Cell × Option DeadCopy) : Prop where
  other : ∀ id, id ≠ k → cellOf idx' id = cellOf idx id
  own : cellOf idx' k = res.1
  dead : idx'.deadCopies = idx.deadCopies ++ res.2.toList

variable {idx idx' : WalIndex} {k : Nat} {c : Cell}

theorem actsOn {dead : Option DeadCopy} (hn : Writes idx.needles idx'.needles k c.live)
    (ht : Writes idx.tombstones idx'.tombstones k c.tomb)
    (hm : Writes idx.purged idx'.purged k c.mark)
    (hd : idx'.deadCopies = idx.deadCopies ++ dead.toList) : ActsOn idx idx' k (c, dead) where
  other id hid := by
    unfold cellOf
    rw [hn.other hid, ht.other hid, hm.other hid]
  own := by
    unfold cellOf
    rw [hn.own, ht.own, hm.own]
  dead := hd

/-- Nothing but counters changes. -/
theorem actsOn_nothing (hn : idx'.needles = idx.needles) (ht : idx'.tombstones = idx.tombstones)
    (hm : idx'.purged = idx.purged) (hd : idx'.deadCopies = idx.deadCopies) :
    ActsOn idx idx' k (cellOf idx k, none) := by
  refine actsOn ?_ ?_ ?_ (hd.trans (List.append_nil _).symm)
  · rw [hn]
    exact writes_same rfl
  · rw [ht]
    exact writes_same rfl
  · rw [hm]
    exact writes_same rfl

section

variable (idx : WalIndex)

theorem applyData_cell (p : WalIndex.Place) (k dataLen : Nat) (now : Int64) :
    ActsOn idx (idx.applyDataRecord p k dataLen now) k
      ((cellOf idx k).apply now (.data p k dataLen)) := by
  have hsupp : (idx.seenNeedle k p.lsn).suppressed k p.lsn = (cellOf idx k).suppressed p.lsn :=
    rfl
  unfold applyDataRecord Cell.apply
  dsimp only
  rw [hsupp]
  split
  · exact actsOn_nothing rfl rfl rfl rfl
  have hstale : ({ idx.seenNeedle k p.lsn with
      purged := (idx.seenNeedle k p.lsn).purged.erase k } : WalIndex).stale
      (entryAt p k dataLen now 0).needleId
      (entryAt p k dataLen now 0).versionLsn = (cellOf idx k).stale p.lsn := rfl
  have htomb : (idx.seenNeedle k p.lsn).tombstones.lookup k = (cellOf idx k).tomb := rfl
  have hlive : (idx.seenNeedle k p.lsn).needles.lookup k = (cellOf idx k).live := rfl
  unfold installData Cell.install
  rw [hstale]
  split
  · exact actsOn (writes_same rfl) (writes_same rfl) writes_erase (List.append_nil _).symm
  simp only [entryAt, htomb, hlive]
  cases ht : (cellOf idx k).tomb with
  | some tb => exact actsOn writes_insert writes_erase writes_erase rfl
  | none =>
    cases hn : (cellOf idx k).live with
    | none => exact actsOn writes_insert (writes_same ht) writes_erase (List.append_nil _).symm
    | some old => exact actsOn writes_insert (writes_same ht) writes_erase rfl

theorem applyDelete_cell (lsn k : Nat) (deletedAt retentionUntil now : Int64) :
    ActsOn idx (idx.applyDeleteRecord lsn k deletedAt retentionUntil) k
      ((cellOf idx k).apply now (.delete lsn k deletedAt retentionUntil)) := by
  have hstale : (cellOf idx k).stale lsn = idx.stale k lsn := rfl
  have hlive : (cellOf idx k).live = idx.needles.lookup k := rfl
  unfold Cell.apply
  dsimp only
  rw [hstale, hlive]
  rcases idx.applyDeleteRecord_cases lsn k deletedAt retentionUntil with
    ⟨hskip, heq⟩ | ⟨hs, active, hn, heq⟩
  · have hskipped : ActsOn idx (idx.seen lsn) k (cellOf idx k, none) :=
      actsOn_nothing rfl rfl rfl rfl
    rw [heq]
    rcases hskip with hs | hn
    · rwa [if_pos hs]
    · rw [hn]
      split <;> exact hskipped
  · rw [heq, hs, hn]
    exact actsOn writes_erase writes_insert (writes_same rfl) (List.append_nil _).symm

theorem applyGcMigrate_cell (p : WalIndex.Place) (k expectVersion dataLen : Nat) (now : Int64) :
    ActsOn idx (idx.applyGcMigrateRecord p k expectVersion dataLen now).1 k
      ((cellOf idx k).apply now (.migrate p k expectVersion dataLen)) := by
  have hsupp : (idx.seenNeedle k p.lsn).suppressed k p.lsn = (cellOf idx k).suppressed p.lsn :=
    rfl
  have htomb : (idx.seenNeedle k p.lsn).tombstones.lookup k = (cellOf idx k).tomb := rfl
  have hlive : (idx.seenNeedle k p.lsn).needles.lookup k = (cellOf idx k).live := rfl
  unfold applyGcMigrateRecord Cell.apply
  dsimp only
  rw [hsupp, htomb, hlive]
  split
  · exact actsOn_nothing rfl rfl rfl rfl
  cases ht : (cellOf idx k).tomb with
  | some tb => exact actsOn_nothing rfl rfl rfl rfl
  | none =>
    cases hn : (cellOf idx k).live with
    | none =>
      dsimp only [Cell.install]
      rw [ht, hn]
      exact actsOn writes_insert (writes_same ht) (writes_same rfl) (List.append_nil _).symm
    | some cur =>
      dsimp only
      split
      · dsimp only [Cell.install]
        rw [ht, hn]
        exact actsOn writes_insert (writes_same ht) (writes_same rfl) rfl
      · exact actsOn_nothing rfl rfl rfl rfl

theorem applyTombPurge_cell (lsn k : Nat) (now : Int64) :
    ActsOn idx (idx.applyTombPurgeRecord lsn k) k ((cellOf idx k).apply now (.purge lsn k)) := by
  have htomb : (idx.seen lsn).tombstones.lookup k = (cellOf idx k).tomb := rfl
  unfold applyTombPurgeRecord bury Cell.apply
  rw [htomb]
  cases ht : (cellOf idx k).tomb with
  | none => exact actsOn (writes_same rfl) (writes_same ht) writes_insert (List.append_nil _).symm
  | some tb => exact actsOn (writes_same rfl) writes_erase writes_insert rfl

/-- **A record changes the cell of its id** and pushes what the cell says. -/
theorem apply_cell (now : Int64) {r : Effect} (hr : needleId? r = some k) :
    ActsOn idx (r.apply idx now) k ((cellOf idx k).apply now r) := by
  cases r with
  | data p needleId dataLen => cases hr; exact applyData_cell idx p k dataLen now
  | delete lsn needleId deletedAt retentionUntil =>
    cases hr; exact applyDelete_cell idx lsn k deletedAt retentionUntil now
  | migrate p needleId expectVersion dataLen =>
    cases hr; exact applyGcMigrate_cell idx p k expectVersion dataLen now
  | purge lsn needleId => cases hr; exact applyTombPurge_cell idx lsn k now
  | volume | anchor | nothing => cases hr

end

end PowerFS.Wal.Cells
