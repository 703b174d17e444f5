import PowerFS.Lib.StepRuns
import Mathlib.Data.List.Nodup
import Mathlib.Data.List.Range
import Mathlib.Data.List.Perm.Subperm

/-! # From the Raft log to the shard store

A committed command takes two steps into a shard. `RocksStateMachine::apply` of
`powerfs-raft/src/store/state_machine.rs` writes the payloads of a batch and
`last_applied_log` in one atomic write and then notifies the index of the last entry
over a channel, if there is room. The apply loop of `MetaShardManager::create_shard` in
`powerfs-filer/src/meta_shard_manager.rs` reads `last_applied_log` once when it starts;
then, for each notified index, it reads the payloads of all entries since the last one
back and hands their commands to `ShardStore::apply_command`. Terms, memberships and the
counters of the log messages are left out. -/
namespace PowerFS.Filer.ApplyLoop
open Lib.StepRuns List

/-! ## The log and what is read back of it -/

structure FilerRequest where
  payload : List UInt8
  deriving DecidableEq

inductive EntryPayload where
  | blank
  | normal (d : FilerRequest)
  | membership

/-- The committed log. Its first entry, at index 0, is the membership that
`initialize` proposes. -/
structure CommittedLog where
  entry : Nat → EntryPayload
  initialized : entry 0 = .membership

/-- The JSON codec, for requests and for commands. -/
structure Codec (C : Type) where
  toVec : FilerRequest → List UInt8
  fromSlice : List UInt8 → Option FilerRequest
  fromSlice_toVec : ∀ d, fromSlice (toVec d) = some d
  deserialize : List UInt8 → Option C

variable {C : Type} (codec : Codec C) (log : CommittedLog)

/-- What a batch writes under the index of an entry. -/
def valueOf (i : Nat) : Option (List UInt8) := match log.entry i with
  | .normal d => some (codec.toVec d)
  | _ => none

/-- The command of an entry, under its index. -/
def commandAt (i : Nat) : Option (Nat × C) := match log.entry i with
  | .normal d => (codec.deserialize d.payload).map (Prod.mk i)
  | _ => none

/-- **The commands that the store should execute**, up to an index. -/
def commands (n : Nat) : List (Nat × C) := (List.range (n + 1)).filterMap (commandAt codec log)

/-- `read_applied_entry`: a value that is no request is taken as it is. -/
def readAppliedEntry (value : Option (List UInt8)) : Option (List UInt8) :=
  value.map fun b => match codec.fromSlice b with
    | some req => req.payload
    | none => b

theorem read_valueOf (i : Nat) :
    ((readAppliedEntry codec (valueOf codec log i)).bind codec.deserialize).map (Prod.mk i) =
      commandAt codec log i := by
  unfold valueOf commandAt
  cases log.entry i with
  | blank | membership => rfl
  | normal d =>
    simp only [readAppliedEntry, Option.map_some, codec.fromSlice_toVec, Option.bind_some]

theorem commands_zero : commands codec log 0 = [] := by
  simp [commands, commandAt, log.initialized]

theorem commands_succ (n : Nat) :
    commands codec log (n + 1) = commands codec log n ++ (commandAt codec log (n + 1)).toList := by
  unfold commands
  rw [range_succ, filterMap_append]
  cases h : commandAt codec log (n + 1) <;> simp [h]

theorem commands_sublist {m n : Nat} (h : m ≤ n) :
    (commands codec log m).Sublist (commands codec log n) :=
  (range_sublist.mpr (Nat.succ_le_succ h)).filterMap _

variable {codec log} in
theorem commandAt_index {i : Nat} {x : Nat × C} (h : commandAt codec log i = some x) : i = x.1 := by
  unfold commandAt at h
  split at h
  · obtain ⟨c, -, rfl⟩ := Option.map_eq_some_iff.mp h
    rfl
  · cases h

variable {codec log} in
theorem mem_commands {n : Nat} {x : Nat × C} :
    x ∈ commands codec log n ↔ x.1 ≤ n ∧ commandAt codec log x.1 = some x := by
  unfold commands
  rw [mem_filterMap]
  constructor
  · rintro ⟨i, hi, hx⟩
    obtain rfl := commandAt_index hx
    exact ⟨Nat.lt_succ_iff.mp (mem_range.mp hi), hx⟩
  · rintro ⟨hi, hx⟩
    exact ⟨x.1, mem_range.mpr (Nat.lt_succ_of_le hi), hx⟩

theorem commands_nodup (n : Nat) : (commands codec log n).Nodup := by
  refine List.Nodup.filterMap ?_ nodup_range
  intro i j x hi hj
  rw [commandAt_index hi, commandAt_index hj]

/-! ## The shard -/

/-- The apply loop: before it has read its cursor, waiting for a notification, or about
to apply entry `idx` on the way to the notified `index`. -/
inductive Loop where
  | starting
  | waiting (lastApplied : Nat)
  | applying (idx index : Nat)
  deriving DecidableEq

variable (C) in
structure Shard where
  /-- The column family `raft_state_data`, by log index. -/
  stateData : Nat → Option (List UInt8)
  lastAppliedLog : Option Nat
  /-- The index of a batch that has been written and not been notified yet. -/
  written : Option Nat
  applyRx : List Nat
  loop : Loop
  /-- What `apply_command` has been called with, in order. -/
  executed : List (Nat × C)

def Shard.fresh : Shard C := ⟨fun _ => none, none, none, [], .starting, []⟩

inductive Act where
  /-- `apply` writes a batch of so many entries. -/
  | applyBatch (count : Nat)
  /-- It then sends its notification, or drops it when the channel is full. -/
  | notify
  /-- A snapshot up to `last`. Its data is read after its metadata, so that entries up
  to `upto` may be in it. -/
  | installSnapshot (last upto : Nat)
  | start
  | recv
  | applyEntry
  /-- The process ends and is started again. -/
  | crash

/-- Entries from `first` to `last` written over what is there. -/
def writeEntries (first last : Nat) (data : Nat → Option (List UInt8)) :
    Nat → Option (List UInt8) :=
  fun i => if first ≤ i ∧ i ≤ last then (valueOf codec log i).or (data i) else data i

def Shard.nextIndex (s : Shard C) : Nat := match s.lastAppliedLog with
  | none => 0
  | some a => a + 1

/-- One step. Steps of one task come in order, so a batch or a snapshot waits for the
notification of the batch before; Raft installs only snapshots that are ahead. -/
def Shard.step (capacity : Nat) (s : Shard C) : Act → Shard C
  | .applyBatch 0 => s
  | .applyBatch (k + 1) =>
    if s.written = none then
      let last := s.nextIndex + k
      { s with
        stateData := writeEntries codec log s.nextIndex last s.stateData
        lastAppliedLog := some last
        written := some last }
    else s
  | .notify => match s.written with
    | none => s
    | some index =>
      { s with
        written := none
        applyRx := if s.applyRx.length < capacity then s.applyRx ++ [index] else s.applyRx }
  | .installSnapshot last upto =>
    if s.written = none ∧ s.nextIndex ≤ last ∧ last ≤ upto then
      { s with
        stateData := writeEntries codec log 0 upto fun _ => none
        lastAppliedLog := some last }
    else s
  | .start => match s.loop with
    | .starting => { s with loop := .waiting (s.lastAppliedLog.getD 0) }
    | _ => s
  | .recv => match s.loop, s.applyRx with
    | .waiting lastApplied, index :: rest =>
      { s with
        applyRx := rest
        loop := if index ≤ lastApplied then .waiting lastApplied
          else .applying (lastApplied + 1) index }
    | _, _ => s
  | .applyEntry => match s.loop with
    | .applying idx index =>
      { s with
        executed := s.executed ++
          (((readAppliedEntry codec (s.stateData idx)).bind codec.deserialize).map
            (Prod.mk idx)).toList
        loop := if idx = index then .waiting index else .applying (idx + 1) index }
    | _ => s
  | .crash => { s with written := none, applyRx := [], loop := .starting }

def Shard.run (capacity : Nat) (s : Shard C) (acts : List Act) : Shard C :=
  acts.foldl (Shard.step codec log capacity) s

/-! ## In order and at most once -/

/-- The last entry that the loop is through with; a loop yet to start will read it. -/
def Shard.cursor (s : Shard C) : Nat := match s.loop with
  | .starting => s.lastAppliedLog.getD 0
  | .waiting lastApplied => lastApplied
  | .applying idx _ => idx - 1

/-- The index has been applied by Raft. -/
def Shard.Reached (s : Shard C) (i : Nat) : Prop := ∃ a, s.lastAppliedLog = some a ∧ i ≤ a

/-- What holds of every shard, whatever has happened to it. -/
structure Sound (s : Shard C) : Prop where
  genuine : ∀ i, s.stateData i = none ∨ s.stateData i = valueOf codec log i
  stored : ∀ i, s.Reached i → s.stateData i = valueOf codec log i
  written : ∀ i, s.written = some i → s.Reached i
  notified : ∀ i ∈ s.applyRx, s.Reached i
  cursor : s.cursor ≤ s.lastAppliedLog.getD 0
  applying : ∀ idx index, s.loop = .applying idx index → 0 < idx ∧ idx ≤ index ∧ s.Reached index
  /-- No command is executed twice, or before one that precedes it in the log. -/
  ordered : s.executed.Sublist (commands codec log s.cursor)

variable {codec log} {capacity : Nat} {s : Shard C}

open Shard

theorem fresh_sound : Sound codec log (fresh : Shard C) where
  genuine i := Or.inl rfl
  stored := by
    rintro i ⟨a, ha, -⟩
    cases ha
  written := by
    intro i hi
    cases hi
  notified := by
    intro i hi
    cases hi
  cursor := le_refl _
  applying := by
    intro idx index h
    cases h
  ordered := nil_sublist _

/-- Writing entries of the log makes their values the stored ones. -/
theorem writeEntries_eq {first last i : Nat} {data : Nat → Option (List UInt8)}
    (hdata : data i = none ∨ data i = valueOf codec log i) :
    (first ≤ i → i ≤ last → writeEntries codec log first last data i = valueOf codec log i) ∧
      (i < first → writeEntries codec log first last data i = data i) ∧
      (writeEntries codec log first last data i = none ∨
        writeEntries codec log first last data i = valueOf codec log i) := by
  have hover : (valueOf codec log i).or (data i) = valueOf codec log i := by
    rcases hdata with h | h <;> rw [h] <;> cases valueOf codec log i <;> rfl
  unfold writeEntries
  rw [hover]
  refine ⟨fun hfirst hlast => if_pos ⟨hfirst, hlast⟩, fun hi => if_neg (by omega), ?_⟩
  split
  · exact .inr rfl
  · exact hdata

section

variable (h : Sound codec log s)
include h

/-- Raft moves on to `last`, with the values of all entries up to there. -/
theorem Sound.advance {last : Nat} {data : Nat → Option (List UInt8)}
    (hlast : s.nextIndex ≤ last) (hgenuine : ∀ i, data i = none ∨ data i = valueOf codec log i)
    (hdata : ∀ i, i ≤ last → data i = valueOf codec log i)
    {written : Option Nat} (hwritten : ∀ i, written = some i → i ≤ last) :
    Sound codec log
      { s with stateData := data, lastAppliedLog := some last, written := written } := by
  have hreach : ∀ i, s.Reached i → i ≤ last := by
    rintro i ⟨a, ha, hi⟩
    simp only [Shard.nextIndex, ha] at hlast
    omega
  have hnow : ∀ i, i ≤ last → ∃ a, some last = some a ∧ i ≤ a := fun i hi => ⟨last, rfl, hi⟩
  have happlied : s.lastAppliedLog.getD 0 ≤ last := by
    cases ha : s.lastAppliedLog with
    | none => exact Nat.zero_le _
    | some a => exact hreach a ⟨a, ha, le_refl _⟩
  have hcursor : s.cursor ≤
      Shard.cursor { s with stateData := data, lastAppliedLog := some last, written := written } ∧
      Shard.cursor { s with stateData := data, lastAppliedLog := some last, written := written } ≤
        last := by
    have hold := h.cursor
    unfold Shard.cursor at hold ⊢
    cases hloop : s.loop with
    | starting => exact ⟨happlied, le_refl _⟩
    | waiting | applying =>
      rw [hloop] at hold
      exact ⟨le_refl _, le_trans hold happlied⟩
  refine ⟨hgenuine, ?_, ?_, ?_, hcursor.2, ?_, ?_⟩
  · rintro i ⟨a, ha, hi⟩
    obtain rfl := Option.some.inj ha
    exact hdata i hi
  · intro i hi
    exact hnow i (hwritten i hi)
  · intro i hi
    exact hnow i (hreach i (h.notified i hi))
  · intro idx index hloop
    obtain ⟨hpos, hle, hindex⟩ := h.applying idx index hloop
    exact ⟨hpos, hle, hnow index (hreach index hindex)⟩
  · exact h.ordered.trans (commands_sublist codec log hcursor.1)

/-- The loop handles what it has read of the log. -/
theorem Sound.applyEntry {idx index : Nat} (hloop : s.loop = .applying idx index) :
    commands codec log idx = commands codec log s.cursor ++
      (((readAppliedEntry codec (s.stateData idx)).bind codec.deserialize).map
        (Prod.mk idx)).toList := by
  obtain ⟨hpos, hle, a, ha, hindex⟩ := h.applying idx index hloop
  rw [h.stored idx ⟨a, ha, le_trans hle hindex⟩, read_valueOf]
  have hcursor : s.cursor + 1 = idx := by
    simp only [Shard.cursor, hloop]
    omega
  rw [← hcursor, commands_succ]

/-- What only concerns the channel and the loop. -/
theorem Sound.onward {s' : Shard C}
    (hdata : s'.stateData = s.stateData) (happlied : s'.lastAppliedLog = s.lastAppliedLog)
    (hwritten : ∀ i, s'.written = some i → s.Reached i) (hrx : ∀ i ∈ s'.applyRx, s.Reached i)
    (hcursor : s'.cursor ≤ s.lastAppliedLog.getD 0)
    (happlying : ∀ idx index, s'.loop = .applying idx index →
      0 < idx ∧ idx ≤ index ∧ s.Reached index)
    (hordered : s'.executed.Sublist (commands codec log s'.cursor)) : Sound codec log s' := by
  have hreached : s'.Reached = s.Reached := by
    unfold Shard.Reached
    rw [happlied]
  refine ⟨?_, ?_, ?_, ?_, ?_, ?_, hordered⟩
  · rw [hdata]
    exact h.genuine
  · rw [hdata, hreached]
    exact h.stored
  · rw [hreached]
    exact hwritten
  · rw [hreached]
    exact hrx
  · rw [happlied]
    exact hcursor
  · rw [hreached]
    exact happlying

omit h in
theorem nextIndex_le_iff {i : Nat} : s.nextIndex ≤ i ↔ ¬ s.Reached i := by
  unfold nextIndex Shard.Reached
  cases s.lastAppliedLog with
  | none => simp
  | some a =>
    simp only [Option.some.injEq, exists_eq_left', Nat.not_le]
    exact Nat.succ_le_iff

theorem applyBatch_sound (count : Nat) :
    Sound codec log (s.step codec log capacity (.applyBatch count)) := by
  cases count with
  | zero => exact h
  | succ k =>
    simp only [step]
    split
    · refine h.advance (Nat.le_add_right _ _) (fun i => (writeEntries_eq (h.genuine i)).2.2) ?_
        (fun i hi => le_of_eq (Option.some.inj hi).symm)
      intro i hi
      by_cases hnew : s.nextIndex ≤ i
      · exact (writeEntries_eq (h.genuine i)).1 hnew hi
      · rw [(writeEntries_eq (h.genuine i)).2.1 (Nat.not_le.mp hnew)]
        exact h.stored i (not_not.mp (mt nextIndex_le_iff.mpr hnew))
    · exact h

theorem installSnapshot_sound (last upto : Nat) :
    Sound codec log (s.step codec log capacity (.installSnapshot last upto)) := by
  simp only [step]
  split
  case isTrue hguard =>
    obtain ⟨hwritten, hnext, hupto⟩ := hguard
    have hwrites := fun i =>
      @writeEntries_eq C codec log 0 upto i (fun _ => none) (.inl rfl)
    refine h.advance hnext (fun i => (hwrites i).2.2) ?_ ?_
    · intro i hi
      exact (hwrites i).1 (Nat.zero_le _) (le_trans hi hupto)
    · intro i hi
      rw [hwritten] at hi
      cases hi
  case isFalse => exact h

theorem notify_sound : Sound codec log (s.step codec log capacity .notify) := by
  simp only [step]
  split
  · exact h
  rename_i index hindex
  refine h.onward rfl rfl (fun i hi => by cases hi) ?_ h.cursor h.applying h.ordered
  split
  · exact forall_mem_append.mpr ⟨h.notified, forall_mem_singleton.mpr (h.written index hindex)⟩
  · exact h.notified

theorem start_sound : Sound codec log (s.step codec log capacity .start) := by
  simp only [step]
  split
  · rename_i hloop
    refine h.onward rfl rfl h.written h.notified (le_refl _) (fun _ _ hl => by cases hl) ?_
    have hordered := h.ordered
    simp only [cursor, hloop] at hordered
    exact hordered
  · exact h

theorem recv_sound : Sound codec log (s.step codec log capacity .recv) := by
  simp only [step]
  split
  · rename_i lastApplied index rest hloop hrx
    have hordered := h.ordered
    have hcursor := h.cursor
    simp only [cursor, hloop] at hordered hcursor
    have hin : ∀ i ∈ rest, s.Reached i := by
      intro i hi
      exact h.notified i (hrx ▸ mem_cons_of_mem _ hi)
    by_cases hold : index ≤ lastApplied
    · simp only [if_pos hold]
      exact h.onward rfl rfl h.written hin hcursor (fun _ _ hl => by cases hl) hordered
    simp only [if_neg hold]
    refine h.onward rfl rfl h.written hin hcursor ?_ hordered
    intro idx index' hl
    obtain ⟨rfl, rfl⟩ := Loop.applying.inj hl
    exact ⟨Nat.succ_pos _, Nat.not_le.mp hold, h.notified _ (hrx ▸ mem_cons_self)⟩
  · exact h

theorem applyEntry_sound : Sound codec log (s.step codec log capacity .applyEntry) := by
  simp only [step]
  split
  · rename_i idx index hloop
    obtain ⟨hpos, hle, hreached⟩ := h.applying idx index hloop
    have hreach : idx ≤ s.lastAppliedLog.getD 0 := by
      obtain ⟨a, ha, hindex⟩ := hreached
      rw [ha]
      exact le_trans hle hindex
    have hordered : (s.executed ++
        (((readAppliedEntry codec (s.stateData idx)).bind codec.deserialize).map
          (Prod.mk idx)).toList).Sublist (commands codec log idx) := by
      rw [h.applyEntry hloop]
      exact h.ordered.append (List.Sublist.refl _)
    by_cases hlast : idx = index
    · subst hlast
      simp only [if_true]
      exact h.onward rfl rfl h.written h.notified hreach (fun _ _ hl => by cases hl) hordered
    simp only [if_neg hlast]
    refine h.onward rfl rfl h.written h.notified hreach ?_ hordered
    intro idx' index' hl
    obtain ⟨rfl, rfl⟩ := Loop.applying.inj hl
    exact ⟨Nat.succ_pos _, by omega, hreached⟩
  · exact h

theorem crash_sound : Sound codec log (s.step codec log capacity .crash) :=
  h.onward rfl rfl (fun _ hi => by cases hi) (fun _ hi => by cases hi) (le_refl _)
    (fun _ _ hl => by cases hl) (h.ordered.trans (commands_sublist codec log h.cursor))

theorem step_sound (act : Act) : Sound codec log (s.step codec log capacity act) := by
  cases act with
  | applyBatch count => exact applyBatch_sound h count
  | notify => exact notify_sound h
  | installSnapshot last upto => exact installSnapshot_sound h last upto
  | start => exact start_sound h
  | recv => exact recv_sound h
  | applyEntry => exact applyEntry_sound h
  | crash => exact crash_sound h

end

/-! ## Nothing left out -/

variable (codec log) in
/-- All commands up to the cursor have been executed. -/
def Done (s : Shard C) : Prop := ∀ x ∈ commands codec log s.cursor, x ∈ s.executed

theorem Sound.executed_eq (h : Sound codec log s) (hdone : Done codec log s) :
    s.executed = commands codec log s.cursor := by
  have hle : (commands codec log s.cursor).length ≤ s.executed.length :=
    ((commands_nodup codec log s.cursor).subperm hdone).length_le
  exact h.ordered.eq_of_length_le hle

/-- Raft moves on: only a loop that has not started yet will notice. -/
theorem advance_cursor {last : Nat} (hlast : s.nextIndex ≤ last)
    (data : Nat → Option (List UInt8)) (written : Option Nat) (s' : Shard C)
    (hs' : s' = { s with stateData := data, lastAppliedLog := some last, written := written }) :
    s'.executed = s.executed ∧ s.cursor ≤ s'.cursor ∧
      (s'.loop ≠ .starting → s.loop ≠ .starting ∧ s'.cursor = s.cursor) := by
  subst hs'
  refine ⟨rfl, ?_⟩
  unfold cursor
  cases hloop : s.loop with
  | starting =>
    refine ⟨?_, fun h => absurd rfl h⟩
    simp only [nextIndex] at hlast
    cases ha : s.lastAppliedLog with
    | none => exact Nat.zero_le _
    | some a =>
      rw [ha] at hlast
      exact Nat.le_of_succ_le hlast
  | waiting | applying => exact ⟨le_refl _, fun h => ⟨h, rfl⟩⟩

/-- **What a step can do** about the commands: nothing, take up the cursor, or execute the
command of the next entry. -/
theorem step_cases (h : Sound codec log s) {act : Act} {s' : Shard C}
    (hs' : s.step codec log capacity act = s') :
    (s'.executed = s.executed ∧ s.cursor ≤ s'.cursor ∧
      (s'.loop ≠ .starting → s.loop ≠ .starting ∧ s'.cursor = s.cursor)) ∨
    (act = .start ∧ s.loop = .starting ∧ s'.executed = s.executed ∧ s'.cursor = s.cursor) ∨
    (s.loop ≠ .starting ∧ s'.cursor = s.cursor + 1 ∧
      s'.executed = s.executed ++ (commandAt codec log (s.cursor + 1)).toList) := by
  have hidle : s' = s → s'.executed = s.executed ∧ s.cursor ≤ s'.cursor ∧
      (s'.loop ≠ .starting → s.loop ≠ .starting ∧ s'.cursor = s.cursor) := by
    rintro rfl
    exact ⟨rfl, le_refl _, fun hl => ⟨hl, rfl⟩⟩
  cases act with
  | applyBatch count =>
    refine .inl ?_
    cases count with
    | zero => exact hidle hs'.symm
    | succ k =>
      simp only [step] at hs'
      split at hs'
      · exact advance_cursor (Nat.le_add_right _ _) _ _ s' hs'.symm
      · exact hidle hs'.symm
  | installSnapshot last upto =>
    refine .inl ?_
    simp only [step] at hs'
    split at hs'
    case isTrue hguard => exact advance_cursor hguard.2.1 _ s.written s' hs'.symm
    case isFalse => exact hidle hs'.symm
  | notify =>
    refine .inl ?_
    simp only [step] at hs'
    split at hs'
    · exact hidle hs'.symm
    · subst hs'
      exact ⟨rfl, le_refl _, fun hl => ⟨hl, rfl⟩⟩
  | start =>
    simp only [step] at hs'
    split at hs'
    · rename_i hloop
      subst hs'
      refine .inr (.inl ⟨rfl, hloop, rfl, ?_⟩)
      simp only [cursor, hloop]
    · exact .inl (hidle hs'.symm)
  | recv =>
    refine .inl ?_
    simp only [step] at hs'
    split at hs'
    · rename_i lastApplied index rest hloop hrx
      have hcursor : s'.cursor = s.cursor := by
        subst hs'
        simp only [cursor, hloop]
        split <;> rename_i hcur <;> split at hcur <;> cases hcur <;> rfl
      refine ⟨hs' ▸ rfl, le_of_eq hcursor.symm, fun _ => ⟨?_, hcursor⟩⟩
      rw [hloop]
      exact fun hl => by cases hl
    · exact hidle hs'.symm
  | applyEntry =>
    simp only [step] at hs'
    split at hs'
    · rename_i idx index hloop
      obtain ⟨hpos, hle, a, ha, hindex⟩ := h.applying idx index hloop
      have hcursor : s.cursor + 1 = idx := by
        simp only [cursor, hloop]
        omega
      refine .inr (.inr ⟨?_, ?_, ?_⟩)
      · rw [hloop]
        exact fun hl => by cases hl
      · rw [hcursor, ← hs']
        simp only [cursor]
        split <;> rename_i hcur <;> split at hcur <;> cases hcur <;> omega
      · rw [hcursor, ← read_valueOf, ← h.stored idx ⟨a, ha, le_trans hle hindex⟩, ← hs']
    · exact .inl (hidle hs'.symm)
  | crash =>
    refine .inl ?_
    subst hs'
    exact ⟨rfl, h.cursor, fun hl => absurd rfl hl⟩

variable (codec log) in
/-- When the loop starts, the commands of all entries that Raft has applied have been
executed. -/
def Ready (s : Shard C) : Act → Prop
  | .start => s.loop = .starting →
      ∀ x ∈ commands codec log (s.lastAppliedLog.getD 0), x ∈ s.executed
  | _ => True

/-- The loop waits at the last entry that Raft has applied. -/
def CaughtUp (s : Shard C) (n : Nat) : Prop := s.loop = .waiting n ∧ s.lastAppliedLog = some n

/-- A loop that has started has executed everything up to its cursor. -/
def Complete (codec : Codec C) (log : CommittedLog) (s : Shard C) : Prop :=
  s.loop ≠ .starting → Done codec log s

theorem step_complete (h : Sound codec log s) {act : Act} (hready : Ready codec log s act)
    (hc : Complete codec log s) : Complete codec log (s.step codec log capacity act) := by
  intro hloop
  rcases step_cases h (rfl : s.step codec log capacity act = _) with
    ⟨hexec, -, hcur⟩ | ⟨rfl, hstarting, hexec, hcur⟩ | ⟨hl, hcur, hexec⟩
  · obtain ⟨hl, hcur⟩ := hcur hloop
    unfold Done
    rw [hexec, hcur]
    exact hc hl
  · unfold Done
    rw [hexec, hcur]
    have hall := hready hstarting
    simp only [cursor, hstarting]
    exact hall
  · intro x hx
    rw [hcur, commands_succ] at hx
    rw [hexec]
    rcases mem_append.mp hx with hold | hnew
    · exact mem_append_left _ (hc hl x hold)
    · exact mem_append_right _ hnew

/-- **What is left out stays out.** -/
theorem step_done (h : Sound codec log s) {act : Act}
    (hdone : Done codec log (s.step codec log capacity act)) : Done codec log s := by
  rcases step_cases h (rfl : s.step codec log capacity act = _) with
    ⟨hexec, hcur, -⟩ | ⟨-, -, hexec, hcur⟩ | ⟨-, hcur, hexec⟩
  · intro x hx
    rw [← hexec]
    exact hdone x ((commands_sublist codec log hcur).subset hx)
  · intro x hx
    rw [← hexec]
    exact hdone x (hcur ▸ hx)
  intro x hx
  have hin := hdone x ((commands_sublist codec log (by omega)).subset hx)
  rw [hexec] at hin
  rcases mem_append.mp hin with hold | hnew
  · exact hold
  -- the new command is the one of the next entry
  have hindex := commandAt_index (Option.mem_toList.mp hnew)
  have hbefore := (mem_commands.mp hx).1
  omega

theorem run_done (h : Sound codec log s) {acts : List Act}
    (hdone : Done codec log (s.run codec log capacity acts)) :
    Done codec log s ∧ Along (step codec log capacity) (Ready codec log) s acts := by
  induction acts generalizing s with
  | nil => exact ⟨hdone, trivial⟩
  | cons act acts ih =>
    obtain ⟨hnext, halong⟩ := ih (step_sound h act) hdone
    have hnow := step_done h hnext
    refine ⟨hnow, ?_, halong⟩
    cases act with
    | start =>
      intro hstarting
      unfold Done at hnow
      simpa only [cursor, hstarting] using hnow
    | _ => trivial

variable (codec log capacity) in
/-- **Committed commands reach the store**: when the loop has caught up, the store has
executed the commands of all entries, each once and in the order of the log, exactly if
at every start of the loop the commands of all entries applied by then had been
executed. -/
theorem commands_executed_iff (acts : List Act) (n : Nat)
    (hn : CaughtUp ((Shard.fresh : Shard C).run codec log capacity acts) n) :
    ((Shard.fresh : Shard C).run codec log capacity acts).executed = commands codec log n ↔
      Along (Shard.step codec log capacity) (Ready codec log) Shard.fresh acts := by
  have hcursor : ((fresh : Shard C).run codec log capacity acts).cursor = n := by
    simp only [cursor, hn.1]
  constructor
  · intro heq
    refine (run_done fresh_sound ?_).2
    intro x hx
    rw [heq, ← hcursor]
    exact hx
  · intro hready
    have hrun := hready.invariant (I := fun s => Sound codec log s ∧ Complete codec log s)
      (fun s act h hstep => ⟨step_sound h.1 act, step_complete h.1 hstep h.2⟩)
      ⟨fresh_sound, fun hl => absurd rfl hl⟩
    have hstarted : ((fresh : Shard C).run codec log capacity acts).loop ≠ .starting := by
      rw [hn.1]
      exact fun hl => by cases hl
    rw [← hcursor]
    exact hrun.1.executed_eq (hrun.2 hstarted)

variable (codec log capacity) in
/-- **No command is executed twice or out of order**, whatever batches, snapshots,
notifications and crashes come between: those executed are, in the order of the log,
commands of entries that Raft has applied. -/
theorem executed_in_log_order (acts : List Act) :
    let s := (Shard.fresh : Shard C).run codec log capacity acts
    s.executed.Sublist (commands codec log (s.lastAppliedLog.getD 0)) ∧ s.executed.Nodup := by
  have h : Sound codec log ((Shard.fresh : Shard C).run codec log capacity acts) :=
    foldlRecOn acts _ fresh_sound fun _ hs act _ => step_sound hs act
  exact ⟨h.ordered.trans (commands_sublist codec log h.cursor),
    h.ordered.nodup (commands_nodup codec log _)⟩

/-- A payload stands between braces, and a command is one byte; anything else is refused. -/
def byteCodec : Codec UInt8 where
  toVec d := 0x7B :: d.payload ++ [0x7D]
  fromSlice b :=
    if b.head? = some 0x7B ∧ b.getLast? = some 0x7D then some ⟨b.tail.dropLast⟩ else none
  fromSlice_toVec d := by
    rw [if_pos ⟨rfl, List.getLast?_concat⟩]
    simp
  deserialize
    | [b] => some b
    | _ => none

/-- A membership and then commands only. -/
def byteLog : CommittedLog where
  entry
    | 0 => .membership
    | i + 1 => .normal ⟨[UInt8.ofNat i]⟩
  initialized := rfl

/-- The loop starts before the first batch, and the notification gets through. -/
def orderly : List Act := [.start, .applyBatch 3, .notify, .recv, .applyEntry, .applyEntry]

theorem orderly_executed :
    (Shard.fresh.run byteCodec byteLog 1000 orderly).executed = commands byteCodec byteLog 2 := by
  refine (commands_executed_iff byteCodec byteLog 1000 orderly 2 ⟨rfl, rfl⟩).mpr ?_
  refine ⟨?_, trivial, trivial, trivial, trivial, trivial, trivial⟩
  intro _ x hx
  change x ∈ commands byteCodec byteLog 0 at hx
  rw [commands_zero] at hx
  cases hx

/-- The first batch is written before the loop reads its cursor. -/
def overtaken : List Act := [.applyBatch 3, .start, .notify, .recv]

/-- A crash comes after a batch has been written and before it has been executed. -/
def interrupted : List Act :=
  [.start, .applyBatch 3, .notify, .crash, .start, .applyBatch 1, .notify, .recv, .applyEntry]

/-- **Commands are skipped.** Both loops have caught up with a notification that covers the
whole log; neither has executed the commands of entries 1 and 2. -/
theorem overtaken_and_interrupted_skip :
    (CaughtUp (Shard.fresh.run byteCodec byteLog 1000 overtaken) 2 ∧
      (Shard.fresh.run byteCodec byteLog 1000 overtaken).executed = []) ∧
    (CaughtUp (Shard.fresh.run byteCodec byteLog 1000 interrupted) 3 ∧
      (Shard.fresh.run byteCodec byteLog 1000 interrupted).executed = [(3, 2)]) ∧
    commands byteCodec byteLog 2 = [(1, 0), (2, 1)] :=
  ⟨⟨⟨rfl, rfl⟩, rfl⟩, ⟨⟨rfl, rfl⟩, rfl⟩, rfl⟩

end PowerFS.Filer.ApplyLoop
