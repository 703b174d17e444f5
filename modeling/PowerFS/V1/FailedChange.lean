import PowerFS.V1.Sliding

/-! # What a failed change leaves behind

`write_needle` and `delete_needle` discard the dirty entry of their needle before they
make the checks that can fail. If one of the checks fails, the acknowledged content of
the entry is lost with it, unless the data file has the same content. A write that fails in
the backend has left bytes behind, which lie above all records as long as those are sealed. -/
namespace PowerFS.V1.FailedChange
open Lib.ByteString Lib.Calls Lib.SparseFiles Needle Coalescer State Operations Outcomes Requests
  V1.Layout Sliding

variable {v v' : Volume}

/-- The records of all needles are in the file and below the append offset. -/
def Sealed (v : Volume) : Prop :=
  ∀ id info, v.index.needles.lookup id = some info →
    info.offset + readSize info ≤ appendOffset v ∧ InFile v info

theorem sealed_of_placed (h : Placed v) : Sealed v :=
  fun _ _ hold => ⟨h.raw_le hold, h.inFile_of_lookup hold⟩

section

variable [Env] {id : Nat} {data : Bytes} {e : PowerFsError}

/-- What is read of a needle that has no dirty entry. -/
def stored (v : Volume) (id : Nat) : Result Bytes :=
  match v.index.needles.lookup id with
  | none => .error (.needleNotFound id)
  | some info =>
    if info.deletedAt.isSome then .error (.needleNotFound id) else readStored v.data info

theorem readNeedle_stored (v : Volume) (id : Nat) : readNeedle v id =
    match v.coalescer.held id with
    | some (merged, _) => .ok merged
    | none => stored v id := by
  unfold readNeedle WriteCoalescer.held WriteCoalescer.heldIn
  cases v.coalescer.entries.lookup id <;> rfl

theorem Sealed.stored_eq (h : Sealed v) (id : Nat) :
    stored v id = readRecord id (recordOf v id) := by
  unfold stored recordOf
  cases hold : v.index.needles.lookup id with
  | none => rfl
  | some info =>
    dsimp only [Option.map_some, readRecord]
    rw [readStored_eq (h id info hold).2]
    rfl

/-- What a failed append leaves behind lies above the records. -/
theorem Sealed.torn (h : Sealed v) (ht : Torn v id data v') (x : Nat) :
    stored v' x = stored v x := by
  obtain ⟨n, m, s, _, rfl⟩ := ht
  have hsealed : Sealed (torn v id data n m s) := by
    intro y info hold
    obtain ⟨hbelow, htotal, hlen⟩ := h y info hold
    exact ⟨hbelow, htotal, hlen.trans (SparseFile.len_le_write _ _ _)⟩
  rw [h.stored_eq, hsealed.stored_eq]
  have hrecord : recordOf (torn v id data n m s) = recordOf v :=
    recordOf_congr rfl fun y info hold => SparseFile.range_write_beside _ (.inl (h y info hold).1)
  rw [hrecord]

/-- The data file has the content that is dirty, if any is. -/
def Redundant (v : Volume) (id : Nat) : Prop :=
  ∀ merged isNew, v.coalescer.held id = some (merged, isNew) → stored v id = .ok merged

/-- Reads without the dirty entry of a needle are the same just if it is redundant. -/
theorem reads_same_iff
    (hheld : ∀ x, v'.coalescer.held x = if x = id then none else v.coalescer.held x)
    (hstored : ∀ x, stored v' x = stored v x) :
    (∀ x, readNeedle v' x = readNeedle v x) ↔ Redundant v id := by
  simp only [readNeedle_stored, hheld, hstored]
  constructor
  · intro hsame merged isNew hdirty
    have hid := hsame id
    rwa [if_pos rfl, hdirty] at hid
  · intro hred x
    by_cases hx : x = id
    · subst hx
      rw [if_pos rfl]
      cases hdirty : v.coalescer.held x with
      | none => rfl
      | some e => exact hred e.1 e.2 hdirty
    · rw [if_neg hx]

/-- The two calls that change a needle. -/
inductive Change where
  | write (fileKey cookie : Nat) (data : Bytes)
  | delete (id : Nat)

def Change.request : Change → Request
  | .write fileKey cookie data => .write fileKey cookie data
  | .delete id => .delete id

/-- A write that is refused at once does no harm; else the dirty entry must be redundant,
and for a write the records sealed. -/
def Harmless (v : Volume) : Change → Prop
  | .write fileKey _ _ => v.compacting = true ∨ v.info.state ≠ .available ∨
      (Sealed v ∧ Redundant v (keyOf v fileKey))
  | .delete id => Redundant v id

/-- The call cannot reach bytes of a record. -/
def Contained (v : Volume) : Change → Prop
  | .write .. => Sealed v
  | .delete _ => True

theorem failed_write_iff {fileKey cookie : Nat}
    (hw : Returns (writeNeedleWithCookie fileKey cookie data) v (.error e) v') :
    (Harmless v (.write fileKey cookie data) → ∀ x, readNeedle v' x = readNeedle v x) ∧
    (Sealed v → (∀ x, readNeedle v' x = readNeedle v x) →
      Harmless v (.write fileKey cookie data)) := by
  unfold writeNeedleWithCookie at hw
  replace hw := hw.get_bind
  split at hw
  case isTrue hc =>
    obtain ⟨_, rfl⟩ := hw.fail
    exact ⟨fun _ _ => rfl, fun _ _ => .inl hc⟩
  case isFalse hc =>
    rcases writeNeedleNowait_returns hw with ⟨hs, _, rfl⟩ | ⟨hs, hwrote⟩
    · exact ⟨fun _ _ => rfl, fun _ _ => .inr (.inl hs)⟩
    cases hwrote with
    | failed _ _ htorn =>
      have hheld : ∀ x, v'.coalescer.held x =
          if x = keyOf v fileKey then none else v.coalescer.held x := by
        obtain ⟨_, _, _, _, rfl⟩ := htorn
        exact held_begun v fileKey
      have hsame : Sealed v → ((∀ x, readNeedle v' x = readNeedle v x) ↔
          Redundant v (keyOf v fileKey)) := by
        intro h
        have hbegun : Sealed (begun v fileKey) := h
        exact reads_same_iff hheld fun x => hbegun.torn htorn x
      refine ⟨?_, fun h hall => .inr (.inr ⟨h, (hsame h).mp hall⟩)⟩
      rintro (hyes | hno | ⟨h, hred⟩)
      · exact absurd hyes hc
      · exact absurd hs hno
      · exact (hsame h).mpr hred

theorem failed_delete_iff (hd : Returns (deleteNeedle id) v (.error e) v') :
    (∀ x, readNeedle v' x = readNeedle v x) ↔ Harmless v (.delete id) := by
  rcases deleteNeedle_returns hd with ⟨_, n, _, rfl⟩ | ⟨_, _, _, _, _, hr, _⟩
  · exact reads_same_iff (WriteCoalescer.held_invalidate Env.capacity v.coalescer id) fun _ => rfl
  · cases hr

/-- **A failed write or delete that is harmless changes no read**, in any state, and one that
changes no read is harmless, but for a write into a volume whose records are not sealed. -/
theorem failed_change_invisible {c : Change} {e : PowerFsError}
    (hc : Returns (perform c.request) v (.error e) v') :
    (Harmless v c → ∀ x, readNeedle v' x = readNeedle v x) ∧
    (Contained v c → (∀ x, readNeedle v' x = readNeedle v x) → Harmless v c) := by
  cases c with
  | write fileKey cookie data => exact failed_write_iff (ignore_error hc)
  | delete id => exact ⟨(failed_delete_iff hc).mpr, fun _ => (failed_delete_iff hc).mp⟩

/-- A request of which the result and one read afterwards are known. -/
theorem returns_of_map {q : Request} {r : Result Unit} {content : Result Bytes}
    (h : (perform q v).map (fun out => (out.1, readNeedle out.2 id)) = some (r, content)) :
    ∃ v', Returns (perform q) v r v' ∧ readNeedle v' id = content := by
  obtain ⟨⟨r', v'⟩, hq, heq⟩ := Option.map_eq_some_iff.mp h
  cases heq
  exact ⟨v', hq, rfl⟩

end

local instance : Env := calm

/-- A locked needle has a dirty entry with the content of its record: the delete is refused,
and no reader sees that the entry is gone. -/
theorem redundant_delete_invisible : ∃ v v', Run Untroubled (newVolume 1000)
    [.write 1 0 [5], .lock 1 7, .blob 1 0 1 [5]] v ∧ Sealed v ∧
    v.coalescer.held 1 = some ([5], false) ∧
    Returns (perform (.delete 1)) v (.error .permissionDenied) v' ∧
    ∀ x, readNeedle v' x = readNeedle v x := by
  have hdirty : (performAll Untroubled [.write 1 0 [5], .lock 1 7, .blob 1 0 1 [5]]
      (newVolume 1000)).map (fun v =>
        (decide (v.coalescer.held 1 = some ([5], false) ∧ stored v 1 = .ok [5]),
          (perform (.delete 1) v).map fun out => (out.1, readNeedle out.2 1))) =
      some (true, some (.error .permissionDenied, .ok [5])) := by
    decide +kernel
  obtain ⟨v, hv, heq⟩ := Option.map_eq_some_iff.mp hdirty
  obtain ⟨hstate, hout⟩ := Prod.mk.inj heq
  obtain ⟨hheld, hstored⟩ := of_decide_eq_true hstate
  obtain ⟨v', hv', _⟩ := returns_of_map hout
  refine ⟨v, v', run_of_performAll hv,
    sealed_of_placed (placed_of_run (run_of_performAll hv)), hheld, hv',
    (failed_change_invisible (c := .delete 1) hv').1 ?_⟩
  intro merged isNew hentry
  rw [hheld] at hentry
  cases hentry
  exact hstored

/-- Deleting a needle that has only been written in part fails, and loses its content. -/
theorem dirty_delete_visible : ∃ v v', Run Untroubled (newVolume 1000)
    [.blob 1 0 1 [7]] v ∧ Returns (perform (.delete 1)) v (.error (.needleNotFound 1)) v' ∧
    readNeedle v 1 = .ok [7] ∧ readNeedle v' 1 = .error (.needleNotFound 1) := by
  have hlost : (performAll Untroubled [.blob 1 0 1 [7]] (newVolume 1000)).map
      (fun v => (readNeedle v 1, (perform (.delete 1) v).map
        fun out => (out.1, readNeedle out.2 1))) =
      some (.ok [7], some (.error (.needleNotFound 1), .error (.needleNotFound 1))) := by
    decide +kernel
  obtain ⟨v, hv, heq⟩ := Option.map_eq_some_iff.mp hlost
  obtain ⟨hbefore, hout⟩ := Prod.mk.inj heq
  obtain ⟨v', hv', hafter⟩ := returns_of_map hout
  exact ⟨v, v', run_of_performAll hv, hv', hbefore, hafter⟩

end PowerFS.V1.FailedChange
