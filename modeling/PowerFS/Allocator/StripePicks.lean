import Mathlib

/-! # Volumes for a stripe file

`FilerAllocator::pick_for_stripe_file`: the volumes of all zones are grouped by node, and passes
over the nodes take one volume of each until there are enough or none is left. After `k` whole
passes each node has given `k` volumes or all it has, which is what keeps the picks balanced.
The vector of the picks is made for the number asked for, however few volumes there are. -/
namespace PowerFS.Allocator.StripePicks
open List

structure ZoneVolume where
  volumeId : UInt64
  nodeId : String

structure ZoneView where
  zoneId : UInt32
  volumes : List ZoneVolume

structure VolumePick where
  volumeId : UInt64
  zoneId : UInt32
  nodeId : String
  deriving DecidableEq

/-- All volumes, with their zones. -/
def allVolumes (zones : List ZoneView) : List VolumePick :=
  zones.flatMap fun zone => zone.volumes.map fun vol => ⟨vol.volumeId, zone.zoneId, vol.nodeId⟩

/-- Volumes by node, in the order the nodes were met. -/
abbrev NodeGroups := List (String × List VolumePick)

/-- Puts a volume into the group of its node, a new one if it has none. -/
def addVolume : NodeGroups → VolumePick → NodeGroups
  | [], vol => [(vol.nodeId, [vol])]
  | (node, group) :: groups, vol =>
    if node = vol.nodeId then (node, group ++ [vol]) :: groups
    else (node, group) :: addVolume groups vol

/-- One pass: the first volume of each group that has one, until there are `count`. -/
def pickPass (count : Nat) : NodeGroups → List VolumePick → NodeGroups × List VolumePick × Bool
  | [], result => ([], result, false)
  | (node, group) :: groups, result =>
    if count ≤ result.length then ((node, group) :: groups, result, false)
    else match group with
      | [] =>
        let pass := pickPass count groups result
        ((node, []) :: pass.1, pass.2)
      | vol :: group =>
        let pass := pickPass count groups (result ++ [vol])
        ((node, group) :: pass.1, pass.2.1, true)

/-- The volumes that are left. -/
def remaining (groups : NodeGroups) : List VolumePick := groups.flatMap Prod.snd

theorem countP_remaining_cons (p : VolumePick → Bool) (g : String × List VolumePick)
    (groups : NodeGroups) : (remaining (g :: groups)).countP p =
      g.2.countP p + (remaining groups).countP p := by
  rw [remaining, flatMap_cons, countP_append]
  rfl

/-- What a pass from `groups` and `result` makes of them. -/
structure Passed (count : Nat) (groups : NodeGroups) (result : List VolumePick)
    (pass : NodeGroups × List VolumePick × Bool) : Prop where
  moved : ∀ p, pass.2.1.countP p + (remaining pass.1).countP p =
    result.countP p + (remaining groups).countP p
  grows : result.length + pass.2.2.toNat ≤ pass.2.1.length
  bound : pass.2.1.length ≤ max count result.length
  idle : pass.2.2 = false → pass.2.1.length < count → remaining groups = []

theorem pickPass_passed (count : Nat) (groups : NodeGroups) (result : List VolumePick) :
    Passed count groups result (pickPass count groups result) := by
  fun_induction pickPass with
  | case1 result => exact ⟨fun _ => rfl, le_refl _, le_max_right .., fun _ _ => rfl⟩
  | case2 _ _ _ result hfull =>
    exact ⟨fun _ => rfl, le_refl _, le_max_right .., fun _ hlt => absurd hfull (Nat.not_le.mpr hlt)⟩
  | case3 _ _ _ _ pass ih => exact ⟨ih.moved, ih.grows, ih.bound, ih.idle⟩
  | case4 _ _ result hroom vol group pass ih =>
    obtain ⟨hmoved, hgrows, hbound, -⟩ := ih
    rw [length_append, length_singleton] at hgrows hbound
    refine ⟨fun p => ?_, Nat.le_of_add_right_le hgrows, hbound.trans (by omega), nofun⟩
    have hp := hmoved p
    simp only [countP_append, countP_singleton] at hp
    simp only [countP_remaining_cons, countP_cons, pass]
    omega

def pickLoop (count : Nat) (groups : NodeGroups) (result : List VolumePick) : List VolumePick :=
  let pass := pickPass count groups result
  if pass.2.2 = true ∧ pass.2.1.length < count then pickLoop count pass.1 pass.2.1 else pass.2.1
termination_by (remaining groups).length
decreasing_by
  rename_i hgo
  have hmoved := (pickPass_passed count groups result).moved fun _ => true
  have hgrows := (pickPass_passed count groups result).grows
  rw [hgo.1] at hgrows
  simp only [countP_true, Bool.toNat_true] at hmoved hgrows
  omega

/-- `size_of::<VolumePick>()`: two words for the numbers, three for the name. -/
def volumePickSize : Nat := 40

/-- What `Vec::with_capacity(count)` can have: no vector has more than `isize::MAX` bytes. -/
def Reserved (memory count : Nat) : Prop :=
  count * volumePickSize ≤ memory ∧ count * volumePickSize ≤ 2 ^ 63 - 1

instance (memory count : Nat) : Decidable (Reserved memory count) :=
  inferInstanceAs (Decidable (_ ∧ _))

/-- The outer `none` is a call that does not return: its vector cannot be had. -/
def pickForStripeFile (memory : Nat) (zones : List ZoneView) (count : Nat) :
    Option (Option (List VolumePick)) :=
  if count = 0 then some (some [])
  else if (allVolumes zones).isEmpty then some none
  else
    let nodeGroups := (allVolumes zones).foldl addVolume []
    if Reserved memory count then some (some (pickLoop count nodeGroups [])) else none

/-! ## Picks by node -/

/-- The volumes of a node. -/
abbrev ofNode (node : String) (vols : List VolumePick) : Nat :=
  vols.countP fun v => v.nodeId = node

/-- The volumes of a group are of its node, those of the groups behind it are not. -/
def Grouped : NodeGroups → Prop
  | [] => True
  | (node, group) :: groups => (∀ v ∈ group, v.nodeId = node) ∧
      (∀ v ∈ remaining groups, v.nodeId ≠ node) ∧ Grouped groups

theorem remaining_addVolume (groups : NodeGroups) (vol : VolumePick) :
    (remaining (addVolume groups vol)).Perm (vol :: remaining groups) := by
  fun_induction addVolume with
  | case1 => exact .refl _
  | case2 group groups vol =>
    show ((group ++ [vol]) ++ remaining groups).Perm _
    rw [append_assoc]
    exact perm_middle
  | case3 _ group _ _ _ ih => exact (ih.append_left group).trans perm_middle

theorem Grouped.addVolume {groups : NodeGroups} (h : Grouped groups) (vol : VolumePick) :
    Grouped (addVolume groups vol) := by
  fun_induction StripePicks.addVolume with
  | case1 => exact ⟨forall_mem_singleton.mpr rfl, forall_mem_nil _, trivial⟩
  | case2 => exact ⟨forall_mem_append.mpr ⟨h.1, forall_mem_singleton.mpr rfl⟩, h.2⟩
  | case3 _ _ groups vol hne ih =>
    refine ⟨h.1, fun v hv => ?_, ih h.2.2⟩
    rcases mem_cons.mp ((remaining_addVolume groups vol).mem_iff.mp hv) with rfl | hv
    · exact Ne.symm hne
    · exact h.2.1 v hv

/-- A pass takes at most one volume of a node, and one of each that has some if it is not cut
short. -/
structure Round (count : Nat) (groups : NodeGroups) (result : List VolumePick)
    (pass : NodeGroups × List VolumePick × Bool) : Prop where
  left : remaining pass.1 ⊆ remaining groups
  grouped : Grouped pass.1
  keeps : ∀ node, ofNode node result ≤ ofNode node pass.2.1
  once : ∀ node, ofNode node pass.2.1 ≤ ofNode node result + min 1 (ofNode node (remaining groups))
  whole : pass.2.1.length < count → ∀ node, ofNode node pass.2.1 =
    ofNode node result + min 1 (ofNode node (remaining groups))

theorem Grouped.round {groups : NodeGroups} (h : Grouped groups) (count : Nat)
    (result : List VolumePick) : Round count groups result (pickPass count groups result) := by
  fun_induction pickPass with
  | case1 => exact ⟨Subset.refl _, h, fun _ => le_refl _, fun _ => le_refl _, fun _ _ => rfl⟩
  | case2 _ _ _ _ hfull =>
    exact ⟨Subset.refl _, h, fun _ => le_refl _, fun _ => Nat.le_add_right ..,
      fun hlt => absurd hfull (Nat.not_le.mpr hlt)⟩
  | case3 _ _ _ _ pass ih =>
    have ih := ih h.2.2
    exact ⟨ih.left, ⟨h.1, fun v hv => h.2.1 v (ih.left hv), ih.grouped⟩, ih.keeps, ih.once,
      ih.whole⟩
  | case4 first groups result _ vol group pass ih =>
    have ih := ih h.2.2
    have hgroup := forall_mem_cons.mp h.1
    -- the volume is the only one of its node in this pass
    have hsum : ∀ node, min 1 (ofNode node (remaining ((first, vol :: group) :: groups))) =
        ofNode node [vol] + min 1 (ofNode node (remaining groups)) := by
      intro node
      rw [ofNode, countP_remaining_cons]
      by_cases hnode : first = node
      · have hnone : ofNode node (remaining groups) = 0 :=
          countP_eq_zero.mpr fun v hv => by simpa using hnode ▸ h.2.1 v hv
        simp [hnone, hgroup.1, hnode]
      · have hzero : ofNode node (vol :: group) = 0 :=
          countP_eq_zero.mpr fun v hv => by simpa [h.1 v hv] using hnode
        simp [hzero, hgroup.1, hnode]
    have hpushed : ∀ node, ofNode node (result ++ [vol]) = ofNode node result + ofNode node [vol] :=
      fun _ => countP_append
    refine ⟨fun v hv => mem_cons_of_mem vol (append_subset.mpr ⟨subset_append_left ..,
      Subset.trans ih.left (subset_append_right ..)⟩ hv), ⟨hgroup.2, fun v hv =>
      h.2.1 v (ih.left hv), ih.grouped⟩, fun node => ?_, fun node => ?_, fun hlt node => ?_⟩
    · exact (Nat.le_add_right ..).trans ((hpushed node).ge.trans (ih.keeps node))
    · rw [hsum, ← Nat.add_assoc, ← hpushed]
      exact ih.once node
    · rw [hsum, ← Nat.add_assoc, ← hpushed]
      exact ih.whole hlt node

/-- What the loop keeps: the volumes are in the result or left, and of each node there are `k`
or all in the result. -/
structure Even (all : List VolumePick) (count k : Nat) (groups : NodeGroups)
    (result : List VolumePick) : Prop where
  grouped : Grouped groups
  split : ∀ p, result.countP p + (remaining groups).countP p = all.countP p
  bound : result.length ≤ count
  even : ∀ node, ofNode node result = min k (ofNode node all)

theorem Even.pickLoop {count k : Nat} {groups : NodeGroups} {all result : List VolumePick}
    (h : Even all count k groups result) :
    (pickLoop count groups result).length = min count all.length ∧
      (∀ p, (pickLoop count groups result).countP p ≤ all.countP p) ∧
      ∃ k, ∀ node, min k (ofNode node all) ≤ ofNode node (pickLoop count groups result) ∧
        ofNode node (pickLoop count groups result) ≤ min (k + 1) (ofNode node all) := by
  fun_induction StripePicks.pickLoop generalizing k
  case case1 groups result pass hgo ih =>
    have hpass : Passed count groups result pass := pickPass_passed count groups result
    have hround : Round count groups result pass := h.grouped.round count result
    refine ih (k := k + 1) ⟨hround.grouped, fun p => (hpass.moved p).trans (h.split p), hgo.2.le,
      fun node => ?_⟩
    have hwhole := hround.whole hgo.2 node
    have hsplit : ofNode node result + ofNode node (remaining groups) = ofNode node all := h.split _
    have heven := h.even node
    omega
  case case2 groups result pass hstop =>
    have hpass : Passed count groups result pass := pickPass_passed count groups result
    have hround : Round count groups result pass := h.grouped.round count result
    have hmoved := fun p => (hpass.moved p).trans (h.split p)
    refine ⟨?_, fun p => (Nat.le_add_right ..).trans (hmoved p).le, k, fun node => ?_⟩
    · have htotal := hmoved fun _ => true
      have hsplit := h.split fun _ => true
      have hbound := h.bound
      have hgrows := hpass.grows
      have hpassed := hpass.bound
      simp only [countP_true] at htotal hsplit
      by_cases hfull : pass.2.1.length < count
      · have hidle : pass.2.2 = false := Bool.eq_false_iff.mpr fun hp => hstop ⟨hp, hfull⟩
        rw [hpass.idle hidle hfull, length_nil] at hsplit
        omega
      · omega
    · have hkeeps := hround.keeps node
      have honce := hround.once node
      have hsplit : ofNode node result + ofNode node (remaining groups) = ofNode node all :=
        h.split _
      have heven := h.even node
      omega

theorem grouped_addVolumes (vols : List VolumePick) :
    (remaining (vols.foldl addVolume [])).Perm vols ∧ Grouped (vols.foldl addVolume []) := by
  induction vols using reverseRecOn with
  | nil => exact ⟨.refl _, trivial⟩
  | append_singleton vols vol ih =>
    rw [foldl_append]
    refine ⟨(remaining_addVolume _ vol).trans ?_, ih.2.addVolume vol⟩
    exact (ih.1.cons vol).trans (perm_append_singleton vol vols).symm

/-- As many picks as there can be, distinct and balanced: of two nodes one gives at most one
volume more, unless the other has given all it has. -/
structure Balanced (zones : List ZoneView) (count : Nat) (picks : List VolumePick) : Prop where
  length : picks.length = min count (allVolumes zones).length
  distinct : (picks.map VolumePick.volumeId).Nodup
  candidates : picks ⊆ allVolumes zones
  even : ∀ n m, ofNode n picks + 1 < ofNode m picks → ofNode n picks = ofNode n (allVolumes zones)

theorem pickLoop_balanced {zones : List ZoneView} (count : Nat)
    (hids : ((allVolumes zones).map VolumePick.volumeId).Nodup) :
    Balanced zones count (pickLoop count ((allVolumes zones).foldl addVolume []) []) := by
  obtain ⟨hperm, hgrouped⟩ := grouped_addVolumes (allVolumes zones)
  have hstart : Even (allVolumes zones) count 0 ((allVolumes zones).foldl addVolume []) [] :=
    ⟨hgrouped, fun p => (Nat.zero_add _).trans (hperm.countP_eq p), Nat.zero_le _,
      fun node => (Nat.zero_min _).symm⟩
  obtain ⟨hlen, hle, k, hk⟩ := hstart.pickLoop
  refine ⟨hlen, ?_, fun v hv => ?_, fun n m hlt => ?_⟩
  · refine nodup_iff_count_le_one.mpr fun id => ?_
    have hone := nodup_iff_count_le_one.mp hids id
    rw [List.count, countP_map] at hone ⊢
    exact (hle _).trans hone
  · exact one_le_count_iff.mp ((one_le_count_iff.mpr hv).trans (hle _))
  · have hn := hk n
    have hm := hk m
    omega

/-- **The picks are as many as there can be, distinct and balanced** exactly if the vector for
the number asked for can be had. -/
theorem stripe_picks_balanced_iff (memory : Nat) (zones : List ZoneView) (count : Nat)
    (hids : ((allVolumes zones).map VolumePick.volumeId).Nodup) (hsome : allVolumes zones ≠ []) :
    (∃ picks, pickForStripeFile memory zones count = some (some picks) ∧
      Balanced zones count picks) ↔ Reserved memory count := by
  have hany : ¬ (allVolumes zones).isEmpty = true := by simpa using hsome
  unfold pickForStripeFile
  by_cases hzero : count = 0
  · subst hzero
    refine iff_of_true ⟨[], if_pos rfl, ⟨by simp, nodup_nil, nil_subset _, fun n m hlt => ?_⟩⟩
      ⟨by simp, by simp⟩
    simp at hlt
  rw [if_neg hzero, if_neg hany]
  dsimp only
  split
  case isTrue hroom => exact iff_of_true ⟨_, rfl, pickLoop_balanced count hids⟩ hroom
  case isFalse hroom => exact iff_of_false (fun ⟨_, h, _⟩ => by cases h) hroom

/-- Three volumes on two nodes. -/
theorem three_volumes_balanced :
    let zones : List ZoneView := [⟨1, [⟨1, "a"⟩, ⟨2, "a"⟩]⟩, ⟨2, [⟨3, "b"⟩]⟩]
    ∃ picks, pickForStripeFile (2 ^ 30) zones 2 = some (some picks) ∧ Balanced zones 2 picks :=
  (stripe_picks_balanced_iff _ _ 2 (by decide) (by simp [allVolumes])).mpr (by decide)

/-- One volume is asked for 2^58 times: the vector would have more than `isize::MAX` bytes. -/
theorem huge_count_panics : pickForStripeFile (2 ^ 64) [⟨1, [⟨1, "a"⟩]⟩] (2 ^ 58) = none := by
  unfold pickForStripeFile
  rw [if_neg (by decide), if_neg (by simp [allVolumes])]
  exact if_neg (by decide)

end PowerFS.Allocator.StripePicks
