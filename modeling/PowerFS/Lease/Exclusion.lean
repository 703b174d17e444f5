import PowerFS.Lease.StripeLeases

/-! # Mutual exclusion of leases

A new lease is checked against the leases that the group index lists. Housekeeping
takes expired tokens out of that index while their leases stay in the store for a
grace period, so exclusion rests on one fact: an unexpired lease is listed. Every call
keeps it but a renewal that comes after the expiry, which brings a lease back that the
checks no longer saw. -/
namespace PowerFS.Lease.Exclusion
open Store StripeLeases List MemoryLeaseStore

variable {K : Type} [LeaseKey K]

/-- `now` is not before any reading made so far. -/
def Past [Env] (ticks now : Nat) : Prop := ∀ i, i < ticks → clock i ≤ now

variable {m now n' g g' : Nat} {e entry : LeaseEntry K} {t : LeaseToken}

theorem Past.earlier [Env] {n : Nat} (h : Past n now) (hmn : m ≤ n) : Past m now :=
  fun i hi => h i (Nat.lt_of_lt_of_le hi hmn)

theorem Past.reading [Env] (hmono : Monotone clock) (n : Nat) : Past n (clock n) :=
  fun _ hi => hmono (Nat.le_of_lt hi)

variable (K) in
/-- Within a group it does not matter which of two keys is asked. -/
def SymmetricConflicts : Prop :=
  ∀ a b : K, LeaseKey.groupId a = LeaseKey.groupId b →
    LeaseKey.conflicts a b = LeaseKey.conflicts b a

/-- Two leases that may not be held at once. -/
def Clash (a b : LeaseEntry K) : Prop :=
  a.holder ≠ b.holder ∧ LeaseKey.groupId a.key = LeaseKey.groupId b.key ∧
  LeaseKey.conflicts a.key b.key = true ∧
  (a.mode.isExclusive || b.mode.isExclusive) = true

/-- **No two unexpired leases clash.** -/
def Exclusive (s : MemoryLeaseStore K) (now : Nat) : Prop :=
  ∀ t₁ e₁ t₂ e₂, s.leases.lookup t₁ = some e₁ → s.leases.lookup t₂ = some e₂ →
    e₁.isExpired now = false → e₂.isExpired now = false → ¬ Clash e₁ e₂

def Listed (s : MemoryLeaseStore K) (now : Nat) : Prop :=
  ∀ t e, s.leases.lookup t = some e → e.isExpired now = false →
    t ∈ tokensOf s.groupIndex (LeaseKey.groupId e.key)

/-- Unexpired leases are listed and exclude each other, and every lease is on a key that may
be asked for. -/
structure Sound [Env] (P : K → Prop) (s : MemoryLeaseStore K) : Prop where
  listed : ∀ now, Past s.ticks now → Listed s now
  exclusive : ∀ now, Past s.ticks now → Exclusive s now
  keys : ∀ t e, s.leases.lookup t = some e → P e.key

variable {P : K → Prop}

omit [LeaseKey K] in
theorem isExpired_later {a b : Nat} (h : e.isExpired b = false) (hab : a ≤ b) :
    e.isExpired a = false := by
  unfold LeaseEntry.isExpired at h ⊢
  rw [decide_eq_false_iff_not] at h ⊢
  omega

theorem Sound.wait [Env] {s : MemoryLeaseStore K} (h : Sound P s) {n : Nat} (hn : s.ticks ≤ n)
    (epoch : Nat) : Sound P { s with ticks := n, epochCounter := epoch } :=
  ⟨fun now hnow => h.listed now (hnow.earlier hn),
    fun now hnow => h.exclusive now (hnow.earlier hn), h.keys⟩

/-! ## Granting -/

section Grant

variable {leases : Map LeaseToken (LeaseEntry K)} {key : K}
  {holder : String} {mode : LeaseMode}

variable {tokens : List LeaseToken}

theorem findConflict_le [Env] {n : Nat} {found : Option (LeaseEntry K)}
    (h : findConflict leases key holder mode tokens n = (found, n')) : n ≤ n' := by
  fun_induction findConflict with
  | case1 =>
    cases h
    exact Nat.le_refl _
  | case2 _ _ _ _ ih => exact ih h
  | case3 _ _ _ _ _ _ ih | case4 _ _ _ _ _ _ _ ih | case6 _ _ _ _ _ _ _ _ ih =>
    exact Nat.le_of_succ_le (ih h)
  | case5 =>
    cases h
    exact Nat.le_succ _

/-- A check that finds nothing: whoever stands in the way had expired by then. -/
theorem findConflict_clear [Env] {n : Nat}
    (h : findConflict leases key holder mode tokens n = (none, n')) :
    ∀ t ∈ tokens, ∀ e, leases.lookup t = some e → e.holder ≠ holder →
      ((e.mode.isExclusive || mode.isExclusive) && LeaseKey.conflicts e.key key) = true →
      ∃ i, i < n' ∧ e.isExpired (clock i) = true := by
  fun_induction findConflict with
  | case1 => exact forall_mem_nil _
  | case2 _ _ _ hl ih =>
    refine forall_mem_cons.mpr ⟨fun e he => ?_, ih h⟩
    rw [hl] at he
    cases he
  | case3 _ _ n _ hl hexp ih =>
    refine forall_mem_cons.mpr ⟨fun e he _ _ => ?_, ih h⟩
    obtain rfl := Option.some.inj (hl.symm.trans he)
    exact ⟨n, findConflict_le h, hexp⟩
  | case4 _ _ _ _ hl _ hmine ih =>
    refine forall_mem_cons.mpr ⟨fun e he hother => ?_, ih h⟩
    obtain rfl := Option.some.inj (hl.symm.trans he)
    exact absurd hmine hother
  | case5 => cases h
  | case6 _ _ _ _ hl _ _ hfree ih =>
    refine forall_mem_cons.mpr ⟨fun e he _ hc => ?_, ih h⟩
    obtain rfl := Option.some.inj (hl.symm.trans he)
    exact absurd hc hfree

omit [LeaseKey K] in
/-- Housekeeping keeps every token whose lease has not expired. -/
theorem retainUnexpired_keeps [Env] {n : Nat} :
    n ≤ (retainUnexpired leases tokens n).2 ∧
    ∀ now, Past (retainUnexpired leases tokens n).2 now →
      ∀ t ∈ tokens, ∀ e, leases.lookup t = some e → e.isExpired now = false →
        t ∈ (retainUnexpired leases tokens n).1 := by
  fun_induction retainUnexpired with
  | case1 => exact ⟨Nat.le_refl _, fun _ _ => forall_mem_nil _⟩
  | case2 _ _ _ hl ih =>
    refine ⟨ih.1, fun now hnow => forall_mem_cons.mpr ⟨fun e he => ?_, ih.2 now hnow⟩⟩
    rw [hl] at he
    cases he
  | case3 _ _ n _ hl _ hgone ih =>
    refine ⟨Nat.le_of_succ_le ih.1, fun now hnow =>
      forall_mem_cons.mpr ⟨fun e he hexp => ?_, ih.2 now hnow⟩⟩
    -- expired at this reading, so expired ever after
    obtain rfl := Option.some.inj (hl.symm.trans he)
    rw [isExpired_later hexp (hnow n ih.1)] at hgone
    cases hgone
  | case4 _ _ _ _ _ _ _ ih =>
    refine ⟨Nat.le_of_succ_le ih.1, fun now hnow =>
      forall_mem_cons.mpr ⟨fun _ _ _ => mem_cons_self, fun t ht e he hexp => ?_⟩⟩
    exact mem_cons_of_mem _ (ih.2 now hnow t ht e he hexp)

end Grant

theorem tokensOf_insert_self (index : Map Nat (List LeaseToken)) (g : Nat)
    (tokens : List LeaseToken) : tokensOf (index.insert g tokens) g = tokens := by
  simp [tokensOf]

theorem tokensOf_insert_ne (index : Map Nat (List LeaseToken)) (h : g' ≠ g)
    (tokens : List LeaseToken) : tokensOf (index.insert g tokens) g' = tokensOf index g' := by
  simp [tokensOf, AList.lookup_insert_ne h]

omit [LeaseKey K] in
theorem lookup_insert_some {leases : Map LeaseToken (LeaseEntry K)} {token : LeaseToken}
    (he : (leases.insert token entry).lookup t = some e) :
    t = token ∧ e = entry ∨ t ≠ token ∧ leases.lookup t = some e := by
  by_cases ht : t = token
  · subst ht
    rw [AList.lookup_insert] at he
    exact .inl ⟨rfl, (Option.some.inj he).symm⟩
  · rw [AList.lookup_insert_ne ht] at he
    exact .inr ⟨ht, he⟩

/-- The entry clashes with no lease that is unexpired after `ticks` readings. -/
def Clear [Env] (ticks : Nat) (leases : Map LeaseToken (LeaseEntry K))
    (entry : LeaseEntry K) : Prop :=
  ∀ now, Past ticks now → ∀ t e, leases.lookup t = some e → e.isExpired now = false →
    ¬ Clash e entry

/-- **A clear entry may be granted.** -/
theorem Sound.granted [Env] (hsymm : SymmetricConflicts K) {s : MemoryLeaseStore K} (h : Sound P s)
    (hkey : P entry.key) (hclear : Clear s.ticks s.leases entry) :
    Sound P (grant s entry) := by
  have hturn : ∀ {a b : LeaseEntry K}, Clash a b → Clash b a := by
    rintro a b ⟨hh, hg, hc, hm⟩
    exact ⟨hh.symm, hg.symm, by rw [← hsymm _ _ hg]; exact hc, by rw [Bool.or_comm]; exact hm⟩
  constructor
  · intro now hnow t e he hexp
    change t ∈ tokensOf (pushToken s.groupIndex (LeaseKey.groupId entry.key) entry.token)
      (LeaseKey.groupId e.key)
    unfold pushToken
    rcases lookup_insert_some he with ⟨rfl, rfl⟩ | ⟨-, hold⟩
    · rw [tokensOf_insert_self]
      simp
    have hin := h.listed now hnow t e hold hexp
    by_cases hg : LeaseKey.groupId e.key = LeaseKey.groupId entry.key
    · rw [hg, tokensOf_insert_self]
      exact mem_append_left _ (hg ▸ hin)
    · rwa [tokensOf_insert_ne _ hg]
  · intro now hnow t₁ e₁ t₂ e₂ h₁ h₂ hx₁ hx₂ hclash
    rcases lookup_insert_some h₁ with ⟨-, hnew₁⟩ | ⟨-, hold₁⟩
    · rcases lookup_insert_some h₂ with ⟨-, hnew₂⟩ | ⟨-, hold₂⟩
      · rw [hnew₁, hnew₂] at hclash
        exact hclash.1 rfl
      · rw [hnew₁] at hclash
        exact hclear now hnow t₂ e₂ hold₂ hx₂ (hturn hclash)
    · rcases lookup_insert_some h₂ with ⟨-, hnew₂⟩ | ⟨-, hold₂⟩
      · rw [hnew₂] at hclash
        exact hclear now hnow t₁ e₁ hold₁ hx₁ hclash
      · exact h.exclusive now hnow t₁ e₁ t₂ e₂ hold₁ hold₂ hx₁ hx₂ hclash
  · intro t e he
    rcases lookup_insert_some he with ⟨-, rfl⟩ | ⟨-, hold⟩
    · exact hkey
    · exact h.keys t e hold

section Requests

variable {s : MemoryLeaseStore K}

variable {holder : String} {n : Nat} {token : LeaseToken}

/-- What a check establishes about the entry it is made for. -/
theorem Sound.clear [Env] (h : Sound P s) {key : K} {mode : LeaseMode} (hn : s.ticks ≤ n')
    (hcheck : findConflict s.leases key holder mode
      (tokensOf s.groupIndex (LeaseKey.groupId key)) n = (none, n')) (now duration epoch : Nat) :
    Clear n' s.leases (newEntry key holder mode now duration epoch) := by
  rintro now hnow t e he hexp ⟨hh, hg, hc, hm⟩
  have hin := h.listed now (hnow.earlier hn) t e he hexp
  rw [hg] at hin
  obtain ⟨i, hi, hgone⟩ := findConflict_clear hcheck t hin e he hh
    (by rw [Bool.and_eq_true]; exact ⟨hm, hc⟩)
  rw [isExpired_later hexp (hnow i hi)] at hgone
  cases hgone

/-- Housekeeping of one group. -/
theorem Sound.pruned [Env] (h : Sound P s) (hn : s.ticks ≤ n) (epoch : Nat) :
    Sound P
      { s with
        groupIndex := match s.groupIndex.lookup g with
          | some _ => s.groupIndex.insert g (retainUnexpired s.leases (tokensOf s.groupIndex g) n).1
          | none => s.groupIndex
        epochCounter := epoch
        ticks := (retainUnexpired s.leases (tokensOf s.groupIndex g) n).2 } := by
  obtain ⟨hle, hkeep⟩ :=
    @retainUnexpired_keeps K s.leases (tokensOf s.groupIndex g) _ n
  refine ⟨fun now hnow t e he hexp => ?_,
    fun now hnow => h.exclusive now (hnow.earlier (Nat.le_trans hn hle)), h.keys⟩
  have hin := h.listed now (hnow.earlier (Nat.le_trans hn hle)) t e he hexp
  cases s.groupIndex.lookup g with
  | none => exact hin
  | some ts =>
    by_cases hg : LeaseKey.groupId e.key = g
    · subst hg
      rw [tokensOf_insert_self]
      exact hkeep now hnow t hin e he hexp
    · rwa [tokensOf_insert_ne _ hg]

theorem Clear.later [Env] {leases : Map LeaseToken (LeaseEntry K)} (h : Clear m leases entry)
    (hmn : m ≤ n) : Clear n leases entry :=
  fun now hnow => h now (hnow.earlier hmn)

theorem acquire_sound [Env] (hsymm : SymmetricConflicts K) (h : Sound P s) {key : K}
    (hkey : P key) (holder : String) (mode : LeaseMode) (duration : Nat) :
    Sound P (acquire s key holder mode duration).1 := by
  fun_cases acquire with
  | case1 _ _ _ _ hcheck =>
    exact h.wait (Nat.le_of_succ_le (findConflict_le hcheck)) s.epochCounter
  | case2 _ _ _ _ hcheck =>
    have hlater := Nat.le_of_succ_le (findConflict_le hcheck)
    refine Sound.granted hsymm (h.pruned hlater _) hkey ?_
    exact (h.clear hlater hcheck (clock s.ticks) duration s.epochCounter).later
      retainUnexpired_keeps.1

variable {duration epoch epoch' : Nat} {keys : List K} {pending : List (LeaseEntry K)}

theorem checkBatch_le [Env] {mode : LeaseMode} {r : Except LeaseError (List (LeaseEntry K))}
    (h : checkBatch s holder mode now duration keys pending n epoch = (r, n', epoch')) :
    n ≤ n' := by
  fun_induction checkBatch with
  | case1 =>
    cases h
    exact Nat.le_refl _
  | case2 _ _ _ _ _ _ _ _ hcheck | case3 _ _ _ _ _ _ _ hcheck =>
    cases h
    exact findConflict_le hcheck
  | case4 _ _ _ _ _ _ _ hcheck _ ih => exact Nat.le_trans (findConflict_le hcheck) (ih h)

/-- The entries of a batch that passes its checks are of one holder and clear, and on keys of
the batch. -/
theorem Sound.checkBatch [Env] (h : Sound P s) {mode : LeaseMode} {out : List (LeaseEntry K)}
    (hn : s.ticks ≤ n) (hkeys : ∀ k ∈ keys, P k)
    (hpending : ∀ p ∈ pending, P p.key ∧ p.holder = holder ∧ Clear n s.leases p)
    (hcheck : checkBatch s holder mode now duration keys pending n epoch =
      (.ok out, n', epoch')) :
    ∀ p ∈ out, P p.key ∧ p.holder = holder ∧ Clear n' s.leases p := by
  fun_induction Store.checkBatch with
  | case1 =>
    cases hcheck
    exact hpending
  | case2 | case3 => cases hcheck
  | case4 _ _ _ _ epoch _ _ hfree _ ih =>
    have hticks := findConflict_le hfree
    obtain ⟨hkey, hrest⟩ := forall_mem_cons.mp hkeys
    refine ih (Nat.le_trans hn hticks) hrest (forall_mem_append.mpr ⟨fun p hp => ?_,
      forall_mem_singleton.mpr ⟨hkey, rfl, ?_⟩⟩) hcheck
    · exact (hpending p hp).imp_right (.imp_right (·.later hticks))
    · exact h.clear (Nat.le_trans hn hticks) hfree now duration epoch

/-- Entries of one holder do not stand in each other's way. -/
theorem Sound.grantedAll [Env] (hsymm : SymmetricConflicts K) (h : Sound P s)
    (hpending : ∀ p ∈ pending, P p.key ∧ p.holder = holder ∧ Clear s.ticks s.leases p) :
    Sound P (pending.foldl grant s) := by
  induction pending generalizing s with
  | nil => exact h
  | cons p pending ih =>
    obtain ⟨hkey, hholder, hclear⟩ := hpending p (by simp)
    refine ih (h.granted hsymm hkey hclear) fun q hq => ?_
    obtain ⟨hqkey, hq', hqclear⟩ := hpending q (by simp [hq])
    refine ⟨hqkey, hq', fun now hnow t e he hexp hclash => ?_⟩
    rcases lookup_insert_some he with ⟨rfl, rfl⟩ | ⟨-, hold⟩
    · exact hclash.1 (hholder.trans hq'.symm)
    · exact hqclear now hnow t e hold hexp hclash

theorem acquireBatch_sound [Env] (hsymm : SymmetricConflicts K) (h : Sound P s)
    (hkeys : ∀ k ∈ keys, P k) (holder : String) (mode : LeaseMode) (duration : Nat) :
    Sound P (acquireBatch s keys holder mode duration).1 := by
  fun_cases acquireBatch with
  | case1 => exact h
  | case2 _ _ _ _ epoch hcheck => exact h.wait (Nat.le_of_succ_le (checkBatch_le hcheck)) epoch
  | case3 _ _ _ _ epoch hcheck =>
    exact (h.wait (Nat.le_of_succ_le (checkBatch_le hcheck)) epoch).grantedAll hsymm
      (h.checkBatch (Nat.le_succ _) hkeys (forall_mem_nil _) hcheck)

/-- The renewal comes while its lease, if there is one, has not expired. -/
def InTime [Env] (s : MemoryLeaseStore K) : Request K → Prop
  | .renew token holder _ => ∀ e, s.leases.lookup token = some e → e.holder = holder →
      e.isExpired (clock s.ticks) = false
  | _ => True

theorem renew_sound [Env] (hmono : Monotone clock) (h : Sound P s)
    (hin : InTime s (.renew token holder duration)) :
    Sound P (renew s token holder duration).1 := by
  fun_cases renew with
  | case1 | case2 => exact h
  | case3 entry hl hsame =>
    have hnow₀ := Past.reading hmono s.ticks
    have hlive := hin entry hl (not_not.mp hsame)
    -- at the reading of the renewal the new entry stands for the old one
    have hfind : ∀ {now t e}, Past (s.ticks + 1) now →
        (s.leases.insert token { entry with
          expireAt := clock s.ticks + duration, epoch := s.epochCounter }).lookup t = some e →
        e.isExpired now = false → ∃ e₀, s.leases.lookup t = some e₀ ∧
          e₀.isExpired (clock s.ticks) = false ∧ e.key = e₀.key ∧ e.holder = e₀.holder ∧
          e.mode = e₀.mode := by
      intro now t e hnow he hexp
      rcases lookup_insert_some he with ⟨rfl, rfl⟩ | ⟨-, hold⟩
      · exact ⟨entry, hl, hlive, rfl, rfl, rfl⟩
      · exact ⟨e, hold, isExpired_later hexp (hnow s.ticks (Nat.lt_succ_self _)), rfl, rfl, rfl⟩
    constructor
    · intro now hnow t e he hexp
      obtain ⟨e₀, he₀, hexp₀, hkey, -, -⟩ := hfind hnow he hexp
      have hlisted := h.listed _ hnow₀ t e₀ he₀ hexp₀
      rwa [hkey]
    · rintro now hnow t₁ e₁ t₂ e₂ h₁ h₂ hx₁ hx₂ ⟨hh, hg, hc, hm⟩
      obtain ⟨a, ha, hxa, hka, hha, hma⟩ := hfind hnow h₁ hx₁
      obtain ⟨b, hb, hxb, hkb, hhb, hmb⟩ := hfind hnow h₂ hx₂
      rw [hka, hkb] at hg hc
      rw [hha, hhb] at hh
      rw [hma, hmb] at hm
      exact h.exclusive _ hnow₀ t₁ a t₂ b ha hb hxa hxb ⟨hh, hg, hc, hm⟩
    · intro t e he
      rcases lookup_insert_some he with ⟨-, rfl⟩ | ⟨-, hold⟩
      · exact h.keys token entry hl
      · exact h.keys t e hold

/-! ## Removing -/

/-- Leases that go take at most their own tokens out of the index. -/
theorem Sound.removed [Env] (h : Sound P s) {s' : MemoryLeaseStore K}
    (hleases : s'.leases = s.leases.erase token) (hticks : s.ticks ≤ s'.ticks)
    (hindex : ∀ g t, t ≠ token → t ∈ tokensOf s.groupIndex g → t ∈ tokensOf s'.groupIndex g) :
    Sound P s' := by
  have hfind : ∀ {t e}, s'.leases.lookup t = some e →
      t ≠ token ∧ s.leases.lookup t = some e := by
    intro t e he
    rw [hleases] at he
    by_cases ht : t = token
    · subst ht
      rw [AList.lookup_erase] at he
      cases he
    · rw [AList.lookup_erase_ne ht] at he
      exact ⟨ht, he⟩
  constructor
  · intro now hnow t e he hexp
    obtain ⟨hne, hold⟩ := hfind he
    exact hindex _ t hne (h.listed now (hnow.earlier hticks) t e hold hexp)
  · intro now hnow t₁ e₁ t₂ e₂ h₁ h₂ hx₁ hx₂
    exact h.exclusive now (hnow.earlier hticks) t₁ e₁ t₂ e₂ (hfind h₁).2 (hfind h₂).2 hx₁ hx₂
  · exact fun t e he => h.keys t e (hfind he).2

theorem dropToken_keeps (index : Map Nat (List LeaseToken)) (g : Nat) (hne : t ≠ token)
    (hin : t ∈ tokensOf index g') :
    t ∈ tokensOf (dropToken index g token) g' := by
  fun_cases dropToken with
  | case1 => exact hin
  | case2 tokens hl =>
    by_cases hg : g' = g
    · subst hg
      rw [tokensOf_insert_self]
      simp only [tokensOf, hl, Option.getD_some] at hin
      exact mem_filter.mpr ⟨hin, by simpa using hne⟩
    · rwa [tokensOf_insert_ne _ hg]

theorem dropGroupToken_keeps (index : Map Nat (List LeaseToken)) (g : Nat) (hne : t ≠ token)
    (hin : t ∈ tokensOf index g') :
    t ∈ tokensOf (dropGroupToken index g token) g' := by
  unfold dropGroupToken
  cases hl : index.lookup g with
  | none => exact hin
  | some tokens =>
    dsimp only
    by_cases hg : g' = g
    · subst hg
      have hleft : t ∈ tokens.filter (· ≠ token) := by
        simp only [tokensOf, hl, Option.getD_some] at hin
        exact List.mem_filter.mpr ⟨hin, by simpa using hne⟩
      rw [if_neg (by rw [List.isEmpty_iff]; exact List.ne_nil_of_mem hleft), tokensOf_insert_self]
      exact hleft
    · split
      · simpa [tokensOf, AList.lookup_erase_ne hg] using hin
      · rwa [tokensOf_insert_ne _ hg]

section

variable [Env] (h : Sound P s) (token : LeaseToken)
include h

theorem release_sound (holder : String) : Sound P (release s token holder).1 := by
  fun_cases release with
  | case1 | case2 => exact h
  | case3 => exact h.removed rfl (Nat.le_refl _) fun g t hne hin => dropToken_keeps _ _ hne hin

theorem removeLease_sound : Sound P (removeLease s token) := by
  fun_cases removeLease with
  | case1 => exact h
  | case2 =>
    exact h.removed rfl (Nat.le_refl _) fun g t hne hin => dropGroupToken_keeps _ _ hne hin

theorem expireLease_sound : Sound P (expireLease s token) := by
  have hremoved := removeLease_sound h token
  fun_cases expireLease with
  | case1 => exact h
  | case2 => exact ⟨hremoved.listed, hremoved.exclusive, hremoved.keys⟩

end

theorem foldl_sound [Env] {f : MemoryLeaseStore K → LeaseToken → MemoryLeaseStore K}
    (hf : ∀ {s : MemoryLeaseStore K}, Sound P s → ∀ t, Sound P (f s t))
    (tokens : List LeaseToken) (h : Sound P s) : Sound P (tokens.foldl f s) := by
  induction tokens generalizing s with
  | nil => exact h
  | cons t tokens ih => exact ih (hf h t)

theorem disconnectHolder_sound [Env] (h : Sound P s) (holder : String) :
    Sound P (disconnectHolder s holder).1 := by
  have hremoved : Sound P (((s.holderIndex.lookup holder).getD []).foldl removeLease s) :=
    foldl_sound (fun h t => removeLease_sound h t) _ h
  exact ⟨hremoved.listed, hremoved.exclusive, hremoved.keys⟩

theorem cleanupExpired_sound [Env] (h : Sound P s) : Sound P (cleanupExpired s).1 :=
  foldl_sound (fun h t => expireLease_sound h t) _ (h.wait (Nat.le_succ _) s.epochCounter)

/-! ## Runs -/

/-- The keys that a request asks for. -/
def keysAsked : Request K → List K
  | .acquire key _ _ _ => [key]
  | .acquireBatch keys _ _ _ => keys
  | _ => []

/-- One request. -/
theorem handle_sound [Env] (hsymm : SymmetricConflicts K) (hmono : Monotone clock)
    (h : Sound P s) {r : Request K} (hin : InTime s r)
    (hkeys : ∀ k ∈ keysAsked r, P k) :
    Sound P (handle s r) := by
  cases r with
  | acquire key holder mode duration =>
    exact acquire_sound hsymm h (forall_mem_singleton.mp hkeys) holder mode duration
  | acquireBatch keys holder mode duration =>
    exact acquireBatch_sound hsymm h hkeys holder mode duration
  | renew token holder duration => exact renew_sound hmono h hin
  | release token holder => exact release_sound h token holder
  | disconnectHolder holder => exact disconnectHolder_sound h holder
  | cleanupExpired => exact cleanupExpired_sound h

/-- Every renewal of the run comes in time. -/
def AllInTime [Env] (s : MemoryLeaseStore K) : List (Request K) → Prop
  | [] => True
  | r :: rest => InTime s r ∧ AllInTime (handle s r) rest

theorem serve_sound [Env] (hsymm : SymmetricConflicts K) (hmono : Monotone clock)
    {requests : List (Request K)} (h : Sound (fun _ => True) s)
    (hin : AllInTime s requests) : Sound (fun _ => True) (serve s requests) := by
  induction requests generalizing s with
  | nil => exact h
  | cons r rest ih => exact ih (handle_sound hsymm hmono h hin.1 fun _ _ => trivial) hin.2

theorem new_sound [Env] (cleanupGrace : Nat) : Sound P (new cleanupGrace : MemoryLeaseStore K) where
  listed := by
    intro now _ t e he
    cases he
  exclusive := by
    intro now _ t₁ e₁ t₂ e₂ h₁
    cases h₁
  keys := by
    intro t e he
    cases he

end Requests

/-- **Leases exclude each other** in every run in which no lease is renewed after it
has expired: at no time from the last reading of the clock on are there two unexpired
leases that clash. -/
theorem lease_exclusion [Env] (hsymm : SymmetricConflicts K)
    (hmono : Monotone clock) (cleanupGrace : Nat) (requests : List (Request K))
    (hin : AllInTime (MemoryLeaseStore.new cleanupGrace) requests) (now : Nat)
    (hnow : Past (serve (MemoryLeaseStore.new cleanupGrace) requests).ticks now) :
    Exclusive (serve (MemoryLeaseStore.new cleanupGrace) requests) now :=
  (serve_sound hsymm hmono (new_sound cleanupGrace) hin).exclusive now hnow

/-- A client takes stripes 0 to 3 of inode 1 and renews in time; another client takes
stripes 4 to 7. -/
def neighbours : List (Request StripeWords) :=
  [.acquire ⟨1, 0, 4⟩ "a" .exclusive 10, .renew ⟨0, 0⟩ "a" 10, .acquire ⟨1, 4, 4⟩ "b" .exclusive 10]

section

local instance : Env := ⟨id, fun _ => 0⟩

theorem neighbours_exclusive : Exclusive (serve (MemoryLeaseStore.new 5000) neighbours) 6 := by
  refine lease_exclusion (fun a b _ => a.conflicts_comm b) monotone_id 5000
    neighbours ⟨trivial, ?_, trivial, trivial⟩ 6 ?_
  · intro e he _
    obtain rfl : (⟨⟨1, 0, 4⟩, "a", ⟨0, 0⟩, .exclusive, 0, 10, 0⟩ : LeaseEntry StripeWords) = e :=
      Option.some.inj he
    rfl
  · intro i hi
    have hticks : (serve (new 5000) neighbours).ticks = 5 := rfl
    rw [hticks] at hi
    show i ≤ 6
    omega

end

/-- The lease of the first client expires, another client takes the same stripes, and
then the first one renews. -/
def lateRenewal : List (Request StripeWords) :=
  [.acquire ⟨1, 0, 4⟩ "a" .exclusive 5, .acquire ⟨1, 0, 4⟩ "b" .exclusive 100,
    .renew ⟨0, 0⟩ "a" 100]

local instance : Env := ⟨(10 * ·), fun _ => 0⟩

/-- Both clients then hold the stripes exclusively. -/
theorem lateRenewal_not_exclusive :
    Past (serve (MemoryLeaseStore.new 5000) lateRenewal).ticks 50 ∧
    ¬ Exclusive (serve (MemoryLeaseStore.new 5000) lateRenewal) 50 := by
  refine ⟨fun i hi => ?_, fun hex => ?_⟩
  · have hticks :
        (serve (new 5000) lateRenewal).ticks = 5 := rfl
    rw [hticks] at hi
    show 10 * i ≤ 50
    omega
  · refine hex ⟨0, 0⟩ ⟨⟨1, 0, 4⟩, "a", ⟨0, 0⟩, .exclusive, 0, 140, 2⟩ ⟨1, 0⟩
      ⟨⟨1, 0, 4⟩, "b", ⟨1, 0⟩, .exclusive, 10, 110, 1⟩ rfl rfl rfl rfl ⟨?_, rfl, rfl, rfl⟩
    decide

end PowerFS.Lease.Exclusion
