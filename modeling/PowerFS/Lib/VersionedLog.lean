import Mathlib

/-! # Puts and deletes guarded by version numbers

A cell receives puts and deletes that carry version numbers, in any order. It takes
a record that is newer than the last one it took, except that a delete is taken only
directly after a put. `taken` is the sequence of records a cell takes; it decides
everything that can be observed of the cell. The question answered here is for which
orders of arrival the cell takes what it takes from the log in version order. -/
namespace PowerFS.Lib.VersionedLog
open List

variable {α : Type} (ver : α → Nat) (put : α → Bool)

/-- Whether a cell whose last taken record is `last` takes `x`. -/
def takes (last : Option α) (x : α) : Bool :=
  match last with
  | none => put x
  | some y => decide (ver y < ver x) && (put x || put y)

def takeStep (ts : List α) (x : α) : List α :=
  if takes ver put ts.getLast? x then ts ++ [x] else ts

/-- The records taken from a sequence of arrivals. -/
def taken (xs : List α) : List α := xs.foldl (takeStep ver put) []

theorem taken_concat (xs : List α) (x : α) :
    taken ver put (xs ++ [x]) = takeStep ver put (taken ver put xs) x := by
  simp [taken]

theorem taken_subset (xs : List α) : ∀ x ∈ taken ver put xs, x ∈ xs := by
  induction xs using reverseRecOn with
  | nil => exact fun _ h => h
  | append_singleton xs y ih =>
    intro x hx
    rw [taken_concat, takeStep] at hx
    split at hx
    · obtain hx | hx := mem_append.mp hx
      · exact mem_append_left _ (ih x hx)
      · exact mem_append_right _ hx
    · exact mem_append_left _ (ih x hx)

theorem pairwise_concat_of_last {ts : List α} {x : α} (hts : ts.Pairwise fun a b => ver a < ver b)
    (hx : ∀ y, ts.getLast? = some y → ver y < ver x) :
    (ts ++ [x]).Pairwise fun a b => ver a < ver b := by
  refine pairwise_append.mpr ⟨hts, pairwise_singleton _ _, ?_⟩
  intro a ha b hb
  rw [mem_singleton.mp hb]
  obtain ⟨ts', y, rfl⟩ : ∃ ts' y, ts = ts' ++ [y] :=
    ⟨_, _, (dropLast_concat_getLast (ne_nil_of_mem ha)).symm⟩
  have hy := hx y getLast?_concat
  obtain ha | ha := mem_append.mp ha
  · exact ((pairwise_append.mp hts).2.2 a ha y (by simp)).trans hy
  · rw [mem_singleton.mp ha]; exact hy

/-- Versions only go up. -/
theorem taken_sorted (xs : List α) : (taken ver put xs).Pairwise fun a b => ver a < ver b := by
  induction xs using reverseRecOn with
  | nil => exact List.Pairwise.nil
  | append_singleton xs x ih =>
    rw [taken_concat, takeStep]
    split
    · rename_i ht
      refine pairwise_concat_of_last ver ih ?_
      intro y hy
      rw [hy, takes, Bool.and_eq_true, decide_eq_true_eq] at ht
      exact ht.1
    · exact ih

/-! ## Effective records -/

/-- In the version order of the log, `x` is a put, or a delete directly after a put. -/
def effective (log : List α) (x : α) : Bool :=
  put x || log.any fun d => put d && decide (ver d < ver x) &&
    log.all fun y => !(decide (ver d < ver y) && decide (ver y < ver x))

theorem effective_iff (log : List α) (x : α) : effective ver put log x = true ↔
    put x = true ∨ ∃ d ∈ log, put d = true ∧ ver d < ver x ∧
      ∀ y ∈ log, ver d < ver y → ver x ≤ ver y := by
  simp only [effective, Bool.or_eq_true, any_eq_true, Bool.and_eq_true, decide_eq_true_eq,
    all_eq_true, Bool.not_eq_true', Bool.and_eq_false_iff, decide_eq_false_iff_not, not_lt]
  refine or_congr_right (exists_congr fun d => and_congr_right fun _ => ?_)
  rw [and_assoc]
  refine and_congr_right fun _ => and_congr_right fun _ => forall_congr' fun y => ?_
  refine imp_congr_right fun _ => ?_
  rw [← not_lt, ← imp_iff_not_or]

/-- The arrivals suit the log: every effective record has arrived, the effective ones
in version order, and no other delete arrived while the newest effective record was
an older put. -/
structure Timely (log arr : List α) : Prop where
  complete : ∀ x ∈ log, effective ver put log x = true → x ∈ arr
  ordered : arr.Pairwise fun x y => effective ver put log x = true →
    effective ver put log y = true → ver x < ver y
  idle : ∀ pre x post, arr = pre ++ x :: post → effective ver put log x = false →
    ∀ y, (pre.filter (effective ver put log)).getLast? = some y → put y = true → ver x ≤ ver y

section Criterion

variable {log arr : List α}

/-- At each arrival the cell takes `x` exactly if `x` is effective, given that it has
taken the effective records so far. -/
def Exact (log arr : List α) : Prop :=
  ∀ pre x post, arr = pre ++ x :: post →
    takes ver put (pre.filter (effective ver put log)).getLast? x = effective ver put log x

theorem taken_of_exact (h : Exact ver put log arr) :
    taken ver put arr = arr.filter (effective ver put log) := by
  induction arr using reverseRecOn with
  | nil => rfl
  | append_singleton xs x ih =>
    have hxs : Exact ver put log xs := fun pre y post he =>
      h pre y (post ++ [x]) (by rw [he]; simp)
    have hx := h xs x [] rfl
    rw [taken_concat, ih hxs, takeStep, hx, filter_append]
    cases heff : effective ver put log x with
    | true | false => simp [heff]

/-- An element of `xs ++ [x]` is the last one or an element of `xs`. -/
theorem split_concat {xs pre post : List α} {x y : α} (h : xs ++ [x] = pre ++ y :: post) :
    (pre = xs ∧ y = x ∧ post = []) ∨
    ∃ post', xs = pre ++ y :: post' ∧ post = post' ++ [x] := by
  obtain rfl | ⟨post', z, rfl⟩ := eq_nil_or_concat post
  · obtain ⟨hpre, hy⟩ := append_inj' h rfl
    exact .inl ⟨hpre.symm, (cons.inj hy).1.symm, rfl⟩
  rw [concat_eq_append, ← cons_append, ← append_assoc] at h
  obtain ⟨hxs, hz⟩ := append_inj' h rfl
  rw [(cons.inj hz).1]
  exact .inr ⟨post', hxs, by simp⟩

/-- If exactly the effective arrivals end up taken, each was taken on arrival. -/
theorem exact_of_mem (hnd : arr.Nodup)
    (h : ∀ x ∈ arr, x ∈ taken ver put arr ↔ effective ver put log x = true) :
    Exact ver put log arr := by
  induction arr using reverseRecOn with
  | nil =>
    intro pre x post he
    exact absurd he.symm (by simp)
  | append_singleton xs x ih =>
    obtain ⟨hxs, _, hdis⟩ := nodup_append.mp hnd
    have hnew : x ∉ xs := fun hx => hdis x hx x (by simp) rfl
    have hold : ∀ y ∈ xs, y ∈ taken ver put (xs ++ [x]) ↔ y ∈ taken ver put xs := by
      intro y hy
      have hne : y ≠ x := fun he => hnew (he ▸ hy)
      rw [taken_concat, takeStep]
      split
      · simp [hne]
      · rfl
    have hexact := ih hxs fun y hy => (hold y hy).symm.trans (h y (mem_append_left _ hy))
    have htaken := taken_of_exact ver put hexact
    intro pre y post he
    obtain ⟨rfl, rfl, rfl⟩ | ⟨post', rfl, _⟩ := split_concat he
    · -- the last arrival
      rw [← htaken]
      have hmem := h y (by simp)
      rw [taken_concat, takeStep] at hmem
      cases ht : takes ver put (taken ver put pre).getLast? y with
      | true =>
        rw [ht] at hmem
        exact (hmem.mp (by simp)).symm
      | false =>
        rw [ht] at hmem
        have hno : y ∉ taken ver put pre := fun hy => hnew (taken_subset ver put pre y hy)
        cases heff : effective ver put log y with
        | false => rfl
        | true => exact absurd (hmem.mpr heff) hno
    · exact hexact pre y post' rfl

section

variable (hlog : log.Pairwise fun a b => ver a < ver b)
include hlog

theorem inj_of_sorted {x y : α} (hx : x ∈ log) (hy : y ∈ log) (h : ver x = ver y) : x = y :=
  inj_on_of_nodup_map (pairwise_map.mpr (hlog.imp Nat.ne_of_lt)) hx hy h

omit hlog in
theorem eq_of_sorted {xs ys : List α} (hx : xs.Pairwise fun a b => ver a < ver b)
    (hy : ys.Pairwise fun a b => ver a < ver b) (h : ∀ x, x ∈ xs ↔ x ∈ ys) : xs = ys := by
  have hnd : ∀ {zs : List α}, zs.Pairwise (fun a b => ver a < ver b) → zs.Nodup :=
    fun hz => hz.imp fun hlt he => by rw [he] at hlt; exact Nat.lt_irrefl _ hlt
  refine List.Perm.eq_of_pairwise ?_ hx hy ((perm_ext_iff_of_nodup (hnd hx) (hnd hy)).mpr h)
  intro a b _ _ hab hba
  exact absurd hab (Nat.lt_asymm hba)

theorem exact_of_timely
    (hsub : ∀ x ∈ arr, x ∈ log) (h : Timely ver put log arr) : Exact ver put log arr := by
  intro pre x post he
  have hord := h.ordered
  rw [he, pairwise_append, pairwise_cons] at hord
  obtain ⟨hpre, ⟨hpost, _⟩, hcross⟩ := hord
  cases heff : effective ver put log x with
  | false =>
    have hput : put x = false := by
      cases hp : put x with
      | false => rfl
      | true => rw [(effective_iff ver put log x).mpr (.inl hp)] at heff; cases heff
    cases hlast : (pre.filter (effective ver put log)).getLast? with
    | none => exact hput
    | some y =>
      rw [takes, hput, Bool.false_or, Bool.and_eq_false_iff, decide_eq_false_iff_not, not_lt]
      cases hp : put y with
      | false => exact .inr rfl
      | true => exact .inl (h.idle pre x post he heff y hlast hp)
  | true =>
    have hbelow : ∀ y, (pre.filter (effective ver put log)).getLast? = some y →
        y ∈ pre ∧ effective ver put log y = true ∧ ver y < ver x := by
      intro y hy
      obtain ⟨hyp, hye⟩ := mem_filter.mp (mem_of_getLast? hy)
      exact ⟨hyp, hye, hcross y hyp x (by simp) hye heff⟩
    obtain hp | ⟨d, hd, hpd, hdx, hnext⟩ := (effective_iff ver put log x).mp heff
    · cases hlast : (pre.filter (effective ver put log)).getLast? with
      | none => exact hp
      | some y => simp [takes, hp, (hbelow y hlast).2.2]
    -- the put before the delete has arrived, and nothing newer that is effective has
    have hde : effective ver put log d = true := (effective_iff ver put log d).mpr (.inl hpd)
    have hdpre : d ∈ pre := by
      have harr := h.complete d hd hde
      rw [he] at harr
      obtain hin | hin := mem_append.mp harr
      · exact hin
      obtain rfl | hin := mem_cons.mp hin
      · omega
      · exact absurd (hpost d hin heff hde) (by omega)
    obtain ⟨ys, y, hys⟩ : ∃ ys y, pre.filter (effective ver put log) = ys ++ [y] :=
      ⟨_, _, (dropLast_concat_getLast (ne_nil_of_mem (mem_filter.mpr ⟨hdpre, hde⟩))).symm⟩
    have hlast : (pre.filter (effective ver put log)).getLast? = some y := by
      rw [hys, getLast?_concat]
    obtain ⟨hyp, hye, hyx⟩ := hbelow y hlast
    have hdy : ver d ≤ ver y := by
      have hsorted := pairwise_filter.mpr hpre
      rw [hys, pairwise_append] at hsorted
      have hmem : d ∈ ys ++ [y] := hys ▸ mem_filter.mpr ⟨hdpre, hde⟩
      obtain hin | hin := mem_append.mp hmem
      · exact Nat.le_of_lt (hsorted.2.2 d hin y (by simp))
      · rw [mem_singleton.mp hin]
    have hylog : y ∈ log := hsub y (by rw [he]; simp [hyp])
    have hver : ver d = ver y := by
      by_contra hne
      have := hnext y hylog (by omega)
      omega
    have hyd : d = y := inj_of_sorted ver hlog hd hylog hver
    rw [hlast, takes, ← hyd]
    simp [hdx, hpd]

/-- What directly follows a put in the log is effective. -/
theorem effective_after_put {p q : List α}
    {y z : α} (he : log = p ++ y :: z :: q) (hp : put y = true) :
    effective ver put log z = true := by
  subst he
  rw [pairwise_append, pairwise_cons, pairwise_cons] at hlog
  obtain ⟨_, ⟨hy, hz, _⟩, hcross⟩ := hlog
  refine (effective_iff ver put _ z).mpr (.inr ⟨y, by simp, hp, hy z (by simp), ?_⟩)
  intro w hw hlt
  obtain hw | hw := mem_append.mp hw
  · exact absurd (hcross w hw y (by simp)) (by omega)
  obtain rfl | hw := mem_cons.mp hw
  · omega
  obtain rfl | hw := mem_cons.mp hw
  · exact Nat.le_refl _
  · exact Nat.le_of_lt (hz w hw)

/-- The log itself, in version order, is timely. -/
theorem timely_self : Timely ver put log log := by
  refine ⟨fun x hx _ => hx, hlog.imp fun h _ _ => h, ?_⟩
  intro pre x post he heff y hy hp
  -- the record behind the last effective put is effective: there is no such `x`
  exfalso
  obtain ⟨ys, hys⟩ := getLast?_eq_some_iff.mp hy
  obtain ⟨p, r, rfl, _, hr⟩ := filter_eq_append_iff.mp hys
  obtain ⟨q₁, q, rfl, _, _, hq⟩ := filter_eq_cons_iff.mp hr
  have hidle : ∀ z ∈ q ++ [x], effective ver put log z = false := by
    intro z hz
    obtain hz | hz := mem_append.mp hz
    · have := filter_eq_nil_iff.mp hq z hz
      simpa using this
    · rw [mem_singleton.mp hz]; exact heff
  obtain ⟨z, t, hz, hmem⟩ : ∃ z t, q ++ x :: post = z :: t ∧ z ∈ q ++ [x] := by
    cases q with
    | nil => exact ⟨x, post, rfl, by simp⟩
    | cons z q => exact ⟨z, q ++ x :: post, rfl, by simp⟩
  have hsplit : log = (p ++ q₁) ++ y :: z :: t := by
    rw [he, ← hz]
    simp
  have heffz := effective_after_put ver put hlog hsplit hp
  rw [hidle z hmem] at heffz
  cases heffz

theorem taken_log : taken ver put log = log.filter (effective ver put log) :=
  taken_of_exact ver put (exact_of_timely ver put hlog (fun _ hx => hx) (timely_self ver put hlog))

/-- **The criterion.** From arrivals that are records of the log, each arriving at most
once, the cell takes what it takes from the log exactly if the arrivals are timely. -/
theorem taken_eq_iff (hnd : arr.Nodup) (hsub : ∀ x ∈ arr, x ∈ log) :
    taken ver put arr = taken ver put log ↔ Timely ver put log arr := by
  constructor
  · intro h
    rw [taken_log ver put hlog] at h
    have hmem : ∀ x ∈ arr, x ∈ taken ver put arr ↔ effective ver put log x = true := by
      intro x hx
      rw [h, mem_filter]
      exact ⟨fun hx => hx.2, fun he => ⟨hsub x hx, he⟩⟩
    have hexact := exact_of_mem ver put hnd hmem
    have htaken := taken_of_exact ver put hexact
    refine ⟨?_, ?_, ?_⟩
    · intro x hx he
      exact taken_subset ver put arr x (h ▸ mem_filter.mpr ⟨hx, he⟩)
    · have hsorted := taken_sorted ver put arr
      rw [htaken] at hsorted
      exact pairwise_filter.mp hsorted
    · intro pre x post he heff y hy hp
      have hx := hexact pre x post he
      rw [heff, hy, takes, hp] at hx
      simpa using hx
  · intro h
    have htaken := taken_of_exact ver put (exact_of_timely ver put hlog hsub h)
    have hsorted := taken_sorted ver put arr
    rw [taken_log ver put hlog, htaken] at *
    refine eq_of_sorted ver hsorted (hlog.filter _) ?_
    intro x
    rw [mem_filter, mem_filter]
    exact ⟨fun hx => ⟨hsub x hx.1, hx.2⟩, fun hx => ⟨h.complete x hx.1 hx.2, hx.2⟩⟩

end

end Criterion

/-! ## What is observed of a cell

Behind a put, the record taken before it is superseded. The superseded records and
the last one taken are what can be seen of a cell. -/

/-- `History ts ss`: the cell has taken `ts`, and `ss` are superseded. -/
inductive History : List α → List α → Prop where
  | nil : History [] []
  | first {x : α} : put x = true → History [x] []
  | put {ts ss : List α} {y x : α} : History ts ss → ts.getLast? = some y → ver y < ver x →
      put x = true → History (ts ++ [x]) (ss ++ [y])
  | delete {ts ss : List α} {y x : α} : History ts ss → ts.getLast? = some y → ver y < ver x →
      put y = true → put x = false → History (ts ++ [x]) ss

section Observed

variable {ts ss ts' ss' : List α}

theorem History.puts_length (h : History ver put ts ss) (hne : ts ≠ []) :
    (ts.filter put).length = ss.length + 1 := by
  induction h with
  | nil => exact absurd rfl hne
  | first hp => simp [hp]
  | put h hy hlt hp ih =>
    have hts := ne_nil_of_mem (mem_of_getLast? hy)
    simp [hp, ih hts]
  | delete h hy hlt hpy hpx ih =>
    have hts := ne_nil_of_mem (mem_of_getLast? hy)
    simp [hpx, ih hts]

/-- Two histories with the same puts, the same superseded versions and the same last
version are the same. -/
theorem History.unique (h : History ver put ts ss) (h' : History ver put ts' ss')
    (hinj : ∀ x ∈ ts, ∀ y ∈ ts', ver x = ver y → x = y)
    (hputs : ts.filter put = ts'.filter put) (hss : ss.map ver = ss'.map ver)
    (hlast : ts.getLast?.map ver = ts'.getLast?.map ver) : ts = ts' := by
  induction h generalizing ts' ss' with
  | nil =>
    rw [getLast?_nil, Option.map_none, eq_comm, Option.map_eq_none_iff] at hlast
    exact (getLast?_eq_none_iff.mp hlast).symm
  | @first x hp =>
    cases h' with
    | nil => cases hlast
    | @first x' hp' =>
      rw [hinj x (by simp) x' (by simp) (by simpa using hlast)]
    | put h' hy hlt hp' => simp at hss
    | @delete ts' ss' y x' h' hy hlt hpy hpx =>
      have hx : x = x' := hinj x (by simp) x' (by simp) (by simpa using hlast)
      rw [hx, hpx] at hp
      cases hp
  | @put ts ss y x h hy hlt hp ih =>
    cases h' with
    | nil => simp at hlast
    | first hp' => simp at hss
    | @put ts' ss' y' x' h' hy' hlt' hp' =>
      have hx : x = x' := hinj x (by simp) x' (by simp) (by simpa using hlast)
      subst hx
      simp only [map_append, map_cons, map_nil] at hss
      obtain ⟨hss, hyy⟩ := append_inj' hss rfl
      have hputs' : ts.filter put = ts'.filter put := by simpa [hp] using hputs
      rw [ih h' (fun a ha b hb => hinj a (by simp [ha]) b (by simp [hb])) hputs' hss
        (by rw [hy, hy']; simpa using hyy)]
    | @delete ts' ss' y' x' h' hy' hlt' hpy hpx =>
      have hx : x = x' := hinj x (by simp) x' (by simp) (by simpa using hlast)
      rw [hx, hpx] at hp
      cases hp
  | @delete ts ss y x h hy hlt hpy hpx ih =>
    cases h' with
    | nil => simp at hlast
    | @first x' hp' =>
      have hx : x = x' := hinj x (by simp) x' (by simp) (by simpa using hlast)
      rw [hx, hp'] at hpx
      cases hpx
    | @put ts' ss' y' x' h' hy' hlt' hp' =>
      have hx : x = x' := hinj x (by simp) x' (by simp) (by simpa using hlast)
      rw [hx, hp'] at hpx
      cases hpx
    | @delete ts' ss' y' x' h' hy' hlt' hpy' hpx' =>
      have hx : x = x' := hinj x (by simp) x' (by simp) (by simpa using hlast)
      subst hx
      have hputs' : ts.filter put = ts'.filter put := by simpa [hpx] using hputs
      -- both histories continue from a put, the last one they share
      have hyy : y = y' := by
        obtain ⟨us, rfl⟩ := getLast?_eq_some_iff.mp hy
        obtain ⟨us', rfl⟩ := getLast?_eq_some_iff.mp hy'
        simp only [filter_append, filter_cons, hpy, hpy', if_true, filter_nil] at hputs'
        exact (cons.inj (append_inj' hputs' rfl).2).1
      rw [ih h' (fun a ha b hb => hinj a (by simp [ha]) b (by simp [hb])) hputs' hss
        (by rw [hy, hy', hyy])]

/-- Below the last record taken, the superseded versions go up. -/
theorem History.superseded_sorted (h : History ver put ts ss) :
    ss.Pairwise (fun a b => ver a < ver b) ∧
    ∀ y, ts.getLast? = some y → ∀ x ∈ ss, ver x < ver y := by
  induction h with
  | nil | first => exact ⟨List.Pairwise.nil, fun _ _ _ hx => absurd hx (by simp)⟩
  | @put ts ss y x h hy hlt hp ih =>
    obtain ⟨hsorted, hbelow⟩ := ih
    refine ⟨pairwise_append.mpr ⟨hsorted, pairwise_singleton _ _, ?_⟩, ?_⟩
    · intro a ha b hb
      rw [mem_singleton.mp hb]
      exact hbelow y hy a ha
    · intro z hz w hw
      rw [getLast?_concat] at hz
      cases hz
      obtain hw | hw := mem_append.mp hw
      · exact (hbelow y hy w hw).trans hlt
      · rw [mem_singleton.mp hw]; exact hlt
  | @delete ts ss y x h hy hlt hpy hpx ih =>
    refine ⟨ih.1, ?_⟩
    intro z hz w hw
    rw [getLast?_concat] at hz
    cases hz
    exact (ih.2 y hy w hw).trans hlt

/-- **What is observed of a cell tells what it has taken**, if it is compared with the
cell that has seen the whole log. -/
theorem taken_eq_of_observed {log arr : List α} (hlog : log.Pairwise fun a b => ver a < ver b)
    (hsub : ∀ x ∈ arr, x ∈ log) (h : History ver put (taken ver put arr) ss)
    (h' : History ver put (taken ver put log) ss') (hss : (ss.map ver).Perm (ss'.map ver))
    (hlast : (taken ver put arr).getLast?.map ver = (taken ver put log).getLast?.map ver) :
    taken ver put arr = taken ver put log := by
  have hmem : ∀ x ∈ taken ver put arr, x ∈ log := fun x hx =>
    hsub x (taken_subset ver put arr x hx)
  have hsame : ss.map ver = ss'.map ver := by
    have hs : (ss.map ver).Pairwise (· < ·) := pairwise_map.mpr h.superseded_sorted.1
    have hs' : (ss'.map ver).Pairwise (· < ·) := pairwise_map.mpr h'.superseded_sorted.1
    exact hss.eq_of_pairwise (fun a b _ _ hab hba => absurd hab (Nat.lt_asymm hba)) hs hs'
  refine h.unique ver put h' ?_ ?_ hsame hlast
  · exact fun x hx y hy he =>
      inj_of_sorted ver hlog (hmem x hx) (taken_subset ver put log y hy) he
  · have hnil : taken ver put arr = [] ↔ taken ver put log = [] := by
      rw [← getLast?_eq_none_iff, ← Option.map_eq_none_iff, hlast, Option.map_eq_none_iff,
        getLast?_eq_none_iff]
    by_cases hne : taken ver put arr = []
    · rw [hne, hnil.mp hne]
    · -- as many puts are taken from both, and the log has every put
      have hlen : ((taken ver put log).filter put).length ≤
          ((taken ver put arr).filter put).length := by
        have hcount := congrArg length hsame
        rw [length_map, length_map] at hcount
        rw [h.puts_length ver put hne, h'.puts_length ver put (mt hnil.mpr hne), hcount]
      have hsorted := (taken_sorted ver put arr).filter put
      have hsorted' := (taken_sorted ver put log).filter put
      have hsubset : (taken ver put arr).filter put ⊆ (taken ver put log).filter put := by
        intro x hx
        obtain ⟨hx, hp⟩ := mem_filter.mp hx
        rw [taken_log ver put hlog, mem_filter, mem_filter]
        exact ⟨⟨hmem x hx, (effective_iff ver put log x).mpr (.inl hp)⟩, hp⟩
      have hnd : ((taken ver put arr).filter put).Nodup :=
        hsorted.imp fun hlt he => by rw [he] at hlt; exact Nat.lt_irrefl _ hlt
      have hperm := (subperm_of_subset hnd hsubset).perm_of_length_le hlen
      exact hperm.eq_of_pairwise (fun a b _ _ hab hba => absurd hab (Nat.lt_asymm hba))
        hsorted hsorted'

end Observed

end PowerFS.Lib.VersionedLog
