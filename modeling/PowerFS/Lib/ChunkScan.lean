import Mathlib

/-! # Scanning a stream that arrives in chunks

A scanner judges the buffered prefix of a stream. Some verdicts are settled: more
input cannot change them. `pull` appends chunks until the verdict is settled or
the chunks run out. The verdict it ends with is the verdict on the whole stream,
however the stream was cut. -/
namespace PowerFS.Lib.ChunkScan

variable {α V : Type} (scan : List α → V) (settled : V → Bool)

/-- Settled verdicts survive any continuation of the input. -/
def Stable : Prop := ∀ a b, settled (scan a) = true → scan (a ++ b) = scan a

/-- Append chunks to the buffer until the verdict is settled. -/
def pull : List α → List (List α) → List α × List (List α)
  | buf, [] => (buf, [])
  | buf, c :: cs => if settled (scan buf) then (buf, c :: cs) else pull (buf ++ c) cs

theorem pull_flatten (buf : List α) (cs : List (List α)) :
    (pull scan settled buf cs).1 ++ (pull scan settled buf cs).2.flatten = buf ++ cs.flatten := by
  fun_induction pull with
  | case1 => simp
  | case2 => rfl
  | case3 buf c cs _ ih => rw [ih]; simp

theorem pull_rest_subset (buf : List α) (cs : List (List α)) :
    ∀ c ∈ (pull scan settled buf cs).2, c ∈ cs := by
  fun_induction pull with
  | case1 | case2 => exact fun _ h => h
  | case3 buf c cs _ ih => exact fun x hx => List.mem_cons_of_mem _ (ih x hx)

/-- If the whole stream leaves the scanner unsettled, everything is pulled. -/
theorem pull_unsettled (hst : Stable scan settled) (buf : List α) (cs : List (List α))
    (h : settled (scan (buf ++ cs.flatten)) = false) :
    pull scan settled buf cs = (buf ++ cs.flatten, []) := by
  fun_induction pull with
  | case1 => simp
  | case2 buf c cs hs =>
    rw [hst buf _ hs, hs] at h
    cases h
  | case3 buf c cs _ ih => simpa using ih (by simpa using h)

/-- **The pulled buffer is judged as the whole stream is.** -/
theorem pull_verdict (hst : Stable scan settled) (buf : List α) (cs : List (List α)) :
    scan (pull scan settled buf cs).1 = scan (buf ++ cs.flatten) := by
  cases h : settled (scan (buf ++ cs.flatten)) with
  | false => rw [pull_unsettled scan settled hst buf cs h]
  | true =>
    clear h
    fun_induction pull with
    | case1 => simp
    | case2 buf c cs hs => exact (hst buf _ hs).symm
    | case3 buf c cs _ ih => simpa using ih

end PowerFS.Lib.ChunkScan
