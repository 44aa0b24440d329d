import Mathlib.Order.Bounds.Basic
import Mathlib.Order.Nat
import Mathlib.Tactic.Linarith
import Mathlib.Tactic.Positivity
import Mathlib.Tactic.GCongr
import Mathlib.Tactic.Ring

/-!
# Growing by a constant step

Something that starts with the size `start` and grows by `step` each time it turns out
too small has the size `size start step k` after `k` growths.  The step may be zero or
negative, so the sizes need not grow at all.

A number of growths is *enough* for `n` if the size then is at least `n`.  If any number is,
there is a least one, and it is the first: up to there nothing was enough, and if there is
anything to grow, the step is positive (`step_pos_of_isLeast_enough`).  So the sizes up to the
least one that is enough only grow.

Conversely, with a step that is not zero the sizes leave the range between 0 and a bound
after at most as many growths as the bound says (`lt_of_size_bounded`).
-/

namespace Growth

/-- The size after `k` growths. -/
def size (start step : Int) (k : Nat) : Int := start + k * step

/-- The numbers of growths that make room for `n`. -/
def enough (start step n : Int) : Set Nat := {k | n ≤ size start step k}

variable {start step n : Int} {j k : Nat}

@[simp] theorem size_zero (start step : Int) : size start step 0 = start := by simp [size]

theorem size_succ (start step : Int) (k : Nat) :
    size start step (k + 1) = size start step k + step := by
  unfold size
  push_cast
  ring

theorem size_mono (hstep : 0 ≤ step) (hjk : j ≤ k) : size start step j ≤ size start step k := by
  unfold size
  gcongr

/-- The least number that is enough is the first one. -/
theorem isLeast_enough_iff : IsLeast (enough start step n) k ↔
    n ≤ size start step k ∧ ∀ j, j < k → size start step j < n := by
  constructor
  · rintro ⟨hmem, hleast⟩
    refine ⟨hmem, fun j hj => ?_⟩
    by_contra hnot
    exact absurd (hleast (not_lt.mp hnot)) (by omega)
  · rintro ⟨hmem, hbefore⟩
    refine ⟨hmem, fun j hj => ?_⟩
    by_contra hnot
    exact absurd hj (not_le.mpr (hbefore j (by omega)))

/-- What is enough at some time is enough for a first time. -/
theorem exists_isLeast_enough (h : n ≤ size start step k) :
    ∃ j, j ≤ k ∧ IsLeast (enough start step n) j := by
  classical
  have hsome : ∃ j, n ≤ size start step j := ⟨k, h⟩
  exact ⟨Nat.find hsome, Nat.find_le h, Nat.isLeast_find hsome⟩

/-- If nothing up to now has been enough, the first number that is lies ahead. -/
theorem le_of_isLeast_enough (hk : IsLeast (enough start step n) k)
    (hbefore : ∀ i, i < j → size start step i < n) : j ≤ k := by
  by_contra hlt
  exact absurd hk.1 (not_le.mpr (hbefore k (by omega)))

/-- Who has to grow has to grow upwards. -/
theorem step_pos_of_isLeast_enough (hk : IsLeast (enough start step n) k) (hpos : 0 < k) :
    0 < step := by
  obtain ⟨hreached, hbefore⟩ := isLeast_enough_iff.mp hk
  have hstart : start < n := by simpa using hbefore 0 hpos
  unfold size at hreached
  by_contra hnot
  have hle : (k : Int) * step ≤ 0 := mul_nonpos_of_nonneg_of_nonpos (by omega) (by omega)
  omega

/-- What changes all the time and stays between zero and a bound changes less often than the
bound says. -/
theorem lt_of_size_bounded {bound : Int} (hstep : step ≠ 0) (hstart : 0 ≤ start)
    (hstart' : start < bound) (hlow : 0 ≤ size start step k) (hhigh : size start step k < bound) :
    (k : Int) < bound := by
  unfold size at hlow hhigh
  rcases lt_or_gt_of_ne hstep with hneg | hpos
  · have hle : (k : Int) * 1 ≤ k * -step := by gcongr; omega
    linarith
  · have hle : (k : Int) * 1 ≤ k * step := by gcongr; omega
    linarith

end Growth
