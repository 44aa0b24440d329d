import Mathlib.Data.ENat.Lattice
import CamelMsmq.QueueSpec

/-!
# The retries of `open`

`open` makes a first attempt outside its loop, and in the loop another one as long as the
last was answered with `MQ_ERROR_QUEUE_NOT_FOUND`, at most 120 times.  The answer that ends
the loop decides alone how `open` ends.

The answers are a sequence without end, of which `open` looks at a beginning.  Their number
is said with the length of the longest beginning in which the queue is never found
(`last_eq_min`), which may be infinite: then the loop ends by its own count, after 121
attempts in all.

`open_attempts` adds the rest: the handle and the flag on each way out, and that a failure
closes the handle that the object had before, open or not.
-/

namespace Msmq

/-- How many answers at the head of a sequence are `MQ_ERROR_QUEUE_NOT_FOUND`. -/
noncomputable def leadingNotFound (attempt : Nat → Hresult × Handle) : ℕ∞ :=
  ⨅ i, ⨅ _ : (attempt i).1 ≠ mqErrorQueueNotFound, (i : ℕ∞)

variable {attempt : Nat → Hresult × Handle}

/-- The number is at least `n` exactly if the first `n` answers are that the queue is not found.
This determines it, infinite or not. -/
theorem le_leadingNotFound_iff {n : Nat} :
    (n : ℕ∞) ≤ leadingNotFound attempt ↔ ∀ i, i < n → (attempt i).1 = mqErrorQueueNotFound := by
  simp only [leadingNotFound, le_iInf_iff, Nat.cast_le]
  constructor
  · intro h i hi
    by_contra hne
    exact absurd (h i hne) (Nat.not_le_of_lt hi)
  · intro h i hne
    exact Nat.le_of_not_lt fun hi => hne (h i hi)

namespace OpenAnswers

/-- If the retries are not used up, the last answer was another one. -/
theorem last_cases (a : OpenAnswers) :
    a.last = 120 ∨ (a.last < 120 ∧ (a.attempt a.last).1 ≠ mqErrorQueueNotFound) := by
  unfold last
  cases hfind : (List.range 120).find? fun i => (a.attempt i).1 ≠ mqErrorQueueNotFound with
  | none => exact .inl rfl
  | some k =>
      obtain ⟨hne, hk, -⟩ := List.find?_range_eq_some.mp hfind
      exact .inr ⟨by simpa using hk, by simpa using hne⟩

/-- **How often `open` tries again.**  The loop stops at the first answer that is not
`MQ_ERROR_QUEUE_NOT_FOUND`, and after 120 retries if there is none by then. -/
theorem last_eq_min (a : OpenAnswers) : (a.last : ℕ∞) = min 120 (leadingNotFound a.attempt) := by
  have hle : (a.last : ℕ∞) ≤ leadingNotFound a.attempt :=
    le_leadingNotFound_iff.mpr fun i hi => a.attempt_of_lt_last hi
  rcases a.last_cases with hused | ⟨hlt, hne⟩
  · rw [hused] at hle ⊢
    exact (min_eq_left hle).symm
  · have hge : leadingNotFound a.attempt ≤ a.last := iInf₂_le a.last hne
    have hbound : (a.last : ℕ∞) ≤ 120 := by exact_mod_cast hlt.le
    rw [le_antisymm hge hle, min_eq_right hbound]

end OpenAnswers

namespace MsmqQueue

/-- The first `n` calls of `MQOpenQueue`, newest first. -/
def attempts (name : List UInt16) (attempt : Nat → Hresult × Handle) (n : Nat) : List MqCall :=
  (List.range n).reverse.map fun i => .openQueue name (attempt i).1 (attempt i).2

/-- Attempts are made one after the other, with the same name. -/
theorem calls_tried (name : List UInt16) (attempt : Nat → Hresult × Handle) (o : Opening)
    (n : Nat) :
    (tried name attempt o n).calls = attempts name attempt n ++ o.calls := by
  induction n with
  | zero => rfl
  | succ n ih =>
      have hstep : attempts name attempt (n + 1) =
          .openQueue name (attempt n).1 (attempt n).2 :: attempts name attempt n := by
        simp [attempts, List.range_succ]
      rw [hstep, List.cons_append, ← ih]
      rfl

/-- What a call of `open` leaves that makes `k + 1` attempts, on each of the two ways out. -/
structure Attempted (q : MsmqQueue) (a : OpenAnswers) (name : List UInt16) (k : Nat)
    (calls : List MqCall) (r : Native Unit) : Prop where
  /-- It calls `MQOpenQueue` `k + 1` times, and `MQCloseQueue` if it fails. -/
  calls : r.calls =
    (if failed (a.attempt k).1 then [.closeQueue q.hQueue a.close] else []) ++
      (attempts name a.attempt (k + 1) ++ calls)
  /-- Every attempt that is followed by another one has been answered that the queue is
  not found. -/
  notFound : ∀ i, i < k → (a.attempt i).1 = mqErrorQueueNotFound
  returns : r.result = .ok () ↔ failed (a.attempt k).1 = false
  opened : r.result = .ok () → r.queue.isOpen = true ∧ r.queue.hQueue = some (a.attempt k).2
  thrown : r.result ≠ .ok () → r.queue.isOpen = q.isOpen

/-- **Open retries exactly as long as the queue is not found**, up to 120 times, and the last
answer decides how it ends.  With `k` the number of retries, `Attempted` says the rest: which
calls have been made, that all answers but the last were that the queue is not found, and
whether the object is open with the handle of the last attempt, or as it was before, with its
handle closed. -/
theorem open_attempts {path : Option (List UInt8)} {a : OpenAnswers} {name : List UInt16}
    (hname : a.destFormatName path = some name) (q : MsmqQueue) (calls : List MqCall) :
    ∃ k : Nat, (k : ℕ∞) = min 120 (leadingNotFound a.attempt) ∧
      Attempted q a name k calls (q.open path a calls) := by
  refine ⟨a.last, a.last_eq_min, ?_⟩
  have hopen := q.open_eq_tried hname calls
  have hcalls := calls_tried name a.attempt ⟨0, q.hQueue, calls⟩ (a.last + 1)
  have hhr : (tried name a.attempt ⟨0, q.hQueue, calls⟩ (a.last + 1)).hr = (a.attempt a.last).1 :=
    rfl
  cases hfail : failed (a.attempt a.last).1 with
  | false =>
      have hhandle : (tried name a.attempt ⟨0, q.hQueue, calls⟩ (a.last + 1)).hQueue =
          some (a.attempt a.last).2 := by
        simp [tried, mqOpenQueue, hfail]
      have heq : q.open path a calls = ⟨.ok (), ⟨some (a.attempt a.last).2, true⟩,
          attempts name a.attempt (a.last + 1) ++ calls⟩ := by
        simp only [hopen, hhr, hfail, hhandle, hcalls, Bool.false_eq_true, if_false]
      rw [heq]
      exact ⟨by rw [hfail]; rfl, fun i hi => a.attempt_of_lt_last hi, by simp [hfail],
        fun _ => ⟨rfl, rfl⟩, fun hne => absurd rfl hne⟩
  | true =>
      have hall : ∀ j, j < a.last + 1 → failed (a.attempt j).1 = true := by
        intro j hj
        rcases Nat.lt_succ_iff_lt_or_eq.mp hj with hlt | rfl
        · rw [a.attempt_of_lt_last hlt]
          rfl
        · exact hfail
      have hhandle := (tried_refused name ⟨0, q.hQueue, calls⟩ hall).1
      have heq : q.open path a calls = ⟨.error "Error in opening the queue", q,
          .closeQueue q.hQueue a.close :: (attempts name a.attempt (a.last + 1) ++ calls)⟩ := by
        simp only [hopen, hhr, hfail, hhandle, hcalls, if_true]
      rw [heq]
      exact ⟨by rw [hfail]; rfl, fun i hi => a.attempt_of_lt_last hi, by simp [hfail],
        fun hok => absurd hok (by simp), fun _ => rfl⟩

/-- The third attempt succeeds. -/
theorem open_attempts_third :
    let a : OpenAnswers := { OpenAnswers.always 0 7 0 with
      attempt := fun i => if i < 2 then (mqErrorQueueNotFound, 0) else (0, 7) }
    ∃ k : Nat, (k : ℕ∞) = min 120 (leadingNotFound a.attempt) ∧
      Attempted .new a ((strncpy [113] mqMaxQNameLen).map (·.toUInt16)) k []
        (MsmqQueue.new.open (some [113]) a []) := by
  intro a
  have hname : a.destFormatName (some [113]) =
      some ((strncpy [113] mqMaxQNameLen).map (·.toUInt16)) := by decide
  exact open_attempts hname .new []

end MsmqQueue

end Msmq
