import CamelMsmq.Progress

/-!
# How long a run can be

The receive loop goes on as long as it is answered with timeouts.  Every other step of a run
brings its end nearer: the run is before its loop, or it receives, hands over, or lets its
buffer grow.  A buffer whose increment is not zero cannot grow for ever, because its size stays
an `int` that is not negative.  With an increment of zero it can: the run goes on replacing its
buffer by one that is as small.

`Pc.rank` counts how many such steps can still come, two for each size that the buffer has not
had yet.  It is a bound for every run, since the other workers, the processor and `doStop` have no
part in it: what they do leaves the place of this worker as it is.

`runs_bounded_iff` says that the increment alone decides.  For the direction from the bound
to the increment a run is built with as many overflows as one likes.
-/

namespace Msmq

/-- The receive times out. -/
def Answer.timesOut : Answer → Bool
  | .receives a => a.hr = mqErrorIoTimeout
  | _ => false

/-- How many steps of a run there can be from here on, apart from timeouts: two for each size
that the buffer has not had. -/
def Pc.rank : Pc → Nat
  | .idle => 0
  | .atFinally _ _ _ => 1
  | .atProcess _ _ loop => 2 * (2 ^ 31 - loop.grown) + 2
  | .atReceive _ _ loop => 2 * (2 ^ 31 - loop.grown) + 3
  | .atAllocate _ _ _ => 2 ^ 32 + 4
  | .atOpen _ _ _ => 2 ^ 32 + 5
  | .atIsOpen _ _ _ => 2 ^ 32 + 6
  | .atRemove _ _ => 2 ^ 32 + 7
  | .atCreate _ _ => 2 ^ 32 + 8
  | .atElement => 2 ^ 32 + 9

namespace Task

variable {endpoint : MsmqEndpoint} {me : RunId} {sh sh' : Shared} {pc : Pc} {ans : Answer}
  {after : After} {loop : Loop}

/-- A proper buffer has not grown too often: with an increment that is not zero all its sizes
have been different, and each was an `int` that is not negative. -/
theorem grown_lt (hp : loop.Proper endpoint) (hnonneg : 0 ≤ loop.initsize.toInt)
    (hincr : endpoint.incrementBufferSize ≠ 0) : loop.grown < 2 ^ 31 := by
  obtain ⟨hcan, hsize⟩ := hp
  have hstep : endpoint.incrementBufferSize.toInt ≠ 0 := fun h => hincr (Int32.toInt_inj.mp h)
  have hstart := Int32.toInt_lt endpoint.initialBufferSize
  have hsmall := Int32.toInt_lt loop.initsize
  rw [hsize] at hnonneg hsmall
  have hlt := Growth.lt_of_size_bounded hstep hcan hstart hnonneg hsmall
  omega

/-- A throwable in the loop brings the end nearer. -/
theorem rank_raiseInLoop (hsized : loop.Sized endpoint) (hp : loop.Proper endpoint)
    (hincr : endpoint.incrementBufferSize ≠ 0) (shMid : Shared) (size : Nat) (queue : QueueRef)
    (ex : Throwable) :
    1 + (raiseInLoop endpoint shMid size queue loop ex).1.pc.rank ≤
      2 * (2 ^ 31 - loop.grown) + 2 := by
  have hproper := proper_raiseInLoop hsized hp shMid size queue ex
  obtain ⟨-, -, hnonneg, heq⟩ | ⟨-, e, heq⟩ :=
    raiseInLoop_cases endpoint shMid size queue loop ex
  · rw [heq] at hproper ⊢
    have hlt := grown_lt hproper hnonneg hincr
    simp only [After.pc, Pc.rank] at hlt ⊢
    omega
  · rw [heq]
    simp only [raise, After.pc, Pc.rank]
    omega

/-- **One step** other than a timeout brings the end nearer.  For an overflow this is where the
increment counts: the next size is one that the buffer has not had. -/
theorem Steps.rank_le (h : Steps endpoint me sh pc ans after sh') (hs : Sound endpoint me sh pc)
    (hp : pc.Proper endpoint) (hincr : endpoint.incrementBufferSize ≠ 0) :
    (if ans.timesOut then 0 else 1) + after.pc.rank ≤ pc.rank := by
  have hweight : (if ans.timesOut then 0 else 1) ≤ 1 := by split <;> decide
  cases h with
  | timeout a hfits hhr =>
      have htimeout : (Answer.receives a).timesOut = true := decide_eq_true hhr
      rw [htimeout, if_pos rfl, Nat.zero_add]
      exact Nat.le_refl _
  | @overflow size queue loop a hfits hhr =>
      have hsized : (loop.received a).Sized endpoint := hs.1.sized.congr rfl rfl rfl
      have hraise := rank_raiseInLoop hsized (hp.congr rfl rfl) hincr
        (sh.received me queue loop a) size queue (.native "Message body too big")
      exact (Nat.add_le_add_right hweight _).trans (hraise.trans (Nat.le_succ _))
  | @receiveFails size queue loop a hfits hhr =>
      have hsized : (loop.received a).Sized endpoint := hs.1.sized.congr rfl rfl rfl
      have hraise := rank_raiseInLoop hsized (hp.congr rfl rfl) hincr
        (sh.received me queue loop a) size queue (.native "Error in receiving")
      exact (Nat.add_le_add_right hweight _).trans (hraise.trans (Nat.le_succ _))
  | @received size queue loop a filled hfits hhr hfill =>
      have hgrown : filled.grown = loop.grown := (same_fill hfill).2
      simp only [After.pc, Pc.rank, hgrown]
      omega
  | notFilled a ex hfits hhr hfill => exact absurd hfill (hs.1.fill_ne_error hfits hhr ex)
  | @processorThrows size queue loop ex exchange writes hwrites =>
      obtain ⟨m, older, -, -, hfilled⟩ := hs
      have hsized : Loop.Sized endpoint { loop with exchange := exchange } :=
        hfilled.sized.congr rfl rfl rfl
      exact rank_raiseInLoop hsized (hp.congr rfl rfl) hincr (sh.processed me loop writes) size
        queue ex
  | _ => simp [Answer.timesOut, After.pc, Pc.rank, raise]

end Task

namespace Consumer

variable {N : Nat} {endpoint : MsmqEndpoint} {c c' c₀ c₁ : Consumer N} {w : Fin N}
  {acts : List (Action N)}

/-- Worker `w` takes a step of its run other than a receive that times out. -/
def isWork (w : Fin N) : Action N → Bool
  | .task v ans => v = w && !ans.timesOut
  | _ => false

/-- How many such steps there are. -/
def works (w : Fin N) (acts : List (Action N)) : Nat := acts.countP (isWork w)

/-- **One action** during a run of worker `w`. -/
theorem rank_step (hs : c.Sound endpoint) (hf : c.Fitting endpoint) {act : Action N}
    (h : c.step endpoint act = some c') (hone : act ≠ .start w)
    (hincr : endpoint.incrementBufferSize ≠ 0) :
    (if isWork w act then 1 else 0) + (c'.worker w).pc.rank ≤ (c.worker w).pc.rank := by
  cases seenBy_of_step h w with
  | others hstart htask hme hrecorded hworker =>
      have hnot : isWork w act = false := by
        cases act with
        | task v ans =>
            have hv : v ≠ w := fun heq => htask ans (by rw [heq])
            simp [isWork, hv]
        | _ => rfl
      simp [hworker, hnot]
  | start hidle hscheduled hshared hworker => exact absurd rfl hone
  | @task _ ans after htask hworker =>
      have hrank := htask.rank_le (hs.worker w) (hf.proper w) hincr
      rw [hworker, Worker.pc_goOn]
      cases hans : ans.timesOut <;> simpa [isWork, hans] using hrank

theorem fitting_of_reachable (hreach : Runs.Reachable (step endpoint) (doStart N) c) :
    c.Sound endpoint ∧ c.Fitting endpoint :=
  hreach.invariant _ (fun c => c.Sound endpoint ∧ c.Fitting endpoint)
    ⟨sound_doStart, fitting_doStart⟩ fun _ _ _ ⟨hs, hf⟩ h => ⟨hs.step h, hf.step hs h⟩

/-- **A run is bounded**, if the increment is not zero.  The bound is that of the place where a
run begins; it is far from sharp, but it depends on nothing at all. -/
theorem works_le (hreach : Runs.Reachable (step endpoint) (doStart N) c₀)
    (hstart : c₀.step endpoint (.start w) = some c₁)
    (hrun : Runs.run (step endpoint) c₁ acts = some c) (hone : .start w ∉ acts)
    (hincr : endpoint.incrementBufferSize ≠ 0) : works w acts ≤ 2 ^ 32 + 9 := by
  obtain ⟨hs, hf⟩ := fitting_of_reachable hreach
  have hrank : ∀ (c : Consumer N) act c', c.Sound endpoint ∧ c.Fitting endpoint →
      c.step endpoint act = some c' → act ≠ .start w →
      (if isWork w act then 1 else 0) + (c'.worker w).pc.rank ≤ (c.worker w).pc.rank :=
    fun _ _ _ hboth h hne => rank_step hboth.1 hboth.2 h hne hincr
  have hbound := Runs.countP_add_rank_le (step endpoint)
    (fun _ _ _ hboth h => ⟨hboth.1.step h, hboth.2.step hboth.1 h⟩) hrank
    ⟨hs.step hstart, hf.step hs hstart⟩ (fun act hact heq => hone (heq ▸ hact)) hrun
  have hbegin : (c₁.worker w).pc.rank ≤ 2 ^ 32 + 9 := by
    cases steps_of_step hstart with
    | start hphase hscheduled hidle =>
        simp only [Function.update_self, Worker.start]
        split <;> simp [Pc.rank]
  exact (Nat.le_add_right _ _).trans (hbound.trans hbegin)

/-! ## The other direction -/

/-- A way that worker `w` leads is a run in which it is not started. -/
theorem Leads.exists_run (h : Leads endpoint w c c') :
    ∃ acts, Runs.run (step endpoint) c acts = some c' ∧ .start w ∉ acts := by
  induction h with
  | refl => exact ⟨[], rfl, by simp⟩
  | tail _ hstep ih =>
      obtain ⟨acts, hrun, hone⟩ := ih
      obtain ⟨ans, -, hstep⟩ := hstep
      refine ⟨acts ++ [.task w ans], ?_, by simpa using hone⟩
      exact (Runs.run_append_iff _).mpr ⟨_, hrun, (Runs.run_singleton_iff _).mpr hstep⟩

/-- An overflow is answered with a buffer that is as small as before. -/
theorem Stands.exists_overflow {size : Nat} {queue : QueueRef} {loop : Loop}
    (hc : c.Stands endpoint w (.atReceive size queue loop))
    (hzero : endpoint.incrementBufferSize = 0) :
    ∃ c' loop', c.step endpoint
        (.task w (.receives ⟨mqErrorBufferOverflow, default, 0, []⟩)) = some c' ∧
      c'.Stands endpoint w (.atReceive size queue loop') := by
  let a : ReceiveAnswer := ⟨mqErrorBufferOverflow, default, 0, []⟩
  have hready := hc.sound.worker w
  rw [hc.place] at hready
  have hfits : loop.msmqMessage.fits a = true := by
    simp [MsmqMessage.fits, hready.1.pElems, a]
  obtain ⟨c', hstep⟩ : ∃ c', c.step endpoint (.task w (.receives a)) = some c' := by
    simp [step, hc.place, Task.step, hfits]
  cases steps_of_step hstep with
  | task htask =>
      rw [hc.place] at htask
      have hother : mqErrorBufferOverflow ≠ mqErrorIoTimeout := by decide
      cases htask with
      | timeout _ _ hhr => exact absurd hhr hother
      | receiveFails _ _ hhr => exact absurd rfl hhr.2.2
      | received _ _ _ hhr => exact absurd (failed_bufferOverflow.symm.trans hhr) (by decide)
      | notFilled _ _ _ hhr => exact absurd (failed_bufferOverflow.symm.trans hhr) (by decide)
      | overflow _ _ _ =>
          have hnonneg : 0 ≤ ((loop.received a).initsize + endpoint.incrementBufferSize).toInt := by
            rw [hzero, Int32.add_zero]
            exact hready.1.sized.nonneg
          obtain ⟨loop', hgoOn⟩ : ∃ loop', (Task.raiseInLoop endpoint
              (c.shared.received (c.runId w) queue loop a) size queue (loop.received a)
              (.native "Message body too big")).1 = .goOn (.atReceive size queue loop') := by
            obtain ⟨-, -, -, heq⟩ | ⟨hnot, -⟩ := Task.raiseInLoop_cases endpoint
              (c.shared.received (c.runId w) queue loop a) size queue (loop.received a)
              (.native "Message body too big")
            · exact ⟨_, congrArg Prod.fst heq⟩
            · exact absurd ⟨rfl, rfl, hnonneg⟩ hnot
          refine ⟨_, loop', hstep, hc.task hstep ?_ (by simp)⟩
          simp only [Function.update_self, hgoOn, Worker.goOn]

/-- As many of them as one likes: the sizes do not change, so MSMQ can go on answering with an
overflow. -/
theorem Stands.exists_overflows {size : Nat} {queue : QueueRef} {loop : Loop}
    (hc : c.Stands endpoint w (.atReceive size queue loop))
    (hzero : endpoint.incrementBufferSize = 0) (n : Nat) :
    ∃ acts c', Runs.run (step endpoint) c acts = some c' ∧ .start w ∉ acts ∧ works w acts = n := by
  induction n generalizing c loop with
  | zero => exact ⟨[], c, rfl, by simp, rfl⟩
  | succ n ih =>
      obtain ⟨c₁, loop₁, hstep, hc₁⟩ := hc.exists_overflow hzero
      obtain ⟨acts, c', hrun, hone, hcount⟩ := ih hc₁
      have hworks :
          isWork w (.task w (.receives ⟨mqErrorBufferOverflow, default, 0, []⟩)) = true := by
        simp only [isWork, Answer.timesOut]
        decide
      refine ⟨_ :: acts, c', (Runs.run_cons_iff _).mpr ⟨c₁, hstep, hrun⟩, by simpa using hone, ?_⟩
      rw [works, List.countP_cons_of_pos hworks, ← hcount]
      rfl

/-- **When runs end.**  The steps of a run of worker `w`, other than receives that time out, are
bounded by a number that holds for all runs from all states that can be reached, whatever MSMQ,
the processor and the other threads do, exactly if the increment of the buffer is not zero.  A
negative increment is as good as a positive one: the buffer runs out of sizes either way. -/
theorem runs_bounded_iff (hremaining : endpoint.remaining ≠ none)
    (hcan : 0 ≤ endpoint.initialBufferSize.toInt) (w : Fin N) :
    (∃ bound, ∀ (c₀ c₁ c : Consumer N) (acts : List (Action N)),
        Runs.Reachable (step endpoint) (doStart N) c₀ →
        c₀.step endpoint (.start w) = some c₁ →
        Runs.run (step endpoint) c₁ acts = some c → .start w ∉ acts → works w acts ≤ bound) ↔
      endpoint.incrementBufferSize ≠ 0 := by
  constructor
  · rintro ⟨bound, hbound⟩ hzero
    have hidle : (doStart N).Stands endpoint w .idle :=
      ⟨sound_doStart, conserved_doStart, rfl, rfl, rfl⟩
    obtain ⟨c₁, hstart, hbegun, -⟩ := hidle.start
    obtain ⟨c₂, size, queue, loop, hleads, hc₂, -⟩ := hbegun.exists_first hremaining hcan
    obtain ⟨before, hbefore, hone⟩ := hleads.exists_run
    obtain ⟨acts, c, hacts, hone', hcount⟩ := hc₂.exists_overflows hzero (bound + 1)
    have hle := hbound (doStart N) c₁ c (before ++ acts) (.refl _ _) hstart
      ((Runs.run_append_iff _).mpr ⟨c₂, hbefore, hacts⟩) (by simp [hone, hone'])
    have happend : works w (before ++ acts) = works w before + works w acts :=
      List.countP_append
    omega
  · exact fun hincr => ⟨2 ^ 32 + 9, fun _ _ _ _ hreach hstart hrun hone =>
      works_le hreach hstart hrun hone hincr⟩

/-- A buffer that shrinks cannot keep a run going either. -/
theorem runs_bounded_iff_shrinking :
    let endpoint : MsmqEndpoint := { remaining := some [113], incrementBufferSize := -1 }
    ∃ bound, ∀ (c₀ c₁ c : Consumer 2) (acts : List (Action 2)),
      Runs.Reachable (step endpoint) (doStart 2) c₀ → c₀.step endpoint (.start 0) = some c₁ →
      Runs.run (step endpoint) c₁ acts = some c → .start 0 ∉ acts → works 0 acts ≤ bound :=
  (runs_bounded_iff (by simp) (by decide) 0).mpr (by decide)

end Consumer

end Msmq
