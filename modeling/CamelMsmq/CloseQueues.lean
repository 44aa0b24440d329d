import CamelMsmq.Consumer

/-!
# Closing the queues of a consumer

`closeQueues` goes through the pool and closes the queues that are open.  When MSMQ refuses
to close one, `close` throws, and the exception ends the loop and `doStop`: the queues behind
it are not looked at.  While no worker runs the pool stays as it is, so the iterator visits
its queues from head to tail.

The loop is a function on the list of the queues (`closeQueues`), and `doStop_is_run` shows
that it is what the steps of `doStop` come to when no worker is in between.  `passed` are the
queues that the loop gets past, those before the first one that MSMQ refuses to close.  The
objects afterwards and the calls to MSMQ are said in terms of it, whatever MSMQ answers for
the single queues.

`closes_all_iff` compares this with what a stop should do, to close every open queue that MSMQ
is ready to close.
-/

namespace Msmq

/-- How `doStop` ends. -/
def Phase.ended : Except String Unit → Phase
  | .ok () => .stopped
  | .error _ => .failed

namespace Consumer

variable {N : Nat}

/-- The loop of `closeQueues()`, while nothing else touches the pool.  MSMQ answers `hr queue`
when it is told to close the handle of `queue`. -/
def closeQueues (hr : QueueRef → Hresult) : List QueueRef → Shared → Except String Unit × Shared
  | [], sh => (.ok (), sh)
  | queue :: rest, sh =>
      if (sh.object queue).isOpen then
        let r := (sh.object queue).close (hr queue) sh.calls
        match r.result with
        | .ok () => closeQueues hr rest (sh.operated queue r)
        | .error what => (.error what, sh.operated queue r)
      else closeQueues hr rest sh

/-- `doStop()` while no worker runs. -/
def doStop (c : Consumer N) (hr : QueueRef → Hresult) : Except Throwable Unit × Consumer N :=
  let r := closeQueues hr c.shared.queues c.shared
  (r.1.mapError .native, { c with shared := r.2, phase := .ended r.1 })

/-! ## The loop as a run of the system -/

section Run

variable (endpoint : MsmqEndpoint)

/-- While no worker runs, none starts after `shutdown()`, and the pool stays as it is. -/
theorem idle_of_stopping {c c' : Consumer N} {act : Action N}
    (hidle : ∀ w, (c.worker w).pc = .idle) (hphase : c.phase ≠ .running)
    (h : c.step endpoint act = some c') :
    c'.worker = c.worker ∧ c'.shared.queues = c.shared.queues ∧ c'.phase ≠ .running := by
  cases steps_of_step h with
  | start hrunning hscheduled hpc => exact absurd hrunning hphase
  | @task w ans after shared htask =>
      rw [hidle w] at htask
      cases htask
  | shutdown hrunning => exact absurd hrunning hphase
  | _ => exact ⟨rfl, rfl, nofun⟩

/-- The loop from the point where `rest` is still to be visited.  The induction is on `rest`. -/
theorem closeQueues_is_run (hr : QueueRef → Hresult) (worker : Fin N → Worker)
    {may : List QueueRef} :
    ∀ (rest : List QueueRef) (sh : Shared) (must : List QueueRef), (∀ q ∈ must, q ∈ rest) →
      (∀ q ∈ rest, q ∈ may) →
      ∃ acts, Runs.run (step endpoint) ⟨sh, worker, .iterating must may⟩ acts =
        some ⟨(closeQueues hr rest sh).2, worker, .ended (closeQueues hr rest sh).1⟩ := by
  intro rest
  induction rest with
  | nil =>
      intro sh must hmust hmay
      obtain rfl : must = [] := List.eq_nil_iff_forall_not_mem.mpr fun q hq =>
        List.not_mem_nil (hmust q hq)
      exact ⟨[.finish], rfl⟩
  | cons queue rest ih =>
      intro sh must hmust hmay
      have hvisit : queue ∈ may := hmay queue List.mem_cons_self
      have hmay' : ∀ q ∈ rest, q ∈ may := fun q hq => hmay q (List.mem_cons_of_mem _ hq)
      have hmust' : ∀ q ∈ must.filter (· ≠ queue), q ∈ rest := by
        intro q hq
        obtain ⟨hq, hne⟩ := List.mem_filter.mp hq
        exact (List.mem_cons.mp (hmust q hq)).resolve_left (by simpa using hne)
      cases hopen : (sh.object queue).isOpen with
      | false =>
          obtain ⟨acts, hacts⟩ := ih sh _ hmust' hmay'
          refine ⟨.visit queue :: acts, ?_⟩
          rw [Runs.run_cons_iff]
          exact ⟨⟨sh, worker, .iterating (must.filter (· ≠ queue)) may⟩,
            by simp [step, hvisit, hopen], by simpa [closeQueues, hopen] using hacts⟩
      | true =>
          let r := (sh.object queue).close (hr queue) sh.calls
          have hclosing : step endpoint ⟨sh, worker, .iterating must may⟩ (.visit queue) =
              some ⟨sh, worker, .closing queue must may⟩ := by
            simp [step, hvisit, hopen]
          cases hresult : r.result with
          | ok u =>
              obtain ⟨acts, hacts⟩ := ih (sh.operated queue r) _ hmust' hmay'
              have hclose : step endpoint ⟨sh, worker, .closing queue must may⟩
                  (.close (hr queue)) =
                  some ⟨sh.operated queue r, worker, .iterating (must.filter (· ≠ queue)) may⟩ := by
                simp [step, r, hresult]
              refine ⟨.visit queue :: .close (hr queue) :: acts, ?_⟩
              rw [Runs.run_cons_iff]
              refine ⟨_, hclosing, (Runs.run_cons_iff _).mpr ⟨_, hclose, ?_⟩⟩
              simpa [closeQueues, hopen, r, hresult] using hacts
          | error what =>
              have hclose : step endpoint ⟨sh, worker, .closing queue must may⟩
                  (.close (hr queue)) =
                  some ⟨sh.operated queue r, worker, .failed⟩ := by
                simp [step, r, hresult]
              refine ⟨[.visit queue, .close (hr queue)], ?_⟩
              rw [Runs.run_cons_iff]
              refine ⟨_, hclosing, (Runs.run_singleton_iff _).mpr ?_⟩
              simpa [closeQueues, hopen, r, hresult, Phase.ended] using hclose

/-- **`doStop` is a run of the system.**  The function that the results below are about takes
the steps that `doStop` takes in the system of workers, one after the other with no worker in
between: the executor is shut down, the iterator made, and the queues visited from head to tail. -/
theorem doStop_is_run {c : Consumer N} (hphase : c.phase = .running) (hr : QueueRef → Hresult) :
    ∃ acts, Runs.run (step endpoint) c (.shutdown :: .iterate :: acts) =
      some (c.doStop hr).2 := by
  obtain ⟨acts, hacts⟩ := closeQueues_is_run endpoint hr c.worker c.shared.queues c.shared
    c.shared.queues (fun _ hq => hq) (fun _ hq => hq)
  refine ⟨acts, ?_⟩
  rw [Runs.run_cons_iff]
  refine ⟨{ c with phase := .shutDown }, by simp [step, hphase], ?_⟩
  rw [Runs.run_cons_iff]
  exact ⟨{ c with phase := .iterating c.shared.queues c.shared.queues }, rfl, hacts⟩

end Run

/-! ## What the loop does -/

section Loop

variable {hr : QueueRef → Hresult} {sh : Shared} {queue : QueueRef} {rest : List QueueRef}

/-- The queue is open, and MSMQ refuses to close it. -/
def refuses (hr : QueueRef → Hresult) (sh : Shared) (queue : QueueRef) : Bool :=
  (sh.object queue).isOpen && (sh.object queue).hQueue.isSome && failed (hr queue)

/-- The shared state after the loop has looked at a queue. -/
def visited (hr : QueueRef → Hresult) (sh : Shared) (queue : QueueRef) : Shared :=
  if (sh.object queue).isOpen then
    sh.operated queue ((sh.object queue).close (hr queue) sh.calls)
  else sh

/-- The call to MSMQ with which a queue is closed, if there is one. -/
def closing (hr : QueueRef → Hresult) (sh : Shared) (queue : QueueRef) : Option MqCall :=
  if (sh.object queue).isOpen then
    (sh.object queue).hQueue.map fun h => .closeQueue (some h) (hr queue)
  else none

/-- Setting the flag to what it is. -/
theorem with_isOpen {q : MsmqQueue} {b : Bool} (hb : q.isOpen = b) :
    { q with isOpen := b } = q := by
  rw [← hb]

theorem object_visited (hr : QueueRef → Hresult) (sh : Shared) (queue : QueueRef) :
    (visited hr sh queue).object =
      Function.update sh.object queue { sh.object queue with isOpen := refuses hr sh queue } := by
  unfold visited
  cases hopen : (sh.object queue).isOpen with
  | false =>
      have hnot : refuses hr sh queue = false := by simp [refuses, hopen]
      rw [hnot, with_isOpen hopen, Function.update_eq_self]
      rfl
  | true =>
      obtain ⟨hnone, hclose⟩ | ⟨h, hsome, hfail, hclose⟩ | ⟨h, hsome, hfail, hclose⟩ :=
        (sh.object queue).close_cases (hr queue) sh.calls
      · simp [Shared.operated, hclose, refuses, hnone]
      · simp [Shared.operated, hclose, refuses, hfail]
      · have hrefuses : refuses hr sh queue = true := by simp [refuses, hopen, hsome, hfail]
        rw [hrefuses, with_isOpen hopen]
        simp [Shared.operated, hclose]

theorem calls_visited (hr : QueueRef → Hresult) (sh : Shared) (queue : QueueRef) :
    (visited hr sh queue).calls = (closing hr sh queue).toList ++ sh.calls := by
  unfold visited closing
  cases hopen : (sh.object queue).isOpen with
  | false => rfl
  | true =>
      obtain ⟨hnone, hclose⟩ | ⟨h, hsome, hfail, hclose⟩ | ⟨h, hsome, hfail, hclose⟩ :=
        (sh.object queue).close_cases (hr queue) sh.calls
      · simp [Shared.operated, hclose, hnone]
      · simp [Shared.operated, hclose, hsome]
      · simp [Shared.operated, hclose, hsome]

/-- The loop ends at a queue that MSMQ refuses to close.  What has happened to that queue stays,
and the rest of the pool is not visited. -/
theorem closeQueues_refused (hrefuses : refuses hr sh queue = true) :
    closeQueues hr (queue :: rest) sh =
      (.error "Error in closing the queue", visited hr sh queue) := by
  simp only [refuses, Bool.and_eq_true, Option.isSome_iff_exists] at hrefuses
  obtain ⟨⟨hopen, h, hsome⟩, hfail⟩ := hrefuses
  simp [closeQueues, visited, hopen, MsmqQueue.close, hsome, hfail]

/-- It goes on after any other, whether that was open or not. -/
theorem closeQueues_passed (hpasses : refuses hr sh queue = false) :
    closeQueues hr (queue :: rest) sh = closeQueues hr rest (visited hr sh queue) := by
  cases hopen : (sh.object queue).isOpen with
  | false => simp [closeQueues, visited, hopen]
  | true =>
      obtain ⟨hnone, hclose⟩ | ⟨h, hsome, hfail, hclose⟩ | ⟨h, hsome, hfail, hclose⟩ :=
        (sh.object queue).close_cases (hr queue) sh.calls
      · simp [closeQueues, visited, hopen, hclose]
      · simp [closeQueues, visited, hopen, hclose]
      · simp [refuses, hopen, hsome, hfail] at hpasses

/-- What the loop passes has no bearing on which queues can be closed. -/
theorem refuses_visited (hpasses : refuses hr sh queue = false) :
    refuses hr (visited hr sh queue) = refuses hr sh := by
  funext q
  unfold refuses
  rw [object_visited]
  by_cases hq : q = queue
  · subst hq
    rw [Function.update_self, hpasses]
    exact hpasses.symm
  · rw [Function.update_of_ne hq]

/-- The queues that the loop has passed at its end. -/
def passed (hr : QueueRef → Hresult) (sh : Shared) (queues : List QueueRef) : List QueueRef :=
  queues.takeWhile fun queue => !refuses hr sh queue

theorem passed_of_refuses (hrefuses : refuses hr sh queue = true) :
    passed hr sh (queue :: rest) = [] := by
  simp [passed, hrefuses]

theorem passed_cons (hpasses : refuses hr sh queue = false) :
    passed hr sh (queue :: rest) = queue :: passed hr (visited hr sh queue) rest := by
  simp [passed, hpasses, refuses_visited hpasses]

/-- **The objects after the loop.**  The queues that it has passed are not open, and the others
are as they were, the one that was refused included. -/
theorem object_closeQueues (queues : List QueueRef) (sh : Shared) (q : QueueRef) :
    (closeQueues hr queues sh).2.object q =
      if q ∈ passed hr sh queues then { sh.object q with isOpen := false } else sh.object q := by
  induction queues generalizing sh with
  | nil => rfl
  | cons queue rest ih =>
      cases hrefuses : refuses hr sh queue with
      | true =>
          have hopen : (sh.object queue).isOpen = true := by
            simp only [refuses, Bool.and_eq_true] at hrefuses
            exact hrefuses.1.1
          rw [closeQueues_refused hrefuses, passed_of_refuses hrefuses, object_visited, hrefuses,
            with_isOpen hopen, Function.update_eq_self, if_neg List.not_mem_nil]
      | false =>
          rw [closeQueues_passed hrefuses, ih, passed_cons hrefuses, object_visited, hrefuses]
          by_cases hq : q = queue
          · subst hq
            simp
          · simp [hq]

/-- **The calls of the loop.**  It has closed the handles of the open queues it has passed: for
each of them there is an `MQCloseQueue` among the new calls, with the handle that the queue had
before the loop began. -/
theorem calls_closeQueues (hr : QueueRef → Hresult) (queues : List QueueRef) (sh : Shared) :
    ∃ news, (closeQueues hr queues sh).2.calls = news ++ sh.calls ∧
      ∀ q ∈ passed hr sh queues, ∀ call, closing hr sh q = some call → call ∈ news := by
  induction queues generalizing sh with
  | nil => exact ⟨[], rfl, fun q hq => absurd hq List.not_mem_nil⟩
  | cons queue rest ih =>
      cases hrefuses : refuses hr sh queue with
      | true =>
          rw [closeQueues_refused hrefuses, passed_of_refuses hrefuses]
          exact ⟨_, calls_visited hr sh queue, fun q hq => absurd hq List.not_mem_nil⟩
      | false =>
          obtain ⟨news, hcalls, hnews⟩ := ih (visited hr sh queue)
          rw [closeQueues_passed hrefuses, passed_cons hrefuses]
          refine ⟨news ++ (closing hr sh queue).toList, ?_, ?_⟩
          · rw [hcalls, calls_visited, List.append_assoc]
          · intro q hq call hcall
            by_cases hqueue : q = queue
            · subst hqueue
              exact List.mem_append_right _ (by simp [hcall])
            · have hsame : closing hr (visited hr sh queue) q = closing hr sh q := by
                simp [closing, object_visited, hqueue]
              have hmem := (List.mem_cons.mp hq).resolve_left hqueue
              exact List.mem_append_left _ (hnews q hmem call (hsame.trans hcall))

/-- The queues that could be closed have all been passed exactly if none of them is only behind a
queue that cannot be closed. -/
theorem all_passed_iff (hr : QueueRef → Hresult) (sh : Shared) (queues : List QueueRef) :
    (∀ q ∈ queues, (sh.object q).isOpen = true → failed (hr q) = false → q ∈ passed hr sh queues) ↔
      ∀ before queue behind, queues = before ++ queue :: behind → refuses hr sh queue = true →
        ∀ q ∈ behind, (sh.object q).isOpen = true → failed (hr q) = false → q ∈ before := by
  constructor
  · intro hall before queue behind hqueues hrefuses q hq hopen hfine
    have hmem : q ∈ queues := by
      rw [hqueues]
      exact List.mem_append_right _ (List.mem_cons_of_mem _ hq)
    have hpassed := hall q hmem hopen hfine
    have hstop : (queue :: behind).takeWhile (fun queue => !refuses hr sh queue) = [] :=
      List.takeWhile_cons_of_neg (by simp [hrefuses])
    rw [passed, hqueues, List.takeWhile_append, hstop, List.append_nil] at hpassed
    split at hpassed
    · exact hpassed
    · exact (List.takeWhile_sublist _).subset hpassed
  · intro hbehind q hq hopen hfine
    have hsplit : passed hr sh queues ++ queues.dropWhile (fun queue => !refuses hr sh queue) =
        queues := List.takeWhile_append_dropWhile
    cases hrest : queues.dropWhile fun queue => !refuses hr sh queue with
    | nil =>
        rw [hrest, List.append_nil] at hsplit
        rw [hsplit]
        exact hq
    | cons queue behind =>
        have hrefuses : refuses hr sh queue = true := by
          have hne : queues.dropWhile (fun queue => !refuses hr sh queue) ≠ [] := by
            rw [hrest]
            exact List.cons_ne_nil _ _
          simpa [hrest] using List.head_dropWhile_not (fun queue => !refuses hr sh queue) hne
        rw [hrest] at hsplit
        rw [← hsplit] at hq
        rcases List.mem_append.mp hq with hbefore | hq
        · exact hbefore
        · rcases List.mem_cons.mp hq with rfl | hq
          · simp [refuses, hfine] at hrefuses
          · exact hbehind _ queue behind hsplit.symm hrefuses q hq hopen hfine

end Loop

/-! ## Closing what can be closed -/

/-- A queue that was open has been closed: its object says so, and MSMQ has been told to
close its handle. -/
structure ClosedBy (hr : QueueRef → Hresult) (sh sh' : Shared) (queue : QueueRef) : Prop where
  flag : (sh'.object queue).isOpen = false
  handle : ∀ h, (sh.object queue).hQueue = some h →
    ∃ news, sh'.calls = news ++ sh.calls ∧ .closeQueue (some h) (hr queue) ∈ news

/-- Every queue of the pool that was open and that MSMQ does not refuse to close is closed. -/
def ClosesAll (hr : QueueRef → Hresult) (c c' : Consumer N) : Prop :=
  ∀ queue ∈ c.shared.queues, (c.shared.object queue).isOpen = true → failed (hr queue) = false →
    ClosedBy hr c.shared c'.shared queue

/-- A queue that can be closed has been closed exactly if the loop has passed it. -/
theorem closedBy_iff (hr : QueueRef → Hresult) {c : Consumer N} {queue : QueueRef}
    (hopen : (c.shared.object queue).isOpen = true) :
    ClosedBy hr c.shared (c.doStop hr).2.shared queue ↔
      queue ∈ passed hr c.shared c.shared.queues := by
  have hobject : ((c.doStop hr).2.shared.object queue) = _ :=
    object_closeQueues c.shared.queues c.shared queue
  constructor
  · intro hclosed
    by_contra hnot
    have hflag := hclosed.flag
    rw [hobject, if_neg hnot, hopen] at hflag
    cases hflag
  · intro hpassed
    refine ⟨by rw [hobject, if_pos hpassed], fun h hsome => ?_⟩
    obtain ⟨news, hcalls, hnews⟩ := calls_closeQueues hr c.shared.queues c.shared
    exact ⟨news, hcalls, hnews queue hpassed _ (by simp [closing, hopen, hsome])⟩

/-- **Stop closes what can be closed** exactly if no queue that could be closed is only behind
one that MSMQ refuses to close.  The first refusal ends the loop with an exception, so every
queue behind it keeps its open handle, whether or not MSMQ would close it, and nobody tries
again.  The condition speaks of the pool before the call and of the answers; *only* behind,
because a queue that also lies before the refusal has been closed by then. -/
theorem closes_all_iff (c : Consumer N) (hr : QueueRef → Hresult) :
    ClosesAll hr c (c.doStop hr).2 ↔
      ∀ before queue behind, c.shared.queues = before ++ queue :: behind →
        refuses hr c.shared queue = true →
        ∀ q ∈ behind, (c.shared.object q).isOpen = true → failed (hr q) = false → q ∈ before := by
  rw [← all_passed_iff]
  constructor
  · intro hcloses q hq hopen hfine
    exact (closedBy_iff hr hopen).mp (hcloses q hq hopen hfine)
  · intro hpassed q hq hopen hfine
    exact (closedBy_iff hr hopen).mpr (hpassed q hq hopen hfine)

/-- Two open queues: MSMQ refuses to close the first, and the second stays open. -/
theorem second_queue_left_open :
    let c : Consumer 2 := { doStart 2 with
      shared := { (doStart 2).shared with object := fun queue => ⟨some (queue + 1), true⟩ } }
    let hr : QueueRef → Hresult := fun queue => if queue = 0 then mqErrorStaleHandle else 0
    (∀ w, (c.worker w).pc = .idle) ∧
      (c.doStop hr).1 = .error (.native "Error in closing the queue") ∧
      ((c.doStop hr).2.shared.object 1).isOpen = true ∧ ¬ClosesAll hr c (c.doStop hr).2 := by
  intro c hr
  refine ⟨fun _ => rfl, rfl, rfl, fun hcloses => ?_⟩
  have hclosed := hcloses 1 (List.mem_cons_of_mem _ List.mem_cons_self) rfl rfl
  cases hclosed.flag

end Consumer

end Msmq
