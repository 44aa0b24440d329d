import CamelMsmq.Consumer
import CamelMsmq.QueueObjects

/-!
# Stopping a consumer

`doStop` shuts the executor down and closes the queues that `closeQueues` finds in
the pool.  It neither waits for the runs in progress nor keeps them from opening a
queue, so what it leaves behind is up to the workers.

The invariant `Consumer.Covered` says that every open handle belongs to an open queue
object that is still to be closed; it holds as long as each action `Minds` the closing.
There are three ways not to mind it.  A handle may be open that no object in the pool
has when the closing begins.  A worker may open a queue that the iterator has passed, or
one whose old handle is in use elsewhere.  And a worker may take an open queue out of the
pool before the iterator has come to it.

MSMQ may give out a handle again that has been closed.  It is relied on for one thing,
that messages are removed through open handles only (`Genuine`).
-/

namespace Msmq

namespace Phase

/-- The queues that are still to be closed. -/
def must : Phase → List QueueRef
  | iterating must _ => must
  | closing queue must _ => queue :: must
  | _ => []

/-- The queue that is just being closed. -/
def current : Phase → Option QueueRef
  | closing queue _ _ => some queue
  | _ => none

/-- `closeQueues` has begun, and has not thrown. -/
def Closing : Phase → Prop
  | iterating _ _ => True
  | closing _ _ _ => True
  | stopped => True
  | _ => False

variable {phase : Phase} {queues : List QueueRef} {q : QueueRef}

theorem closing_observe (h : (phase.observe queues).Closing) : phase.Closing := by
  cases phase with
  | iterating must may => trivial
  | closing queue must may => trivial
  | _ => exact h

/-- What is being closed, or stays in the pool, is still to be closed. -/
theorem mem_must_observe (hmust : q ∈ phase.must) (hq : phase.current = some q ∨ q ∈ queues) :
    q ∈ (phase.observe queues).must := by
  cases phase with
  | iterating must may =>
      rcases hq with hcurrent | hq
      · cases hcurrent
      · exact List.mem_filter.mpr ⟨hmust, by simpa using hq⟩
  | closing queue must may =>
      rcases List.mem_cons.mp hmust with rfl | hmust
      · exact List.mem_cons_self
      · rcases hq with hcurrent | hq
        · obtain rfl : queue = q := Option.some.inj hcurrent
          exact List.mem_cons_self
        · exact List.mem_cons_of_mem _ (List.mem_filter.mpr ⟨hmust, by simpa using hq⟩)
  | _ => cases hmust

/-- What is still to be closed is being closed, or lies in the pool. -/
theorem pooled_observe (hq : q ∈ (phase.observe queues).must) :
    (phase.observe queues).current = some q ∨ q ∈ queues := by
  cases phase with
  | iterating must may =>
      have hmem := (List.mem_filter.mp hq).2
      exact .inr (by simpa using hmem)
  | closing queue must may =>
      rcases List.mem_cons.mp hq with rfl | hq
      · exact .inl rfl
      · have hmem := (List.mem_filter.mp hq).2
        exact .inr (by simpa using hmem)
  | _ => cases hq

end Phase

namespace Task

variable {endpoint : MsmqEndpoint} {me : RunId} {sh sh' : Shared} {pc : Pc} {ans : Answer}
  {after : After}

/-- Only `remove()` takes something out of the pool, its head. -/
theorem Steps.mem_queues (h : Steps endpoint me sh pc ans after sh') {q : QueueRef}
    (hq : q ∈ sh.queues) :
    q ∈ sh'.queues ∨
      ∃ size exchange rest, pc = .atRemove size exchange ∧ sh.queues = q :: rest := by
  cases h with
  | @remove size exchange queue rest hpool =>
      rw [hpool] at hq
      rcases List.mem_cons.mp hq with rfl | hrest
      · exact .inr ⟨size, exchange, rest, rfl, hpool⟩
      · exact .inl hrest
  | overflow a hfits hhr =>
      left
      rw [(raiseInLoop_sameButHeap endpoint _ _ _ _ _).queues]
      exact hq
  | receiveFails a hfits hhr =>
      left
      rw [(raiseInLoop_sameButHeap endpoint _ _ _ _ _).queues]
      exact hq
  | notFilled a ex hfits hhr hfill =>
      left
      rw [(raiseInLoop_sameButHeap endpoint _ _ _ _ _).queues]
      exact hq
  | processorThrows ex exchange writes hwrites =>
      left
      rw [(raiseInLoop_sameButHeap endpoint _ _ _ _ _).queues]
      exact hq
  | giveBack hsize => exact .inl (List.mem_append_left _ hq)
  | _ => exact .inl hq

end Task

namespace Consumer

variable {N : Nat} {endpoint : MsmqEndpoint} {c c' : Consumer N} {act : Action N}

/-- The open handle `h` belongs to an open object among `queues`. -/
def InReach (c : Consumer N) (queues : List QueueRef) (h : Handle) : Prop :=
  ∃ queue ∈ queues, c.shared.HasOpen queue h ∧ (c.shared.object queue).isOpen = true

/-- The actions that mind the closing.  When `closeQueues` begins, the open handles are
those of open objects in the pool.  From then on a worker opens only queues that are
still to be closed and whose old handle is not another object's open handle too, and
takes no queue with an open handle out of the pool, unless it is just being closed. -/
def Minds (endpoint : MsmqEndpoint) (c : Consumer N) : Action N → Prop
  | .iterate => ∀ queue h, c.shared.HasOpen queue h → c.InReach c.shared.queues h
  | .task w ans => c.phase.Closing →
      (∀ size queue exchange a, (c.worker w).pc = .atOpen size queue exchange → ans = .opens a →
        a.destFormatName endpoint.remaining ≠ none → a.opens = true →
        queue ∈ c.phase.must ∧
        ∀ q h, q ≠ queue → c.shared.HasOpen q h → (c.shared.object queue).hQueue ≠ some h) ∧
      (∀ size exchange queue rest, (c.worker w).pc = .atRemove size exchange →
        c.shared.queues = queue :: rest → c.shared.HasOpenHandle queue →
        c.phase.current = some queue)
  | _ => True

/-- Every open handle belongs to an open object that is still to be closed, and what is
still to be closed is being closed or lies in the pool. -/
structure Covered (c : Consumer N) : Prop where
  covered : c.phase.Closing → ∀ queue h, c.shared.HasOpen queue h → c.InReach c.phase.must h
  pooled : ∀ q ∈ c.phase.must, c.phase.current = some q ∨ q ∈ c.shared.queues

theorem covered_doStart : (doStart N).Covered := ⟨False.elim, nofun⟩

/-- A step of a worker.  It may open a queue, take one out of the pool, or give one back; the
closing is minded in each case. -/
theorem Covered.task (hs : c.Covered) {w : Fin N} {ans : Answer} {after : After}
    {shared : Shared}
    (htask : Task.Steps endpoint (c.runId w) c.shared (c.worker w).pc ans after shared)
    (hminds : c.Minds endpoint (.task w ans)) :
    Covered ⟨shared, Function.update c.worker w ((c.worker w).goOn after),
      c.phase.observe shared.queues⟩ := by
  refine ⟨fun hclosing queue h ho => ?_, fun q hq => Phase.pooled_observe hq⟩
  obtain ⟨hopens, hremoves⟩ := hminds (Phase.closing_observe hclosing)
  have hcovered := hs.covered (Phase.closing_observe hclosing)
  -- an object with an open handle that is still to be closed is so after the step
  have hstays : ∀ p ∈ c.phase.must, c.shared.HasOpenHandle p →
      p ∈ (c.phase.observe shared.queues).must := by
    intro p hp hopen
    refine Phase.mem_must_observe hp ?_
    rcases hs.pooled p hp with hcurrent | hin
    · exact .inl hcurrent
    · rcases htask.mem_queues hin with hin' | ⟨size, exchange, rest, hpc, hpool⟩
      · exact .inr hin'
      · exact .inl (hremoves size exchange p rest hpc hpool hopen)
  obtain ⟨hsome, hopen⟩ := ho
  obtain ⟨hobject, hstill⟩ | ⟨size, opened, exchange, a, hpc, hans, hname, hok, hobject, hstill⟩ :=
    htask.operation.handles
  · have hbefore : c.shared.HasOpen queue h := ⟨hobject ▸ hsome, hstill h hopen⟩
    obtain ⟨p, hp, ⟨hsome', hopen'⟩, hflag⟩ := hcovered queue h hbefore
    refine ⟨p, hstays p hp ⟨h, hsome', hopen'⟩, ⟨?_, hopen⟩, ?_⟩
    · exact (congrArg (fun object => (object p).hQueue) hobject).trans hsome'
    · exact htask.operation.isOpen hflag
  · obtain ⟨hmust, hshared⟩ := hopens size opened exchange a hpc hans hname hok
    have hmust' : opened ∈ (c.phase.observe shared.queues).must := by
      refine Phase.mem_must_observe hmust ?_
      rcases hs.pooled opened hmust with hcurrent | hin
      · exact .inl hcurrent
      · rcases htask.mem_queues hin with hin' | ⟨size', exchange', rest, hpc', -⟩
        · exact .inr hin'
        · rw [hpc] at hpc'
          cases hpc'
    have hnew : (shared.object opened).hQueue = some a.handle ∧
        (shared.object opened).isOpen = true := by
      rw [hobject, Function.update_self]
      exact ⟨rfl, rfl⟩
    by_cases hh : h = a.handle
    · exact ⟨opened, hmust', ⟨hh ▸ hnew.1, hopen⟩, hnew.2⟩
    · have hne : queue ≠ opened := by
        rintro rfl
        exact hh (Option.some.inj (hsome.symm.trans hnew.1))
      have hsame : shared.object queue = c.shared.object queue := by
        rw [hobject, Function.update_of_ne hne]
      have hbefore : c.shared.HasOpen queue h :=
        ⟨hsame ▸ hsome, (hstill h hopen).resolve_left hh⟩
      obtain ⟨p, hp, ⟨hsome', hopen'⟩, hflag⟩ := hcovered queue h hbefore
      have hp' : p ≠ opened := by
        rintro rfl
        exact hshared queue h hne hbefore hsome'
      have hsame' : shared.object p = c.shared.object p := by
        rw [hobject, Function.update_of_ne hp']
      exact ⟨p, hstays p hp ⟨h, hsome', hopen'⟩, ⟨hsame' ▸ hsome', hopen⟩, hsame' ▸ hflag⟩

/-- The closing of the queue that the iterator has come to.  Its handle is open no more, so the
queue need not be reached again. -/
theorem Covered.close (hs : c.Covered) {queue : QueueRef} {must may : List QueueRef}
    (hphase : c.phase = .closing queue must may) {hr : Hresult}
    (hok : ((c.shared.object queue).close hr c.shared.calls).result = .ok ()) :
    Covered { c with
      shared := c.shared.operated queue ((c.shared.object queue).close hr c.shared.calls)
      phase := .iterating (must.filter (· ≠ queue)) may } := by
  refine ⟨fun _ q h ho => ?_, fun q hq => .inr ?_⟩
  · obtain ⟨p, hp, hopen, hflag⟩ :=
      hs.covered (by rw [hphase]; trivial) q h (Shared.HasOpen.of_close ho)
    have hne : p ≠ queue := by
      rintro rfl
      have hclosed := Shared.not_open_of_close hok hopen.1
      have hstill := ho.2
      simp only [Shared.operated] at hstill
      rw [hclosed] at hstill
      cases hstill
    have hin : p ∈ must := by
      rw [hphase] at hp
      exact (List.mem_cons.mp hp).resolve_left hne
    have hsame : (c.shared.operated queue
        ((c.shared.object queue).close hr c.shared.calls)).object p = c.shared.object p :=
      Function.update_of_ne hne _ _
    exact ⟨p, List.mem_filter.mpr ⟨hin, by simpa using hne⟩, ⟨hsame ▸ hopen.1, ho.2⟩,
      hsame ▸ hflag⟩
  · obtain ⟨hin, hne⟩ := List.mem_filter.mp hq
    have hother : q ≠ queue := by simpa using hne
    rcases hs.pooled q (by rw [hphase]; exact List.mem_cons_of_mem _ hin) with hcurrent | hpool
    · rw [hphase] at hcurrent
      exact absurd (Option.some.inj hcurrent).symm hother
    · exact hpool

/-- **One action.**  A worker may open a handle of an object that is still to be closed,
`doStop` may close one, and MSMQ may give a closed handle out again; in each case all open
handles still belong to objects that `doStop` will come to. -/
theorem Covered.step (hs : c.Covered) (h : c.step endpoint act = some c')
    (hminds : c.Minds endpoint act) : c'.Covered := by
  cases steps_of_step h with
  | start hphase hscheduled hidle => exact ⟨hs.covered, hs.pooled⟩
  | task htask => exact hs.task htask hminds
  | shutdown hphase => exact ⟨False.elim, nofun⟩
  | iterate hphase => exact ⟨fun _ => hminds, fun q hq => .inr hq⟩
  | @pass queue must may hphase hmay hopen =>
      refine ⟨fun _ q h ho => ?_, fun q hq => .inr ?_⟩
      · obtain ⟨p, hp, hopen', hflag⟩ := hs.covered (by rw [hphase]; trivial) q h ho
        rw [hphase] at hp
        have hne : p ≠ queue := by
          rintro rfl
          rw [hopen] at hflag
          cases hflag
        exact ⟨p, List.mem_filter.mpr ⟨hp, by simpa using hne⟩, hopen', hflag⟩
      · have hin := (List.mem_filter.mp hq).1
        rcases hs.pooled q (by rw [hphase]; exact hin) with hcurrent | hpool
        · rw [hphase] at hcurrent
          cases hcurrent
        · exact hpool
  | @visit queue must may hphase hmay hopen =>
      refine ⟨fun _ q h ho => ?_, fun q hq => ?_⟩
      · obtain ⟨p, hp, hreach⟩ := hs.covered (by rw [hphase]; trivial) q h ho
        rw [hphase] at hp
        exact ⟨p, List.mem_cons_of_mem _ hp, hreach⟩
      · rcases List.mem_cons.mp hq with rfl | hin
        · exact .inl rfl
        · rcases hs.pooled q (by rw [hphase]; exact hin) with hcurrent | hpool
          · rw [hphase] at hcurrent
            cases hcurrent
          · exact .inr hpool
  | close hphase hok => exact hs.close hphase hok
  | closeFails hphase herror => exact ⟨False.elim, nofun⟩
  | finish hphase =>
      refine ⟨fun _ q h ho => ?_, nofun⟩
      have hreach := hs.covered (by rw [hphase]; trivial) q h ho
      rw [hphase] at hreach
      exact hreach

/-! ## Stop is final -/

/-- What MSMQ is relied on for: messages are removed through open handles only. -/
def Genuine (c : Consumer N) : Action N → Prop
  | .task w (.receives a) => failed a.hr = false →
      ∀ queue, (c.worker w).pc.queue = some queue → c.shared.HasOpenHandle queue
  | _ => True

/-- When `doStop` has returned no queue object has an open handle. -/
theorem Covered.not_open (hs : c.Covered) (hstopped : c.phase = .stopped) (queue : QueueRef) :
    ¬c.shared.HasOpenHandle queue := by
  rintro ⟨h, ho⟩
  obtain ⟨p, hp, -⟩ := hs.covered (by rw [hstopped]; trivial) queue h ho
  rw [hstopped] at hp
  cases hp

/-- A step after `doStop` has returned: all handles are closed, so no receive can remove
anything. -/
theorem Covered.stopped_step (hs : c.Covered) (hstopped : c.phase = .stopped)
    (h : c.step endpoint act = some c') (hgenuine : c.Genuine act) :
    c'.phase = .stopped ∧ c'.shared.removals = c.shared.removals := by
  cases steps_of_step h with
  | start hother => exact nomatch hstopped.symm.trans hother
  | @task w ans after shared htask =>
      refine ⟨congrArg (Phase.observe _) hstopped, ?_⟩
      obtain ⟨hsame, -⟩ | ⟨size, queue, loop, a, hpc, rfl, hhr, -⟩ := htask.removals
      · exact hsame
      · have hqueue : (c.worker w).pc.queue = some queue := by rw [hpc]; rfl
        exact absurd (hgenuine hhr queue hqueue) (hs.not_open hstopped queue)
  | shutdown hother => exact nomatch hstopped.symm.trans hother
  | iterate hother => exact nomatch hstopped.symm.trans hother
  | pass hother => exact nomatch hstopped.symm.trans hother
  | visit hother => exact nomatch hstopped.symm.trans hother
  | close hother => exact nomatch hstopped.symm.trans hother
  | closeFails hother => exact nomatch hstopped.symm.trans hother
  | finish hother => exact nomatch hstopped.symm.trans hother

/-- **Stop is final.**  In a run whose actions mind the closing, no queue object has an open
handle and no message is removed once `doStop` has returned, however the workers go on.  Runs
that are in progress may go on for as long as they like: they find their queues closed, and the
receives they still make bring nothing.  Before the return nothing is promised, and nothing is
asked of the answers of MSMQ but that a message is removed through an open handle. -/
theorem stop_is_final {before after : List (Action N)} {c c' : Consumer N}
    (hbefore : Runs.run (step endpoint) (doStart N) before = some c)
    (hstopped : c.phase = .stopped)
    (hafter : Runs.run (step endpoint) c after = some c')
    (hgenuine : Runs.EachStep (step endpoint) Genuine (doStart N) (before ++ after))
    (hminds : Runs.EachStep (step endpoint) (Minds endpoint) (doStart N) (before ++ after)) :
    (∀ queue, ¬c'.shared.HasOpenHandle queue) ∧ c'.shared.removals = c.shared.removals := by
  obtain ⟨hmindsBefore, hmindsAfter⟩ := (Runs.eachStep_append_iff _ hbefore).mp hminds
  obtain ⟨-, hgenuineAfter⟩ := (Runs.eachStep_append_iff _ hbefore).mp hgenuine
  have hmiddle : c.Covered :=
    (Runs.throughout_of_eachStep (step endpoint) (fun _ _ _ hs h hok => hs.step h hok)
      covered_doStart hmindsBefore).finish _ hbefore
  -- from here on the phase and the removals stay as they are
  have hkeep : ∀ (x : Consumer N) (act : Action N) (x' : Consumer N),
      (x.Covered ∧ x.phase = .stopped ∧ x.shared.removals = c.shared.removals) →
      x.step endpoint act = some x' → (x.Genuine act ∧ x.Minds endpoint act) →
      x'.Covered ∧ x'.phase = .stopped ∧ x'.shared.removals = c.shared.removals := by
    intro x act x' hx h hok
    obtain ⟨hs, hphase, hremovals⟩ := hx
    obtain ⟨hphase', hremovals'⟩ := hs.stopped_step hphase h hok.1
    exact ⟨hs.step h hok.2, hphase', hremovals'.trans hremovals⟩
  obtain ⟨hs, hphase, hremovals⟩ :=
    (Runs.throughout_of_eachStep (step endpoint) hkeep ⟨hmiddle, hstopped, rfl⟩
      fun done act x hpre hrun =>
        ⟨hgenuineAfter done act x hpre hrun, hmindsAfter done act x hpre hrun⟩).finish _ hafter
  exact ⟨hs.not_open hphase, hremovals⟩

/-- The worker is receiving on a queue it has not taken out of the pool when `doStop`
closes that queue under it; the receive then fails. -/
theorem stop_is_final_receiving :
    let endpoint : MsmqEndpoint := { remaining := some [113] }
    ∃ c c' : Consumer 1, c.phase = .stopped ∧
      Runs.run (step endpoint) c
        [.task 0 (.receives ⟨mqErrorStaleHandle, default, 0, []⟩), .task 0 .go] = some c' ∧
      (∀ queue, ¬c'.shared.HasOpenHandle queue) ∧ c'.shared.removals = c.shared.removals := by
  intro endpoint
  let before : List (Action 1) := [.start 0, .task 0 .go, .task 0 (.created none), .task 0 .go,
    .task 0 (.opens (.always 0 1 0)), .task 0 (.allocates default),
    .shutdown, .iterate, .visit 0, .close 0, .finish]
  let after : List (Action 1) :=
    [.task 0 (.receives ⟨mqErrorStaleHandle, default, 0, []⟩), .task 0 .go]
  have hbefore : ∃ c, Runs.run (step endpoint) (doStart 1) before = some c ∧
      c.phase = .stopped ∧ ∃ c', Runs.run (step endpoint) c after = some c' :=
    ⟨_, rfl, rfl, _, rfl⟩
  have hgenuine : Runs.EachStep (step endpoint) Genuine (doStart 1) (before ++ after) := by
    iterate 11 refine (Runs.eachStep_cons_iff _ rfl).mpr ⟨trivial, ?_⟩
    refine (Runs.eachStep_cons_iff _ rfl).mpr ⟨nofun, ?_⟩
    refine (Runs.eachStep_cons_iff _ rfl).mpr ⟨trivial, ?_⟩
    exact Runs.eachStep_nil _ _
  have hminds : Runs.EachStep (step endpoint) (Minds endpoint) (doStart 1)
      (before ++ after) := by
    refine (Runs.eachStep_cons_iff _ rfl).mpr ⟨trivial, ?_⟩
    iterate 5 refine (Runs.eachStep_cons_iff _ rfl).mpr ⟨False.elim, ?_⟩
    refine (Runs.eachStep_cons_iff _ rfl).mpr ⟨trivial, ?_⟩
    refine (Runs.eachStep_cons_iff _ rfl).mpr ⟨fun queue h ho => ?_, ?_⟩
    · rcases stillOpen_of_cons ho.2 with hopened | hold
      · exact ⟨0, List.mem_cons_self, ⟨hopened, ho.2⟩, rfl⟩
      · cases hold
    iterate 3 refine (Runs.eachStep_cons_iff _ rfl).mpr ⟨trivial, ?_⟩
    iterate 2 refine (Runs.eachStep_cons_iff _ rfl).mpr ⟨fun _ => ⟨nofun, nofun⟩, ?_⟩
    exact Runs.eachStep_nil _ _
  obtain ⟨c, hc, hstopped, c', hc'⟩ := hbefore
  exact ⟨c, c', hstopped, hc', stop_is_final hc hstopped hc' hgenuine hminds⟩

/-- `doStop` is called when the worker is about to open its queue: it does so after
the stop, and receives. -/
theorem opened_after_stop :
    let endpoint : MsmqEndpoint := { remaining := some [113] }
    ∃ c c' : Consumer 1,
      Runs.run (step endpoint) (doStart 1)
        [.start 0, .task 0 .go, .task 0 (.created none), .task 0 .go,
          .shutdown, .iterate, .visit 0, .finish] = some c ∧
      c.phase = .stopped ∧
      Runs.run (step endpoint) c
        [.task 0 (.opens (.always 0 1 0)), .task 0 (.allocates default),
          .task 0 (.receives ⟨0, default, 0, [65, 66]⟩)] = some c' ∧
      c'.shared.HasOpenHandle 0 ∧ c.shared.removals = [] ∧
      c'.shared.removals = [(⟨0, 0⟩, ⟨[65, 66], default⟩)] :=
  ⟨_, _, rfl, rfl, rfl, ⟨1, rfl, rfl⟩, rfl, rfl⟩

end Consumer

end Msmq
