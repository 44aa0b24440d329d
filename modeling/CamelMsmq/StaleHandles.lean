import CamelMsmq.Consumer
import CamelMsmq.ProducerHandles
import CamelMsmq.QueueHandles
import CamelMsmq.QueueObjects

/-!
# Stale handles

A handle that MSMQ reports stale is to be given up: the object is not open any more,
and the handle is never passed to MSMQ again.  `sendMessage` sees to it and
`receiveMessage` does not.  What that means is settled at three levels: for a queue
object on its own, for a producer, and for a consumer, whose workers come back to
the object in later runs.

For the first two the work has been done in `QueueHandles` and `ProducerHandles`.  For a
consumer the condition is about the answers to a step of a worker (`Task.GivesUpStale`).
There are two kinds of answers to rule out: a receive that finds the handle of an open
object stale, and a call that passes the old handle of an object that is not open,
which can come from an `open` that fails or from a receive that the closing has overtaken.

Each level gives an equivalence, so the conditions cannot be weakened.
-/

namespace Msmq

/-- No call passes a handle that is stale, and an object whose handle is stale is not
open. -/
structure Shared.StaleGivenUp (sh : Shared) : Prop where
  heeded : Report.stale.Heeded sh.calls
  notOpen : ∀ queue h, (sh.object queue).hQueue = some h →
    Report.stale.holds h sh.calls = true → (sh.object queue).isOpen = false

namespace Task

/-- The answers to a step that keep to it: an object that is not open does not pass a
stale handle when it fails to open again or receives after it was closed, and a handle
that a receive finds stale belongs to no open object. -/
def GivesUpStale (endpoint : MsmqEndpoint) (sh : Shared) : Pc → Answer → Prop
  | .atOpen _ queue _, .opens a =>
      Report.stale.CarefulOpening (sh.object queue) endpoint.remaining a sh.calls
  | .atReceive _ queue _, .receives a => ∀ h, (sh.object queue).hQueue = some h →
      ((sh.object queue).isOpen = false → Report.stale.holds h sh.calls = false) ∧
      (a.hr = mqErrorStaleHandle → ∀ q, (sh.object q).hQueue = some h →
        (sh.object q).isOpen = false)
  | _, _ => True

end Task

namespace Shared.StaleGivenUp

variable {endpoint : MsmqEndpoint} {sh sh' : Shared} {queue : QueueRef} {pc : Pc} {ans : Answer}
  {h : Handle}

/-- The handle of an open object is not stale, or it would have been given up. -/
theorem free (hs : sh.StaleGivenUp) (hsome : (sh.object queue).hQueue = some h)
    (hopen : (sh.object queue).isOpen = true) : Report.stale.holds h sh.calls = false := by
  cases hholds : Report.stale.holds h sh.calls with
  | false => rfl
  | true =>
      have hclosed := hs.notOpen queue h hsome hholds
      rw [hopen] at hclosed
      cases hclosed

/-- An `open`.  Only its failure exit can pass a stale handle, the one that the object still
has. -/
theorem open_iff (hs : sh.StaleGivenUp) (a : OpenAnswers)
    (hobject : sh'.object = Function.update sh.object queue
      ((sh.object queue).open endpoint.remaining a sh.calls).queue)
    (hcalls : sh'.calls = ((sh.object queue).open endpoint.remaining a sh.calls).calls) :
    sh'.StaleGivenUp ↔
      Report.stale.CarefulOpening (sh.object queue) endpoint.remaining a sh.calls := by
  obtain ⟨hnone, heq⟩ | ⟨name, cs, hname, hcs, hopens, heq⟩ | ⟨name, cs, hname, hcs, hopens, heq⟩ :=
    (sh.object queue).open_cases endpoint.remaining a sh.calls <;> rw [heq] at hobject hcalls
  · refine ⟨fun _ _ hpath => absurd hnone hpath, fun _ => ⟨hcalls ▸ hs.heeded, ?_⟩⟩
    rw [hobject, hcalls, Function.update_eq_self]
    exact hs.notOpen
  · have hok := OpenAnswers.not_failed_of_opens hopens
    refine ⟨fun _ _ _ hrefused => ?_, fun _ => ⟨?_, fun q g hsome hholds => ?_⟩⟩
    · rw [hopens] at hrefused
      cases hrefused
    · rw [hcalls]
      refine ⟨fun h hh => ?_, (Report.heeded_append hcs).mpr hs.heeded⟩
      cases hh
    · rw [hcalls] at hholds
      rw [hobject] at hsome ⊢
      by_cases hq : q = queue
      · subst hq
        rw [Function.update_self] at hsome
        obtain rfl : a.handle = g := Option.some.inj hsome
        simp [Report.holds, MqCall.opened?, hok] at hholds
      · rw [Function.update_of_ne hq] at hsome ⊢
        refine hs.notOpen q g hsome ?_
        have hboth := (Bool.and_eq_true_iff.mp hholds).2
        rw [Report.holds_append hcs] at hboth
        simpa [Report.made, MqCall.stale?] using hboth
  · rw [Function.update_eq_self] at hobject
    have hsame : ∀ g, Report.stale.holds g sh'.calls = Report.stale.holds g sh.calls := by
      intro g
      rw [hcalls]
      simp [Report.holds, Report.made, MqCall.opened?, MqCall.stale?, Report.holds_append hcs]
    constructor
    · intro hs' _ _ _ g hsome
      have hheeded := hs'.heeded
      rw [hcalls] at hheeded
      have hfree := hheeded.1 g hsome
      rwa [Report.holds_append hcs] at hfree
    · intro hcareful
      refine ⟨?_, fun q g hsome hholds => ?_⟩
      · rw [hcalls]
        refine ⟨fun g hg => ?_, (Report.heeded_append hcs).mpr hs.heeded⟩
        rw [Report.holds_append hcs]
        -- an object that is open all the same has a handle that is not stale
        cases hopen : (sh.object queue).isOpen with
        | true => exact hs.free hg hopen
        | false => exact hcareful hopen (by simp [hname]) hopens g hg
      · rw [hobject] at hsome ⊢
        rw [hsame] at hholds
        exact hs.notOpen q g hsome hholds

/-- A receive.  It passes the handle of its object, and if MSMQ finds that stale, no object that
has it may stay open. -/
theorem receive_iff (hs : sh.StaleGivenUp) {pElems : Option Addr} {cElems : UInt32} {hr : Hresult}
    (hobject : sh'.object = sh.object)
    (hcalls : sh'.calls = .receiveMessage (sh.object queue).hQueue pElems cElems hr :: sh.calls) :
    sh'.StaleGivenUp ↔ ∀ h, (sh.object queue).hQueue = some h →
      ((sh.object queue).isOpen = false → Report.stale.holds h sh.calls = false) ∧
      (hr = mqErrorStaleHandle → ∀ q, (sh.object q).hQueue = some h →
        (sh.object q).isOpen = false) := by
  constructor
  · intro hs' h hsome
    have hheeded := hs'.heeded
    rw [hcalls] at hheeded
    refine ⟨fun _ => hheeded.1 h hsome, fun hstale q hq => ?_⟩
    have hholds : Report.stale.holds h sh'.calls = true := by
      rw [hcalls]
      simp [Report.holds, Report.made, MqCall.opened?, MqCall.stale?, hstale, hsome]
    have hclosed := hs'.notOpen q h (by rw [hobject]; exact hq) hholds
    rwa [hobject] at hclosed
  · intro hgives
    refine ⟨?_, fun q h hq hholds => ?_⟩
    · rw [hcalls]
      refine ⟨fun h hsome => ?_, hs.heeded⟩
      cases hopen : (sh.object queue).isOpen with
      | true => exact hs.free hsome hopen
      | false => exact (hgives h hsome).1 hopen
    · rw [hobject] at hq ⊢
      rw [hcalls] at hholds
      have hboth := (Bool.and_eq_true_iff.mp hholds).2
      rcases Bool.or_eq_true_iff.mp hboth with hmade | hold
      · -- this very receive has found the handle stale
        have hreport : (if hr = mqErrorStaleHandle then (sh.object queue).hQueue else none) =
            some h := of_decide_eq_true hmade
        split at hreport
        · exact (hgives h hreport).2 ‹_› q hq
        · cases hreport
      · exact hs.notOpen q h hq hold

/-- **A step of a worker** gives stale handles up exactly if its answer does. -/
theorem operation_iff (hs : sh.StaleGivenUp) (h : Task.Operation endpoint sh sh' pc ans) :
    sh'.StaleGivenUp ↔ Task.GivesUpStale endpoint sh pc ans := by
  cases h with
  | none hobject hcalls hopens hreceives =>
      have hgives : Task.GivesUpStale endpoint sh pc ans := by
        unfold Task.GivesUpStale
        split
        · exact absurd rfl (hopens _)
        · exact absurd rfl (hreceives _)
        · trivial
      refine ⟨fun _ => hgives, fun _ => ⟨hcalls ▸ hs.heeded, ?_⟩⟩
      rw [hobject, hcalls]
      exact hs.notOpen
  | opens hpc hans hobject hcalls =>
      subst hpc hans
      exact hs.open_iff _ hobject hcalls
  | receives hpc hans hobject hcalls =>
      subst hpc hans
      exact hs.receive_iff hobject hcalls

/-- Closing an open object. -/
theorem close (hs : sh.StaleGivenUp) (hopen : (sh.object queue).isOpen = true) (hr : Hresult) :
    (sh.operated queue ((sh.object queue).close hr sh.calls)).StaleGivenUp := by
  have hspec : ((sh.object queue).close hr sh.calls).queue.hQueue = (sh.object queue).hQueue ∧
      (((sh.object queue).close hr sh.calls).calls = sh.calls ∨
        ∃ g, (sh.object queue).hQueue = some g ∧
          ((sh.object queue).close hr sh.calls).calls = .closeQueue (some g) hr :: sh.calls) := by
    obtain ⟨-, heq⟩ | ⟨g, hsome, -, heq⟩ | ⟨g, hsome, -, heq⟩ :=
      (sh.object queue).close_cases hr sh.calls <;> rw [heq]
    · exact ⟨rfl, .inl rfl⟩
    · exact ⟨rfl, .inr ⟨g, hsome, rfl⟩⟩
    · exact ⟨rfl, .inr ⟨g, hsome, rfl⟩⟩
  obtain ⟨hhandle, hcalls⟩ := hspec
  have hholds : ∀ h, Report.stale.holds h ((sh.object queue).close hr sh.calls).calls =
      Report.stale.holds h sh.calls := by
    intro h
    rcases hcalls with heq | ⟨g, -, heq⟩ <;> rw [heq]
    simp [Report.holds, Report.made, MqCall.opened?, MqCall.stale?]
  constructor
  · show Report.stale.Heeded ((sh.object queue).close hr sh.calls).calls
    rcases hcalls with heq | ⟨g, hsome, heq⟩ <;> rw [heq]
    · exact hs.heeded
    · refine ⟨fun h hh => ?_, hs.heeded⟩
      obtain rfl : g = h := Option.some.inj hh
      exact hs.free hsome hopen
  · intro q h hq hstale
    have hold : Report.stale.holds h sh.calls = true := (hholds h).symm.trans hstale
    by_cases hne : q = queue
    · subst hne
      simp only [Shared.operated, Function.update_self, hhandle] at hq
      rw [hs.free hq hopen] at hold
      cases hold
    · simp only [Shared.operated, Function.update_of_ne hne] at hq ⊢
      exact hs.notOpen q h hq hold

end Shared.StaleGivenUp

namespace Consumer

variable {N : Nat} {endpoint : MsmqEndpoint} {c c' : Consumer N} {act : Action N}

/-- Stale handles have been given up. -/
def StaleGivenUp (c : Consumer N) : Prop := c.shared.StaleGivenUp

/-- The actions that give stale handles up. -/
def GivesUpStale (endpoint : MsmqEndpoint) (c : Consumer N) : Action N → Prop
  | .task w ans => Task.GivesUpStale endpoint c.shared (c.worker w).pc ans
  | _ => True

/-- The queue that `closeQueues` is about to close is open. -/
def ClosingOpen (c : Consumer N) : Prop :=
  ∀ queue must may, c.phase = .closing queue must may → (c.shared.object queue).isOpen = true

/-- No worker closes a queue, so one that `closeQueues` has found open is open when its turn
comes. -/
theorem ClosingOpen.step (hc : c.ClosingOpen) (h : c.step endpoint act = some c') :
    c'.ClosingOpen := by
  cases steps_of_step h with
  | start hphase => exact hc
  | @task w ans after shared htask =>
      intro queue must may hphase
      cases hold : c.phase with
      | closing q must' may' =>
          have heq : (Phase.closing q must' may').observe shared.queues =
              .closing queue must may := hold ▸ hphase
          obtain rfl : q = queue := by
            cases heq
            rfl
          exact htask.operation.isOpen (hc q must' may' hold)
      | _ =>
          have heq : c.phase.observe shared.queues = .closing queue must may := hphase
          rw [hold] at heq
          cases heq
  | shutdown hphase => exact nofun
  | iterate hphase => exact nofun
  | pass hphase hmay hopen => exact nofun
  | visit hphase hmay hopen =>
      intro queue must may heq
      cases heq
      exact hopen
  | close hphase hok => exact nofun
  | closeFails hphase herror => exact nofun
  | finish hphase => exact nofun

/-- **One action** gives stale handles up exactly if it is one of those that
`GivesUpStale` describes. -/
theorem staleGivenUp_step_iff (hs : c.StaleGivenUp) (hc : c.ClosingOpen)
    (h : c.step endpoint act = some c') : c'.StaleGivenUp ↔ c.GivesUpStale endpoint act := by
  unfold StaleGivenUp at hs ⊢
  cases steps_of_step h with
  | task htask => exact hs.operation_iff htask.operation
  | close hphase hok =>
      exact ⟨fun _ => trivial, fun _ => hs.close (hc _ _ _ hphase) _⟩
  | closeFails hphase herror =>
      exact ⟨fun _ => trivial, fun _ => hs.close (hc _ _ _ hphase) _⟩
  | _ => exact ⟨fun _ => trivial, fun _ => hs⟩

theorem staleGivenUp_doStart : (doStart N).StaleGivenUp :=
  ⟨trivial, fun _ _ hsome => nomatch hsome⟩

/-- **Stale handles of a consumer.**  They are given up throughout a run exactly when each
action of the run gives them up.  The actions of `doStop` always do, so the condition is on what
MSMQ answers to the workers. -/
theorem staleGivenUp_throughout {acts : List (Action N)} {finish : Consumer N}
    (hrun : Runs.run (step endpoint) (doStart N) acts = some finish) :
    Runs.Throughout (step endpoint) StaleGivenUp (doStart N) acts ↔
      Runs.EachStep (step endpoint) (GivesUpStale endpoint) (doStart N) acts :=
  Runs.throughout_iff_eachStep (step endpoint) (fun c => c.StaleGivenUp ∧ c.ClosingOpen)
    (fun _ hs => hs.1)
    (fun _ _ _ hs h hok => ⟨(staleGivenUp_step_iff hs.1 hs.2 h).mpr hok, hs.2.step h⟩)
    (fun _ _ _ hs h hup => (staleGivenUp_step_iff hs.1 hs.2 h).mp hup)
    ⟨staleGivenUp_doStart, nofun⟩ hrun

end Consumer

/-- **When stale handles are given up.**  A queue object on its own gives them up as
long as no receive on an open object finds its handle stale; a producer as long as no
`process` fails to open the queue again while its handle is stale; and a consumer as
long as no receive finds the handle of an open object stale, and no object that is
not open passes a stale handle when it fails to open or receives after it was closed. -/
theorem stale_handles_given_up (endpoint : MsmqEndpoint) (N : Nat) :
    (∀ (ops : List QueueOp) (finish : QueueState),
      Runs.run (QueueState.step true) .init ops = some finish →
      (Runs.Throughout (QueueState.step true) QueueState.GivenUp .init ops ↔
        Runs.EachStep (QueueState.step true) QueueState.GivesUp .init ops)) ∧
    (∀ acts : List ProducerAction,
      Runs.Throughout (ProducerState.step endpoint) (ProducerState.Heeds .stale) (.init endpoint)
          acts ↔
        Runs.EachStep (ProducerState.step endpoint) (ProducerState.Careful endpoint .stale)
          (.init endpoint) acts) ∧
    (∀ (acts : List (Action N)) (finish : Consumer N),
      Runs.run (Consumer.step endpoint) (Consumer.doStart N) acts = some finish →
      (Runs.Throughout (Consumer.step endpoint) Consumer.StaleGivenUp (Consumer.doStart N) acts ↔
        Runs.EachStep (Consumer.step endpoint) (Consumer.GivesUpStale endpoint)
          (Consumer.doStart N) acts)) := by
  refine ⟨fun ops finish hrun => ?_, fun acts => ?_, fun acts finish hrun => ?_⟩
  · exact QueueState.givenUp_throughout hrun
  · exact ProducerState.heeds_throughout_iff endpoint acts
  · exact Consumer.staleGivenUp_throughout hrun

/-- A send finds the handle of an object stale, a producer opens its queue, and the only
worker of a consumer opens its queue and waits for a message. -/
theorem stale_handles_given_up_waiting :
    let endpoint : MsmqEndpoint := { remaining := some [113] }
    let e := Exchange.create.setBody (.string [])
    let heap : Heap := ⟨0, fun _ => []⟩
    Runs.Throughout (QueueState.step true) QueueState.GivenUp .init
        [.open (some [113]) (.always 0 1 0), .send ⟨[], default⟩ mqErrorStaleHandle] ∧
      Runs.Throughout (ProducerState.step endpoint) (ProducerState.Heeds .stale) (.init endpoint)
        [.process e heap ⟨.always 0 1 0, default, 0⟩] ∧
      Runs.Throughout (Consumer.step endpoint) Consumer.StaleGivenUp (Consumer.doStart 1)
        [.start 0, .task 0 .go, .task 0 (.created none), .task 0 .go,
          .task 0 (.opens (.always 0 1 0)), .task 0 (.allocates default),
          .task 0 (.receives ⟨mqErrorIoTimeout, default, 0, []⟩)] := by
  intro endpoint e heap
  obtain ⟨hobject, hproducer, hconsumer⟩ := stale_handles_given_up endpoint 1
  refine ⟨(hobject _ _ rfl).mpr ?_, (hproducer _).mpr ?_, (hconsumer _ _ rfl).mpr ?_⟩
  · iterate 2 refine (Runs.eachStep_cons_iff _ rfl).mpr ⟨trivial, ?_⟩
    exact Runs.eachStep_nil _ _
  · refine (Runs.eachStep_cons_iff _ rfl).mpr ⟨?_, ?_⟩
    · intro _ _ _ h hsome
      cases hsome
    · exact Runs.eachStep_nil _ _
  · iterate 4 refine (Runs.eachStep_cons_iff _ rfl).mpr ⟨trivial, ?_⟩
    refine (Runs.eachStep_cons_iff _ rfl).mpr ⟨?_, ?_⟩
    · intro _ _ _ h hsome
      cases hsome
    refine (Runs.eachStep_cons_iff _ rfl).mpr ⟨trivial, ?_⟩
    have htimeout : mqErrorIoTimeout ≠ mqErrorStaleHandle := by decide
    refine (Runs.eachStep_cons_iff _ rfl).mpr ⟨?_, ?_⟩
    · intro h _
      exact ⟨nofun, fun hstale => absurd hstale htimeout⟩
    · exact Runs.eachStep_nil _ _

/-- A receive finds the handle stale, and the object stays open.  In a consumer of two
workers the run of worker 0 ends with that receive; worker 1 gets the object in its
second run, takes it for open, and passes the stale handle to MSMQ. -/
theorem stale_handle_kept_by_receive :
    (∃ s, Runs.run (QueueState.step true) .init
        [.open (some [113]) (.always 0 1 0), .receive default mqErrorStaleHandle] = some s ∧
      s.queue = ⟨some 1, true⟩ ∧ ¬s.GivenUp) ∧
    ∃ c : Consumer 2, Runs.run (Consumer.step { remaining := some [113] }) (Consumer.doStart 2)
        [.start 0, .task 0 (.created none), .task 0 .go, .task 0 .go,
          .task 0 (.opens (.always 0 1 0)), .task 0 (.allocates default),
          .task 0 (.receives ⟨mqErrorStaleHandle, default, 0, []⟩), .task 0 .go,
          .start 1, .task 1 (.created none), .task 1 .go, .task 1 .go,
          .task 1 (.opens (.always 0 2 0)), .task 1 (.allocates default),
          .task 1 (.receives ⟨0, default, 0, [65, 66]⟩), .task 1 (.processes none .create []),
          .task 1 .go,
          .start 1, .task 1 (.created none), .task 1 .go, .task 1 .go,
          .task 1 (.allocates default),
          .task 1 (.receives ⟨mqErrorIoTimeout, default, 0, []⟩)] = some c ∧
      ¬Report.stale.Heeded c.shared.calls := by
  refine ⟨⟨_, rfl, rfl, ?_⟩, ⟨_, rfl, ?_⟩⟩
  · intro hup
    exact absurd (hup rfl) (by decide)
  · intro hheeded
    exact absurd (hheeded.1 1 rfl) (by decide)

end Msmq
