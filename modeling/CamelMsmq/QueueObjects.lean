import CamelMsmq.TaskSpec

/-!
# The queue objects of a consumer

Of all the steps of a worker only two operate a queue object: the opening and the
receive.  A third operation, the closing, is left to `doStop`.  So far as handles go
there are two kinds of steps of a worker: it gives one object a handle that MSMQ has
opened, or it leaves all objects as they are and MSMQ opens nothing.

`Task.Operation` is that list for the objects and the history of calls, and
`Operation.handles` what it comes to for the handles that MSMQ has open.  The modules
about stale handles and about stopping use these two wherever handles are concerned.

A handle counts as open from the call that gave it out to the one that closed it
(`stillOpen`).  It may be open without any object having it: a second `open` of an
object overwrites the handle and closes nothing.
-/

namespace Msmq

/-- MSMQ has the handle open: it gave it out, and it has not closed it since. -/
def stillOpen (h : Handle) : List MqCall → Bool
  | [] => false
  | c :: calls => c.opened? = some h || (c.closed? ≠ some h && stillOpen h calls)

section StillOpen

variable {cs calls : List MqCall} {c : MqCall} {h : Handle}

/-- Refused attempts to open the queue open and close nothing. -/
theorem stillOpen_append (hcs : Refusals cs) :
    stillOpen h (cs ++ calls) = stillOpen h calls := by
  refine hcs.induct rfl fun name hr g cs hfail ih => ?_
  simp [stillOpen, MqCall.opened?, MqCall.closed?, hfail, ih]

/-- What is open after a call was open before, or has been opened by it. -/
theorem stillOpen_of_cons (ho : stillOpen h (c :: calls) = true) :
    c.opened? = some h ∨ stillOpen h calls = true := by
  rcases Bool.or_eq_true_iff.mp ho with hopened | hold
  · exact .inl (of_decide_eq_true hopened)
  · exact .inr (Bool.and_eq_true_iff.mp hold).2

/-- A call that is no opening opens nothing. -/
theorem stillOpen_of_none (hc : c.opened? = none) (ho : stillOpen h (c :: calls) = true) :
    stillOpen h calls = true := by
  rcases stillOpen_of_cons ho with hopened | hold
  · rw [hc] at hopened
    cases hopened
  · exact hold

/-- A call that neither opens nor closes makes no difference. -/
theorem stillOpen_cons_of_none (hopened : c.opened? = none) (hclosed : c.closed? = none) :
    stillOpen h (c :: calls) = stillOpen h calls := by
  simp [stillOpen, hopened, hclosed]

end StillOpen

namespace Shared

/-- The object has the handle `h`, and MSMQ has it open. -/
def HasOpen (sh : Shared) (queue : QueueRef) (h : Handle) : Prop :=
  (sh.object queue).hQueue = some h ∧ stillOpen h sh.calls = true

/-- The object has an open handle. -/
def HasOpenHandle (sh : Shared) (queue : QueueRef) : Prop := ∃ h, sh.HasOpen queue h

end Shared

namespace Task

variable {endpoint : MsmqEndpoint} {me : RunId} {sh sh' : Shared} {pc : Pc} {ans : Answer}
  {after : After}

/-- What a step means for the queue objects: an opening, a receive, or nothing.  What else the
step does makes no difference to them. -/
inductive Operation (endpoint : MsmqEndpoint) (sh sh' : Shared) (pc : Pc) (ans : Answer) : Prop
  | none (hobject : sh'.object = sh.object) (hcalls : sh'.calls = sh.calls)
      (hopens : ∀ a, ans ≠ .opens a) (hreceives : ∀ a, ans ≠ .receives a)
  | opens {size queue exchange a} (hpc : pc = .atOpen size queue exchange) (hans : ans = .opens a)
      (hobject : sh'.object = Function.update sh.object queue
        ((sh.object queue).open endpoint.remaining a sh.calls).queue)
      (hcalls : sh'.calls = ((sh.object queue).open endpoint.remaining a sh.calls).calls)
  | receives {size queue loop a} (hpc : pc = .atReceive size queue loop) (hans : ans = .receives a)
      (hobject : sh'.object = sh.object)
      (hcalls : sh'.calls = .receiveMessage (sh.object queue).hQueue loop.msmqMessage.pElems
        loop.msmqMessage.cElems a.hr :: sh.calls)

/-- A receive with a throwable after it: the handler inside the loop has nothing to do with
queue objects. -/
theorem operation_received {size : Nat} {queue : QueueRef} {loop : Loop} (a : ReceiveAnswer)
    (loop' : Loop) (ex : Throwable) :
    Operation endpoint sh
      (raiseInLoop endpoint (sh.received me queue loop a) size queue loop' ex).2
      (.atReceive size queue loop) (.receives a) := by
  have hsame := raiseInLoop_sameButHeap endpoint (sh.received me queue loop a) size queue loop' ex
  have hobject := hsame.object
  have hcalls := hsame.calls
  rw [Shared.object_received] at hobject
  rw [Shared.calls_received] at hcalls
  exact .receives rfl rfl hobject hcalls

/-- Whatever a step of a run does, to the queue objects it is an opening, a receive, or nothing. -/
theorem Steps.operation (h : Steps endpoint me sh pc ans after sh') :
    Operation endpoint sh sh' pc ans := by
  cases h with
  | opened a hok => exact .opens rfl rfl rfl rfl
  | notOpened a what herror => exact .opens rfl rfl rfl rfl
  | timeout a hfits hhr =>
      exact .receives rfl rfl (Shared.object_received _ _ _ _ _) (Shared.calls_received _ _ _ _ _)
  | overflow a hfits hhr => exact operation_received a _ _
  | receiveFails a hfits hhr => exact operation_received a _ _
  | received a filled hfits hhr hfill =>
      exact .receives rfl rfl (Shared.object_received _ _ _ _ _) (Shared.calls_received _ _ _ _ _)
  | notFilled a ex hfits hhr hfill => exact operation_received a _ _
  | @processorThrows size queue loop ex exchange writes hwrites =>
      have hsame := raiseInLoop_sameButHeap endpoint (sh.processed me loop writes) size queue
        { loop with exchange := exchange } ex
      exact .none hsame.object hsame.calls nofun nofun
  | _ => exact .none rfl rfl nofun nofun

/-- **Handles.**  A step of a worker leaves all objects as they are, and then nothing is
open that was not; or it has opened an object. -/
theorem Operation.handles (h : Operation endpoint sh sh' pc ans) :
    (sh'.object = sh.object ∧
      ∀ h, stillOpen h sh'.calls = true → stillOpen h sh.calls = true) ∨
    (∃ size queue exchange a, pc = .atOpen size queue exchange ∧ ans = .opens a ∧
      a.destFormatName endpoint.remaining ≠ Option.none ∧ a.opens = true ∧
      sh'.object = Function.update sh.object queue ⟨some a.handle, true⟩ ∧
      ∀ h, stillOpen h sh'.calls = true → h = a.handle ∨ stillOpen h sh.calls = true) := by
  cases h with
  | none hobject hcalls => exact .inl ⟨hobject, fun h ho => hcalls ▸ ho⟩
  | @opens size queue exchange a hpc hans hobject hcalls =>
      obtain ⟨-, heq⟩ | ⟨name, cs, hname, hcs, hopens, heq⟩ | ⟨name, cs, -, hcs, -, heq⟩ :=
        (sh.object queue).open_cases endpoint.remaining a sh.calls <;> rw [heq] at hobject hcalls
      · rw [Function.update_eq_self] at hobject
        refine .inl ⟨hobject, fun h ho => ?_⟩
        rwa [hcalls] at ho
      · refine .inr ⟨size, queue, exchange, a, hpc, hans, by simp [hname], hopens, hobject, ?_⟩
        intro h ho
        rw [hcalls] at ho
        rcases stillOpen_of_cons ho with hopened | hold
        · have hok := OpenAnswers.not_failed_of_opens hopens
          simp only [MqCall.opened?, hok, Bool.false_eq_true, if_false] at hopened
          exact .inl (Option.some.inj hopened).symm
        · exact .inr ((stillOpen_append hcs).symm.trans hold)
      · rw [Function.update_eq_self] at hobject
        refine .inl ⟨hobject, fun h ho => ?_⟩
        rw [hcalls] at ho
        exact (stillOpen_append hcs).symm.trans (stillOpen_of_none rfl ho)
  | receives hpc hans hobject hcalls =>
      refine .inl ⟨hobject, fun h ho => ?_⟩
      rw [hcalls] at ho
      exact stillOpen_of_none rfl ho

/-- A worker closes no object. -/
theorem Operation.isOpen (h : Operation endpoint sh sh' pc ans) {queue : QueueRef}
    (hopen : (sh.object queue).isOpen = true) : (sh'.object queue).isOpen = true := by
  obtain ⟨hobject, -⟩ | ⟨size, q, exchange, a, -, -, -, -, hobject, -⟩ := h.handles
  · rwa [hobject]
  · rw [hobject]
    by_cases hq : queue = q
    · subst hq
      rw [Function.update_self]
    · rwa [Function.update_of_ne hq]

end Task

namespace Shared

variable {sh : Shared} {queue q : QueueRef} {h : Handle} {hr : Hresult}

/-- A `close` opens no handle and gives none away. -/
theorem HasOpen.of_close
    (ho : (sh.operated queue ((sh.object queue).close hr sh.calls)).HasOpen q h) :
    sh.HasOpen q h := by
  obtain ⟨hsome, hopen⟩ := ho
  simp only [operated] at hsome hopen
  constructor
  · by_cases hq : q = queue
    · subst hq
      rw [Function.update_self] at hsome
      obtain ⟨-, heq⟩ | ⟨g, -, -, heq⟩ | ⟨g, -, -, heq⟩ :=
        (sh.object q).close_cases hr sh.calls <;> rwa [heq] at hsome
    · rwa [Function.update_of_ne hq] at hsome
  · obtain ⟨-, heq⟩ | ⟨g, -, -, heq⟩ | ⟨g, -, -, heq⟩ :=
      (sh.object queue).close_cases hr sh.calls <;> rw [heq] at hopen
    · exact hopen
    · exact stillOpen_of_none rfl hopen
    · exact stillOpen_of_none rfl hopen

/-- A `close` that returns has closed the handle. -/
theorem not_open_of_close (hok : ((sh.object queue).close hr sh.calls).result = .ok ())
    (hsome : (sh.object queue).hQueue = some h) :
    stillOpen h ((sh.object queue).close hr sh.calls).calls = false := by
  obtain ⟨hnone, -⟩ | ⟨g, hg, hfine, heq⟩ | ⟨g, -, -, heq⟩ :=
    (sh.object queue).close_cases hr sh.calls
  · rw [hnone] at hsome
    cases hsome
  · obtain rfl : g = h := Option.some.inj (hg.symm.trans hsome)
    rw [heq]
    simp [stillOpen, MqCall.opened?, MqCall.closed?, hfine]
  · rw [heq] at hok
    cases hok

end Shared

end Msmq
