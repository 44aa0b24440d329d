import CamelMsmq.Deliveries
import CamelMsmq.ProducerSpec

/-!
# Relaying a message

A route from one MSMQ queue to another passes the exchange of the consumer on to a
producer.  The producer sends a direct buffer up to its capacity, while the
consumer marks the message by the buffer's limit.  So the body survives exactly if
the buffer that finally was large enough has the very size of the message; otherwise
it arrives with bytes behind it that belong to the buffer.

The size of the buffer is the initial size and as many increments as the buffer has
grown in this run.  That number is read off the answers (`growths`): an overflow, or an
exception that the handler takes for one, makes the buffer grow.  `Counted` is the
invariant that carries the count through a run, in which other workers may act at any
time.

`relay_body_iff` is about the call of `process` with the exchange as the run hands it
over, on any producer.
-/

namespace Msmq

namespace MsmqProducer

/-- A `process` that returns has sent a direct buffer as it is. -/
theorem enqueued_process_direct {p : MsmqProducer} {remaining : Option (List UInt8)}
    {e : Exchange} {heap : Heap} {a : ProcessAnswers} {calls : List MqCall} {b : ByteBuffer}
    (hbody : e.body = .byteBuffer b) (hdirect : b.direct = true)
    (hok : (p.process remaining e heap a calls).result = .ok ()) :
    enqueued (p.process remaining e heap a calls).calls =
      (p.message a.raw b).sent heap :: enqueued calls := by
  have hencode : encode heap e.body = .ok ⟨some b, .byteBuffer b, heap⟩ := by
    rw [hbody]
    exact encode_direct heap hdirect
  obtain ⟨ex, herror, -⟩ | ⟨-, enc, henc, hcalls⟩ := p.process_enqueues remaining e heap a calls
  · rw [hok] at herror
    cases herror
  · obtain rfl : _ = enc := Except.ok.inj (hencode.symm.trans henc)
    exact hcalls

end MsmqProducer

/-- A buffer that shows a message shows all of its storage exactly if it has the size
of the message. -/
theorem Loop.Filled.storage_eq_iff {endpoint : MsmqEndpoint} {heap : Heap} {loop : Loop}
    {m : MqMessage} (hf : loop.Filled endpoint heap m) :
    heap.storage loop.body.storage = m.body ↔ loop.initsize.toInt = m.body.length := by
  have hcontent : (heap.storage loop.body.storage).take m.body.length = m.body := by
    have hwindow := hf.content
    unfold ByteBuffer.window at hwindow
    rwa [hf.sized.position, hf.limit, List.drop_zero] at hwindow
  have hlength : (heap.storage loop.body.storage).length = loop.initsize.toInt.toNat := by
    rw [hf.length, hf.sized.capacity]
  have hnonneg := hf.sized.nonneg
  constructor
  · intro heq
    have hsame : loop.initsize.toInt.toNat = m.body.length := by rw [← hlength, heq]
    omega
  · intro hsize
    have hle : (heap.storage loop.body.storage).length ≤ m.body.length := by omega
    rwa [List.take_of_length_le hle] at hcontent

/-- The loop of a run that is about to call the processor. -/
def Pc.handing? : Pc → Option Loop
  | .atProcess _ _ loop => some loop
  | _ => none

/-- Only then is there one to be handed over. -/
theorem Pc.eq_of_handing? {pc : Pc} {loop : Loop} (h : pc.handing? = some loop) :
    ∃ size queue, pc = .atProcess size queue loop := by
  cases pc with
  | atProcess size queue loop' =>
      cases h
      exact ⟨size, queue, rfl⟩
  | _ => cases h

/-! ## How often the buffer has grown -/

/-- The answers after which the loop replaces its buffer by a larger one, or ends. -/
def Answer.grows : Answer → Bool
  | .receives a => a.hr = mqErrorBufferOverflow
  | .processes (some ex) _ _ =>
      ex.isRuntimeException && ex.getMessage = some "Message body too big"
  | _ => false

/-- How often the run has replaced its buffer; nothing is known of a run that is on its
way out. -/
def Pc.grown? : Pc → Option Nat
  | .idle => none
  | .atReceive _ _ loop => some loop.grown
  | .atProcess _ _ loop => some loop.grown
  | .atFinally _ _ _ => none
  | _ => some 0

namespace Task

variable {endpoint : MsmqEndpoint} {me : RunId} {sh sh' : Shared} {pc : Pc} {ans : Answer}
  {after : After} {n : Nat}

/-- A throwable inside the loop replaces the buffer once, or ends the loop. -/
theorem grown_raiseInLoop {shMid : Shared} {size : Nat} {queue : QueueRef} {loop : Loop}
    {ex : Throwable} (hn : (raiseInLoop endpoint shMid size queue loop ex).1.pc.grown? = some n) :
    (ex.isRuntimeException = true ∧ ex.getMessage = some "Message body too big") ∧
      n = loop.grown + 1 := by
  obtain ⟨hruntime, hmessage, -, heq⟩ | ⟨-, e, heq⟩ :=
    raiseInLoop_cases endpoint shMid size queue loop ex <;> rw [heq] at hn
  · exact ⟨⟨hruntime, hmessage⟩, (Option.some.inj hn).symm⟩
  · cases hn

/-- The filling of the exchange leaves size and count alone. -/
theorem same_fill {loop filled : Loop} (hfill : loop.fill = .ok filled) :
    filled.initsize = loop.initsize ∧ filled.grown = loop.grown := by
  unfold Loop.fill at hfill
  cases hset : loop.body.setLimit (.ofInt loop.msmqMessage.getBodySize) with
  | error ex =>
      rw [hset] at hfill
      cases hfill
  | ok body =>
      rw [hset] at hfill
      cases hfill
      exact ⟨rfl, rfl⟩

/-- **One step** adds to the count what its answer says. -/
theorem Steps.grown (h : Steps endpoint me sh pc ans after sh') (hs : Sound endpoint me sh pc)
    (hn : after.pc.grown? = some n) :
    ∃ before, pc.grown? = some before ∧ n = before + if ans.grows then 1 else 0 := by
  have hsame : ∀ {before : Nat}, ans.grows = false → some before = some n →
      n = before + if ans.grows then 1 else 0 := by
    intro before hans heq
    rw [hans, Option.some.inj heq]
    rfl
  cases h with
  | element hpool => exact ⟨0, rfl, hsame rfl hn⟩
  | created hsize => exact ⟨0, rfl, hsame rfl hn⟩
  | createdLooking hsize => exact ⟨0, rfl, hsame rfl hn⟩
  | remove hpool => exact ⟨0, rfl, hsame rfl hn⟩
  | isOpen hopen => exact ⟨0, rfl, hsame rfl hn⟩
  | isNotOpen hopen => exact ⟨0, rfl, hsame rfl hn⟩
  | opened a hok => exact ⟨0, rfl, hsame rfl hn⟩
  | allocated raw hsize => exact ⟨0, rfl, hsame rfl hn⟩
  | @timeout size queue loop a hfits hhr =>
      have hans : (Answer.receives a).grows = false := by
        simp only [Answer.grows, hhr]
        decide
      exact ⟨loop.grown, rfl, hsame hans hn⟩
  | @overflow size queue loop a hfits hhr =>
      obtain ⟨-, rfl⟩ := grown_raiseInLoop hn
      exact ⟨loop.grown, rfl, by simp [Answer.grows, hhr, Loop.received]⟩
  | receiveFails a hfits hhr =>
      obtain ⟨⟨-, hmessage⟩, -⟩ := grown_raiseInLoop hn
      exact absurd hmessage (by decide)
  | @received size queue loop a filled hfits hhr hfill =>
      have hans : (Answer.receives a).grows = false := by
        refine decide_eq_false fun hoverflow => ?_
        rw [hoverflow, failed_bufferOverflow] at hhr
        cases hhr
      have hgrown : filled.grown = (loop.received a).grown := (same_fill hfill).2
      exact ⟨loop.grown, rfl, hsame hans ((congrArg some hgrown).symm.trans hn)⟩
  | notFilled a ex hfits hhr hfill => exact absurd hfill (hs.1.fill_ne_error hfits hhr ex)
  | @processorThrows size queue loop ex exchange writes hwrites =>
      obtain ⟨⟨hruntime, hmessage⟩, rfl⟩ := grown_raiseInLoop hn
      exact ⟨loop.grown, rfl, by simp [Answer.grows, hruntime, hmessage]⟩
  | _ => cases hn

end Task

namespace Consumer

variable {N : Nat} {endpoint : MsmqEndpoint} {c : Consumer N}

/-- The count of growths of worker `w`'s current run, after one more action. -/
def grow (w : Fin N) (k : Nat) : Action N → Nat
  | .start v => if v = w then 0 else k
  | .task v ans => if v = w ∧ ans.grows = true then k + 1 else k
  | _ => k

/-- How often worker `w` has been given an answer that makes it replace its buffer since
it was last started. -/
def growths (w : Fin N) (acts : List (Action N)) : Nat := acts.foldl (grow w) 0

/-- The count is right. -/
def Counted (c : Consumer N) (w : Fin N) (k : Nat) : Prop :=
  ∀ n, (c.worker w).pc.grown? = some n → n = k

/-- What others do does not count. -/
theorem grow_of_others {w : Fin N} {k : Nat} {act : Action N} (hstart : act ≠ .start w)
    (htask : ∀ ans, act ≠ .task w ans) : grow w k act = k := by
  cases act with
  | start v =>
      have hv : v ≠ w := fun heq => hstart (by rw [heq])
      simp only [grow, if_neg hv]
  | task v ans =>
      have hv : v ≠ w := fun heq => htask ans (by rw [heq])
      simp only [grow, hv, false_and, if_false]
  | _ => rfl

/-- One more action, and what it adds to the count. -/
theorem Counted.step {w : Fin N} {k : Nat} {act : Action N} {c' : Consumer N}
    (hk : c.Counted w k) (hs : c.Sound endpoint) (h : c.step endpoint act = some c') :
    c'.Counted w (grow w k act) := by
  intro n hn
  cases seenBy_of_step h w with
  | others hstart htask hme hrecorded hworker =>
      rw [hworker] at hn
      rw [grow_of_others hstart htask]
      exact hk n hn
  | start hidle hscheduled hshared hworker =>
      rw [hworker] at hn
      simp only [grow, if_true]
      unfold Worker.start at hn
      split at hn <;> exact (Option.some.inj hn).symm
  | @task _ ans after htask hworker =>
      rw [hworker, Worker.pc_goOn] at hn
      obtain ⟨before, hbefore, rfl⟩ := htask.grown (hs.worker w) hn
      obtain rfl := hk before hbefore
      cases hans : ans.grows <;> simp [grow, hans]

/-- The count of a whole run.  The induction keeps the count so far as a parameter. -/
theorem Counted.run {w : Fin N} {k : Nat} {acts : List (Action N)} {finish : Consumer N}
    (hk : c.Counted w k) (hs : c.Sound endpoint)
    (hrun : Runs.run (Consumer.step endpoint) c acts = some finish) :
    finish.Counted w (acts.foldl (grow w) k) := by
  induction acts generalizing c k with
  | nil =>
      obtain rfl : c = finish := Option.some.inj hrun
      exact hk
  | cons act rest ih =>
      obtain ⟨next, hstep, hrest⟩ := (Runs.run_cons_iff _).mp hrun
      rw [List.foldl_cons]
      exact ih (hk.step hs hstep) (hs.step hstep) hrest

/-- The buffer of a loop has grown as often as the run was given an answer for it. -/
theorem grown_eq_growths {acts : List (Action N)}
    (hrun : Runs.run (step endpoint) (doStart N) acts = some c) {w : Fin N} {size : Nat}
    {queue : QueueRef} {loop : Loop} (hpc : (c.worker w).pc = .atProcess size queue loop) :
    loop.grown = growths w acts := by
  have hstart : Counted (doStart N) w 0 := fun n hn => nomatch hn
  have hfinish : Counted c w (growths w acts) := Counted.run hstart sound_doStart hrun
  exact hfinish loop.grown (by rw [hpc]; rfl)

/-- **Relaying.**  The exchange a run is about to hand over for the message `m` that it has
removed is passed to a producer.  If that returns, it has sent one message, and the body of this
message is the body of `m` exactly if the buffer, after as many growths as the run was given
answers for, has the size of the body.  Nothing else is asked of the history: other workers,
other messages and other runs make no difference. -/
theorem relay_body_iff {acts : List (Action N)}
    (hrun : Runs.run (step endpoint) (doStart N) acts = some c) {w : Fin N}
    {size : Nat} {queue : QueueRef} {loop : Loop}
    (hpc : (c.worker w).pc = .atProcess size queue loop)
    {m : MqMessage} {older : List (RunId × MqMessage)}
    (hremoved : c.shared.removalsOf w = (c.runId w, m) :: older)
    (p : MsmqProducer) (remaining : Option (List UInt8)) (a : ProcessAnswers) (calls : List MqCall)
    (hok : (p.process remaining loop.exchange c.shared.heap a calls).result = .ok ()) :
    ∃ sent, enqueued (p.process remaining loop.exchange c.shared.heap a calls).calls =
        sent :: enqueued calls ∧
      (sent.body = m.body ↔
        (endpoint.initialBufferSize +
            .ofNat (growths w acts) * endpoint.incrementBufferSize).toInt = m.body.length) := by
  have hsound := (sound_of_reachable ⟨acts, hrun⟩).worker w
  rw [hpc] at hsound
  obtain ⟨m', older', hremoved', -, hfilled⟩ := hsound
  have hm : m' = m := by
    have hhead := (List.cons.inj (hremoved'.symm.trans hremoved)).1
    exact congrArg Prod.snd hhead
  subst hm
  refine ⟨_, MsmqProducer.enqueued_process_direct hfilled.body hfilled.sized.direct hok, ?_⟩
  rw [p.body_message, body_sent_of_direct _ hfilled.sized.direct hfilled.length,
    hfilled.storage_eq_iff, hfilled.sized.initsize, grown_eq_growths hrun hpc]

/-- A message that fills the buffer, after it has been replaced by a larger one, is relayed as it
is. -/
theorem relay_body_iff_full :
    let endpoint : MsmqEndpoint :=
      { remaining := some [113], initialBufferSize := 1, incrementBufferSize := 1 }
    ∃ (c : Consumer 1) (size : Nat) (queue : QueueRef) (loop : Loop) (sent : MqMessage),
      (c.worker 0).pc = .atProcess size queue loop ∧
      c.shared.removalsOf (0 : Fin 1) = [(c.runId 0, ⟨[65, 66], default⟩)] ∧
      enqueued ((MsmqProducer.new endpoint).process endpoint.remaining loop.exchange c.shared.heap
        ⟨.always 0 1 0, default, 0⟩ []).calls = [sent] ∧
      sent.body = [65, 66] := by
  intro endpoint
  let acts : List (Action 1) := [.start 0, .task 0 .go, .task 0 (.created none), .task 0 .go,
    .task 0 (.opens (.always 0 1 0)), .task 0 (.allocates default),
    .task 0 (.receives ⟨mqErrorBufferOverflow, default, 2, [65]⟩),
    .task 0 (.receives ⟨0, default, 0, [65, 66]⟩)]
  let received : MqMessage := ⟨[65, 66], default⟩
  let relayed (c : Consumer 1) (loop : Loop) := (MsmqProducer.new endpoint).process
    endpoint.remaining loop.exchange c.shared.heap ⟨.always 0 1 0, default, 0⟩ []
  have hrun : (Runs.run (step endpoint) (doStart 1) acts).map (fun c =>
      (c.worker 0).pc.handing?.any fun loop =>
        c.shared.removalsOf (0 : Fin 1) = [(c.runId 0, received)] ∧
          (relayed c loop).result = .ok ()) = some true := by decide +kernel
  obtain ⟨c, hc, hseen⟩ := Option.map_eq_some_iff.mp hrun
  obtain ⟨loop, hhanding, hboth⟩ := (Option.any_eq_true _ _).mp hseen
  obtain ⟨hremoved, hok⟩ := of_decide_eq_true hboth
  obtain ⟨size, queue, hpc⟩ := Pc.eq_of_handing? hhanding
  obtain ⟨sent, hsent, hiff⟩ := relay_body_iff hc hpc hremoved (.new endpoint) endpoint.remaining
    ⟨.always 0 1 0, default, 0⟩ [] hok
  exact ⟨c, size, queue, loop, sent, hpc, hremoved, hsent, hiff.mpr (by decide)⟩

/-- A message of two bytes is received into a buffer of four, and relayed with two
bytes more. -/
theorem relay_pads_short_message :
    let endpoint : MsmqEndpoint := { remaining := some [113], initialBufferSize := 4 }
    ∃ (c : Consumer 1) (size : Nat) (queue : QueueRef) (loop : Loop),
      Runs.run (step endpoint) (doStart 1)
        [.start 0, .task 0 .go, .task 0 (.created none), .task 0 .go,
          .task 0 (.opens (.always 0 1 0)), .task 0 (.allocates default),
          .task 0 (.receives ⟨0, default, 0, [65, 66]⟩)] = some c ∧
      (c.worker 0).pc = .atProcess size queue loop ∧
      c.shared.removals = [(⟨0, 0⟩, ⟨[65, 66], default⟩)] ∧
      let r := (MsmqProducer.new endpoint).process endpoint.remaining loop.exchange c.shared.heap
        ⟨.always 0 1 0, default, 0⟩ []
      r.result = .ok () ∧ (enqueued r.calls).map (·.body) = [[65, 66, 0, 0]] :=
  ⟨_, _, _, _, rfl, rfl, rfl, rfl, rfl⟩

end Consumer

end Msmq
