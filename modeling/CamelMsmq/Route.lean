import CamelMsmq.Deliveries
import CamelMsmq.ProducerSpec

/-!
# Strings sent through one MSMQ queue

A producer is given strings one after the other, and a consumer with one worker
receives from the MSMQ queue that the producer sends to.  Both share the heap.  An
action is one stage of the producer's `process`, or an action of the consumer; they
may follow each other in any order.

The MSMQ queue is first in, first out.  What a send adds to it is read off the calls
that the producer has made (`enqueuedSince`), so a failed `MQSendMessage` enqueues
nothing; and a failed `MQReceiveMessage` removes nothing.

`process_is_run` ties the stages to the code: a call of `process` that is not
interrupted is a run of them, whatever MSMQ answers.
-/

namespace Msmq

/-- How far the producer's `process` is with its string.  There is one call at a time. -/
inductive Job
  | idle
  | opening (s : JString)
  | encoding (s : JString)
  | sending (s : JString) (buffer : ByteBuffer)

/-- A producer and a consumer on one MSMQ queue.  `queue` is what lies in the MSMQ
queue, oldest first, and `sent` are the strings whose `process` has enqueued their
message, in that order. -/
structure Route where
  producer : MsmqProducer
  job : Job
  calls : List MqCall
  queue : List MqMessage
  sent : List JString
  consumer : Consumer 1

/-- What may happen. -/
inductive RouteAction
  | call (s : JString)
  | opens (a : OpenAnswers)
  | encode
  | send (raw : MsmqMessage) (hr : Hresult)
  | consumer (act : Action 1)

namespace Route

/-- Before the first `process`, with nothing in the MSMQ queue. -/
def init (sender : MsmqEndpoint) : Route where
  producer := .new sender
  job := .idle
  calls := []
  queue := []
  sent := []
  consumer := .doStart 1

/-- The heap of the machine that both run on. -/
def heap (r : Route) : Heap := r.consumer.shared.heap

/-- The MSMQ queue after an action of the consumer.  A successful receive removes the
oldest message, whose other properties MSMQ may have set meanwhile.  The processor
does not throw. -/
def take (queue : List MqMessage) : Action 1 → Option (List MqMessage)
  | .task _ (.receives a) =>
      if failed a.hr then some queue
      else
        match queue with
        | m :: rest => if m.body = a.bytes then some rest else none
        | [] => none
  | .task _ (.processes (some _) _ _) => none
  | _ => some queue

/-- One action.  A stage of `process` that throws ends the call. -/
def step (sender receiver : MsmqEndpoint) (r : Route) : RouteAction → Option Route
  | .call s =>
      match r.job with
      | .idle => some { r with job := .opening s }
      | _ => none
  | .opens a =>
      match r.job with
      | .opening s =>
          let o := r.producer.openConnection sender.remaining a r.calls
          let r := { r with producer := { r.producer with queue := o.queue }, calls := o.calls }
          match o.result with
          | .ok () => some { r with job := .encoding s }
          | .error _ => some { r with job := .idle }
      | _ => none
  | .encode =>
      match r.job with
      | .encoding s =>
          match MsmqProducer.encode r.heap (.string s) with
          | .ok ⟨some buffer, _, heap⟩ =>
              some { r with job := .sending s buffer, consumer := r.consumer.withHeap heap }
          | _ => some { r with job := .idle }
      | _ => none
  | .send raw hr =>
      match r.job with
      | .sending s buffer =>
          let o := r.producer.send r.heap (some buffer) raw hr r.calls
          let new := enqueuedSince r.calls o.calls
          some { r with
            producer := { r.producer with queue := o.queue }
            calls := o.calls
            job := .idle
            queue := r.queue ++ new
            sent := r.sent ++ new.map fun _ => s }
      | _ => none
  | .consumer act =>
      match take r.queue act, r.consumer.step receiver act with
      | some queue, some c => some { r with queue := queue, consumer := c }
      | _, _ => none

/-- Everything an action can do. -/
inductive Steps (sender receiver : MsmqEndpoint) (r : Route) : RouteAction → Route → Prop
  | call {s : JString} (hjob : r.job = .idle) :
      Steps sender receiver r (.call s) { r with job := .opening s }
  | opens {a : OpenAnswers} {s : JString} {job : Job} (hjob : r.job = .opening s)
      (hnext : job = .encoding s ∨ job = .idle) :
      Steps sender receiver r (.opens a) { r with
        producer := { r.producer with
          queue := (r.producer.openConnection sender.remaining a r.calls).queue }
        calls := (r.producer.openConnection sender.remaining a r.calls).calls
        job := job }
  | encode {s : JString} {buffer : ByteBuffer} {body : Body} {heap : Heap}
      (hjob : r.job = .encoding s)
      (hencode : MsmqProducer.encode r.heap (.string s) = .ok ⟨some buffer, body, heap⟩) :
      Steps sender receiver r .encode { r with
        job := .sending s buffer, consumer := r.consumer.withHeap heap }
  | notEncoded {s : JString} (hjob : r.job = .encoding s) :
      Steps sender receiver r .encode { r with job := .idle }
  | send {raw : MsmqMessage} {hr : Hresult} {s : JString} {buffer : ByteBuffer}
      (hjob : r.job = .sending s buffer) (hhr : failed hr = false) :
      Steps sender receiver r (.send raw hr) { r with
        producer := { r.producer with
          queue := (r.producer.send r.heap (some buffer) raw hr r.calls).queue }
        calls := (r.producer.send r.heap (some buffer) raw hr r.calls).calls
        job := .idle
        queue := r.queue ++ [(r.producer.message raw buffer).sent r.heap]
        sent := r.sent ++ [s] }
  | notSent {raw : MsmqMessage} {hr : Hresult} {s : JString} {buffer : ByteBuffer}
      (hjob : r.job = .sending s buffer) (hhr : failed hr = true) :
      Steps sender receiver r (.send raw hr) { r with
        producer := { r.producer with
          queue := (r.producer.send r.heap (some buffer) raw hr r.calls).queue }
        calls := (r.producer.send r.heap (some buffer) raw hr r.calls).calls
        job := .idle }
  | consumer {act : Action 1} {queue : List MqMessage} {c : Consumer 1}
      (htake : take r.queue act = some queue) (hstep : r.consumer.step receiver act = some c) :
      Steps sender receiver r (.consumer act) { r with queue := queue, consumer := c }

variable {sender receiver : MsmqEndpoint} {r r' : Route} {act : RouteAction}

/-- **The list is complete.**  A stage that throws and one that returns are two cases of it. -/
theorem steps_of_step (h : r.step sender receiver act = some r') :
    Steps sender receiver r act r' := by
  cases act with
  | call s =>
      simp only [step] at h
      split at h
      · cases h
        exact .call ‹_›
      · cases h
  | opens a =>
      simp only [step] at h
      split at h
      · rename_i s hjob
        split at h
        · cases h
          exact .opens hjob (.inl rfl)
        · cases h
          exact .opens hjob (.inr rfl)
      · cases h
  | encode =>
      simp only [step] at h
      split at h
      · rename_i s hjob
        split at h
        · cases h
          exact .encode hjob ‹_›
        · cases h
          exact .notEncoded hjob
      · cases h
  | send raw hr =>
      simp only [step] at h
      split at h
      · rename_i s buffer hjob
        rw [MsmqProducer.enqueuedSince_send] at h
        cases hhr : failed hr with
        | true =>
            simp only [hhr, if_true, List.map_nil, List.append_nil] at h
            cases h
            exact .notSent hjob hhr
        | false =>
            simp only [hhr, Bool.false_eq_true, if_false, List.map_cons, List.map_nil] at h
            cases h
            exact .send hjob hhr
      · cases h
  | consumer act =>
      simp only [step] at h
      split at h
      · cases h
        exact .consumer ‹_› ‹_›
      · cases h

theorem step_encode {s : JString} {buffer : ByteBuffer} {body : Body} {heap : Heap}
    (hjob : r.job = .encoding s)
    (hencode : MsmqProducer.encode r.heap (.string s) = .ok ⟨some buffer, body, heap⟩) :
    r.step sender receiver .encode =
      some { r with job := .sending s buffer, consumer := r.consumer.withHeap heap } := by
  simp only [step, hjob, hencode]

theorem step_encode_error {s : JString} {ex : Throwable} (hjob : r.job = .encoding s)
    (hencode : MsmqProducer.encode r.heap (.string s) = .error ex) :
    r.step sender receiver .encode = some { r with job := .idle } := by
  simp only [step, hjob, hencode]

/-- Sending ends the call, whatever MSMQ answers. -/
theorem step_send {s : JString} {buffer : ByteBuffer} (hjob : r.job = .sending s buffer)
    (raw : MsmqMessage) (hr : Hresult) :
    ∃ r', r.step sender receiver (.send raw hr) = some r' ∧ r'.job = .idle ∧
      r'.producer = { r.producer with
        queue := (r.producer.send r.heap (some buffer) raw hr r.calls).queue } ∧
      r'.calls = (r.producer.send r.heap (some buffer) raw hr r.calls).calls ∧
      r'.heap = r.heap := by
  simp only [step, hjob]
  exact ⟨_, rfl, rfl, rfl, rfl, rfl⟩

/-- **The stages make up `process`.**  Whatever MSMQ answers, a call of `process` that is
not interrupted is a run of the stages. -/
theorem process_is_run (hjob : r.job = .idle) {e : Exchange} {s : JString}
    (hbody : e.body = .string s) (a : ProcessAnswers) :
    ∃ acts r', Runs.run (step sender receiver) r acts = some r' ∧ r'.job = .idle ∧
      (r.producer.process sender.remaining e r.heap a r.calls).producer = r'.producer ∧
      (r.producer.process sender.remaining e r.heap a r.calls).calls = r'.calls ∧
      (r.producer.process sender.remaining e r.heap a r.calls).heap = r'.heap := by
  have hcall : r.step sender receiver (.call s) = some { r with job := .opening s } := by
    simp only [step, hjob]
  unfold MsmqProducer.process
  generalize ho : r.producer.openConnection sender.remaining a.opening r.calls = o
  obtain ⟨result, queue, calls⟩ := o
  let opened (job : Job) : Route :=
    { r with producer := { r.producer with queue := queue }, calls := calls, job := job }
  cases result with
  | error what =>
      have hopens : step sender receiver { r with job := .opening s } (.opens a.opening) =
          some (opened .idle) := by
        simp only [step, ho]
        rfl
      refine ⟨[.call s, .opens a.opening], opened .idle, ?_, rfl, rfl, rfl, rfl⟩
      simp only [Runs.run, hcall, hopens, Option.bind_some]
  | ok u =>
      have hopens : step sender receiver { r with job := .opening s } (.opens a.opening) =
          some (opened (.encoding s)) := by
        simp only [step, ho]
        rfl
      obtain ⟨-, buffer, heap', hencode, -⟩ | ⟨-, ex, hencode⟩ :=
        MsmqProducer.encode_string r.heap s
      · let encoded : Route :=
          { opened (.sending s buffer) with consumer := r.consumer.withHeap heap' }
        have hencoded : (opened (.encoding s)).step sender receiver .encode = some encoded :=
          step_encode rfl hencode
        obtain ⟨r', hsend, hidle, hproducer, hcalls, hheap⟩ :=
          @step_send sender receiver encoded s buffer rfl a.raw a.sending
        refine ⟨[.call s, .opens a.opening, .encode, .send a.raw a.sending], r', ?_, hidle, ?_⟩
        · simp only [Runs.run, hcall, hopens, hencoded, hsend, Option.bind_some]
        · simp only [hbody, hencode]
          exact ⟨hproducer.symm, hcalls.symm, hheap.symm⟩
      · have hencoded : (opened (.encoding s)).step sender receiver .encode =
            some (opened .idle) := step_encode_error rfl hencode
        refine ⟨[.call s, .opens a.opening, .encode], opened .idle, ?_, rfl, ?_⟩
        · simp only [Runs.run, hcall, hopens, hencoded, Option.bind_some]
        · simp only [hbody, hencode]
          exact ⟨rfl, rfl, rfl⟩

end Route

end Msmq
