import CamelMsmq.InHands
import CamelMsmq.Promises

/-!
# The system is a channel

Whatever the order of the steps, a run of the system looks from outside like a run of an
unordered channel: `process` puts in what the caller asked for, and processors are shown
what was put in, each parcel once.  Nothing is lost but what MSMQ discards, and that only
if the endpoint sets a time to live.

The abstraction of a state is its `transit`, the parcels in the MSMQ queue and in the
hands of the workers.  A send adds to it, the call of a processor takes from it, and a receive
moves a parcel from the queue to a hand, which is not to be seen.

`every_message_once` says it without the channel, in the terms of the code: the messages that
successful calls of `MQSendMessage` have enqueued, and the deliveries that processors were
handed.
-/

namespace Msmq

namespace Parcel

variable {p : Parcel} {d : Delivery} {m : MqMessage}

/-- A delivery that shows a message shows its parcel. -/
theorem shownBy_of_faithful (hf : Faithful d m) : (Parcel.of m).ShownBy d := by
  obtain ⟨hbody, hcontent, hheaders⟩ := hf
  refine ⟨hbody, hcontent, ?_, ?_, ?_, ?_⟩ <;> rw [hheaders] <;> rfl

/-- MSMQ leaves the parcel as it is, whatever it stamps on the other properties. -/
theorem of_transports {a : ReceiveAnswer} (ht : Transports m a) :
    Parcel.of ⟨a.bytes, a.props⟩ = Parcel.of m := by
  obtain ⟨hbytes, -, hbodyType, -, hdelivery, hpriority⟩ := ht
  simp only [of, hbytes, hbodyType, hdelivery, hpriority]

/-- **What a producer sends is what is asked for**, if its buffer holds it. -/
theorem of_message {endpoint : MsmqEndpoint} {producer : MsmqProducer} {heap : Heap}
    {b : ByteBuffer} {promise : Promise} (hp : ProducerState.Configured endpoint producer)
    (hdirect : b.direct = true) (hvalid : b.Valid heap) (hheld : promise.HeldBy heap b)
    (raw : MsmqMessage) :
    Parcel.of ((producer.message raw b).sent heap) = .asked endpoint (promise.bytes heap) := by
  obtain ⟨hpriority, -, hdelivery⟩ := producer.props_message raw b heap
  have hbody : ((producer.message raw b).sent heap).body = promise.bytes heap := by
    rw [MsmqProducer.body_message, body_sent_of_direct _ hdirect hvalid.length]
    exact hheld.bytes
  have hbodyType : ((producer.message raw b).sent heap).props.bodyType = vtArrayUi1 := by
    unfold MsmqProducer.message
    split <;> rfl
  rw [hp.deliveryPersistent] at hdelivery
  rw [hp.priority] at hpriority
  simp only [of, asked, hbody, hbodyType, hpriority, hdelivery]

end Parcel

namespace System

variable {P N : Nat} {sender receiver : MsmqEndpoint} {s s' : System P N}

/-- The parcel of the message that a step sends is the one asked for. -/
theorem Sound.parcel_sent (hs : s.Sound sender receiver) {p : Fin P} {b : ByteBuffer}
    (hpc : s.sender.thread p = .atSend (some b)) (raw : MsmqMessage) :
    Parcel.of ((s.sender.producer.message raw b).sent s.sender.heap) =
      .asked sender ((s.promised p).bytes s.heap) := by
  obtain ⟨hdirect, hvalid, hheld⟩ := hs.calls.sending p b hpc
  rw [hs.sameHeap]
  exact Parcel.of_message hs.configured hdirect hvalid hheld raw

/-- A step of the threads shows what it sends: the parcel asked for is the one of the message
that is enqueued. -/
theorem Sound.label_sender (hs : s.Sound sender receiver) (act : ThreadAction P) :
    s.label sender (.sender act) = (s.sender.sent? act).map fun m => .send (.of m) := by
  cases act with
  | send p raw hr =>
      cases hpc : s.sender.thread p with
      | atSend buffer =>
          cases buffer with
          | none => simp [label, Threads.sent?, hpc, MsmqProducer.send]
          | some b =>
              rw [Threads.sent?_send hpc]
              simp only [label, hpc]
              cases failed hr with
              | true => rfl
              | false =>
                  simp only [Bool.false_eq_true, if_false, Option.map_some, hs.parcel_sent hpc raw]
      | _ => simp [label, Threads.sent?, hpc]
  | _ => rfl

/-- A parcel more in the queue. -/
theorem total_append {held : Fin N → Multiset Parcel} (queue : List MqMessage) (m : MqMessage) :
    Ledger.total ((queue ++ [m]).map Parcel.of) held =
      Parcel.of m ::ₘ Ledger.total (queue.map .of) held := by
  unfold Ledger.total
  rw [List.map_append, ← Multiset.coe_add, add_right_comm, add_comm _ (Multiset.ofList _)]
  rfl

/-- A message taken out of the queue. -/
theorem coe_map_eraseIdx {queue : List MqMessage} {place : Nat} {m : MqMessage}
    (hm : queue[place]? = some m) :
    (queue.map Parcel.of : Multiset Parcel) = .of m ::ₘ ((queue.eraseIdx place).map Parcel.of) := by
  obtain ⟨hlt, rfl⟩ := List.getElem?_eq_some_iff.mp hm
  rw [Multiset.cons_coe, Multiset.coe_eq_coe]
  exact ((List.getElem_cons_eraseIdx_perm hlt).map Parcel.of).symm

/-- Where nothing is received, nothing is taken. -/
theorem take_eq_of_quiet {queue rest : List MqMessage} {place : Nat} {act : Action N}
    (hquiet : Consumer.Quiet act) (htake : take queue place act = some rest) : rest = queue := by
  unfold take at htake
  split at htake
  · have hfailed : failed _ = true := hquiet
    rw [if_pos hfailed] at htake
    exact (Option.some.inj htake).symm
  · exact (Option.some.inj htake).symm

/-- A successful receive takes the message it answers with. -/
theorem take_receives {queue rest : List MqMessage} {place : Nat} {w : Fin N} {a : ReceiveAnswer}
    (hhr : failed a.hr = false) (htake : take queue place (.task w (.receives a)) = some rest) :
    ∃ m, queue[place]? = some m ∧ Transports m a ∧ rest = queue.eraseIdx place := by
  simp only [take, hhr, Bool.false_eq_true, if_false] at htake
  split at htake
  · split at htake
    · exact ⟨_, ‹_›, ‹_›, (Option.some.inj htake).symm⟩
    · cases htake
  · cases htake

/-- Actions that neither remove a message nor call a processor show nothing. -/
theorem label_of_quiet {act : Action N} (hquiet : Consumer.Quiet act) (place : Nat) :
    s.label sender (.receiver act place) = none := by
  cases act with
  | task w ans =>
      cases ans with
      | processes thrown exchange writes => exact hquiet.elim
      | _ => rfl
  | _ => rfl

/-- The call of a processor shows what the worker is about to hand over. -/
theorem label_processes {w : Fin N} {size : Nat} {queue : QueueRef} {loop : Loop}
    (hpc : (s.receiver.worker w).pc = .atProcess size queue loop) (thrown : Option Throwable)
    (exchange : Exchange) (writes : List (Addr × Nat × List UInt8)) (place : Nat) :
    s.label sender (.receiver (.task w (.processes thrown exchange writes)) place) =
      some (.deliver (loop.exchange.shown s.heap)) := by
  simp only [label, hpc]

/-- The hands of the workers as parcels, after one of them has taken or given something. -/
theorem parcels_update {c c' : Consumer N} {w : Fin N} {x : Multiset MqMessage}
    (h : c'.inHands = Function.update c.inHands w x) :
    (fun v => (c'.inHands v).map Parcel.of) =
      Function.update (fun v => (c.inHands v).map Parcel.of) w (x.map .of) := by
  funext v
  rw [h]
  by_cases hv : v = w
  · subst hv
    simp only [Function.update_self]
  · simp only [Function.update_of_ne hv]

/-- What the component is for: a channel that shows processors the parcels it was given, and
loses none without a time to live. -/
abbrev Spec (sender : MsmqEndpoint) :
    Multiset Parcel → Channel.Label Parcel Delivery → Multiset Parcel → Prop :=
  Channel.Step Parcel.ShownBy fun _ => sender.timeToLive ≠ -1

/-- One step of the system, as the specification sees it: it is silent and leaves what is in
transit alone, or it is a step of the channel. -/
inductive Seen (sender : MsmqEndpoint) (t t' : Multiset Parcel) :
    Option (Channel.Label Parcel Delivery) → Prop
  | silent (hsame : t' = t) : Seen sender t t' none
  | visible {l : Channel.Label Parcel Delivery} (hstep : Spec sender t l t') :
      Seen sender t t' (some l)

/-- An action of the consumer moves a message from the queue to a hand, or shows it. -/
theorem Sound.seen_receiver (hs : s.Sound sender receiver) {act : Action N} {place : Nat}
    {queue : List MqMessage} {c : Consumer N} (htake : take s.queue place act = some queue)
    (hstep : s.receiver.step receiver act = some c) :
    Seen sender s.transit
      (transit { s with
        sender := { s.sender with heap := c.shared.heap }, receiver := c, queue := queue })
      (s.label sender (.receiver act place)) := by
  unfold transit
  cases hs.receives.hands hstep with
  | quiet hquiet hsame hdeliveries =>
      obtain rfl := take_eq_of_quiet hquiet htake
      rw [label_of_quiet hquiet]
      exact .silent (by rw [hsame])
  | receives w a hhr hbefore hafter hdeliveries =>
      obtain ⟨m, hm, htransports, rfl⟩ := take_receives hhr htake
      refine .silent ?_
      rw [parcels_update hafter]
      refine Ledger.total_update ?_
      rw [coe_map_eraseIdx hm, hbefore, Multiset.map_singleton, Parcel.of_transports htransports,
        Multiset.map_zero, add_zero, add_comm, Multiset.singleton_add]
  | processes w m hpc hfaithful hbefore hafter hdeliveries =>
      obtain rfl : queue = s.queue := (Option.some.inj htake).symm
      rw [label_processes hpc, parcels_update hafter]
      refine .visible ?_
      have hsplit : Ledger.total (s.queue.map Parcel.of)
          (fun v => (s.receiver.inHands v).map Parcel.of) =
            .of m ::ₘ Ledger.total (s.queue.map .of)
              (Function.update (fun v => (s.receiver.inHands v).map Parcel.of) w 0) := by
        rw [Ledger.total_eq_add_others _ _ w, Ledger.total_eq_add_others _ _ w,
          Ledger.sum_others_update, Function.update_self, hbefore, Multiset.map_singleton,
          add_zero, add_comm (Multiset.ofList _), Multiset.singleton_add, Multiset.cons_add]
      rw [hsplit]
      exact .deliver _ (Parcel.shownBy_of_faithful hfaithful)

/-- A message that MSMQ may discard has a time to live. -/
theorem Sound.timeToLive_ne (hs : s.Sound sender receiver) {m : MqMessage} (hm : m ∈ s.queue)
    (htime : m.props.timeToBeReceived ≠ infinite) : sender.timeToLive ≠ -1 := by
  intro heq
  apply htime
  rw [hs.timed m hm, heq]
  decide

/-- **One action**, as the specification sees it: it puts a parcel in, shows one that was in
transit, drops one that may be dropped, or leaves what is in transit as it is. -/
theorem Sound.seen (hs : s.Sound sender receiver) {act : SystemAction P N}
    (h : s.step sender receiver act = some s') :
    Seen sender s.transit s'.transit (s.label sender act) := by
  cases steps_of_step h with
  | @sender act t hcall hstep =>
      rw [hs.label_sender act]
      cases hsent : s.sender.sent? act with
      | none =>
          refine .silent ?_
          simp only [transit, Option.toList_none, List.append_nil]
          rfl
      | some m =>
          refine .visible ?_
          have happend : transit
              { sender := t, receiver := s.receiver.withHeap t.heap,
                queue := s.queue ++ (some m).toList, promised := s.promise act } =
                .of m ::ₘ s.transit := total_append s.queue m
          rw [happend]
          exact .send _ _
  | receiver htake hstep => exact hs.seen_receiver htake hstep
  | @discard place m hm htime =>
      have hlabel : s.label sender (.discard place) = some (.drop (.of m)) := by
        simp only [label, hm, Option.map_some]
      rw [hlabel]
      refine .visible ?_
      have hsplit : s.transit = .of m ::ₘ transit { s with queue := s.queue.eraseIdx place } := by
        unfold transit Ledger.total
        rw [coe_map_eraseIdx hm, Multiset.cons_add]
      rw [hsplit]
      exact .drop _ (hs.timeToLive_ne (List.mem_of_getElem? hm) htime)
  | allocate size => exact .silent rfl
  | write offset bytes hfree => exact .silent rfl

/-- The system refines the channel: with `transit` as abstraction, each step is one of the
channel or silent. -/
theorem refines : Runs.Refines (step sender receiver) (label sender) (Spec sender)
    (Sound (P := P) (N := N) sender receiver) transit := by
  refine ⟨fun _ _ _ hs h => hs.step h, fun s act s' hs h hlabel => ?_,
    fun s act s' l hs h hlabel => ?_⟩
  · have hseen := hs.seen h
    rw [hlabel] at hseen
    cases hseen with
    | silent hsame => exact hsame
  · have hseen := hs.seen h
    rw [hlabel] at hseen
    cases hseen with
    | visible hstep => exact hstep

theorem transit_init : (init P N sender).transit = 0 :=
  Ledger.total_eq_store fun _ => rfl

/-- **The system is a channel.**  The trace of every run, with any number of threads and workers
in any order, is one of the unordered channel, and what the channel has in transit is what lies
in the MSMQ queue and in the hands of the workers.  A send in the trace is what a caller of
`process` asked for, and a delivery what a processor was shown; so all that lies between, the
encoding, the heap, the pool of queues and the growth of buffers, neither adds nor changes
anything. -/
theorem system_is_channel {acts : List (SystemAction P N)}
    (hrun : Runs.run (step sender receiver) (init P N sender) acts = some s) :
    Runs.Accepts (Spec sender) 0
      (Runs.trace (step sender receiver) (label sender) (init P N sender) acts) s.transit := by
  have haccepts := refines.accepts_trace sound_init hrun
  rwa [transit_init] at haccepts

/-- Two of three messages are received by two of three workers, the last one first, and one
of them is handed over. -/
theorem system_is_channel_run :
    ∃ (s : System 1 3) (trace : List (Channel.Label Parcel Delivery)),
      s.transit.card = 2 ∧ s.receiver.shared.deliveries.length = 1 ∧
      Runs.Accepts (Spec { remaining := some [113] }) 0 trace s.transit := by
  have hrun :
    let endpoint : MsmqEndpoint := { remaining := some [113] }
    let call (c : UInt16) : List (SystemAction 1 3) :=
      [.sender (.call 0 (Exchange.create.setBody (.string [c]))), .sender (.isOpen 0)]
    let send : List (SystemAction 1 3) := [.sender (.encode 0), .sender (.send 0 default 0)]
    let receive (w : Fin 3) (c : UInt8) (place : Nat) : List (SystemAction 1 3) :=
      [.receiver (.start w) 0, .receiver (.task w (.created none)) 0, .receiver (.task w .go) 0,
        .receiver (.task w .go) 0, .receiver (.task w (.opens (.always 0 1 0))) 0,
        .receiver (.task w (.allocates default)) 0,
        .receiver (.task w (.receives ⟨0, { (default : MessageProps) with
          bodyType := vtArrayUi1, priority := 3, timeToBeReceived := infinite }, 0, [0, c]⟩)) place]
    (Runs.run (step endpoint endpoint) (init 1 3 endpoint)
        (call 64 ++ [.sender (.open 0 (.always 0 1 0))] ++ send ++ call 65 ++ send ++ call 66 ++
          send ++ receive 0 66 2 ++ receive 1 64 0 ++
          [.receiver (.task 1 (.processes none .create [])) 0])).map
        (fun s => (s.transit.card, s.receiver.shared.deliveries.length)) = some (2, 1) := by decide
  obtain ⟨s, hs, hboth⟩ := Option.map_eq_some_iff.mp hrun
  obtain ⟨hcard, hlength⟩ := Prod.mk.inj hboth
  exact ⟨s, _, hcard, hlength, system_is_channel hs⟩

/-! ## What both sides record -/

/-- The calls to MSMQ record what the trace has sent, newest first. -/
theorem enqueued_history {acts : List (SystemAction P N)}
    (hrun : Runs.run (step sender receiver) (init P N sender) acts = some s) :
    (enqueued s.sender.calls).map Parcel.of =
      ((Runs.trace (step sender receiver) (label sender) (init P N sender) acts).filterMap
        Channel.Label.sent?).reverse := by
  have hhistory := Runs.history_of_trace (step sender receiver) (label sender)
    (Sound sender receiver) Channel.Label.sent? (fun s => (enqueued s.sender.calls).map Parcel.of)
    (fun _ _ _ hs h => hs.step h) ?_ sound_init hrun
  · rw [hhistory]
    exact List.append_nil _
  · intro s act s' hs h
    cases steps_of_step h with
    | @sender act t hcall hstep =>
        rw [hs.label_sender act, Threads.enqueued_step hstep, List.map_append]
        cases s.sender.sent? act <;> rfl
    | @receiver act place queue c htake hstep =>
        have hseen := hs.receives.hands hstep
        cases hseen with
        | quiet hquiet hsame hdeliveries =>
            rw [label_of_quiet hquiet]
            rfl
        | receives w a hhr hbefore hafter hdeliveries => rfl
        | processes w m hpc hfaithful hbefore hafter hdeliveries =>
            rw [label_processes hpc]
            rfl
    | discard hm htime =>
        simp only [label, hm]
        rfl
    | _ => rfl

/-- The deliveries of the consumer are those of the trace, newest first. -/
theorem deliveries_history {acts : List (SystemAction P N)}
    (hrun : Runs.run (step sender receiver) (init P N sender) acts = some s) :
    s.receiver.shared.deliveries.map (·.2) =
      ((Runs.trace (step sender receiver) (label sender) (init P N sender) acts).filterMap
        Channel.Label.delivered?).reverse := by
  have hhistory := Runs.history_of_trace (step sender receiver) (label sender)
    (Sound sender receiver) Channel.Label.delivered?
    (fun s => s.receiver.shared.deliveries.map (·.2))
    (fun _ _ _ hs h => hs.step h) ?_ sound_init hrun
  · rw [hhistory]
    exact List.append_nil _
  · intro s act s' hs h
    cases steps_of_step h with
    | @sender act t hcall hstep =>
        rw [hs.label_sender act]
        cases s.sender.sent? act <;> rfl
    | @receiver act place queue c htake hstep =>
        cases hs.receives.hands hstep with
        | quiet hquiet hsame hdeliveries =>
            rw [label_of_quiet hquiet]
            exact congrArg _ hdeliveries
        | receives w a hhr hbefore hafter hdeliveries => exact congrArg _ hdeliveries
        | processes w m hpc hfaithful hbefore hafter hdeliveries =>
            rw [label_processes hpc]
            exact congrArg _ hdeliveries
    | discard hm htime =>
        simp only [label, hm]
        rfl
    | _ => rfl

/-- What successful calls of `MQSendMessage` have enqueued is what the trace shows as sent, each
message as often. -/
theorem enqueued_eq_trace {acts : List (SystemAction P N)}
    (hrun : Runs.run (step sender receiver) (init P N sender) acts = some s) :
    ((enqueued s.sender.calls).map Parcel.of : Multiset Parcel) =
      Channel.sent (Runs.trace (step sender receiver) (label sender) (init P N sender) acts) := by
  rw [enqueued_history hrun]
  exact Multiset.coe_reverse _

/-- And what processors were handed is what it shows as delivered. -/
theorem deliveries_eq_trace {acts : List (SystemAction P N)}
    (hrun : Runs.run (step sender receiver) (init P N sender) acts = some s) :
    (s.receiver.shared.deliveries.map (·.2) : Multiset Delivery) =
      Channel.delivered
        (Runs.trace (step sender receiver) (label sender) (init P N sender) acts) := by
  rw [deliveries_history hrun]
  exact Multiset.coe_reverse _

/-- **Every message once.**  Without a time to live, what successful calls of
`MQSendMessage` have enqueued lies in the MSMQ queue or in the hands of a worker, or it
has been shown to a processor, one delivery for each message.  When the queue is empty and
no worker is between its receive and its call of the processor, everything has been shown. -/
theorem every_message_once (hforever : sender.timeToLive = -1)
    (hreach : Runs.Reachable (step sender receiver) (init P N sender) s) :
    ∃ matched : Multiset Parcel,
      ((enqueued s.sender.calls).map Parcel.of : Multiset Parcel) = s.transit + matched ∧
      Multiset.Rel Parcel.ShownBy matched
        (s.receiver.shared.deliveries.map (·.2) : Multiset Delivery) ∧
      (s.queue = [] →
        (∀ w size queue loop, (s.receiver.worker w).pc ≠ .atProcess size queue loop) →
        matched = ((enqueued s.sender.calls).map Parcel.of : Multiset Parcel)) := by
  obtain ⟨acts, hrun⟩ := hreach
  have haccepts := refines.accepts_trace sound_init hrun
  rw [transit_init] at haccepts
  obtain ⟨matched, hsum, hrel⟩ := Channel.conservation haccepts
  have hdropped := Channel.dropped_eq_zero haccepts fun _ hne => hne hforever
  rw [zero_add, hdropped, add_zero, ← enqueued_eq_trace hrun] at hsum
  rw [← deliveries_eq_trace hrun] at hrel
  refine ⟨matched, hsum, hrel, fun hempty hnone => ?_⟩
  have htransit : s.transit = 0 := by
    unfold transit
    rw [hempty]
    refine Ledger.total_eq_store fun w => ?_
    unfold Consumer.inHands
    cases hpc : (s.receiver.worker w).pc with
    | atProcess size queue loop => exact absurd hpc (hnone w size queue loop)
    | _ => rfl
  rw [hsum, htransit, zero_add]

/-- One message is sent, received and handed over. -/
theorem every_message_once_run :
    ∃ (s : System 1 1) (matched : Multiset Parcel), matched.card = 1 ∧
      matched = ((enqueued s.sender.calls).map Parcel.of : Multiset Parcel) ∧
      Multiset.Rel Parcel.ShownBy matched
        (s.receiver.shared.deliveries.map (·.2) : Multiset Delivery) := by
  have hrun :
    let endpoint : MsmqEndpoint := { remaining := some [113] }
    (Runs.run (step endpoint endpoint) (init 1 1 endpoint)
      [.sender (.call 0 (Exchange.create.setBody (.string [65]))), .sender (.isOpen 0),
        .receiver (.start 0) 0, .receiver (.task 0 .go) 0, .receiver (.task 0 (.created none)) 0,
        .sender (.open 0 (.always 0 1 0)), .sender (.encode 0), .receiver (.task 0 .go) 0,
        .receiver (.task 0 (.opens (.always 0 2 0))) 0, .receiver (.task 0 (.allocates default)) 0,
        .sender (.send 0 default 0),
        .receiver (.task 0 (.receives ⟨0, { (default : MessageProps) with
          bodyType := vtArrayUi1, priority := 3, timeToBeReceived := infinite }, 0, [0, 65]⟩)) 0,
        .receiver (.task 0 (.processes none .create [])) 0]).map
      (fun s => ((enqueued s.sender.calls).length, s.queue,
        (s.receiver.worker 0).pc.buffers.card)) = some (1, [], 0) := by decide
  obtain ⟨s, hs, hall⟩ := Option.map_eq_some_iff.mp hrun
  obtain ⟨hlength, hboth⟩ := Prod.mk.inj hall
  obtain ⟨hempty, hpc⟩ := Prod.mk.inj hboth
  have hnone : ∀ w size queue loop, (s.receiver.worker w).pc ≠ .atProcess size queue loop := by
    intro w size queue loop hw
    obtain rfl : w = 0 := Subsingleton.elim ..
    rw [hw] at hpc
    cases hpc
  obtain ⟨matched, -, hrel, hall⟩ := every_message_once rfl ⟨_, hs⟩
  have hmatched := hall hempty hnone
  exact ⟨s, matched, by rw [hmatched, Multiset.coe_card, List.length_map, hlength], hmatched, hrel⟩

end System

end Msmq
