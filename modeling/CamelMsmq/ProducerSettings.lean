import CamelMsmq.Payload
import CamelMsmq.ProducerHandles

/-!
# The settings of a producer in the messages it sends

Priority and time to live are `int`s in Java.  On the way to MSMQ they become a `long`, an
`unsigned int`, and at last the field of the property, which has 8 bits for the priority
and 32 for the time.  Each conversion keeps what fits and drops the rest, and none of them
is checked, so the time arrives modulo 2^32 and the priority modulo 2^8.

For the time that is what it should be: -1 arrives as `INFINITE`.  A priority that the 8 bits
cannot hold should be refused, but it arrives as another priority than the one configured, and
the call returns.

`settings_reach_iff` is about whole runs of a producer.  That the settings of the producer are
those of its endpoint is an invariant, since nothing assigns to them after the constructor.
-/

namespace Msmq

/-- The message a call hands to `MQSendMessage`, whatever MSMQ answers. -/
def MqCall.handed? : MqCall → Option MqMessage
  | sendMessage _ message _ => some message
  | _ => none

/-- The messages handed to `MQSendMessage`. -/
def handedOver (calls : List MqCall) : List MqMessage := calls.filterMap MqCall.handed?

@[simp] theorem handedOver_cons (c : MqCall) (calls : List MqCall) :
    handedOver (c :: calls) = c.handed?.toList ++ handedOver calls := by
  cases h : c.handed? <;> simp [handedOver, h]

/-- The priority, the time to live and the persistence configured at the endpoint are those
of the message; the time is read as an unsigned number of 32 bits. -/
structure Carries (endpoint : MsmqEndpoint) (m : MqMessage) : Prop where
  priority : (m.props.priority.toNat : Int) = endpoint.priority.toInt
  timeToBeReceived : (m.props.timeToBeReceived.toNat : Int) = endpoint.timeToLive.toInt % 2 ^ 32
  delivery : (m.props.delivery.toNat : Int) = mqMsgDeliveryRecoverable ↔
    endpoint.deliveryPersistent = true

/-- The values that `PROPID_M_PRIORITY`, a `UCHAR`, can represent. -/
def Representable (priority : Int32) : Prop := 0 ≤ priority.toInt ∧ priority.toInt < 256

/-- What a Java `int` becomes in a field of 32 bits. -/
theorem toNat_ofInt (x : Int) : ((UInt32.ofInt x).toNat : Int) = x % 2 ^ 32 := by
  rw [UInt32.ofInt, UInt32.toNat_ofNat']
  omega

/-- What it becomes in a field of 8 bits. -/
theorem toNat_toUInt8_ofInt (x : Int) : ((UInt32.ofInt x).toUInt8.toNat : Int) = x % 2 ^ 8 := by
  have hx := toNat_ofInt x
  rw [UInt32.toNat_toUInt8]
  omega

namespace MsmqProducer

variable (p : MsmqProducer) (remaining : Option (List UInt8))

/-- The properties of the message that `process` builds. -/
theorem props_message (raw : MsmqMessage) (b : ByteBuffer) (heap : Heap) :
    let m := (p.message raw b).sent heap
    m.props.priority = (UInt32.ofInt p.priority.toInt).toUInt8 ∧
      m.props.timeToBeReceived = UInt32.ofInt p.timeToLive.toInt ∧
      m.props.delivery = if p.deliveryPersistent then 1 else 0 := by
  unfold message
  cases p.deliveryPersistent <;> exact ⟨rfl, rfl, rfl⟩

/-- Opening the queue hands no message over. -/
theorem handedOver_openConnection (a : OpenAnswers) (calls : List MqCall) :
    handedOver (p.openConnection remaining a calls).calls = handedOver calls :=
  p.filterMap_openConnection remaining (fun _ _ _ => rfl) (fun _ _ => rfl) a calls

/-- A call of `process` leaves the settings alone, and hands over at most one message, one
that it has built. -/
theorem process_hands (e : Exchange) (heap : Heap) (a : ProcessAnswers) (calls : List MqCall) :
    let r := p.process remaining e heap a calls
    r.producer = { p with queue := r.producer.queue } ∧
      (handedOver r.calls = handedOver calls ∨
        ∃ b heap', handedOver r.calls = (p.message a.raw b).sent heap' :: handedOver calls) := by
  intro r
  have hopened := p.handedOver_openConnection remaining a.opening calls
  have houtcome : p.Outcome remaining e heap a calls r := p.process_outcome ..
  generalize r = r at houtcome
  cases houtcome with
  | notOpened hopening => exact ⟨rfl, .inl hopened⟩
  | notEncoded hopening hencode => exact ⟨rfl, .inl hopened⟩
  | noPayload hopening hencode hbuffer => exact ⟨rfl, .inl hopened⟩
  | @sent enc body sent hopening hencode hbuffer hsent =>
      refine ⟨rfl, .inr ⟨body, enc.heap, ?_⟩⟩
      obtain ⟨-, hcalls, -⟩ :=
        (p.openConnection remaining a.opening calls).queue.sendMessage_spec
          ((p.message a.raw body).sent enc.heap) a.sending
          (p.openConnection remaining a.opening calls).calls
      rw [hsent] at hcalls
      rw [hcalls, handedOver_cons, hopened]
      rfl

end MsmqProducer

namespace ProducerState

variable (endpoint : MsmqEndpoint)

/-- The producer has the settings of the endpoint. -/
structure Configured (p : MsmqProducer) : Prop where
  deliveryPersistent : p.deliveryPersistent = endpoint.deliveryPersistent
  timeToLive : p.timeToLive = endpoint.timeToLive
  priority : p.priority = endpoint.priority

/-- What becomes of the settings in a message. -/
structure Conveys (m : MqMessage) : Prop where
  priority : (m.props.priority.toNat : Int) = endpoint.priority.toInt % 2 ^ 8
  timeToBeReceived : (m.props.timeToBeReceived.toNat : Int) = endpoint.timeToLive.toInt % 2 ^ 32
  delivery : (m.props.delivery.toNat : Int) = mqMsgDeliveryRecoverable ↔
    endpoint.deliveryPersistent = true

variable {endpoint}

/-- Every message that `process` builds, whatever the object had in its memory before, has the
settings of the producer as far as they go. -/
theorem Configured.conveys {p : MsmqProducer} (hp : Configured endpoint p) (raw : MsmqMessage)
    (b : ByteBuffer) (heap : Heap) : Conveys endpoint ((p.message raw b).sent heap) := by
  obtain ⟨hpriority, htime, hdelivery⟩ := p.props_message raw b heap
  refine ⟨?_, ?_, ?_⟩
  · rw [hpriority, hp.priority]
    exact toNat_toUInt8_ofInt _
  · rw [htime, hp.timeToLive]
    exact toNat_ofInt _
  · rw [hdelivery, hp.deliveryPersistent]
    cases endpoint.deliveryPersistent <;> decide

/-- A message carries the settings exactly if the priority is one that the property can
represent. -/
theorem Conveys.carries_iff {m : MqMessage} (hm : Conveys endpoint m) :
    Carries endpoint m ↔ Representable endpoint.priority := by
  have hpriority := hm.priority
  unfold Representable
  constructor
  · intro hcarries
    have heq := hcarries.priority
    omega
  · intro hrange
    exact ⟨by omega, hm.timeToBeReceived, hm.delivery⟩

/-- A producer hands over messages with the settings of its endpoint, as far as they go. -/
structure Hands (endpoint : MsmqEndpoint) (s : ProducerState) : Prop where
  configured : Configured endpoint s.producer
  conveys : ∀ m ∈ handedOver s.calls, Conveys endpoint m

/-- The settings are kept with another queue object. -/
theorem Configured.withQueue {p : MsmqProducer} (hp : Configured endpoint p) (queue : MsmqQueue) :
    Configured endpoint { p with queue := queue } :=
  ⟨hp.deliveryPersistent, hp.timeToLive, hp.priority⟩

/-- A call leaves the settings alone, and the one message that it may hand over has them. -/
theorem hands_step {s s' : ProducerState} {act : ProducerAction} (hs : Hands endpoint s)
    (h : s.step endpoint act = some s') : Hands endpoint s' := by
  obtain ⟨hconfigured, hconveys⟩ := hs
  cases act with
  | doStart =>
      cases h
      exact ⟨hconfigured, hconveys⟩
  | process e heap a =>
      cases h
      obtain ⟨hsettings, hhanded⟩ :=
        s.producer.process_hands endpoint.remaining e heap a s.calls
      refine ⟨hsettings ▸ hconfigured.withQueue _, fun m hm => ?_⟩
      rcases hhanded with hsame | ⟨b, heap', hone⟩
      · rw [hsame] at hm
        exact hconveys m hm
      · rw [hone] at hm
        rcases List.mem_cons.mp hm with rfl | hm
        · exact hconfigured.conveys a.raw b heap'
        · exact hconveys m hm
  | doStop hr =>
      cases h
      refine ⟨hconfigured.withQueue _, ?_⟩
      have hsame : handedOver (s.producer.doStop hr s.calls).calls = handedOver s.calls := by
        unfold MsmqProducer.doStop
        split
        · obtain ⟨-, hclose⟩ | ⟨h, -, -, hclose⟩ | ⟨h, -, -, hclose⟩ :=
            s.producer.queue.close_cases hr s.calls <;> rw [hclose]
          · simp [MqCall.handed?]
          · simp [MqCall.handed?]
        · rfl
      rw [hsame]
      exact hconveys

theorem hands_of_reachable {s : ProducerState}
    (hreach : Runs.Reachable (step endpoint) (init endpoint) s) : Hands endpoint s :=
  hreach.invariant _ (Hands endpoint) ⟨⟨rfl, rfl, rfl⟩, nofun⟩ fun _ _ _ hs h => hands_step hs h

/-! ## An endpoint without a path -/

/-- Without a path `open` throws before it calls MSMQ. -/
theorem process_of_null {p : MsmqProducer} (hopen : p.queue.isOpen = false) (e : Exchange)
    (heap : Heap) (a : ProcessAnswers) (calls : List MqCall) :
    p.process none e heap a calls =
      ⟨.error (.native "Error in opening the queue: invalid parameter"), p, e, heap, calls⟩ := by
  have hnull : p.openConnection none a.opening calls =
      ⟨.error "Error in opening the queue: invalid parameter", p.queue, calls⟩ := by
    unfold MsmqProducer.openConnection
    rw [hopen]
    rfl
  unfold MsmqProducer.process
  rw [hnull]

/-- Such a producer never opens its queue and sends nothing, so it cannot send anything wrong
either. -/
theorem unopened_of_null (hnull : endpoint.remaining = none) {s : ProducerState}
    (hreach : Runs.Reachable (step endpoint) (init endpoint) s) :
    s.producer.queue.isOpen = false ∧ handedOver s.calls = [] := by
  refine hreach.invariant _ (fun s => s.producer.queue.isOpen = false ∧ handedOver s.calls = [])
    ⟨rfl, rfl⟩ ?_
  rintro s act s' ⟨hopen, hnone⟩ h
  cases act with
  | doStart =>
      cases h
      exact ⟨hopen, hnone⟩
  | process e heap a =>
      cases h
      rw [hnull, process_of_null hopen]
      exact ⟨hopen, hnone⟩
  | doStop hr =>
      cases h
      have hstop : s.producer.doStop hr s.calls = ⟨.ok (), s.producer.queue, s.calls⟩ := by
        unfold MsmqProducer.doStop
        rw [hopen]
        rfl
      rw [hstop]
      exact ⟨hopen, hnone⟩

/-! ## What reaches MSMQ -/

/-- Each message that was handed to `MQSendMessage` carries the configured settings, and a
priority that the property cannot represent makes `process` throw. -/
structure SettingsReach (endpoint : MsmqEndpoint) (s : ProducerState) : Prop where
  carried : ∀ m ∈ handedOver s.calls, Carries endpoint m
  refused : ¬Representable endpoint.priority → ∀ e heap a, e.body.isPayload = true →
    ∃ ex, (s.producer.process endpoint.remaining e heap a s.calls).result = .error ex

/-- An endpoint with a path can send a message: MSMQ opens the queue, and an empty string is
sent. -/
theorem exists_handed {path : List UInt8} (hpath : endpoint.remaining = some path) :
    ∃ s m, Runs.Reachable (step endpoint) (init endpoint) s ∧ m ∈ handedOver s.calls := by
  let act : ProducerAction :=
    .process ⟨.string [], fun _ => none⟩ ⟨0, fun _ => []⟩ ⟨.always 0 1 0, default, 0⟩
  have hsent : ∃ s m, step endpoint (init endpoint) act = some s ∧ handedOver s.calls = [m] := by
    simp only [step, act, hpath]
    exact ⟨_, _, rfl, rfl⟩
  obtain ⟨s, m, hstep, hone⟩ := hsent
  exact ⟨s, m, ⟨[act], (Runs.run_singleton_iff _).mpr hstep⟩, by simp [hone]⟩

/-- **Configured settings reach MSMQ** in every run of a producer exactly if the configured
priority is one that the property can represent, or the endpoint has no path and nothing is ever
sent.  Time to live and persistence always arrive.  With any other priority there is a run in
which a message is sent with the priority modulo 2^8 and `process` returns. -/
theorem settings_reach_iff (endpoint : MsmqEndpoint) :
    (∀ s, Runs.Reachable (step endpoint) (init endpoint) s → SettingsReach endpoint s) ↔
      endpoint.remaining = none ∨ Representable endpoint.priority := by
  constructor
  · intro hreach
    cases hremaining : endpoint.remaining with
    | none => exact .inl rfl
    | some path =>
        obtain ⟨s, m, hs, hm⟩ := exists_handed hremaining
        have hconveys := (hands_of_reachable hs).conveys m hm
        exact .inr (hconveys.carries_iff.mp ((hreach s hs).carried m hm))
  · rintro (hnull | hrange) s hs
    · obtain ⟨hopen, hnone⟩ := unopened_of_null hnull hs
      refine ⟨fun m hm => ?_, fun _ e heap a _ => ?_⟩
      · rw [hnone] at hm
        cases hm
      · rw [hnull, process_of_null hopen]
        exact ⟨_, rfl⟩
    · refine ⟨fun m hm => ?_, fun hnot => absurd hrange hnot⟩
      exact ((hands_of_reachable hs).conveys m hm).carries_iff.mpr hrange

/-- Priority 259 is sent as 3. -/
theorem priority_sent_as_another :
    let endpoint : MsmqEndpoint := { remaining := some [113], priority := 259 }
    let r := (MsmqProducer.new endpoint).process endpoint.remaining ⟨.string [], fun _ => none⟩
      ⟨0, fun _ => []⟩ ⟨.always 0 1 0, default, 0⟩ []
    r.result = .ok () ∧ (handedOver r.calls).map (·.props.priority) = [3] ∧
      ¬∀ s, Runs.Reachable (step endpoint) (init endpoint) s → SettingsReach endpoint s := by
  intro endpoint r
  have hpath : endpoint.remaining = some [113] := rfl
  refine ⟨rfl, by decide +kernel, fun hreach => ?_⟩
  obtain ⟨s, m, hs, hm⟩ := exists_handed hpath
  have hrange := ((hands_of_reachable hs).conveys m hm).carries_iff.mp ((hreach s hs).carried m hm)
  exact absurd hrange.2 (by decide)

end ProducerState

end Msmq
