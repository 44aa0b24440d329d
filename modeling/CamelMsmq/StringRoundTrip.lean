import CamelMsmq.Relay
import CamelMsmq.Route

/-!
# Strings arrive intact and in order

The invariant of a route, `Route.Sound`, keeps the books of the MSMQ queue: what has
been enqueued is what has been removed, in the same order, and what is still there,
and every body in it is an encoded string.  What the consumer hands over it has
removed, and decoding undoes the encoding.

The buffer the producer is about to send is its own.  The consumer's workers and
processors write only to the consumer's storages, so the buffer still holds the
string when it is sent.

The strings are any lists of UTF-16 code units, the empty one and unpaired surrogates
included, and a delivery is read the way the tests of the component do.  The order is
kept because there is one worker: what it has received it hands over before it receives
again (`Numbered.histories`).
-/

namespace Msmq

theorem length_decodeChars (bytes : List UInt8) :
    (decodeChars bytes).length = bytes.length / 2 := by
  induction bytes using decodeChars.induct with
  | case1 hi lo rest ih =>
      simp only [decodeChars, List.length_cons, ih]
      omega
  | case2 bytes hshort =>
      have hlength : bytes.length < 2 := by
        rcases bytes with _ | ⟨hi, _ | ⟨lo, rest⟩⟩
        · exact Nat.zero_lt_two
        · exact Nat.one_lt_two
        · exact absurd rfl (hshort hi lo rest)
      have hnil : decodeChars bytes = [] := decodeChars.eq_2 bytes hshort
      rw [hnil, List.length_nil]
      omega

/-- **Reading a delivery.**  The way the tests read it, a delivery gives the characters of
the message it shows. -/
theorem text_of_faithful {d : Delivery} {m : MqMessage} (hf : Faithful d m) :
    d.text = some (decodeChars m.body) := by
  obtain ⟨⟨b, -, -, hlimit⟩, hcontent, hheaders⟩ := hf
  have hint : m.body.length < 2 ^ 31 := by
    have hle := b.limit_le
    have hlt := b.capacity_lt
    omega
  have hcount : (Int32.ofInt (m.body.length : Int)).toInt.tdiv 2 =
      ((decodeChars m.body).length : Int) := by
    rw [Int32.toInt_ofInt_of_le (by omega) (by omega), length_decodeChars,
      Int.tdiv_eq_ediv_of_nonneg (by omega)]
    omega
  have hheader : d.exchange.headers .bodySize = some (m.body.length : Int) := by
    rw [hheaders]
    rfl
  unfold Delivery.text
  rw [hheader]
  simp only [hcontent, hcount]
  rw [if_pos ⟨by omega, le_refl _⟩, Int.toNat_natCast, List.take_length]

namespace Consumer

/-- With one worker, the histories are its own. -/
theorem Numbered.histories {c : Consumer 1} (hn : c.Numbered) :
    c.shared.removalsOf 0 = c.shared.removals ∧ c.shared.deliveriesOf 0 = c.shared.deliveries := by
  constructor
  · refine List.filter_eq_self.mpr fun x hx => ?_
    have hlt := hn.removals x hx
    exact decide_eq_true (by omega)
  · refine List.filter_eq_self.mpr fun x hx => ?_
    have hlt := hn.deliveries x hx
    exact decide_eq_true (by omega)

end Consumer

namespace Job

/-- The buffer that is about to be sent holds the string, and nobody else uses it. -/
def Sound (c : Consumer 1) : Job → Prop
  | sending s buffer => buffer.direct = true ∧ buffer.capacity = 2 * s.length ∧
      c.shared.heap.storage buffer.storage = encodeChars s ∧
      buffer.storage < c.shared.heap.next ∧ buffer.storage ∉ c.storages
  | _ => True

/-- Actions of the consumer leave the buffer alone. -/
theorem Sound.spares {c c' : Consumer 1} {job : Job} (hj : job.Sound c) (hs : c.Spares c') :
    job.Sound c' := by
  cases job with
  | sending s buffer =>
      obtain ⟨hdirect, hcapacity, hcontent, hbounded, hprivate⟩ := hj
      refine ⟨hdirect, hcapacity, ?_, Nat.lt_of_lt_of_le hbounded hs.touched.next_le, ?_⟩
      · rw [hs.touched.frame _ hbounded hprivate, hcontent]
      · intro hmem
        rcases hs.storages _ hmem with hold | hnew
        · exact hprivate hold
        · exact Nat.not_lt_of_le hnew hbounded
  | _ => trivial

end Job

namespace Route

variable {sender receiver : MsmqEndpoint} {r r' : Route} {act : RouteAction}

/-- The books of the MSMQ queue.  What has been sent is what the consumer has removed, followed
by what is in the queue, string by string. -/
structure Sound (receiver : MsmqEndpoint) (r : Route) : Prop where
  consumer : r.consumer.Sound receiver
  numbered : r.consumer.Numbered
  job : r.job.Sound r.consumer
  queue : r.sent.map encodeChars =
    r.consumer.shared.removals.reverse.map (·.2.body) ++ r.queue.map (·.body)

theorem sound_init : (init sender).Sound receiver :=
  ⟨Consumer.sound_doStart, ⟨nofun, nofun⟩, trivial, rfl⟩

/-- A new buffer with the string. -/
theorem Sound.encode (hs : r.Sound receiver) {s : JString} {buffer : ByteBuffer} {heap' : Heap}
    (hholds : MsmqProducer.HoldsChars r.heap heap' s buffer) :
    Sound receiver { r with job := .sending s buffer, consumer := r.consumer.withHeap heap' } := by
  refine ⟨hs.consumer.withHeap ?_, ⟨hs.numbered.removals, hs.numbered.deliveries⟩, ?_, hs.queue⟩
  · exact hholds.touched.mono fun _ => False.elim
  · refine ⟨hholds.direct, hholds.capacity, hholds.content, hholds.bounded, fun hmem => ?_⟩
    exact Nat.not_lt_of_le hholds.fresh (hs.consumer.bounded _ hmem)

/-- A message that is sent holds the string, as it was encoded: nobody has written to the buffer
since. -/
theorem Sound.body_sent (hs : r.Sound receiver) {s : JString} {buffer : ByteBuffer}
    (hjob : r.job = .sending s buffer) (raw : MsmqMessage) :
    ((r.producer.message raw buffer).sent r.heap).body = encodeChars s := by
  have hbuffer := hs.job
  rw [hjob] at hbuffer
  obtain ⟨hdirect, hcapacity, hcontent, -, -⟩ := hbuffer
  have hlength : (r.heap.storage buffer.storage).length = buffer.capacity := by
    rw [hcapacity, ← length_encodeChars s]
    exact congrArg List.length hcontent
  rw [MsmqProducer.body_message, body_sent_of_direct _ hdirect hlength]
  exact hcontent

/-- Without a successful receive nothing is taken. -/
theorem take_eq {act : Action 1} {queue rest : List MqMessage}
    (hact : ∀ w a, act = .task w (.receives a) → failed a.hr = true)
    (htake : take queue act = some rest) : rest = queue := by
  unfold take at htake
  split at htake
  · rw [if_pos (hact _ _ rfl)] at htake
    exact (Option.some.inj htake).symm
  · cases htake
  · exact (Option.some.inj htake).symm

/-- What a successful receive takes is the oldest message, whatever properties MSMQ has stamped
on it. -/
theorem take_receives {w : Fin 1} {a : ReceiveAnswer} {queue rest : List MqMessage}
    (hhr : failed a.hr = false) (htake : take queue (.task w (.receives a)) = some rest) :
    ∃ m, queue = m :: rest ∧ m.body = a.bytes := by
  simp only [take, hhr, Bool.false_eq_true, if_false] at htake
  split at htake
  · split at htake
    · cases htake
      exact ⟨_, rfl, ‹_›⟩
    · cases htake
  · cases htake

/-- **What the consumer removes is taken from the MSMQ queue.**  What has been removed, followed
by what still lies in the queue, is the same before and after any action of the consumer. -/
theorem removals_take {act : Action 1} {queue : List MqMessage} {c : Consumer 1}
    (htake : take r.queue act = some queue) (hstep : r.consumer.step receiver act = some c) :
    c.shared.removals.reverse.map (·.2.body) ++ queue.map (·.body) =
      r.consumer.shared.removals.reverse.map (·.2.body) ++ r.queue.map (·.body) := by
  have hother : (∀ w ans, act ≠ .task w ans) → queue = r.queue :=
    fun hact => take_eq (fun w a heq => absurd heq (hact w _)) htake
  cases Consumer.steps_of_step hstep with
  | @task w ans after shared htask =>
      obtain ⟨hsame, hfails⟩ | ⟨size, queue', loop, a, -, rfl, hhr, hremovals⟩ := htask.removals
      · have hqueue : queue = r.queue := by
          refine take_eq (fun v a heq => ?_) htake
          cases heq
          exact hfails a rfl
        rw [hqueue]
        show List.map _ (List.reverse shared.removals) ++ _ = _
        rw [hsame]
      · obtain ⟨m, hqueue, hbody⟩ := take_receives hhr htake
        show List.map _ (List.reverse shared.removals) ++ _ = _
        rw [hremovals, hqueue]
        simp [hbody]
  | _ =>
      obtain rfl := hother nofun
      rfl

/-- **One action.**  A send adds the string at the end of the queue, and at the end of what has
been sent; a receive moves the boundary between what has been removed and what is there. -/
theorem Sound.step (hs : r.Sound receiver) (h : r.step sender receiver act = some r') :
    r'.Sound receiver := by
  cases steps_of_step h with
  | call hjob => exact ⟨hs.consumer, hs.numbered, trivial, hs.queue⟩
  | opens hjob hnext =>
      rcases hnext with rfl | rfl <;> exact ⟨hs.consumer, hs.numbered, trivial, hs.queue⟩
  | @encode s buffer body heap' hjob hencode =>
      obtain ⟨-, b, h', hok, hholds⟩ | ⟨-, ex, herror⟩ := MsmqProducer.encode_string r.heap s
      · rw [hok] at hencode
        cases hencode
        exact hs.encode hholds
      · rw [herror] at hencode
        cases hencode
  | notEncoded hjob => exact ⟨hs.consumer, hs.numbered, trivial, hs.queue⟩
  | @send raw hr s buffer hjob hhr =>
      refine ⟨hs.consumer, hs.numbered, trivial, ?_⟩
      have hbody := hs.body_sent hjob raw
      simp only [List.map_append, List.map_cons, List.map_nil, hbody, ← List.append_assoc]
      rw [hs.queue]
  | notSent hjob hhr => exact ⟨hs.consumer, hs.numbered, trivial, hs.queue⟩
  | consumer htake hstep =>
      refine ⟨hs.consumer.step hstep, hs.numbered.step hstep,
        hs.job.spares (hs.consumer.spares hstep), ?_⟩
      exact hs.queue.trans (removals_take htake hstep).symm

/-- The books are in order in every reachable state. -/
theorem sound_of_reachable
    (hreach : Runs.Reachable (step sender receiver) (init sender) r) : r.Sound receiver :=
  hreach.invariant _ (Sound receiver) sound_init fun _ _ _ hs h => hs.step h

/-! ## Prefix and completeness -/

/-- The strings the consumer has delivered, oldest first, read the way the tests do. -/
def received (r : Route) : List (Option JString) :=
  r.consumer.shared.deliveries.reverse.map (·.2.text)

/-- Deliveries that agree with removals read as the bodies that were removed. -/
theorem texts_of_agree {ds : List (RunId × Delivery)} {ms : List (RunId × MqMessage)}
    (hagree : List.Forall₂ HandedOver ds ms) :
    ds.map (·.2.text) = ms.map fun m => some (decodeChars m.2.body) := by
  induction hagree with
  | nil => rfl
  | cons hhead htail ih => rw [List.map_cons, List.map_cons, ih, text_of_faithful hhead.2]

/-- What has been sent is what has been removed and what lies in the MSMQ queue. -/
theorem Sound.sent_eq (hs : r.Sound receiver) :
    r.sent.map some =
      r.consumer.shared.removals.reverse.map (fun m => some (decodeChars m.2.body)) ++
        r.queue.map fun m => some (decodeChars m.body) := by
  have hdecoded := congrArg (List.map fun bytes => some (decodeChars bytes)) hs.queue
  simpa [Function.comp_def] using hdecoded

/-- What has been received is what has been removed, but for a message that is being
handed over. -/
theorem Sound.received_eq (hs : r.Sound receiver) :
    ∃ pending older, r.consumer.shared.removals = pending ++ older ∧
      r.received = older.reverse.map (fun m => some (decodeChars m.2.body)) ∧
      ((∀ size queue loop, (r.consumer.worker 0).pc ≠ .atProcess size queue loop) →
        pending = []) := by
  obtain ⟨hremovals, hdeliveries⟩ := hs.numbered.histories
  have hreceived : ∀ older, List.Forall₂ HandedOver r.consumer.shared.deliveries older →
      r.received = older.reverse.map fun m => some (decodeChars m.2.body) := by
    intro older hagree
    unfold received
    rw [List.map_reverse, texts_of_agree hagree, ← List.map_reverse]
  have hhands := hs.consumer.handsOver 0
  unfold Consumer.HandsOver at hhands
  split at hhands
  · rename_i size queue loop hpc
    obtain ⟨m, older, hpending, hagree, -⟩ := hhands
    refine ⟨[(r.consumer.runId 0, m)], older, hremovals.symm.trans hpending, ?_, ?_⟩
    · exact hreceived older (hdeliveries ▸ hagree)
    · intro hpc'
      exact absurd hpc (hpc' size queue loop)
  · refine ⟨[], r.consumer.shared.removals, rfl, ?_, fun _ => rfl⟩
    apply hreceived
    rw [← hremovals, ← hdeliveries]
    exact hhands

/-- **Strings arrive intact and in order.**  At every moment what has been received is a
prefix of what has been sent; and when the MSMQ queue is empty and no run is between
its receive and its call of the processor, it is all of it. -/
theorem strings_arrive_in_order
    (hreach : Runs.Reachable (step sender receiver) (init sender) r) :
    r.received <+: r.sent.map some ∧
    (r.queue = [] →
      (∀ size queue loop, (r.consumer.worker 0).pc ≠ .atProcess size queue loop) →
      r.received = r.sent.map some) := by
  have hs := sound_of_reachable hreach
  obtain ⟨pending, older, hremovals, hreceived, hsettled⟩ := hs.received_eq
  have hsent := hs.sent_eq
  rw [hremovals, List.reverse_append, List.map_append, ← hreceived, List.append_assoc] at hsent
  constructor
  · rw [hsent]
    exact List.prefix_append _ _
  · intro hempty hpc
    rw [hsent, hsettled hpc, hempty]
    simp

/-- Two strings, one of them empty, are sent, and the first is received. -/
theorem strings_arrive_in_order_first :
    ∃ r : Route, r.sent = [[0xD800, 0], []] ∧ r.received = [some [0xD800, 0]] ∧
      r.received <+: r.sent.map some := by
  have hrun : ∃ r, Runs.run (step { remaining := some [113] }
        { remaining := some [113], initialBufferSize := 1, incrementBufferSize := 4 })
      (init { remaining := some [113] })
      [.call [0xD800, 0], .opens (.always 0 1 0), .encode, .send default 0,
        .consumer (.start 0), .consumer (.task 0 .go), .consumer (.task 0 (.created none)),
        .consumer (.task 0 .go), .consumer (.task 0 (.opens (.always 0 2 0))),
        .call [], .opens (.always 0 1 0), .encode,
        .consumer (.task 0 (.allocates default)),
        .consumer (.task 0 (.receives ⟨mqErrorBufferOverflow, default, 0, []⟩)),
        .send default 0,
        .consumer (.task 0 (.receives ⟨0, default, 0, [0xD8, 0, 0, 0]⟩)),
        .consumer (.task 0 (.processes none .create []))] = some r ∧
      r.sent = [[0xD800, 0], []] ∧ r.received = [some [0xD800, 0]] := ⟨_, rfl, rfl, rfl⟩
  obtain ⟨r, hr, hsent, hreceived⟩ := hrun
  exact ⟨r, hsent, hreceived, (strings_arrive_in_order ⟨_, hr⟩).1⟩

end Route

end Msmq
