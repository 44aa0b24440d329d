import CamelMsmq.NativeQueue

/-!
# What the operations of a queue object do

One lemma for each operation of `MsmqQueue` says everything it can do, to the
object and to the history of MSMQ calls.  Of `open` it is `open_cases`: the path
is rejected, or MSMQ opens the queue at the attempt that ends the retrying, or
it refuses every attempt and `open` closes the handle the object still has.

Later proofs rest on these lemmas and hardly ever unfold an operation.  Three ways
to use them cover most of what is needed:

* what is read off single calls of one kind is not concerned by calls of another
  (`filterMap_open`), and refused attempts to open count for nothing (`Refusals`);
* `enqueuedSince` tells what a step has put into the MSMQ queue, from the calls
  that it has made;
* `Effect` sums an operation up for the handles: its calls pass the handle that the
  object has, and afterwards the object has that handle or one that MSMQ gave out.
-/

namespace Msmq

@[simp] theorem obtained_cons (c : MqCall) (calls : List MqCall) :
    obtained (c :: calls) = c.opened?.toList ++ obtained calls := by
  cases h : c.opened? <;> simp [obtained, h]

@[simp] theorem closed_cons (c : MqCall) (calls : List MqCall) :
    closed (c :: calls) = c.closed?.toList ++ closed calls := by
  cases h : c.closed? <;> simp [closed, h]

@[simp] theorem stale_cons (c : MqCall) (calls : List MqCall) :
    stale (c :: calls) = c.stale?.toList ++ stale calls := by
  cases h : c.stale? <;> simp [stale, h]

@[simp] theorem enqueued_cons (c : MqCall) (calls : List MqCall) :
    enqueued (c :: calls) = c.enqueued?.toList ++ enqueued calls := by
  cases h : c.enqueued? <;> simp [enqueued, h]

/-- What has been enqueued since stands before what had been enqueued. -/
theorem enqueuedSince_eq {before calls : List MqCall} {new : List MqMessage}
    (h : enqueued calls = new ++ enqueued before) : enqueuedSince before calls = new.reverse := by
  have hlength : (enqueued calls).length - (enqueued before).length = new.length := by
    rw [h, List.length_append]
    exact Nat.add_sub_cancel ..
  rw [enqueuedSince, hlength, h, List.take_left]

@[simp] theorem enqueuedSince_self (calls : List MqCall) : enqueuedSince calls calls = [] :=
  enqueuedSince_eq (List.nil_append _).symm

/-- One call more enqueues its message, if it is a send and succeeds. -/
@[simp] theorem enqueuedSince_cons (c : MqCall) (calls : List MqCall) :
    enqueuedSince calls (c :: calls) = c.enqueued?.toList := by
  rw [enqueuedSince_eq (enqueued_cons c calls)]
  cases c.enqueued? <;> rfl

/-- Calls of `MQOpenQueue` that were refused. -/
def Refusals (cs : List MqCall) : Prop :=
  ∀ c ∈ cs, ∃ name hr h, c = .openQueue name hr h ∧ failed hr = true

namespace Refusals

variable {cs : List MqCall}

/-- Induction on the refused calls. -/
@[elab_as_elim] theorem induct {motive : List MqCall → Prop} (hcs : Refusals cs) (nil : motive [])
    (refused : ∀ name hr h cs, failed hr = true → motive cs →
      motive (.openQueue name hr h :: cs)) : motive cs := by
  induction cs with
  | nil => exact nil
  | cons c cs ih =>
      obtain ⟨name, hr, h, rfl, hfail⟩ := hcs c List.mem_cons_self
      have htail : Refusals cs := fun d hd => hcs d (List.mem_cons_of_mem _ hd)
      exact refused name hr h cs hfail (ih htail)

/-- Refused calls do not count for anything that is read off single calls of
another kind. -/
theorem filterMap_append {β : Type} {f : MqCall → Option β} (hcs : Refusals cs)
    (hf : ∀ name hr h, failed hr = true → f (.openQueue name hr h) = none)
    (calls : List MqCall) : (cs ++ calls).filterMap f = calls.filterMap f := by
  rw [List.filterMap_append, List.filterMap_eq_nil_iff.mpr, List.nil_append]
  intro c hc
  obtain ⟨name, hr, h, rfl, hfail⟩ := hcs c hc
  exact hf name hr h hfail

theorem obtained_append (hcs : Refusals cs) (calls : List MqCall) :
    obtained (cs ++ calls) = obtained calls :=
  hcs.filterMap_append (fun _ _ _ hfail => by simp [MqCall.opened?, hfail]) calls

theorem closed_append (hcs : Refusals cs) (calls : List MqCall) :
    closed (cs ++ calls) = closed calls :=
  hcs.filterMap_append (fun _ _ _ _ => rfl) calls

theorem stale_append (hcs : Refusals cs) (calls : List MqCall) :
    stale (cs ++ calls) = stale calls :=
  hcs.filterMap_append (fun _ _ _ _ => rfl) calls

end Refusals

namespace OpenAnswers

/-- The attempt that ends the retrying: the first that does not answer
`MQ_ERROR_QUEUE_NOT_FOUND`, and the last one in any case. -/
def last (a : OpenAnswers) : Nat :=
  ((List.range 120).find? fun i => (a.attempt i).1 ≠ mqErrorQueueNotFound).getD 120

/-- The attempt that ends the retrying succeeds. -/
def opens (a : OpenAnswers) : Bool := !failed (a.attempt a.last).1

/-- The handle that attempt gives out if it succeeds. -/
def handle (a : OpenAnswers) : Handle := (a.attempt a.last).2

/-- If MSMQ opens the queue, the last answer is a success. -/
theorem not_failed_of_opens {a : OpenAnswers} (h : a.opens = true) :
    failed (a.attempt a.last).1 = false := by
  simpa [opens] using h

/-- The answers of an MSMQ that answers every attempt alike, on a machine with a
single-byte code page. -/
def always (hr : Hresult) (h : Handle) (close : Hresult) : OpenAnswers where
  multiByteToWideChar bytes := some (bytes.map (·.toUInt16))
  uninitialised := []
  attempt _ := (hr, h)
  close := close

/-- MSMQ gives out no handle a second time. -/
def fresh (a : OpenAnswers) (calls : List MqCall) : Bool :=
  !a.opens || !(obtained calls).contains a.handle

/-- The first answer other than `MQ_ERROR_QUEUE_NOT_FOUND` ends the retrying. -/
theorem last_eq_of_first {a : OpenAnswers} {k : Nat} (hk : k < 120)
    (hbefore : ∀ j, j < k → (a.attempt j).1 = mqErrorQueueNotFound)
    (hfirst : (a.attempt k).1 ≠ mqErrorQueueNotFound) : a.last = k := by
  have hfind : (List.range 120).find? (fun i => (a.attempt i).1 ≠ mqErrorQueueNotFound) =
      some k := by
    rw [List.find?_range_eq_some]
    refine ⟨by simpa using hfirst, by simpa using hk, ?_⟩
    intro j hj
    simpa using hbefore j hj
  rw [last, hfind, Option.getD_some]

/-- Without such an answer the 121st attempt is the last. -/
theorem last_eq_of_none {a : OpenAnswers}
    (hall : ∀ j, j < 120 → (a.attempt j).1 = mqErrorQueueNotFound) : a.last = 120 := by
  have hfind : (List.range 120).find? (fun i => (a.attempt i).1 ≠ mqErrorQueueNotFound) =
      none := by
    rw [List.find?_eq_none]
    intro j hj
    simpa using hall j (List.mem_range.mp hj)
  rw [last, hfind, Option.getD_none]

/-- All attempts before the last answer `MQ_ERROR_QUEUE_NOT_FOUND`. -/
theorem attempt_of_lt_last {a : OpenAnswers} {j : Nat} (hj : j < a.last) :
    (a.attempt j).1 = mqErrorQueueNotFound := by
  unfold last at hj
  cases hfind : (List.range 120).find? fun i => (a.attempt i).1 ≠ mqErrorQueueNotFound with
  | none =>
      rw [hfind, Option.getD_none] at hj
      simpa using List.find?_eq_none.mp hfind j (List.mem_range.mpr hj)
  | some k =>
      rw [hfind, Option.getD_some] at hj
      simpa using (List.find?_range_eq_some.mp hfind).2.2 j hj

end OpenAnswers

namespace MsmqQueue

variable {name : List UInt16} {attempt : Nat → Hresult × Handle} {o : Opening} {k : Nat}

/-- The state of the retry loop after `k` attempts. -/
def tried (name : List UInt16) (attempt : Nat → Hresult × Handle) (o : Opening) : Nat → Opening
  | 0 => o
  | k + 1 => mqOpenQueue name (attempt k) (tried name attempt o k)

/-- The retry loop stops after the attempt `last`.  The induction is on the number
of retries left, and `hbefore` is the loop invariant. -/
theorem retry_eq_tried (a : OpenAnswers) :
    ∀ left i, left + i = 120 →
      (∀ j, j < i → (a.attempt j).1 = mqErrorQueueNotFound) →
      retry name a.attempt left (i + 1) (tried name a.attempt o (i + 1)) =
        tried name a.attempt o (a.last + 1) := by
  intro left
  induction left with
  | zero =>
      intro i hi hbefore
      have hlast : a.last = 120 := a.last_eq_of_none (by simpa [← hi] using hbefore)
      have hi120 : i = 120 := by omega
      rw [hlast, hi120]
      rfl
  | succ left ih =>
      intro i hi hbefore
      by_cases hnf : (a.attempt i).1 = mqErrorQueueNotFound
      · have hstep : retry name a.attempt (left + 1) (i + 1) (tried name a.attempt o (i + 1)) =
            retry name a.attempt left (i + 1 + 1) (tried name a.attempt o (i + 1 + 1)) := by
          have hhr : (tried name a.attempt o (i + 1)).hr = mqErrorQueueNotFound := hnf
          rw [retry, if_pos hhr]
          rfl
        rw [hstep]
        apply ih (i + 1) (by omega)
        intro j hj
        by_cases hji : j = i
        · exact hji ▸ hnf
        · exact hbefore j (by omega)
      · have hhr : (tried name a.attempt o (i + 1)).hr ≠ mqErrorQueueNotFound := hnf
        rw [retry, if_neg hhr, OpenAnswers.last_eq_of_first (by omega) hbefore hnf]

/-- As long as attempts are refused the object keeps its handle. -/
theorem tried_refused (name : List UInt16) (o : Opening)
    (h : ∀ j, j < k → failed (attempt j).1 = true) :
    (tried name attempt o k).hQueue = o.hQueue ∧
    ∃ cs, Refusals cs ∧ (tried name attempt o k).calls = cs ++ o.calls := by
  induction k with
  | zero => exact ⟨rfl, [], by simp [Refusals], rfl⟩
  | succ k ih =>
      obtain ⟨hhandle, cs, hcs, hcalls⟩ := ih fun j hj => h j (by omega)
      have hk := h k (by omega)
      refine ⟨by simp [tried, mqOpenQueue, hk, hhandle],
        .openQueue name (attempt k).1 (attempt k).2 :: cs, ?_,
        by simp only [tried, mqOpenQueue, hcalls, List.cons_append]⟩
      intro c hc
      rcases List.mem_cons.mp hc with rfl | hc
      · exact ⟨name, _, _, rfl, hk⟩
      · exact hcs c hc

/-- `open` with an acceptable path: the attempts up to the last, and what is made of it. -/
theorem open_eq_tried (q : MsmqQueue) {path : Option (List UInt8)} {a : OpenAnswers}
    (hname : a.destFormatName path = some name) (calls : List MqCall) :
    q.open path a calls =
      let last := tried name a.attempt ⟨0, q.hQueue, calls⟩ (a.last + 1)
      if failed last.hr then
        ⟨.error "Error in opening the queue", { q with hQueue := last.hQueue },
          .closeQueue last.hQueue a.close :: last.calls⟩
      else ⟨.ok (), ⟨last.hQueue, true⟩, last.calls⟩ := by
  rw [← retry_eq_tried a 120 0 rfl (by simp)]
  simp only [MsmqQueue.open, hname]
  rfl

/-- **What `open` does.**  It throws before it calls MSMQ, and nothing has changed; or MSMQ
opens the queue, and the object has the new handle; or MSMQ refuses, and the object is as it
was, except that its old handle has been closed. -/
theorem open_cases (q : MsmqQueue) (path : Option (List UInt8)) (a : OpenAnswers)
    (calls : List MqCall) :
    (a.destFormatName path = none ∧
      q.open path a calls = ⟨.error "Error in opening the queue: invalid parameter", q, calls⟩) ∨
    (∃ name cs, a.destFormatName path = some name ∧ Refusals cs ∧ a.opens = true ∧
      q.open path a calls = ⟨.ok (), ⟨some a.handle, true⟩,
        .openQueue name (a.attempt a.last).1 a.handle :: (cs ++ calls)⟩) ∨
    (∃ name cs, a.destFormatName path = some name ∧ Refusals cs ∧ a.opens = false ∧
      q.open path a calls = ⟨.error "Error in opening the queue", q,
        .closeQueue q.hQueue a.close :: (cs ++ calls)⟩) := by
  cases hname : a.destFormatName path with
  | none => exact .inl ⟨rfl, by simp only [MsmqQueue.open, hname]⟩
  | some name =>
      let start : Opening := ⟨0, q.hQueue, calls⟩
      have hopen := q.open_eq_tried hname calls
      have hbefore : ∀ j, j < a.last → failed (a.attempt j).1 = true := by
        intro j hj
        rw [a.attempt_of_lt_last hj]
        rfl
      cases hfail : failed (a.attempt a.last).1 with
      | false =>
          obtain ⟨-, cs, hcs, hcalls⟩ := tried_refused name start hbefore
          refine .inr (.inl ⟨name, cs, rfl, hcs, by simp [OpenAnswers.opens, hfail], ?_⟩)
          rw [hopen]
          simp [tried, mqOpenQueue, hfail, hcalls, OpenAnswers.handle, start]
      | true =>
          have hall : ∀ j, j < a.last + 1 → failed (a.attempt j).1 = true := by
            intro j hj
            by_cases hlast : j = a.last
            · exact hlast ▸ hfail
            · exact hbefore j (by omega)
          obtain ⟨hhandle, cs, hcs, hcalls⟩ := tried_refused name start hall
          refine .inr (.inr ⟨name, cs, rfl, hcs, by simp [OpenAnswers.opens, hfail], ?_⟩)
          have hhr : (tried name a.attempt start (a.last + 1)).hr = (a.attempt a.last).1 := rfl
          rw [hopen]
          simp [hhr, hfail, hhandle, hcalls, start]

/-- Opening does not count for what is read off calls of another kind. -/
theorem filterMap_open {β : Type} {f : MqCall → Option β}
    (hopen : ∀ name hr h, f (.openQueue name hr h) = none)
    (hclose : ∀ h hr, f (.closeQueue h hr) = none) (q : MsmqQueue) (path : Option (List UInt8))
    (a : OpenAnswers) (calls : List MqCall) :
    (q.open path a calls).calls.filterMap f = calls.filterMap f := by
  have hrefused : ∀ cs, Refusals cs → (cs ++ calls).filterMap f = calls.filterMap f :=
    fun cs hcs => hcs.filterMap_append (fun name hr h _ => hopen name hr h) calls
  obtain ⟨-, heq⟩ | ⟨name, cs, -, hcs, -, heq⟩ | ⟨name, cs, -, hcs, -, heq⟩ :=
    q.open_cases path a calls <;> rw [heq]
  · rw [List.filterMap_cons_none (hopen _ _ _), hrefused cs hcs]
  · rw [List.filterMap_cons_none (hclose _ _), hrefused cs hcs]

/-- When `open` returns: the path can be converted, and the answer that ends the retries is a
success. -/
theorem open_returns_iff (q : MsmqQueue) (path : Option (List UInt8)) (a : OpenAnswers)
    (calls : List MqCall) :
    (q.open path a calls).result = .ok () ↔ a.destFormatName path ≠ none ∧ a.opens = true := by
  obtain ⟨hnone, heq⟩ | ⟨name, cs, hname, -, hopens, heq⟩ | ⟨name, cs, hname, -, hopens, heq⟩ :=
    q.open_cases path a calls <;> rw [heq]
  · exact ⟨fun h => (nomatch h), fun h => absurd hnone h.1⟩
  · exact ⟨fun _ => ⟨by simp [hname], hopens⟩, fun _ => rfl⟩
  · refine ⟨fun h => (nomatch h), fun h => ?_⟩
    rw [hopens] at h
    cases h.2

/-- What `receiveMessage` does: it makes one call and leaves the object alone. -/
theorem receiveMessage_spec (q : MsmqQueue) (msg : MsmqMessage) (hr : Hresult)
    (calls : List MqCall) :
    (q.receiveMessage msg hr calls).queue = q ∧
    (q.receiveMessage msg hr calls).calls =
      .receiveMessage q.hQueue msg.pElems msg.cElems hr :: calls := by
  simp only [receiveMessage]
  split
  · exact ⟨rfl, rfl⟩
  · split
    · exact ⟨rfl, rfl⟩
    · split <;> exact ⟨rfl, rfl⟩

/-- What `sendMessage` does: it makes one call and clears the flag when MSMQ
reports the handle stale. -/
theorem sendMessage_spec (q : MsmqQueue) (message : MqMessage) (hr : Hresult)
    (calls : List MqCall) :
    (q.sendMessage message hr calls).queue =
      ⟨q.hQueue, q.isOpen && hr ≠ mqErrorStaleHandle⟩ ∧
    (q.sendMessage message hr calls).calls = .sendMessage q.hQueue message hr :: calls ∧
    ((∃ e, (q.sendMessage message hr calls).result = .error e) ↔ failed hr = true) := by
  by_cases hstale : hr = mqErrorStaleHandle
  · subst hstale
    simp [sendMessage]
  · cases hfail : failed hr <;> simp [sendMessage, hstale, hfail]

/-- What `close` does: without a handle it only clears the flag; else it clears the flag if MSMQ
closes the handle, and throws and leaves the flag if it does not. -/
theorem close_cases (q : MsmqQueue) (hr : Hresult) (calls : List MqCall) :
    (q.hQueue = none ∧ q.close hr calls = ⟨.ok (), { q with isOpen := false }, calls⟩) ∨
    (∃ h, q.hQueue = some h ∧ failed hr = false ∧
      q.close hr calls = ⟨.ok (), { q with isOpen := false }, .closeQueue (some h) hr :: calls⟩) ∨
    (∃ h, q.hQueue = some h ∧ failed hr = true ∧
      q.close hr calls =
        ⟨.error "Error in closing the queue", q, .closeQueue (some h) hr :: calls⟩) := by
  cases hq : q.hQueue with
  | none => exact .inl ⟨rfl, by simp [close, hq]⟩
  | some h =>
      cases hfail : failed hr with
      | false => exact .inr (.inl ⟨h, rfl, rfl, by simp [close, hq, hfail]⟩)
      | true => exact .inr (.inr ⟨h, rfl, rfl, by simp [close, hq, hfail]⟩)

/-- What an operation may do to the handles: it makes calls with the handle the
object has, and afterwards the object has that handle or one that MSMQ gave out. -/
structure Effect (q q' : MsmqQueue) (calls calls' : List MqCall) : Prop where
  history : ∃ news, calls' = news ++ calls ∧ ∀ c ∈ news, ∀ h, c.uses? = some h → q.hQueue = some h
  handle : ∀ h, q'.hQueue = some h → q.hQueue = some h ∨ h ∈ obtained calls'

/-- `open` passes the old handle on its failure exit only, and on success it has a new one. -/
theorem effect_open (q : MsmqQueue) (path : Option (List UInt8)) (a : OpenAnswers)
    (calls : List MqCall) :
    Effect q (q.open path a calls).queue calls (q.open path a calls).calls := by
  have hrefused : ∀ cs, Refusals cs → ∀ c ∈ cs, ∀ h, c.uses? = some h → q.hQueue = some h := by
    intro cs hcs c hc h huse
    obtain ⟨name, hr, g, rfl, -⟩ := hcs c hc
    cases huse
  obtain ⟨-, hopen⟩ | ⟨name, cs, -, hcs, hopens, hopen⟩ | ⟨name, cs, -, hcs, -, hopen⟩ :=
    q.open_cases path a calls <;> rw [hopen]
  · exact ⟨⟨[], rfl, by simp⟩, fun h hh => .inl hh⟩
  · refine ⟨⟨_ :: cs, rfl, ?_⟩, ?_⟩
    · intro c hc h huse
      rcases List.mem_cons.mp hc with rfl | hc
      · cases huse
      · exact hrefused cs hcs c hc h huse
    · intro h hh
      have hok := OpenAnswers.not_failed_of_opens hopens
      have hah : a.handle = h := by simpa using hh
      exact .inr (by simp [MqCall.opened?, hok, hah])
  · refine ⟨⟨_ :: cs, rfl, ?_⟩, fun h hh => .inl hh⟩
    intro c hc h huse
    rcases List.mem_cons.mp hc with rfl | hc
    · exact huse
    · exact hrefused cs hcs c hc h huse

/-- A single call with the object's handle. -/
theorem effect_call {q q' : MsmqQueue} {c : MqCall} {calls : List MqCall}
    (huse : c.uses? = q.hQueue) (hhandle : q'.hQueue = q.hQueue) :
    Effect q q' calls (c :: calls) := by
  refine ⟨⟨[c], rfl, ?_⟩, fun h hh => .inl (hhandle ▸ hh)⟩
  intro d hd h hd'
  rw [List.mem_singleton.mp hd, huse] at hd'
  exact hd'

theorem effect_receiveMessage (q : MsmqQueue) (msg : MsmqMessage) (hr : Hresult)
    (calls : List MqCall) :
    Effect q (q.receiveMessage msg hr calls).queue calls (q.receiveMessage msg hr calls).calls := by
  obtain ⟨hqueue, hcalls⟩ := q.receiveMessage_spec msg hr calls
  rw [hqueue, hcalls]
  exact effect_call rfl rfl

theorem effect_sendMessage (q : MsmqQueue) (message : MqMessage) (hr : Hresult)
    (calls : List MqCall) :
    Effect q (q.sendMessage message hr calls).queue calls
      (q.sendMessage message hr calls).calls := by
  obtain ⟨hqueue, hcalls, -⟩ := q.sendMessage_spec message hr calls
  rw [hqueue, hcalls]
  exact effect_call rfl rfl

theorem effect_close (q : MsmqQueue) (hr : Hresult) (calls : List MqCall) :
    Effect q (q.close hr calls).queue calls (q.close hr calls).calls := by
  obtain ⟨-, hclose⟩ | ⟨h, hsome, -, hclose⟩ | ⟨h, hsome, -, hclose⟩ := q.close_cases hr calls <;>
    rw [hclose]
  · exact ⟨⟨[], rfl, by simp⟩, fun h hh => .inl hh⟩
  · exact effect_call hsome.symm rfl
  · exact effect_call hsome.symm rfl

end MsmqQueue

/-- Every handle that was passed to MSMQ had been given out by it. -/
def UsesObtained (calls : List MqCall) : Prop :=
  ∀ c ∈ calls, ∀ h, c.uses? = some h → h ∈ obtained calls

theorem obtained_subset_append (news calls : List MqCall) {h : Handle} (hh : h ∈ obtained calls) :
    h ∈ obtained (news ++ calls) := by
  simp only [obtained, List.filterMap_append]
  exact List.mem_append_right _ hh

theorem uses_of_closed {c : MqCall} {h : Handle} (hc : c.closed? = some h) : c.uses? = some h := by
  cases c <;> simp_all [MqCall.closed?, MqCall.uses?]

theorem uses_of_stale {c : MqCall} {h : Handle} (hc : c.stale? = some h) : c.uses? = some h := by
  cases c <;> simp_all [MqCall.stale?, MqCall.uses?]

namespace UsesObtained

variable {calls : List MqCall}

/-- A handle that has been closed was given out before. -/
theorem of_closed (hu : UsesObtained calls) {h : Handle} (hh : h ∈ closed calls) :
    h ∈ obtained calls := by
  obtain ⟨c, hc, hch⟩ := List.mem_filterMap.mp hh
  exact hu c hc h (uses_of_closed hch)

/-- So was one that MSMQ has found stale. -/
theorem of_stale (hu : UsesObtained calls) {h : Handle} (hh : h ∈ stale calls) :
    h ∈ obtained calls := by
  obtain ⟨c, hc, hch⟩ := List.mem_filterMap.mp hh
  exact hu c hc h (uses_of_stale hch)

/-- An operation of an object with a handle from MSMQ keeps it so. -/
theorem effect {q q' : MsmqQueue} {calls' : List MqCall} (hu : UsesObtained calls)
    (hq : ∀ h, q.hQueue = some h → h ∈ obtained calls) (he : MsmqQueue.Effect q q' calls calls') :
    UsesObtained calls' ∧ ∀ h, q'.hQueue = some h → h ∈ obtained calls' := by
  obtain ⟨⟨news, rfl, hnews⟩, hhandle⟩ := he
  refine ⟨?_, ?_⟩
  · intro c hc h huse
    apply obtained_subset_append
    rcases List.mem_append.mp hc with hc | hc
    · exact hq h (hnews c hc h huse)
    · exact hu c hc h huse
  · intro h hh
    rcases hhandle h hh with hh | hh
    · exact obtained_subset_append news calls (hq h hh)
    · exact hh

end UsesObtained

end Msmq
