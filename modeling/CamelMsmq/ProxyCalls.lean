import CamelMsmq.ProxyOwners

/-!
# Native calls with proxies

A method of a proxy reads the pointer and passes it to JNI, together with the proxy itself, so
that the proxy cannot be collected before the call returns.  Nothing keeps another thread from
calling `delete()` meanwhile.  A program that leaves that to the collector, as producer and
consumer do, never passes a pointer to an object that has been destroyed.

The collector is one of the threads.  It comes to a proxy only when nobody refers to it any
more, neither the program nor a call under way.  The invariant `Tended` says so the other way
round: proxies that can be reached own their objects and are not being deleted, and the calls
under way have the pointers of such proxies.

The assumption on the program (`Collected`) is needed.  With `delete()` two threads and one proxy
are enough: the one deletes what the other has just passed to native code.
-/

namespace Msmq

namespace Proxies

variable {T : Nat} {s s' : Proxies T} {t : Fin T} {p : ProxyRef} {stage : DeleteStage}
  {pc : ProxyPc} {act : ProxyAction T}

/-- The program neither calls `delete()` nor makes a proxy for a pointer. -/
def Collected : ProxyAction T → Prop
  | .delete _ _ => False
  | .frompointer _ => False
  | _ => True

/-- Proxies within reach own their objects and are not being deleted, and calls have the
pointers of such proxies. -/
structure Tended (s : Proxies T) : Prop where
  sound : s.Sound
  owned : ∀ p, s.Reaches p → (s.proxy p).swigCMemOwn = true
  undeleted : ∀ p t, s.Reaches p → (s.thread t).deletes p = false
  args : ∀ t l, s.thread t = .calling l →
    ∀ x ∈ l, s.Reaches x.1 ∧ x.2 = (s.proxy x.1).swigCPtr

/-- At first there are no proxies. -/
theorem tended_init : (init T).Tended := by
  refine ⟨sound_init, fun p hp => absurd hp.1 (Nat.not_lt_zero p), fun p t _ => rfl, ?_⟩
  intro t l hl
  cases hl

/-- A step of `delete()` concerns one thread and one proxy. -/
theorem goDelete_frame (hthread : s.thread t = .deleting p stage) :
    (s.goDelete t p stage).next = s.next ∧ (s.goDelete t p stage).dropped = s.dropped ∧
      (∀ q, q ≠ p → (s.goDelete t p stage).proxy q = s.proxy q) ∧
      ∃ pc, (s.goDelete t p stage).thread = Function.update s.thread t pc ∧
        (pc = .idle ∨ ∃ stage', pc = .deleting p stage') := by
  have hset : ∀ x q, q ≠ p → (s.setProxy p x).proxy q = s.proxy q :=
    fun x q hq => proxy_setProxy_of_ne x hq
  cases stage with
  | atPtr =>
      simp only [goDelete]
      split
      · exact ⟨rfl, rfl, fun _ _ => rfl, _, rfl, .inl rfl⟩
      · exact ⟨rfl, rfl, fun _ _ => rfl, _, rfl, .inr ⟨_, rfl⟩⟩
  | atOwn =>
      simp only [goDelete]
      split
      · exact ⟨rfl, rfl, hset _, _, rfl, .inr ⟨_, rfl⟩⟩
      · exact ⟨rfl, rfl, fun _ _ => rfl, _, rfl, .inr ⟨_, rfl⟩⟩
  | atNative => exact ⟨rfl, rfl, fun _ _ => rfl, _, rfl, .inr ⟨_, rfl⟩⟩
  | atClear => exact ⟨rfl, rfl, hset _, _, rfl, .inl rfl⟩

namespace Tended

/-- One thread goes on; what is within reach was so before, and stays as it is. -/
theorem goOn (ht : s.Tended) (hs' : s'.Sound)
    (hthread : s'.thread = Function.update s.thread t pc)
    (hreach : ∀ q, s'.Reaches q ↔ s.Reaches q)
    (hproxy : ∀ q, s.Reaches q → s'.proxy q = s.proxy q)
    (hdeletes : ∀ q, s.Reaches q → pc.deletes q = false)
    (hargs : ∀ l, pc = .calling l → ∀ x ∈ l, s.Reaches x.1 ∧ x.2 = (s.proxy x.1).swigCPtr) :
    s'.Tended := by
  refine ⟨hs', fun q hq => ?_, fun q u hq => ?_, fun u l hl x hx => ?_⟩
  · rw [hreach] at hq
    rw [hproxy q hq]
    exact ht.owned q hq
  · rw [hreach] at hq
    rw [hthread]
    by_cases hu : u = t
    · rw [hu, Function.update_self]
      exact hdeletes q hq
    · rw [Function.update_of_ne hu]
      exact ht.undeleted q u hq
  · have hboth : s.Reaches x.1 ∧ x.2 = (s.proxy x.1).swigCPtr := by
      rw [hthread] at hl
      by_cases hu : u = t
      · rw [hu, Function.update_self] at hl
        exact hargs l hl x hx
      · rw [Function.update_of_ne hu] at hl
        exact ht.args u l hl x hx
    exact ⟨(hreach _).mpr hboth.1, by rw [hproxy _ hboth.1]; exact hboth.2⟩

/-- **One step.**  The collector comes only to proxies that are out of reach, and a program that
discards a proxy has no call under way with it; all other steps leave the proxies within reach
as they are. -/
theorem step (ht : s.Tended) (hcollected : Collected act) (hstep : s.step act = some s') :
    s'.Tended := by
  have hs' := ht.sound.step hstep
  cases steps_of_step hstep with
  | @construct cls cPtr hnull hfree =>
      have hold : ∀ p, p < s.next → (s.addProxy ⟨cls, cPtr, true⟩).proxy p = s.proxy p :=
        fun p hp => proxy_addProxy _ hp
      refine ⟨hs', fun p hp => ?_, fun p t hp => ?_, fun t l hl x hx => ?_⟩
      · rcases Nat.lt_succ_iff_lt_or_eq.mp hp.1 with hlt | rfl
        · exact (congrArg Proxy.swigCMemOwn (hold p hlt)).trans (ht.owned p ⟨hlt, hp.2⟩)
        · have hnew : (s.addProxy ⟨cls, cPtr, true⟩).proxy s.next = ⟨cls, cPtr, true⟩ :=
            Function.update_self _ _ _
          exact congrArg Proxy.swigCMemOwn hnew
      · rcases Nat.lt_succ_iff_lt_or_eq.mp hp.1 with hlt | rfl
        · exact ht.undeleted p t ⟨hlt, hp.2⟩
        · by_contra hdeletes
          have hdeletes' : (s.thread t).deletes s.next = true := eq_true_of_ne_false hdeletes
          exact Nat.lt_irrefl _ (ht.sound.disciplined.bounded t s.next hdeletes')
      · obtain ⟨hreach, hptr⟩ := ht.args t l hl x hx
        have hproxy := congrArg Proxy.swigCPtr (hold x.1 hreach.1)
        exact ⟨⟨Nat.lt_succ_of_lt hreach.1, hreach.2⟩, hptr.trans hproxy.symm⟩
  | cast pointers => exact ⟨hs', ht.owned, ht.undeleted, ht.args⟩
  | frompointer => exact hcollected.elim
  | @drop p hunused =>
      have hreach : ∀ q, Reaches { s with dropped := Function.update s.dropped p true } q ↔
          s.Reaches q ∧ q ≠ p := by
        intro q
        by_cases hqp : q = p <;> simp [Reaches, hqp]
      refine ⟨hs', fun q hq => ht.owned q ((hreach q).mp hq).1,
        fun q t hq => ht.undeleted q t ((hreach q).mp hq).1, fun t l hl x hx => ?_⟩
      obtain ⟨hx', hptr⟩ := ht.args t l hl x hx
      refine ⟨(hreach x.1).mpr ⟨hx', fun heq => ?_⟩, hptr⟩
      have huses : (s.thread t).uses p = true := by
        rw [show s.thread t = .calling l from hl]
        exact List.any_eq_true.mpr ⟨x, hx, decide_eq_true heq⟩
      rw [hunused t] at huses
      cases huses
  | call hidle hreach =>
      refine ht.goOn hs' rfl (fun _ => Iff.rfl) (fun _ _ => rfl) (fun _ _ => rfl)
        fun l hl x hx => ?_
      cases hl
      obtain ⟨p, hp, rfl⟩ := List.mem_map.mp hx
      exact ⟨hreach p hp, rfl⟩
  | native hthread =>
      exact ht.goOn hs' rfl (fun _ => Iff.rfl) (fun _ _ => rfl) (fun _ _ => rfl)
        fun l hl => by cases hl
  | delete hreach hidle hmonitor => exact hcollected.elim
  | finalize hp hdropped hidle hmonitor =>
      refine ht.goOn hs' rfl (fun _ => Iff.rfl) (fun _ _ => rfl) (fun q hq => ?_)
        fun l hl => by cases hl
      have hne : _ ≠ q := fun heq => by
        rw [← heq] at hq
        exact absurd (hdropped.symm.trans hq.2) (by decide)
      exact decide_eq_false hne
  | @go t p stage hthread =>
      obtain ⟨hnext, hdropped, hproxy, pc, hpc, hgoes⟩ := goDelete_frame hthread
      -- a proxy that is being deleted is out of reach
      have hne : ∀ q, s.Reaches q → q ≠ p := fun q hq heq => by
        have hdeletes := ht.undeleted q t hq
        rw [heq, deletes_of_deleting hthread] at hdeletes
        cases hdeletes
      refine ht.goOn hs' hpc (fun q => by simp only [Reaches, hnext, hdropped])
        (fun q hq => hproxy q (hne q hq)) (fun q hq => ?_) fun l hl => ?_
      · rcases hgoes with rfl | ⟨stage', rfl⟩
        · rfl
        · exact decide_eq_false (Ne.symm (hne q hq))
      · rcases hgoes with rfl | ⟨stage', rfl⟩ <;> cases hl

end Tended

/-- **No call dangles.**  In a program that leaves `delete()` to the collector and makes no
proxies for pointers, every proxy with which a native call is under way still points to its
native object, whatever the collector and the other threads do meanwhile.  The object is of the
class that the proxy is for, so native code that casts the pointer casts it to what it is. -/
theorem calls_never_dangle {acts : List (ProxyAction T)} (hacts : ∀ act ∈ acts, Collected act)
    (hrun : Runs.run step (init T) acts = some s) :
    ∀ t l, s.thread t = .calling l → ∀ x ∈ l,
      x.2 = (s.proxy x.1).swigCPtr ∧ x.2 ≠ 0 ∧ s.live x.2 = some (s.proxy x.1).cls := by
  have hok : Runs.EachStep step (fun _ act => Collected act) (init T) acts :=
    fun done act _ hpre _ => hacts act (hpre.subset (List.mem_append_right _ List.mem_cons_self))
  have ht : s.Tended := (Runs.throughout_of_eachStep step
    (fun _ _ _ ht hstep hcollected => Tended.step ht hcollected hstep) tended_init hok).finish
      step hrun
  intro t l hl x hx
  obtain ⟨hreach, hptr⟩ := ht.args t l hl x hx
  have howner : x.1 ∈ s.owners := ⟨hreach.1, .inl (ht.owned _ hreach)⟩
  rw [hptr]
  exact ⟨rfl, ht.sound.nonnull _ howner, ht.sound.balanced.obj_mem_live howner⟩

/-- A queue and a message are in use while another message is collected, and its address given
out again. -/
theorem calls_never_dangle_send :
    ∃ s : Proxies 2, s.thread 0 = .calling [(0, 8), (1, 16)] ∧ s.live 8 = some .msmqQueue ∧
      s.live 16 = some .msmqMessage ∧ s.live 24 = some .byteArray := by
  let acts : List (ProxyAction 2) :=
    [.construct .msmqQueue 8, .construct .msmqMessage 16, .construct .msmqMessage 24, .drop 2,
      .finalize 1 2, .call 0 [0, 1], .go 1, .go 1, .go 1, .go 1, .construct .byteArray 24]
  have hrun : (Runs.run step (init 2) acts).map (fun s => (s.thread 0, s.live 24,
      (s.proxy 0).cls, (s.proxy 1).cls)) =
      some (.calling [(0, 8), (1, 16)], some .byteArray, .msmqQueue, .msmqMessage) := by decide
  have hacts : ∀ act ∈ acts, Collected act := by simp [acts, Collected]
  obtain ⟨s, hs, hseen⟩ := Option.map_eq_some_iff.mp hrun
  simp only [Prod.mk.injEq] at hseen
  obtain ⟨hthread, hnew, hqueue, hmessage⟩ := hseen
  have hcalls := calls_never_dangle hacts hs 0 _ hthread
  refine ⟨s, hthread, ?_, ?_, hnew⟩
  · exact hqueue ▸ (hcalls (0, 8) (by simp)).2.2
  · exact hmessage ▸ (hcalls (1, 16) (by simp)).2.2

/-- A call of `delete()` is no collection: here it comes between a pointer's being read and its
use. -/
example : ((Runs.run step (init 2) [.construct .msmqMessage 8, .call 0 [0], .delete 1 0, .go 1,
    .go 1, .go 1]).map fun s => (s.thread 0, s.live 8)) = some (.calling [(0, 8)], none) := by
  decide

end Proxies

end Msmq
