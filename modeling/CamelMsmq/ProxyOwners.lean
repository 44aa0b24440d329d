import CamelMsmq.Ownership
import CamelMsmq.Proxies

/-!
# The owners of native objects

The proxies that own a native object, together with the threads that are about to destroy what
a proxy has owned, keep the books of the native objects: the monitors see to it that no two
threads are at it with one proxy, and the flag that no proxy comes to it twice.  So no
interleaving destroys an object twice, and what is left when all proxies are cleared is
nothing.

The books are those of `Ownership`.  A construction brings an owner and an object, a
destruction takes both away, and in between the ownership passes from the proxy to the thread
that has found the flag set, without a moment at which it has two owners or none.

Aliases made of raw pointers own nothing, so they do not appear in the books, and nothing is
assumed of what a program does with them.
-/

namespace Msmq

namespace Proxies

variable {T : Nat}

/-! ## Monitors -/

/-- No two threads have the monitor of one proxy, and a thread that has come past the flag has
cleared it. -/
structure Disciplined (s : Proxies T) : Prop where
  monitor : ∀ t u p, (s.thread t).deletes p = true → (s.thread u).deletes p = true → t = u
  bounded : ∀ t p, (s.thread t).deletes p = true → p < s.next
  disowned : ∀ t p stage, s.thread t = .deleting p stage → stage = .atNative ∨ stage = .atClear →
    (s.proxy p).swigCMemOwn = false

variable {s s' : Proxies T} {t u : Fin T} {p q : ProxyRef} {stage : DeleteStage} {pc : ProxyPc}
  {act : ProxyAction T}

theorem deletes_of_deleting (hthread : s.thread t = .deleting p stage) :
    (s.thread t).deletes p = true := by
  rw [hthread]
  exact decide_eq_true rfl

namespace Disciplined

/-- The threads stand where they stood, and the proxies that there were are as they were. -/
theorem of_thread_eq (hd : s.Disciplined) (hthread : s'.thread = s.thread)
    (hnext : s.next ≤ s'.next) (hproxy : ∀ p, p < s.next → s'.proxy p = s.proxy p) :
    s'.Disciplined := by
  refine ⟨fun t u p => ?_, fun t p hp => ?_, fun t p stage hp hstage => ?_⟩
  · rw [hthread]
    exact hd.monitor t u p
  · rw [hthread] at hp
    exact Nat.lt_of_lt_of_le (hd.bounded t p hp) hnext
  · rw [hthread] at hp
    rw [hproxy p (hd.bounded t p (deletes_of_deleting hp))]
    exact hd.disowned t p stage hp hstage

/-- One thread goes on; no flag is set. -/
theorem goOn (hd : s.Disciplined) (hthread : s'.thread = Function.update s.thread t pc)
    (hnext : s'.next = s.next)
    (hflag : ∀ p, (s.proxy p).swigCMemOwn = false → (s'.proxy p).swigCMemOwn = false)
    (hmonitor : ∀ p, pc.deletes p = true →
      p < s.next ∧ ∀ u, u ≠ t → (s.thread u).deletes p = false)
    (hstage : ∀ p stage, pc = .deleting p stage → stage = .atNative ∨ stage = .atClear →
      (s'.proxy p).swigCMemOwn = false) : s'.Disciplined := by
  have hself : s'.thread t = pc := by rw [hthread, Function.update_self]
  have hother : ∀ u, u ≠ t → s'.thread u = s.thread u := fun u hu => by
    rw [hthread, Function.update_of_ne hu]
  refine ⟨fun u v p hu hv => ?_, fun u p hu => ?_, fun u p stage hu hpast => ?_⟩
  · by_cases hut : u = t
    · by_cases hvt : v = t
      · exact hut.trans hvt.symm
      · rw [hut, hself] at hu
        rw [hother v hvt, (hmonitor p hu).2 v hvt] at hv
        cases hv
    · by_cases hvt : v = t
      · rw [hvt, hself] at hv
        rw [hother u hut, (hmonitor p hv).2 u hut] at hu
        cases hu
      · rw [hother u hut] at hu
        rw [hother v hvt] at hv
        exact hd.monitor u v p hu hv
  · rw [hnext]
    by_cases hut : u = t
    · rw [hut, hself] at hu
      exact (hmonitor p hu).1
    · rw [hother u hut] at hu
      exact hd.bounded u p hu
  · by_cases hut : u = t
    · rw [hut, hself] at hu
      exact hstage p stage hu hpast
    · rw [hother u hut] at hu
      exact hflag p (hd.disowned u p stage hu hpast)

/-- A thread in `delete()` keeps the monitor to itself until it leaves the method. -/
theorem alone (hd : s.Disciplined) (hthread : s.thread t = .deleting p stage) :
    p < s.next ∧ ∀ u, u ≠ t → (s.thread u).deletes p = false := by
  have hp := deletes_of_deleting hthread
  refine ⟨hd.bounded t p hp, fun u hu => ?_⟩
  by_contra hdeletes
  exact hu (hd.monitor u t p (by simpa using hdeletes) hp)

end Disciplined

/-! ## The books -/

/-- The proxies that own a native object, those included whose object is about to be destroyed. -/
def owners (s : Proxies T) : Set ProxyRef :=
  {p | p < s.next ∧ ((s.proxy p).swigCMemOwn = true ∨ ∃ t, s.thread t = .deleting p .atNative)}

/-- The native objects that live. -/
def objects (s : Proxies T) : Set NativeObject := {x | s.live x.2 = some x.1}

/-- The monitors are respected, an owner has a pointer, and the books are balanced. -/
structure Sound (s : Proxies T) : Prop where
  disciplined : s.Disciplined
  nonnull : ∀ p ∈ s.owners, (s.proxy p).swigCPtr ≠ 0
  balanced : Ownership.Balanced s.owners (fun p => (s.proxy p).object) s.objects s.created
    s.destroyed

theorem sound_init : (init T).Sound := by
  have howners : (init T).owners = ∅ := Set.eq_empty_of_forall_notMem fun p hp =>
    Nat.not_lt_zero p hp.1
  have hobjects : (init T).objects = ∅ := Set.eq_empty_of_forall_notMem fun x hx =>
    Option.some_ne_none x.1 (Eq.symm hx)
  refine ⟨⟨fun t u p hp => ?_, fun t p hp => ?_, fun t p stage hp => ?_⟩, fun p hp => ?_, ?_⟩
  · cases hp
  · cases hp
  · cases hp
  · rw [howners] at hp
    exact absurd hp (Set.notMem_empty p)
  · rw [howners, hobjects]
    exact Ownership.Balanced.empty _

/-- Nothing that concerns the books has changed. -/
theorem Sound.of_owners (hs : s.Sound) (hd : s'.Disciplined) (howners : s'.owners = s.owners)
    (hproxy : ∀ p ∈ s.owners, (s'.proxy p).object = (s.proxy p).object) (hlive : s'.live = s.live)
    (hcreated : s'.created = s.created) (hdestroyed : s'.destroyed = s.destroyed) : s'.Sound := by
  refine ⟨hd, fun p hp => ?_, ?_⟩
  · rw [howners] at hp
    have hptr : (s'.proxy p).swigCPtr = (s.proxy p).swigCPtr := congrArg Prod.snd (hproxy p hp)
    rw [hptr]
    exact hs.nonnull p hp
  · rw [hcreated, hdestroyed]
    have hobjects : s'.objects = s.objects := by
      unfold objects
      rw [hlive]
    exact hs.balanced.congr howners hproxy hobjects

/-- The owners when one thread goes on, neither to destroying nor from there. -/
theorem owners_goOn (hthread : s'.thread = Function.update s.thread t pc)
    (hnext : s'.next = s.next)
    (hown : ∀ p, (s'.proxy p).swigCMemOwn = (s.proxy p).swigCMemOwn)
    (hfrom : ∀ p, s.thread t ≠ .deleting p .atNative) (hto : ∀ p, pc ≠ .deleting p .atNative) :
    s'.owners = s.owners := by
  have hnative : ∀ p, (∃ u, s'.thread u = .deleting p .atNative) ↔
      ∃ u, s.thread u = .deleting p .atNative := by
    intro p
    refine exists_congr fun u => ?_
    rw [hthread]
    by_cases hu : u = t
    · subst hu
      rw [Function.update_self]
      exact iff_of_false (hto p) (hfrom p)
    · rw [Function.update_of_ne hu]
  ext p
  simp only [owners, Set.mem_ofPred_eq, hnext, hown, hnative]

/-- One thread goes on, neither to destroying nor from there, and the proxies stay as they
are. -/
theorem Sound.goOn (hs : s.Sound) (hthread : s'.thread = Function.update s.thread t pc)
    (hnext : s'.next = s.next) (hproxy : s'.proxy = s.proxy) (hlive : s'.live = s.live)
    (hcreated : s'.created = s.created) (hdestroyed : s'.destroyed = s.destroyed)
    (hfrom : ∀ p, s.thread t ≠ .deleting p .atNative)
    (hmonitor : ∀ p, pc.deletes p = true →
      p < s.next ∧ ∀ u, u ≠ t → (s.thread u).deletes p = false)
    (hto : ∀ p stage, pc = .deleting p stage →
      stage ≠ .atNative ∧ (stage = .atClear → (s.proxy p).swigCMemOwn = false)) : s'.Sound := by
  refine hs.of_owners (hs.disciplined.goOn hthread hnext ?_ hmonitor ?_)
    (owners_goOn hthread hnext ?_ hfrom ?_) ?_ hlive hcreated hdestroyed
  · exact fun p hp => by rw [hproxy]; exact hp
  · intro p stage hstage hpast
    rw [hproxy]
    exact (hto p stage hstage).2 (hpast.resolve_left (hto p stage hstage).1)
  · exact fun p => by rw [hproxy]
  · exact fun p hp => (hto p _ hp).1 rfl
  · exact fun p _ => by rw [hproxy]

/-- A new proxy changes no other. -/
theorem proxy_addProxy (x : Proxy) (hp : p < s.next) : (s.addProxy x).proxy p = s.proxy p :=
  Function.update_of_ne (Nat.ne_of_lt hp) _ _

/-- A construction brings an owner and the object that it owns. -/
theorem Sound.construct (hs : s.Sound) {cls : NativeClass} {cPtr : CPtr} (hnull : cPtr ≠ 0)
    (hfree : s.live cPtr = none) :
    Sound
      { s.addProxy ⟨cls, cPtr, true⟩ with
        live := Function.update s.live cPtr (some cls)
        created := (cls, cPtr) :: s.created } := by
  let s' : Proxies T :=
    { s.addProxy ⟨cls, cPtr, true⟩ with
      live := Function.update s.live cPtr (some cls)
      created := (cls, cPtr) :: s.created }
  have hold : ∀ p, p < s.next → s'.proxy p = s.proxy p := fun p hp => proxy_addProxy _ hp
  have hnew : s'.proxy s.next = ⟨cls, cPtr, true⟩ := Function.update_self _ _ _
  have howners : s'.owners = insert s.next s.owners := by
    ext p
    simp only [owners, Set.mem_ofPred_eq, Set.mem_insert_iff]
    constructor
    · rintro ⟨hp, hown⟩
      rcases Nat.lt_succ_iff_lt_or_eq.mp hp with hlt | rfl
      · rw [hold p hlt] at hown
        exact .inr ⟨hlt, hown⟩
      · exact .inl rfl
    · rintro (rfl | ⟨hlt, hown⟩)
      · exact ⟨Nat.lt_succ_self _, .inl (by rw [hnew])⟩
      · exact ⟨Nat.lt_succ_of_lt hlt, by rw [hold p hlt]; exact hown⟩
  have hobjects : s'.objects = insert (cls, cPtr) s.objects := by
    ext ⟨c, a⟩
    by_cases ha : a = cPtr
    · subst ha
      simp [s', objects, hfree, eq_comm]
    · simp [s', objects, ha]
  refine ⟨hs.disciplined.of_thread_eq rfl (Nat.le_succ _) hold, fun p hp => ?_, ?_⟩
  · rw [howners] at hp
    rcases hp with rfl | hp
    · rw [hnew]
      exact hnull
    · rw [hold p hp.1]
      exact hs.nonnull p hp
  · have hobj : (s'.proxy s.next).object = (cls, cPtr) := by rw [hnew]; rfl
    have hnot : (s'.proxy s.next).object ∉ s.objects := by
      rw [hobj]
      simp [objects, hfree]
    have hbalanced : Ownership.Balanced s'.owners (fun p => (s'.proxy p).object) s'.objects
        ((s'.proxy s.next).object :: s.created) s.destroyed :=
      hs.balanced.create howners (fun p hp => by rw [hold p hp.1]) hnot (by rw [hobj, hobjects])
    rw [hobj] at hbalanced
    exact hbalanced

/-- A proxy made for a pointer owns nothing, so the books stay as they are, even if the pointer
is wild. -/
theorem Sound.frompointer (hs : s.Sound) (cPtr : CPtr) :
    (s.addProxy ⟨.byteArray, cPtr, false⟩).Sound := by
  have hold : ∀ p, p < s.next → (s.addProxy ⟨.byteArray, cPtr, false⟩).proxy p = s.proxy p :=
    fun p hp => proxy_addProxy _ hp
  have hnew : ((s.addProxy ⟨.byteArray, cPtr, false⟩).proxy s.next).swigCMemOwn = false := by
    simp [addProxy]
  refine hs.of_owners (hs.disciplined.of_thread_eq rfl (Nat.le_succ _) hold) ?_
    (fun p hp => by rw [hold p hp.1]) rfl rfl rfl
  ext p
  simp only [owners, Set.mem_ofPred_eq]
  constructor
  · rintro ⟨hp, hown⟩
    rcases Nat.lt_succ_iff_lt_or_eq.mp hp with hlt | rfl
    · rw [hold p hlt] at hown
      exact ⟨hlt, hown⟩
    · rcases hown with hown | ⟨t, ht⟩
      · rw [hnew] at hown
        cases hown
      · exact ⟨hs.disciplined.bounded t _ (deletes_of_deleting ht), .inr ⟨t, ht⟩⟩
  · rintro ⟨hlt, hown⟩
    exact ⟨Nat.lt_succ_of_lt hlt, by rw [hold p hlt]; exact hown⟩

/-- Whether the proxy that a thread deletes is an owner: by its flag, or because the thread has
come past the flag and is about to destroy the object. -/
theorem mem_owners_of_deleting (hd : s.Disciplined) (hthread : s.thread t = .deleting p stage) :
    p ∈ s.owners ↔ (s.proxy p).swigCMemOwn = true ∨ stage = .atNative := by
  obtain ⟨hbound, hothers⟩ := hd.alone hthread
  constructor
  · rintro ⟨-, hown | ⟨u, hu⟩⟩
    · exact .inl hown
    · refine .inr ?_
      by_cases hut : u = t
      · rw [hut, hthread] at hu
        exact (ProxyPc.deleting.inj hu).2
      · have hfree := hothers u hut
        rw [deletes_of_deleting hu] at hfree
        cases hfree
  · rintro (hown | rfl)
    · exact ⟨hbound, .inl hown⟩
    · exact ⟨hbound, .inr ⟨t, hthread⟩⟩

/-- A thread that deletes one proxy does not change the others. -/
theorem mem_owners_of_ne (hthread : s.thread t = .deleting p stage)
    (hthread' : s'.thread = Function.update s.thread t pc) (hnext : s'.next = s.next)
    (hproxy : ∀ q, q ≠ p → s'.proxy q = s.proxy q)
    (hpc : ∀ q stage', pc = .deleting q stage' → q = p) (hq : q ≠ p) :
    q ∈ s'.owners ↔ q ∈ s.owners := by
  have hnative : (∃ u, s'.thread u = .deleting q .atNative) ↔
      ∃ u, s.thread u = .deleting q .atNative := by
    refine exists_congr fun u => ?_
    rw [hthread']
    by_cases hu : u = t
    · subst hu
      rw [Function.update_self, hthread]
      refine iff_of_false (fun h => hq (hpc q _ h)) fun h => hq (ProxyPc.deleting.inj h).1.symm
    · rw [Function.update_of_ne hu]
  simp only [owners, Set.mem_ofPred_eq, hnext, hproxy q hq, hnative]

theorem proxy_setProxy_of_ne (x : Proxy) (hq : q ≠ p) : (s.setProxy p x).proxy q = s.proxy q :=
  Function.update_of_ne hq _ _

theorem proxy_setProxy_self (x : Proxy) : (s.setProxy p x).proxy p = x := Function.update_self _ _ _

/-- The flag is cleared: from now on the thread owns what the proxy has owned. -/
theorem Sound.disown (hs : s.Sound) (hthread : s.thread t = .deleting p .atOwn)
    (hown : (s.proxy p).swigCMemOwn = true)
    (hmonitor : ∀ stage' q, (ProxyPc.deleting p stage').deletes q = true →
      q < s.next ∧ ∀ u, u ≠ t → (s.thread u).deletes q = false) :
    Sound
      ((s.setProxy p { s.proxy p with swigCMemOwn := false }).goOn t (.deleting p .atNative)) := by
  have hother : ∀ q, q ≠ p →
      (s.setProxy p { s.proxy p with swigCMemOwn := false }).proxy q = s.proxy q :=
    fun q hq => proxy_setProxy_of_ne _ hq
  have hself := s.proxy_setProxy_self (p := p) { s.proxy p with swigCMemOwn := false }
  let s' := (s.setProxy p { s.proxy p with swigCMemOwn := false }).goOn t (.deleting p .atNative)
  have hflag : ∀ q, (s.proxy q).swigCMemOwn = false → (s'.proxy q).swigCMemOwn = false := by
    intro q hq
    by_cases hqp : q = p
    · rw [hqp]
      exact congrArg Proxy.swigCMemOwn hself
    · exact (congrArg Proxy.swigCMemOwn (hother q hqp)).trans hq
  have hd : s'.Disciplined := by
    refine hs.disciplined.goOn rfl rfl hflag (hmonitor _) fun q stage' hq _ => ?_
    cases hq
    exact congrArg Proxy.swigCMemOwn hself
  refine hs.of_owners hd ?_ (fun q _ => ?_) rfl rfl rfl
  · ext q
    by_cases hqp : q = p
    · subst hqp
      rw [mem_owners_of_deleting hd (Function.update_self _ _ _),
        mem_owners_of_deleting hs.disciplined hthread]
      exact iff_of_true (.inr rfl) (.inl hown)
    · have hpc : ∀ r stage', ProxyPc.deleting p .atNative = .deleting r stage' → r = p :=
        fun _ _ h => (ProxyPc.deleting.inj h).1.symm
      exact mem_owners_of_ne hthread rfl rfl hother hpc hqp
  · by_cases hqp : q = p
    · subst hqp
      have hobj : (s'.proxy q).object = _ := congrArg Proxy.object hself
      exact hobj
    · exact congrArg Proxy.object (hother q hqp)

/-- The native object is destroyed.  Its owner is the proxy that the thread deletes, and is one
no more. -/
theorem Sound.destroy (hs : s.Sound) (hthread : s.thread t = .deleting p .atNative)
    (hmonitor : ∀ stage' q, (ProxyPc.deleting p stage').deletes q = true →
      q < s.next ∧ ∀ u, u ≠ t → (s.thread u).deletes q = false) :
    Sound
      { s.goOn t (.deleting p .atClear) with
        live := Function.update s.live (s.proxy p).swigCPtr none
        destroyed := (s.proxy p).object :: s.destroyed } := by
  let s' : Proxies T :=
    { s.goOn t (.deleting p .atClear) with
      live := Function.update s.live (s.proxy p).swigCPtr none
      destroyed := (s.proxy p).object :: s.destroyed }
  have hflag : (s.proxy p).swigCMemOwn = false := hs.disciplined.disowned t p _ hthread (.inl rfl)
  have hp : p ∈ s.owners := (mem_owners_of_deleting hs.disciplined hthread).mpr (.inr rfl)
  have hlive : s.live (s.proxy p).swigCPtr = some (s.proxy p).cls := hs.balanced.obj_mem_live hp
  have hd : s'.Disciplined := by
    refine hs.disciplined.goOn rfl rfl (fun _ h => h) (hmonitor _) fun q stage' hq _ => ?_
    cases hq
    exact hflag
  have howners : s'.owners = s.owners \ {p} := by
    ext q
    rw [Set.mem_sdiff, Set.mem_singleton_iff]
    by_cases hqp : q = p
    · subst hqp
      rw [mem_owners_of_deleting hd (Function.update_self _ _ _)]
      refine iff_of_false ?_ fun h => h.2 rfl
      rintro (hown | hstage)
      · exact absurd (hown.symm.trans hflag) (by decide)
      · cases hstage
    · have hsame : q ∈ s'.owners ↔ q ∈ s.owners := mem_owners_of_ne hthread rfl rfl
        (fun _ _ => rfl) (fun _ _ h => (ProxyPc.deleting.inj h).1.symm) hqp
      rw [hsame]
      exact ⟨fun h => ⟨h, hqp⟩, And.left⟩
  have hobjects : s'.objects = s.objects \ {(s.proxy p).object} := by
    ext ⟨c, a⟩
    by_cases ha : a = (s.proxy p).swigCPtr
    · subst ha
      simp [s', objects, hlive, Proxy.object, eq_comm]
    · simp [s', objects, ha, Proxy.object]
  refine ⟨hd, fun q hq => ?_, hs.balanced.destroy hp howners (fun _ _ => rfl) hobjects⟩
  rw [howners] at hq
  exact hs.nonnull q hq.1

/-- The pointer of a proxy that owns nothing is cleared. -/
theorem Sound.clear (hs : s.Sound) (hthread : s.thread t = .deleting p .atClear) :
    ((s.setProxy p { s.proxy p with swigCPtr := 0 }).goOn t .idle).Sound := by
  let s' := (s.setProxy p { s.proxy p with swigCPtr := 0 }).goOn t .idle
  have hflag : (s.proxy p).swigCMemOwn = false := hs.disciplined.disowned t p _ hthread (.inr rfl)
  have hother : ∀ q, q ≠ p → s'.proxy q = s.proxy q := fun q hq => proxy_setProxy_of_ne _ hq
  have hself : s'.proxy p = { s.proxy p with swigCPtr := 0 } := proxy_setProxy_self _
  have hd : s'.Disciplined := by
    refine hs.disciplined.goOn rfl rfl (fun q hq => ?_) (fun q hq => ?_) fun q stage' hq _ => ?_
    · by_cases hqp : q = p
      · subst hqp
        rw [hself]
        exact hflag
      · rw [hother q hqp]
        exact hq
    · cases hq
    · cases hq
  have hnot : p ∉ s.owners := by
    rw [mem_owners_of_deleting hs.disciplined hthread]
    rintro (hown | hstage)
    · exact absurd (hown.symm.trans hflag) (by decide)
    · cases hstage
  have hnot' : p ∉ s'.owners := by
    rintro ⟨-, hown | ⟨u, hu⟩⟩
    · rw [hself] at hown
      exact absurd (hown.symm.trans hflag) (by decide)
    · have hut : u ≠ t := fun hut => by
        rw [hut, show s'.thread t = .idle from Function.update_self _ _ _] at hu
        cases hu
      have hfree := (hs.disciplined.alone hthread).2 u hut
      rw [show s'.thread u = s.thread u from Function.update_of_ne hut _ _] at hu
      rw [deletes_of_deleting hu] at hfree
      cases hfree
  refine hs.of_owners hd ?_ (fun q hq => ?_) rfl rfl rfl
  · ext q
    by_cases hqp : q = p
    · subst hqp
      exact iff_of_false hnot' hnot
    · exact mem_owners_of_ne hthread rfl rfl hother (fun _ _ h => by cases h) hqp
  · rw [hother q fun hqp => hnot (hqp ▸ hq)]

/-- A step of `delete()`, at each of its four stages. -/
theorem Sound.goDelete (hs : s.Sound) (hthread : s.thread t = .deleting p stage) :
    (s.goDelete t p stage).Sound := by
  obtain ⟨hbound, hothers⟩ := hs.disciplined.alone hthread
  have hmonitor : ∀ stage' q, (ProxyPc.deleting p stage').deletes q = true →
      q < s.next ∧ ∀ u, u ≠ t → (s.thread u).deletes q = false := by
    intro stage' q hq
    rw [← (of_decide_eq_true hq : p = q)]
    exact ⟨hbound, hothers⟩
  have hidle : ∀ q, ProxyPc.idle.deletes q = true →
      q < s.next ∧ ∀ u, u ≠ t → (s.thread u).deletes q = false := fun q hq => by cases hq
  have hto : ∀ q stage', ProxyPc.idle = .deleting q stage' →
      stage' ≠ .atNative ∧ (stage' = .atClear → (s.proxy q).swigCMemOwn = false) :=
    fun q stage' hq => by cases hq
  cases stage with
  | atPtr =>
      have hfrom : ∀ q, s.thread t ≠ .deleting q .atNative := fun q hq => by
        rw [hthread] at hq
        cases hq
      simp only [Proxies.goDelete]
      split
      · exact hs.goOn rfl rfl rfl rfl rfl rfl hfrom hidle hto
      · refine hs.goOn rfl rfl rfl rfl rfl rfl hfrom (hmonitor _) fun q stage' hq => ?_
        cases hq
        exact ⟨by decide, fun hclear => by cases hclear⟩
  | atOwn =>
      have hfrom : ∀ q, s.thread t ≠ .deleting q .atNative := fun q hq => by
        rw [hthread] at hq
        cases hq
      cases hown : (s.proxy p).swigCMemOwn with
      | false =>
          simp only [Proxies.goDelete, hown]
          refine hs.goOn rfl rfl rfl rfl rfl rfl hfrom (hmonitor _) fun q stage' hq => ?_
          cases hq
          exact ⟨by decide, fun _ => hown⟩
      | true =>
          simp only [Proxies.goDelete, hown]
          exact hs.disown hthread hown hmonitor
  | atNative => exact hs.destroy hthread hmonitor
  | atClear => exact hs.clear hthread

/-- **One step.**  Of the steps of `delete()` the one that clears the flag passes the ownership
to the thread, and the one after it destroys the object and ends the ownership. -/
theorem Sound.step (hs : s.Sound) (hstep : s.step act = some s') : s'.Sound := by
  have hidle : ∀ {t}, s.thread t = .idle → ∀ q, s.thread t ≠ .deleting q .atNative :=
    fun hthread q hq => by
      rw [hthread] at hq
      cases hq
  have henter : ∀ {t p}, p < s.next → (∀ u, (s.thread u).deletes p = false) →
      ∀ q, (ProxyPc.deleting p .atPtr).deletes q = true →
        q < s.next ∧ ∀ u, u ≠ t → (s.thread u).deletes q = false := by
    intro t p hp hmonitor q hq
    rw [← (of_decide_eq_true hq : p = q)]
    exact ⟨hp, fun u _ => hmonitor u⟩
  have hentered : ∀ {p : ProxyRef} q stage, ProxyPc.deleting p .atPtr = .deleting q stage →
      stage ≠ .atNative ∧ (stage = .atClear → (s.proxy q).swigCMemOwn = false) := by
    intro p q stage hq
    cases hq
    exact ⟨by decide, fun hclear => by cases hclear⟩
  cases steps_of_step hstep with
  | construct hnull hfree => exact hs.construct hnull hfree
  | cast pointers =>
      exact hs.of_owners (hs.disciplined.of_thread_eq rfl (Nat.le_refl _) fun _ _ => rfl) rfl
        (fun _ _ => rfl) rfl rfl rfl
  | frompointer => exact hs.frompointer _
  | drop hunused =>
      exact hs.of_owners (hs.disciplined.of_thread_eq rfl (Nat.le_refl _) fun _ _ => rfl) rfl
        (fun _ _ => rfl) rfl rfl rfl
  | call hthread hreach =>
      exact hs.goOn rfl rfl rfl rfl rfl rfl (hidle hthread) (fun q hq => by cases hq)
        fun q stage hq => by cases hq
  | native hthread =>
      refine hs.goOn rfl rfl rfl rfl rfl rfl (fun q hq => ?_) (fun q hq => by cases hq)
        fun q stage hq => by cases hq
      rw [hthread] at hq
      cases hq
  | delete hreach hthread hmonitor =>
      exact hs.goOn rfl rfl rfl rfl rfl rfl (hidle hthread) (henter hreach.1 hmonitor) hentered
  | finalize hp hdropped hthread hmonitor =>
      exact hs.goOn rfl rfl rfl rfl rfl rfl (hidle hthread) (henter hp hmonitor) hentered
  | go hthread => exact hs.goDelete hthread

theorem sound_of_reachable (hreach : Runs.Reachable step (init T) s) : s.Sound :=
  hreach.invariant _ Sound sound_init fun _ _ _ hs hstep => hs.step hstep

/-- **No object is destroyed twice.**  However many threads delete, collect, alias and use
proxies, in whatever order: an object about to be destroyed lives, no object has been destroyed
more often than its address has been given out, every live object belongs to one proxy, and
when all proxies are cleared none is left. -/
theorem destroyed_once (hreach : Runs.Reachable step (init T) s) :
    (∀ t p, s.thread t = .deleting p .atNative →
        s.live (s.proxy p).swigCPtr = some (s.proxy p).cls) ∧
      (∀ x, s.destroyed.count x ≤ s.created.count x) ∧
      (∀ x, s.live x.2 = some x.1 → ∃! p, p ∈ s.owners ∧ (s.proxy p).object = x) ∧
      ((∀ p, p < s.next → (s.proxy p).swigCPtr = 0) →
        ∀ x, s.live x.2 ≠ some x.1 ∧ s.created.count x = s.destroyed.count x) := by
  have hs := sound_of_reachable hreach
  refine ⟨fun t p hthread => ?_, hs.balanced.count_destroyed_le, fun x hx => ?_, fun hclear x => ?_⟩
  · have hp := (mem_owners_of_deleting hs.disciplined hthread).mpr (.inr rfl)
    exact hs.balanced.obj_mem_live hp
  · obtain ⟨p, hp, hobj⟩ := hs.balanced.exists_owner hx
    exact ⟨p, ⟨hp, hobj⟩, fun q hq => hs.balanced.owner_unique hq.1 hp (hq.2.trans hobj.symm)⟩
  · have hnone : x ∉ s.objects :=
      hs.balanced.not_mem_live (fun p hp => hs.nonnull p hp (hclear p hp.1)) x
    exact ⟨hnone, hs.balanced.count_of_not_mem x hnone⟩

/-- One of two threads deletes a byte array, and the other, at the same time, an alias of it. -/
theorem destroyed_once_alias :
    ∃ s : Proxies 2, s.destroyed = [(.byteArray, 8)] ∧ s.created = [(.byteArray, 8)] ∧
      ∀ x : NativeObject, s.live x.2 ≠ some x.1 := by
  have hrun :
    let acts : List (ProxyAction 2) :=
      [.construct .byteArray 8, .cast 0, .frompointer 8, .delete 0 0, .delete 1 1, .go 0, .go 1,
        .go 0, .go 1, .go 0, .go 1, .go 0]
    (Runs.run step (init 2) acts).map (fun s => (s.destroyed, s.created, s.next,
        (s.proxy 0).swigCPtr, (s.proxy 1).swigCPtr)) =
      some ([(.byteArray, 8)], [(.byteArray, 8)], 2, 0, 0) := by decide
  obtain ⟨s, hs, hseen⟩ := Option.map_eq_some_iff.mp hrun
  simp only [Prod.mk.injEq] at hseen
  obtain ⟨hdestroyed, hcreated, hnext, hfirst, hsecond⟩ := hseen
  obtain ⟨-, -, -, hclear⟩ := destroyed_once ⟨_, hs⟩
  refine ⟨s, hdestroyed, hcreated, fun x => (hclear (fun p hp => ?_) x).1⟩
  rw [hnext] at hp
  obtain rfl | rfl := Nat.le_one_iff_eq_zero_or_eq_one.mp (Nat.le_of_lt_succ hp)
  · exact hfirst
  · exact hsecond

end Proxies

end Msmq
