import CamelMsmq.Runs
import Mathlib.Data.Fintype.Basic

/-!
# Proxies of native objects

A `ByteArray`, an `MsmqMessage` or an `MsmqQueue` of Java is a proxy: it holds a pointer to
the native object, and a flag that tells whether the native object is its own.  `delete()`,
which the finaliser calls too, destroys the native object of a proxy that owns one.  It is
synchronized, but nothing else is: a method reads the pointer and hands it to JNI.

Any number of threads, the finalisers among them, work on the proxies in small steps.
`delete()` alone has four, with the monitor held: it tests the pointer, tests and clears the flag,
destroys the native object, and clears the pointer.  A native allocator may give out an address
again once the object there has been destroyed, so an address does not identify an object for
ever.

`cast()` and `frompointer()` of `ByteArray` make aliases: a pointer without an owner, and a
proxy for a pointer that does not own what it points to.
-/

namespace Msmq

/-- The classes with proxies. -/
inductive NativeClass
  | byteArray
  | msmqMessage
  | msmqQueue
  deriving DecidableEq

/-- A native pointer as the `long` that Java holds; 0 is `NULL`. -/
abbrev CPtr := Nat

/-- A reference to a proxy. -/
abbrev ProxyRef := Nat

/-- A native object, by its class and its address. -/
abbrev NativeObject := NativeClass × CPtr

/-- A proxy: `swigCMemOwn` says whether the native object is its own. -/
structure Proxy where
  cls : NativeClass
  swigCPtr : CPtr
  swigCMemOwn : Bool

/-- What a proxy points to. -/
def Proxy.object (p : Proxy) : NativeObject := (p.cls, p.swigCPtr)

/-- Where a thread stands in `delete()`. -/
inductive DeleteStage
  /-- `if (swigCPtr != 0)`. -/
  | atPtr
  /-- `if (swigCMemOwn) { swigCMemOwn = false; ... }`. -/
  | atOwn
  /-- `msmq_native_supportJNI.delete_...(swigCPtr)`. -/
  | atNative
  /-- `swigCPtr = 0`. -/
  | atClear
  deriving DecidableEq

/-- Where a thread stands: in `delete()` of a proxy, whose monitor it has, or in a native call
to which it has passed the pointers of some proxies. -/
inductive ProxyPc
  | idle
  | deleting (p : ProxyRef) (stage : DeleteStage)
  | calling (args : List (ProxyRef × CPtr))
  deriving DecidableEq

namespace ProxyPc

/-- The thread is in `delete()` of the proxy. -/
def deletes (p : ProxyRef) : ProxyPc → Bool
  | deleting q _ => q = p
  | _ => false

/-- A call with the proxy is under way. -/
def uses (p : ProxyRef) : ProxyPc → Bool
  | calling args => args.any (·.1 = p)
  | _ => false

end ProxyPc

/-- The proxies, the `SWIGTYPE_p_signed_char` pointers, the threads, and the native memory. -/
structure Proxies (T : Nat) where
  next : ProxyRef
  proxy : ProxyRef → Proxy
  /-- The program has no reference left. -/
  dropped : ProxyRef → Bool
  finalized : ProxyRef → Bool
  pointers : List CPtr
  thread : Fin T → ProxyPc
  live : CPtr → Option NativeClass
  created : List NativeObject
  destroyed : List NativeObject

/-- What may happen.  The program makes proxies and loses its references to them; a thread calls
native code, or begins `delete()` of its own accord or as the finaliser, and goes on with it. -/
inductive ProxyAction (T : Nat)
  | construct (cls : NativeClass) (cPtr : CPtr)
  | cast (p : ProxyRef)
  | frompointer (cPtr : CPtr)
  | drop (p : ProxyRef)
  | call (t : Fin T) (args : List ProxyRef)
  | native (t : Fin T)
  | delete (t : Fin T) (p : ProxyRef)
  | finalize (t : Fin T) (p : ProxyRef)
  | go (t : Fin T)

namespace Proxies

variable {T : Nat}

/-- Before the first proxy. -/
def init (T : Nat) : Proxies T where
  next := 0
  proxy _ := ⟨.byteArray, 0, false⟩
  dropped _ := false
  finalized _ := false
  pointers := []
  thread _ := .idle
  live _ := none
  created := []
  destroyed := []

def addProxy (s : Proxies T) (p : Proxy) : Proxies T :=
  { s with next := s.next + 1, proxy := Function.update s.proxy s.next p }

def setProxy (s : Proxies T) (p : ProxyRef) (x : Proxy) : Proxies T :=
  { s with proxy := Function.update s.proxy p x }

def goOn (s : Proxies T) (t : Fin T) (pc : ProxyPc) : Proxies T :=
  { s with thread := Function.update s.thread t pc }

/-- The program can reach the proxy. -/
def Reaches (s : Proxies T) (p : ProxyRef) : Prop := p < s.next ∧ s.dropped p = false

instance (s : Proxies T) (p : ProxyRef) : Decidable (s.Reaches p) :=
  inferInstanceAs (Decidable (_ ∧ _))

/-- `synchronized`: a thread gets the monitor of a proxy if no other has it. -/
def enter (s : Proxies T) (t : Fin T) (p : ProxyRef) : Option (Proxies T) :=
  if s.thread t = .idle ∧ ∀ u, (s.thread u).deletes p = false then
    some (s.goOn t (.deleting p .atPtr))
  else none

/-- A step of `delete()`. -/
def goDelete (s : Proxies T) (t : Fin T) (p : ProxyRef) : DeleteStage → Proxies T
  | .atPtr =>
      if (s.proxy p).swigCPtr = 0 then s.goOn t .idle else s.goOn t (.deleting p .atOwn)
  | .atOwn =>
      if (s.proxy p).swigCMemOwn then
        (s.setProxy p { s.proxy p with swigCMemOwn := false }).goOn t (.deleting p .atNative)
      else s.goOn t (.deleting p .atClear)
  | .atNative =>
      { s.goOn t (.deleting p .atClear) with
        live := Function.update s.live (s.proxy p).swigCPtr none
        destroyed := (s.proxy p).object :: s.destroyed }
  | .atClear => (s.setProxy p { s.proxy p with swigCPtr := 0 }).goOn t .idle

/-- One action.  The address of a new object is free, and that of no object before it that
still lives; a pointer given to `frompointer` comes from a `cast`; a proxy is collected once,
and only when no reference is left, a call under way counting as one. -/
def step (s : Proxies T) : ProxyAction T → Option (Proxies T)
  | .construct cls cPtr =>
      if cPtr ≠ 0 ∧ s.live cPtr = none then
        some
          { s.addProxy ⟨cls, cPtr, true⟩ with
            live := Function.update s.live cPtr (some cls)
            created := (cls, cPtr) :: s.created }
      else none
  | .cast p =>
      if s.Reaches p ∧ (s.proxy p).cls = .byteArray then
        if (s.proxy p).swigCPtr = 0 then some s
        else some { s with pointers := (s.proxy p).swigCPtr :: s.pointers }
      else none
  | .frompointer cPtr =>
      if cPtr ∈ s.pointers then some (s.addProxy ⟨.byteArray, cPtr, false⟩) else none
  | .drop p =>
      if s.Reaches p ∧ ∀ u, (s.thread u).uses p = false then
        some { s with dropped := Function.update s.dropped p true }
      else none
  | .call t args =>
      if s.thread t = .idle ∧ ∀ p ∈ args, s.Reaches p then
        some (s.goOn t (.calling (args.map fun p => (p, (s.proxy p).swigCPtr))))
      else none
  | .native t =>
      match s.thread t with
      | .calling _ => some (s.goOn t .idle)
      | _ => none
  | .delete t p => if s.Reaches p then s.enter t p else none
  | .finalize t p =>
      if p < s.next ∧ s.dropped p = true ∧ s.finalized p = false then
        { s with finalized := Function.update s.finalized p true }.enter t p
      else none
  | .go t =>
      match s.thread t with
      | .deleting p stage => some (s.goDelete t p stage)
      | _ => none

/-! ## What a step does -/

/-- Everything a step can do. -/
inductive Steps (s : Proxies T) : ProxyAction T → Proxies T → Prop
  | construct {cls : NativeClass} {cPtr : CPtr} (hnull : cPtr ≠ 0) (hfree : s.live cPtr = none) :
      Steps s (.construct cls cPtr)
        { s.addProxy ⟨cls, cPtr, true⟩ with
          live := Function.update s.live cPtr (some cls)
          created := (cls, cPtr) :: s.created }
  | cast {p : ProxyRef} (pointers : List CPtr) : Steps s (.cast p) { s with pointers := pointers }
  | frompointer {cPtr : CPtr} : Steps s (.frompointer cPtr) (s.addProxy ⟨.byteArray, cPtr, false⟩)
  | drop {p : ProxyRef} (hunused : ∀ u, (s.thread u).uses p = false) :
      Steps s (.drop p) { s with dropped := Function.update s.dropped p true }
  | call {t : Fin T} {args : List ProxyRef} (hidle : s.thread t = .idle)
      (hreach : ∀ p ∈ args, s.Reaches p) :
      Steps s (.call t args) (s.goOn t (.calling (args.map fun p => (p, (s.proxy p).swigCPtr))))
  | native {t : Fin T} {args : List (ProxyRef × CPtr)} (hthread : s.thread t = .calling args) :
      Steps s (.native t) (s.goOn t .idle)
  | delete {t : Fin T} {p : ProxyRef} (hreach : s.Reaches p) (hidle : s.thread t = .idle)
      (hmonitor : ∀ u, (s.thread u).deletes p = false) :
      Steps s (.delete t p) (s.goOn t (.deleting p .atPtr))
  | finalize {t : Fin T} {p : ProxyRef} (hp : p < s.next) (hdropped : s.dropped p = true)
      (hidle : s.thread t = .idle) (hmonitor : ∀ u, (s.thread u).deletes p = false) :
      Steps s (.finalize t p)
        { s.goOn t (.deleting p .atPtr) with
          finalized := Function.update s.finalized p true }
  | go {t : Fin T} {p : ProxyRef} {stage : DeleteStage}
      (hthread : s.thread t = .deleting p stage) : Steps s (.go t) (s.goDelete t p stage)

/-- **The list is complete.**  Each case has the tests that the step makes: what the program can
reach, which monitor is free, and where the thread stands. -/
theorem steps_of_step {s s' : Proxies T} {act : ProxyAction T} (h : s.step act = some s') :
    Steps s act s' := by
  cases act with
  | construct cls cPtr =>
      obtain ⟨⟨hnull, hfree⟩, hnew⟩ := Option.ite_none_right_eq_some.mp h
      cases hnew
      exact .construct hnull hfree
  | cast p =>
      obtain ⟨-, hcast⟩ := Option.ite_none_right_eq_some.mp h
      split at hcast <;> cases hcast
      · exact .cast s.pointers
      · exact .cast _
  | frompointer cPtr =>
      obtain ⟨-, hnew⟩ := Option.ite_none_right_eq_some.mp h
      cases hnew
      exact .frompointer
  | drop p =>
      obtain ⟨⟨-, hunused⟩, hdrop⟩ := Option.ite_none_right_eq_some.mp h
      cases hdrop
      exact .drop hunused
  | call t args =>
      obtain ⟨⟨hidle, hreach⟩, hcall⟩ := Option.ite_none_right_eq_some.mp h
      cases hcall
      exact .call hidle hreach
  | native t =>
      simp only [step] at h
      split at h
      · cases h
        exact .native ‹_›
      · cases h
  | delete t p =>
      obtain ⟨hreach, henter⟩ := Option.ite_none_right_eq_some.mp h
      obtain ⟨⟨hidle, hmonitor⟩, hgo⟩ := Option.ite_none_right_eq_some.mp henter
      cases hgo
      exact .delete hreach hidle hmonitor
  | finalize t p =>
      obtain ⟨⟨hp, hdropped, -⟩, henter⟩ := Option.ite_none_right_eq_some.mp h
      obtain ⟨⟨hidle, hmonitor⟩, hgo⟩ := Option.ite_none_right_eq_some.mp henter
      cases hgo
      exact .finalize hp hdropped hidle hmonitor
  | go t =>
      simp only [step] at h
      split at h
      · cases h
        exact .go ‹_›
      · cases h

end Proxies

end Msmq
