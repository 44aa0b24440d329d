import Mathlib.Algebra.Group.Int.Defs
import Mathlib.Algebra.Group.Nat.Defs
import Mathlib.Logic.Function.Basic

/-!
# What the component uses of the Java platform

`int` arithmetic is `Int32`, which wraps around as it does in Java.  The two
lemmas on sums at the beginning are all that later modules use of it: a sum
within the range is the sum of the integers, and a sum of a natural number and
an `int` that is not negative has not wrapped around.

A throwable keeps what the component's code looks at: where its class stands in
the hierarchy, its message, and whether one was made because of another.

A `ByteBuffer` is a window on a storage of the heap, and that position, limit
and capacity are in order is part of the type.  Several buffers may share a
storage, as a view shares that of the buffer it was made of.  `Heap.Touched`
bounds what an operation may have changed; it composes, so that a whole call
keeps every storage that none of its steps names.

Strings are lists of UTF-16 code units, and a `CharBuffer` view of a (big-endian)
byte buffer is given by the two functions `encodeChars` and `decodeChars`,
inverse to each other.
-/

namespace Msmq

/-- A sum within the range of `int` is computed without wrap-around. -/
theorem toInt_add_of_range {a b : Int32} (hge : -2 ^ 31 ≤ a.toInt + b.toInt)
    (hlt : a.toInt + b.toInt < 2 ^ 31) : (a + b).toInt = a.toInt + b.toInt := by
  rw [Int32.toInt_add, Int.bmod_eq_of_le (by omega) (by omega)]

/-- A sum that wraps around past the largest `int` is negative. -/
theorem toInt_add_of_nonneg {a b : Int32} (ha : 0 ≤ a.toInt) (hsum : 0 ≤ (a + b).toInt) :
    (a + b).toInt = a.toInt + b.toInt := by
  have ha' := Int32.toInt_lt a
  have hb := Int32.toInt_lt b
  have hb' := Int32.le_toInt b
  by_cases hlt : a.toInt + b.toInt < 2 ^ 31
  · exact toInt_add_of_range (by omega) hlt
  · exfalso
    rw [Int32.toInt_add, Int.bmod_eq_emod] at hsum
    split at hsum <;> omega

/-- Where the class of a throwable stands among those the code distinguishes. -/
inductive ThrowableKind
  | error
  | exception
  | runtimeException
  | runtimeCamelException
  deriving DecidableEq

/-- A throwable.  `camel cause` is `new RuntimeCamelException(cause)`.  `noMessage ex` is the
`NullPointerException` that a method called on the absent message of `ex` raises: it is made
after `ex` and because of it, and so is never `ex` itself, though `ex` may be a
`NullPointerException` too. -/
inductive Throwable
  | thrown (kind : ThrowableKind) (className : String) (message : Option String)
  | camel (cause : Throwable)
  | noMessage (ex : Throwable)
  deriving DecidableEq

namespace Throwable

/-- `Throwable.toString()`. -/
def text : Throwable → String
  | thrown _ className none => className
  | thrown _ className (some message) => className ++ ": " ++ message
  | camel cause => "org.apache.camel.RuntimeCamelException: " ++ cause.text
  | noMessage _ => "java.lang.NullPointerException"

def getMessage : Throwable → Option String
  | thrown _ _ message => message
  | camel cause => some cause.text
  | noMessage _ => none

/-- `instanceof RuntimeException`. -/
def isRuntimeException : Throwable → Bool
  | thrown kind _ _ => kind = .runtimeException || kind = .runtimeCamelException
  | camel _ => true
  | noMessage _ => true

/-- `instanceof Exception`. -/
def isException : Throwable → Bool
  | thrown kind _ _ => kind ≠ .error
  | camel _ => true
  | noMessage _ => true

/-- `ObjectHelper.wrapRuntimeCamelException(e)`. -/
def wrapRuntimeCamelException : Throwable → Throwable
  | thrown .runtimeCamelException className message =>
      thrown .runtimeCamelException className message
  | camel cause => camel cause
  | e => camel e

/-- The `RuntimeException` that the JNI layer makes of a `std::runtime_error`. -/
def native (what : String) : Throwable :=
  thrown .runtimeException "java.lang.RuntimeException" (some what)

def nullPointerException : Throwable :=
  thrown .runtimeException "java.lang.NullPointerException" none

def noSuchElementException : Throwable :=
  thrown .runtimeException "java.util.NoSuchElementException" none

def illegalArgumentException : Throwable :=
  thrown .runtimeException "java.lang.IllegalArgumentException" none

def bufferOverflowException : Throwable :=
  thrown .runtimeException "java.nio.BufferOverflowException" none

@[simp] theorem getMessage_native (what : String) : (native what).getMessage = some what := rfl

end Throwable

/-- The address of a storage. -/
abbrev Addr := Nat

/-- The storages of all buffers.  `next` has not been given out yet, and nothing that has been
given out is taken back. -/
structure Heap where
  next : Addr
  storage : Addr → List UInt8

/-- A new storage of `n` zero bytes. -/
def Heap.allocate (h : Heap) (n : Nat) : Heap :=
  { next := h.next + 1, storage := Function.update h.storage h.next (List.replicate n 0) }

/-- Overwrite the bytes from `offset` on; a storage keeps its length. -/
def Heap.write (h : Heap) (a : Addr) (offset : Nat) (bytes : List UInt8) : Heap :=
  let old := h.storage a
  let new := old.take offset ++ bytes ++ old.drop (offset + bytes.length)
  { h with storage := Function.update h.storage a (new.take old.length) }

namespace Heap

@[simp] theorem storage_allocate_next (h : Heap) (n : Nat) :
    (h.allocate n).storage h.next = List.replicate n 0 := by
  simp [allocate]

theorem storage_allocate_of_ne {h : Heap} {n : Nat} {a : Addr} (ha : a ≠ h.next) :
    (h.allocate n).storage a = h.storage a := by
  simp [allocate, Function.update_of_ne ha]

theorem storage_write_of_ne {h : Heap} {a b : Addr} {k : Nat} {bytes : List UInt8} (hb : b ≠ a) :
    (h.write a k bytes).storage b = h.storage b := by
  simp [write, Function.update_of_ne hb]

@[simp] theorem length_storage_write (h : Heap) (a b : Addr) (k : Nat) (bytes : List UInt8) :
    ((h.write a k bytes).storage b).length = (h.storage b).length := by
  by_cases hb : b = a
  · subst hb
    simp only [write, Function.update_self, List.length_take, List.length_append, List.length_drop]
    omega
  · rw [storage_write_of_ne hb]

/-- Bytes written at the start of a storage that has room for them. -/
theorem take_storage_write_zero {h : Heap} {a : Addr} {bytes : List UInt8}
    (hroom : bytes.length ≤ (h.storage a).length) :
    ((h.write a 0 bytes).storage a).take bytes.length = bytes := by
  simp only [write, Function.update_self, List.take_zero, List.nil_append, List.take_take]
  rw [Nat.min_eq_left hroom, List.take_left]

/-- Bytes that fill a storage exactly. -/
theorem storage_write_full {h : Heap} {a : Addr} {bytes : List UInt8}
    (hfull : bytes.length = (h.storage a).length) :
    (h.write a 0 bytes).storage a = bytes := by
  have htake := take_storage_write_zero (h := h) (a := a) (Nat.le_of_eq hfull)
  rwa [List.take_of_length_le (by simp [hfull])] at htake

/-- From `h` to `h'` new storages may have come, and of the old ones only those in `A`
may have changed. -/
structure Touched (A : Addr → Prop) (h h' : Heap) : Prop where
  next_le : h.next ≤ h'.next
  frame : ∀ a, a < h.next → ¬A a → h'.storage a = h.storage a

variable {A B : Addr → Prop} {h h' h'' : Heap}

theorem Touched.refl (h : Heap) : Touched A h h := ⟨Nat.le_refl _, fun _ _ _ => rfl⟩

theorem Touched.trans (hleft : Touched A h h') (hright : Touched A h' h'') : Touched A h h'' := by
  refine ⟨Nat.le_trans hleft.next_le hright.next_le, ?_⟩
  intro a ha hA
  rw [hright.frame a (Nat.lt_of_lt_of_le ha hleft.next_le) hA, hleft.frame a ha hA]

theorem Touched.mono (hAB : ∀ a, A a → B a) (ht : Touched A h h') : Touched B h h' :=
  ⟨ht.next_le, fun a ha hB => ht.frame a ha fun hA => hB (hAB a hA)⟩

theorem touched_allocate (h : Heap) (n : Nat) : Touched A h (h.allocate n) := by
  refine ⟨Nat.le_succ _, fun a ha _ => ?_⟩
  exact storage_allocate_of_ne (Nat.ne_of_lt ha)

theorem touched_write (h : Heap) {a : Addr} (k : Nat) (bytes : List UInt8) (ha : A a) :
    Touched A h (h.write a k bytes) := by
  refine ⟨Nat.le_refl _, fun b _ hb => ?_⟩
  have hne : b ≠ a := fun heq => hb (heq ▸ ha)
  exact storage_write_of_ne hne

/-- What is written to a new storage concerns no other. -/
theorem touched_write_new (h : Heap) (n k : Nat) (bytes : List UInt8) :
    Touched A h ((h.allocate n).write h.next k bytes) := by
  refine ⟨Nat.le_succ _, fun a ha _ => ?_⟩
  have hne : a ≠ h.next := Nat.ne_of_lt ha
  rw [storage_write_of_ne hne, storage_allocate_of_ne hne]

end Heap

/-- `java.nio.ByteBuffer`: a window on a storage, with position, limit and capacity in order.
Several buffers may have the same storage. -/
structure ByteBuffer where
  storage : Addr
  direct : Bool
  position : Nat
  limit : Nat
  capacity : Nat
  position_le : position ≤ limit
  limit_le : limit ≤ capacity
  capacity_lt : capacity < 2 ^ 31
  deriving DecidableEq

namespace ByteBuffer

def remaining (b : ByteBuffer) : Nat := b.limit - b.position

/-- The bytes that can be read through a buffer, from position to limit. -/
def window (h : Heap) (b : ByteBuffer) : List UInt8 :=
  ((h.storage b.storage).take b.limit).drop b.position

/-- A buffer on the whole of a storage whose size is an `int`, as allocation
makes it. -/
def whole (a : Addr) (direct : Bool) (n : Int32) : ByteBuffer where
  storage := a
  direct := direct
  position := 0
  limit := n.toInt.toNat
  capacity := n.toInt.toNat
  position_le := Nat.zero_le _
  limit_le := Nat.le_refl _
  capacity_lt := by
    have := Int32.toInt_lt n
    omega

/-- `ByteBuffer.allocateDirect(n)`: zero bytes, or an exception for negative `n`. -/
def allocateDirect (h : Heap) (n : Int32) : Except Throwable (ByteBuffer × Heap) :=
  if n < 0 then .error .illegalArgumentException
  else .ok (whole h.next true n, h.allocate n.toInt.toNat)

/-- The buffer with another limit; the position does not stay beyond it. -/
def withLimit (b : ByteBuffer) (n : Nat) (hn : n ≤ b.capacity) : ByteBuffer :=
  { b with
    position := min b.position n
    limit := n
    position_le := Nat.min_le_right _ _
    limit_le := hn }

/-- `limit(newLimit)`. -/
def setLimit (b : ByteBuffer) (newLimit : Int32) : Except Throwable ByteBuffer :=
  if hrange : 0 ≤ newLimit.toInt ∧ newLimit.toInt ≤ b.capacity then
    .ok (b.withLimit newLimit.toInt.toNat (by omega))
  else .error .illegalArgumentException

/-- `flip()`. -/
def flip (b : ByteBuffer) : ByteBuffer :=
  { b with
    position := 0
    limit := b.position
    position_le := Nat.zero_le _
    limit_le := Nat.le_trans b.position_le b.limit_le }

/-- The buffer after all its remaining bytes were read. -/
def exhausted (b : ByteBuffer) : ByteBuffer :=
  { b with position := b.limit, position_le := Nat.le_refl _ }

/-- `dst.put(src)`: the remaining bytes of `src` go to `dst`, and both positions
advance.  The result is `dst`, `src` and the heap afterwards. -/
def put (h : Heap) (dst src : ByteBuffer) : Except Throwable (ByteBuffer × ByteBuffer × Heap) :=
  if hroom : src.remaining ≤ dst.remaining then
    .ok ({ dst with
            position := dst.position + src.remaining
            position_le := by
              have := dst.position_le
              simp only [remaining] at hroom ⊢
              omega },
      src.exhausted, h.write dst.storage dst.position (src.window h))
  else .error .bufferOverflowException

@[simp] theorem whole_storage (a : Addr) (d : Bool) (n : Int32) : (whole a d n).storage = a := rfl
@[simp] theorem whole_position (a : Addr) (d : Bool) (n : Int32) : (whole a d n).position = 0 := rfl
@[simp] theorem whole_limit (a : Addr) (d : Bool) (n : Int32) :
    (whole a d n).limit = n.toInt.toNat := rfl
@[simp] theorem whole_capacity (a : Addr) (d : Bool) (n : Int32) :
    (whole a d n).capacity = n.toInt.toNat := rfl

/-- What a successful allocation gives. -/
theorem allocateDirect_ok {h h' : Heap} {n : Int32} {b : ByteBuffer}
    (ha : allocateDirect h n = .ok (b, h')) :
    0 ≤ n.toInt ∧ b = whole h.next true n ∧ h' = h.allocate n.toInt.toNat := by
  unfold allocateDirect at ha
  split at ha
  · cases ha
  · rename_i hn
    cases ha
    rw [Int32.lt_iff_toInt_lt, Int32.toInt_zero] at hn
    exact ⟨by omega, rfl, rfl⟩

/-- Allocation fails for negative sizes only. -/
theorem allocateDirect_error {h : Heap} {n : Int32} {e : Throwable}
    (ha : allocateDirect h n = .error e) : n < 0 ∧ e = .illegalArgumentException := by
  unfold allocateDirect at ha
  split at ha
  · rename_i hn
    cases ha
    exact ⟨hn, rfl⟩
  · cases ha

/-- A limit within the capacity is set as it is. -/
theorem setLimit_ok {b : ByteBuffer} {n : Nat} {newLimit : Int32}
    (hn : newLimit.toInt = n) (hcap : n ≤ b.capacity) :
    b.setLimit newLimit = .ok (b.withLimit n hcap) := by
  have hrange : 0 ≤ newLimit.toInt ∧ newLimit.toInt ≤ b.capacity := by omega
  have hnat : newLimit.toInt.toNat = n := by omega
  simp only [setLimit, dif_pos hrange, hnat]

end ByteBuffer

/-- The UTF-16 code units of a Java `String`. -/
abbrev JString := List UInt16

/-- The two bytes of a `char`, most significant first. -/
def charBytes (c : UInt16) : List UInt8 :=
  [UInt8.ofNat (c.toNat / 256), UInt8.ofNat (c.toNat % 256)]

/-- What `asCharBuffer().put(s)` writes. -/
def encodeChars (s : JString) : List UInt8 := s.flatMap charBytes

/-- What `asCharBuffer()` shows; an odd last byte is out of its reach. -/
def decodeChars : List UInt8 → JString
  | hi :: lo :: rest => UInt16.ofNat (hi.toNat * 256 + lo.toNat) :: decodeChars rest
  | _ => []

/-- Two bytes make up the `char` they came from. -/
theorem char_of_bytes (c : UInt16) :
    UInt16.ofNat ((UInt8.ofNat (c.toNat / 256)).toNat * 256 +
      (UInt8.ofNat (c.toNat % 256)).toNat) = c := by
  apply UInt16.toNat_inj.mp
  have hc := UInt16.toNat_lt c
  simp only [UInt16.toNat_ofNat', UInt8.toNat_ofNat']
  omega

@[simp] theorem length_encodeChars (s : JString) : (encodeChars s).length = 2 * s.length := by
  induction s with
  | nil => rfl
  | cons c rest ih =>
      simp only [encodeChars, List.flatMap_cons, List.length_append, List.length_cons] at ih ⊢
      rw [ih]
      simp [charBytes]
      omega

/-- **Round trip.**  Decoding gives back every string, whatever its code units: nothing is
converted on the way, so unpaired surrogates come through as well. -/
@[simp] theorem decodeChars_encodeChars (s : JString) : decodeChars (encodeChars s) = s := by
  induction s with
  | nil => rfl
  | cons c rest ih =>
      show decodeChars (charBytes c ++ encodeChars rest) = c :: rest
      simp only [charBytes, List.cons_append, List.nil_append, decodeChars, char_of_bytes, ih]

/-- `buffer.asCharBuffer().put(s)` on a buffer that is not read afterwards through
the view; the position of the byte buffer stays. -/
def ByteBuffer.putChars (h : Heap) (b : ByteBuffer) (s : JString) : Except Throwable Heap :=
  if s.length ≤ b.remaining / 2 then .ok (h.write b.storage b.position (encodeChars s))
  else .error .bufferOverflowException

end Msmq
