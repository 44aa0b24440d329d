import CamelMsmq.MessageViews

/-!
# The body descriptor of a message

`setMsgBodyWithByteBuffer` takes address and length of the body from JNI, which answers `NULL`
and -1 for a buffer that is not direct.  The wrapper does not look at these answers, so it
records a length of 2^32 - 1 for no storage at all.  Other wrappers of the same file check what
they are given and throw.

A descriptor is right if its length is what the body property and the size property both say,
and its address has at least that much storage.  The alternative that the code could have is to
refuse: to throw, and to leave the message as it was.  `RightOrRefused` allows both, and
`descriptor_right_iff` says for which buffers the method does one of them.

It is about any buffer and any state of the message before the call, one with a body of its own
included, which the call overwrites.
-/

namespace Msmq

namespace Memory

/-- The room where a pointer points to. -/
def room (mem : Memory) : Option BytePtr → Nat
  | some ptr => (mem.readBytes ptr).length
  | none => 0

/-- The body of the message at `o` is the storage of the buffer, and `BODY.cElems` and
`BODY_SIZE` are its capacity. -/
structure Describes (mem : Memory) (o : ObjRef) (buffer : ByteBuffer) : Prop where
  pElems : (mem.var o .body).pElems = some (.buffer buffer.storage)
  cElems : (mem.var o .body).cElems.toNat = buffer.capacity
  bodySize : (mem.var o .bodySize).ulVal.toNat = buffer.capacity

/-- A call has recorded the buffer, with a length for which there is room, or it has thrown and
left the memory as it was. -/
def RightOrRefused (mem : Memory) (o : ObjRef) (buffer : ByteBuffer)
    (r : Except Throwable Unit × Memory) : Prop :=
  (r.1 = .ok () ∧ r.2.Describes o buffer ∧
      (r.2.var o .body).cElems.toNat ≤ r.2.room (r.2.var o .body).pElems) ∨
    ((∃ ex, r.1 = .error ex) ∧ r.2 = mem)

/-- What the call records: JNI's answers, whatever they are.  The length goes into both
properties, cut to 32 bits. -/
theorem recorded (mem : Memory) (o : ObjRef) (buffer : ByteBuffer) :
    let mem' := (Jni.setMsgBodyWithByteBuffer mem o buffer).2
    (mem'.var o .body).pElems = (getDirectBufferAddress buffer).map .buffer ∧
      (mem'.var o .body).cElems = .ofInt (getDirectBufferCapacity buffer) ∧
      (mem'.var o .bodySize).ulVal = .ofInt (getDirectBufferCapacity buffer) := by
  intro mem'
  have hsize := toUInt32_ofInt (getDirectBufferCapacity buffer)
  refine ⟨?_, ?_, ?_⟩ <;>
    simp [mem', Jni.setMsgBodyWithByteBuffer, setMsgBodyWithByteBuffer, setMsgBody, setBodySize,
      setUlVal, var_setVar_of_ne, hsize]

/-- **A body descriptor is right or refused** exactly if the buffer is direct.  For a direct
buffer the call records an address with as much room as the two lengths say.  For any other it
returns all the same, and what it has recorded is a body of 2^32 - 1 bytes at no address at all:
the method neither throws, as its siblings do, nor leaves the old body in place.  This holds of
every buffer and of a message in any state. -/
theorem descriptor_right_iff (mem : Memory) (o : ObjRef) {buffer : ByteBuffer}
    (hlength : buffer.capacity ≤ (mem.heap.storage buffer.storage).length) :
    RightOrRefused mem o buffer (Jni.setMsgBodyWithByteBuffer mem o buffer) ↔
      buffer.direct = true := by
  obtain ⟨hptr, hsize, hbodySize⟩ := mem.recorded o buffer
  constructor
  · rintro (⟨-, hdescribes, -⟩ | ⟨⟨ex, hthrown⟩, -⟩)
    · have haddress := hdescribes.pElems
      rw [hptr] at haddress
      by_contra hdirect
      simp [getDirectBufferAddress, hdirect] at haddress
    · cases hthrown
  · intro hdirect
    have hcapacity := toNat_getDirectBufferCapacity hdirect
    have haddress : ((Jni.setMsgBodyWithByteBuffer mem o buffer).2.var o .body).pElems =
        some (.buffer buffer.storage) := by
      rw [hptr]
      simp [getDirectBufferAddress, hdirect]
    refine .inl ⟨rfl, ⟨haddress, by rw [hsize, hcapacity], by rw [hbodySize, hcapacity]⟩, ?_⟩
    rw [hsize, hcapacity, haddress]
    exact hlength

/-- A direct buffer of two bytes. -/
theorem descriptor_right_iff_direct :
    let raw : MessageObject := ⟨⟨0, 0, 0⟩, fun _ => .body, fun _ => ⟨.ui4, 0, 0, 0, none⟩,
      .replicate 20 0, .replicate 20 0⟩
    let mem : Memory := ⟨1, fun _ => raw, ⟨1, fun _ => [5, 7]⟩⟩
    let buffer := ByteBuffer.whole 0 true 2
    RightOrRefused mem 0 buffer (Jni.setMsgBodyWithByteBuffer mem 0 buffer) := by
  intro raw mem buffer
  have hlength : buffer.capacity ≤ (mem.heap.storage buffer.storage).length := by decide
  exact (descriptor_right_iff mem 0 hlength).mpr rfl

/-- For a heap buffer of one byte a length of 2^32 - 1 is recorded, and nothing is thrown. -/
theorem length_recorded_without_storage :
    let raw : MessageObject := ⟨⟨0, 0, 0⟩, fun _ => .body, fun _ => ⟨.ui4, 0, 0, 0, none⟩,
      .replicate 20 0, .replicate 20 0⟩
    let mem : Memory := ⟨1, fun _ => raw, ⟨1, fun _ => [7]⟩⟩
    let buffer := ByteBuffer.whole 0 false 1
    let r := Jni.setMsgBodyWithByteBuffer mem 0 buffer
    r.1 = .ok () ∧ (r.2.var 0 .body).pElems = none ∧
      (r.2.var 0 .body).cElems.toNat = 2 ^ 32 - 1 ∧ ¬RightOrRefused mem 0 buffer r := by
  intro raw mem buffer r
  obtain ⟨hptr, hsize, -⟩ := mem.recorded 0 buffer
  refine ⟨rfl, hptr, by rw [hsize]; decide, ?_⟩
  rintro (⟨-, hdescribes, -⟩ | ⟨⟨ex, hthrown⟩, -⟩)
  · have haddress := hdescribes.pElems
    rw [hptr] at haddress
    cases haddress
  · cases hthrown

end Memory

end Msmq
