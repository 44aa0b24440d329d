import CamelMsmq.ModifiedUtf8
import CamelMsmq.QueueNames

/-!
# The two encodings of a queue name

A path comes from Java as modified UTF-8 and is converted with `CP_ACP`, the code page of
the machine.  Under a single-byte code page every byte becomes a character of its own, so
the name that MSMQ reads is the path exactly if each of its code units takes one byte.

The code page is a parameter, of which no more is assumed than that it takes one byte for one
character, keeps ASCII, and makes no other byte a NUL (`SingleByte`); Windows-1252 is given as a
table that meets this.  Only paths that fit the buffer are looked at here, because what becomes
of the others is a matter of their length.

All three operations that pass a name to MSMQ treat it alike, so `names_survive_iff` has one
reason for its three parts.
-/

namespace Msmq

/-- `MultiByteToWideChar` with a single-byte code page, given the number of bytes: each
byte is converted by itself, ASCII to itself, and only NUL to NUL. -/
structure SingleByte (multiByteToWideChar : List UInt8 → Option (List UInt16))
    (page : UInt8 → UInt16) : Prop where
  converts : ∀ bytes, bytes ≠ [] → multiByteToWideChar bytes = some (bytes.map page)
  ascii : ∀ b : UInt8, b.toNat < 0x80 → page b = b.toUInt16
  nul : ∀ b, page b = 0 → b = 0

/-- The characters of Windows-1252 from 0x80 to 0x9F; what is not assigned stays a control. -/
def windows1252Upper : List UInt16 :=
  [0x20AC, 0x0081, 0x201A, 0x0192, 0x201E, 0x2026, 0x2020, 0x2021,
    0x02C6, 0x2030, 0x0160, 0x2039, 0x0152, 0x008D, 0x017D, 0x008F,
    0x0090, 0x2018, 0x2019, 0x201C, 0x201D, 0x2022, 0x2013, 0x2014,
    0x02DC, 0x2122, 0x0161, 0x203A, 0x0153, 0x009D, 0x017E, 0x0178]

/-- Windows-1252. -/
def windows1252 (b : UInt8) : UInt16 :=
  if b.toNat < 0x80 then b.toUInt16
  else windows1252Upper.getD (b.toNat - 0x80) b.toUInt16

/-- The conversion on a machine with this code page. -/
def convert1252 (bytes : List UInt8) : Option (List UInt16) :=
  if bytes = [] then none else some (bytes.map windows1252)

/-- Windows-1252 meets what is assumed of a code page.  That it makes no byte but NUL a NUL is
checked for all 256. -/
theorem singleByte_convert1252 : SingleByte convert1252 windows1252 where
  converts _ hne := if_neg hne
  ascii _ hb := if_pos hb
  nul b hb := by
    have hall : ∀ n < 256, windows1252 (.ofNat n) = 0 → n = 0 := by decide +kernel
    have hzero := hall b.toNat (UInt8.toNat_lt b) (by rwa [UInt8.ofNat_toNat])
    exact UInt8.toNat_inj.mp hzero

namespace Jni

/-- `jenv->GetStringUTFChars(s, 0)`, up to the terminating NUL. -/
def getStringUTFChars (s : JString) : List UInt8 := ModifiedUtf8.encode s

/-- The wrapper of `MsmqQueue::open`; a Java `null` is passed on as `NULL`. -/
def «open» (q : MsmqQueue) (path : Option JString) (a : OpenAnswers) (calls : List MqCall) :
    Native Unit :=
  q.open (path.map getStringUTFChars) a calls

/-- The wrapper of `MsmqQueue::createQueue`. -/
def createQueue (pathName : Option JString) (a : NameAnswers) (calls : List AdminCall) :
    Administered :=
  MsmqQueue.createQueue (pathName.map getStringUTFChars) a calls

/-- The wrapper of `MsmqQueue::deleteQueue`. -/
def deleteQueue (formatPathName : Option JString) (a : NameAnswers) (calls : List AdminCall) :
    Administered :=
  MsmqQueue.deleteQueue (formatPathName.map getStringUTFChars) a calls

end Jni

/-- From one history to the next MSMQ was passed a name, and every name that it was passed
is read as `s`. -/
def Passes {γ : Type} (name? : γ → Option (List UInt16)) (s : JString) (calls calls' : List γ) :
    Prop :=
  ∃ cs, calls' = cs ++ calls ∧ (∃ name, name ∈ cs.filterMap name?) ∧
    ∀ name ∈ cs.filterMap name?, CString.text 0 name = s

/-- What was told is all that matters. -/
theorem Told.passes_iff {γ : Type} {name? : γ → Option (List UInt16)} {name : List UInt16}
    {calls calls' : List γ} (ht : Told name? name calls calls') (s : JString) :
    Passes name? s calls calls' ↔ CString.text 0 name = s := by
  obtain ⟨cs, hcalls, hmem, honly⟩ := ht
  constructor
  · rintro ⟨cs', hcalls', -, hread⟩
    obtain rfl : cs' = cs := List.append_cancel_right (hcalls'.symm.trans hcalls)
    exact hread name hmem
  · intro hread
    refine ⟨cs, hcalls, ⟨name, hmem⟩, fun n hn => ?_⟩
    rw [honly n hn]
    exact hread

namespace SingleByte

variable {conv : List UInt8 → Option (List UInt16)} {page : UInt8 → UInt16} {path : JString}

/-- The wide buffer. -/
theorem convert_strncpy (hconv : SingleByte conv page) (path : List UInt8) :
    conv (strncpy path mqMaxQNameLen) = some ((strncpy path mqMaxQNameLen).map page) :=
  hconv.converts _ (strncpy_ne_nil path)

/-- What MSMQ reads in it: every byte of the path as a character. -/
theorem text_strncpy (hconv : SingleByte conv page)
    (hshort : (Jni.getStringUTFChars path).length < mqMaxQNameLen) (rest : List UInt16) :
    CString.text 0 ((strncpy (Jni.getStringUTFChars path) mqMaxQNameLen).map page ++ rest) =
      (ModifiedUtf8.encode path).map page := by
  have hzero : page 0 = 0 := hconv.ascii 0 (by decide)
  have hwide : (strncpy (Jni.getStringUTFChars path) mqMaxQNameLen).map page =
      CString.padded 0 ((ModifiedUtf8.encode path).map page) mqMaxQNameLen := by
    rw [← hzero]
    exact CString.map_padded page
  have hnul : (0 : UInt16) ∉ (ModifiedUtf8.encode path).map page := by
    intro hmem
    obtain ⟨b, hb, hpage⟩ := List.mem_map.mp hmem
    rw [hconv.nul b hpage] at hb
    exact ModifiedUtf8.nul_not_mem_encode path hb
  rw [hwide]
  exact CString.text_padded_append hnul (by rwa [List.length_map])

/-- **A name survives** exactly if its units are plain. -/
theorem text_strncpy_eq_iff (hconv : SingleByte conv page)
    (hshort : (Jni.getStringUTFChars path).length < mqMaxQNameLen) (rest : List UInt16) :
    CString.text 0 ((strncpy (Jni.getStringUTFChars path) mqMaxQNameLen).map page ++ rest) = path ↔
      ∀ c ∈ path, ModifiedUtf8.Plain c := by
  rw [hconv.text_strncpy hshort]
  exact ModifiedUtf8.map_encode_eq_iff hconv.ascii

end SingleByte

namespace Jni

variable {page : UInt8 → UInt16} {path : JString}

/-- The first of the three operations: every attempt of `open` passes the same name. -/
theorem open_passes_iff (hshort : (getStringUTFChars path).length < mqMaxQNameLen) (q : MsmqQueue)
    (a : OpenAnswers) (calls : List MqCall) (hconv : SingleByte a.multiByteToWideChar page) :
    Passes MqCall.name? path calls (Jni.open q (some path) a calls).calls ↔
      ∀ c ∈ path, ModifiedUtf8.Plain c := by
  have hname : a.destFormatName (some (getStringUTFChars path)) =
      some ((strncpy (getStringUTFChars path) mqMaxQNameLen).map page ++ a.uninitialised) :=
    congrArg (Option.map (· ++ a.uninitialised)) (hconv.convert_strncpy _)
  have htold : Told MqCall.name? _ calls (Jni.open q (some path) a calls).calls :=
    q.told_open hname calls
  rw [htold.passes_iff]
  exact hconv.text_strncpy_eq_iff hshort a.uninitialised

/-- The other two, which differ in the call they make and in the texts of their errors. -/
theorem administer_passes_iff {isNull notConverted failure : String}
    {call : List UInt16 → Hresult → AdminCall} (hcall : ∀ n hr, (call n hr).name? = some n)
    (hshort : (getStringUTFChars path).length < mqMaxQNameLen) (a : NameAnswers)
    (calls : List AdminCall) (hconv : SingleByte a.multiByteToWideChar page) :
    Passes AdminCall.name? path calls (MsmqQueue.administer isNull notConverted failure call
      (some (getStringUTFChars path)) a calls).calls ↔ ∀ c ∈ path, ModifiedUtf8.Plain c := by
  have hname : a.destFormatName (getStringUTFChars path) =
      some ((strncpy (getStringUTFChars path) mqMaxQNameLen).map page ++ a.uninitialised) :=
    congrArg (Option.map (· ++ a.uninitialised)) (hconv.convert_strncpy _)
  rw [(MsmqQueue.told_administer hcall hname calls).passes_iff]
  exact hconv.text_strncpy_eq_iff hshort a.uninitialised

/-- **Names survive the two encodings** exactly if they consist of ASCII characters other than
NUL: then, and only then, each of the three operations passes MSMQ the code units of the
`String`. Every other path is opened, created or deleted under another name, in which a
character takes the place of each of the bytes it was encoded in.  No single-byte code page can
mend that, since the bytes were not made with it. -/
theorem names_survive_iff (hshort : (getStringUTFChars path).length < mqMaxQNameLen) (q : MsmqQueue)
    (o : OpenAnswers) (c d : NameAnswers) (calls : List MqCall) (adminCalls : List AdminCall)
    (ho : SingleByte o.multiByteToWideChar page) (hc : SingleByte c.multiByteToWideChar page)
    (hd : SingleByte d.multiByteToWideChar page) :
    (Passes MqCall.name? path calls (Jni.open q (some path) o calls).calls ↔
      ∀ u ∈ path, ModifiedUtf8.Plain u) ∧
    (Passes AdminCall.name? path adminCalls (createQueue (some path) c adminCalls).calls ↔
      ∀ u ∈ path, ModifiedUtf8.Plain u) ∧
    (Passes AdminCall.name? path adminCalls (deleteQueue (some path) d adminCalls).calls ↔
      ∀ u ∈ path, ModifiedUtf8.Plain u) := by
  refine ⟨open_passes_iff hshort q o calls ho, ?_, ?_⟩
  · unfold createQueue MsmqQueue.createQueue
    exact administer_passes_iff (fun _ _ => rfl) hshort c adminCalls hc
  · unfold deleteQueue MsmqQueue.deleteQueue
    exact administer_passes_iff (fun _ _ => rfl) hshort d adminCalls hd

/-- An MSMQ that opens every queue, on a machine with Windows-1252. -/
def answers1252 : OpenAnswers :=
  { OpenAnswers.always 0 1 0 with multiByteToWideChar := convert1252 }

/-- The path `DIRECT=OS:q`, with anything in the rest of the wide buffers. -/
theorem names_survive_iff_ascii :
    let path : JString := [68, 73, 82, 69, 67, 84, 61, 79, 83, 58, 113]
    let garbage : List UInt16 := [0xE9, 66, 0, 67]
    Passes MqCall.name? path []
        (Jni.open .new (some path) { answers1252 with uninitialised := garbage } []).calls ∧
      Passes AdminCall.name? path []
        (createQueue (some path) ⟨convert1252, garbage, 0⟩ []).calls ∧
      Passes AdminCall.name? path []
        (deleteQueue (some path) ⟨convert1252, garbage, 0⟩ []).calls := by
  intro path garbage
  have hshort : (getStringUTFChars path).length < mqMaxQNameLen := by decide
  have hplain : ∀ u ∈ path, ModifiedUtf8.Plain u := by simp [path, ModifiedUtf8.Plain]
  obtain ⟨hopened, hcreated, hdeleted⟩ := names_survive_iff hshort .new
    { answers1252 with uninitialised := garbage } ⟨convert1252, garbage, 0⟩
    ⟨convert1252, garbage, 0⟩ [] [] singleByte_convert1252 singleByte_convert1252
    singleByte_convert1252
  exact ⟨hopened.mpr hplain, hcreated.mpr hplain, hdeleted.mpr hplain⟩

/-- The path `é` is opened under the name `Ã©`. -/
theorem name_garbled :
    let path : JString := [0xE9]
    let opened := Jni.open .new (some path) answers1252 []
    (getStringUTFChars path).length < mqMaxQNameLen ∧
      SingleByte answers1252.multiByteToWideChar windows1252 ∧ opened.result = .ok () ∧
      opened.calls.filterMap (fun c => c.name?.map (CString.text 0)) = [[0xC3, 0xA9]] ∧
      ¬Passes MqCall.name? path [] opened.calls := by
  intro path opened
  have hshort : (getStringUTFChars path).length < mqMaxQNameLen := by decide
  have hiff := open_passes_iff hshort .new answers1252 [] singleByte_convert1252
  refine ⟨hshort, singleByte_convert1252, rfl, by decide +kernel, fun hpasses => ?_⟩
  exact absurd (List.forall_mem_singleton.mp (hiff.mp hpasses)) (by decide)

end Jni

end Msmq
