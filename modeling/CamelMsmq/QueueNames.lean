import CamelMsmq.CString
import CamelMsmq.QueueSpec

/-!
# The names of queues

`open`, `createQueue` and `deleteQueue` copy the path into a buffer of `MQ_MAX_Q_NAME_LEN`
bytes with `strncpy`, convert the whole buffer, and pass the wide buffer to MSMQ, which
reads it up to its first NUL.  There is one in what was converted only if the path is
shorter than the buffer.  A longer path is cut, and MSMQ reads on in memory that nothing has
been written to.

What that memory holds is an answer of the environment like any other, so nothing is assumed
of it.  Of the conversion no more is assumed than that it keeps ASCII characters one by one and
appends no NUL of its own.

`UsesNamed` is what an operation should do: throw before it calls MSMQ, or have MSMQ read the
path that it was given.  `createQueue` and `deleteQueue` are one definition with other
texts and another call at its end, `administer`.
-/

namespace Msmq

/-- `MultiByteToWideChar`, given the number of bytes: ASCII characters are converted one
by one, and no NUL is appended. -/
def ConvertsAscii (multiByteToWideChar : List UInt8 → Option (List UInt16)) : Prop :=
  ∀ bytes, bytes ≠ [] → (∀ c ∈ bytes, c.toNat < 128) →
    multiByteToWideChar bytes = some (bytes.map (·.toUInt16))

/-- The name a call passes to MSMQ. -/
def MqCall.name? : MqCall → Option (List UInt16)
  | openQueue name _ _ => some name
  | _ => none

/-- The calls of the static functions, with their answers. -/
inductive AdminCall
  | createQueue (pathName : List UInt16) (hr : Hresult)
  | deleteQueue (formatName : List UInt16) (hr : Hresult)

def AdminCall.name? : AdminCall → Option (List UInt16)
  | createQueue pathName _ => some pathName
  | deleteQueue formatName _ => some formatName

/-- What the environment answers during one `createQueue` or `deleteQueue`. -/
structure NameAnswers where
  /-- `MultiByteToWideChar` with `CP_ACP`; `none` when it returns 0. -/
  multiByteToWideChar : List UInt8 → Option (List UInt16)
  /-- What the rest of the wide buffer happens to hold. -/
  uninitialised : List UInt16
  /-- The answer of MSMQ. -/
  hr : Hresult

/-- The wide buffer after the conversion, if that succeeds. -/
def NameAnswers.destFormatName (a : NameAnswers) (path : List UInt8) : Option (List UInt16) :=
  (a.multiByteToWideChar (strncpy path mqMaxQNameLen)).map (· ++ a.uninitialised)

/-- What a static function leaves: its result or the text of the `runtime_error` it
throws, and the history of its calls. -/
structure Administered where
  result : Except String Unit
  calls : List AdminCall

namespace MsmqQueue

/-- The common part of `createQueue` and `deleteQueue`, with the texts of their errors. -/
def administer (isNull notConverted failure : String)
    (call : List UInt16 → Hresult → AdminCall) (path : Option (List UInt8)) (a : NameAnswers)
    (calls : List AdminCall) : Administered :=
  match path with
  | none => ⟨.error isNull, calls⟩
  | some bytes =>
      match a.destFormatName bytes with
      | none => ⟨.error notConverted, calls⟩
      | some name =>
          if failed a.hr then ⟨.error failure, call name a.hr :: calls⟩
          else ⟨.ok (), call name a.hr :: calls⟩

/-- `MsmqQueue::createQueue`; the name is its only queue property. -/
def createQueue : Option (List UInt8) → NameAnswers → List AdminCall → Administered :=
  administer "Error in opening the queue: invalid parameter"
    "Error in creating the queue: invalid parameter" "Error in creating the queue" .createQueue

/-- `MsmqQueue::deleteQueue`. -/
def deleteQueue : Option (List UInt8) → NameAnswers → List AdminCall → Administered :=
  administer "Error in deleting the queue: invalid parameter"
    "Error in opening the queue: invalid parameter" "Error in deleting the queue" .deleteQueue

end MsmqQueue

/-- MSMQ reads the name as the path: up to its first NUL it is the path, and that NUL is in
the part that the conversion has written. -/
def NamesPath (multiByteToWideChar : List UInt8 → Option (List UInt16)) (path : List UInt8)
    (name : List UInt16) : Prop :=
  ∃ written, multiByteToWideChar (strncpy path mqMaxQNameLen) = some written ∧
    written <+: name ∧ 0 ∈ written ∧ CString.text 0 name = path.map (·.toUInt16)

/-- An operation on a path throws before it calls MSMQ, or each name that it passes to MSMQ
is read as the path. -/
def UsesNamed {γ : Type} (name? : γ → Option (List UInt16))
    (multiByteToWideChar : List UInt8 → Option (List UInt16)) (path : List UInt8)
    (result : Except String Unit) (calls calls' : List γ) : Prop :=
  (∃ what, result = .error what ∧ calls' = calls) ∨
    ∃ cs, calls' = cs ++ calls ∧
      ∀ name ∈ cs.filterMap name?, NamesPath multiByteToWideChar path name

/-- From one history to the next MSMQ was told this name, and no other. -/
def Told {γ : Type} (name? : γ → Option (List UInt16)) (name : List UInt16)
    (calls calls' : List γ) : Prop :=
  ∃ cs, calls' = cs ++ calls ∧ name ∈ cs.filterMap name? ∧ ∀ n ∈ cs.filterMap name?, n = name

section Names

variable {γ : Type} {name? : γ → Option (List UInt16)} {name : List UInt16}
  {conv : List UInt8 → Option (List UInt16)} {path : List UInt8} {calls calls' : List γ}

/-- What was told is all that matters. -/
theorem Told.usesNamed_iff (ht : Told name? name calls calls') (result : Except String Unit) :
    UsesNamed name? conv path result calls calls' ↔ NamesPath conv path name := by
  obtain ⟨cs, hcalls, hmem, honly⟩ := ht
  constructor
  · rintro (⟨what, -, hsame⟩ | ⟨cs', hcalls', hnames⟩)
    · have hempty : cs = [] := List.append_left_eq_self.mp (hcalls.symm.trans hsame)
      rw [hempty] at hmem
      cases hmem
    · obtain rfl : cs' = cs := List.append_cancel_right (hcalls'.symm.trans hcalls)
      exact hnames name hmem
  · intro hnames
    refine .inr ⟨cs, hcalls, fun n hn => ?_⟩
    rw [honly n hn]
    exact hnames

/-- One more call with the same name. -/
theorem Told.cons (ht : Told name? name calls calls') {call : γ}
    (hcall : ∀ n, name? call = some n → n = name) : Told name? name calls (call :: calls') := by
  obtain ⟨cs, hcalls, hmem, honly⟩ := ht
  refine ⟨call :: cs, by rw [hcalls, List.cons_append], ?_, fun n hn => ?_⟩
  · obtain ⟨c, hc, hname⟩ := List.mem_filterMap.mp hmem
    exact List.mem_filterMap.mpr ⟨c, List.mem_cons_of_mem _ hc, hname⟩
  · obtain ⟨c, hc, hname⟩ := List.mem_filterMap.mp hn
    rcases List.mem_cons.mp hc with rfl | hc
    · exact hcall n hname
    · exact honly n (List.mem_filterMap.mpr ⟨c, hc, hname⟩)

/-- The first call. -/
theorem told_singleton {call : γ} (hcall : name? call = some name) (calls : List γ) :
    Told name? name calls (call :: calls) := by
  refine ⟨[call], rfl, ?_, fun n hn => ?_⟩
  · simp [hcall]
  · simpa [hcall] using hn

end Names

section Buffer

variable {conv : List UInt8 → Option (List UInt16)} {path : List UInt8}

/-- The buffer is never empty, so the conversion is given something. -/
theorem strncpy_ne_nil (path : List UInt8) : strncpy path mqMaxQNameLen ≠ [] := by
  have hlength : (strncpy path mqMaxQNameLen).length = mqMaxQNameLen := CString.length_padded
  intro hempty
  rw [hempty] at hlength
  cases hlength

/-- What the conversion writes. -/
theorem convert_strncpy (hconv : ConvertsAscii conv) (hascii : ∀ c ∈ path, c.toNat < 128) :
    conv (strncpy path mqMaxQNameLen) = some ((strncpy path mqMaxQNameLen).map (·.toUInt16)) := by
  refine hconv _ (strncpy_ne_nil path) fun c hc => ?_
  rcases List.mem_append.mp hc with htake | hpad
  · exact hascii c (List.mem_of_mem_take htake)
  · rw [(List.mem_replicate.mp hpad).2]
    decide

/-- **The wide buffer** is read as the path exactly if there was room for the NUL. -/
theorem namesPath_iff (hconv : ConvertsAscii conv) (hascii : ∀ c ∈ path, c.toNat < 128)
    (hnul : 0 ∉ path) (rest : List UInt16) :
    NamesPath conv path ((strncpy path mqMaxQNameLen).map (·.toUInt16) ++ rest) ↔
      path.length < mqMaxQNameLen := by
  have hwritten := convert_strncpy hconv hascii
  have hwide : (strncpy path mqMaxQNameLen).map (·.toUInt16) =
      CString.padded 0 (path.map (·.toUInt16)) mqMaxQNameLen := CString.map_padded _
  have hnul' : (0 : UInt16) ∉ path.map (·.toUInt16) := by
    intro hmem
    obtain ⟨c, hc, hzero⟩ := List.mem_map.mp hmem
    obtain rfl : c = 0 := UInt8.toUInt16_inj.mp hzero
    exact hnul hc
  have hroom := CString.nul_mem_padded_iff (n := mqMaxQNameLen) hnul'
  rw [List.length_map] at hroom
  rw [hwide] at hwritten ⊢
  constructor
  · rintro ⟨written, hconverted, -, hmem, -⟩
    obtain rfl := Option.some.inj (hwritten.symm.trans hconverted)
    exact hroom.mp hmem
  · intro hlt
    refine ⟨_, hwritten, List.prefix_append _ _, hroom.mpr hlt, ?_⟩
    exact CString.text_padded_append hnul' (by rwa [List.length_map])

end Buffer

namespace MsmqQueue

variable {name : List UInt16} {calls : List MqCall}

/-- The retries pass on the same name.  The induction is on the number of retries left. -/
theorem told_retry (attempt : Nat → Hresult × Handle) :
    ∀ left i (o : Opening), Told MqCall.name? name calls o.calls →
      Told MqCall.name? name calls (retry name attempt left i o).calls := by
  intro left
  induction left with
  | zero =>
      intro i o ho
      exact ho
  | succ left ih =>
      intro i o ho
      unfold retry
      split
      · exact ih _ _ (ho.cons fun n hn => (Option.some.inj hn).symm)
      · exact ho

/-- `open` tells MSMQ the wide buffer, at every attempt the same. -/
theorem told_open (q : MsmqQueue) {path : Option (List UInt8)} {a : OpenAnswers}
    (hname : a.destFormatName path = some name) (calls : List MqCall) :
    Told MqCall.name? name calls (q.open path a calls).calls := by
  let first := mqOpenQueue name (a.attempt 0) ⟨0, q.hQueue, calls⟩
  have hfirst : Told MqCall.name? name calls first.calls := by
    apply told_singleton
    rfl
  have hlast := told_retry a.attempt 120 1 first hfirst
  simp only [MsmqQueue.open, hname]
  split
  · refine hlast.cons fun n hn => ?_
    cases hn
  · exact hlast

/-- The static functions tell MSMQ the wide buffer. -/
theorem told_administer {isNull notConverted failure : String}
    {call : List UInt16 → Hresult → AdminCall} (hcall : ∀ n hr, (call n hr).name? = some n)
    {path : List UInt8} {a : NameAnswers} (hname : a.destFormatName path = some name)
    (calls : List AdminCall) :
    Told AdminCall.name? name calls
      (administer isNull notConverted failure call (some path) a calls).calls := by
  simp only [administer, hname]
  split <;> exact told_singleton (hcall name a.hr) calls

section Path

variable {path : List UInt8}

/-- The first of the three operations: all attempts of `open` pass the wide buffer. -/
theorem usesNamed_open_iff (hascii : ∀ c ∈ path, c.toNat < 128) (hnul : 0 ∉ path) (q : MsmqQueue)
    (a : OpenAnswers) (calls : List MqCall) (hconv : ConvertsAscii a.multiByteToWideChar) :
    UsesNamed MqCall.name? a.multiByteToWideChar path (q.open (some path) a calls).result calls
      (q.open (some path) a calls).calls ↔ path.length < mqMaxQNameLen := by
  have hname : a.destFormatName (some path) =
      some ((strncpy path mqMaxQNameLen).map (·.toUInt16) ++ a.uninitialised) :=
    congrArg (Option.map (· ++ a.uninitialised)) (convert_strncpy hconv hascii)
  rw [(q.told_open hname calls).usesNamed_iff]
  exact namesPath_iff hconv hascii hnul a.uninitialised

/-- The other two make one call each, with the wide buffer. -/
theorem usesNamed_administer_iff {isNull notConverted failure : String}
    {call : List UInt16 → Hresult → AdminCall} (hcall : ∀ n hr, (call n hr).name? = some n)
    (hascii : ∀ c ∈ path, c.toNat < 128) (hnul : 0 ∉ path) (a : NameAnswers)
    (calls : List AdminCall) (hconv : ConvertsAscii a.multiByteToWideChar) :
    let r := administer isNull notConverted failure call (some path) a calls
    UsesNamed AdminCall.name? a.multiByteToWideChar path r.result calls r.calls ↔
      path.length < mqMaxQNameLen := by
  intro r
  have hname : a.destFormatName path =
      some ((strncpy path mqMaxQNameLen).map (·.toUInt16) ++ a.uninitialised) :=
    congrArg (Option.map (· ++ a.uninitialised)) (convert_strncpy hconv hascii)
  rw [(told_administer hcall hname calls).usesNamed_iff]
  exact namesPath_iff hconv hascii hnul a.uninitialised

end Path

/-- **The queue named is the queue used.**  For a path of ASCII characters, whatever is in the
rest of the wide buffer: each of `open`, `createQueue` and `deleteQueue` throws before it calls
MSMQ, or has MSMQ read the path, exactly if the path is shorter than the buffer.  A path of just
the length of the buffer is the first that fails: it is copied whole, but without a terminator. -/
theorem queue_named_iff {path : List UInt8} (hascii : ∀ c ∈ path, c.toNat < 128)
    (hnul : 0 ∉ path) (q : MsmqQueue) (o : OpenAnswers) (c d : NameAnswers) (calls : List MqCall)
    (adminCalls : List AdminCall) (ho : ConvertsAscii o.multiByteToWideChar)
    (hc : ConvertsAscii c.multiByteToWideChar) (hd : ConvertsAscii d.multiByteToWideChar) :
    let opened := q.open (some path) o calls
    let created := createQueue (some path) c adminCalls
    let deleted := deleteQueue (some path) d adminCalls
    (UsesNamed MqCall.name? o.multiByteToWideChar path opened.result calls opened.calls ↔
      path.length < mqMaxQNameLen) ∧
    (UsesNamed AdminCall.name? c.multiByteToWideChar path created.result adminCalls created.calls ↔
      path.length < mqMaxQNameLen) ∧
    (UsesNamed AdminCall.name? d.multiByteToWideChar path deleted.result adminCalls deleted.calls ↔
      path.length < mqMaxQNameLen) := by
  intro opened created deleted
  exact ⟨usesNamed_open_iff hascii hnul q o calls ho,
    usesNamed_administer_iff (fun _ _ => rfl) hascii hnul c adminCalls hc,
    usesNamed_administer_iff (fun _ _ => rfl) hascii hnul d adminCalls hd⟩

/-- The conversion of a machine with a single-byte code page. -/
theorem convertsAscii_always (hr : Hresult) (h : Handle) (close : Hresult) :
    ConvertsAscii (OpenAnswers.always hr h close).multiByteToWideChar :=
  fun _ _ _ => rfl

/-- The longest path that is not cut off, and a wide buffer whose rest holds anything but zeros:
all three operations name the queue. -/
theorem queue_named_iff_longest :
    let path : List UInt8 := List.replicate 123 65
    let garbage : List UInt16 := List.replicate 124 66
    let conv := (OpenAnswers.always 0 1 0).multiByteToWideChar
    let a : OpenAnswers := { OpenAnswers.always 0 1 0 with uninitialised := garbage }
    let opened := MsmqQueue.new.open (some path) a []
    let created := createQueue (some path) ⟨conv, garbage, 0⟩ []
    let deleted := deleteQueue (some path) ⟨conv, garbage, 0⟩ []
    UsesNamed MqCall.name? conv path opened.result [] opened.calls ∧
      UsesNamed AdminCall.name? conv path created.result [] created.calls ∧
      UsesNamed AdminCall.name? conv path deleted.result [] deleted.calls := by
  intro path garbage conv a opened created deleted
  have hconv := convertsAscii_always 0 1 0
  have hascii : ∀ c ∈ path, c.toNat < 128 := by
    intro c hc
    rw [(List.mem_replicate.mp hc).2]
    decide
  have hnul : (0 : UInt8) ∉ path := fun hmem => absurd (List.mem_replicate.mp hmem).2 (by decide)
  have hlength : path.length < mqMaxQNameLen := by
    rw [List.length_replicate]
    decide
  obtain ⟨hopened, hcreated, hdeleted⟩ := queue_named_iff hascii hnul .new a ⟨conv, garbage, 0⟩
    ⟨conv, garbage, 0⟩ [] [] hconv hconv hconv
  exact ⟨hopened.mpr hlength, hcreated.mpr hlength, hdeleted.mpr hlength⟩

/-- A path that fills the buffer: MSMQ opens a queue whose name has one character more,
which happened to be in the rest of the wide buffer. -/
theorem another_queue_opened :
    let path : List UInt8 := List.replicate 124 65
    let a : OpenAnswers := { OpenAnswers.always 0 1 0 with
      uninitialised := 66 :: List.replicate 123 0 }
    let opened := MsmqQueue.new.open (some path) a []
    ¬UsesNamed MqCall.name? a.multiByteToWideChar path opened.result [] opened.calls ∧
      opened.result = .ok () ∧
      opened.calls.filterMap MqCall.name? =
        [List.replicate 124 65 ++ 66 :: List.replicate 123 0] := by
  intro path a opened
  have hascii : ∀ c ∈ path, c.toNat < 128 := by
    intro c hc
    rw [(List.mem_replicate.mp hc).2]
    decide
  have hnul : (0 : UInt8) ∉ path := fun hmem => absurd (List.mem_replicate.mp hmem).2 (by decide)
  have hiff := usesNamed_open_iff hascii hnul .new a [] (convertsAscii_always 0 1 0)
  refine ⟨fun hnamed => ?_, ?_, ?_⟩
  · have hlt := hiff.mp hnamed
    rw [List.length_replicate] at hlt
    exact absurd hlt (by decide)
  · rfl
  · have hcopy : strncpy path mqMaxQNameLen = path := by
      simp [strncpy, path, mqMaxQNameLen]
    have hcalls : opened.calls.filterMap MqCall.name? =
        [(strncpy path mqMaxQNameLen).map (·.toUInt16) ++ 66 :: List.replicate 123 0] := rfl
    rw [hcalls, hcopy, List.map_replicate]
    rfl

end MsmqQueue

end Msmq
