import Mathlib.Data.List.Basic

/-!
# Modified UTF-8

The encoding in which a Java virtual machine hands strings to native code.  Each UTF-16
code unit is encoded by itself in one to three bytes; NUL takes two, so that no byte of an
encoded string is zero (`nul_not_mem_encode`), and C code can take it for a string of its own.

A single byte stands only for a *plain* unit, an ASCII character other than NUL.  Every other
unit takes more bytes than one, so the encoding of a string is at least as long as the string,
and as long only if all its units are plain.

Hence a decoder that takes every byte for a character, and ASCII for itself, undoes the
encoding of plain units and of no others (`map_encode_eq_iff`): on anything else it gives more
characters than there were.  Which characters it gives for the bytes from 128 on does not
matter.
-/

namespace ModifiedUtf8

/-- A code unit that takes a single byte. -/
def Plain (c : UInt16) : Prop := 0 < c.toNat ∧ c.toNat < 0x80

instance (c : UInt16) : Decidable (Plain c) := inferInstanceAs (Decidable (_ ∧ _))

/-- The bytes of one code unit. -/
def encodeUnit (c : UInt16) : List UInt8 :=
  if Plain c then [c.toUInt8]
  else if c.toNat < 0x800 then
    [.ofNat (0xC0 + c.toNat / 0x40), .ofNat (0x80 + c.toNat % 0x40)]
  else
    [.ofNat (0xE0 + c.toNat / 0x1000), .ofNat (0x80 + c.toNat / 0x40 % 0x40),
      .ofNat (0x80 + c.toNat % 0x40)]

/-- The bytes of a string. -/
def encode (s : List UInt16) : List UInt8 := s.flatMap encodeUnit

variable {c : UInt16} {s : List UInt16}

theorem encodeUnit_of_plain (hc : Plain c) : encodeUnit c = [c.toUInt8] := if_pos hc

/-- The byte of a plain unit. -/
theorem Plain.toNat_toUInt8 (hc : Plain c) : c.toUInt8.toNat = c.toNat := by
  rw [UInt16.toNat_toUInt8]
  exact Nat.mod_eq_of_lt (Nat.lt_trans hc.2 (by decide))

/-- A unit that is not plain takes bytes beyond ASCII, more than one. -/
theorem encodeUnit_of_not_plain (hc : ¬Plain c) :
    2 ≤ (encodeUnit c).length ∧ ∀ b ∈ encodeUnit c, 0x80 ≤ b.toNat := by
  have hlt := UInt16.toNat_lt c
  unfold encodeUnit
  rw [if_neg hc]
  split
  · refine ⟨Nat.le_refl _, ?_⟩
    intro b hb
    simp only [List.mem_cons, List.not_mem_nil, or_false] at hb
    rcases hb with rfl | rfl <;> rw [UInt8.toNat_ofNat'] <;> omega
  · refine ⟨Nat.le_succ 2, ?_⟩
    intro b hb
    simp only [List.mem_cons, List.not_mem_nil, or_false] at hb
    rcases hb with rfl | rfl | rfl <;> rw [UInt8.toNat_ofNat'] <;> omega

/-- Every unit takes a byte. -/
theorem length_encodeUnit_pos (c : UInt16) : 1 ≤ (encodeUnit c).length := by
  by_cases hc : Plain c
  · rw [encodeUnit_of_plain hc]
    exact Nat.le_refl 1
  · have hlong := (encodeUnit_of_not_plain hc).1
    omega

theorem encode_cons : encode (c :: s) = encodeUnit c ++ encode s := List.flatMap_cons

/-- No byte of an encoded string is zero. -/
theorem nul_not_mem_encode (s : List UInt16) : 0 ∉ encode s := by
  intro hmem
  obtain ⟨c, -, hc⟩ := List.mem_flatMap.mp hmem
  by_cases hplain : Plain c
  · rw [encodeUnit_of_plain hplain, List.mem_singleton] at hc
    have hbyte := hplain.toNat_toUInt8
    rw [← hc, UInt8.toNat_zero] at hbyte
    exact Nat.ne_of_gt hplain.1 hbyte.symm
  · exact absurd ((encodeUnit_of_not_plain hplain).2 0 hc) (by decide)

/-- A string has no more units than bytes. -/
theorem length_le_length_encode (s : List UInt16) : s.length ≤ (encode s).length := by
  induction s with
  | nil => exact Nat.le_refl 0
  | cons c rest ih =>
      have hc := length_encodeUnit_pos c
      rw [encode_cons, List.length_cons, List.length_append]
      omega

/-- It has as many only if its units are plain. -/
theorem plain_of_length_encode_eq (h : (encode s).length = s.length) : ∀ c ∈ s, Plain c := by
  induction s with
  | nil => exact fun c hc => absurd hc List.not_mem_nil
  | cons c rest ih =>
      have hrest := length_le_length_encode rest
      have hfirst := length_encodeUnit_pos c
      rw [encode_cons, List.length_cons, List.length_append] at h
      have hplain : Plain c := by
        by_contra hc
        have hlong := (encodeUnit_of_not_plain hc).1
        omega
      intro d hd
      rcases List.mem_cons.mp hd with rfl | hd
      · exact hplain
      · exact ih (by omega) d hd

section Decoding

variable {page : UInt8 → UInt16}

/-- A plain unit is decoded as it was. -/
theorem page_of_plain (hascii : ∀ b : UInt8, b.toNat < 0x80 → page b = b.toUInt16)
    (hc : Plain c) : page c.toUInt8 = c := by
  have hbyte := hc.toNat_toUInt8
  rw [hascii _ (hbyte ▸ hc.2)]
  apply UInt16.toNat_inj.mp
  rw [UInt8.toNat_toUInt16, hbyte]

/-- **What a decoder byte by byte undoes** is the encoding of plain units.  Of a decoder no more
is asked than that it keeps ASCII; on any other unit it fails because it gives too many
characters. -/
theorem map_encode_eq_iff (hascii : ∀ b : UInt8, b.toNat < 0x80 → page b = b.toUInt16) :
    (encode s).map page = s ↔ ∀ c ∈ s, Plain c := by
  constructor
  · intro hback
    apply plain_of_length_encode_eq
    have hlength := congrArg List.length hback
    rwa [List.length_map] at hlength
  · intro hplain
    induction s with
    | nil => rfl
    | cons c rest ih =>
        have hc : Plain c := hplain c List.mem_cons_self
        have hrest := ih fun d hd => hplain d (List.mem_cons_of_mem _ hd)
        rw [encode_cons, encodeUnit_of_plain hc, List.map_append, hrest, List.map_singleton,
          page_of_plain hascii hc, List.singleton_append]

end Decoding

end ModifiedUtf8
