import Mathlib.Data.List.Basic

/-!
# Strings in buffers

A string is kept in a buffer up to a terminator `nul`, which it does not contain.  A copy
of a fixed length, as `strncpy` makes it, is padded with terminators if the string is
shorter, and cut if it is longer.

Whoever reads a string from a buffer reads on until the first terminator, wherever that is.
A copy has one exactly if the string is shorter than the copy (`nul_mem_padded_iff`).  Then
the string can be read from it, and what lies behind the copy does not matter
(`text_padded_append`); otherwise the reader goes on into that.

The elements are of any type, so the same lemmas serve bytes and the wide characters that
they are converted to.
-/

namespace CString

variable {α β : Type*} (nul : α)

/-- A copy of length `n`. -/
def padded (s : List α) (n : Nat) : List α := s.take n ++ List.replicate (n - s.length) nul

/-- What is read from a buffer: everything before the first terminator. -/
def text [DecidableEq α] (buffer : List α) : List α := buffer.takeWhile (· ≠ nul)

variable {nul} {s rest : List α} {n : Nat}

@[simp] theorem length_padded : (padded nul s n).length = n := by
  simp only [padded, List.length_append, List.length_take, List.length_replicate]
  omega

theorem map_padded (f : α → β) : (padded nul s n).map f = padded (f nul) (s.map f) n := by
  simp [padded]

/-- A copy of a string that is shorter. -/
theorem padded_of_lt (hlt : s.length < n) :
    padded nul s n = s ++ nul :: List.replicate (n - s.length - 1) nul := by
  obtain ⟨k, hk⟩ : ∃ k, n - s.length = k + 1 := ⟨n - s.length - 1, by omega⟩
  rw [padded, List.take_of_length_le (Nat.le_of_lt hlt), hk, List.replicate_succ,
    Nat.add_sub_cancel]

/-- Only a string that is shorter is terminated. -/
theorem nul_mem_padded_iff (hnul : nul ∉ s) : nul ∈ padded nul s n ↔ s.length < n := by
  constructor
  · intro hmem
    rcases List.mem_append.mp hmem with htake | hpad
    · exact absurd (List.mem_of_mem_take htake) hnul
    · have hne := (List.mem_replicate.mp hpad).1
      omega
  · intro hlt
    rw [padded_of_lt hlt]
    exact List.mem_append_right s List.mem_cons_self

/-- Reading stops at the terminator, whatever follows. -/
theorem text_append_nul [DecidableEq α] (hnul : nul ∉ s) : text nul (s ++ nul :: rest) = s := by
  have hpos : ∀ c ∈ s, decide (c ≠ nul) = true :=
    fun c hc => decide_eq_true fun heq => hnul (heq ▸ hc)
  rw [text, List.takeWhile_append_of_pos hpos, List.takeWhile_cons_of_neg (by simp),
    List.append_nil]

/-- A string that is shorter is read as it is. -/
theorem text_padded_append [DecidableEq α] (hnul : nul ∉ s) (hlt : s.length < n) :
    text nul (padded nul s n ++ rest) = s := by
  rw [padded_of_lt hlt, List.append_assoc, List.cons_append]
  exact text_append_nul hnul

end CString
