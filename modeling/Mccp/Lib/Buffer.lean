/-
  Mccp.Lib.Buffer
  ───────────────
  **PRINTING INTO AN ARRAY OF CHARACTERS.**

  The array keeps its size; a write beyond its end has no meaning, which is
  `none`.  What snprintf() writes is cut to the size it is given, less the
  terminator, but the length it returns is that of the whole text.

      printAt, printed — what is written, and what is returned
      printAt_eq       — the array afterwards, if the text fits
      take_printAt     — what stands before the new terminator
      cstr_printAt     — the string that the array then holds
-/
import Mathlib.Algebra.Group.Nat.Defs
import Mccp.Lib.CString

namespace CString

/-- `snprintf(mem + p, size, "%s", text)`. -/
def printAt (mem : List Char) (p size : Nat) (text : List Char) : Option (List Char) :=
  if size = 0 then some mem
  else
    let out := text.take (size - 1) ++ [nul]
    if p + out.length ≤ mem.length then some (mem.take p ++ out ++ mem.drop (p + out.length))
    else none

/-- The int that it returns, as a size_t: the length of the text; minus one if no
int can say it. -/
def printed (text : List Char) : UInt64 :=
  if text.length < 2 ^ 31 then UInt64.ofNat text.length else -1

variable {mem text : List Char} {p size : Nat}

/-- How much is written, with the terminator. -/
theorem length_out (text : List Char) (size : Nat) :
    (text.take (size - 1) ++ [nul]).length = min text.length (size - 1) + 1 := by
  rw [List.length_append, List.length_take, List.length_singleton, Nat.min_comm]

/-- **What is written**, where it fits into the array. -/
theorem printAt_eq (hsize : 0 < size) (hfits : p + (min text.length (size - 1) + 1) ≤ mem.length) :
    printAt mem p size text = some (mem.take p ++ (text.take (size - 1) ++ [nul]) ++
      mem.drop (p + (min text.length (size - 1) + 1))) := by
  unfold printAt
  dsimp only
  rw [if_neg (Nat.ne_of_gt hsize), length_out, if_pos hfits]

/-- **A write beyond the end.** -/
theorem printAt_none (hsize : 0 < size)
    (hbeyond : mem.length < p + (min text.length (size - 1) + 1)) :
    printAt mem p size text = none := by
  unfold printAt
  dsimp only
  rw [if_neg (Nat.ne_of_gt hsize), length_out, if_neg (Nat.not_le.mpr hbeyond)]

theorem length_printAt {mem' : List Char} (h : printAt mem p size text = some mem') :
    mem'.length = mem.length := by
  unfold printAt at h
  dsimp only at h
  split at h
  next => rw [Option.some.inj h]
  next =>
    split at h
    next hfits =>
      rw [← Option.some.inj h]
      simp only [List.length_append, List.length_take, List.length_drop] at hfits ⊢
      omega
    next => exact absurd h (by simp)

/-- What stands before the terminator that has been written. -/
theorem take_printAt {mem' : List Char} (hp : p ≤ mem.length) (hsize : 0 < size)
    (h : printAt mem p size text = some mem') :
    mem'.take (p + min text.length (size - 1)) = mem.take p ++ text.take (size - 1) := by
  by_cases hfits : p + (min text.length (size - 1) + 1) ≤ mem.length
  · rw [printAt_eq hsize hfits] at h
    have hlen : (mem.take p ++ text.take (size - 1)).length = p + min text.length (size - 1) := by
      rw [List.length_append, List.length_take, List.length_take, Nat.min_eq_left hp,
        Nat.min_comm (size - 1)]
    rw [← Option.some.inj h, ← List.append_assoc, List.append_assoc, ← hlen]
    exact List.take_left
  · rw [printAt_none hsize (Nat.not_le.mp hfits)] at h
    exact absurd h (by simp)

/-- A string at the beginning that ends at the first terminator. -/
theorem cstr_zero {s rest : List Char} (hs : nul ∉ s) : cstr (s ++ nul :: rest) 0 = s :=
  cstr_append hs [] rest

/-- **The string in the array**: what stands before `p`, and as much of the text
as has been written. -/
theorem cstr_printAt {mem' : List Char} (hp : nul ∉ mem.take p) (htext : nul ∉ text)
    (hsize : 0 < size) (h : printAt mem p size text = some mem') :
    cstr mem' 0 = mem.take p ++ text.take (size - 1) := by
  by_cases hfits : p + (min text.length (size - 1) + 1) ≤ mem.length
  · rw [printAt_eq hsize hfits] at h
    have hboth : nul ∉ mem.take p ++ text.take (size - 1) := by
      intro hmem
      obtain hmem | hmem := List.mem_append.mp hmem
      · exact hp hmem
      · exact htext (List.mem_of_mem_take hmem)
    rw [← Option.some.inj h, ← List.append_assoc, List.append_assoc _ [nul], List.singleton_append]
    exact cstr_zero hboth
  · rw [printAt_none hsize (Nat.not_le.mp hfits)] at h
    exact absurd h (by simp)

/-- The length that is returned, where an int can say it. -/
theorem printed_toNat (h : text.length < 2 ^ 31) : (printed text).toNat = text.length := by
  unfold printed
  rw [if_pos h, UInt64.toNat_ofNat']
  exact Nat.mod_eq_of_lt (Nat.lt_trans h (by decide))

end CString
