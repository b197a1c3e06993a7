/-
  Mccp.Str.Trim
  ─────────────
  **CUTTING THE END OF A STRING.**

  mccp_str_trim_right() of strutils.c.  It works on a copy, from the end: each
  character that is to go becomes a terminator, until one that is to stay.

      trimRight    — mccp_str_trim_right()
      trimRight_eq — it keeps the longest beginning that ends in no such character
-/
import Mccp.Lib.CString
import Mccp.Result

namespace Mccp.Str

open CString (nul charAt cstr strchr isValidString)

/-- The loop of `mccp_str_trim_right`, at `ed = buf + n - 1`. -/
def trimLoop (trimchars : List Char) : (n : Nat) → (mem : List Char) → List Char
  | 0, mem => mem
  | n + 1, mem =>
      if strchr (trimchars ++ [nul]) 0 (charAt mem n) ≠ none then
        trimLoop trimchars n (mem.set n nul)
      else mem

/-- `mccp_str_trim_right`, with the string at `*retptr` if it is set. -/
def trimRight (org trimchars : Option (List Char)) (retptr : Bool) :
    Result × Option (List Char) :=
  match org, trimchars with
  | some o, some t =>
      if isValidString org ∧ isValidString trimchars ∧ retptr then
        let mem := trimLoop t o.length (o ++ [nul])
        ((cstr mem 0).length, some (cstr mem 0))
      else (.invalidArgs, none)
  | _, _ => (.invalidArgs, none)

variable {o t : List Char}

theorem strchr_ne_none {c : Char} (ht : nul ∉ t) :
    strchr (t ++ [nul]) 0 c ≠ none ↔ c ∈ t := by
  have hcstr : cstr (t ++ [nul]) 0 = t := CString.cstr_append ht [] []
  unfold strchr
  rw [hcstr]
  simp [List.findIdx?_eq_none_iff]

/-- The loop, where `k` characters have been cut. -/
theorem trimLoop_cut (ht : nul ∉ t) (ho : nul ∉ o) (k : Nat) :
    cstr (trimLoop t o.length (o ++ List.replicate (k + 1) nul)) 0 =
      o.rdropWhile (· ∈ t) := by
  induction o using List.reverseRecOn generalizing k with
  | nil => rfl
  | append_singleton o c ih =>
    have ho' : nul ∉ o := fun h => ho (by simp [h])
    rw [List.length_append, List.length_singleton, List.rdropWhile_concat, List.append_assoc]
    unfold trimLoop
    rw [List.singleton_append, CString.charAt_append]
    by_cases hmem : c ∈ t
    · -- the character goes, and is one terminator more
      rw [if_pos ((strchr_ne_none ht).mpr hmem), if_pos (by simpa using hmem),
        CString.set_append]
      exact ih ho' (k + 1)
    · rw [if_neg (fun h => hmem ((strchr_ne_none ht).mp h)), if_neg (by simpa using hmem)]
      have hall : nul ∉ o ++ [c] := ho
      have hkeep := CString.cstr_append hall [] (List.replicate k nul)
      simpa [List.replicate_succ] using hkeep

/-- **What is cut**: the longest end all of whose characters are to go. -/
theorem trimRight_eq (ht : nul ∉ t) (ho : nul ∉ o) (ht' : t ≠ []) (ho' : o ≠ []) :
    trimRight (some o) (some t) true =
      (((o.rdropWhile (· ∈ t)).length : Result), some (o.rdropWhile (· ∈ t))) := by
  have hvalid : isValidString (some o) ∧ isValidString (some t) ∧ true = true := by
    simp [isValidString, ht', ho']
  unfold trimRight
  dsimp only
  rw [if_pos hvalid]
  have hcut := trimLoop_cut ht ho 0
  rw [show List.replicate (0 + 1) nul = [nul] from rfl] at hcut
  rw [hcut]

end Mccp.Str
