import Hjortron.Misc.FlatMemory
import Mathlib.Data.List.DropRight

/-!
# `kernel/src/string.c`

A string buffer is the list of the bytes from its address on. A buffer that holds a string has
a NUL byte in it; `cstr` is the string that it holds.
-/

namespace Hjortron

/-- The character code of an ASCII character. -/
def ascii (c : Char) : Byte := BitVec.ofNat 8 c.toNat

/-- The bytes before the first NUL. -/
def cstr (buf : List Byte) : List Byte := buf.takeWhile (· ≠ 0)

/-- `strlen`. -/
def strlen (buf : List Byte) : Nat := (cstr buf).length

/-- The loop of `strtrim`, from the index below `i` down. -/
def strtrimFrom (c : Byte) (buf : List Byte) : Nat → List Byte
  | 0 => buf
  | i + 1 =>
    if buf[i]? = some c then
      strtrimFrom c (buf.set i 0) i
    else
      buf

/-- `strtrim`: overwrites the trailing `c` of the string with NUL. -/
def strtrim (buf : List Byte) (c : Byte) : List Byte := strtrimFrom c buf (strlen buf)

/-- `memcpy(&dest[k], src, len)` between two buffers. -/
def copyInto (dest : List Byte) (k : Nat) (src : List Byte) (len : Nat) : List Byte :=
  dest.take k ++ src.take len ++ dest.drop (k + len)

section

variable {s z : List Byte} {c : Byte}

theorem cstr_append_nul (hs : 0 ∉ s) : cstr (s ++ 0 :: z) = s := by
  induction s with
  | nil => rfl
  | cons x s ih =>
    simp only [List.mem_cons, not_or] at hs
    have hx : x ≠ 0 := Ne.symm hs.1
    rw [cstr, List.cons_append, List.takeWhile_cons, if_pos (by simpa using hx)]
    exact congrArg _ (ih hs.2)

theorem strlen_append_nul (hs : 0 ∉ s) : strlen (s ++ 0 :: z) = s.length := by
  rw [strlen, cstr_append_nul hs]

/-- The loop of `strtrim` overwrites the trailing `c` and nothing else. -/
theorem strtrimFrom_append (s z : List Byte) (c : Byte) :
    strtrimFrom c (s ++ z) s.length =
      s.rdropWhile (· == c) ++
        (List.replicate (s.length - (s.rdropWhile (· == c)).length) 0 ++ z) := by
  induction s using List.reverseRecOn generalizing z with
  | nil => rfl
  | append_singleton s x ih =>
    rw [List.length_append, List.length_singleton, strtrimFrom]
    have hget : (s ++ [x] ++ z)[s.length]? = some x := by simp
    have hset : (s ++ [x] ++ z).set s.length 0 = s ++ 0 :: z := by simp
    rw [hget, hset]
    by_cases hx : x = c
    · have hdrop : (s ++ [x]).rdropWhile (· == c) = s.rdropWhile (· == c) := by
        simp [hx]
      have hle : (s.rdropWhile (· == c)).length ≤ s.length :=
        (List.rdropWhile_prefix _ _).length_le
      rw [if_pos (by rw [hx]), ih, hdrop, Nat.succ_sub hle, List.replicate_succ']
      simp
    · have hdrop : (s ++ [x]).rdropWhile (· == c) = s ++ [x] := by
        simp [hx]
      rw [if_neg (by simpa using hx), hdrop]
      simp

theorem strtrim_append (hs : 0 ∉ s) : strtrim (s ++ 0 :: z) c =
    s.rdropWhile (· == c) ++
      (List.replicate (s.length - (s.rdropWhile (· == c)).length) 0 ++ 0 :: z) := by
  rw [strtrim, strlen_append_nul hs, strtrimFrom_append]

theorem not_mem_rdropWhile {p : Byte → Bool} (hs : 0 ∉ s) : 0 ∉ s.rdropWhile p :=
  fun h => hs ((List.rdropWhile_prefix p s).subset h)

/-- The string that `strtrim` leaves. -/
theorem cstr_strtrim (hs : 0 ∉ s) : cstr (strtrim (s ++ 0 :: z) c) = s.rdropWhile (· == c) := by
  rw [strtrim_append hs, List.append_cons, ← List.replicate_succ']
  exact cstr_append_nul (not_mem_rdropWhile hs)

end

end Hjortron
