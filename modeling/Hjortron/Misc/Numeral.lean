import Hjortron.Misc.FlatMemory
import Mathlib.Data.Nat.Digits.Lemmas

/-!
# Numerals

Positional numerals as lists of characters, most significant digit first, over the digits 0 to 9
and A to Z. `numeral b n` is the numeral of `n` without leading zeros; `digitsValue` and
`signedValue` read numerals.
-/

namespace Hjortron

/-- The character of a digit. -/
def digitChar (d : Nat) : Byte := BitVec.ofNat 8 (if 10 ≤ d then 55 + d else 48 + d)

/-- The digit of a character. -/
def digitValue (c : Byte) : Option Nat :=
  if 48 ≤ c.toNat ∧ c.toNat ≤ 57 then some (c.toNat - 48)
  else if 65 ≤ c.toNat ∧ c.toNat ≤ 90 then some (c.toNat - 55)
  else none

/-- Reads one more digit in base `b`. -/
def readDigit (b n : Nat) (c : Byte) : Option Nat :=
  (digitValue c).bind fun d => if d < b then some (b * n + d) else none

/-- The value of a string of digits in base `b`. -/
def digitsValue (b : Nat) (s : List Byte) : Option Nat := s.foldlM (readDigit b) 0

/-- The numeral of `n` in base `b`. -/
def numeral (b n : Nat) : List Byte :=
  if n = 0 then [48] else (Nat.digits b n).reverse.map digitChar

/-- The numeral of an integer, with a minus sign if it is negative. -/
def signedNumeral (b : Nat) (i : Int) : List Byte :=
  if i < 0 then 45 :: numeral b i.natAbs else numeral b i.natAbs

/-- The value of a string of digits that may start with a minus sign. -/
def signedValue (b : Nat) : List Byte → Option Int
  | [] => none
  | c :: s =>
    if c = 45 then (digitsValue b s).map fun n => -(n : Int)
    else (digitsValue b (c :: s)).map fun n => (n : Int)

/-- Removes leading zeros, but for the last digit. -/
def trimZeros : List Byte → List Byte
  | [] => []
  | [c] => [c]
  | c :: d :: s => if c = 48 then trimZeros (d :: s) else c :: d :: s

variable {b n d : Nat}

/-! ## Digits -/

theorem toNat_digitChar (hd : d < 36) :
    (digitChar d).toNat = if 10 ≤ d then 55 + d else 48 + d := by
  unfold digitChar
  rw [BitVec.toNat_ofNat]
  apply Nat.mod_eq_of_lt
  split_ifs <;> omega

theorem digitValue_digitChar (hd : d < 36) : digitValue (digitChar d) = some d := by
  unfold digitValue
  rw [toNat_digitChar hd]
  split_ifs <;> first | omega | (congr 1; omega)

theorem digitChar_eq_zero_iff (hd : d < 36) : digitChar d = 48 ↔ d = 0 := by
  have htoNat := toNat_digitChar hd
  constructor
  · intro h
    rw [h] at htoNat
    change 48 = _ at htoNat
    split_ifs at htoNat <;> omega
  · rintro rfl
    rfl

theorem digitChar_ne_minus (hd : d < 36) : digitChar d ≠ 45 := by
  have htoNat := toNat_digitChar hd
  intro h
  rw [h] at htoNat
  change 45 = _ at htoNat
  split_ifs at htoNat <;> omega

theorem digitChar_ne_nul (hd : d < 36) : digitChar d ≠ 0 := by
  have htoNat := toNat_digitChar hd
  intro h
  rw [h] at htoNat
  change 0 = _ at htoNat
  split_ifs at htoNat <;> omega

/-! ## Numerals and their values -/

theorem digitsValue_map_digitChar (hb : b ≤ 36) (ds : List Nat) (hds : ∀ d ∈ ds, d < b) (n : Nat) :
    (ds.map digitChar).foldlM (readDigit b) n = some (ds.foldl (fun n d => b * n + d) n) := by
  induction ds generalizing n with
  | nil => rfl
  | cons d ds ih =>
    have hd := hds d (List.mem_cons_self ..)
    have hread : readDigit b n (digitChar d) = some (b * n + d) := by
      rw [readDigit, digitValue_digitChar (by omega), Option.bind_some, if_pos hd]
    rw [List.map_cons, List.foldlM_cons, hread]
    exact ih (fun d hd => hds d (List.mem_cons_of_mem _ hd)) (b * n + d)

/-- The digits of a number are its numeral read backwards. -/
theorem foldl_reverse_digits (b n : Nat) :
    (Nat.digits b n).reverse.foldl (fun n d => b * n + d) 0 = n := by
  rw [List.foldl_reverse]
  conv_rhs => rw [← Nat.ofDigits_digits b n, Nat.ofDigits_eq_foldr]
  congr 1
  funext d n
  exact Nat.add_comm _ _

theorem mem_numeral_iff {c : Byte} (hn : n ≠ 0) :
    c ∈ numeral b n ↔ ∃ d ∈ Nat.digits b n, digitChar d = c := by
  rw [numeral, if_neg hn, List.mem_map]
  simp only [List.mem_reverse]

theorem exists_of_mem_numeral {c : Byte} (hb : 2 ≤ b) (hc : c ∈ numeral b n) :
    ∃ d < b, c = digitChar d := by
  by_cases hn : n = 0
  · rw [numeral, if_pos hn, List.mem_singleton] at hc
    exact ⟨0, by omega, hc⟩
  · obtain ⟨d, hd, rfl⟩ := (mem_numeral_iff hn).mp hc
    exact ⟨d, Nat.digits_lt_base hb hd, rfl⟩

theorem numeral_ne_nil (b n : Nat) : numeral b n ≠ [] := by
  unfold numeral
  split_ifs with hn
  · exact List.cons_ne_nil _ _
  · simpa using Nat.digits_ne_nil_iff_ne_zero.mpr hn

theorem digitsValue_numeral (hb : 2 ≤ b) (hb' : b ≤ 36) : digitsValue b (numeral b n) = some n := by
  unfold digitsValue numeral
  split_ifs with hn
  · have hread : readDigit b 0 48 = some 0 := by
      show (if 0 < b then some (b * 0 + 0) else none) = some 0
      rw [if_pos (by omega)]
      rfl
    rw [List.foldlM_cons, hread, hn]
    rfl
  · rw [digitsValue_map_digitChar hb', foldl_reverse_digits]
    intro d hd
    exact Nat.digits_lt_base hb (List.mem_reverse.mp hd)

/-- There are no leading zeros. -/
theorem numeral_head (hb : 2 ≤ b) (hb' : b ≤ 36) (h : (numeral b n).head? = some 48) :
    numeral b n = [48] := by
  by_cases hn : n = 0
  · rw [numeral, if_pos hn]
  · have hne : Nat.digits b n ≠ [] := Nat.digits_ne_nil_iff_ne_zero.mpr hn
    rw [numeral, if_neg hn, List.head?_map, List.head?_reverse,
      List.getLast?_eq_some_getLast hne] at h
    have hlast := Nat.getLast_digit_ne_zero b hn
    have hlt := Nat.digits_lt_base hb (List.getLast_mem hne)
    exact absurd ((digitChar_eq_zero_iff (by omega)).mp (Option.some.inj h)) hlast

theorem nul_not_mem_numeral (hb : 2 ≤ b) (hb' : b ≤ 36) : 0 ∉ numeral b n := by
  intro h
  obtain ⟨d, hd, heq⟩ := exists_of_mem_numeral hb h
  exact digitChar_ne_nul (by omega) heq.symm

/-- The numeral of a number below `b ^ k` has at most `k` digits. -/
theorem length_numeral_le {k : Nat} (hb : 2 ≤ b) (hk : 0 < k) (hn : n < b ^ k) :
    (numeral b n).length ≤ k := by
  unfold numeral
  split_ifs
  · exact hk
  · rw [List.length_map, List.length_reverse]
    exact (Nat.digits_length_le_iff hb n).mpr hn

theorem signedValue_signedNumeral (hb : 2 ≤ b) (hb' : b ≤ 36) (i : Int) :
    signedValue b (signedNumeral b i) = some i := by
  unfold signedNumeral
  split_ifs with hi
  · rw [signedValue, if_pos rfl, digitsValue_numeral hb hb']
    exact congrArg some (show -(i.natAbs : Int) = i by omega)
  · obtain ⟨c, s, hs⟩ := List.exists_cons_of_ne_nil (numeral_ne_nil b i.natAbs)
    have hc : c ≠ 45 := by
      obtain ⟨d, hd, rfl⟩ := exists_of_mem_numeral hb (n := i.natAbs) (c := c) (by simp [hs])
      exact digitChar_ne_minus (by omega)
    rw [hs, signedValue, if_neg hc, ← hs, digitsValue_numeral hb hb']
    exact congrArg some (show (i.natAbs : Int) = i by omega)

/-! ## Leading zeros -/

theorem trimZeros_numeral (hb : 2 ≤ b) (hb' : b ≤ 36) : trimZeros (numeral b n) = numeral b n := by
  have hhead := numeral_head (n := n) hb hb'
  match hs : numeral b n with
  | [] => rfl
  | [c] => rfl
  | c :: d :: s =>
    rw [trimZeros, if_neg]
    rintro rfl
    have hone := hhead (by rw [hs]; rfl)
    rw [hs] at hone
    cases hone

theorem trimZeros_zero_cons {s : List Byte} (hs : s ≠ []) : trimZeros (48 :: s) = trimZeros s := by
  match s with
  | [] => exact absurd rfl hs
  | c :: s => rw [trimZeros, if_pos rfl]

/-- Padding with zeros does not change a numeral. -/
theorem trimZeros_padded (hb : 2 ≤ b) (hb' : b ≤ 36) (k : Nat) :
    trimZeros (List.replicate k 48 ++ numeral b n) = numeral b n := by
  induction k with
  | zero => exact trimZeros_numeral hb hb'
  | succ k ih =>
    rw [List.replicate_succ, List.cons_append, trimZeros_zero_cons, ih]
    simp [numeral_ne_nil]

theorem numeral_injective (hb : 2 ≤ b) (hb' : b ≤ 36) : Function.Injective (numeral b) := by
  intro n k h
  have hvalue := congrArg (digitsValue b) h
  rw [digitsValue_numeral hb hb', digitsValue_numeral hb hb'] at hvalue
  exact Option.some.inj hvalue

end Hjortron
