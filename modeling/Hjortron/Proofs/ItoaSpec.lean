import Hjortron.Format
import Hjortron.Misc.Numeral
import Mathlib.Data.List.GetD

/-!
# `itoa`

`itoa` writes the digits of a number backwards and reverses them in place. What it leaves is
described with `Chars.put`, which writes a list of bytes to a place of a string.
-/

namespace Hjortron

namespace Chars

variable {str : Chars} {s t : List Byte} {j k len : Nat}

/-! ## Writing to a string -/

/-- Writes bytes from `&str[j]` on. -/
def put (str : Chars) (j : Nat) (s : List Byte) : Chars :=
  fun k => if j ≤ k ∧ k < j + s.length then s.getD (k - j) 0 else str k

theorem put_nil (str : Chars) (j : Nat) : str.put j [] = str := by
  funext k
  rw [put, if_neg (by simp)]

theorem put_singleton (str : Chars) (j : Nat) (c : Byte) :
    str.put j [c] = Function.update str j c := by
  funext k
  by_cases hk : k = j
  · simp [put, hk]
  · rw [put, if_neg (by simp; omega), Function.update_of_ne hk]

/-- Writing on where the last write has ended. -/
theorem put_put (str : Chars) (j : Nat) (s t : List Byte) :
    Chars.put (str.put j s) (j + s.length) t = str.put j (s ++ t) := by
  funext k
  simp only [put, List.length_append]
  by_cases hs : k < j + s.length
  · by_cases hj : j ≤ k
    · rw [if_neg (by omega), if_pos (by omega), if_pos (by omega),
        List.getD_append _ _ _ _ (by omega)]
    · rw [if_neg (by omega), if_neg (by omega), if_neg (by omega)]
  · by_cases ht : k < j + s.length + t.length
    · rw [if_pos (by omega), if_pos (by omega), List.getD_append_right _ _ _ _ (by omega)]
      congr 1
      omega
    · rw [if_neg (by omega), if_neg (by omega), if_neg (by omega)]

theorem put_update (str : Chars) (j : Nat) (c : Byte) (s : List Byte) :
    Chars.put (Function.update str j c) (j + 1) s = str.put j (c :: s) := by
  rw [← put_singleton]
  exact put_put str j [c] s

theorem update_put (str : Chars) (j : Nat) (s : List Byte) (c : Byte) :
    Function.update (str.put j s) (j + s.length) c = str.put j (s ++ [c]) := by
  rw [← put_singleton, put_put]

theorem put_of_lt (hk : k < s.length) : str.put 0 s k = s.getD k 0 := by
  rw [put, if_pos (by omega), Nat.sub_zero]

theorem put_of_le (hk : s.length ≤ k) : str.put 0 s k = str k := by
  rw [put, if_neg (by omega)]

/-! ## Strings -/

/-- The string at `str` is `s`. -/
structure Holds (str : Chars) (s : List Byte) : Prop where
  chars : ∀ k < s.length, str k = s.getD k 0
  nul : str s.length = 0
  no_nul : 0 ∉ s

theorem holds_put (str : Chars) (hs : 0 ∉ s) : Holds (str.put 0 (s ++ [0])) s where
  chars k hk := by
    rw [put_of_lt (by simp; omega), List.getD_append _ _ _ _ hk]
  nul := by
    rw [put_of_lt (by simp), List.getD_append_right _ _ _ _ (Nat.le_refl _), Nat.sub_self]
    rfl
  no_nul := hs

/-- A string of its own. -/
theorem holds_list (hs : 0 ∉ s) : Holds (fun k => s.getD k 0) s where
  chars _ _ := rfl
  nul := by simp
  no_nul := hs

theorem Holds.ne_zero (h : str.Holds s) (hk : k < s.length) : str k ≠ 0 := by
  rw [h.chars k hk, List.getD_eq_getElem _ _ hk]
  intro heq
  exact h.no_nul (heq ▸ List.getElem_mem hk)

theorem strlenFrom_eq (h : str.Holds s) {fuel i : Nat} (hi : i ≤ s.length)
    (hfuel : s.length < i + fuel) : str.strlenFrom fuel i = s.length := by
  induction fuel generalizing i with
  | zero => omega
  | succ fuel ih =>
    rw [strlenFrom]
    rcases Nat.eq_or_lt_of_le hi with rfl | hlt
    · rw [if_neg (not_not.mpr h.nul)]
    · rw [if_pos (h.ne_zero hlt)]
      exact ih hlt (by omega)

/-- `strlen` is the length of the string. -/
theorem Holds.strlen_eq (h : str.Holds s) (hs : s.length < 2 ^ 32) : str.strlen = s.length :=
  strlenFrom_eq h (Nat.zero_le _) (by omega)

/-- `strcpy` of bytes that stand at `src`. -/
theorem strcpy_eq {src : Chars} (h : ∀ k < s.length, src k = s.getD k 0) :
    str.strcpy src j s.length = str.put j s := by
  funext k
  unfold strcpy put
  split_ifs with hk
  · exact h _ (by omega)
  · rfl

/-! ## `reverse` -/

theorem swap_apply (hjk : j ≠ k) (x : Nat) :
    str.swap j k x = if x = j then str k else if x = k then str j else str x := by
  unfold swap
  by_cases hk : x = k
  · rw [hk, Function.update_self, if_neg (Ne.symm hjk), if_pos rfl]
  · rw [Function.update_of_ne hk]
    by_cases hj : x = j
    · rw [hj, Function.update_self, if_pos rfl]
    · rw [Function.update_of_ne hj, if_neg hj, if_neg hk]

/-- The loop of `reverse` mirrors the characters from `i` to `j`. -/
theorem reverseFrom_apply {fuel i : Nat} (hfuel : j ≤ i + fuel) (x : Nat) :
    str.reverseFrom fuel i j x = if i ≤ x ∧ x ≤ j then str (i + j - x) else str x := by
  induction fuel generalizing str i j with
  | zero =>
    rw [reverseFrom]
    split_ifs with hx
    · congr 1
      omega
    · rfl
  | succ fuel ih =>
    rw [reverseFrom]
    split_ifs with hij hx hx
    · rw [ih (by omega)]
      split_ifs with hin
      · rw [swap_apply (by omega), if_neg (by omega), if_neg (by omega)]
        congr 1
        omega
      · rw [swap_apply (by omega)]
        split_ifs with hi hj
        · congr 1
          omega
        · congr 1
          omega
        · omega
    · rw [ih (by omega), if_neg (by omega), swap_apply (by omega), if_neg (by omega),
        if_neg (by omega)]
    · congr 1
      omega
    · rfl

theorem reverse_put (hs : s ≠ []) :
    Chars.reverse (str.put 0 (s ++ t)) 0 (s.length - 1) = str.put 0 (s.reverse ++ t) := by
  have hpos : 0 < s.length := List.length_pos_iff.mpr hs
  funext k
  rw [reverse, reverseFrom_apply (by omega), Nat.zero_add]
  by_cases hk : k < s.length
  · rw [if_pos (by omega), put_of_lt (by simp; omega), put_of_lt (by simp; omega),
      List.getD_append _ _ _ _ (by omega), List.getD_append _ _ _ _ (by simpa using hk),
      List.getD_eq_getElem _ _ (by omega), List.getD_eq_getElem _ _ (by simpa using hk),
      List.getElem_reverse]
  · rw [if_neg (by omega), put, put]
    simp only [List.length_append, List.length_reverse]
    split_ifs
    · rw [List.getD_append_right _ _ _ _ (by omega),
        List.getD_append_right _ _ _ _ (by simp; omega), List.length_reverse]
    · rfl

end Chars

/-! ## `itoa` -/

variable {base i : Word} {str : Chars}

/-- The character that the loop writes for a remainder. -/
theorem setWidth_digit {r : Word} (hr : r.toNat < 32) :
    (if 10 ≤ r then 65 + r - 10 else 48 + r : Word).setWidth 8 = digitChar r.toNat := by
  apply BitVec.eq_of_toNat_eq
  rw [toNat_digitChar (by omega), BitVec.toNat_setWidth]
  have hle : 10 ≤ r ↔ 10 ≤ r.toNat := Iff.rfl
  split_ifs with h10 h10' h10'
  · bv_omega
  · exact absurd (hle.mp h10) h10'
  · exact absurd (hle.mpr h10') h10
  · bv_omega

/-- The digits of a number, the last one first. -/
def backwards (b n : Nat) : List Byte := (Nat.digits b n).map digitChar

theorem backwards_zero (b : Nat) : backwards b 0 = [] := by
  rw [backwards, Nat.digits_zero, List.map_nil]

theorem backwards_ne_nil {b n : Nat} (hn : n ≠ 0) : backwards b n ≠ [] := by
  simpa [backwards] using Nat.digits_ne_nil_iff_ne_zero.mpr hn

theorem reverse_backwards {b n : Nat} (hn : n ≠ 0) : (backwards b n).reverse = numeral b n := by
  rw [backwards, ← List.map_reverse, numeral, if_neg hn]

/-- The loop writes the digits, the last one first. -/
theorem itoaLoop_eq {fuel : Nat} (hb : 2 ≤ base.toNat) (hb' : base.toNat ≤ 32)
    (hi : i.toNat < base.toNat ^ fuel) (str : Chars) (j : Nat) :
    itoaLoop base fuel i str j =
      (str.put j (backwards base.toNat i.toNat),
        j + (backwards base.toNat i.toNat).length) := by
  induction fuel generalizing i str j with
  | zero =>
    rw [pow_zero, Nat.lt_one_iff] at hi
    rw [hi, backwards_zero, Chars.put_nil]
    rfl
  | succ fuel ih =>
    rw [itoaLoop]
    split_ifs with hne
    · have hpos : 0 < i.toNat := by bv_omega
      have hdiv : (i / base).toNat = i.toNat / base.toNat := BitVec.toNat_udiv
      have hmod : (i % base).toNat = i.toNat % base.toNat := BitVec.toNat_umod
      have hlt : i.toNat % base.toNat < base.toNat := Nat.mod_lt _ (by omega)
      have hfuel : (i / base).toNat < base.toNat ^ fuel := by
        rw [hdiv]
        apply Nat.div_lt_of_lt_mul
        rwa [← pow_succ']
      have hstep : backwards base.toNat i.toNat =
          digitChar (i.toNat % base.toNat) :: backwards base.toNat (i.toNat / base.toNat) := by
        rw [backwards, Nat.digits_def' (by omega) hpos, List.map_cons, backwards]
      simp only [setWidth_digit (show (i % base).toNat < 32 by omega), hmod]
      rw [ih hfuel, hdiv, Chars.put_update, ← hstep, hstep, List.length_cons, Nat.add_assoc,
        Nat.add_comm 1]
    · have hzero : i.toNat = 0 := by
        rw [not_not.mp hne]
        rfl
      rw [hzero, backwards_zero, Chars.put_nil]
      rfl

/-- What `itoa` writes. -/
def itoaText (i base : Word) : List Byte :=
  if base = 10 then signedNumeral 10 i.toInt else numeral base.toNat i.toNat

/-- The text of a number that is not shown with a minus sign. -/
theorem itoaText_of_not_negative (h : ¬ (i.toInt < 0 ∧ base = 10)) :
    itoaText i base = numeral base.toNat i.toNat := by
  unfold itoaText
  split_ifs with h10
  · have hnonneg : ¬ i.toInt < 0 := fun hneg => h ⟨hneg, h10⟩
    have habs : i.toInt.natAbs = i.toNat := by
      rw [BitVec.toInt_eq_toNat_cond] at hnonneg ⊢
      split_ifs at hnonneg ⊢ <;> omega
    rw [signedNumeral, if_neg hnonneg, habs, h10]
    rfl
  · rfl

theorem itoaText_of_negative (hi : i.toInt < 0) :
    itoaText i 10 = 45 :: numeral 10 (i * -1).toNat := by
  have habs : i.toInt.natAbs = (i * -1).toNat := by
    rw [mul_neg_one]
    rw [BitVec.toInt_eq_toNat_cond] at hi ⊢
    split_ifs at hi ⊢ <;> bv_omega
  rw [itoaText, if_pos rfl, signedNumeral, if_pos hi, habs]

/-- The end of `itoa`: the terminator, and `reverse`. -/
theorem reverse_update_put {s : List Byte} (hs : s ≠ []) (str : Chars) :
    Chars.reverse (Function.update (str.put 0 s) s.length 0) 0 (s.length - 1) =
      str.put 0 (s.reverse ++ [0]) := by
  have hupdate := Chars.update_put str 0 s 0
  rw [Nat.zero_add] at hupdate
  rw [hupdate, Chars.reverse_put hs]

theorem toNat_lt_pow {w b : Nat} (hb : 2 ≤ b) (n : BitVec w) : n.toNat < b ^ w :=
  Nat.lt_of_lt_of_le n.isLt (Nat.pow_le_pow_left hb w)

theorem itoa_of_negative (hb : 2 ≤ base.toNat) (hb' : base.toNat ≤ 32) (hi : i.toInt < 0)
    (h10 : base = 10) (str : Chars) : itoa i str base = str.put 0 (itoaText i base ++ [0]) := by
  have hvalid : ¬ (base < 2 ∨ 32 < base) := by bv_omega
  have hnegative : (i.slt 0 && decide (base = 10)) = true := by
    simp [hi, h10, BitVec.slt_iff_toInt_lt]
  have hne : (i * -1).toNat ≠ 0 := by
    have hne : i ≠ 0 := by
      rintro rfl
      exact absurd hi (by decide)
    rw [mul_neg_one]
    bv_omega
  have hloop := itoaLoop_eq hb hb' (toNat_lt_pow hb (i * -1)) str 0
  rw [Nat.zero_add] at hloop
  have hlen : (backwards base.toNat (i * -1).toNat).length ≠ 0 :=
    fun h => backwards_ne_nil hne (List.length_eq_zero_iff.mp h)
  have hminus := Chars.update_put str 0 (backwards base.toNat (i * -1).toNat) (ascii '-')
  rw [Nat.zero_add] at hminus
  have hbase : base.toNat = 10 := by
    rw [h10]
    rfl
  have hrev : (backwards base.toNat (i * -1).toNat ++ [ascii '-']).reverse = itoaText i base := by
    rw [List.reverse_append, reverse_backwards hne, hbase, h10, itoaText_of_negative hi,
      List.reverse_singleton, List.singleton_append]
    congr 1
  have hend := reverse_update_put (s := backwards base.toNat (i * -1).toNat ++ [ascii '-'])
    (List.append_ne_nil_of_right_ne_nil _ (List.cons_ne_nil _ _)) str
  rw [hrev, List.length_append, List.length_singleton] at hend
  simp only [itoa, if_neg hvalid, hnegative, if_true, hloop, if_neg hlen, hminus]
  exact hend

theorem itoa_of_not_negative (hb : 2 ≤ base.toNat) (hb' : base.toNat ≤ 32)
    (hneg : ¬ (i.toInt < 0 ∧ base = 10)) (str : Chars) :
    itoa i str base = str.put 0 (itoaText i base ++ [0]) := by
  have hvalid : ¬ (base < 2 ∨ 32 < base) := by bv_omega
  have hnegative : (i.slt 0 && decide (base = 10)) = false := by
    simpa [BitVec.slt_iff_toInt_lt] using hneg
  have hloop := itoaLoop_eq hb hb' (toNat_lt_pow hb i) str 0
  rw [Nat.zero_add] at hloop
  rw [itoaText_of_not_negative hneg]
  simp only [itoa, if_neg hvalid, hnegative, Bool.false_eq_true, if_false, hloop]
  by_cases hzero : i.toNat = 0
  · have hend := reverse_update_put (s := [ascii '0']) (List.cons_ne_nil _ _) str
    rw [Chars.put_singleton] at hend
    rw [hzero, backwards_zero, Chars.put_nil, List.length_nil, if_pos rfl, numeral, if_pos rfl]
    exact hend
  · have hlen : (backwards base.toNat i.toNat).length ≠ 0 :=
      fun h => backwards_ne_nil hzero (List.length_eq_zero_iff.mp h)
    rw [if_neg hlen, ← reverse_backwards hzero]
    exact reverse_update_put (backwards_ne_nil hzero) str

/-- `itoa` writes the numeral and a NUL. -/
theorem itoa_eq (hb : 2 ≤ base.toNat) (hb' : base.toNat ≤ 32) (i : Word) (str : Chars) :
    itoa i str base = str.put 0 (itoaText i base ++ [0]) := by
  by_cases hneg : i.toInt < 0 ∧ base = 10
  · exact itoa_of_negative hb hb' hneg.1 hneg.2 str
  · exact itoa_of_not_negative hb hb' hneg str

theorem nul_not_mem_itoaText (hb : 2 ≤ base.toNat) (hb' : base.toNat ≤ 32) :
    0 ∉ itoaText i base := by
  unfold itoaText signedNumeral
  split_ifs
  · intro h
    rcases List.mem_cons.mp h with h | h
    · cases h
    · exact nul_not_mem_numeral (by decide) (by decide) h
  · exact nul_not_mem_numeral (by decide) (by decide)
  · exact nul_not_mem_numeral hb (by omega)

/-- The string that `itoa` leaves. -/
theorem holds_itoa (hb : 2 ≤ base.toNat) (hb' : base.toNat ≤ 32) (i : Word) (str : Chars) :
    (itoa i str base).Holds (itoaText i base) := by
  rw [itoa_eq hb hb']
  exact Chars.holds_put str (nul_not_mem_itoaText hb hb')

/-- **`itoa` and back.** For every number and every base from 2 to 32, `itoa` leaves a string of
digits of the base without leading zeros, after a minus sign if the number is negative and the base
is 10. The string denotes the signed number in base 10 and the unsigned one in the others. -/
theorem itoa_round_trip (i base : Word) (str : Chars) (hb : 2 ≤ base.toNat)
    (hb' : base.toNat ≤ 32) :
    ∃ sign digits, (itoa i str base).Holds (sign ++ digits) ∧
      sign = (if i.toInt < 0 ∧ base = 10 then [ascii '-'] else []) ∧
      digits ≠ [] ∧ (∀ c ∈ digits, ∃ d < base.toNat, c = digitChar d) ∧
      (digits.head? = some (ascii '0') → digits = [ascii '0']) ∧
      signedValue base.toNat (sign ++ digits) =
        some (if base = 10 then i.toInt else (i.toNat : Int)) := by
  have hholds := holds_itoa hb hb' i str
  have hdigits (n : Nat) (c : Byte) (hc : c ∈ numeral base.toNat n) :
      ∃ d < base.toNat, c = digitChar d := exists_of_mem_numeral hb hc
  have hhead (n : Nat) : (numeral base.toNat n).head? = some (ascii '0') →
      numeral base.toNat n = [ascii '0'] := numeral_head hb (by omega)
  by_cases hneg : i.toInt < 0 ∧ base = 10
  · have hbase : base.toNat = 10 := by
      rw [hneg.2]
      rfl
    refine ⟨[ascii '-'], numeral base.toNat (i * -1).toNat, ?_, (if_pos hneg).symm,
      numeral_ne_nil _ _, hdigits _, hhead _, ?_⟩
    · rw [hneg.2, itoaText_of_negative hneg.1, ← hneg.2] at hholds
      rw [hbase]
      exact hholds
    · rw [if_pos hneg.2, hbase]
      have hvalue := signedValue_signedNumeral (b := 10) (by decide) (by decide) i.toInt
      have htext := itoaText_of_negative hneg.1
      rw [itoaText, if_pos rfl] at htext
      rwa [htext] at hvalue
  · refine ⟨[], numeral base.toNat i.toNat, ?_, (if_neg hneg).symm, numeral_ne_nil _ _,
      hdigits _, hhead _, ?_⟩
    · rwa [itoaText_of_not_negative hneg] at hholds
    · have htext := itoaText_of_not_negative hneg
      rw [List.nil_append, ← htext, itoaText]
      split_ifs with h10
      · rw [h10]
        exact signedValue_signedNumeral (by decide) (by decide) i.toInt
      · have hunsigned := signedValue_signedNumeral hb (by omega) (i.toNat : Int)
        rwa [signedNumeral, if_neg (by omega), Int.natAbs_natCast] at hunsigned

theorem itoa_round_trip_min : ∃ sign digits,
    (itoa 0x80000000 (fun _ => 0) 10).Holds (sign ++ digits) ∧ sign = [ascii '-'] ∧
      signedValue 10 (sign ++ digits) = some (-2147483648) := by
  obtain ⟨sign, digits, hholds, hsign, -, -, -, hvalue⟩ :=
    itoa_round_trip 0x80000000 10 (fun _ => 0) (by decide) (by decide)
  exact ⟨sign, digits, hholds, hsign, hvalue⟩

end Hjortron
