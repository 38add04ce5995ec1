import Hjortron.Display.Proofs.DisplaySpec
import Hjortron.Proofs.SprintfSpec

/-!
# The directives `%lx` and `%ld`

The argument of a `%l` directive has 64 bits, the number that `itoa` takes has 32. Both `sprintf_va`
and `printf` show the low half of the argument.
-/

namespace Hjortron

variable {stack str : Chars} {v : BitVec 64}

/-- The string that `sprintf_va` leaves in `str`. -/
def sprintfText (stack str : Chars) (fmt : List Byte) (ap : List VaArg) : Option (List Byte) :=
  (sprintfVa stack str (fun k => fmt.getD k 0) ap).map fun r => (List.range r.1.strlen).map r.1

/-- The characters that `printf` puts on the display. -/
def printfText (stack : Chars) (fmt : List Byte) (ap : List VaArg) : Option (List Byte) :=
  (printfPut stack (fun k => fmt.getD k 0) ap).map (List.map Prod.fst)

/-- `"%lx"`. -/
def formatLx : List Byte := [ascii '%', ascii 'l', ascii 'x']

/-- `"%ld"`. -/
def formatLd : List Byte := [ascii '%', ascii 'l', ascii 'd']

/-- Without the prefix and leading zeros, the text is the hexadecimal numeral of `v`. -/
def ShowsHex (v : BitVec 64) (text : Option (List Byte)) : Prop :=
  ∃ t, text = some ([ascii '0', ascii 'x'] ++ t) ∧ trimZeros t = numeral 16 v.toNat

/-- The text denotes `v` as a signed decimal. -/
def ShowsSigned (v : BitVec 64) (text : Option (List Byte)) : Prop :=
  ∃ t, text = some t ∧ signedValue 10 t = some v.toInt

/-! ## Texts -/

theorem putsf_eq {s : List Byte} (h : str.Holds s) (hs : s.length < 2 ^ 32)
    (attr : TextAttribute) : (putsf str attr).map Prod.fst = s := by
  rw [putsf, List.map_map, ← map_range_strlen h hs]
  rfl

theorem putsf_itoa (i base : Word) (stack : Chars) (attr : TextAttribute)
    (hb : 2 ≤ base.toNat) (hb' : base.toNat ≤ 32) :
    (putsf (itoa i stack base) attr).map Prod.fst = itoaText i base :=
  putsf_eq (holds_itoa hb hb' i stack) (length_itoaText_lt hb i) attr

theorem putHex_eq (count : Word) : (putHex count).map Prod.fst =
    [ascii '0', ascii 'x'] ++ List.replicate count.toNat (ascii '0') := by
  rw [putHex, List.map_append, List.map_replicate, puts, putsf_eq (Chars.holds_list (by decide))
    (by decide)]

theorem printfHex_eq (stack : Chars) (digits arg : Word) (attr : TextAttribute) :
    ∃ k, (printfHex stack digits arg attr).map Prod.fst =
      [ascii '0', ascii 'x'] ++ (List.replicate k (ascii '0') ++ numeral 16 arg.toNat) := by
  refine ⟨(digits - BitVec.ofNat 32 (itoa arg stack 16).strlen).toNat, ?_⟩
  rw [printfHex, List.map_append, putHex_eq, putsf_itoa _ _ _ _ (by decide) (by decide),
    List.append_assoc]
  rfl

theorem printfText_lx (stack : Chars) (v : BitVec 64) :
    printfText stack formatLx [.long v] =
      some ((printfHex stack 16 (v.setWidth 32) defaultAttribute).map Prod.fst) := by
  have hlen : Chars.strlen (fun k => formatLx.getD k 0) = 3 :=
    (Chars.holds_list (by decide)).strlen_eq (by decide)
  rw [printfText, printfPut, hlen]
  show some (List.map Prod.fst (printfHex stack 16 (v.setWidth 32) defaultAttribute ++ [])) = _
  rw [List.append_nil]

theorem printfText_ld (stack : Chars) (v : BitVec 64) :
    printfText stack formatLd [.long v] = some (itoaText (v.setWidth 32) 10) := by
  have hlen : Chars.strlen (fun k => formatLd.getD k 0) = 3 :=
    (Chars.holds_list (by decide)).strlen_eq (by decide)
  rw [printfText, printfPut, hlen]
  show some (List.map Prod.fst (printfDecimal stack (v.setWidth 32) defaultAttribute ++ [])) = _
  rw [List.append_nil, printfDecimal, putsf_itoa _ _ _ _ (by decide) (by decide)]

theorem sprintfText_eq {fmt t : List Byte} {ap rest : List VaArg} (hfmt : 0 ∉ fmt)
    (hlen : fmt.length < 2 ^ 32) (ht : 0 ∉ t) (ht' : t.length < 2 ^ 32)
    (htext : formatText (parseFormat fmt) ap = some (t, rest)) (stack str : Chars) :
    sprintfText stack str fmt ap = some t := by
  rw [sprintfText, sprintfVa_eq (Chars.holds_list hfmt) hlen, htext]
  exact congrArg some (map_range_strlen (Chars.holds_put str ht) ht')

theorem formatText_long {d : Byte} {t : List Byte} (h : longText d [.long v] = some (t, [])) :
    formatText (parseFormat [ascii '%', ascii 'l', d]) [.long v] = some (t, []) := by
  rw [parseFormat_long, parseFormat, formatText, Piece.text, h, Option.bind_some, formatText,
    Option.map_some, List.append_nil]

theorem sprintfText_lx (stack str : Chars) (v : BitVec 64) :
    sprintfText stack str formatLx [.long v] =
      some ([ascii '0', ascii 'x'] ++ numeral 16 (v.setWidth 32).toNat) := by
  have hnul : 0 ∉ [ascii '0', ascii 'x'] ++ numeral 16 (v.setWidth 32).toNat := by
    rw [List.mem_append, not_or]
    exact ⟨by decide, nul_not_mem_numeral (by decide) (by decide)⟩
  have hlen : (numeral 16 (v.setWidth 32).toNat).length ≤ 8 :=
    length_numeral_le (by decide) (by decide) (v.setWidth 32).isLt
  refine sprintfText_eq (by decide) (by decide) hnul ?_ (formatText_long rfl) stack str
  rw [List.length_append]
  show 2 + _ < _
  omega

theorem sprintfText_ld (stack str : Chars) (v : BitVec 64) :
    sprintfText stack str formatLd [.long v] = some (itoaText (v.setWidth 32) 10) :=
  sprintfText_eq (by decide) (by decide) (nul_not_mem_itoaText (by decide) (by decide))
    (length_itoaText_lt (by decide) _) (formatText_long rfl) stack str

/-! ## When the texts are right -/

/-- A padded numeral of the low half. -/
theorem showsHex_iff (k : Nat) : ShowsHex v (some ([ascii '0', ascii 'x'] ++
      (List.replicate k (ascii '0') ++ numeral 16 (v.setWidth 32).toNat))) ↔
    v.toNat < 2 ^ 32 := by
  have htrim : trimZeros (List.replicate k (ascii '0') ++ numeral 16 (v.setWidth 32).toNat) =
      numeral 16 (v.setWidth 32).toNat := trimZeros_padded (by decide) (by decide) k
  constructor
  · intro ⟨t, ht, hvalue⟩
    rw [List.append_cancel_left (Option.some.inj ht)] at htrim
    have heq := numeral_injective (by decide) (by decide) (htrim.symm.trans hvalue)
    rw [BitVec.toNat_setWidth] at heq
    omega
  · intro hv
    refine ⟨_, rfl, ?_⟩
    rw [htrim, BitVec.toNat_setWidth, Nat.mod_eq_of_lt hv]

theorem showsSigned_iff : ShowsSigned v (some (itoaText (v.setWidth 32) 10)) ↔
    -2 ^ 31 ≤ v.toInt ∧ v.toInt < 2 ^ 31 := by
  have hvalue : signedValue 10 (itoaText (v.setWidth 32) 10) = some (v.setWidth 32).toInt :=
    signedValue_signedNumeral (by decide) (by decide) _
  have hlow : (v.setWidth 32).toInt = v.toInt ↔ -2 ^ 31 ≤ v.toInt ∧ v.toInt < 2 ^ 31 := by
    rw [BitVec.toInt_eq_toNat_cond, BitVec.toInt_eq_toNat_cond, BitVec.toNat_setWidth]
    split_ifs <;> omega
  rw [← hlow]
  constructor
  · intro ⟨t, ht, hsigned⟩
    rw [← Option.some.inj ht, hvalue] at hsigned
    exact Option.some.inj hsigned
  · intro heq
    exact ⟨_, rfl, hvalue.trans (congrArg some heq)⟩

/-- **The directives for 64-bit values.** The texts of `sprintf_va` and `printf` for `%lx` are the
hexadecimal numeral of the argument exactly if it is below `2 ^ 32`, and those for `%ld` denote the
argument exactly if it is a signed 32-bit value. -/
theorem long_directives_iff (stack str : Chars) (v : BitVec 64) :
    (ShowsHex v (sprintfText stack str formatLx [.long v]) ∧
        ShowsHex v (printfText stack formatLx [.long v]) ↔ v.toNat < 2 ^ 32) ∧
      (ShowsSigned v (sprintfText stack str formatLd [.long v]) ∧
        ShowsSigned v (printfText stack formatLd [.long v]) ↔
          -2 ^ 31 ≤ v.toInt ∧ v.toInt < 2 ^ 31) := by
  constructor
  · obtain ⟨k, hprintf⟩ := printfHex_eq stack 16 (v.setWidth 32) defaultAttribute
    rw [sprintfText_lx, printfText_lx, hprintf, showsHex_iff]
    exact ⟨fun h => h.2, fun h => ⟨(showsHex_iff 0).mpr h, h⟩⟩
  · rw [sprintfText_ld, printfText_ld, showsSigned_iff, and_self]

/-- `0x100000000` is printed like 0. -/
theorem long_hex_collides : (2 ^ 32 : BitVec 64) ≠ 0 ∧
    sprintfText (fun _ => 0) (fun _ => 0) formatLx [.long (2 ^ 32)] =
      sprintfText (fun _ => 0) (fun _ => 0) formatLx [.long 0] ∧
    ¬ ShowsHex (2 ^ 32) (sprintfText (fun _ => 0) (fun _ => 0) formatLx [.long (2 ^ 32)]) ∧
    ¬ ShowsHex (2 ^ 32) (printfText (fun _ => 0) formatLx [.long (2 ^ 32)]) := by
  refine ⟨by decide, ?_, ?_, ?_⟩
  · rw [sprintfText_lx, sprintfText_lx]
    rfl
  · rw [sprintfText_lx]
    exact fun h => absurd ((showsHex_iff 0).mp h) (by decide)
  · obtain ⟨k, hprintf⟩ := printfHex_eq (fun _ => 0) 16 ((2 ^ 32 : BitVec 64).setWidth 32)
      defaultAttribute
    rw [printfText_lx, hprintf]
    exact fun h => absurd ((showsHex_iff k).mp h) (by decide)

end Hjortron
