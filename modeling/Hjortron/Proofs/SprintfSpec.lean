import Hjortron.Proofs.ItoaSpec

/-!
# `sprintf`

A format is a list of pieces: ordinary characters and directives. `formatText` is what the code
makes of the pieces with the arguments as they are passed; `render` is what they are to become, from
the values that the arguments have.
-/

namespace Hjortron

/-! ## Formats -/

/-- A part of a format. -/
inductive Piece
  /-- An ordinary character. -/
  | char (c : Byte)
  /-- A percent sign and a character other than `l`. -/
  | directive (d : Byte)
  /-- A percent sign, `l` and the character after it, if there is one. -/
  | long (d : Option Byte)
  deriving DecidableEq, Repr

/-- The pieces of a format. A percent sign at the end is none. -/
def parseFormat : List Byte → List Piece
  | [] => []
  | c :: fmt =>
    if c ≠ ascii '%' then .char c :: parseFormat fmt
    else
      match fmt with
      | [] => []
      | d :: fmt =>
        if d ≠ ascii 'l' then .directive d :: parseFormat fmt
        else
          match fmt with
          | [] => [.long none]
          | e :: fmt => .long (some e) :: parseFormat fmt

/-- The text of a directive, and the arguments that are left. -/
def directiveText (d : Byte) (ap : List VaArg) : Option (List Byte × List VaArg) :=
  if d = ascii 'c' then (vaInt ap).map fun r => ([r.1.setWidth 8], r.2)
  else if d = ascii 's' then
    (vaString ap).map fun r => ((List.range r.1.strlen).map r.1, r.2)
  else if d = ascii 'd' then (vaInt ap).map fun r => (itoaText r.1 10, r.2)
  else if d = ascii 'x' then
    (vaInt ap).map fun r => ([ascii '0', ascii 'x'] ++ itoaText r.1 16, r.2)
  else some ([], ap)

/-- The text of a directive that starts with `%l`. -/
def longText (d : Byte) (ap : List VaArg) : Option (List Byte × List VaArg) :=
  if d = ascii 'd' then (vaLong ap).map fun r => (itoaText (r.1.setWidth 32) 10, r.2)
  else if d = ascii 'x' then
    (vaLong ap).map fun r => ([ascii '0', ascii 'x'] ++ itoaText (r.1.setWidth 32) 16, r.2)
  else some ([], ap)

/-- The text of a piece, and the arguments that are left. -/
def Piece.text : Piece → List VaArg → Option (List Byte × List VaArg)
  | .char c, ap => some ([c], ap)
  | .directive d, ap => directiveText d ap
  | .long none, ap => some ([], ap)
  | .long (some d), ap => longText d ap

/-- The text of all pieces. -/
def formatText : List Piece → List VaArg → Option (List Byte × List VaArg)
  | [], ap => some ([], ap)
  | p :: ps, ap =>
    (p.text ap).bind fun r => (formatText ps r.2).map fun u => (r.1 ++ u.1, u.2)

variable {stack str format : Chars} {fmt : List Byte} {i : Nat} {s : Sprintf} {c d : Byte}
  {ap : List VaArg}

theorem parseFormat_char (hc : c ≠ ascii '%') :
    parseFormat (c :: fmt) = .char c :: parseFormat fmt := by
  rw [parseFormat.eq_def]
  exact if_pos hc

theorem parseFormat_directive (hd : d ≠ ascii 'l') :
    parseFormat (ascii '%' :: d :: fmt) = .directive d :: parseFormat fmt := by
  rw [parseFormat.eq_def]
  exact (if_neg (not_not.mpr rfl)).trans (if_pos hd)

theorem parseFormat_long :
    parseFormat (ascii '%' :: ascii 'l' :: d :: fmt) = .long (some d) :: parseFormat fmt := by
  rw [parseFormat.eq_def]
  exact (if_neg (not_not.mpr rfl)).trans (if_neg (not_not.mpr rfl))

theorem parseFormat_plain (p : List Byte) (hp : ascii '%' ∉ p) :
    parseFormat (p ++ fmt) = p.map .char ++ parseFormat fmt := by
  induction p with
  | nil => rfl
  | cons c p ih =>
    rw [List.mem_cons, not_or] at hp
    rw [List.cons_append, parseFormat_char (Ne.symm hp.1), ih hp.2]
    rfl

theorem formatText_plain (p : List Byte) (ps : List Piece) (ap : List VaArg) :
    formatText (p.map .char ++ ps) ap = (formatText ps ap).map fun u => (p ++ u.1, u.2) := by
  induction p with
  | nil => simp
  | cons c p ih =>
    rw [List.map_cons, List.cons_append, formatText, Piece.text, Option.bind_some, ih]
    cases formatText ps ap <;> rfl

/-! ## Writing a piece -/

namespace Sprintf

/-- Appends a text. -/
def write (s : Sprintf) (t : List Byte) : Sprintf :=
  { s with str := s.str.put s.j t, j := s.j + t.length }

/-- Appends a text and goes on with the arguments that are left. -/
def writeText (s : Sprintf) (r : List Byte × List VaArg) : Sprintf := { s.write r.1 with ap := r.2 }

/-- Appends the text, if the arguments are those that it takes. -/
def run (s : Sprintf) (text : Option (List Byte × List VaArg)) : Option Sprintf :=
  text.map s.writeText

theorem write_nil (s : Sprintf) : s.write [] = s := by
  rw [write, Chars.put_nil]
  rfl

theorem write_write (s : Sprintf) (t u : List Byte) : (s.write t).write u = s.write (t ++ u) := by
  simp only [write, Chars.put_put, List.length_append, Nat.add_assoc]

theorem write_singleton (s : Sprintf) (c : Byte) :
    s.write [c] = { s with str := Function.update s.str s.j c, j := s.j + 1 } := by
  rw [write, Chars.put_singleton]
  rfl

theorem writeText_nil (s : Sprintf) : s.writeText ([], s.ap) = s := s.write_nil

theorem writeText_writeText (s : Sprintf) (r u : List Byte × List VaArg) :
    (s.writeText r).writeText u = s.writeText (r.1 ++ u.1, u.2) := by
  have hwrite := s.write_write r.1 u.1
  simp only [writeText, write] at hwrite ⊢
  rw [Sprintf.mk.injEq] at hwrite
  rw [hwrite.1, hwrite.2.1]

theorem run_plain (s : Sprintf) (p : List Byte) (ps : List Piece) :
    s.run (formatText (p.map .char ++ ps) s.ap) = (s.write p).run (formatText ps s.ap) := by
  rw [formatText_plain]
  cases formatText ps s.ap with
  | none => rfl
  | some r => exact congrArg some (s.writeText_writeText (p, s.ap) r).symm

/-- A piece and the pieces after it. -/
theorem run_cons (s : Sprintf) (p : Piece) (ps : List Piece) :
    s.run (formatText (p :: ps) s.ap) =
      (s.run (p.text s.ap)).bind fun t => t.run (formatText ps t.ap) := by
  rw [formatText]
  cases p.text s.ap with
  | none => rfl
  | some r =>
    show s.run ((formatText ps r.2).map _) = (s.writeText r).run (formatText ps r.2)
    cases formatText ps r.2 with
    | none => rfl
    | some u => exact congrArg some (s.writeText_writeText r u).symm

end Sprintf

theorem length_itoaText_lt {base : Word} (hb : 2 ≤ base.toNat) (i : Word) :
    (itoaText i base).length < 2 ^ 32 := by
  have hnumeral {b n : Nat} (hb : 2 ≤ b) (hn : n < 2 ^ 32) : (numeral b n).length ≤ 32 :=
    length_numeral_le hb (by decide) (Nat.lt_of_lt_of_le hn (Nat.pow_le_pow_left hb 32))
  unfold itoaText signedNumeral
  have hi := i.isLt
  have habs : i.toInt.natAbs < 2 ^ 32 := by
    rw [BitVec.toInt_eq_toNat_cond]
    split_ifs <;> omega
  split_ifs
  · have hlen := hnumeral (b := 10) (by decide) habs
    rw [List.length_cons]
    omega
  · have hlen := hnumeral (b := 10) (by decide) habs
    omega
  · have hlen := hnumeral hb hi
    omega

theorem strlen_itoa {base : Word} (hb : 2 ≤ base.toNat) (hb' : base.toNat ≤ 32) (i : Word)
    (str : Chars) : (itoa i str base).strlen = (itoaText i base).length :=
  (holds_itoa hb hb' i str).strlen_eq (length_itoaText_lt hb i)

theorem strcpy_itoa {base : Word} (hb : 2 ≤ base.toNat) (hb' : base.toNat ≤ 32) (arg : Word)
    (str buffer : Chars) (j : Nat) :
    str.strcpy (itoa arg buffer base) j (itoaText arg base).length =
      str.put j (itoaText arg base) :=
  Chars.strcpy_eq (holds_itoa hb hb' arg buffer).chars

theorem sprintfDecimal_eq (stack : Chars) (arg : Word) (s : Sprintf) :
    sprintfDecimal stack arg s = s.write (itoaText arg 10) := by
  have hb : 2 ≤ (10 : Word).toNat ∧ (10 : Word).toNat ≤ 32 := by decide
  simp only [sprintfDecimal, sprintfBuffer, strcpy_itoa hb.1 hb.2, strlen_itoa hb.1 hb.2,
    Sprintf.write]

theorem sprintfHex_eq (stack : Chars) (arg : Word) (s : Sprintf) :
    sprintfHex stack arg s = s.write ([ascii '0', ascii 'x'] ++ itoaText arg 16) := by
  have hprefix : s.str.strcpy (fun k => [ascii '0', ascii 'x'].getD k 0) s.j 2 =
      s.str.put s.j [ascii '0', ascii 'x'] := Chars.strcpy_eq fun _ _ => rfl
  have hput := Chars.put_put s.str s.j [ascii '0', ascii 'x'] (itoaText arg 16)
  have hb : 2 ≤ (16 : Word).toNat ∧ (16 : Word).toNat ≤ 32 := by decide
  have hlen : s.j + (itoaText arg 16).length + 2 =
      s.j + ([ascii '0', ascii 'x'] ++ itoaText arg 16).length := by
    rw [List.length_append, Nat.add_assoc, Nat.add_comm _ 2]
    rfl
  simp only [sprintfHex, sprintfBuffer, hprefix, strcpy_itoa hb.1 hb.2, strlen_itoa hb.1 hb.2,
    Sprintf.write, ← hput, hlen]
  rfl

/-! ## The loop -/

/-- The characters from `i` to the next percent sign have been copied, and the index is there. -/
def CopiesTo (fmt : List Byte) (i : Nat) (s : Sprintf) (result : Nat × Sprintf) : Prop :=
  ∃ p r, fmt.drop i = p ++ r ∧ ascii '%' ∉ p ∧ (r = [] ∨ ∃ r', r = ascii '%' :: r') ∧
    result = (i + p.length, s.write p)

section Loop

variable (hformat : format.Holds fmt)
include hformat

/-- The characters of a format from `i` on. -/
theorem drop_format (hi : i < fmt.length) : fmt.drop i = format i :: fmt.drop (i + 1) := by
  rw [List.drop_eq_getElem_cons hi, hformat.chars i hi, List.getD_eq_getElem _ _ hi]

omit hformat in
theorem copiesTo_self {r : List Byte} (hr : fmt.drop i = r)
    (hend : r = [] ∨ ∃ r', r = ascii '%' :: r') (s : Sprintf) : CopiesTo fmt i s (i, s) :=
  ⟨[], r, hr, List.not_mem_nil, hend, by rw [s.write_nil]; rfl⟩

/-- The characters before the next percent sign are copied. -/
theorem sprintfCopy_eq {fuel : Nat} (hi : i ≤ fmt.length) (hfuel : fmt.length ≤ i + fuel)
    (s : Sprintf) : CopiesTo fmt i s (sprintfCopy format fmt.length fuel i s) := by
  induction fuel generalizing i s with
  | zero => exact copiesTo_self (List.drop_eq_nil_iff.mpr hfuel) (.inl rfl) s
  | succ fuel ih =>
    rw [sprintfCopy]
    by_cases hlt : i < fmt.length
    · have hdrop := drop_format hformat hlt
      split_ifs with hcopy
      · rw [← Sprintf.write_singleton]
        obtain ⟨p, r, hp, hmem, hr, heq⟩ := ih hlt (by omega) (s.write [format i])
        refine ⟨format i :: p, r, by rw [hdrop, hp, List.cons_append], ?_, hr, ?_⟩
        · rw [List.mem_cons, not_or]
          exact ⟨Ne.symm hcopy.1, hmem⟩
        · rw [heq, Sprintf.write_write, List.singleton_append, List.length_cons,
            Nat.succ_add_eq_add_succ]
      · have hpercent : format i = ascii '%' := by
          by_contra hne
          exact hcopy ⟨hne, hlt⟩
        rw [hpercent] at hdrop
        exact copiesTo_self hdrop (.inr ⟨_, rfl⟩) s
    · rw [if_neg fun h => hlt h.2]
      exact copiesTo_self (List.drop_eq_nil_iff.mpr (by omega)) (.inl rfl) s

omit hformat

/-- `strcpy` of an argument writes its characters. -/
theorem strcpy_argument (str arg : Chars) (j : Nat) :
    str.strcpy arg j arg.strlen = str.put j ((List.range arg.strlen).map arg) := by
  have hchar : ∀ k < ((List.range arg.strlen).map arg).length,
      arg k = ((List.range arg.strlen).map arg).getD k 0 := by
    intro k hk
    rw [List.length_map, List.length_range] at hk
    simp [List.getD, hk]
  have hcopy : str.strcpy arg j ((List.range arg.strlen).map arg).length =
      str.put j ((List.range arg.strlen).map arg) := Chars.strcpy_eq hchar
  rwa [List.length_map, List.length_range] at hcopy

/-- After an `l` comes the size's own directive. -/
theorem sprintfDirective_l (stack : Chars) (len : Nat) (hl : format i = ascii 'l') (s : Sprintf) :
    sprintfDirective stack format len i s =
      if len ≤ i + 1 then some (i + 1, s)
      else (sprintfLong stack (format (i + 1)) s).bind fun s => some (i + 1, s) := by
  rw [sprintfDirective, hl]
  rfl

/-- A directive other than `%l` writes its text. -/
theorem sprintfDirective_eq (stack : Chars) (len : Nat) (hd : format i ≠ ascii 'l')
    (s : Sprintf) : sprintfDirective stack format len i s =
      (s.run (directiveText (format i) s.ap)).map (i, ·) := by
  unfold sprintfDirective directiveText
  split_ifs
  · cases hap : vaInt s.ap with
    | none => rfl
    | some r =>
      show some (i, _) = some (i, s.writeText _)
      rw [Sprintf.writeText, Sprintf.write_singleton]
  · cases hap : vaString s.ap with
    | none => rfl
    | some r =>
      show some (i, _) = some (i, s.writeText _)
      simp only [strcpy_argument, Sprintf.writeText, Sprintf.write, List.length_map,
        List.length_range]
  · cases hap : vaInt s.ap with
    | none => rfl
    | some r =>
      show some (i, _) = some (i, s.writeText _)
      rw [sprintfDecimal_eq]
      rfl
  · cases hap : vaInt s.ap with
    | none => rfl
    | some r =>
      show some (i, _) = some (i, s.writeText _)
      rw [sprintfHex_eq]
      rfl
  · exact congrArg (fun s => some (i, s)) s.writeText_nil.symm

theorem sprintfLong_eq (stack : Chars) (d : Byte) (s : Sprintf) :
    sprintfLong stack d s = s.run (longText d s.ap) := by
  unfold sprintfLong longText
  split_ifs
  · cases hap : vaLong s.ap with
    | none => rfl
    | some r =>
      show some _ = some (s.writeText _)
      rw [sprintfDecimal_eq]
      rfl
  · cases hap : vaLong s.ap with
    | none => rfl
    | some r =>
      show some _ = some (s.writeText _)
      rw [sprintfHex_eq]
      rfl
  · exact congrArg some s.writeText_nil.symm

/-- The loop is done at the end of the format. -/
theorem sprintfLoop_of_le {fuel len : Nat} (stack format : Chars) (hi : len ≤ i) (s : Sprintf) :
    sprintfLoop stack format len fuel i s = some s := by
  cases fuel with
  | zero => rfl
  | succ fuel => rw [sprintfLoop, if_neg (by omega)]

theorem run_parseFormat_nil (s : Sprintf) : s.run (formatText (parseFormat []) s.ap) = some s := by
  rw [parseFormat, formatText]
  exact congrArg some s.writeText_nil

include hformat

/-- The character after a percent sign, and the rest of the format. -/
theorem drop_percent {k : Nat} {r : List Byte} (hk : fmt.drop k = c :: d :: r) :
    k + 1 < fmt.length ∧ format (k + 1) = d ∧ fmt.drop (k + 2) = r := by
  have hlt : k < fmt.length := by
    by_contra hle
    rw [List.drop_eq_nil_iff.mpr (by omega)] at hk
    cases hk
  rw [drop_format hformat hlt] at hk
  have htail := (List.cons.inj hk).2
  have hlt' : k + 1 < fmt.length := by
    by_contra hle
    rw [List.drop_eq_nil_iff.mpr (by omega)] at htail
    cases htail
  rw [drop_format hformat hlt'] at htail
  exact ⟨hlt', (List.cons.inj htail).1, (List.cons.inj htail).2⟩

/-- The part of an iteration from a percent sign on, if the loop goes on as it should. -/
theorem sprintfLoop_percent {fuel k : Nat} {r : List Byte} (stack : Chars)
    (hloop : ∀ k s, fmt.length ≤ k + fuel → sprintfLoop stack format fmt.length fuel k s =
      s.run (formatText (parseFormat (fmt.drop k)) s.ap))
    (hk : fmt.drop k = ascii '%' :: r) (hfuel : fmt.length ≤ k + (fuel + 1)) (s : Sprintf) :
    (if fmt.length ≤ k + 1 then sprintfLoop stack format fmt.length fuel (k + 2) s
      else do
        let (i, s) ← sprintfDirective stack format fmt.length (k + 1) s
        sprintfLoop stack format fmt.length fuel (i + 1) s) =
      s.run (formatText (parseFormat (ascii '%' :: r)) s.ap) := by
  match r with
  | [] =>
    have hlen : fmt.length ≤ k + 1 := by
      have hlen := congrArg List.length hk
      rw [List.length_drop] at hlen
      simp only [List.length_cons, List.length_nil] at hlen
      omega
    rw [if_pos hlen, sprintfLoop_of_le stack format (by omega)]
    exact (run_parseFormat_nil s).symm
  | d :: t =>
    obtain ⟨hlt, hd, hdrop⟩ := drop_percent hformat hk
    have hrest (k : Nat) (t : List Byte) (r : Option Sprintf) (hk : fmt.length ≤ k + fuel)
        (hdrop : fmt.drop k = t) :
        (r.bind fun s => sprintfLoop stack format fmt.length fuel k s) =
          r.bind fun s => s.run (formatText (parseFormat t) s.ap) := by
      cases r with
      | none => rfl
      | some s =>
        rw [Option.bind_some, Option.bind_some, hloop k s hk, hdrop]
    rw [if_neg (by omega)]
    by_cases hl : d = ascii 'l'
    · subst hl
      rw [sprintfDirective_l stack fmt.length hd s]
      match t with
      | [] =>
        have hlen : fmt.length ≤ k + 2 := List.drop_eq_nil_iff.mp hdrop
        rw [if_pos hlen]
        show sprintfLoop stack format fmt.length fuel (k + 2 + 1) s = _
        rw [sprintfLoop_of_le stack format (by omega)]
        exact congrArg some s.writeText_nil.symm
      | e :: t =>
        obtain ⟨hlt', he, hdrop'⟩ := drop_percent hformat (k := k + 1)
          (by rw [drop_format hformat hlt, hdrop])
        rw [if_neg (by omega), parseFormat_long, Sprintf.run_cons, he, sprintfLong_eq]
        exact (Option.bind_assoc ..).trans (hrest (k + 2 + 1) t _ (by omega) hdrop')
    · rw [sprintfDirective_eq stack fmt.length (by rw [hd]; exact hl), hd,
        parseFormat_directive hl, Sprintf.run_cons]
      exact (Option.bind_map ..).trans (hrest (k + 1 + 1) t _ (by omega) hdrop)

/-- The loop writes the text of the pieces from `i` on. -/
theorem sprintfLoop_eq {fuel : Nat} (stack : Chars) (hfuel : fmt.length ≤ i + fuel)
    (s : Sprintf) : sprintfLoop stack format fmt.length fuel i s =
      s.run (formatText (parseFormat (fmt.drop i)) s.ap) := by
  have hend (i : Nat) (hi : fmt.length ≤ i) (s : Sprintf) :
      s.run (formatText (parseFormat (fmt.drop i)) s.ap) = some s := by
    rw [List.drop_eq_nil_iff.mpr hi]
    exact run_parseFormat_nil s
  induction fuel generalizing i s with
  | zero => exact (hend i hfuel s).symm
  | succ fuel ih =>
    by_cases hi : i < fmt.length
    · obtain ⟨p, r, hp, hmem, hr, hcopy⟩ :=
        sprintfCopy_eq hformat (Nat.le_of_lt hi) (by omega : fmt.length ≤ i + fmt.length) s
      rw [sprintfLoop, if_pos hi, hcopy, hp, parseFormat_plain p hmem, s.run_plain]
      have hdrop : fmt.drop (i + p.length) = r := by
        rw [← List.drop_drop, hp, List.drop_left]
      rcases hr with rfl | ⟨r', rfl⟩
      · have hlen : fmt.length ≤ i + p.length := List.drop_eq_nil_iff.mp hdrop
        show (if _ then _ else _) = _
        rw [if_pos (by omega), sprintfLoop_of_le stack format (by omega)]
        exact (run_parseFormat_nil (s.write p)).symm
      · exact sprintfLoop_percent hformat stack (fun k s hk => ih hk s) hdrop (by omega)
          (s.write p)
    · rw [sprintfLoop_of_le stack format (by omega), hend i (by omega)]

end Loop

/-- `sprintf_va` leaves the text of the format and a NUL. -/
theorem sprintfVa_eq (hformat : format.Holds fmt) (hlen : fmt.length < 2 ^ 32)
    (stack str : Chars) (ap : List VaArg) :
    sprintfVa stack str format ap =
      (formatText (parseFormat fmt) ap).map fun r => (str.put 0 (r.1 ++ [0]), r.2) := by
  have hloop : sprintfLoop stack format fmt.length fmt.length 0 ⟨str, 0, ap⟩ =
      (⟨str, 0, ap⟩ : Sprintf).run (formatText (parseFormat (fmt.drop 0)) ap) :=
    sprintfLoop_eq hformat stack (by omega) ⟨str, 0, ap⟩
  rw [sprintfVa, hformat.strlen_eq hlen, hloop, List.drop_zero]
  cases formatText (parseFormat fmt) ap with
  | none => rfl
  | some r =>
    have hnul := Chars.update_put str 0 r.1 0
    exact congrArg (fun str => some (str, r.2)) hnul

/-! ## What the text is to be -/

/-- The value of an argument. -/
inductive FormatArg
  | int (v : Word)
  | string (s : List Byte)
  deriving DecidableEq, Repr

/-- The type of an argument. -/
inductive ArgKind
  | int
  | string
  deriving DecidableEq, Repr

def FormatArg.kind : FormatArg → ArgKind
  | .int _ => .int
  | .string _ => .string

/-- The argument has the value when it is passed: a string is passed as its address. -/
inductive VaArg.Denotes : VaArg → FormatArg → Prop
  | int (v : Word) : Denotes (.int v) (.int v)
  | string (p : Chars) (s : List Byte) (hp : p.Holds s) (hs : s.length < 2 ^ 32) :
    Denotes (.string p) (.string s)

/-- The argument that a directive takes; an unknown one takes none. -/
def directiveKind (d : Byte) : Option ArgKind :=
  if d = ascii 'c' ∨ d = ascii 'd' ∨ d = ascii 'x' then some .int
  else if d = ascii 's' then some .string
  else none

/-- The arguments that a format takes. -/
def Piece.kind? : Piece → Option ArgKind
  | .directive d => directiveKind d
  | _ => none

/-- The text of a value for a directive. -/
def FormatArg.render (d : Byte) : FormatArg → List Byte
  | .int v =>
    if d = ascii 'c' then [v.setWidth 8]
    else if d = ascii 'd' then signedNumeral 10 v.toInt
    else [ascii '0', ascii 'x'] ++ numeral 16 v.toNat
  | .string s => s

/-- The text of the pieces with the values of the arguments, one for each known directive. -/
def render : List Piece → List FormatArg → List Byte
  | [], _ => []
  | .char c :: ps, args => c :: render ps args
  | .directive d :: ps, args =>
    if directiveKind d = none then render ps args
    else
      match args with
      | [] => render ps []
      | a :: args => a.render d ++ render ps args
  | .long _ :: ps, args => render ps args

theorem render_unknown {ps : List Piece} {args : List FormatArg} (hd : directiveKind d = none) :
    render (.directive d :: ps) args = render ps args := by
  rw [render.eq_def]
  exact if_pos hd

theorem render_known {ps : List Piece} {a : FormatArg} {args : List FormatArg}
    (hd : directiveKind d ≠ none) :
    render (.directive d :: ps) (a :: args) = a.render d ++ render ps args := by
  rw [render.eq_def]
  exact if_neg hd

/-- The characters of a string that is passed. -/
theorem map_range_strlen {p : Chars} {s : List Byte} (hp : p.Holds s) (hs : s.length < 2 ^ 32) :
    (List.range p.strlen).map p = s := by
  rw [hp.strlen_eq hs]
  apply List.ext_getElem
  · rw [List.length_map, List.length_range]
  · intro k _ hk
    rw [List.getElem_map, List.getElem_range, hp.chars k hk, List.getD_eq_getElem _ _ hk]

/-- The code gives an argument the text that its value is to have. -/
theorem directiveText_eq {a : VaArg} {arg : FormatArg} (ha : a.Denotes arg)
    (hd : directiveKind d = some arg.kind) (ap : List VaArg) :
    directiveText d (a :: ap) = some (arg.render d, ap) := by
  unfold directiveKind at hd
  unfold directiveText
  cases ha with
  | int v =>
    have hint : d = ascii 'c' ∨ d = ascii 'd' ∨ d = ascii 'x' := by
      split_ifs at hd with h h
      · exact h
      · cases hd
    rcases hint with rfl | rfl | rfl <;> rfl
  | string p s hp hs =>
    have hstring : d = ascii 's' := by
      split_ifs at hd with h h
      · cases hd
      · exact h
    subst hstring
    show some ((List.range p.strlen).map p, ap) = _
    rw [map_range_strlen hp hs]
    rfl

theorem directiveText_unknown (hd : directiveKind d = none) (ap : List VaArg) :
    directiveText d ap = some ([], ap) := by
  unfold directiveKind at hd
  split_ifs at hd with hint hstring
  have hne := not_or.mp hint
  have hne' := not_or.mp hne.2
  rw [directiveText, if_neg hne.1, if_neg hstring, if_neg hne'.1, if_neg hne'.2]

/-- The code gives a format the text that it is to have, and takes one argument for each known
directive. -/
theorem formatText_eq {ps : List Piece} {args : List FormatArg} {ap : List VaArg}
    (hlong : ∀ d, .long d ∉ ps) (hap : List.Forall₂ VaArg.Denotes ap args)
    (hkinds : args.map FormatArg.kind = ps.filterMap Piece.kind?) (rest : List VaArg) :
    formatText ps (ap ++ rest) = some (render ps args, rest) := by
  induction ps generalizing args ap with
  | nil =>
    obtain rfl := List.map_eq_nil_iff.mp hkinds
    cases hap
    rfl
  | cons p ps ih =>
    have hlong' (d : Option Byte) : .long d ∉ ps := fun h => hlong d (List.mem_cons_of_mem _ h)
    rw [formatText]
    match p with
    | .char c =>
      rw [Piece.text, Option.bind_some, ih hlong' hap hkinds]
      rfl
    | .long d => exact absurd (List.mem_cons_self ..) (hlong d)
    | .directive d =>
      rw [Piece.text]
      cases hd : directiveKind d with
      | none =>
        rw [List.filterMap_cons_none (show (Piece.directive d).kind? = none from hd)] at hkinds
        rw [directiveText_unknown hd, Option.bind_some, ih hlong' hap hkinds,
          render_unknown hd]
        rfl
      | some kind =>
        rw [List.filterMap_cons_some (show (Piece.directive d).kind? = some kind from hd)]
          at hkinds
        cases hap with
        | nil => cases hkinds
        | cons ha hap =>
          obtain ⟨rfl, hkinds'⟩ := List.cons.inj hkinds
          rw [List.cons_append, directiveText_eq ha hd, Option.bind_some, ih hlong' hap hkinds',
            render_known (by rw [hd]; exact Option.some_ne_none _)]
          rfl

/-- **`sprintf_va` renders its format.** For every format without a directive that starts with
`%l`, and arguments of the types that its directives take, `sprintf_va` leaves in `str` the rendered
format and a NUL, changes nothing beyond, and takes one argument for each known directive. -/
theorem sprintfVa_renders {args : List FormatArg} (hformat : format.Holds fmt)
    (hlen : fmt.length < 2 ^ 32) (hlong : ∀ d, .long d ∉ parseFormat fmt)
    (hap : List.Forall₂ VaArg.Denotes ap args)
    (hkinds : args.map FormatArg.kind = (parseFormat fmt).filterMap Piece.kind?)
    (stack str : Chars) (rest : List VaArg) :
    ∃ str', sprintfVa stack str format (ap ++ rest) = some (str', rest) ∧
      (∀ k < (render (parseFormat fmt) args).length,
        str' k = (render (parseFormat fmt) args).getD k 0) ∧
      str' (render (parseFormat fmt) args).length = 0 ∧
      ∀ k, (render (parseFormat fmt) args).length < k → str' k = str k := by
  refine ⟨str.put 0 (render (parseFormat fmt) args ++ [0]), ?_, fun k hk => ?_, ?_, fun k hk => ?_⟩
  · rw [sprintfVa_eq hformat hlen, formatText_eq hlong hap hkinds]
    rfl
  · rw [Chars.put_of_lt (by simp; omega), List.getD_append _ _ _ _ hk]
  · rw [Chars.put_of_lt (by simp), List.getD_append_right _ _ _ _ (Nat.le_refl _), Nat.sub_self]
    rfl
  · rw [Chars.put_of_le (by simpa using hk)]

/-- `sprintf(str, "%d=%x!", -1, 255)`. -/
theorem sprintfVa_renders_sample : ∃ str',
    sprintfVa (fun _ => 0) (fun _ => 1) (fun k => ("%d=%x!".toList.map ascii).getD k 0)
      [.int (-1), .int 255] = some (str', []) ∧
      (∀ k < 8, str' k = ("-1=0xFF!".toList.map ascii).getD k 0) ∧ str' 8 = 0 := by
  have hrender : render (parseFormat ("%d=%x!".toList.map ascii)) [.int (-1), .int 255] =
      "-1=0xFF!".toList.map ascii := by decide +kernel
  have hlong (d : Option Byte) : .long d ∉ parseFormat ("%d=%x!".toList.map ascii) := by
    have hparse : parseFormat ("%d=%x!".toList.map ascii) =
        [.directive (ascii 'd'), .char (ascii '='), .directive (ascii 'x'), .char (ascii '!')] := by
      decide +kernel
    rw [hparse]
    simp
  have hap : List.Forall₂ VaArg.Denotes [.int (-1), .int 255] [.int (-1), .int 255] :=
    .cons (.int _) (.cons (.int _) .nil)
  have hkinds : [FormatArg.int (-1), .int 255].map FormatArg.kind =
      (parseFormat ("%d=%x!".toList.map ascii)).filterMap Piece.kind? := by decide +kernel
  have hformat : Chars.Holds (fun k => ("%d=%x!".toList.map ascii).getD k 0)
      ("%d=%x!".toList.map ascii) := Chars.holds_list (by decide)
  have hlen : ("%d=%x!".toList.map ascii).length < 2 ^ 32 := by decide
  obtain ⟨str', hrun, hchars, hnul, -⟩ :=
    sprintfVa_renders hformat hlen hlong hap hkinds (fun _ => 0) (fun _ => 1) []
  rw [hrender] at hchars hnul
  exact ⟨str', hrun, hchars, hnul⟩

end Hjortron
