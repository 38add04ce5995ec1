import Hjortron.Debug
import Hjortron.Drivers.Proofs.CmosSpec
import Hjortron.Misc.Run
import Hjortron.Proofs.SprintfSpec

/-!
# Lines of the log

`serial_putc` writes to an empty transmitter only, so that the UART puts on the line what it is
given, byte by byte. A call of `dprintf` gives it the time, where the message comes from and the
message. It checks no bound: it stays inside its buffer exactly if the two texts that it formats
there fit into it.
-/

namespace Hjortron

/-! ## The serial line -/

section

variable {d : Uart} {port : Half} {str : Chars} {s : List Byte} {c : Byte} {fuel : Nat}

theorem serialReady_idle (hport : port = d.base) (h : d.busy = 0) :
    serialReady port d = (true, d) := by
  unfold serialReady Uart.inb
  simp only [hport, add_sub_cancel_left, if_true, if_pos h]
  rfl

theorem serialReady_busy (hport : port = d.base) (h : d.busy ≠ 0) :
    serialReady port d = (false, { d with busy := d.busy - 1 }) := by
  unfold serialReady Uart.inb
  simp only [hport, add_sub_cancel_left, if_true, if_neg h]
  rfl

/-- A character for an empty transmitter goes on the line. -/
theorem outb_idle (hport : port = d.base) (hlatch : d.latched = false) (h : d.busy = 0) :
    d.outb port c = d.after [c] := by
  unfold Uart.outb Uart.transmit Uart.after
  simp [hport, hlatch, h]

/-- `serial_putc` waits for the transmitter and puts the character on the line. -/
theorem serialPutc_eq (hport : port = d.base) (hlatch : d.latched = false) (hfuel : d.busy < fuel) :
    serialPutc port c fuel d = some (d.after [c]) := by
  induction fuel generalizing d with
  | zero => exact absurd hfuel (Nat.not_lt_zero _)
  | succ fuel ih =>
    rw [serialPutc]
    by_cases hidle : d.busy = 0
    · rw [serialReady_idle hport hidle, ← outb_idle hport hlatch hidle]
      rfl
    · have hwait : serialPutc port c fuel { d with busy := d.busy - 1 } =
          some (Uart.after { d with busy := d.busy - 1 } [c]) := by
        apply ih (d := { d with busy := d.busy - 1 }) hport hlatch
        change d.busy - 1 < fuel
        omega
      rw [serialReady_busy hport hidle]
      exact hwait

/-- `serial_puts` puts the string on the line. -/
theorem serialPuts_eq (hport : port = d.base) (hlatch : d.latched = false) (hstr : str.Holds s)
    (hlen : s.length < 2 ^ 32) (hfuel : d.Within fuel s.length) :
    serialPuts fuel port str d = some (d.after s) := by
  have hloop : (List.range s.length).foldlM (fun d i => serialPutc port (str i) fuel d)
      (d.after (s.take 0)) = some (d.after (s.take s.length)) := by
    apply foldlM_range (S := fun i => d.after (s.take i))
    intro i hi
    have htake : (s.take i).length = i := List.length_take_of_le (by omega)
    have hwithin : (d.after (s.take i)).Within fuel (s.drop i).length := by
      apply Uart.Within.after
      rwa [← List.length_append, List.take_append_drop]
    rw [serialPutc_eq (d := d.after (s.take i)) hport hlatch hwithin.1, Uart.after_append,
      hstr.chars i hi,
      List.take_succ_eq_append_getElem hi, List.getD_eq_getElem _ _ hi]
  rw [List.take_zero, Uart.after_nil, List.take_length] at hloop
  rw [serialPuts, hstr.strlen_eq hlen]
  exact hloop

/-- A port that no byte is transmitted through. -/
theorem outb_quiet {d : Uart} {port : Half} (h : d.latched = true ∨ port ≠ d.base) :
    (d.outb port c).sent = d.sent ∧ (d.outb port c).lost = d.lost ∧
      (d.outb port c).base = d.base := by
  unfold Uart.outb
  by_cases hdata : port - d.base = 0
  · have hlatch : d.latched = true := by
      rcases h with hlatch | hne
      · exact hlatch
      · exact absurd (by bv_omega) hne
    simp only [if_pos hdata, hlatch, if_true, and_self]
  · simp only [if_neg hdata]
    split_ifs <;> exact ⟨rfl, rfl, rfl⟩

/-- The line control keeps its value but where it is written. -/
theorem outb_lineControl {d : Uart} {port : Half} :
    (d.outb port c).lineControl = if port - d.base = 3 then c else d.lineControl := by
  unfold Uart.outb Uart.transmit
  by_cases hcontrol : port - d.base = 3
  · simp only [hcontrol]
    rfl
  · simp only [if_neg hcontrol]
    split_ifs <;> rfl

/-- `serial_init` transmits nothing and leaves the data port to the transmitter. -/
theorem serialInit_eq (d : Uart) :
    (serialInit d.base d).sent = d.sent ∧ (serialInit d.base d).lost = d.lost ∧
      (serialInit d.base d).base = d.base ∧ (serialInit d.base d).latched = false := by
  have hone : d.base + 1 ≠ d.base := by bv_omega
  have hthree : d.base + 3 ≠ d.base := by bv_omega
  have hoffset : d.base + 3 - d.base = 3 := by bv_omega
  have hzero : d.base + 0 - d.base ≠ 3 := by bv_omega
  have hnext : d.base + 1 - d.base ≠ 3 := by bv_omega
  let d1 := d.outb (d.base + 1) 0x00
  let d2 := d1.outb (d.base + 3) 0x80
  let d3 := d2.outb (d.base + 0) 0x03
  let d4 := d3.outb (d.base + 1) 0x00
  have h1 : d1.sent = d.sent ∧ d1.lost = d.lost ∧ d1.base = d.base := outb_quiet (.inr hone)
  have h2 : d2.sent = d1.sent ∧ d2.lost = d1.lost ∧ d2.base = d1.base :=
    outb_quiet (.inr (by rw [h1.2.2]; exact hthree))
  have hlatch : d2.latched = true := by
    have hcontrol : d2.lineControl = 0x80 := by
      rw [outb_lineControl, h1.2.2, if_pos hoffset]
    unfold Uart.latched
    rw [hcontrol]
    rfl
  have h3 : d3.sent = d2.sent ∧ d3.lost = d2.lost ∧ d3.base = d2.base :=
    outb_quiet (.inl hlatch)
  have hbase : d3.base = d.base := by rw [h3.2.2, h2.2.2, h1.2.2]
  have h4 : d4.sent = d3.sent ∧ d4.lost = d3.lost ∧ d4.base = d3.base :=
    outb_quiet (.inr (by rw [hbase]; exact hone))
  have hbase4 : d4.base = d.base := by rw [h4.2.2, hbase]
  have h5 : (d4.outb (d.base + 3) serialDataBits8).sent = d4.sent ∧
      (d4.outb (d.base + 3) serialDataBits8).lost = d4.lost ∧
      (d4.outb (d.base + 3) serialDataBits8).base = d4.base :=
    outb_quiet (.inr (by rw [hbase4]; exact hthree))
  refine ⟨?_, ?_, ?_, ?_⟩
  · exact h5.1.trans (by rw [h4.1, h3.1, h2.1, h1.1])
  · exact h5.2.1.trans (by rw [h4.2.1, h3.2.1, h2.2.1, h1.2.1])
  · exact h5.2.2.trans hbase4
  · change (d4.outb (d.base + 3) serialDataBits8).latched = false
    unfold Uart.latched
    rw [outb_lineControl, hbase4, if_pos hoffset]
    rfl

end

/-! ## Texts -/

section

variable {str : Chars} {s fmt text : List Byte} {ap rest : List VaArg} {d : Uart} {fuel : Nat}
  {stack buffer format : Chars}

theorem exists_nul (s : List Byte) : ∃ z, s ++ [0] = cstr s ++ 0 :: z := by
  induction s with
  | nil => exact ⟨[], rfl⟩
  | cons c s ih =>
    rcases ih with ⟨z, hz⟩
    by_cases hc : c = 0
    · exact ⟨s ++ [0], by simp [cstr, hc]⟩
    · refine ⟨z, ?_⟩
      rw [cstr, List.takeWhile_cons, if_pos (by simpa using hc)]
      exact congrArg (c :: ·) hz

theorem nul_not_mem_cstr (s : List Byte) : 0 ∉ cstr s := by
  intro h
  have hne := List.mem_takeWhile_imp h
  simp at hne

/-- A text and a NUL hold what comes before the first NUL of the text. -/
theorem holds_cstr (str : Chars) (s : List Byte) : (str.put 0 (s ++ [0])).Holds (cstr s) := by
  rcases exists_nul s with ⟨z, hz⟩
  rw [hz]
  refine ⟨?_, ?_, nul_not_mem_cstr s⟩
  · intro k hk
    rw [Chars.put_of_lt (by simp; omega), List.getD_append _ _ _ _ hk]
  · rw [Chars.put_of_lt (by simp), List.getD_append_right _ _ _ _ (Nat.le_refl _), Nat.sub_self]
    rfl

theorem length_cstr_le (s : List Byte) : (cstr s).length ≤ s.length :=
  (List.takeWhile_prefix _).length_le

theorem holds_literal (s : String) (h : 0 ∉ s.toList.map ascii) :
    (literal s).Holds (s.toList.map ascii) :=
  Chars.holds_list h

/-- `sprintf` and `dputs` put the text on the line and leave it in the buffer. -/
theorem dputsFormatted_eq (hport : serialCom1 = d.base) (hlatch : d.latched = false)
    (hformat : format.Holds fmt) (hfmt : fmt.length < 2 ^ 32)
    (htext : formatText (parseFormat fmt) ap = some (text, rest)) (hlen : text.length < 2 ^ 32)
    (hfuel : d.Within fuel (cstr text).length) :
    dputsFormatted stack fuel format ap (buffer, d) =
      some (buffer.put 0 (text ++ [0]), d.after (cstr text)) := by
  have hle := length_cstr_le text
  have hsprintf : sprintfVa stack buffer format ap = some (buffer.put 0 (text ++ [0]), rest) := by
    rw [sprintfVa_eq hformat hfmt, htext]
    rfl
  have hputs : dputs fuel (buffer.put 0 (text ++ [0])) d = some (d.after (cstr text)) :=
    serialPuts_eq hport hlatch (holds_cstr buffer text) (by omega) hfuel
  simp only [dputsFormatted, hsprintf, hputs, Option.bind_eq_bind, Option.bind_some, pure]

/-- The digits of a number of the time. -/
def twoDigits (value : Byte) : List Byte :=
  (if value < 10 then [ascii '0'] else []) ++ numeral 10 value.toNat

theorem signedNumeral_byte (value : Byte) :
    signedNumeral 10 (value.setWidth 32 : Word).toInt = numeral 10 value.toNat := by
  have hlt := value.isLt
  have hint : (value.setWidth 32 : Word).toInt = (value.toNat : Int) := by
    rw [BitVec.toInt_eq_toNat_cond]
    split_ifs
    · rw [BitVec.toNat_setWidth_of_le (by decide)]
    · bv_omega
  rw [hint, signedNumeral, if_neg (by omega), Int.natAbs_natCast]

theorem itoaText_byte (value : Byte) :
    itoaText (value.setWidth 32) 10 = numeral 10 value.toNat := by
  rw [itoaText, if_pos rfl, signedNumeral_byte]

/-- The text of a number and the character after it. -/
theorem formatText_number {sep : Byte} (hsep : sep ≠ ascii '%') (v : Word) :
    formatText (parseFormat [ascii '%', ascii 'd', sep]) [.int v] =
      some (itoaText v 10 ++ [sep], []) := by
  rw [parseFormat_directive (by decide), parseFormat_char hsep]
  rfl

theorem nul_not_mem_twoDigits (value : Byte) : 0 ∉ twoDigits value := by
  have hnumeral : 0 ∉ numeral 10 value.toNat := nul_not_mem_numeral (by decide) (by decide)
  unfold twoDigits
  split_ifs
  · intro h
    rcases List.mem_cons.mp h with h | h
    · cases h
    · exact hnumeral h
  · exact hnumeral

theorem length_twoDigits_lt (value : Byte) : (twoDigits value).length < 10 := by
  have hlen : (numeral 10 value.toNat).length ≤ 8 := by
    apply length_numeral_le (by decide) (by decide)
    exact Nat.lt_of_lt_of_le value.isLt (by decide)
  unfold twoDigits
  split_ifs <;> simp <;> omega

theorem cstr_of_not_mem (h : 0 ∉ s) : cstr s = s := by
  apply List.takeWhile_eq_self_iff.mpr
  intro c hc
  have hne : c ≠ 0 := fun heq => h (heq ▸ hc)
  simpa using hne

/-- A text without a NUL is put on the line as a whole. -/
theorem dputsFormatted_literal {f : String} (hport : serialCom1 = d.base)
    (hlatch : d.latched = false) (hf : f.toList.map ascii = fmt) (hnul : 0 ∉ fmt)
    (hfmt : fmt.length < 2 ^ 32) (htext : formatText (parseFormat fmt) ap = some (text, rest))
    (hclean : 0 ∉ text) (hlen : text.length < 2 ^ 32) (hfuel : d.Within fuel text.length) :
    dputsFormatted stack fuel (literal f) ap (buffer, d) =
      some (buffer.put 0 (text ++ [0]), d.after text) := by
  subst hf
  have hputs : dputsFormatted stack fuel (literal f) ap (buffer, d) = _ :=
    dputsFormatted_eq hport hlatch (holds_literal f hnul) hfmt htext hlen
      (by rwa [cstr_of_not_mem hclean])
  rwa [cstr_of_not_mem hclean] at hputs

theorem dputs_literal {f : String} (hport : serialCom1 = d.base) (hlatch : d.latched = false)
    (hf : f.toList.map ascii = s) (hnul : 0 ∉ s) (hlen : s.length < 2 ^ 32)
    (hfuel : d.Within fuel s.length) : dputs fuel (literal f) d = some (d.after s) := by
  subst hf
  exact serialPuts_eq hport hlatch (holds_literal f hnul) hlen hfuel

/-- A number of the time is put on the line with two digits. -/
theorem dputsTime_eq {short long : String} {sep value : Byte}
    (hshort : short.toList.map ascii = [ascii '0', ascii '%', ascii 'd', sep])
    (hlong : long.toList.map ascii = [ascii '%', ascii 'd', sep])
    (hsep : sep ≠ ascii '%') (hnul : sep ≠ 0) (hport : serialCom1 = d.base)
    (hlatch : d.latched = false) (hfuel : d.Within fuel (twoDigits value ++ [sep]).length) :
    dputsTime stack fuel value short long (buffer, d) =
      some (buffer.put 0 (twoDigits value ++ [sep] ++ [0]),
        d.after (twoDigits value ++ [sep])) := by
  have hclean : 0 ∉ twoDigits value ++ [sep] := by
    intro h
    rcases List.mem_append.mp h with h | h
    · exact nul_not_mem_twoDigits value h
    · exact hnul (List.mem_singleton.mp h).symm
  have hlen : (twoDigits value ++ [sep]).length < 2 ^ 32 := by
    have hdigits := length_twoDigits_lt value
    rw [List.length_append, List.length_singleton]
    omega
  have hnumber := formatText_number hsep (value.setWidth 32)
  rw [itoaText_byte] at hnumber
  rw [dputsTime]
  by_cases hten : value < 10
  · have htext : formatText (parseFormat [ascii '0', ascii '%', ascii 'd', sep])
        [.int (value.setWidth 32)] = some (twoDigits value ++ [sep], []) := by
      rw [parseFormat_char (by decide), formatText, Piece.text, Option.bind_some, hnumber,
        twoDigits, if_pos hten]
      rfl
    rw [if_pos hten]
    apply dputsFormatted_literal hport hlatch hshort _ (by simp) htext hclean hlen hfuel
    simpa [ascii] using hnul.symm
  · have htext : formatText (parseFormat [ascii '%', ascii 'd', sep])
        [.int (value.setWidth 32)] = some (twoDigits value ++ [sep], []) := by
      rw [hnumber, twoDigits, if_neg hten]
      rfl
    rw [if_neg hten]
    apply dputsFormatted_literal hport hlatch hlong _ (by simp) htext hclean hlen hfuel
    simpa [ascii] using hnul.symm

/-- What the log shows of a type, and where a call stands. -/
def originText (type line : Word) (fileName : List Byte) : List Byte :=
  (debugTypeString type).toList.map ascii ++ [ascii ' '] ++ fileName.drop 4 ++ [ascii ':'] ++
    signedNumeral 10 line.toInt ++ [ascii ':', ascii ' ']

theorem debugTypeString_clean (type : Word) :
    0 ∉ (debugTypeString type).toList.map ascii ∧
      ((debugTypeString type).toList.map ascii).length < 2 ^ 32 := by
  unfold debugTypeString
  split_ifs <;> exact ⟨by decide, by decide⟩

theorem formatText_origin {file : Chars} {fileName : List Byte} (hfile : file.Holds fileName)
    (hfour : 4 ≤ fileName.length) (hlen : fileName.length < 2 ^ 32) (type line : Word) :
    formatText (parseFormat ("%s %s:%d: ".toList.map ascii))
        [.string (literal (debugTypeString type)), .string (fun k => file (4 + k)), .int line] =
      some (originText type line fileName, []) := by
  have htail : Chars.Holds (fun k => file (4 + k)) (fileName.drop 4) := by
    refine ⟨?_, ?_, fun h => hfile.no_nul (List.mem_of_mem_drop h)⟩
    · intro k hk
      rw [List.length_drop] at hk
      rw [hfile.chars (4 + k) (by omega), List.getD_eq_getElem _ _ (by omega),
        List.getD_eq_getElem _ _ (by rw [List.length_drop]; exact hk), List.getElem_drop]
    · have hend : 4 + (fileName.drop 4).length = fileName.length := by
        rw [List.length_drop]
        omega
      exact (congrArg file hend).trans hfile.nul
  have hparse : parseFormat ("%s %s:%d: ".toList.map ascii) =
      [.directive (ascii 's'), .char (ascii ' '), .directive (ascii 's'), .char (ascii ':'),
        .directive (ascii 'd'), .char (ascii ':'), .char (ascii ' ')] := by decide +kernel
  have hlong (d : Option Byte) : .long d ∉ parseFormat ("%s %s:%d: ".toList.map ascii) := by
    rw [hparse]
    simp
  have hclean := debugTypeString_clean type
  have hdenotes : List.Forall₂ VaArg.Denotes
      [.string (literal (debugTypeString type)), .string (fun k => file (4 + k)), .int line]
      [.string ((debugTypeString type).toList.map ascii), .string (fileName.drop 4),
        .int line] := by
    refine .cons ?_ (.cons ?_ (.cons (.int line) .nil))
    · exact .string _ _ (holds_literal _ hclean.1) hclean.2
    · exact .string _ _ htail (by rw [List.length_drop]; omega)
  have htext := formatText_eq hlong hdenotes (by rw [hparse]; rfl) []
  rw [List.append_nil] at htext
  rw [htext, hparse]
  unfold originText
  simp only [List.append_assoc]
  rfl

theorem originText_clean {fileName : List Byte} (h : 0 ∉ fileName) (type line : Word) :
    0 ∉ originText type line fileName := by
  have hnumeral : 0 ∉ signedNumeral 10 line.toInt := by
    have hitoa : 0 ∉ itoaText line 10 := nul_not_mem_itoaText (by decide) (by decide)
    rwa [itoaText, if_pos rfl] at hitoa
  have htype := (debugTypeString_clean type).1
  have hname : 0 ∉ fileName.drop 4 := fun hmem => h (List.mem_of_mem_drop hmem)
  unfold originText
  simp only [List.mem_append, not_or]
  exact ⟨⟨⟨⟨⟨htype, by decide⟩, hname⟩, by decide⟩, hnumeral⟩, by decide⟩

end

/-! ## Calls of `dprintf` -/

/-- A call of `dprintf`, with the stack and the clock that it meets: the address of a file's name,
which has at least four characters, and a format with arguments of the types that it takes. A
directive with the length modifier shows the lower half of its number. -/
structure LogCall where
  type : Word
  file : Chars
  fileName : List Byte
  line : Word
  format : Chars
  fmt : List Byte
  ap : List VaArg
  rendered : List Byte
  rest : List VaArg
  stack : Chars
  buffer : Chars
  clock : Rtc
  file_holds : file.Holds fileName
  file_length : 4 ≤ fileName.length
  format_holds : format.Holds fmt
  format_length : fmt.length < 2 ^ 32
  formatted : formatText (parseFormat fmt) ap = some (rendered, rest)
  origin_length : (originText type line fileName).length < 2 ^ 32
  rendered_length : rendered.length < 2 ^ 32

namespace LogCall

variable (c : LogCall) (fuel : Nat)

/-- The call. -/
def dprintf (uart : Uart) : Option (Chars × Rtc × Uart) :=
  Hjortron.dprintf c.stack c.buffer fuel c.type c.file c.line c.format c.ap c.clock uart

/-- The time that the call sees. -/
def time : Time :=
  convertTime (c.clock.registers 0xB) {
    second := c.clock.registers 0x00
    minute := c.clock.registers 0x02
    hour := c.clock.registers 0x04
    day := c.clock.registers 0x07
    month := c.clock.registers 0x08
    year := c.clock.registers 0x09 }

/-- The texts that the call formats fit into the buffer, each with its NUL. -/
def Fits : Prop :=
  (originText c.type c.line c.fileName).length < bufferLength ∧ c.rendered.length < bufferLength

/-- The same call with its buffer on another stack. -/
def inBuffer (buffer : Chars) : LogCall := { c with buffer := buffer }

/-- The message, which ends where a NUL is written. -/
def message : List Byte := cstr c.rendered

/-- What the call puts on the line: `hh:mm:ss TYPE file:line: message` in a line of its own. -/
def text : List Byte :=
  twoDigits c.time.hour ++ [ascii ':'] ++ (twoDigits c.time.minute ++ [ascii ':']) ++
    (twoDigits c.time.second ++ [ascii ' ']) ++ originText c.type c.line c.fileName ++
    "\x1b[1m".toList.map ascii ++ c.message ++ "\x1b[0m\n".toList.map ascii

/-- The texts that the call writes to the buffer one over the other. -/
def written : List (List Byte) :=
  [twoDigits c.time.hour ++ [ascii ':'], twoDigits c.time.minute ++ [ascii ':'],
    twoDigits c.time.second ++ [ascii ' '], originText c.type c.line c.fileName, c.rendered]

/-- What the call leaves in the buffer and behind it. -/
def bufferAfter : Chars :=
  c.written.foldl (fun buffer text => buffer.put 0 (text ++ [0])) (c.buffer.strset 0 bufferLength)

theorem put_texts {texts : List (List Byte)} (h : ∀ text ∈ texts, text.length < bufferLength)
    (buffer : Chars) {k : Nat} (hk : bufferLength ≤ k) :
    texts.foldl (fun buffer text => buffer.put 0 (text ++ [0])) buffer k = buffer k := by
  induction texts generalizing buffer with
  | nil => rfl
  | cons text texts ih =>
    have hlt := h text (List.mem_cons_self ..)
    rw [List.foldl_cons, ih fun text htext => h text (List.mem_cons_of_mem _ htext)]
    apply Chars.put_of_le
    rw [List.length_append, List.length_singleton]
    omega

/-- Nothing behind the buffer changes. -/
theorem bufferAfter_of_le {k : Nat} (h : c.Fits) (hk : bufferLength ≤ k) :
    c.bufferAfter k = c.buffer k := by
  have hdigits (value sep : Byte) : (twoDigits value ++ [sep]).length < bufferLength := by
    have hlen := length_twoDigits_lt value
    have hbuffer : 11 ≤ bufferLength := by decide
    rw [List.length_append, List.length_singleton]
    omega
  have htexts : ∀ text ∈ c.written, text.length < bufferLength := by
    simp only [written, List.forall_mem_cons, hdigits, h.1, h.2, true_and]
    exact fun text h => absurd h List.not_mem_nil
  rw [bufferAfter, put_texts htexts _ hk]
  exact if_neg (Nat.not_lt.mpr hk)

theorem put_nul (buffer : Chars) (text : List Byte) :
    buffer.put 0 (text ++ [0]) text.length = 0 := by
  rw [Chars.put_of_lt (by simp), List.getD_append_right _ _ _ _ (Nat.le_refl _), Nat.sub_self]
  rfl

/-- The NUL of a text that is too long stays behind the buffer. -/
theorem bufferAfter_nul (h : ¬ c.Fits) : ∃ k, bufferLength ≤ k ∧ c.bufferAfter k = 0 := by
  let before := (c.written.take 3).foldl (fun buffer text => buffer.put 0 (text ++ [0]))
    (c.buffer.strset 0 bufferLength)
  let origin := before.put 0 (originText c.type c.line c.fileName ++ [0])
  have hafter : c.bufferAfter = origin.put 0 (c.rendered ++ [0]) := rfl
  by_cases hrendered : c.rendered.length < bufferLength
  · -- the message leaves the NUL of the origin where it is
    have horigin : bufferLength ≤ (originText c.type c.line c.fileName).length := by
      apply Nat.le_of_not_lt
      intro hlt
      exact h ⟨hlt, hrendered⟩
    refine ⟨_, horigin, ?_⟩
    rw [hafter, Chars.put_of_le]
    · exact put_nul before _
    · rw [List.length_append, List.length_singleton]
      omega
  · refine ⟨_, Nat.le_of_not_lt hrendered, ?_⟩
    rw [hafter]
    exact put_nul origin c.rendered

/-- A call stays inside its buffer exactly if its texts fit. -/
theorem inside_iff :
    (∀ buffer k, bufferLength ≤ k → (c.inBuffer buffer).bufferAfter k = buffer k) ↔ c.Fits := by
  constructor
  · intro hinside
    by_contra hlong
    rcases (c.inBuffer fun _ => 1).bufferAfter_nul hlong with ⟨k, hk, hnul⟩
    have hkept : (c.inBuffer fun _ => 1).bufferAfter k = 1 := hinside _ k hk
    rw [hnul] at hkept
    cases hkept
  · intro hfits buffer k hk
    exact (c.inBuffer buffer).bufferAfter_of_le hfits hk

variable {c fuel} {d : Uart}

/-- One call puts its text on the line. -/
theorem dprintf_eq (hport : serialCom1 = d.base) (hlatch : d.latched = false)
    (hclock : c.clock.updating < fuel) (hfuel : d.Within fuel c.text.length) :
    c.dprintf fuel d = some (c.bufferAfter, c.clock.idle 0xB, d.after c.text) := by
  have horigin := c.origin_length
  have hname : c.fileName.length < 2 ^ 32 := by
    have hdrop :
        (c.fileName.drop 4).length + 4 ≤ (originText c.type c.line c.fileName).length := by
      unfold originText
      simp only [List.length_append, List.length_cons, List.length_nil]
      omega
    rw [List.length_drop] at hdrop
    omega
  -- the line, part by part
  have h6 := hfuel.left
  have h5 := h6.left
  have h4 := h5.left
  have h3 := h4.left
  have h2 := h3.left
  have hhour (buffer : Chars) :
      dputsTime c.stack fuel c.time.hour "0%d:" "%d:" (buffer, d) =
        some (buffer.put 0 (twoDigits c.time.hour ++ [ascii ':'] ++ [0]),
          Uart.after _ (twoDigits c.time.hour ++ [ascii ':'])) :=
    dputsTime_eq rfl rfl (by decide) (by decide) hport hlatch h2.left
  have hminute (buffer : Chars) :
      dputsTime c.stack fuel c.time.minute "0%d:" "%d:" (buffer, d.after _) =
        some (buffer.put 0 (twoDigits c.time.minute ++ [ascii ':'] ++ [0]),
          Uart.after _ (twoDigits c.time.minute ++ [ascii ':'])) :=
    dputsTime_eq rfl rfl (by decide) (by decide) hport hlatch h2.right
  have hsecond (buffer : Chars) :
      dputsTime c.stack fuel c.time.second "0%d " "%d " (buffer, d.after _) =
        some (buffer.put 0 (twoDigits c.time.second ++ [ascii ' '] ++ [0]),
          Uart.after _ (twoDigits c.time.second ++ [ascii ' '])) :=
    dputsTime_eq rfl rfl (by decide) (by decide) hport hlatch h3.right
  have hsource (buffer : Chars) :
      dputsFormatted c.stack fuel (literal "%s %s:%d: ")
        [.string (literal (debugTypeString c.type)), .string (fun k => c.file (4 + k)),
          .int c.line] (buffer, d.after _) = some (_, _) :=
    dputsFormatted_literal hport hlatch rfl (by decide) (by decide)
      (formatText_origin c.file_holds c.file_length hname c.type c.line)
      (originText_clean c.file_holds.no_nul c.type c.line) horigin h4.right
  have hformat (buffer : Chars) :
      sprintfVa c.stack buffer c.format c.ap =
        some (buffer.put 0 (c.rendered ++ [0]), c.rest) := by
    rw [sprintfVa_eq c.format_holds c.format_length, c.formatted]
    rfl
  have hbold : dputs fuel (literal "\x1b[1m") (d.after _) = some _ :=
    dputs_literal hport hlatch rfl (by decide) (by decide) h5.right
  have hputs (buffer : Chars) :
      dputs fuel (buffer.put 0 (c.rendered ++ [0])) (d.after _) =
        some (Uart.after _ c.message) :=
    serialPuts_eq hport hlatch (holds_cstr buffer _)
      (Nat.lt_of_le_of_lt (length_cstr_le _) c.rendered_length) h6.right
  have hreset : dputs fuel (literal "\x1b[0m\n") (d.after _) = some _ :=
    dputs_literal hport hlatch rfl (by decide) (by decide) hfuel.right
  simp only [Uart.after_append] at hminute hsecond hsource hbold hputs hreset
  have htime : cmosTime fuel c.clock = some (c.time, c.clock.idle 0xB) := cmosTime_eq hclock
  unfold LogCall.dprintf Hjortron.dprintf
  simp only [htime, hhour, hminute, hsecond, hsource, hformat, hbold, hputs, hreset,
    Option.bind_eq_bind, Option.bind_some, pure]
  rfl

end LogCall

/-! ## The log -/

/-- A call of `dprintf` in the log: the clock is the one that the call meets, and nothing behind the
buffer changes. -/
def LogCall.Logs (fuel : Nat) (d : Uart) (c : LogCall) (d' : Uart) : Prop :=
  ∃ buffer clock, c.dprintf fuel d = some (buffer, clock, d') ∧
    clock.registers = c.clock.registers ∧ ∀ k, bufferLength ≤ k → buffer k = c.buffer k

theorem exists_updating_lt (calls : List LogCall) :
    ∃ fuel, ∀ c ∈ calls, c.clock.updating < fuel := by
  induction calls with
  | nil => exact ⟨0, fun c h => absurd h List.not_mem_nil⟩
  | cons c calls ih =>
    rcases ih with ⟨fuel, hfuel⟩
    refine ⟨max fuel (c.clock.updating + 1), ?_⟩
    intro c' hc'
    rcases List.mem_cons.mp hc' with rfl | hmem
    · omega
    · have hlt := hfuel c' hmem
      omega

/-- The calls of a run put their texts on the line one after the other. -/
theorem run_logs {calls : List LogCall} {d : Uart} {fuel : Nat}
    (hfits : ∀ c ∈ calls, c.Fits) (hport : serialCom1 = d.base) (hlatch : d.latched = false)
    (hclock : ∀ c ∈ calls, c.clock.updating < fuel)
    (hfuel : d.Within fuel (calls.flatMap LogCall.text).length) :
    Run (LogCall.Logs fuel) d calls (d.after (calls.flatMap LogCall.text)) := by
  induction calls generalizing d with
  | nil =>
    rw [List.flatMap_nil, Uart.after_nil]
    exact .nil d
  | cons c calls ih =>
    rw [List.flatMap_cons] at hfuel ⊢
    have hcall := LogCall.dprintf_eq hport hlatch (hclock c (List.mem_cons_self ..)) hfuel.left
    have hinside (k : Nat) (hk : bufferLength ≤ k) : c.bufferAfter k = c.buffer k :=
      c.bufferAfter_of_le (hfits c (List.mem_cons_self ..)) hk
    have hrest := ih (d := d.after c.text) (fun c hc => hfits c (List.mem_cons_of_mem _ hc)) hport
      hlatch (fun c hc => hclock c (List.mem_cons_of_mem _ hc)) hfuel.right
    rw [Uart.after_append] at hrest
    exact .cons ⟨_, _, hcall, rfl, hinside⟩ hrest

/-- What a call does to what stands behind its buffer tells whether its texts fit. -/
theorem dprintf_inside {d : Uart} (hport : serialCom1 = d.base) (hlatch : d.latched = false)
    (c : LogCall) :
    ∃ fuel, ∃ after : Chars → Chars, ∃ clock d',
      (∀ buffer, (c.inBuffer buffer).dprintf fuel d = some (after buffer, clock, d')) ∧
      ((∀ buffer k, bufferLength ≤ k → after buffer k = buffer k) ↔ c.Fits) := by
  rcases d.exists_within c.text.length with ⟨n, hn⟩
  have hwithin := Uart.Within.fuel_mono hn (Nat.le_max_left n (c.clock.updating + 1))
  have hclock : c.clock.updating < max n (c.clock.updating + 1) := by omega
  refine ⟨max n (c.clock.updating + 1), fun buffer => (c.inBuffer buffer).bufferAfter,
    c.clock.idle 0xB, d.after c.text, ?_, c.inside_iff⟩
  intro buffer
  exact LogCall.dprintf_eq (c := c.inBuffer buffer) hport hlatch hclock hwithin

/-- **The log.** Once `serial_init` has set up the first serial line, whatever state the UART was
in, every run of calls of `dprintf` whose texts fit returns and puts the texts of the calls on the
line, one after the other and with no byte lost, and no call writes behind its buffer. A call leaves
what stands behind its buffer as it is exactly if its texts fit. -/
theorem log_sends (d : Uart) (hport : serialCom1 = d.base) :
    (∀ calls : List LogCall, (∀ c ∈ calls, c.Fits) →
      ∃ fuel d', Run (LogCall.Logs fuel) (serialInit serialCom1 d) calls d' ∧
        d'.sent = d.sent ++ calls.flatMap LogCall.text ∧ d'.lost = d.lost) ∧
      ∀ c : LogCall, ∃ fuel, ∃ after : Chars → Chars, ∃ clock d',
        (∀ buffer, (c.inBuffer buffer).dprintf fuel (serialInit serialCom1 d) =
          some (after buffer, clock, d')) ∧
        ((∀ buffer k, bufferLength ≤ k → after buffer k = buffer k) ↔ c.Fits) := by
  have hinit := serialInit_eq d
  rw [← hport] at hinit
  generalize serialInit serialCom1 d = ready at hinit ⊢
  constructor
  · intro calls hfits
    rcases exists_updating_lt calls with ⟨n, hn⟩
    rcases ready.exists_within (calls.flatMap LogCall.text).length with ⟨m, hm⟩
    have hclock : ∀ c ∈ calls, c.clock.updating < max n m := by
      intro c hc
      have hlt := hn c hc
      omega
    have hwithin := Uart.Within.fuel_mono hm (Nat.le_max_right n m)
    have hrun := run_logs hfits hinit.2.2.1.symm hinit.2.2.2 hclock hwithin
    refine ⟨max n m, _, hrun, ?_, hinit.2.1⟩
    exact congrArg (· ++ calls.flatMap LogCall.text) hinit.1
  · exact dprintf_inside hinit.2.2.1.symm hinit.2.2.2

/-- A format without the length modifier, with the arguments that it takes. -/
theorem formatText_parsed {fmt text : List Byte} {ap : List VaArg} {args : List FormatArg}
    (ps : List Piece) (hparse : parseFormat fmt = ps) (hlong : ∀ d, .long d ∉ ps)
    (hdenotes : List.Forall₂ VaArg.Denotes ap args)
    (hkinds : args.map FormatArg.kind = ps.filterMap Piece.kind?)
    (htext : render ps args = text) : formatText (parseFormat fmt) ap = some (text, []) := by
  have hformat := formatText_eq hlong hdenotes hkinds []
  rwa [List.append_nil, htext, ← hparse] at hformat

/-- `info("%d MB", 32)` in line 7 of `src/kernel.c`, five past nine in the morning. -/
def sampleCall : LogCall where
  type := 3
  file := literal "src/kernel.c"
  fileName := "src/kernel.c".toList.map ascii
  line := 7
  format := literal "%d MB"
  fmt := "%d MB".toList.map ascii
  ap := [.int 32]
  rendered := "32 MB".toList.map ascii
  rest := []
  stack := fun _ => 1
  buffer := fun _ => 1
  clock := {
    index := 0
    registers := fun i => if i = 0x04 then 0x09 else if i = 0x02 then 0x05
      else if i = 0x0B then 0x02 else 0
    updating := 2 }
  file_holds := holds_literal _ (by decide)
  file_length := by decide
  format_holds := holds_literal _ (by decide)
  format_length := by decide
  formatted := formatText_parsed
    [.directive (ascii 'd'), .char (ascii ' '), .char (ascii 'M'), .char (ascii 'B')]
    (by decide +kernel) (by simp) (.cons (.int 32) .nil) rfl (by decide +kernel)
  origin_length := by decide +kernel
  rendered_length := by decide

/-- `info("%s", s)` of a text as long as the buffer. -/
def longCall : LogCall where
  type := 3
  file := literal "src/kernel.c"
  fileName := "src/kernel.c".toList.map ascii
  line := 7
  format := literal "%s"
  fmt := "%s".toList.map ascii
  ap := [.string fun k => (List.replicate bufferLength (ascii 'x')).getD k 0]
  rendered := List.replicate bufferLength (ascii 'x')
  rest := []
  stack := fun _ => 1
  buffer := fun _ => 1
  clock := sampleCall.clock
  file_holds := sampleCall.file_holds
  file_length := sampleCall.file_length
  format_holds := holds_literal _ (by decide)
  format_length := by decide
  formatted := by
    have hlength : (List.replicate bufferLength (ascii 'x')).length < 2 ^ 32 := by
      rw [List.length_replicate]
      decide
    have hstring := Chars.holds_list (s := List.replicate bufferLength (ascii 'x'))
      (by decide +kernel)
    exact formatText_parsed [.directive (ascii 's')] (by decide +kernel) (by simp)
      (.cons (.string _ _ hstring hlength) .nil) rfl (by decide +kernel)
  origin_length := sampleCall.origin_length
  rendered_length := by
    rw [List.length_replicate]
    decide

/-- A UART behind the first serial port that is still busy. -/
def sampleUart : Uart where
  base := 0x3F8
  delay := fun n => n % 3
  sent := []
  lost := []
  busy := 5
  lineControl := 0
  interruptEnable := 0xFF
  divisorLow := 0
  divisorHigh := 0

theorem log_sends_sample :
    (∃ fuel d, Run (LogCall.Logs fuel) (serialInit serialCom1 sampleUart)
        [sampleCall, sampleCall] d ∧
      d.sent = ("09:05:00 \x1b[1;34mINFO\x1b[0m kernel.c:7: \x1b[1m32 MB\x1b[0m\n" ++
        "09:05:00 \x1b[1;34mINFO\x1b[0m kernel.c:7: \x1b[1m32 MB\x1b[0m\n").toList.map ascii) ∧
      ∃ fuel, ∃ after : Chars → Chars, ∃ clock d,
        (∀ buffer, (longCall.inBuffer buffer).dprintf fuel (serialInit serialCom1 sampleUart) =
          some (after buffer, clock, d)) ∧
        ¬ ∀ buffer k, bufferLength ≤ k → after buffer k = buffer k := by
  rcases log_sends sampleUart rfl with ⟨hruns, hcalls⟩
  constructor
  · have hfits : ∀ c ∈ [sampleCall, sampleCall], c.Fits := by
      simp only [List.forall_mem_cons, and_self_left]
      exact ⟨⟨by decide +kernel, by decide +kernel⟩, fun c hc => absurd hc List.not_mem_nil⟩
    rcases hruns [sampleCall, sampleCall] hfits with ⟨fuel, d, hrun, hsent, -⟩
    refine ⟨fuel, d, hrun, ?_⟩
    rw [hsent]
    decide +kernel
  · rcases hcalls longCall with ⟨fuel, after, clock, d, hreturns, hinside⟩
    refine ⟨fuel, after, clock, d, hreturns, ?_⟩
    intro hkept
    have hlt : (List.replicate bufferLength (ascii 'x')).length < bufferLength :=
      (hinside.mp hkept).2
    rw [List.length_replicate] at hlt
    exact Nat.lt_irrefl _ hlt

end Hjortron
