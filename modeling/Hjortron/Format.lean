import Hjortron.Display.Display
import Hjortron.Strings

/-!
# Formatted output

`itoa` and `sprintf_va` of `kernel/src/string.c` and `printf` of `kernel/src/display/display.c`.
Here a string is the function of the bytes from its address on. Counters are natural numbers, as no
string has `2 ^ 32` characters. `va_arg` takes the next argument; `none` is an argument of another
type, for which C has no meaning.
-/

namespace Hjortron

/-- The bytes from the address of a string on. -/
abbrev Chars := Nat → Byte

namespace Chars

variable (str : Chars)

/-- The loop of `strlen`, from `i` on. -/
def strlenFrom : Nat → Nat → Nat
  | 0, i => i
  | fuel + 1, i => if str i ≠ 0 then strlenFrom fuel (i + 1) else i

/-- `strlen`. -/
def strlen : Nat := str.strlenFrom (2 ^ 32) 0

/-- `strset`. -/
def strset (c : Byte) (len : Nat) : Chars := fun k => if k < len then c else str k

/-- `strcpy(src, &str[j], len)`. -/
def strcpy (src : Chars) (j len : Nat) : Chars :=
  fun k => if j ≤ k ∧ k < j + len then src (k - j) else str k

/-- `swap(&str[a], &str[b])`. -/
def swap (a b : Nat) : Chars := Function.update (Function.update str a (str b)) b (str a)

/-- The loop of `reverse`. -/
def reverseFrom (str : Chars) : Nat → Nat → Nat → Chars
  | 0, _, _ => str
  | fuel + 1, i, j => if i < j then reverseFrom (str.swap i j) fuel (i + 1) (j - 1) else str

/-- `reverse`. -/
def reverse (i j : Nat) : Chars := str.reverseFrom j i j

end Chars

/-! ## `itoa` -/

/-- The loop of `itoa`, which has at most 32 iterations. -/
def itoaLoop (base : Word) : Nat → Word → Chars → Nat → Chars × Nat
  | 0, _, str, j => (str, j)
  | fuel + 1, i, str, j =>
    if i ≠ 0 then
      let r := i % base
      let c : Word := if 10 ≤ r then 65 + r - 10 else 48 + r
      itoaLoop base fuel (i / base) (Function.update str j (c.setWidth 8)) (j + 1)
    else (str, j)

/-- `itoa`. -/
def itoa (i : Word) (str : Chars) (base : Word) : Chars :=
  if base < 2 ∨ 32 < base then str
  else
    let negative := i.slt 0 && base = 10
    let i := if negative then i * -1 else i
    let (str, j) := itoaLoop base 32 i str 0
    let (str, j) :=
      if j = 0 then (Function.update str j (ascii '0'), j + 1)
      else if negative then (Function.update str j (ascii '-'), j + 1)
      else (str, j)
    let str : Chars := Function.update str j 0
    str.reverse 0 (j - 1)

/-! ## Arguments -/

/-- An argument of a function with a variable argument list. -/
inductive VaArg
  /-- An `int` or `uint32_t`. -/
  | int (v : Word)
  /-- A `uint64_t`. -/
  | long (v : BitVec 64)
  | string (s : Chars)
  | attr (a : TextAttribute)

/-- `va_arg(ap, int)` and `va_arg(ap, uint32_t)`. -/
def vaInt : List VaArg → Option (Word × List VaArg)
  | .int v :: ap => some (v, ap)
  | _ => none

/-- `va_arg(ap, uint64_t)`. -/
def vaLong : List VaArg → Option (BitVec 64 × List VaArg)
  | .long v :: ap => some (v, ap)
  | _ => none

/-- `va_arg(ap, string)`. -/
def vaString : List VaArg → Option (Chars × List VaArg)
  | .string s :: ap => some (s, ap)
  | _ => none

/-- `va_arg(ap, text_attribute)`. -/
def vaAttribute : List VaArg → Option (TextAttribute × List VaArg)
  | .attr a :: ap => some (a, ap)
  | _ => none

/-! ## `sprintf_va` -/

/-- The variables of `sprintf_va` that its directives change. -/
structure Sprintf where
  str : Chars
  j : Nat
  ap : List VaArg

/-- The loop that copies standard characters. -/
def sprintfCopy (format : Chars) (len : Nat) : Nat → Nat → Sprintf → Nat × Sprintf
  | 0, i, s => (i, s)
  | fuel + 1, i, s =>
    if format i ≠ ascii '%' ∧ i < len then
      sprintfCopy format len fuel (i + 1)
        { s with str := Function.update s.str s.j (format i), j := s.j + 1 }
    else (i, s)

/-- `buffer` after `itoa`, in a function whose stack holds `stack`. -/
def sprintfBuffer (stack : Chars) (arg base : Word) : Chars := itoa arg (stack.strset 0 32) base

/-- The part of the cases `d` and `ld` after `va_arg`. -/
def sprintfDecimal (stack : Chars) (arg : Word) (s : Sprintf) : Sprintf :=
  let buffer := sprintfBuffer stack arg 10
  let argLen := buffer.strlen
  { s with str := s.str.strcpy buffer s.j argLen, j := s.j + argLen }

/-- The part of the cases `x` and `lx` after `va_arg`. -/
def sprintfHex (stack : Chars) (arg : Word) (s : Sprintf) : Sprintf :=
  let buffer := sprintfBuffer stack arg 16
  let argLen := buffer.strlen
  let str := s.str.strcpy (fun k => [ascii '0', ascii 'x'].getD k 0) s.j 2
  { s with str := str.strcpy buffer (s.j + 2) argLen, j := s.j + argLen + 2 }

/-- The cases of the inner `switch`. -/
def sprintfLong (stack : Chars) (c : Byte) (s : Sprintf) : Option Sprintf :=
  if c = ascii 'd' then do
    let (arg, ap) ← vaLong s.ap
    return sprintfDecimal stack (arg.setWidth 32) { s with ap }
  else if c = ascii 'x' then do
    let (arg, ap) ← vaLong s.ap
    return sprintfHex stack (arg.setWidth 32) { s with ap }
  else some s

/-- The `switch` of `sprintf_va`, with `i` at the type of the directive. -/
def sprintfDirective (stack format : Chars) (len i : Nat) (s : Sprintf) :
    Option (Nat × Sprintf) :=
  if format i = ascii 'c' then do
    let (arg, ap) ← vaInt s.ap
    return (i, { s with str := Function.update s.str s.j (arg.setWidth 8), j := s.j + 1, ap })
  else if format i = ascii 's' then do
    let (arg, ap) ← vaString s.ap
    return (i, { s with
      str := s.str.strcpy arg s.j arg.strlen
      j := s.j + arg.strlen
      ap })
  else if format i = ascii 'd' then do
    let (arg, ap) ← vaInt s.ap
    return (i, sprintfDecimal stack arg { s with ap })
  else if format i = ascii 'x' then do
    let (arg, ap) ← vaInt s.ap
    return (i, sprintfHex stack arg { s with ap })
  else if format i = ascii 'l' then
    if len ≤ i + 1 then
      some (i + 1, s)
    else do
      let s ← sprintfLong stack (format (i + 1)) s
      return (i + 1, s)
  else some (i, s)

/-- The loop of `sprintf_va`. Every iteration passes a character of the format. -/
def sprintfLoop (stack format : Chars) (len : Nat) : Nat → Nat → Sprintf → Option Sprintf
  | 0, _, s => some s
  | fuel + 1, i, s =>
    if i < len then
      let (i, s) := sprintfCopy format len len i s
      if len ≤ i + 1 then
        sprintfLoop stack format len fuel (i + 2) s
      else do
        let (i, s) ← sprintfDirective stack format len (i + 1) s
        sprintfLoop stack format len fuel (i + 1) s
    else some s

/-- `sprintf_va`: what it leaves in `str`, and the arguments that are left. -/
def sprintfVa (stack str format : Chars) (ap : List VaArg) : Option (Chars × List VaArg) := do
  let len := format.strlen
  let s ← sprintfLoop stack format len len 0 ⟨str, 0, ap⟩
  return (Function.update s.str s.j 0, s.ap)

/-! ## `printf` -/

/-- A character that is put on the display, with its attribute. -/
abbrev PutChar := Byte × TextAttribute

/-- `{DEFAULT_BACKGROUND, DEFAULT_FOREGROUND}`. -/
def defaultAttribute : TextAttribute :=
  ⟨defaultBackground.setWidth 8, defaultForeground.setWidth 8⟩

/-- `putsf`. -/
def putsf (str : Chars) (attr : TextAttribute) : List PutChar :=
  (List.range str.strlen).map fun i => (str i, attr)

/-- `puts`. -/
def puts (str : Chars) : List PutChar := putsf str defaultAttribute

/-- `put_hex`. -/
def putHex (count : Word) : List PutChar :=
  puts (fun k => [ascii '0', ascii 'x'].getD k 0) ++
    List.replicate count.toNat (ascii '0', defaultAttribute)

/-- What `printf` has after a directive: the characters put, the attribute and the arguments for
the rest, and how many characters of the format the directive has beyond its type. -/
structure Printf where
  put : List PutChar
  attr : TextAttribute
  ap : List VaArg
  skip : Nat

/-- The part of the cases `d` and `ld` after `va_arg`. -/
def printfDecimal (stack : Chars) (arg : Word) (attr : TextAttribute) : List PutChar :=
  putsf (itoa arg stack 10) attr

/-- The part of the cases `x` and `lx` after `va_arg`, for `digits` digits. -/
def printfHex (stack : Chars) (digits arg : Word) (attr : TextAttribute) : List PutChar :=
  let buffer := itoa arg stack 16
  putHex (digits - BitVec.ofNat 32 buffer.strlen) ++ putsf buffer attr

/-- The cases of the inner `switch`. -/
def printfLong (stack : Chars) (c : Byte) (attr : TextAttribute) (ap : List VaArg) :
    Option Printf :=
  if c = ascii 'd' then do
    let (arg, ap) ← vaLong ap
    return ⟨printfDecimal stack (arg.setWidth 32) attr, attr, ap, 1⟩
  else if c = ascii 'x' then do
    let (arg, ap) ← vaLong ap
    return ⟨printfHex stack 16 (arg.setWidth 32) attr, attr, ap, 1⟩
  else some ⟨[], attr, ap, 1⟩

/-- The `switch` of `printf`, with `i` at the percent sign. -/
def printfDirective (stack str : Chars) (len i : Nat) (attr : TextAttribute)
    (ap : List VaArg) : Option Printf :=
  if str (i + 1) = ascii 's' then do
    let (arg, ap) ← vaString ap
    return ⟨putsf arg attr, attr, ap, 0⟩
  else if str (i + 1) = ascii 'd' then do
    let (arg, ap) ← vaInt ap
    return ⟨printfDecimal stack arg attr, attr, ap, 0⟩
  else if str (i + 1) = ascii 'x' then do
    let (arg, ap) ← vaInt ap
    return ⟨printfHex stack 8 arg attr, attr, ap, 0⟩
  else if str (i + 1) = ascii 'l' then
    if i + 2 < len then printfLong stack (str (i + 2)) attr ap
    else some ⟨[], attr, ap, 0⟩
  else if str (i + 1) = ascii 'f' then do
    let (a, ap) ← vaAttribute ap
    return ⟨[], a, ap, 0⟩
  else some ⟨[], attr, ap, 0⟩

/-- The loop of `printf`: the characters that it puts on the display. -/
def printfLoop (stack str : Chars) (len : Nat) :
    Nat → Nat → TextAttribute → List VaArg → Option (List PutChar)
  | 0, _, _, _ => some []
  | fuel + 1, i, attr, ap =>
    if i < len then
      if str i = ascii '%' ∧ i + 1 < len then do
        let p ← printfDirective stack str len i attr ap
        let rest ← printfLoop stack str len fuel (i + p.skip + 2) p.attr p.ap
        return p.put ++ rest
      else do
        let rest ← printfLoop stack str len fuel (i + 1) attr ap
        return (str i, attr) :: rest
    else some []

/-- The characters that `printf` puts on the display. -/
def printfPut (stack str : Chars) (ap : List VaArg) : Option (List PutChar) :=
  printfLoop stack str str.strlen str.strlen 0 defaultAttribute ap

/-- `printf`. -/
def printf (d : Display) (stack str : Chars) (ap : List VaArg) : Option Display :=
  (printfPut stack str ap).map fun put => put.foldl (fun d c => putcf d c.1 c.2) d

end Hjortron
