import Hjortron.Drivers.Cmos
import Hjortron.Drivers.Serial

/-!
# `kernel/src/debug.c`

`dprintf` as it is compiled with `DEBUG_SERIAL`: the log goes to the first serial line. The array
`buffer` is what stands on the stack from its address on. `none` stands for a call that does not
return within its number of iterations, or whose arguments have other types than the format.
-/

namespace Hjortron

/-- A string literal. -/
def literal (s : String) : Chars := fun k => (s.toList.map ascii).getD k 0

/-- `BUFFER_LENGTH`, the length of `buffer`. -/
def bufferLength : Nat := 1024

/-- `type_str`. -/
def debugTypeString (type : Word) : String :=
  if type = 0x1 then "\x1b[1;34mTRACE\x1b[0m"
  else if type = 0x2 then "\x1b[1;33mDEBUG\x1b[0m"
  else if type = 0x3 then "\x1b[1;34mINFO\x1b[0m"
  else if type = 0x4 then "\x1b[1;33mWARN\x1b[0m"
  else if type = 0x5 then "\x1b[1;31mERROR\x1b[0m"
  else ""

/-- `dputs`. -/
def dputs (fuel : Nat) (str : Chars) (uart : Uart) : Option Uart :=
  serialPuts fuel serialCom1 str uart

/-- `sprintf` to the buffer and `dputs` of it. -/
def dputsFormatted (stack : Chars) (fuel : Nat) (format : Chars) (ap : List VaArg)
    (s : Chars × Uart) : Option (Chars × Uart) := do
  let (buffer, _) ← sprintfVa stack s.1 format ap
  let uart ← dputs fuel buffer s.2
  return (buffer, uart)

/-- Prints a number of the time and what follows it. -/
def dputsTime (stack : Chars) (fuel : Nat) (value : Byte) (short long : String)
    (s : Chars × Uart) : Option (Chars × Uart) :=
  dputsFormatted stack fuel (literal (if value < 10 then short else long))
    [.int (value.setWidth 32)] s

/-- `dprintf`: what it leaves in the buffer and behind it, and the devices. -/
def dprintf (stack buffer : Chars) (fuel : Nat) (type : Word) (file : Chars) (line : Word)
    (format : Chars) (ap : List VaArg) (rtc : Rtc) (uart : Uart) :
    Option (Chars × Rtc × Uart) := do
  let buffer := buffer.strset 0 bufferLength
  -- print time
  let (time, rtc) ← cmosTime fuel rtc
  let s ← dputsTime stack fuel time.hour "0%d:" "%d:" (buffer, uart)
  let s ← dputsTime stack fuel time.minute "0%d:" "%d:" s
  let s ← dputsTime stack fuel time.second "0%d " "%d " s
  -- print debug info
  let s ← dputsFormatted stack fuel (literal "%s %s:%d: ")
    [.string (literal (debugTypeString type)), .string (fun k => file (4 + k)), .int line] s
  -- print string
  let (buffer, _) ← sprintfVa stack s.1 format ap
  let uart ← dputs fuel (literal "\x1b[1m") s.2
  let uart ← dputs fuel buffer uart
  let uart ← dputs fuel (literal "\x1b[0m\n") uart
  return (buffer, rtc, uart)

end Hjortron
