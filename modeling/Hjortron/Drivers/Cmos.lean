import Hjortron.Misc.PortDevices

/-!
# `kernel/src/drivers/cmos.c`

The driver reads the clock port by port. The loop that waits for the end of an update has a number
of iterations left, and `none` stands for a call that does not return within it.
-/

namespace Hjortron

/-- `time_t`. -/
structure Time where
  second : Byte
  minute : Byte
  hour : Byte
  day : Byte
  month : Byte
  year : Byte
  deriving DecidableEq, Repr

/-- `cmos_wait`. -/
def cmosWait (d : Rtc) : Bool × Rtc :=
  let d := d.outb 0x70 0x0A
  let (value, d) := d.inb 0x71
  (value &&& 0x80 != 0, d)

/-- `cmos_read`. -/
def cmosRead (offset : Byte) (d : Rtc) : Byte × Rtc :=
  let d := d.outb 0x70 offset
  d.inb 0x71

/-- The loop of `cmos_time` that waits. -/
def cmosTimeWait : Nat → Rtc → Option Rtc
  | 0, _ => none
  | fuel + 1, d =>
    let (wait, d) := cmosWait d
    if wait then cmosTimeWait fuel d else some d

/-- The conversion of `cmos_time` from BCD to binary. -/
def fromBcd (value : Byte) : Byte := (value &&& 0xF) + value / 16 * 10

/-- The conversions of `cmos_time`. -/
def convertTime (status : Byte) (time : Time) : Time :=
  -- convert BCD to binary
  let time :=
    if status &&& 0x4 = 0 then
      { time with
        second := fromBcd time.second
        minute := fromBcd time.minute
        hour := ((time.hour &&& 0xF) + (time.hour &&& 0x70) / 16 * 10) + (time.hour &&& 0x80)
        day := fromBcd time.day
        month := fromBcd time.month
        year := fromBcd time.year }
    else time
  -- convert 12 hour clock to 24 hour clock
  if status &&& 0x02 = 0 ∧ time.hour &&& 0x80 ≠ 0 then
    { time with hour := BitVec.ofNat 8 (((time.hour &&& 0x7F).toNat + 12) % 24) }
  else time

/-- `cmos_time`. -/
def cmosTime (fuel : Nat) (d : Rtc) : Option (Time × Rtc) := do
  let d ← cmosTimeWait fuel d
  -- read RTC registers
  let (second, d) := cmosRead 0x00 d
  let (minute, d) := cmosRead 0x02 d
  let (hour, d) := cmosRead 0x04 d
  let (day, d) := cmosRead 0x07 d
  let (month, d) := cmosRead 0x08 d
  let (year, d) := cmosRead 0x09 d
  let (status, d) := cmosRead 0xB d
  return (convertTime status { second, minute, hour, day, month, year }, d)

end Hjortron
