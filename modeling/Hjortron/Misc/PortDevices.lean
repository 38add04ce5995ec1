import Hjortron.Misc.FlatMemory

/-!
# A UART and a real-time clock

Two devices behind ports. The UART transmits a byte that is written while its transmitter is empty
and loses one that is written earlier; after each byte the line status shows the transmitter busy
for a number of reads. The clock holds the date and the time in registers that it may be about to
update: for a number of reads of register A the host is told to wait.
-/

namespace Hjortron

/-! ## The UART -/

/-- A UART behind the ports from `base` on. -/
structure Uart where
  base : Half
  /-- The number of reads of the line status that show the transmitter busy after each byte. -/
  delay : Nat → Nat
  /-- What has been put on the line, and what has not. -/
  sent : List Byte
  lost : List Byte
  busy : Nat
  lineControl : Byte
  interruptEnable : Byte
  divisorLow : Byte
  divisorHigh : Byte

namespace Uart

variable {d : Uart} {s t : List Byte} {c : Byte} {fuel : Nat}

/-- The divisor latch is accessible instead of the data. -/
def latched (d : Uart) : Bool := d.lineControl.getLsbD 7

/-- A byte for the transmitter. -/
def transmit (d : Uart) (c : Byte) : Uart :=
  if d.busy = 0 then { d with sent := d.sent ++ [c], busy := d.delay d.sent.length }
  else { d with lost := d.lost ++ [c] }

/-- `out` of a byte. -/
def outb (d : Uart) (port : Half) (c : Byte) : Uart :=
  let offset := port - d.base
  if offset = 0 then
    if d.latched then { d with divisorLow := c } else d.transmit c
  else if offset = 1 then
    if d.latched then { d with divisorHigh := c } else { d with interruptEnable := c }
  else if offset = 3 then
    { d with lineControl := c }
  else
    d

/-- `in` of a byte: only the line status is of interest here. Of its bits `0x20` tells that the
transmitter is empty. -/
def inb (d : Uart) (port : Half) : Byte × Uart :=
  if port - d.base = 5 then
    if d.busy = 0 then (0x60, d) else (0, { d with busy := d.busy - 1 })
  else
    (0, d)

/-- The UART after it has put `s` on the line. -/
def after (d : Uart) (s : List Byte) : Uart :=
  { d with
    sent := d.sent ++ s
    busy := if s = [] then d.busy else d.delay (d.sent.length + s.length - 1) }

/-- The transmitter is never busy for more than `fuel` reads on the way to the next `n` bytes. -/
def Within (d : Uart) (fuel n : Nat) : Prop :=
  d.busy < fuel ∧ ∀ k < n, d.delay (d.sent.length + k) < fuel

theorem after_nil : d.after [] = d := by
  simp [after]

theorem after_append : (d.after s).after t = d.after (s ++ t) := by
  unfold after
  cases t with
  | nil => simp
  | cons c t => simp [Nat.add_assoc]

theorem Within.after (h : d.Within fuel (s.length + t.length)) :
    (d.after s).Within fuel t.length := by
  constructor
  · unfold Uart.after
    split_ifs with hs
    · exact h.1
    · have hpos := List.length_pos_iff.mpr hs
      have hlast := h.2 (s.length - 1) (by omega)
      rwa [← Nat.add_sub_assoc hpos] at hlast
  · intro k hk
    have hnext := h.2 (s.length + k) (by omega)
    rw [← Nat.add_assoc] at hnext
    simpa [Uart.after] using hnext

theorem Within.mono {n k : Nat} (h : d.Within fuel n) (hk : k ≤ n) : d.Within fuel k :=
  ⟨h.1, fun i hi => h.2 i (by omega)⟩

theorem Within.fuel_mono {n fuel' : Nat} (h : d.Within fuel n) (hle : fuel ≤ fuel') :
    d.Within fuel' n :=
  ⟨Nat.lt_of_lt_of_le h.1 hle, fun k hk => Nat.lt_of_lt_of_le (h.2 k hk) hle⟩

theorem Within.left (h : d.Within fuel (s ++ t).length) : d.Within fuel s.length :=
  h.mono (by rw [List.length_append]; omega)

theorem Within.right (h : d.Within fuel (s ++ t).length) : (d.after s).Within fuel t.length := by
  rw [List.length_append] at h
  exact h.after

theorem exists_within (d : Uart) (n : Nat) : ∃ fuel, d.Within fuel n := by
  induction n with
  | zero => exact ⟨d.busy + 1, Nat.lt_succ_self _, fun k hk => absurd hk (Nat.not_lt_zero k)⟩
  | succ n ih =>
    rcases ih with ⟨fuel, hbusy, hdelay⟩
    refine ⟨max fuel (d.delay (d.sent.length + n) + 1), by omega, ?_⟩
    intro k hk
    by_cases hlast : k = n
    · subst hlast
      omega
    · have hlt := hdelay k (by omega)
      omega

end Uart

/-! ## The clock -/

/-- A clock behind the ports 0x70 and 0x71. -/
structure Rtc where
  index : Byte
  registers : Byte → Byte
  /-- The number of reads of register A that show an update in progress. -/
  updating : Nat

namespace Rtc

/-- `out` of a byte. -/
def outb (d : Rtc) (port : Half) (value : Byte) : Rtc :=
  if port = 0x70 then { d with index := value }
  else if port = 0x71 then { d with registers := Function.update d.registers d.index value }
  else d

/-- `in` of a byte. In register A the bit `0x80` tells that an update is in progress. -/
def inb (d : Rtc) (port : Half) : Byte × Rtc :=
  if port = 0x71 then
    if d.index = 0x0A then
      if d.updating = 0 then (d.registers 0x0A &&& 0x7F, d)
      else (d.registers 0x0A ||| 0x80, { d with updating := d.updating - 1 })
    else
      (d.registers d.index, d)
  else
    (0xFF, d)

/-- The device with a register selected and no update in progress. -/
def idle (d : Rtc) (index : Byte) : Rtc := { d with index, updating := 0 }

end Rtc

end Hjortron
