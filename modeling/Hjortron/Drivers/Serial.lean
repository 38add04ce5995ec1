import Hjortron.Format
import Hjortron.Misc.PortDevices

/-!
# `kernel/src/drivers/serial.c`

The driver talks to the UART port by port. The loop that waits for the transmitter has a number of
iterations left, and `none` stands for a call that does not return within it.
-/

namespace Hjortron

/-- `SERIAL_COM1`. -/
def serialCom1 : Half := 0x3F8

/-- `SERIAL_DATA_BITS_8`. -/
def serialDataBits8 : Byte := 0x03

/-- `serial_init`. -/
def serialInit (port : Half) (d : Uart) : Uart :=
  -- disable interrupts
  let d := d.outb (port + 1) 0x00
  -- set speed of serial line
  let d := d.outb (port + 3) 0x80
  let d := d.outb (port + 0) 0x03
  let d := d.outb (port + 1) 0x00
  -- set data bits
  d.outb (port + 3) serialDataBits8

/-- `serial_ready`. -/
def serialReady (port : Half) (d : Uart) : Bool × Uart :=
  let (status, d) := d.inb (port + 5)
  (status &&& 0x20 != 0, d)

/-- `serial_putc`. -/
def serialPutc (port : Half) (c : Byte) : Nat → Uart → Option Uart
  | 0, _ => none
  | fuel + 1, d =>
    let (ready, d) := serialReady port d
    if !ready then serialPutc port c fuel d else some (d.outb port c)

/-- `serial_puts`. -/
def serialPuts (fuel : Nat) (port : Half) (str : Chars) (d : Uart) : Option Uart :=
  (List.range str.strlen).foldlM (fun d i => serialPutc port (str i) fuel d) d

end Hjortron
