import Hjortron.Misc.FlatMemory

/-!
# An ATA device that transfers by programmed I/O

The host writes the registers of the command block and reads the data port. READ SECTORS in LBA
mode transfers as many sectors as the sector count register says, where 0 means 256, in blocks of
256 words. Before each block the device takes its time: a number of reads of the status register
show BSY, and then a number of them neither BSY nor DRQ. Behind the last block DRQ stays clear.
-/

namespace Hjortron

/-- A device with its transfer: `left` sectors from `next` on, of the first of them `word` words
already. The status register shows BSY for another `busy` reads and then no DRQ for `settle`. -/
structure AtaDevice where
  /-- The first port of the command block. -/
  base : Half
  /-- The bytes of each sector. -/
  sectors : Nat → Nat → Byte
  /-- The values of `busy` and `settle` at the start of each block. -/
  delay : Nat → Nat × Nat
  /-- The number of blocks started so far. -/
  blocks : Nat
  /-- The command block. The sector count is at 2, the address from 3 on and the drive at 6. -/
  registers : Half → Byte
  next : Nat
  left : Nat
  word : Nat
  busy : Nat
  settle : Nat

namespace AtaDevice

variable {d : AtaDevice} {start total i j : Nat}

/-- The 28-bit address in the registers. -/
def lba (d : AtaDevice) : BitVec 28 :=
  (d.registers 6).extractLsb' 0 4 ++ d.registers 5 ++ d.registers 4 ++ d.registers 3

/-- The number of sectors that the next command transfers. -/
def sectorCount (d : AtaDevice) : Nat := if d.registers 2 = 0 then 256 else (d.registers 2).toNat

/-- The device before the block of sector `next`, with `left` sectors to transfer. -/
def startBlock (d : AtaDevice) (next left : Nat) : AtaDevice :=
  { d with
    next, left
    word := 0
    busy := (d.delay d.blocks).1
    settle := (d.delay d.blocks).2
    blocks := d.blocks + 1 }

/-- A command: only READ SECTORS in LBA mode is of interest here. -/
def command (d : AtaDevice) (value : Byte) : AtaDevice :=
  if value = 0x20 ∧ (d.registers 6).getLsbD 6 = true then
    d.startBlock d.lba.toNat d.sectorCount
  else
    d

/-- `out` of a byte. -/
def outb (d : AtaDevice) (port : Half) (value : Byte) : AtaDevice :=
  let offset := port - d.base
  if offset = 7 then
    d.command value
  else if offset < 7 then
    { d with registers := Function.update d.registers offset value }
  else
    d

/-- The status register. Of its bits BSY is `0x80` and DRQ is `0x8`. -/
def status (d : AtaDevice) : Byte :=
  if d.left = 0 then 0x50 else if 0 < d.busy then 0x80 else if 0 < d.settle then 0x50 else 0x58

/-- The device after the status register has been read. -/
def poll (d : AtaDevice) : AtaDevice :=
  if d.left = 0 then d
  else if 0 < d.busy then { d with busy := d.busy - 1 }
  else { d with settle := d.settle - 1 }

/-- `in` of a byte. -/
def inb (d : AtaDevice) (port : Half) : Byte × AtaDevice :=
  let offset := port - d.base
  if offset = 7 then (d.status, d.poll)
  else if offset < 7 then (d.registers offset, d)
  else (0xFF, d)

/-- `in` of a word: the next word of the block, if there is one. -/
def inw (d : AtaDevice) (port : Half) : Half × AtaDevice :=
  if port = d.base ∧ 0 < d.left ∧ d.busy = 0 ∧ d.settle = 0 then
    (d.sectors d.next (2 * d.word + 1) ++ d.sectors d.next (2 * d.word),
      if d.word < 255 then { d with word := d.word + 1 }
      else d.startBlock (d.next + 1) (d.left - 1))
  else
    (0xFFFF, d)

/-- The device when `i` of the `total` sectors from `start` on have been transferred, counted from
a state in which it is about to start. -/
def serve (d : AtaDevice) (start total i : Nat) : AtaDevice :=
  { d with blocks := d.blocks + i }.startBlock (start + i) (total - i)

/-- The device with `j` words of that block transferred. -/
def serveWord (d : AtaDevice) (start total i j : Nat) : AtaDevice :=
  { d.serve start total i with busy := 0, settle := 0, word := j }

/-! ## Registers -/

theorem outb_register {offset : Half} (value : Byte) (h : offset < 7) :
    d.outb (d.base + offset) value =
      { d with registers := Function.update d.registers offset value } := by
  have hne : offset ≠ 7 := by
    rintro rfl
    exact absurd h (by decide)
  simp only [outb, add_sub_cancel_left, if_neg hne, if_pos h]

theorem outb_command (value : Byte) : d.outb (d.base + 7) value = d.command value := by
  simp only [outb, add_sub_cancel_left, if_true]

/-- READ SECTORS. -/
theorem command_read (hlba : (d.registers 6).getLsbD 6 = true) :
    d.command 0x20 = d.serve d.lba.toNat d.sectorCount 0 :=
  if_pos ⟨rfl, hlba⟩

/-! ## Status -/

theorem inb_status : d.inb (d.base + 7) = (d.status, d.poll) := by
  simp only [inb, add_sub_cancel_left, if_true]

/-- Other ports do not change the device. -/
theorem inb_snd {port : Half} (h : port - d.base ≠ 7) : (d.inb port).2 = d := by
  unfold inb
  simp only [if_neg h]
  split_ifs <;> rfl

/-! ## Data -/

theorem inw_serveWord (hi : i < total) (hj : j < 255) :
    (d.serveWord start total i j).inw d.base =
      (d.sectors (start + i) (2 * j + 1) ++ d.sectors (start + i) (2 * j),
        d.serveWord start total i (j + 1)) := by
  have hleft : 0 < total - i := by omega
  simp only [inw, serveWord, serve, startBlock, hleft, hj, and_self, if_true]

/-- The last word of a block. -/
theorem inw_last (hi : i < total) :
    (d.serveWord start total i 255).inw d.base =
      (d.sectors (start + i) 511 ++ d.sectors (start + i) 510, d.serve start total (i + 1)) := by
  have hleft : 0 < total - i := by omega
  simp only [inw, serveWord, serve, startBlock, hleft, and_self, if_true, Nat.lt_irrefl,
    if_false, Nat.sub_sub, Nat.add_assoc]

end AtaDevice

end Hjortron
