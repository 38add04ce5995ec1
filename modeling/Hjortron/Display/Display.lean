import Hjortron.Misc.FlatMemory

/-!
# `kernel/src/display/display.c`

The text buffer at `DISPLAY_MEMORY` is a function of the index the code uses, without a bound:
that only cells of the screen are written is a theorem. The two ports of the CRT controller
select one of its registers and write it.
-/

namespace Hjortron

/-- `text_data`: one character cell, with colours of four bits. -/
structure TextData where
  code : Byte
  foreground : BitVec 4
  background : BitVec 4
  deriving DecidableEq, Repr

/-- `text_attribute`. -/
structure TextAttribute where
  background : Byte
  foreground : Byte
  deriving DecidableEq, Repr

/-- `DISPLAY_WIDTH`. -/
def displayWidth : Word := 80

/-- `DISPLAY_HEIGHT`. -/
def displayHeight : Word := 25

/-- `DEFAULT_BACKGROUND`, `COLOR_BLACK`. -/
def defaultBackground : BitVec 4 := 0x0

/-- `DEFAULT_FOREGROUND`, `COLOR_LIGHT_GRAY`. -/
def defaultForeground : BitVec 4 := 0x7

/-- The registers of the CRT controller behind the ports 0x3D4 and 0x3D5. -/
structure Crtc where
  index : Byte
  register : Byte → Byte

/-- `outb` to a port of the CRT controller. -/
def Crtc.outb (crtc : Crtc) (port : Half) (data : Byte) : Crtc :=
  if port = 0x3D4 then { crtc with index := data }
  else if port = 0x3D5 then { crtc with register := Function.update crtc.register crtc.index data }
  else crtc

/-- The static variables of `display.c` and the memory and the device they lead to. -/
structure Display where
  buffer : Word → TextData
  cursor : Word
  crtc : Crtc

/-! ## The fields of a cell -/

section

variable (buffer : Word → TextData) (i : Word)

def setCode (code : Byte) : Word → TextData :=
  Function.update buffer i { buffer i with code }

def setForeground (foreground : BitVec 4) : Word → TextData :=
  Function.update buffer i { buffer i with foreground }

def setBackground (background : BitVec 4) : Word → TextData :=
  Function.update buffer i { buffer i with background }

/-- The body of the two loops that blank cells. -/
def clearCell : Word → TextData :=
  let buffer := setCode buffer i 0
  let buffer := setForeground buffer i defaultForeground
  setBackground buffer i defaultBackground

end

/-- Blanks `n` cells from `i` on. -/
def clearCells (buffer : Word → TextData) (i : Word) : Nat → (Word → TextData)
  | 0 => buffer
  | n + 1 => clearCells (clearCell buffer i) (i + 1) n

/-- Copies the cell one row below over `n` cells from `i` on. -/
def shiftCells (buffer : Word → TextData) (i : Word) : Nat → (Word → TextData)
  | 0 => buffer
  | n + 1 => shiftCells (Function.update buffer i (buffer (i + displayWidth))) (i + 1) n

/-! ## The cursor -/

/-- `display_clear`. -/
def displayClear (d : Display) : Display :=
  let buffer := clearCells d.buffer 0 (displayWidth * displayHeight).toNat
  { d with buffer, cursor := 0 }

/-- The first part of `display_update_cursor`: shift the buffer to show the next row. -/
def displayScroll (d : Display) : Display :=
  if displayWidth * displayHeight ≤ d.cursor then
    let lastRow := displayWidth * (displayHeight - 1)
    let buffer := shiftCells d.buffer 0 lastRow.toNat
    let buffer := clearCells buffer lastRow (displayWidth * displayHeight - lastRow).toNat
    { d with buffer, cursor := lastRow }
  else
    d

/-- `display_update_cursor`. -/
def displayUpdateCursor (d : Display) : Display :=
  let d := displayScroll d
  let crtc := d.crtc.outb 0x3D4 0x0F
  let crtc := crtc.outb 0x3D5 ((d.cursor &&& 0xFF).setWidth 8)
  let crtc := crtc.outb 0x3D4 0x0E
  let crtc := crtc.outb 0x3D5 (((d.cursor >>> 8) &&& 0xFF).setWidth 8)
  { d with crtc }

/-- `putcf`. -/
def putcf (d : Display) (c : Byte) (attr : TextAttribute) : Display :=
  if c = 0 then
    d
  else if c = 10 then
    -- increment cursor to the next line
    displayUpdateCursor { d with
      cursor := d.cursor + (displayWidth - d.cursor % displayWidth) }
  else
    let buffer := setCode d.buffer d.cursor c
    let buffer := setForeground buffer d.cursor (attr.foreground.setWidth 4)
    let buffer := setBackground buffer d.cursor (attr.background.setWidth 4)
    displayUpdateCursor { d with buffer, cursor := d.cursor + 1 }

end Hjortron
