import Hjortron.Misc.FlatMemory

/-!
# The stack instructions and interrupts of an x86 processor

A processor in 32-bit mode with flat segments and one privilege level, as far as code needs it that
saves and restores registers: pushes and pops, the entry through an interrupt gate, and `iret`.
Selectors are pushed with zeros above them. Within straight-line code `eip` is not advanced; it is
where execution goes on after the next `iret`, which sets it. Flags that `add` sets are left out.
-/

namespace Hjortron

/-- The registers. -/
structure Processor where
  eax : Word
  ecx : Word
  edx : Word
  ebx : Word
  esp : Word
  ebp : Word
  esi : Word
  edi : Word
  eip : Word
  eflags : Word
  cs : Half
  ds : Half
  es : Half
  fs : Half
  gs : Half
  deriving DecidableEq, Repr

/-- The segment registers that code can push and pop. -/
inductive SegmentRegister
  | ds
  | es
  | fs
  | gs
  deriving DecidableEq, Repr

def Processor.segment (c : Processor) : SegmentRegister → Half
  | .ds => c.ds
  | .es => c.es
  | .fs => c.fs
  | .gs => c.gs

def Processor.setSegment (c : Processor) (v : Half) : SegmentRegister → Processor
  | .ds => { c with ds := v }
  | .es => { c with es := v }
  | .fs => { c with fs := v }
  | .gs => { c with gs := v }

/-- The interrupt flag. -/
def interruptFlag : Word := 0x200

/-- The flags TF, IF, NT, RF and VM, which an interrupt gate clears. -/
def gateFlags : Word := 0x34300

/-- The registers and the memory. -/
structure X86 where
  cpu : Processor
  mem : Mem

inductive Instruction
  | cli
  | pushImm (v : Word)
  | pushEax
  | popEax
  | pushSegment (r : SegmentRegister)
  | popSegment (r : SegmentRegister)
  | pushad
  | popad
  | movEaxEsp
  | addEsp (n : Word)
  | iret
  deriving DecidableEq, Repr

namespace X86

/-- Pushes a word. -/
def push (s : X86) (v : Word) : X86 where
  cpu := { s.cpu with esp := s.cpu.esp - 4 }
  mem := s.mem.store32 (s.cpu.esp - 4) v

/-- Pushes words, the first of them first. -/
def pushAll (s : X86) (vs : List Word) : X86 := vs.foldl push s

/-- The word on top of the stack, `i` bytes into it. -/
def stackWord (s : X86) (i : Word) : Word := s.mem.load32 (s.cpu.esp + i)

def step (s : X86) : Instruction → X86
  | .cli => { s with cpu.eflags := s.cpu.eflags &&& ~~~interruptFlag }
  | .pushImm v => s.push v
  | .pushEax => s.push s.cpu.eax
  | .popEax => { s with cpu.eax := s.stackWord 0, cpu.esp := s.cpu.esp + 4 }
  | .pushSegment r => s.push ((s.cpu.segment r).setWidth 32)
  | .popSegment r =>
    { s with cpu := { s.cpu.setSegment ((s.stackWord 0).setWidth 16) r with esp := s.cpu.esp + 4 } }
  | .pushad =>
    let c := s.cpu
    s.pushAll [c.eax, c.ecx, c.edx, c.ebx, c.esp, c.ebp, c.esi, c.edi]
  | .popad =>
    { s with
      cpu.edi := s.stackWord 0
      cpu.esi := s.stackWord 4
      cpu.ebp := s.stackWord 8
      cpu.ebx := s.stackWord 16
      cpu.edx := s.stackWord 20
      cpu.ecx := s.stackWord 24
      cpu.eax := s.stackWord 28
      cpu.esp := s.cpu.esp + 32 }
  | .movEaxEsp => { s with cpu.eax := s.cpu.esp }
  | .addEsp n => { s with cpu.esp := s.cpu.esp + n }
  | .iret =>
    { s with
      cpu.eip := s.stackWord 0
      cpu.cs := (s.stackWord 4).setWidth 16
      cpu.eflags := s.stackWord 8
      cpu.esp := s.cpu.esp + 12 }

/-- Instructions one after the other. -/
def exec (s : X86) (code : List Instruction) : X86 := code.foldl step s

end X86

/-- An interrupt gate. -/
structure Gate where
  selector : Half
  offset : Word
  deriving DecidableEq, Repr

/-- The entry through an interrupt gate; exceptions with an error code push it last. -/
def X86.interrupt (s : X86) (gate : Gate) (errorCode : Option Word) : X86 :=
  let pushed := s.pushAll ([s.cpu.eflags, s.cpu.cs.setWidth 32, s.cpu.eip] ++ errorCode.toList)
  { pushed with
    cpu.eflags := s.cpu.eflags &&& ~~~gateFlags
    cpu.cs := gate.selector
    cpu.eip := gate.offset }

namespace X86

variable {s : X86} {v : Word} {vs ws : List Word} {x : Word} {i : Nat}

theorem exec_append {code code' : List Instruction} :
    s.exec (code ++ code') = (s.exec code).exec code' := List.foldl_append

/-! ## Pushing words -/

theorem pushAll_append : s.pushAll (vs ++ ws) = (s.pushAll vs).pushAll ws := List.foldl_append

theorem pushAll_concat : s.pushAll (vs ++ [v]) = (s.pushAll vs).push v := pushAll_append

theorem pushAll_cpu :
    (s.pushAll vs).cpu = { s.cpu with esp := s.cpu.esp - BitVec.ofNat 32 (4 * vs.length) } := by
  induction vs generalizing s with
  | nil => simp [pushAll]
  | cons v vs ih =>
    have hesp : s.cpu.esp - 4 - BitVec.ofNat 32 (4 * vs.length) =
        s.cpu.esp - BitVec.ofNat 32 (4 * (v :: vs).length) := by
      rw [List.length_cons]
      bv_omega
    change ((s.push v).pushAll vs).cpu = _
    rw [ih, push]
    simp only [hesp]

/-- What is pushed depends on the stack only. -/
theorem pushAll_mem_congr {s' : X86} (hmem : s.mem = s'.mem) (hesp : s.cpu.esp = s'.cpu.esp) :
    (s.pushAll vs).mem = (s'.pushAll vs).mem := by
  induction vs generalizing s s' with
  | nil => exact hmem
  | cons v vs ih =>
    apply ih
    · simp only [push, hmem, hesp]
    · simp only [push, hesp]

theorem pushAll_step_pushSegment {r : SegmentRegister} :
    (s.pushAll vs).step (.pushSegment r) =
      s.pushAll (vs ++ [(s.cpu.segment r).setWidth 32]) := by
  have hsegment : (s.pushAll vs).cpu.segment r = s.cpu.segment r := by
    rw [pushAll_cpu]
    cases r <;> rfl
  rw [pushAll_concat, step, hsegment]

/-- Pushes write below the stack pointer only. -/
theorem pushAll_of_not_inRange (hlen : 4 * vs.length ≤ 2 ^ 32)
    (hx : ¬ InRange (s.cpu.esp - BitVec.ofNat 32 (4 * vs.length)) (4 * vs.length) x) :
    (s.pushAll vs).mem x = s.mem x := by
  induction vs generalizing s with
  | nil => rfl
  | cons v vs ih =>
    change ((s.push v).pushAll vs).mem x = _
    rw [List.length_cons] at hlen hx
    rw [ih (by omega)]
    · apply Mem.store32_of_not_inRange
      unfold InRange at hx ⊢
      bv_omega
    · rw [push]
      unfold InRange at hx ⊢
      bv_omega

/-- Word `i` of the pushed words. -/
theorem pushAll_load32 (hlen : 4 * vs.length ≤ 2 ^ 32) (hi : i < vs.length) :
    (s.pushAll vs).mem.load32 (s.cpu.esp - BitVec.ofNat 32 (4 * (i + 1))) = vs[i] := by
  induction vs generalizing s i with
  | nil => cases hi
  | cons v vs ih =>
    change ((s.push v).pushAll vs).mem.load32 _ = _
    rw [List.length_cons] at hlen hi
    cases i with
    | zero =>
      have hsame : ((s.push v).pushAll vs).mem.load32 (s.cpu.esp - 4) =
          (s.push v).mem.load32 (s.cpu.esp - 4) := by
        apply Mem.load32_congr
        intro y hy
        apply pushAll_of_not_inRange (by omega)
        rw [push]
        unfold InRange at hy ⊢
        bv_omega
      exact hsame.trans Mem.load32_store32_self
    | succ i =>
      have haddr : s.cpu.esp - BitVec.ofNat 32 (4 * (i + 1 + 1)) =
          (s.push v).cpu.esp - BitVec.ofNat 32 (4 * (i + 1)) := by
        rw [push]
        bv_omega
      rw [haddr, ih (by omega) (by omega)]
      rfl

end X86

end Hjortron
