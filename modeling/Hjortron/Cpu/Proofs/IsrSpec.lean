import Hjortron.Cpu.Isr

/-!
# Frames of registers

The stubs push seventeen words, the structure `regs` up to `eflags`, and `isr_restore` pops them.
`FrameAt m r c` says that the frame at `r` holds the registers `c`: the stack pointer among them is
the one above the frame, and not the word that `pushad` leaves.
-/

namespace Hjortron

/-- The frame at `r` holds the registers `c`. -/
structure FrameAt (m : Mem) (r : Word) (c : Processor) : Prop where
  gs : (m.load32 r).setWidth 16 = c.gs
  fs : (m.load32 (r + 4)).setWidth 16 = c.fs
  es : (m.load32 (r + 8)).setWidth 16 = c.es
  ds : (m.load32 (r + 12)).setWidth 16 = c.ds
  edi : m.load32 (r + 16) = c.edi
  esi : m.load32 (r + 20) = c.esi
  ebp : m.load32 (r + 24) = c.ebp
  ebx : m.load32 (r + 32) = c.ebx
  edx : m.load32 (r + 36) = c.edx
  ecx : m.load32 (r + 40) = c.ecx
  eax : m.load32 (r + 44) = c.eax
  eip : m.load32 (r + 56) = c.eip
  cs : (m.load32 (r + 60)).setWidth 16 = c.cs
  eflags : m.load32 (r + 64) = c.eflags
  esp : c.esp = r + 68

/-- The words of a frame in the order in which they are pushed. -/
def frameWords (c : Processor) (n : Nat) (errorCode : Option Word) : List Word :=
  [c.eflags, c.cs.setWidth 32, c.eip, errorCode.getD 0, BitVec.ofNat 32 n, c.eax, c.ecx, c.edx,
    c.ebx, c.esp - 20, c.ebp, c.esi, c.edi, c.ds.setWidth 32, c.es.setWidth 32, c.fs.setWidth 32,
    c.gs.setWidth 32]

variable {s : X86} {m m' : Mem} {r x : Word} {c : Processor} {n : Nat} {gate : Gate}
  {errorCode : Option Word}

theorem setWidth_selector (v : Half) : (v.setWidth 32).setWidth 16 = v := by
  rw [BitVec.setWidth_setWidth_of_le v (by decide), BitVec.setWidth_eq]

/-- A frame is where it is as long as nothing writes to it. -/
theorem FrameAt.congr (h : FrameAt m r c) (hm : ∀ x, InRange r 68 x → m' x = m x) :
    FrameAt m' r c := by
  have hload : ∀ i : Word, i.toNat + 4 ≤ 68 → m'.load32 (r + i) = m.load32 (r + i) :=
    fun i hi => Mem.load32_member_congr hi hm
  have hfirst : m'.load32 r = m.load32 r := by simpa using hload 0 (by decide)
  constructor
  case gs => rw [hfirst, h.gs]
  case esp => exact h.esp
  all_goals rw [hload _ (by decide)]
  · exact h.fs
  · exact h.es
  · exact h.ds
  · exact h.edi
  · exact h.esi
  · exact h.ebp
  · exact h.ebx
  · exact h.edx
  · exact h.ecx
  · exact h.eax
  · exact h.eip
  · exact h.cs
  · exact h.eflags

/-- `isr_restore` puts the registers of the frame on the processor. -/
theorem exec_isrRestore (h : FrameAt s.mem s.cpu.esp c) : s.exec isrRestore = ⟨c, s.mem⟩ := by
  obtain ⟨cpu, m⟩ := s
  obtain ⟨eax, ecx, edx, ebx, esp, ebp, esi, edi, eip, eflags, cs, ds, es, fs, gs⟩ := cpu
  obtain ⟨hgs, hfs, hes, hds, hedi, hesi, hebp, hebx, hedx, hecx, heax, heip, hcs, heflags, hesp⟩ :=
    h
  dsimp only at hgs hfs hes hds hedi hesi hebp hebx hedx hecx heax heip hcs heflags hesp
  simp only [X86.exec, isrRestore, List.foldl_cons, List.foldl_nil, X86.step, X86.stackWord,
    Processor.setSegment, BitVec.add_assoc, BitVec.reduceAdd, BitVec.ofNat_eq_ofNat,
    BitVec.add_zero] at *
  simp only [hgs, hfs, hes, hds, hedi, hesi, hebp, hebx, hedx, hecx, heax, heip, hcs, heflags,
    ← hesp]

/-- What follows the call drops the argument first. -/
theorem exec_isrReturn (h : FrameAt s.mem r c) (hesp : s.cpu.esp = r - 4) :
    s.exec isrReturn = ⟨c, s.mem⟩ := by
  have hcode : isrReturn = [.popEax] ++ isrRestore := rfl
  have hr : s.cpu.esp + 4 = r := by bv_omega
  rw [hcode, X86.exec_append]
  apply exec_isrRestore
  simp only [X86.exec, List.foldl_cons, List.foldl_nil, X86.step, hr]
  exact h

/-- `iret` on what the gate pushed goes back to the interrupted code. -/
theorem exec_isrIgnore :
    (s.interrupt gate none).exec isrIgnore =
      ⟨s.cpu, (s.pushAll [s.cpu.eflags, s.cpu.cs.setWidth 32, s.cpu.eip]).mem⟩ := by
  generalize hvs : [s.cpu.eflags, s.cpu.cs.setWidth 32, s.cpu.eip] = vs
  have hlen : vs.length = 3 := hvs ▸ rfl
  have hcpu : (s.pushAll vs).cpu = { s.cpu with esp := s.cpu.esp - 12 } := by
    rw [X86.pushAll_cpu, hlen]
    rfl
  have hesp : s.cpu.esp - 12 + 12 = s.cpu.esp := by bv_omega
  have hword : ∀ i (hi : i < vs.length),
      (s.pushAll vs).mem.load32 (s.cpu.esp - BitVec.ofNat 32 (4 * (i + 1))) = vs[i] :=
    fun i hi => X86.pushAll_load32 (by omega) hi
  have heip : (s.pushAll vs).mem.load32 (s.cpu.esp - 12 + 0) = s.cpu.eip := by
    have h12 : s.cpu.esp - 12 + 0 = s.cpu.esp - BitVec.ofNat 32 (4 * (2 + 1)) := by bv_omega
    rw [h12, hword 2 (by omega)]
    simp only [← hvs]
    rfl
  have hcs : (s.pushAll vs).mem.load32 (s.cpu.esp - 12 + 4) = s.cpu.cs.setWidth 32 := by
    have h8 : s.cpu.esp - 12 + 4 = s.cpu.esp - BitVec.ofNat 32 (4 * (1 + 1)) := by bv_omega
    rw [h8, hword 1 (by omega)]
    simp only [← hvs]
    rfl
  have heflags : (s.pushAll vs).mem.load32 (s.cpu.esp - 12 + 8) = s.cpu.eflags := by
    have h4 : s.cpu.esp - 12 + 8 = s.cpu.esp - BitVec.ofNat 32 (4 * (0 + 1)) := by bv_omega
    rw [h4, hword 0 (by omega)]
    simp only [← hvs]
    rfl
  simp only [X86.interrupt, Option.toList_none, List.append_nil, hvs, isrIgnore, X86.exec,
    List.foldl_cons, List.foldl_nil, X86.step, X86.stackWord, hcpu, heip, hcs, heflags, hesp,
    setWidth_selector]

/-! ## Entry -/

/-- What is on the processor when a stub calls `irq_handler`. -/
def enteredCpu (c : Processor) (gate : Gate) : Processor :=
  { c with
    eax := c.esp - 68
    esp := c.esp - 72
    eip := gate.offset
    eflags := c.eflags &&& ~~~gateFlags &&& ~~~interruptFlag
    cs := gate.selector }

/-- The words that the gate and the stub push. -/
def entryWords (c : Processor) (n : Nat) (errorCode : Option Word) : List Word :=
  [c.eflags, c.cs.setWidth 32, c.eip, errorCode.getD 0, BitVec.ofNat 32 n]

/-- The words that `isr_common` pushes. -/
def commonWords (c : Processor) : List Word :=
  [c.eax, c.ecx, c.edx, c.ebx, c.esp, c.ebp, c.esi, c.edi, c.ds.setWidth 32, c.es.setWidth 32,
    c.fs.setWidth 32, c.gs.setWidth 32]

/-- A stub pushes what the gate left out, with interrupts off. -/
theorem exec_isrStub (herr : errorCode.isSome = hasErrorCode n) :
    (s.interrupt gate errorCode).exec (isrStub n) =
      ⟨{ (s.pushAll (entryWords s.cpu n errorCode)).cpu with
          eflags := s.cpu.eflags &&& ~~~gateFlags &&& ~~~interruptFlag
          cs := gate.selector
          eip := gate.offset },
        (s.pushAll (entryWords s.cpu n errorCode)).mem⟩ := by
  cases errorCode with
  | none =>
    have hn : hasErrorCode n = false := herr.symm
    simp only [isrStub, hn, Bool.false_eq_true, if_false]
    rfl
  | some e =>
    have hn : hasErrorCode n = true := herr.symm
    simp only [isrStub, hn, if_true]
    rfl

theorem exec_pushes :
    s.exec [.pushad, .pushSegment .ds, .pushSegment .es, .pushSegment .fs, .pushSegment .gs] =
      s.pushAll (commonWords s.cpu) := by
  have hpushad : s.step .pushad =
      s.pushAll [s.cpu.eax, s.cpu.ecx, s.cpu.edx, s.cpu.ebx, s.cpu.esp, s.cpu.ebp, s.cpu.esi,
        s.cpu.edi] := rfl
  simp only [X86.exec, List.foldl_cons, List.foldl_nil]
  rw [hpushad, X86.pushAll_step_pushSegment, X86.pushAll_step_pushSegment,
    X86.pushAll_step_pushSegment, X86.pushAll_step_pushSegment]
  simp only [List.cons_append, List.nil_append, Processor.segment, commonWords]

/-- `isr_common` pushes the other registers and the address of the frame. -/
theorem exec_isrCommon :
    s.exec isrCommon =
      ⟨{ s.cpu with
          eax := s.cpu.esp - 48
          esp := s.cpu.esp - 52 },
        (s.pushAll (commonWords s.cpu ++ [s.cpu.esp - 48])).mem⟩ := by
  have hcode : isrCommon =
      [.pushad, .pushSegment .ds, .pushSegment .es, .pushSegment .fs, .pushSegment .gs] ++
        [.movEaxEsp, .pushEax] := rfl
  have hcpu : (s.pushAll (commonWords s.cpu)).cpu = { s.cpu with esp := s.cpu.esp - 48 } :=
    X86.pushAll_cpu
  have hesp : s.cpu.esp - 48 - 4 = s.cpu.esp - 52 := by bv_omega
  rw [hcode, X86.exec_append, exec_pushes, X86.pushAll_concat]
  simp only [X86.exec, List.foldl_cons, List.foldl_nil, X86.step, X86.push, hcpu, hesp]

/-- From the interrupt to the call of `irq_handler`: the frame lies below the stack of the
interrupted code, and its address is the argument. -/
theorem exec_entry (herr : errorCode.isSome = hasErrorCode n) :
    (s.interrupt gate errorCode).exec (isrStub n ++ isrCommon) =
      ⟨enteredCpu s.cpu gate,
        (s.pushAll (frameWords s.cpu n errorCode ++ [s.cpu.esp - 68])).mem⟩ := by
  have hentry : (s.pushAll (entryWords s.cpu n errorCode)).cpu =
      { s.cpu with esp := s.cpu.esp - 20 } := X86.pushAll_cpu
  have h48 : s.cpu.esp - 20 - 48 = s.cpu.esp - 68 := by bv_omega
  have h52 : s.cpu.esp - 20 - 52 = s.cpu.esp - 72 := by bv_omega
  have hframe : frameWords s.cpu n errorCode =
      entryWords s.cpu n errorCode ++ commonWords { s.cpu with esp := s.cpu.esp - 20 } := rfl
  have hpushed : s.pushAll (frameWords s.cpu n errorCode ++ [s.cpu.esp - 68]) =
      (s.pushAll (entryWords s.cpu n errorCode)).pushAll
        (commonWords { s.cpu with esp := s.cpu.esp - 20 } ++ [s.cpu.esp - 68]) := by
    rw [hframe, List.append_assoc, X86.pushAll_append]
  rw [X86.exec_append, exec_isrStub herr, exec_isrCommon, hpushed]
  simp only [hentry, h48, h52, enteredCpu, commonWords, X86.mk.injEq, true_and]
  exact X86.pushAll_mem_congr rfl (congrArg Processor.esp hentry).symm

/-- Word `i` of a pushed frame, counted from the last one pushed. -/
theorem pushed_load32 {i : Nat} (hi : i ≤ 16) :
    (s.pushAll (frameWords s.cpu n errorCode ++ [s.cpu.esp - 68])).mem.load32
        (s.cpu.esp - 68 + BitVec.ofNat 32 (4 * i)) =
      (frameWords s.cpu n errorCode).get ⟨16 - i, by simp [frameWords]; omega⟩ := by
  have hlen : (frameWords s.cpu n errorCode ++ [s.cpu.esp - 68]).length = 18 := rfl
  have haddr : s.cpu.esp - 68 + BitVec.ofNat 32 (4 * i) =
      s.cpu.esp - BitVec.ofNat 32 (4 * (16 - i + 1)) := by bv_omega
  rw [haddr, X86.pushAll_load32 (by omega) (by omega)]
  exact List.getElem_append_left _

/-- The frame that a stub pushes holds the registers of the interrupted code. -/
theorem frameAt_entry :
    FrameAt (s.pushAll (frameWords s.cpu n errorCode ++ [s.cpu.esp - 68])).mem (s.cpu.esp - 68)
      s.cpu := by
  generalize hm : (s.pushAll (frameWords s.cpu n errorCode ++ [s.cpu.esp - 68])).mem = m
  have hword : ∀ i (hi : i ≤ 16), m.load32 (s.cpu.esp - 68 + BitVec.ofNat 32 (4 * i)) =
      (frameWords s.cpu n errorCode).get ⟨16 - i, by simp [frameWords]; omega⟩ := by
    intro i hi
    rw [← hm]
    exact pushed_load32 hi
  constructor
  case gs =>
    have hfirst := hword 0 (by decide)
    rw [Nat.mul_zero, BitVec.add_zero] at hfirst
    exact (congrArg _ hfirst).trans (setWidth_selector _)
  case fs => exact (congrArg _ (hword 1 (by decide))).trans (setWidth_selector _)
  case es => exact (congrArg _ (hword 2 (by decide))).trans (setWidth_selector _)
  case ds => exact (congrArg _ (hword 3 (by decide))).trans (setWidth_selector _)
  case cs => exact (congrArg _ (hword 15 (by decide))).trans (setWidth_selector _)
  case edi => exact hword 4 (by decide)
  case esi => exact hword 5 (by decide)
  case ebp => exact hword 6 (by decide)
  case ebx => exact hword 8 (by decide)
  case edx => exact hword 9 (by decide)
  case ecx => exact hword 10 (by decide)
  case eax => exact hword 11 (by decide)
  case eip => exact hword 14 (by decide)
  case eflags => exact hword 16 (by decide)
  case esp => bv_omega

/-- The frame that a stub pushes holds the number of the interrupt and its error code. -/
theorem regs_entry (h : (s.pushAll (frameWords s.cpu n errorCode ++ [s.cpu.esp - 68])).mem = m) :
    regsIrq m (s.cpu.esp - 68) = BitVec.ofNat 32 n ∧
      regsErr m (s.cpu.esp - 68) = errorCode.getD 0 ∧
      m.load32 (s.cpu.esp - 72) = s.cpu.esp - 68 := by
  have hlen : (frameWords s.cpu n errorCode ++ [s.cpu.esp - 68]).length = 18 := rfl
  rw [← h]
  refine ⟨pushed_load32 (i := 12) (by decide), pushed_load32 (i := 13) (by decide), ?_⟩
  apply (X86.pushAll_load32 (i := 17) (by omega) (by omega)).trans
  exact List.getElem_concat_length rfl _

end Hjortron
