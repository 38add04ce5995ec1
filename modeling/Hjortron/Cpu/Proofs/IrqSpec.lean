import Hjortron.Cpu.Irq
import Hjortron.Cpu.Proofs.IsrSpec

/-!
# The way of an interrupt

From the processor through the table and a stub to a handler, and back to the interrupted code.
`StubsAt code isr ignore` says that the stubs of `isr.s` lie at their addresses.
-/

namespace Hjortron

/-- The stubs lie at their addresses. -/
structure StubsAt (code : Word → List Instruction) (isr : Nat → Word) (ignore : Word) : Prop where
  isr : ∀ n, HasStub n → code (isr n) = isrStub n ++ isrCommon
  ignore : code ignore = isrIgnore

variable {H : Type} {s t u : X86} {code : Word → List Instruction} {isr : Nat → Word}
  {ignore : Word} {n : Nat} {errorCode : Option Word} {handlers : Handlers H}

/-! ## The table -/

theorem append_halves (w : Word) :
    (w >>> 16 &&& 0xFFFF).setWidth 16 ++ (w &&& 0xFFFF).setWidth 16 = w := by
  have hlow : ∀ x : Word, (x &&& 0xFFFF).setWidth 16 = x.setWidth 16 := by
    intro x
    apply BitVec.eq_of_toNat_eq
    simp only [BitVec.toNat_setWidth, BitVec.toNat_and]
    exact (congrArg (· % 2 ^ 16) (Nat.and_two_pow_sub_one_eq_mod x.toNat 16)).trans
      (Nat.mod_mod _ _)
  rw [hlow, hlow]
  ext i hi
  rw [BitVec.getElem_append, ← BitVec.getLsbD_eq_getElem]
  split
  · simp
  · simp only [BitVec.getElem_setWidth, BitVec.getLsbD_ushiftRight]
    congr 1
    omega

theorem irqInitIdt_flags {handler : Word} :
    (irqInitIdt 0x08 handler 0 idtGateTypeInterrupt32).flags = 0x8E := by
  simp only [irqInitIdt, idtGateTypeInterrupt32]
  decide

/-- The processor reads the gate that an entry was made for. -/
theorem gate?_irqInitIdt {handler : Word} :
    (irqInitIdt 0x08 handler 0 idtGateTypeInterrupt32).gate? = some ⟨8, handler⟩ := by
  have hpresent : (irqInitIdt 0x08 handler 0 idtGateTypeInterrupt32).flags &&& 0x9F = 0x8E := by
    rw [irqInitIdt_flags]
    decide
  rw [IdtEntry.gate?, if_pos hpresent, Option.some_inj, Gate.mk.injEq]
  exact ⟨rfl, append_halves handler⟩

theorem foldl_set_range {α : Type} (f : Nat → α) (k : Nat) (xs : List α) (i : Nat) :
    ((List.range k).foldl (fun xs n => xs.set n (f n)) xs)[i]? =
      if i < k then xs[i]?.map fun _ => f i else xs[i]? := by
  induction k with
  | zero => rfl
  | succ k ih =>
    rw [List.range_succ, List.foldl_append, List.foldl_cons, List.foldl_nil,
      List.getElem?_set']
    by_cases hik : k = i
    · subst hik
      rw [if_pos rfl, ih, if_neg (Nat.lt_irrefl k), if_pos (Nat.lt_succ_self k)]
      rfl
    · rw [if_neg hik, ih]
      have hlt : i < k ↔ i < k + 1 := by omega
      simp only [hlt]

/-- Every vector but the last one has a gate, which leads to its stub if it has one. -/
theorem irqInit_gate? :
    (irqInit isr ignore)[n]?.bind IdtEntry.gate? =
      if HasStub n then some ⟨8, isr n⟩ else if n < 255 then some ⟨8, ignore⟩ else none := by
  rw [irqInit, List.getElem?_set', foldl_set_range, List.getElem?_replicate, idtSize]
  by_cases hn : n < 255
  · have hentry : ∀ handler, Option.bind (some (irqInitIdt 0x08 handler 0 idtGateTypeInterrupt32))
        IdtEntry.gate? = some ⟨8, handler⟩ := fun _ => gate?_irqInitIdt
    by_cases hlast : 128 = n
    · have hstub : HasStub n := Or.inr hlast.symm
      subst hlast
      rw [if_pos rfl, if_pos hstub]
      exact hentry _
    · rw [if_neg hlast, if_pos hn]
      by_cases h48 : n < 48
      · have hstub : HasStub n := Or.inl h48
        rw [if_pos h48, if_pos hstub]
        exact hentry _
      · have hstub : ¬ HasStub n := by
          unfold HasStub
          omega
        rw [if_neg h48, if_neg hstub, if_pos hn]
        exact hentry _
  · have hstub : ¬ HasStub n := by
      unfold HasStub
      omega
    have h128 : ¬ 128 = n := by omega
    have h48 : ¬ n < 48 := by omega
    rw [if_neg h128, if_neg h48, if_neg hn, if_neg hstub, if_neg hn]
    rfl

theorem takeInterrupt_eq :
    s.takeInterrupt (irqInit isr ignore) code n errorCode =
      (if HasStub n then some (isr n) else if n < 255 then some ignore else none).map fun a =>
        (s.interrupt ⟨8, a⟩ errorCode).exec (code a) := by
  have hbind : s.takeInterrupt (irqInit isr ignore) code n errorCode =
      ((irqInit isr ignore)[n]?.bind IdtEntry.gate?).map fun gate =>
        (s.interrupt gate errorCode).exec (code gate.offset) := by
    rw [X86.takeInterrupt]
    cases (irqInit isr ignore)[n]? with
    | none => rfl
    | some entry => cases hgate : entry.gate? <;> simp [hgate]
  rw [hbind, irqInit_gate?]
  split
  · rfl
  · split <;> rfl

/-! ## Handlers -/

/-- What happens to the table of handlers. It has no entry for vector 255. -/
inductive HandlerEvent (H : Type)
  | init (irq : Byte) (inside : irq.toNat < idtSize) (handler : H)
  | terminate (irq : Byte) (inside : irq.toNat < idtSize)

def HandlerEvent.irq : HandlerEvent H → Byte
  | .init irq _ _ => irq
  | .terminate irq _ => irq

def HandlerEvent.handler? : HandlerEvent H → Option H
  | .init _ _ handler => some handler
  | .terminate _ _ => none

def HandlerEvent.apply (handlers : Handlers H) : HandlerEvent H → Handlers H
  | .init irq _ handler => irqInitHandler handlers irq handler
  | .terminate irq _ => irqTerminateHandler handlers irq

/-- The table of handlers after a run, from the empty one. -/
def handlersAfter (events : List (HandlerEvent H)) : Handlers H :=
  events.foldl HandlerEvent.apply fun _ => none

/-- The handler of a vector is the one of the last event about it. -/
theorem handlersAfter_eq {events : List (HandlerEvent H)} {irq : Byte} :
    handlersAfter events (irq.setWidth 32) =
      (events.reverse.find? (·.irq = irq)).bind HandlerEvent.handler? := by
  induction events using List.reverseRecOn with
  | nil => rfl
  | append_singleton events event ih =>
    have hafter : handlersAfter (events ++ [event]) = event.apply (handlersAfter events) :=
      List.foldl_append
    have hirq : irq.setWidth 32 = event.irq.setWidth 32 ↔ event.irq = irq := by
      constructor
      · intro h
        bv_omega
      · intro h
        rw [h]
    have happly : event.apply (handlersAfter events) (irq.setWidth 32) =
        if event.irq = irq then event.handler? else handlersAfter events (irq.setWidth 32) := by
      cases event with
      | init i inside handler => exact (Function.update_apply ..).trans (if_congr hirq rfl rfl)
      | terminate i inside => exact (Function.update_apply ..).trans (if_congr hirq rfl rfl)
    rw [hafter, happly, List.reverse_append, List.reverse_singleton, List.singleton_append,
      List.find?_cons, ih]
    by_cases h : event.irq = irq
    · simp [h]
    · simp [h]

/-- Which controllers are told that an interrupt has been taken. -/
theorem picEoi_eq {irq : Byte} :
    picEoi irq =
      if 32 ≤ irq.toNat ∧ irq.toNat < 40 then [(0x20, 0x20)]
      else if 40 ≤ irq.toNat ∧ irq.toNat < 48 then [(0x20, 0x20), (0xA0, 0x20)] else [] := by
  have hrange : 0x20 ≤ irq ∧ irq ≤ 0x28 + 7 ↔ 32 ≤ irq.toNat ∧ irq.toNat < 48 := by
    bv_omega
  have hsecond : 0x28 ≤ irq ↔ 40 ≤ irq.toNat := by bv_omega
  simp only [picEoi, hrange, hsecond]
  split_ifs <;> first | rfl | omega

/-! ## A machine with stubs -/

/-- Addresses of stubs, sixteen bytes apart. -/
def stubAddress (n : Nat) : Word := BitVec.ofNat 32 (0x1000 + 16 * n)

def stubCode (a : Word) : List Instruction :=
  if a = 0x800 then isrIgnore else isrStub ((a.toNat - 0x1000) / 16) ++ isrCommon

theorem stubsAt_stubCode : StubsAt stubCode stubAddress 0x800 where
  isr := by
    intro n hn
    unfold HasStub at hn
    have haddr : (stubAddress n).toNat = 0x1000 + 16 * n := by
      rw [stubAddress, BitVec.toNat_ofNat]
      omega
    have hne : stubAddress n ≠ 0x800 := by
      intro h
      rw [h] at haddr
      have h800 : (0x800 : Word).toNat = 0x800 := rfl
      omega
    have hindex : (0x1000 + 16 * n - 0x1000) / 16 = n := by omega
    rw [stubCode, if_neg hne, haddr, hindex]
  ignore := rfl

/-- A machine in the kernel with interrupts on. -/
def kernelMachine : X86 where
  cpu :=
    { eax := 1, ecx := 2, edx := 3, ebx := 4, esp := 0x90000, ebp := 0x90010, esi := 5, edi := 6,
      eip := 0x2000, eflags := 0x202, cs := 8, ds := 16, es := 16, fs := 16, gs := 16 }
  mem := fun _ => 0

/-! ## From the interrupt to the handler and back -/

/-- What `irq_handler` finds when code with the registers and the memory `s` is interrupted. -/
structure Entered (s t : X86) (n : Nat) (errorCode : Option Word) : Prop where
  esp : t.cpu.esp = s.cpu.esp - 72
  interrupts : t.cpu.eflags &&& interruptFlag = 0
  argument : t.stackWord 0 = s.cpu.esp - 68
  irq : regsIrq t.mem (s.cpu.esp - 68) = BitVec.ofNat 32 n
  error : regsErr t.mem (s.cpu.esp - 68) = errorCode.getD 0
  frame : FrameAt t.mem (s.cpu.esp - 68) s.cpu
  kept : ∀ x, ¬ InRange (s.cpu.esp - 72) 72 x → t.mem x = s.mem x

/-- A vector with a stub leads to it. -/
theorem StubsAt.takeInterrupt (hstubs : StubsAt code isr ignore) (hn : HasStub n) :
    s.takeInterrupt (irqInit isr ignore) code n errorCode =
      some ((s.interrupt ⟨8, isr n⟩ errorCode).exec (isrStub n ++ isrCommon)) := by
  rw [takeInterrupt_eq, if_pos hn, Option.map_some, hstubs.isr n hn]

theorem StubsAt.entered (hstubs : StubsAt code isr ignore) (hn : HasStub n)
    (herr : errorCode.isSome = hasErrorCode n)
    (h : s.takeInterrupt (irqInit isr ignore) code n errorCode = some t) :
    Entered s t n errorCode := by
  have ht : t = (s.interrupt ⟨8, isr n⟩ errorCode).exec (isrStub n ++ isrCommon) :=
    Option.some.inj (h.symm.trans (hstubs.takeInterrupt hn))
  rw [exec_entry herr] at ht
  generalize hm : (s.pushAll (frameWords s.cpu n errorCode ++ [s.cpu.esp - 68])).mem = m at ht
  rcases regs_entry hm with ⟨hirq, herror, hargument⟩
  have hframe : FrameAt m (s.cpu.esp - 68) s.cpu := hm ▸ frameAt_entry
  rw [ht]
  constructor
  case esp => rfl
  case interrupts =>
    have hoff : ~~~interruptFlag &&& interruptFlag = 0 := by decide
    simp only [enteredCpu, BitVec.and_assoc, hoff]
    simp
  case argument =>
    have hesp : s.cpu.esp - 72 + 0 = s.cpu.esp - 72 := BitVec.add_zero _
    rw [X86.stackWord, enteredCpu, hesp]
    exact hargument
  case irq => exact hirq
  case error => exact herror
  case frame => exact hframe
  case kept =>
    intro x hx
    change m x = s.mem x
    rw [← hm]
    exact X86.pushAll_of_not_inRange (Nat.le_of_ble_eq_true rfl) hx

/-- A vector without a stub is ignored. -/
theorem StubsAt.ignored (hstubs : StubsAt code isr ignore) (hn : ¬ HasStub n) (hlt : n < 255) :
    ∃ t, s.takeInterrupt (irqInit isr ignore) code n none = some t ∧ t.cpu = s.cpu ∧
      ∀ x, ¬ InRange (s.cpu.esp - 12) 12 x → t.mem x = s.mem x := by
  rw [takeInterrupt_eq, if_neg hn, if_pos hlt, Option.map_some, hstubs.ignore, exec_isrIgnore]
  refine ⟨_, rfl, rfl, ?_⟩
  intro x hx
  have hmem : (s.pushAll [s.cpu.eflags, s.cpu.cs.setWidth 32, s.cpu.eip]).mem x = s.mem x := by
    apply X86.pushAll_of_not_inRange
    · simp
    · exact hx
  exact hmem

/-- An interrupt with a stub goes to the handler that was registered for it last: with interrupts
off, with a frame that tells its number and its error code, and with the acknowledgement that the
controllers need. Up to the call of `irq_handler`, which pushes its return address below them, only
the 72 bytes below the stack of the interrupted code are written. -/
theorem interrupt_dispatched {events : List (HandlerEvent H)} (hstubs : StubsAt code isr ignore)
    (hn : HasStub n) (herr : errorCode.isSome = hasErrorCode n)
    (h : s.takeInterrupt (irqInit isr ignore) code n errorCode = some t) :
    t.cpu.eflags &&& interruptFlag = 0 ∧
      irqHandler (handlersAfter events) t.mem (t.stackWord 0) =
        (if 32 ≤ n ∧ n < 40 then [(0x20, 0x20)]
          else if 40 ≤ n ∧ n < 48 then [(0x20, 0x20), (0xA0, 0x20)] else [],
          (events.reverse.find? (·.irq.toNat = n)).bind HandlerEvent.handler?) ∧
      regsErr t.mem (t.stackWord 0) = errorCode.getD 0 ∧
      FrameAt t.mem (t.stackWord 0) s.cpu ∧
      ∀ x, ¬ InRange (s.cpu.esp - 72) 72 x → t.mem x = s.mem x := by
  have ht := hstubs.entered hn herr h
  have hbyte : ((BitVec.ofNat 32 n).setWidth 8 : Byte).toNat = n := by
    unfold HasStub at hn
    simp only [BitVec.toNat_setWidth, BitVec.toNat_ofNat]
    omega
  have hword : BitVec.ofNat 32 n = ((BitVec.ofNat 32 n).setWidth 8 : Byte).setWidth 32 := by
    unfold HasStub at hn
    bv_omega
  rw [ht.argument]
  refine ⟨ht.interrupts, ?_, ht.error, ht.frame, ht.kept⟩
  rw [irqHandler, ht.irq, picEoi_eq, hbyte, hword, handlersAfter_eq]
  simp only [← BitVec.toNat_inj, hbyte]

theorem interrupt_dispatched_keyboard :
    ∃ t, kernelMachine.takeInterrupt (irqInit stubAddress 0x800) stubCode 0x21 none = some t ∧
      irqHandler (handlersAfter [.init 0x20 (by decide) "pit", .init 0x21 (by decide) "keyboard",
        .terminate 0x20 (by decide)]) t.mem (t.stackWord 0) =
          ([(0x20, 0x20)], some "keyboard") := by
  have h : kernelMachine.takeInterrupt (irqInit stubAddress 0x800) stubCode 0x21 none =
      some ((kernelMachine.interrupt ⟨8, stubAddress 0x21⟩ none).exec
        (stubCode (stubAddress 0x21))) := by
    rw [takeInterrupt_eq]
    rfl
  exact ⟨_, h, (interrupt_dispatched stubsAt_stubCode (Or.inl (by decide)) rfl h).2.1⟩

/-- An interrupt leaves no trace in the registers: if the handler returns with the frame as it
was, all of them are back. An interrupt without a stub is over at once, and only vector 255 has no
gate. -/
theorem interrupt_resumed (hstubs : StubsAt code isr ignore) (hn : n < 256)
    (herr : errorCode.isSome = hasErrorCode n) :
    (s.takeInterrupt (irqInit isr ignore) code n errorCode = none ↔ n = 255) ∧
      ∀ t, s.takeInterrupt (irqInit isr ignore) code n errorCode = some t →
        if HasStub n then
          ∀ u : X86, u.cpu.esp = t.cpu.esp →
            (∀ x, InRange (s.cpu.esp - 68) 68 x → u.mem x = t.mem x) →
            u.exec isrReturn = ⟨s.cpu, u.mem⟩
        else
          t.cpu = s.cpu ∧ ∀ x, ¬ InRange (s.cpu.esp - 12) 12 x → t.mem x = s.mem x := by
  rw [takeInterrupt_eq]
  constructor
  · rw [Option.map_eq_none_iff]
    by_cases hstub : HasStub n
    · have hlt : n ≠ 255 := by
        unfold HasStub at hstub
        omega
      simp only [if_pos hstub, reduceCtorEq, hlt]
    · rw [if_neg hstub]
      split <;> simp only [reduceCtorEq, false_iff, true_iff] <;> omega
  · intro t ht
    rw [← takeInterrupt_eq] at ht
    by_cases hstub : HasStub n
    · have hentered := hstubs.entered hstub herr ht
      rw [if_pos hstub]
      intro u hesp hframe
      have hesp' : u.cpu.esp = s.cpu.esp - 68 - 4 := by
        rw [hesp, hentered.esp]
        bv_omega
      exact exec_isrReturn (hentered.frame.congr hframe) hesp'
    · rw [if_neg hstub]
      have hno : hasErrorCode n = false := by
        unfold HasStub at hstub
        simp [hasErrorCode]
        omega
      have hlt : n < 255 := by
        by_contra hge
        rw [takeInterrupt_eq, if_neg hstub, if_neg hge] at ht
        cases ht
      rw [hno] at herr
      cases errorCode with
      | some e => cases herr
      | none =>
        rcases hstubs.ignored (s := s) hstub hlt with ⟨t', ht', hcpu, hmem⟩
        cases ht.symm.trans ht'
        exact ⟨hcpu, hmem⟩

/-- The keyboard interrupt, with a handler that writes below its frame, and the two last vectors. -/
theorem interrupt_resumed_vectors :
    (∃ t, kernelMachine.takeInterrupt (irqInit stubAddress 0x800) stubCode 0x21 none = some t ∧
      t.cpu.esp = 0x8FFB8 ∧ X86.exec { t with mem := t.mem.store32 0x8FFA0 7 } isrReturn =
        ⟨kernelMachine.cpu, t.mem.store32 0x8FFA0 7⟩) ∧
    (kernelMachine.takeInterrupt (irqInit stubAddress 0x800) stubCode 0xFE none = none ↔
      (0xFE : Nat) = 255) ∧
    (kernelMachine.takeInterrupt (irqInit stubAddress 0x800) stubCode 255 none = none ↔
      (255 : Nat) = 255) := by
  refine ⟨?_, (interrupt_resumed stubsAt_stubCode (by decide) rfl).1,
    (interrupt_resumed stubsAt_stubCode (by decide) rfl).1⟩
  have hstub : HasStub 0x21 := Or.inl (by decide)
  have htaken : kernelMachine.takeInterrupt (irqInit stubAddress 0x800) stubCode 0x21 none =
      some _ := stubsAt_stubCode.takeInterrupt hstub
  have hentered := stubsAt_stubCode.entered hstub rfl htaken
  refine ⟨_, htaken, hentered.esp, ?_⟩
  have hresumed := (interrupt_resumed stubsAt_stubCode (by decide) rfl).2 _ htaken
  rw [if_pos hstub] at hresumed
  apply hresumed
  · rfl
  · intro x hx
    apply Mem.store32_of_not_inRange
    unfold InRange at hx ⊢
    have hesp : kernelMachine.cpu.esp = 0x90000 := rfl
    bv_omega

end Hjortron
