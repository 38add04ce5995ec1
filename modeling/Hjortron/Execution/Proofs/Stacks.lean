import Hjortron.Cpu.Proofs.IrqSpec
import Hjortron.Execution.Interrupt
import Hjortron.Execution.Proofs.ProcessFrame
import Hjortron.Execution.Proofs.ProcessRun

/-!
# Stacks

The stacks of the contexts are apart from each other, and what the scheduler does to the heap does
not reach them. `SavedAt` says that a context can go on from a frame on its stack as if it had never
been interrupted.
-/

namespace Hjortron

section

variable {lo hi : Nat} {base : List (Word × Word)} {k : Kernel} {m m' : Mem}
  {created started nodes : List Word} {header p q r x : Word} {P : Platform} {c : Context}
  {saved : X86}

/-! ## The first frame of a process -/

section

variable {a eip : Word} {vs : List Word} {i : Nat} {k' : Kernel}

theorem storeWords_append {v w : List Word} :
    storeWords m a (v ++ w) =
      storeWords (storeWords m a v) (a + BitVec.ofNat 32 (4 * v.length)) w := by
  induction v generalizing m a with
  | nil => simp [storeWords]
  | cons c v ih =>
    have haddr : a + 4 + BitVec.ofNat 32 (4 * v.length) =
        a + BitVec.ofNat 32 (4 * (c :: v).length) := by
      rw [List.length_cons]
      bv_omega
    rw [List.cons_append, storeWords, ih, haddr, storeWords]

/-- Word `i` of the stored words. -/
theorem storeWords_load32 (hlen : vs.length * 4 ≤ 2 ^ 32) (hi : i < vs.length) :
    (storeWords m a vs).load32 (a + BitVec.ofNat 32 (4 * i)) = vs[i] := by
  induction vs generalizing m a i with
  | nil => cases hi
  | cons v vs ih =>
    rw [List.length_cons] at hlen hi
    rw [storeWords]
    cases i with
    | zero =>
      have hsame : (storeWords (m.store32 a v) (a + 4) vs).load32 (a + BitVec.ofNat 32 (4 * 0)) =
          (m.store32 a v).load32 a := by
        rw [Nat.mul_zero, BitVec.add_zero]
        apply Mem.load32_congr
        intro y hy
        apply storeWords_frame (Nat.le_refl _) (by omega)
        unfold InRange at hy ⊢
        bv_omega
      exact hsame.trans Mem.load32_store32_self
    | succ i =>
      have haddr : a + BitVec.ofNat 32 (4 * (i + 1)) = a + 4 + BitVec.ofNat 32 (4 * i) := by
        bv_omega
      rw [haddr, ih (by omega) (by omega)]
      rfl

/-- The words of the first frame. -/
def freshWords (ebp esp eip : Word) : List Word :=
  [0x10, 0x10, 0x10, 0x10, 0, 0, ebp, esp, 0, 0, 0, 0, 0x20, 0, eip, 0x8, 0x206, 0, 0]

/-- The registers that `process_create` writes, as the words of a frame. -/
theorem initRegs_eq (h : Apart p 24 (processEsp m p) 76) :
    initRegs m p =
      storeWords m (processEsp m p) (freshWords (processEbp m p) (processEsp m p)
        (processEip m p)) := by
  generalize hr : processEsp m p = r at h ⊢
  have hkept : ∀ v : List Word, v.length * 4 ≤ 76 →
      processEbp (storeWords m r v) p = processEbp m p ∧
      processEsp (storeWords m r v) p = r ∧
      processEip (storeWords m r v) p = processEip m p := by
    intro v hv
    have hbytes : ∀ y, InRange p 24 y → storeWords m r v y = m y :=
      fun y hy => storeWords_frame hv (by decide) (h.symm.not_inRange hy)
    exact ⟨Mem.load32_member_congr (by decide) hbytes,
      (Mem.load32_member_congr (by decide) hbytes).trans hr,
      Mem.load32_member_congr (by decide) hbytes⟩
  let v₁ : List Word := [0x10, 0x10, 0x10, 0x10, 0, 0]
  let v₂ := v₁ ++ [processEbp m p]
  let v₃ := v₂ ++ [r]
  let v₄ := v₃ ++ [0, 0, 0, 0, 0x20, 0]
  let v₅ := v₄ ++ [processEip m p]
  have h₂ : (storeWords m r v₁).store32 (r + 24) (processEbp (storeWords m r v₁) p) =
      storeWords m r v₂ := by
    rw [(hkept v₁ (by decide)).1]
    exact (storeWords_append (v := v₁) (w := [processEbp m p])).symm
  have h₃ : (storeWords m r v₂).store32 (r + 28) (processEsp (storeWords m r v₂) p) =
      storeWords m r v₃ := by
    rw [(hkept v₂ (Nat.le_of_ble_eq_true rfl)).2.1]
    exact (storeWords_append (v := v₂) (w := [r])).symm
  have h₄ : storeWords (storeWords m r v₃) (r + 32) [0, 0, 0, 0, 0x20, 0] = storeWords m r v₄ :=
    (storeWords_append (v := v₃)).symm
  have h₅ : (storeWords m r v₄).store32 (r + 56) (processEip (storeWords m r v₄) p) =
      storeWords m r v₅ := by
    rw [(hkept v₄ (Nat.le_of_ble_eq_true rfl)).2.2]
    exact (storeWords_append (v := v₄) (w := [processEip m p])).symm
  have h₆ : storeWords (storeWords m r v₅) (r + 60) [0x8, 0x206, 0, 0] =
      storeWords m r (freshWords (processEbp m p) r (processEip m p)) :=
    (storeWords_append (v := v₅)).symm
  rw [← h₆, ← h₅, ← h₄, ← h₃, ← h₂, initRegs, hr]

/-- A new process has its first frame on its stack. -/
theorem frameAt_initRegs (h : Apart p 24 (processEsp m p) 76)
    (hesp : processEsp m p = processEbp m p - 76) :
    FrameAt (initRegs m p) (processEsp m p) (freshProcessor (processEbp m p) (processEip m p)) := by
  rw [initRegs_eq h]
  generalize processEsp m p = r at hesp ⊢
  have hword : ∀ i (hi : i < 19),
      (storeWords m r (freshWords (processEbp m p) r (processEip m p))).load32
        (r + BitVec.ofNat 32 (4 * i)) =
      (freshWords (processEbp m p) r (processEip m p)).get ⟨i, hi⟩ :=
    fun i hi => storeWords_load32 (Nat.le_of_ble_eq_true rfl) hi
  generalize storeWords m r (freshWords (processEbp m p) r (processEip m p)) = m' at hword ⊢
  constructor
  case gs =>
    have hfirst := hword 0 (by decide)
    rw [Nat.mul_zero, BitVec.add_zero] at hfirst
    rw [hfirst]
    rfl
  case fs => exact congrArg _ (hword 1 (by decide))
  case es => exact congrArg _ (hword 2 (by decide))
  case ds => exact congrArg _ (hword 3 (by decide))
  case edi => exact hword 4 (by decide)
  case esi => exact hword 5 (by decide)
  case ebp => exact hword 6 (by decide)
  case ebx => exact hword 8 (by decide)
  case edx => exact hword 9 (by decide)
  case ecx => exact hword 10 (by decide)
  case eax => exact hword 11 (by decide)
  case eip => exact hword 14 (by decide)
  case cs => exact congrArg _ (hword 15 (by decide))
  case eflags => exact hword 16 (by decide)
  case esp =>
    rw [hesp, freshProcessor]
    bv_omega

theorem processEip_initProcess {process stack nextId : Word} :
    processEip (initProcess m process stack nextId eip) process = eip := by
  have hstate : ∀ m' : Mem, processEip (setProcessState m' process processStateWaiting) process =
      processEip m' process := by
    intro m'
    apply Mem.load32_congr
    intro y hy
    apply Mem.store8_of_ne
    unfold InRange at hy
    bv_omega
  have hsleep : ∀ m' : Mem, processEip (setProcessSleep m' process 0) process =
      processEip m' process :=
    fun _ => Mem.load32_store32_member (by decide) (by decide) (by decide)
  rw [initProcess, hsleep, hstate]
  exact Mem.load32_store32_self

/-- `process_create` leaves the frame of the new process on its stack. -/
theorem KernelInv.createProcess_frameAt
    (h : KernelInv lo hi base header k created started nodes)
    (hcreate : k.createProcess eip = .ok (p, k')) :
    FrameAt k'.heap.mem (processEsp k'.heap.mem p)
        (freshProcessor (processEbp k'.heap.mem p) eip) ∧
      processEsp k'.heap.mem p = processEbp k'.heap.mem p - 76 := by
  rcases bind_eq_ok.mp hcreate with ⟨⟨process, nextId, heap⟩, hheap, hrest⟩
  cases hrest
  rcases bind_eq_ok.mp hheap with ⟨_, -, hheap⟩
  rcases bind_eq_ok.mp hheap with ⟨⟨process, heap₁⟩, hm₁, hheap⟩
  rcases bind_eq_ok.mp hheap with ⟨_, -, hheap⟩
  rcases bind_eq_ok.mp hheap with ⟨⟨stack, heap₂⟩, hm₂, hheap⟩
  rcases bind_eq_ok.mp hheap with ⟨_, -, hheap⟩
  cases hheap
  have h₂ := (h.ledger.malloc hm₁).ledger.malloc hm₂
  have hapart : Apart p 24 stack 8192 :=
    (h₂.ledger.apart_of_size List.mem_cons_self (List.mem_cons_of_mem _ List.mem_cons_self)
      (by decide)).symm
  have hfields : processAt (initProcess heap₂.mem p stack k.nextId eip) p =
      ⟨stack + processStackLength - sizeofRegs, stack + processStackLength, processStateWaiting,
        0⟩ := processAt_initProcess
  have heip : processEip (initProcess heap₂.mem p stack k.nextId eip) p = eip :=
    processEip_initProcess
  change FrameAt (initRegs (initProcess heap₂.mem p stack k.nextId eip) p) _ _ ∧ _
  generalize initProcess heap₂.mem p stack k.nextId eip = m at hfields heip ⊢
  have hebp : processEbp m p = stack + 8192 := congrArg ProcessFields.ebp hfields
  have hesp : processEsp m p = processEbp m p - 76 := by
    have hesp' : processEsp m p = stack + 8192 - 76 := congrArg ProcessFields.esp hfields
    rw [hesp', hebp]
  have hframe : Apart p 24 (processEsp m p) 76 := by
    rw [hesp, hebp]
    unfold Apart at hapart ⊢
    bv_omega
  have hkept : processAt (initRegs m p) p = processAt m p :=
    processAt_congr fun y hy => initRegs_frame (hframe.symm.not_inRange hy)
  have hebp' : processEbp (initRegs m p) p = processEbp m p := congrArg ProcessFields.ebp hkept
  have hesp' : processEsp (initRegs m p) p = processEsp m p := congrArg ProcessFields.esp hkept
  change FrameAt (initRegs m p) (processEsp (initRegs m p) p)
    (freshProcessor (processEbp (initRegs m p) p) eip) ∧
      processEsp (initRegs m p) p = processEbp (initRegs m p) p - 76
  rw [hebp', hesp', ← heip]
  exact ⟨frameAt_initRegs hframe hesp, hesp⟩

end

/-! ## Processes have stacks of their own -/

namespace KernelInv

theorem processBlocks_disjoint (h : KernelInv lo hi base header k created started nodes) :
    created.Pairwise fun p q => List.Disjoint ((processBlocks k.heap.mem p).map Prod.fst)
      ((processBlocks k.heap.mem q).map Prod.fst) := by
  have hnd := h.ledger.nodup
  simp only [ownedBlocks, List.map_append, List.map_cons, List.map_flatMap, List.cons_append,
    List.nodup_cons, List.nodup_append, List.nodup_flatMap] at hnd
  exact hnd.2.1.2.1.2

theorem created_nodup (h : KernelInv lo hi base header k created started nodes) :
    created.Nodup := by
  apply h.processBlocks_disjoint.imp
  intro p q hdisjoint heq
  rw [heq] at hdisjoint
  exact hdisjoint List.mem_cons_self List.mem_cons_self

/-- The stack of a process is a live block. -/
theorem stack_live (_ : KernelInv lo hi base header k created started nodes) (hp : p ∈ created) :
    (processStack k.heap.mem p, processStackLength) ∈
      ownedBlocks k.heap.mem k.list nodes created ++ base :=
  List.mem_append_left _ (mem_ownedBlocks_stack hp)

theorem processStack_apart (h : KernelInv lo hi base header k created started nodes)
    (hp : p ∈ created) (hq : q ∈ created) (hne : p ≠ q) :
    Apart (processStack k.heap.mem p) 8192 (processStack k.heap.mem q) 8192 := by
  apply h.ledger.apart (h.stack_live hp) (h.stack_live hq)
  intro heq
  have hsymm : Std.Symm fun p q => List.Disjoint ((processBlocks k.heap.mem p).map Prod.fst)
      ((processBlocks k.heap.mem q).map Prod.fst) := ⟨fun _ _ hd => hd.symm⟩
  have hdisjoint := h.processBlocks_disjoint.forall hp hq hne
  have hmem : ∀ q, processStack k.heap.mem q ∈ (processBlocks k.heap.mem q).map Prod.fst :=
    fun q => List.mem_cons_of_mem _ List.mem_cons_self
  exact hdisjoint (hmem p) (heq ▸ hmem q)

end KernelInv

/-! ## Stacks of contexts -/

/-- The stubs are in place, the stack of the kernel lies beside the heap, and an interrupt takes
more than what `isr.s` pushes, but not more than the stack of a new process. -/
structure Platform.Sound (P : Platform) (lo hi : Nat) : Prop where
  stubs : StubsAt P.code P.isr P.ignore
  room : 76 ≤ P.room.toNat ∧ P.room.toNat ≤ 8184
  stack : ∀ x, InRange P.stack P.stackLength x → ¬ InRange 0 12 x ∧ (x.toNat < lo ∨ hi ≤ x.toNat)

/-- The context is the kernel or one of the processes. -/
def Context.Among (created : List Word) : Context → Prop
  | .kernel => True
  | .process p => p ∈ created

theorem Platform.onStack_congr (h : ∀ p, c = .process p → processStack m' p = processStack m p) :
    P.OnStack m' c x ↔ P.OnStack m c x := by
  cases c with
  | kernel => exact Iff.rfl
  | process p =>
    change InRange (processStack m' p) 8192 x ↔ InRange (processStack m p) 8192 x
    rw [h p rfl]

/-- The scheduler does not write to stacks. -/
theorem KernelInv.quiet_of_onStack {created' : List Word}
    (h : KernelInv lo hi base header k created started nodes) (hP : P.Sound lo hi)
    (hsub : ∀ p ∈ created', p ∈ created) (hc : c.Among created')
    (hx : P.OnStack k.heap.mem c x) : Quiet lo hi k.heap.mem created' x := by
  cases c with
  | kernel => exact ⟨(hP.stack x hx).1, (hP.stack x hx).2.imp_right Or.inl⟩
  | process p =>
    have hlive := h.stack_live (hsub p hc)
    exact ⟨(h.ledger.null_apart h.list.null hlive).not_inRange hx, Or.inr (Or.inr ⟨p, hc, hx⟩)⟩

/-- No byte is on two stacks. -/
theorem KernelInv.onStack_unique {c' : Context}
    (h : KernelInv lo hi base header k created started nodes) (hP : P.Sound lo hi)
    (hc : c.Among created) (hc' : c'.Among created) (hx : P.OnStack k.heap.mem c x)
    (hx' : P.OnStack k.heap.mem c' x) : c = c' := by
  have hkernel : ∀ p ∈ created, P.OnStack k.heap.mem (.process p) x →
      ¬ P.OnStack k.heap.mem .kernel x := by
    intro p hp hx hk
    exact h.ledger.not_inRange_outside (h.stack_live hp) (hP.stack x hk).2 hx
  cases c with
  | kernel =>
    cases c' with
    | kernel => rfl
    | process q => exact absurd hx (hkernel q hc' hx')
  | process p =>
    cases c' with
    | kernel => exact absurd hx' (hkernel p hc hx)
    | process q =>
      by_cases hne : p = q
      · rw [hne]
      · exact absurd hx ((h.processStack_apart hc hc' hne).not_inRange hx')

/-! ## Frames on stacks -/

/-- From the frame at `r` the context `c` goes on as it was interrupted in `saved`: with the
registers, and with its stack but for what the interrupt has taken of it. -/
structure SavedAt (P : Platform) (m : Mem) (saved : X86) (c : Context) (r : Word) : Prop where
  frame : FrameAt m r saved.cpu
  room : P.Room m c saved.cpu.esp
  kept : ∀ x, P.OnStack m c x → ¬ P.Below saved.cpu.esp x → m x = saved.mem x

/-- The frame is at the top of what the interrupt has taken. -/
theorem SavedAt.frame_below (hP : P.Sound lo hi) (h : SavedAt P m saved c r) (hx : InRange r 68 x) :
    P.Below saved.cpu.esp x ∧
      ¬ InRange (saved.cpu.esp - P.room) (P.room.toNat - 68) x := by
  have hroom := hP.room
  have hesp : saved.cpu.esp = r + 68 := h.frame.esp
  rw [hesp]
  unfold Platform.Below
  unfold InRange at hx ⊢
  bv_omega

theorem Platform.below_of_handler {a : Word}
    (hx : InRange (a - P.room) (P.room.toNat - 68) x) : P.Below a x := by
  unfold Platform.Below
  unfold InRange at hx ⊢
  omega

/-- Writes below the frame, where the handlers have their stack. -/
theorem SavedAt.scribble (hP : P.Sound lo hi) (h : SavedAt P m saved c r)
    (hstack : ∀ x, P.OnStack m' c x ↔ P.OnStack m c x)
    (hm : ∀ x, P.OnStack m c x → m' x ≠ m x →
      InRange (saved.cpu.esp - P.room) (P.room.toNat - 68) x) : SavedAt P m' saved c r where
  frame := by
    apply h.frame.congr
    intro x hx
    rcases h.frame_below hP hx with ⟨hbelow, hout⟩
    by_contra hne
    exact hout (hm x (h.room x hbelow) hne)
  room := fun x hx => (hstack x).mpr (h.room x hx)
  kept := by
    intro x hx hout
    have hx' := (hstack x).mp hx
    have hsame : m' x = m x := by
      by_contra hne
      exact hout (Platform.below_of_handler (hm x hx' hne))
    rw [hsame]
    exact h.kept x hx' hout

theorem SavedAt.congr (hP : P.Sound lo hi) (h : SavedAt P m saved c r)
    (hstack : ∀ x, P.OnStack m' c x ↔ P.OnStack m c x)
    (hm : ∀ x, P.OnStack m c x → m' x = m x) : SavedAt P m' saved c r :=
  h.scribble hP hstack fun x hx hne => absurd (hm x hx) hne

end

end Hjortron
