import Hjortron.Execution.Proofs.Frames
import Hjortron.Execution.Proofs.ProcessRefines
import Hjortron.Execution.Proofs.Stacks

/-!
# Interrupt handlers and frames

All contexts but the one on the CPU can go on from a frame on their own stacks. An interrupt pushes
a frame for the context that it interrupts, and every handler of the kernel ends on the frame of the
context that is the current one then.
-/

namespace Hjortron

/-- The scheduler in memory, with frames on the stacks of all contexts but the current one. -/
structure FramedKernel (P : Platform) (lo hi : Nat) (base : List (Word × Word)) (header : Word)
    (k : Kernel) (created started nodes : List Word) (s : Scheduler Word)
    (saved : Context → X86) : Prop where
  kernel : KernelInv lo hi base header k created started nodes
  abstracts : Abstracts k created started s
  frames : FramesHeld (fun y r => SavedAt P k.heap.mem (saved y) y r) s created

/-- The current context has a frame at `r`, too. -/
def Resumable (P : Platform) (lo hi : Nat) (base : List (Word × Word)) (header : Word) (k : Kernel)
    (created started : List Word) (saved : Context → X86) (r : Word) : Prop :=
  ∃ nodes s, FramedKernel P lo hi base header k created started nodes s saved ∧
    SavedAt P k.heap.mem (saved k.context) k.context r

/-- What holds between two steps. -/
def ComputerInv (P : Platform) (lo hi : Nat) (base : List (Word × Word)) (header : Word)
    (c : Computer) : Prop :=
  (∃ nodes s, FramedKernel P lo hi base header c.kernel c.created c.started nodes s c.saved) ∧
    P.Room c.mem c.context c.cpu.esp

section

variable {lo hi : Nat} {base : List (Word × Word)} {k k' : Kernel} {m m' : Mem}
  {created started started' nodes : List Word} {header p q r x : Word} {P : Platform}
  {c c' : Computer}
  {y : Context} {s s' : Scheduler Word} {saved : Context → X86} {esp : Option Word} {n : Nat}

/-! ## Contexts -/

theorem Abstracts.context (h : Abstracts k created started s) :
    contextOf s.current = k.context := by
  rw [h.current, Kernel.context, pointer]
  split <;> rfl

theorem KernelInv.context_among (h : KernelInv lo hi base header k created started nodes) :
    k.context.Among created := by
  rw [Kernel.context]
  split
  · trivial
  · exact h.current_created ‹_›

/-- Other code may write all stacks in a run of the kernel. -/
theorem KernelInv.writable_of_onStack
    (h : KernelInv lo hi base header k created started nodes) (hP : P.Sound lo hi)
    (hy : y.Among created) (hx : P.OnStack k.heap.mem y x) :
    LifeState.Writable lo hi base ⟨k, created, started⟩ x := by
  have hquiet := h.quiet_of_onStack hP (fun _ hp => hp) hy hx
  rcases hquiet.2 with hlo | hhi | hstack
  · exact Or.inl hlo
  · exact Or.inr (Or.inl hhi)
  · exact Or.inr (Or.inr (Or.inr hstack))

/-! ## Frames through changes of the memory -/

/-- Frames stay as they are while stacks do not move and only handlers write on them. -/
theorem FramesHeld.memory {saved saved' : Context → X86} (hP : P.Sound lo hi)
    (h : FramesHeld (fun y r => SavedAt P m (saved y) y r) s created)
    (hsaved : ∀ y, y ≠ contextOf s.current → y.Among created → saved' y = saved y)
    (hstack : ∀ p ∈ created, processStack m' p = processStack m p)
    (hm : ∀ y, y ≠ contextOf s.current → y.Among created → ∀ x, P.OnStack m y x → m' x ≠ m x →
      InRange ((saved y).cpu.esp - P.room) (P.room.toNat - 68) x) :
    FramesHeld (fun y r => SavedAt P m' (saved' y) y r) s created := by
  have hkeep : ∀ y, y ≠ contextOf s.current → y.Among created → ∀ r,
      SavedAt P m (saved y) y r → SavedAt P m' (saved' y) y r := by
    intro y hne hy r hat
    rw [hsaved y hne hy]
    apply hat.scribble hP _ (hm y hne hy)
    intro x
    apply Platform.onStack_congr
    intro p hp
    rw [hp] at hy
    exact hstack p hy
  apply h.mono
  · intro p hp hc
    exact hkeep (.process p) (fun heq => hc (contextOf_eq_process.mp heq.symm)) hp
  · intro hc
    exact hkeep .kernel (fun heq => hc (contextOf_eq_kernel.mp heq.symm)) trivial

/-! ## Handlers -/

/-- A handler that leaves quiet bytes and stacks where they are ends on a frame, if the scheduler
without memory does. -/
theorem resumable_of {saved : Context → X86} {started' created' nodes' : List Word} {f : Word}
    (hP : P.Sound lo hi) (h : KernelInv lo hi base header k created started nodes)
    (hk' : KernelInv lo hi base header k' created' started' nodes')
    (habs : Abstracts k' created' started' s)
    (hframes : FramesHeld (fun y r => SavedAt P k.heap.mem (saved y) y r) s created')
    (hat : SavedAt P k.heap.mem (saved (contextOf s.current)) (contextOf s.current) f)
    (hsub : ∀ p ∈ created', p ∈ created)
    (hstack : ∀ p ∈ created', processStack k'.heap.mem p = processStack k.heap.mem p)
    (hquiet : ∀ x, Quiet lo hi k.heap.mem created' x → k'.heap.mem x = k.heap.mem x) :
    Resumable P lo hi base header k' created' started' saved f := by
  have hmem : ∀ y, y.Among created' → ∀ x, P.OnStack k.heap.mem y x →
      k'.heap.mem x = k.heap.mem x :=
    fun y hy x hx => hquiet x (h.quiet_of_onStack hP hsub hy hx)
  refine ⟨nodes', s, ⟨hk', habs, ?_⟩, ?_⟩
  · exact hframes.memory hP (fun _ _ _ => rfl) hstack
      fun y _ hy x hx hne => absurd (hmem y hy x hx) hne
  · rw [habs.context] at hat
    apply hat.congr hP _ (hmem _ hk'.context_among)
    intro x
    apply Platform.onStack_congr
    intro p hp
    have hy := hk'.context_among
    rw [hp] at hy
    exact hstack p hy

namespace FramedKernel

variable {saved : Context → X86}

/-- The timer interrupt. -/
theorem schedulerHandleIrq (hP : P.Sound lo hi)
    (h : FramedKernel P lo hi base header k created started nodes s saved)
    (hr : SavedAt P k.heap.mem (saved k.context) k.context r)
    (hirq : k.schedulerHandleIrq r = .ok (k', esp)) :
    Resumable P lo hi base header k' created started saved (esp.getD r) := by
  have hne : r ≠ 0 := by
    rcases bind_eq_ok.mp hirq with ⟨_, hne, -⟩
    rwa [assert_eq_ok, bne_iff_ne] at hne
  rcases h.kernel.schedulerHandleIrq hne with ⟨k₁, esp₁, hirq₁, hk'⟩
  cases hirq.symm.trans hirq₁
  rcases h.abstracts.schedulerHandleIrq h.kernel hirq with ⟨s', hs', habs⟩
  rw [← h.abstracts.context] at hr
  rcases h.frames.schedulerHandleIrq hr hs' with ⟨hframes, hat⟩
  have hkept : ∀ x, (∀ p ∈ created, ¬ Scheduled p x) → k'.heap.mem x = k.heap.mem x :=
    fun x => h.kernel.schedulerHandleIrq_frame hirq
  apply resumable_of hP h.kernel hk' habs hframes hat (fun _ hp => hp)
    (fun p hp => h.kernel.processStack_of_scheduled hkept hp)
  intro x hx
  exact hkept x fun p hp hs => (h.kernel.quiet hx).2.2.2 p hp hs.inRange

/-- A process sends itself to sleep. -/
theorem schedulerSleep {ms : Word} (hP : P.Sound lo hi)
    (h : FramedKernel P lo hi base header k created started nodes s saved)
    (hc : k.current ≠ 0) (hr : SavedAt P k.heap.mem (saved k.context) k.context r)
    (hsleep : k.schedulerSleep k.current ms r = .ok (k', esp)) :
    Resumable P lo hi base header k' created started saved (esp.getD r) := by
  have hp := h.kernel.current_created hc
  have hcur : s.current = some k.current := (h.abstracts.current_eq_iff hc).mpr rfl
  rcases h.kernel.schedulerSleep hp with ⟨k₁, esp₁, hsleep₁, hk'⟩
  cases hsleep.symm.trans hsleep₁
  rcases h.abstracts.schedulerSleep h.kernel hp hsleep with ⟨s', hs', habs⟩
  rw [← h.abstracts.context, hcur] at hr
  rcases h.frames.schedulerSleep hcur hr hs' with ⟨hframes, hat⟩
  have hkept : ∀ x, (∀ p ∈ created, ¬ Scheduled p x) → k'.heap.mem x = k.heap.mem x :=
    fun x => h.kernel.schedulerSleep_frame hp hsleep
  apply resumable_of hP h.kernel hk' habs hframes hat (fun _ hp => hp)
    (fun p hp => h.kernel.processStack_of_scheduled hkept hp)
  intro x hx
  exact hkept x fun p hp hs => (h.kernel.quiet hx).2.2.2 p hp hs.inRange

/-- A process stops itself. -/
theorem schedulerStop (hP : P.Sound lo hi)
    (h : FramedKernel P lo hi base header k created started nodes s saved)
    (hc : k.current ≠ 0) (hstop : k.schedulerStop k.current = .ok (k', esp)) :
    Resumable P lo hi base header k' (created.erase k.current) (started.erase k.current) saved
      (esp.getD r) := by
  have hp := (h.kernel.current.resolve_left hc).1
  have hcur : s.current = some k.current := (h.abstracts.current_eq_iff hc).mpr rfl
  rcases h.kernel.schedulerStop hp with ⟨k₁, esp₁, nodes', hstop₁, hk'⟩
  cases hstop.symm.trans hstop₁
  rcases h.abstracts.schedulerStop h.kernel hp hstop with ⟨s', hs', habs⟩
  rcases h.frames.schedulerStop hcur h.kernel.created_nodup hs' with ⟨hframes, hat⟩
  exact resumable_of hP h.kernel hk' habs hframes hat (fun _ => List.mem_of_mem_erase)
    (fun q hq => h.kernel.processStack_stop hp hstop hq)
    fun x hx => h.kernel.schedulerStop_frame hp hstop hx

/-! ## Writes of the code on the CPU -/

/-- What the code on the CPU may write, other code may write in a run of the kernel. -/
theorem writable (h : FramedKernel P lo hi base header c.kernel c.created c.started nodes s saved)
    (hP : P.Sound lo hi) (hx : c.MayWrite P lo hi base x) :
    LifeState.Writable lo hi base ⟨c.kernel, c.created, c.started⟩ x := by
  rcases hx with hx | hx | hx
  · exact h.kernel.writable_of_onStack hP h.kernel.context_among hx
  · exact Or.inr (Or.inr (Or.inl hx))
  · rcases hx.1 with hlo | hhi
    · exact Or.inl hlo
    · exact Or.inr (Or.inl hhi)

/-- The code on the CPU does not write to other stacks. -/
theorem not_mayWrite
    (h : FramedKernel P lo hi base header c.kernel c.created c.started nodes s saved)
    (hP : P.Sound lo hi) (hy : y.Among c.created) (hne : y ≠ c.context)
    (hx : P.OnStack c.mem y x) : ¬ c.MayWrite P lo hi base x := by
  intro hw
  rcases hw with hw | ⟨e, he, hin⟩ | ⟨hout, hkernel⟩
  · exact hne (h.kernel.onStack_unique hP hy h.kernel.context_among hx hw)
  · have hlive := List.mem_append_right
      (ownedBlocks c.kernel.heap.mem c.kernel.list nodes c.created) he
    cases y with
    | kernel => exact h.kernel.ledger.not_inRange_outside hlive (hP.stack x hx).2 hin
    | process p =>
      have hnd := h.kernel.ledger.nodup
      rw [List.map_append, List.nodup_append] at hnd
      have hstack : processStack c.kernel.heap.mem p ≠ e.1 :=
        hnd.2.2 _ (List.mem_map_of_mem (mem_ownedBlocks_stack hy)) e.1 (List.mem_map_of_mem he)
      exact (h.kernel.ledger.apart (h.kernel.stack_live hy) hlive hstack).not_inRange hin hx
  · cases y with
    | kernel => exact hkernel hx
    | process p => exact h.kernel.ledger.not_inRange_outside (h.kernel.stack_live hy) hout hx

theorem write {saved' : Context → X86}
    (h : FramedKernel P lo hi base header c.kernel c.created c.started nodes s saved)
    (hP : P.Sound lo hi) (hm : ∀ x, ¬ c.MayWrite P lo hi base x → m x = c.mem x)
    (hsaved : ∀ y, y ≠ c.context → saved' y = saved y) :
    FramedKernel P lo hi base header (c.kernel.setMem m) c.created c.started nodes s saved' ∧
      ∀ p ∈ c.created, processStack m p = processStack c.mem p := by
  let life : LifeState := ⟨c.kernel, c.created, c.started⟩
  have hlife : KernelInv lo hi base header life.kernel life.created life.started nodes := h.kernel
  have hmem : ∀ x, m x ≠ life.kernel.heap.mem x → life.Spare lo hi base x :=
    LifeState.spare_of_writable fun x hx => hm x fun hw => hx (h.writable hP hw)
  have hstack := hlife.processStack_of_spare hmem
  refine ⟨⟨hlife.execute hmem, ?_, ?_⟩, hstack⟩
  · have habs : Abstracts life.kernel life.created life.started s := h.abstracts
    exact habs.execute hlife hmem
  · apply h.frames.memory hP _ hstack
    · intro y hne hy x hx hwritten
      rw [h.abstracts.context] at hne
      exact absurd (hm x (h.not_mayWrite hP hy hne hx)) hwritten
    · intro y hne hy
      rw [h.abstracts.context] at hne
      exact hsaved y hne

end FramedKernel

/-! ## Entry -/

theorem Computer.Interruptible.noErrorCode (h : c.Interruptible P lo hi base n) :
    (none : Option Word).isSome = hasErrorCode n := by
  unfold Computer.Interruptible at h
  simp [hasErrorCode]
  omega

theorem interruption_cpu : (c.interruption n).cpu = c.cpu := by
  unfold Computer.interruption
  split <;> rfl

/-- What `isr.s` pushes, with the return address of its call, is part of what an interrupt takes. -/
theorem Platform.Sound.below {a : Word} (hP : P.Sound lo hi) (hx : InRange (a - 76) 76 x) :
    P.Below a x := by
  have hroom := hP.room
  unfold Platform.Below
  unfold InRange at hx ⊢
  bv_omega

/-- A handler writes what the code on the CPU may write. -/
theorem ComputerInv.scratch_mayWrite (hc : ComputerInv P lo hi base header c)
    (hx : c.Scratch P lo hi x) : c.MayWrite P lo hi base x := by
  rcases hx with hx | hx
  · exact Or.inl (hc.2 x (Platform.below_of_handler hx))
  · exact Or.inr (Or.inr hx)

/-- Of the stack of the interrupted context, a handler writes what lies below the frame. -/
theorem ComputerInv.scratch_own (hc : ComputerInv P lo hi base header c)
    (hx : c.Scratch P lo hi x) (hon : P.OnStack c.mem c.context x) :
    InRange (c.cpu.esp - P.room) (P.room.toNat - 68) x := by
  rcases hc with ⟨⟨nodes, s, hframed⟩, -⟩
  rcases hx with hx | ⟨hout, hkernel⟩
  · exact hx
  · have hamong := hframed.kernel.context_among
    change P.OnStack c.mem c.kernel.context x at hon
    cases hcontext : c.kernel.context with
    | kernel =>
      rw [hcontext] at hon
      exact absurd hon hkernel
    | process p =>
      rw [hcontext] at hon hamong
      exact absurd hon
        (hframed.kernel.ledger.not_inRange_outside (hframed.kernel.stack_live hamong) hout)

section

variable {t : X86} (hP : P.Sound lo hi) (hc : ComputerInv P lo hi base header c)
  (ht : Entered c.x86 t n none)

include hP hc ht

/-- An interrupt pushes on the stack of the context that it interrupts. -/
theorem entered_mayWrite (hx : ¬ c.MayWrite P lo hi base x) : t.mem x = c.mem x := by
  apply ht.kept
  intro hin
  apply hx
  apply Or.inl
  apply hc.2
  apply hP.below
  have hesp : c.x86.cpu.esp = c.cpu.esp := rfl
  unfold InRange at hin ⊢
  bv_omega

/-- What a handler finds: the memory after the entry, but for what its own stack has got. -/
theorem scratch_entered (hm : ∀ x, ¬ c.Scratch P lo hi x → m x = t.mem x) :
    (∀ x, ¬ c.MayWrite P lo hi base x → m x = c.mem x) ∧
      (∀ x, InRange (c.cpu.esp - 68) 68 x → m x = t.mem x) ∧
      ∀ x, P.OnStack c.mem c.context x → ¬ P.Below c.cpu.esp x → m x = c.mem x := by
  have hroom := hP.room
  refine ⟨?_, ?_, ?_⟩
  · intro x hx
    rw [hm x fun hs => hx (hc.scratch_mayWrite hs)]
    exact entered_mayWrite hP hc ht hx
  · intro x hx
    apply hm
    intro hs
    have hbelow : P.Below c.cpu.esp x := by
      apply hP.below
      unfold InRange at hx ⊢
      bv_omega
    have hin := hc.scratch_own hs (hc.2 x hbelow)
    unfold InRange at hx hin
    bv_omega
  · intro x hx hout
    have hpushed : t.mem x = c.mem x := by
      apply ht.kept
      intro hin
      apply hout
      apply hP.below
      have hesp : c.x86.cpu.esp = c.cpu.esp := rfl
      unfold InRange at hin ⊢
      bv_omega
    rw [← hpushed]
    apply hm
    intro hs
    exact hout (Platform.below_of_handler (hc.scratch_own hs hx))

omit hP in
/-- The interrupted context can go on from the frame that has been pushed, in a memory that differs
from what it is to find again in what the interrupt has taken. -/
theorem savedAt_entered (hstack : ∀ x, P.OnStack m c.context x ↔ P.OnStack c.mem c.context x)
    (hframe : ∀ x, InRange (c.cpu.esp - 68) 68 x → m x = t.mem x)
    (hkept : ∀ x, P.OnStack c.mem c.context x → ¬ P.Below c.cpu.esp x →
      m x = (c.interruption n).mem x) :
    SavedAt P m (c.interruption n) c.context (c.cpu.esp - 68) where
  frame := by
    rw [interruption_cpu]
    exact ht.frame.congr hframe
  room := by
    rw [interruption_cpu]
    exact fun x hx => (hstack x).mpr (hc.2 x hx)
  kept := by
    rw [interruption_cpu]
    exact fun x hx hout => hkept x ((hstack x).mp hx) hout

end

/-! ## The handlers of the kernel -/

theorem exceptionHandlers_eq_none {j : Nat} (hj : j ≤ 32) (hn : 32 ≤ n) (hlt : n < 256) :
    (List.range j).foldl
      (fun handlers i =>
        irqInitHandler handlers (BitVec.ofNat 8 i) KernelHandler.exceptionsHandleIrq)
      (fun _ => none) (BitVec.ofNat 32 n) = none := by
  induction j with
  | zero => rfl
  | succ j ih =>
    have hne : BitVec.ofNat 32 n ≠ (BitVec.ofNat 8 j).setWidth 32 := by bv_omega
    rw [List.range_succ, List.foldl_append, List.foldl_cons, List.foldl_nil, irqInitHandler,
      Function.update_of_ne hne]
    exact ih (by omega)

theorem mainHandlers_eq (hn : 32 ≤ n) (hlt : n < 256) :
    mainHandlers (BitVec.ofNat 32 n) =
      if n = 0x21 then some .keyboardHandleIrq
      else if n = 0x20 then some .pitHandleIrq
      else if n = 0x80 then some .syscallHandleIrq else none := by
  have hvector : ∀ v : Byte, BitVec.ofNat 32 n = v.setWidth 32 ↔ n = v.toNat := by
    intro v
    bv_omega
  have hnone := exceptionHandlers_eq_none (Nat.le_refl 32) hn hlt
  simp only [mainHandlers, irqInitHandler, Function.update_apply, hvector] at hnone ⊢
  simp only [hnone]
  rfl

theorem Entered.regsIrq_congr {t : X86} (ht : Entered c.x86 t n none)
    (hframe : ∀ x, InRange (c.cpu.esp - 68) 68 x → m x = t.mem x) :
    regsIrq m (c.cpu.esp - 68) = BitVec.ofNat 32 n := by
  have hsame : regsIrq m (c.cpu.esp - 68) = regsIrq t.mem (c.cpu.esp - 68) :=
    Mem.load32_member_congr (by decide) hframe
  rw [hsame]
  exact ht.irq

/-- Of the interrupts that are no exceptions, the timer and system calls do something. -/
theorem irqHandler_entered {t : X86} (hn : c.Interruptible P lo hi base n)
    (ht : Entered c.x86 t n none) (hframe : ∀ x, InRange (c.cpu.esp - 68) 68 x → m x = t.mem x) :
    (c.kernel.setMem m).irqHandler (t.stackWord 0) =
      if n = 0x20 then (c.kernel.setMem m).schedulerHandleIrq (c.cpu.esp - 68)
      else if n = 0x80 then (c.kernel.setMem m).syscallHandleIrq (c.cpu.esp - 68)
      else .ok (c.kernel.setMem m, none) := by
  have hhandler : (irqHandler mainHandlers (c.kernel.setMem m).heap.mem
      (c.cpu.esp - 68)).2 = mainHandlers (BitVec.ofNat 32 n) :=
    congrArg mainHandlers (ht.regsIrq_congr hframe)
  have hargument : t.stackWord 0 = c.cpu.esp - 68 := ht.argument
  rw [hargument, Kernel.irqHandler, hhandler,
    mainHandlers_eq hn.1 (Nat.lt_trans hn.2.1 (by decide))]
  by_cases h21 : n = 0x21
  · have h20 : ¬ n = 0x20 := by omega
    have h80 : ¬ n = 0x80 := by omega
    rw [if_pos h21, if_neg h20, if_neg h80]
    rfl
  · rw [if_neg h21]
    by_cases h20 : n = 0x20
    · rw [if_pos h20, if_pos h20]
      rfl
    · rw [if_neg h20, if_neg h20]
      by_cases h80 : n = 0x80
      · rw [if_pos h80, if_pos h80]
        rfl
      · rw [if_neg h80, if_neg h80]
        rfl

theorem stops_iff :
    c.stops n = true ↔ n = 0x80 ∧ (c.cpu.eax = syscallStop ∨ c.cpu.eax = syscallExit) := by
  simp [Computer.stops]

section

variable {t : X86} (hP : P.Sound lo hi) (hc : ComputerInv P lo hi base header c)
  (ht : Entered c.x86 t n none)

include hP hc ht

/-- An interrupt whose handler returns, having left the memory as `m`. -/
theorem resumable_returned (hm : ∀ x, ¬ c.MayWrite P lo hi base x → m x = c.mem x)
    (hframe : ∀ x, InRange (c.cpu.esp - 68) 68 x → m x = t.mem x)
    (hkept : ∀ x, P.OnStack c.mem c.context x → ¬ P.Below c.cpu.esp x →
      m x = (c.interruption n).mem x) :
    Resumable P lo hi base header (c.kernel.setMem m) c.created c.started
      (Function.update c.saved c.context (c.interruption n)) (c.cpu.esp - 68) := by
  rcases hc with ⟨⟨nodes, s, hframed⟩, hroom⟩
  have hsaved : ∀ y, y ≠ c.context →
      Function.update c.saved c.context (c.interruption n) y = c.saved y :=
    fun y hy => Function.update_of_ne hy ..
  rcases hframed.write hP hm hsaved with ⟨h₁, hstack⟩
  have hself : Function.update c.saved c.context (c.interruption n) c.context =
      c.interruption n := Function.update_self ..
  refine ⟨nodes, s, h₁, ?_⟩
  change SavedAt P m (Function.update c.saved c.context (c.interruption n) c.context) c.context
    (c.cpu.esp - 68)
  rw [hself]
  apply savedAt_entered ⟨⟨nodes, s, hframed⟩, hroom⟩ ht _ hframe hkept
  intro x
  apply Platform.onStack_congr
  intro p hp
  have hamong := hframed.kernel.context_among
  rw [show c.kernel.context = .process p from hp] at hamong
  exact hstack p hamong

/-- The same when the handler writes to its own stack only. -/
theorem resumable_entered (htest : ¬ (n = 0x80 ∧ c.cpu.eax = syscallTest))
    (hm : ∀ x, ¬ c.Scratch P lo hi x → m x = t.mem x) :
    Resumable P lo hi base header (c.kernel.setMem m) c.created c.started
      (Function.update c.saved c.context (c.interruption n)) (c.cpu.esp - 68) := by
  rcases scratch_entered hP hc ht hm with ⟨hwritten, hframe, hkept⟩
  apply resumable_returned hP hc ht hwritten hframe
  intro x hx hout
  rw [Computer.interruption, if_neg htest]
  exact hkept x hx hout

/-- A process that stops itself leaves its stack to the heap. -/
theorem idle_stopped (hcur : c.kernel.current ≠ 0)
    (hm : ∀ x, ¬ c.Scratch P lo hi x → m x = t.mem x)
    (hstop : (c.kernel.setMem m).schedulerStop c.kernel.current = .ok (k', esp))
    (hx : P.OnStack c.mem c.context x) : k'.heap.Idle x := by
  rcases scratch_entered hP hc ht hm with ⟨hwritten, -, -⟩
  rcases hc with ⟨⟨nodes, s, hframed⟩, -⟩
  rcases hframed.write hP hwritten (fun _ _ => rfl) with ⟨h₁, hstack⟩
  have hp : c.kernel.current ∈ c.started := (hframed.kernel.current.resolve_left hcur).1
  have hcontext : c.context = .process c.kernel.current := if_neg hcur
  rw [hcontext] at hx
  apply h₁.kernel.schedulerStop_idle hp hstop
  change InRange (processStack m c.kernel.current) 8192 x
  rw [hstack _ (hframed.kernel.subset _ hp)]
  exact hx

/-- `SYSCALL_TEST` writes to memory of the caller, outside the room for interrupts. -/
theorem resumable_test (htest : n = 0x80 ∧ c.cpu.eax = syscallTest)
    (hbytes : ∀ x, InRange c.cpu.ebx 4 x → c.MayWrite P lo hi base x ∧ ¬ P.Below c.cpu.esp x)
    (hm : ∀ x, ¬ c.Scratch P lo hi x → m x = t.mem x) :
    Resumable P lo hi base header (c.kernel.setMem (m.store32 c.cpu.ebx 0x1234)) c.created
      c.started (Function.update c.saved c.context (c.interruption n)) (c.cpu.esp - 68) := by
  rcases scratch_entered hP hc ht hm with ⟨hwritten, hframe, hkept⟩
  apply resumable_returned hP hc ht
  · intro x hx
    have hout : ¬ InRange c.cpu.ebx 4 x := fun hin => hx (hbytes x hin).1
    rw [Mem.store32_of_not_inRange hout]
    exact hwritten x hx
  · intro x hx
    have hbelow : P.Below c.cpu.esp x := by
      apply hP.below
      unfold InRange at hx ⊢
      bv_omega
    rw [Mem.store32_of_not_inRange fun hin => (hbytes x hin).2 hbelow]
    exact hframe x hx
  · intro x hx hout
    rw [Computer.interruption, if_pos htest]
    exact Mem.store32_congr (hkept x hx hout)

/-- A system call ends on a frame of the context that is then the current one. -/
theorem resumable_syscall (hn : c.Interruptible P lo hi base n) (h80 : n = 0x80)
    (hm : ∀ x, ¬ c.Scratch P lo hi x → m x = t.mem x)
    (hok : (c.kernel.setMem m).syscallHandleIrq (c.cpu.esp - 68) = .ok (k', esp)) :
    Resumable P lo hi base header k' (c.interrupted n k' c.cpu).created
      (c.interrupted n k' c.cpu).started
      (Function.update c.saved c.context (c.interruption n)) (esp.getD (c.cpu.esp - 68)) ∧
      (c.stops n = true → ∀ x, P.OnStack c.mem c.context x → k'.heap.Idle x) := by
  rcases hn.2.2 h80 with ⟨hcur, htest⟩
  rcases scratch_entered hP hc ht hm with ⟨-, hframe, -⟩
  have hpushed : FrameAt m (c.cpu.esp - 68) c.cpu := ht.frame.congr hframe
  have heax : regsEax m (c.cpu.esp - 68) = c.cpu.eax := hpushed.eax
  have hebx : regsEbx m (c.cpu.esp - 68) = c.cpu.ebx := hpushed.ebx
  rcases bind_eq_ok.mp hok with ⟨_, -, hok⟩
  have hmem : (c.kernel.setMem m).heap.mem = m := rfl
  have hcurrent : (c.kernel.setMem m).current = c.kernel.current := rfl
  rw [hmem, hcurrent, heax, hebx] at hok
  rw [Computer.interrupted]
  by_cases hstop : c.cpu.eax = syscallStop ∨ c.cpu.eax = syscallExit
  · have hstops : c.stops n = true := stops_iff.mpr ⟨h80, hstop⟩
    have hne : ¬ (n = 0x80 ∧ c.cpu.eax = syscallTest) := by
      intro h
      rw [h.2] at hstop
      revert hstop
      decide
    rcases resumable_entered hP hc ht hne hm with ⟨nodes, s, hframed, -⟩
    simp only [hstops, if_true]
    rw [if_pos hstop] at hok
    refine ⟨?_, fun _ x hx => idle_stopped hP hc ht hcur hm hok hx⟩
    have hstopped := hframed.schedulerStop (r := c.cpu.esp - 68) hP hcur hok
    exact hstopped
  · have hstops : c.stops n = false := by
      rw [← Bool.not_eq_true, stops_iff]
      exact fun h => hstop h.2
    simp only [hstops, Bool.false_eq_true, if_false]
    refine ⟨?_, fun h => nomatch h⟩
    rw [if_neg hstop] at hok
    by_cases hsleep : c.cpu.eax = syscallSleep
    · have hne : ¬ (n = 0x80 ∧ c.cpu.eax = syscallTest) := by
        rw [hsleep]
        exact fun h => absurd h.2 (by decide)
      rcases resumable_entered hP hc ht hne hm with ⟨nodes, s, hframed, hat⟩
      rw [if_pos hsleep] at hok
      exact hframed.schedulerSleep hP hcur hat hok
    · rw [if_neg hsleep] at hok
      by_cases hwrite : c.cpu.eax = syscallTest
      · rw [if_pos hwrite] at hok
        cases hok
        exact resumable_test hP hc ht ⟨h80, hwrite⟩ (htest hwrite) hm
      · rw [if_neg hwrite] at hok
        cases hok
        exact resumable_entered hP hc ht (fun h => hwrite h.2) hm

/-- Every interrupt ends on a frame of the context that is then the current one. -/
theorem resumable_irqHandler (hn : c.Interruptible P lo hi base n)
    (hm : ∀ x, ¬ c.Scratch P lo hi x → m x = t.mem x)
    (hok : (c.kernel.setMem m).irqHandler (t.stackWord 0) = .ok (k', esp)) :
    Resumable P lo hi base header k' (c.interrupted n k' c.cpu).created
      (c.interrupted n k' c.cpu).started
      (Function.update c.saved c.context (c.interruption n)) (esp.getD (c.cpu.esp - 68)) ∧
      (c.stops n = true → ∀ x, P.OnStack c.mem c.context x → k'.heap.Idle x) := by
  rw [irqHandler_entered hn ht (scratch_entered hP hc ht hm).2.1] at hok
  by_cases h80 : n = 0x80
  · have h20 : ¬ n = 0x20 := by omega
    rw [if_neg h20, if_pos h80] at hok
    exact resumable_syscall hP hc ht hn h80 hm hok
  · have hstops : c.stops n = false := by
      rw [← Bool.not_eq_true, stops_iff]
      exact fun h => h80 h.1
    have hentered := resumable_entered hP hc ht (fun h => h80 h.1) hm
    rw [Computer.interrupted, hstops]
    refine ⟨?_, fun h => nomatch h⟩
    by_cases h20 : n = 0x20
    · rw [if_pos h20] at hok
      rcases hentered with ⟨nodes, s, hframed, hat⟩
      exact hframed.schedulerHandleIrq hP hat hok
    · rw [if_neg h20, if_neg h80] at hok
      cases hok
      exact hentered

end

/-! ## What handlers leave on their stack -/

/-- Every context has a frame to go on from. -/
theorem Resumable.exists_savedAt
    (h : Resumable P lo hi base header k created started saved r) (hy : y.Among created) :
    ∃ f, SavedAt P k.heap.mem (saved y) y f := by
  rcases h with ⟨nodes, s, hframed, hat⟩
  by_cases hcur : y = contextOf s.current
  · rw [hcur, hframed.abstracts.context]
    exact ⟨r, hat⟩
  · cases y with
    | kernel =>
      rcases hframed.frames.kernel fun hn => hcur (contextOf_eq_kernel.mpr hn).symm with ⟨f, -, hf⟩
      exact ⟨f, hf⟩
    | process p =>
      exact ⟨_, hframed.frames.parked p hy fun hp => hcur (contextOf_eq_process.mpr hp).symm⟩

/-- Writes of spare bytes that reach the stacks below the frames only. -/
theorem Resumable.scribble (hP : P.Sound lo hi)
    (h : Resumable P lo hi base header k created started saved r)
    (hspare : ∀ x, m x ≠ k.heap.mem x →
      (⟨k, created, started⟩ : LifeState).Spare lo hi base x)
    (hon : ∀ x, m x ≠ k.heap.mem x → ∀ y, y.Among created → P.OnStack k.heap.mem y x →
      InRange ((saved y).cpu.esp - P.room) (P.room.toNat - 68) x) :
    Resumable P lo hi base header (k.setMem m) created started saved r := by
  rcases h with ⟨nodes, s, hframed, hat⟩
  let life : LifeState := ⟨k, created, started⟩
  have hlife : KernelInv lo hi base header life.kernel life.created life.started nodes :=
    hframed.kernel
  have habs : Abstracts life.kernel life.created life.started s := hframed.abstracts
  have hstack := hlife.processStack_of_spare hspare
  refine ⟨nodes, s, ⟨hlife.execute hspare, habs.execute hlife hspare, ?_⟩, ?_⟩
  · exact hframed.frames.memory hP (fun _ _ _ => rfl) hstack
      fun y _ hy x hx hne => hon x hne y hy hx
  · apply hat.scribble hP
    · intro x
      apply Platform.onStack_congr
      intro p hp
      have hamong := hframed.kernel.context_among
      rw [show k.context = .process p from hp] at hamong
      exact hstack p hamong
    · intro x hx hne
      exact hon x hne _ hframed.kernel.context_among hx

/-- What a handler leaves on the stack of the context that it has interrupted, be it still there or
stopped. -/
theorem Resumable.scratch (hP : P.Sound lo hi) (hc : ComputerInv P lo hi base header c)
    (h : Resumable P lo hi base header k created started
      (Function.update c.saved c.context (c.interruption n)) r)
    (howner : c.context.Among created ∨ ¬ c.context.Among created ∧
      ∀ x, P.OnStack c.mem c.context x → k.heap.Idle x)
    (hm : ∀ x, ¬ c.Scratch P lo hi x → m x = k.heap.mem x) :
    Resumable P lo hi base header (k.setMem m) created started
      (Function.update c.saved c.context (c.interruption n)) r := by
  have hself : (Function.update c.saved c.context (c.interruption n) c.context).cpu = c.cpu := by
    rw [Function.update_self, interruption_cpu]
  have hinv : ∃ nodes, KernelInv lo hi base header k created started nodes := by
    rcases h with ⟨nodes, s, hframed, -⟩
    exact ⟨nodes, hframed.kernel⟩
  rcases hinv with ⟨nodes, hk⟩
  have hscratch : ∀ x, m x ≠ k.heap.mem x → c.Scratch P lo hi x := by
    intro x hne
    by_contra hout
    exact hne (hm x hout)
  -- the room of the interrupted context is on its stack, or idle when it has been stopped
  have hroom : ∀ x, InRange (c.cpu.esp - P.room) (P.room.toNat - 68) x →
      (c.context.Among created ∧ P.OnStack k.heap.mem c.context x) ∨
        ¬ c.context.Among created ∧ k.heap.Idle x := by
    intro x hx
    have hbelow : P.Below c.cpu.esp x := Platform.below_of_handler hx
    rcases howner with hamong | ⟨hgone, hidle⟩
    · rcases h.exists_savedAt hamong with ⟨f, hf⟩
      rw [← hself] at hbelow
      exact Or.inl ⟨hamong, hf.room x hbelow⟩
    · exact Or.inr ⟨hgone, hidle x (hc.2 x hbelow)⟩
  have hoff : ¬ c.context.Among created →
      ∀ {x}, InRange (c.cpu.esp - P.room) (P.room.toNat - 68) x → ¬ P.OnStack c.mem .kernel x := by
    intro hgone x hx hkernel
    rcases hc with ⟨⟨nodes', s', hframed⟩, hroom'⟩
    have hsame : c.context = .kernel := hframed.kernel.onStack_unique hP
      hframed.kernel.context_among trivial (hroom' x (Platform.below_of_handler hx)) hkernel
    rw [hsame] at hgone
    exact hgone trivial
  apply h.scribble hP
  · intro x hne
    rcases hscratch x hne with hx | ⟨hout, -⟩
    · rcases hroom x hx with ⟨hamong, hon⟩ | ⟨-, hidle⟩
      · exact Or.inl (hk.writable_of_onStack hP hamong hon)
      · exact Or.inr hidle
    · exact Or.inl (hout.imp_right Or.inl)
  · intro x hne y hy hon
    rcases hscratch x hne with hx | ⟨hout, hkernel⟩
    · rcases hroom x hx with ⟨hamong, hon'⟩ | ⟨hgone, hidle⟩
      · rw [hk.onStack_unique hP hy hamong hon hon', hself]
        exact hx
      · cases y with
        | kernel => exact absurd hon (hoff hgone hx)
        | process p => exact absurd hon (hk.ledger.not_inRange_idle (hk.stack_live hy) hidle)
    · cases y with
      | kernel => exact absurd hon hkernel
      | process p => exact absurd hon (hk.ledger.not_inRange_outside (hk.stack_live hy) hout)

end

end Hjortron
