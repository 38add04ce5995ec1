import Hjortron.Execution.Proofs.HandlerFrames

/-!
# Interrupts over whole runs

In every reachable state of the computer all contexts but the one on the CPU can go on from a frame
on their own stacks, so an interrupt always resumes a context as it has been interrupted last.
-/

namespace Hjortron

section

variable {lo hi : Nat} {base : List (Word × Word)} {k k' : Kernel} {m m' : Mem}
  {created started nodes : List Word} {header p q r : Word} {P : Platform} {c c' : Computer}
  {y : Context} {s : Scheduler Word} {saved : Context → X86} {esp : Option Word} {n : Nat}

/-! ## Steps -/

/-- The context on the CPU goes on with what it is to find again. -/
def Computer.AsSaved (P : Platform) (c : Computer) : Prop :=
  c.cpu = (c.saved c.context).cpu ∧
    ∀ x, P.OnStack c.mem c.context x → ¬ P.Below c.cpu.esp x →
      c.mem x = (c.saved c.context).mem x

theorem leave_eq {cpu : Processor} {old : X86} (h : SavedAt P m old y (esp.getD r))
    (hesp : cpu.esp = r - 4) : X86.leave ⟨cpu, m⟩ esp = ⟨old.cpu, m⟩ := by
  cases esp with
  | none => exact exec_isrReturn h.frame hesp
  | some f => exact exec_isrRestore h.frame

/-- A room does not depend on what is in the memory. -/
theorem room_congr {esp : Word}
    (hstack : ∀ p, y = .process p → processStack m' p = processStack m p)
    (h : P.Room m y esp) : P.Room m' y esp :=
  fun x hx => (Platform.onStack_congr hstack).mpr (h x hx)

theorem KernelInv.processStack_context (h : KernelInv lo hi base header k created started nodes)
    (hstack : ∀ p ∈ created, processStack m' p = processStack m p) :
    ∀ p, k.context = .process p → processStack m' p = processStack m p := by
  intro p hp
  have hamong := h.context_among
  rw [hp] at hamong
  exact hstack p hamong

theorem Resumable.done (h : Resumable P lo hi base header k created started saved r) :
    ComputerInv P lo hi base header ⟨k, created, started, (saved k.context).cpu, saved⟩ ∧
      Computer.AsSaved P ⟨k, created, started, (saved k.context).cpu, saved⟩ := by
  rcases h with ⟨nodes, s, hframed, hat⟩
  exact ⟨⟨⟨nodes, s, hframed⟩, hat.room⟩, rfl, hat.kept⟩

/-- A context that has not been stopped by its system call is still there. -/
theorem ComputerInv.owner (hc : ComputerInv P lo hi base header c)
    (hn : c.Interruptible P lo hi base n)
    (hidle : c.stops n = true → ∀ x, P.OnStack c.mem c.context x → k.heap.Idle x) :
    c.context.Among (c.interrupted n k c.cpu).created ∨
      ¬ c.context.Among (c.interrupted n k c.cpu).created ∧
        ∀ x, P.OnStack c.mem c.context x → k.heap.Idle x := by
  rcases hc with ⟨⟨nodes, s, hframed⟩, -⟩
  rw [Computer.interrupted]
  cases hstops : c.stops n with
  | false => exact Or.inl hframed.kernel.context_among
  | true =>
    have hcur := (hn.2.2 (stops_iff.mp hstops).1).1
    have hcontext : c.context = .process c.kernel.current := if_neg hcur
    refine Or.inr ⟨?_, hidle hstops⟩
    rw [hcontext]
    exact hframed.kernel.created_nodup.not_mem_erase

/-- An interrupt with a stub resumes a context as it is to go on. -/
theorem ComputerInv.handled {t : X86} {cpu : Processor} (hP : P.Sound lo hi)
    (hc : ComputerInv P lo hi base header c)
    (hn : c.Interruptible P lo hi base n) (hstub : HasStub n)
    (ht : c.x86.takeInterrupt (irqInit P.isr P.ignore) P.code n none = some t)
    (hm : ∀ x, ¬ c.Scratch P lo hi x → m x = t.mem x)
    (hok : (c.kernel.setMem m).irqHandler (t.stackWord 0) = .ok (k', esp))
    (hm' : ∀ x, ¬ c.Scratch P lo hi x → m' x = k'.heap.mem x) (hesp : cpu.esp = t.cpu.esp) :
    ComputerInv P lo hi base header
        (c.interrupted n (k'.setMem m') (X86.leave ⟨cpu, m'⟩ esp).cpu) ∧
      Computer.AsSaved P (c.interrupted n (k'.setMem m') (X86.leave ⟨cpu, m'⟩ esp).cpu) := by
  have hentered := hP.stubs.entered hstub hn.noErrorCode ht
  rcases resumable_irqHandler hP hc hentered hn hm hok with ⟨hreturned, hidle⟩
  have hresumable := hreturned.scratch hP hc (hc.owner hn hidle) hm'
  have hdone := hresumable.done
  rcases hresumable with ⟨nodes, s, hframed, hat⟩
  have hargument : cpu.esp = c.cpu.esp - 68 - 4 := by
    have h72 : t.cpu.esp = c.cpu.esp - 72 := hentered.esp
    rw [hesp, h72]
    bv_omega
  have hleave : X86.leave ⟨cpu, m'⟩ esp = _ := leave_eq hat hargument
  rw [hleave]
  exact hdone

/-- An interrupt without a stub is over at once. -/
theorem ComputerInv.ignored {t : X86} (hP : P.Sound lo hi) (hc : ComputerInv P lo hi base header c)
    (hn : c.Interruptible P lo hi base n) (hstub : ¬ HasStub n)
    (ht : c.x86.takeInterrupt (irqInit P.isr P.ignore) P.code n none = some t) :
    ComputerInv P lo hi base header (c.interrupted n (c.kernel.setMem t.mem) t.cpu) ∧
      Computer.AsSaved P (c.interrupted n (c.kernel.setMem t.mem) t.cpu) := by
  rcases hP.stubs.ignored hstub hn.2.1 with ⟨t', ht', hcpu, hmem⟩
  cases ht.symm.trans ht'
  have h80 : n ≠ 0x80 := fun h => hstub (Or.inr h)
  have hstops : c.stops n = false := by
    rw [← Bool.not_eq_true, stops_iff]
    exact fun h => h80 h.1
  have hsame : c.interruption n = c.x86 := if_neg fun h => h80 h.1
  rcases hc with ⟨⟨nodes, s, hframed⟩, hroom⟩
  have hwritten : ∀ x, ¬ c.MayWrite P lo hi base x → t.mem x = c.mem x := by
    intro x hx
    apply hmem
    intro hin
    apply hx
    apply Or.inl
    apply hroom
    apply hP.below
    have hesp : c.x86.cpu.esp = c.cpu.esp := rfl
    unfold InRange at hin ⊢
    bv_omega
  have hsaved : ∀ y, y ≠ c.context →
      Function.update c.saved c.context (c.interruption n) y = c.saved y :=
    fun y hy => Function.update_of_ne hy ..
  rcases hframed.write hP hwritten hsaved with ⟨h₁, hstack⟩
  have hself : Function.update c.saved c.context (c.interruption n) c.context = c.x86 := by
    rw [Function.update_self, hsame]
  have hstack' := hframed.kernel.processStack_context hstack
  rw [Computer.interrupted, hstops, hcpu]
  refine ⟨⟨⟨nodes, s, h₁⟩, room_congr hstack' hroom⟩, ?_, ?_⟩
  · change c.cpu = (Function.update c.saved c.context (c.interruption n) c.context).cpu
    rw [hself]
    rfl
  · intro x _ hx
    change t.mem x = (Function.update c.saved c.context (c.interruption n) c.context).mem x
    rw [hself]
    apply hmem
    intro hin
    apply hx
    apply hP.below
    have hesp : c.x86.cpu.esp = c.cpu.esp := rfl
    unfold InRange at hin ⊢
    bv_omega

/-- A process is created. -/
theorem ComputerInv.create {eip : Word} (hP : P.Sound lo hi)
    (hc : ComputerInv P lo hi base header c)
    (hcreate : c.kernel.createProcess eip = .ok (p, k')) :
    ComputerInv P lo hi base header
      { c with
        kernel := k'
        created := p :: c.created
        saved := Function.update c.saved (.process p)
          ⟨freshProcessor (processEbp k'.heap.mem p) eip, k'.heap.mem⟩ } := by
  rcases hc with ⟨⟨nodes, s, hframed⟩, hroom⟩
  rcases hframed.kernel.createProcess hcreate with ⟨hk', hsame, -, hkept⟩
  rcases hframed.abstracts.createProcess hframed.kernel hcreate with ⟨esp, habs⟩
  rcases hframed.kernel.createProcess_frameAt hcreate with ⟨hframe, hesp⟩
  have hstack : ∀ q ∈ c.created, processStack k'.heap.mem q = processStack c.mem q :=
    fun q hq => processStack_congr (hkept q hq)
  have hfresh : p ∉ c.created := (List.nodup_cons.mp hk'.created_nodup).1
  have hframes : FramesHeld (fun y r => SavedAt P k'.heap.mem (Function.update c.saved (.process p)
      ⟨freshProcessor (processEbp k'.heap.mem p) eip, k'.heap.mem⟩ y) y r) s c.created := by
    apply hframed.frames.memory hP _ hstack
    · intro y _ hy x hx hne
      exact absurd (hframed.kernel.createProcess_frame hcreate
        (hframed.kernel.quiet_of_onStack hP (fun _ hp => hp) hy hx)) hne
    · intro y _ hy
      apply Function.update_of_ne
      intro heq
      rw [heq] at hy
      exact hfresh hy
  have hprocess : processEsp k'.heap.mem p = esp := by
    have hmatch := (habs.process p List.mem_cons_self).esp
    simp only [Function.update_self] at hmatch
    exact hmatch
  have hcontext : k'.context = c.context := by
    rw [hsame]
    rfl
  refine ⟨⟨nodes, _, hk', habs, hframes.create ?_⟩, ?_⟩
  · simp only [Function.update_self, ← hprocess]
    refine ⟨hframe, ?_, fun _ _ _ => rfl⟩
    intro x hx
    change InRange (processEbp k'.heap.mem p - 8192) 8192 x
    change InRange (processEbp k'.heap.mem p - 8 - P.room) P.room.toNat x at hx
    have hlength := hP.room
    unfold InRange at hx ⊢
    bv_omega
  · change P.Room k'.heap.mem k'.context c.cpu.esp
    rw [hcontext]
    exact room_congr (hframed.kernel.processStack_context hstack) hroom

/-- A process is started. -/
theorem ComputerInv.start (hP : P.Sound lo hi) (hc : ComputerInv P lo hi base header c)
    (hp : p ∈ c.created) (hnew : p ∉ c.started) (hstart : c.kernel.schedulerStart p = .ok k') :
    ComputerInv P lo hi base header { c with kernel := k', started := c.started ++ [p] } := by
  rcases hc with ⟨⟨nodes, s, hframed⟩, hroom⟩
  rcases hframed.kernel.schedulerStart hp hnew hstart with ⟨⟨new, hk'⟩, hsame, hkept⟩
  rcases hframed.abstracts.schedulerStart hframed.kernel hp hnew hstart with ⟨s', hs', habs⟩
  cases hs'
  have hstack : ∀ q ∈ c.created, processStack k'.heap.mem q = processStack c.mem q :=
    fun q hq => processStack_congr (hkept q hq)
  have hcontext : k'.context = c.context := by
    rw [hsame]
    rfl
  have hframes : FramesHeld (fun y r => SavedAt P k'.heap.mem (c.saved y) y r) s c.created := by
    apply hframed.frames.memory hP (fun _ _ _ => rfl) hstack
    intro y _ hy x hx hne
    exact absurd (hframed.kernel.schedulerStart_frame hstart
      (hframed.kernel.quiet_of_onStack hP (fun _ hp => hp) hy hx)) hne
  refine ⟨⟨nodes ++ [new], _, hk', habs, hframes.listInsert hp ?_⟩, ?_⟩
  · rw [hframed.abstracts.list]
    exact hnew
  · change P.Room k'.heap.mem k'.context c.cpu.esp
    rw [hcontext]
    exact room_congr (hframed.kernel.processStack_context hstack) hroom

/-- The scheduler is switched on or off. -/
theorem ComputerInv.setEnabled (hc : ComputerInv P lo hi base header c) (enabled : Bool) :
    ComputerInv P lo hi base header { c with kernel := { c.kernel with enabled } } := by
  rcases hc with ⟨⟨nodes, s, ⟨hk, habs, hframes⟩⟩, hroom⟩
  refine ⟨⟨nodes, { s with enabled }, ?_, ?_, ?_⟩, hroom⟩
  · exact ⟨hk.header_eq, hk.list, hk.values, hk.nodup, hk.subset, hk.current⟩
  · exact ⟨habs.list, habs.process, habs.current, rfl, habs.esp⟩
  · exact ⟨hframes.nodup, hframes.subset, hframes.current_mem, hframes.parked, hframes.kernel⟩

/-- The code on the CPU runs. -/
theorem ComputerInv.execute {cpu : Processor} (hP : P.Sound lo hi)
    (hc : ComputerInv P lo hi base header c)
    (hm : ∀ x, ¬ c.MayWrite P lo hi base x → m x = c.mem x)
    (hroom : P.Room c.mem c.context cpu.esp) :
    ComputerInv P lo hi base header { c with kernel := c.kernel.setMem m, cpu } := by
  rcases hc with ⟨⟨nodes, s, hframed⟩, -⟩
  rcases hframed.write hP hm (fun _ _ => rfl) with ⟨h₁, hstack⟩
  exact ⟨⟨nodes, s, h₁⟩, room_congr (hframed.kernel.processStack_context hstack) hroom⟩

/-- Every step keeps the invariant, and an interrupt resumes a context as it is to go on. -/
theorem ComputerStep.inv {e : ComputerEvent} (hP : P.Sound lo hi)
    (hc : ComputerInv P lo hi base header c) (h : ComputerStep P lo hi base c e c') :
    ComputerInv P lo hi base header c' ∧ ∀ n, e = .interrupt n → c'.AsSaved P := by
  cases h with
  | create hcreate => exact ⟨hc.create hP hcreate, fun _ he => nomatch he⟩
  | start hp hnew hstart => exact ⟨hc.start hP hp hnew hstart, fun _ he => nomatch he⟩
  | enable => exact ⟨hc.setEnabled true, fun _ he => nomatch he⟩
  | disable => exact ⟨hc.setEnabled false, fun _ he => nomatch he⟩
  | execute hm hroom => exact ⟨hc.execute hP hm hroom, fun _ he => nomatch he⟩
  | ignored hn hstub ht => exact (hc.ignored hP hn hstub ht).imp_right fun h _ _ => h
  | handled hn hstub ht hm hok hm' hesp =>
    exact (hc.handled hP hn hstub ht hm hok hm' hesp).imp_right fun h _ _ => h

/-! ## Progress -/

theorem FramedKernel.syscallHandleIrq_ok
    (h : FramedKernel P lo hi base header k created started nodes s saved) (hc : k.current ≠ 0)
    (hirq : regsIrq k.heap.mem r = 0x80) :
    ∃ k' esp, k.syscallHandleIrq r = .ok (k', esp) := by
  unfold Kernel.syscallHandleIrq
  rw [hirq]
  simp only [decide_true, assert_true, bind, Except.bind]
  split_ifs
  · rcases h.kernel.schedulerStop (h.kernel.current.resolve_left hc).1 with ⟨k', esp, _, hok, -⟩
    exact ⟨k', esp, hok⟩
  · have hsleep : ∃ k' esp, k.schedulerSleep k.current (regsEbx k.heap.mem r) r = .ok (k', esp) ∧
        KernelInv lo hi base header k' created started nodes :=
      h.kernel.schedulerSleep (h.kernel.current_created hc)
    rcases hsleep with ⟨k', esp, hok, -⟩
    exact ⟨k', esp, hok⟩
  · exact ⟨_, _, rfl⟩
  · exact ⟨_, _, rfl⟩

/-- No interrupt ends in a failed assertion. -/
theorem ComputerInv.handles (hP : P.Sound lo hi) (hc : ComputerInv P lo hi base header c)
    (hn : c.Interruptible P lo hi base n) : c.Handles P lo hi n := by
  by_cases hstub : HasStub n
  · have ht : c.x86.takeInterrupt (irqInit P.isr P.ignore) P.code n none
        = some ((c.x86.interrupt ⟨8, P.isr n⟩ none).exec (isrStub n ++ isrCommon)) :=
      hP.stubs.takeInterrupt hstub
    generalize (c.x86.interrupt ⟨8, P.isr n⟩ none).exec (isrStub n ++ isrCommon) = t at ht
    have hentered := hP.stubs.entered hstub hn.noErrorCode ht
    refine ⟨t, ht, fun _ m hm => ?_⟩
    rcases scratch_entered hP hc hentered hm with ⟨hwritten, hframe, -⟩
    rcases hc with ⟨⟨nodes, s, hframed⟩, hroom⟩
    rcases hframed.write hP hwritten (fun _ _ => rfl) with ⟨h₁, -⟩
    rw [irqHandler_entered hn hentered hframe]
    split_ifs with h20 h80
    · have hne : c.cpu.esp - 68 ≠ 0 := by
        have hstack : P.OnStack c.mem c.context (c.cpu.esp - 68) := by
          apply hroom
          apply hP.below
          unfold InRange
          bv_omega
        have hquiet := hframed.kernel.quiet_of_onStack hP (fun _ hp => hp)
          hframed.kernel.context_among hstack
        intro h0
        rw [h0] at hquiet
        exact hquiet.1 (by decide)
      rcases h₁.kernel.schedulerHandleIrq hne with ⟨k', esp, hok, -⟩
      exact ⟨(k', esp), hok⟩
    · have hirq : regsIrq m (c.cpu.esp - 68) = 0x80 := by
        rw [← show BitVec.ofNat 32 0x80 = 0x80 from rfl, ← h80]
        exact hentered.regsIrq_congr hframe
      rcases h₁.syscallHandleIrq_ok (hn.2.2 h80).1 hirq with ⟨k', esp, hok⟩
      exact ⟨(k', esp), hok⟩
    · exact ⟨_, rfl⟩
  · rcases hP.stubs.ignored (s := c.x86) hstub hn.2.1 with ⟨t, ht, -, -⟩
    exact ⟨t, ht, fun h => absurd h hstub⟩

/-- An interrupt that gets to its handler is over some time. -/
theorem Computer.Handles.step (h : c.Handles P lo hi n) (hn : c.Interruptible P lo hi base n) :
    ∃ c', ComputerStep P lo hi base c (.interrupt n) c' := by
  rcases h with ⟨t, ht, hhandles⟩
  by_cases hstub : HasStub n
  · rcases hhandles hstub t.mem (fun _ _ => rfl) with ⟨⟨k', esp⟩, hok⟩
    exact ⟨_, .handled hn hstub ht (fun _ _ => rfl) hok (fun _ _ => rfl) rfl⟩
  · exact ⟨_, .ignored hn hstub ht⟩

/-! ## Runs -/

/-- The scheduler gives the CPU to the only process. -/
theorem schedulerHandleIrq_single (henabled : s.enabled = true) (hlist : s.list = [p])
    (hc : s.current = none) (hp : (s.process p).state = .waiting) :
    ∃ s', schedulerHandleIrq s r = .ok (s', some (s.process p).esp) ∧ s'.current = some p := by
  have hkept : (s.process p).decrementSleep = s.process p := by
    apply Process.decrementSleep_of_ne
    rw [hp]
    decide
  simp [schedulerHandleIrq, henabled, hlist, hc, decrementSleepCounters, hkept, schedulerSwitch,
    schedulerNext, schedulerNextLoop, hp, bind, Except.bind, pure, Except.pure,
    Scheduler.setState]

/-- A timer interrupt of the kernel switches to the only process. -/
theorem ComputerInv.tick_context (hP : P.Sound lo hi) (hc : ComputerInv P lo hi base header c)
    (hn : c.Interruptible P lo hi base 0x20) (henabled : c.kernel.enabled = true)
    (hlist : c.started = [p]) (hp : p ∈ c.created) (hcur : c.kernel.current = 0)
    (hwaiting : (processAt c.mem p).state = processStateWaiting)
    (hstep : ComputerStep P lo hi base c (.interrupt 0x20) c') : c'.context = .process p := by
  have hstub : HasStub 0x20 := Or.inl (by decide)
  cases hstep with
  | ignored _ hnone _ => exact absurd hstub hnone
  | handled _ _ ht hm hok _ _ =>
    have hentered := hP.stubs.entered hstub hn.noErrorCode ht
    rcases scratch_entered hP hc hentered hm with ⟨hwritten, hframe, -⟩
    rcases hc with ⟨⟨nodes, s, hframed⟩, -⟩
    rcases hframed.write hP hwritten (fun _ _ => rfl) with ⟨h₁, -⟩
    rw [irqHandler_entered hn hentered hframe, if_pos rfl] at hok
    rcases h₁.abstracts.schedulerHandleIrq h₁.kernel hok with ⟨s', hs', habs⟩
    have hstate : (s.process p).state = .waiting := by
      have hcode := (hframed.abstracts.process p hp).state
      rw [show processAt c.kernel.heap.mem p = processAt c.mem p from rfl, hwaiting] at hcode
      revert hcode
      cases (s.process p).state <;> decide
    have hnone : s.current = none := by
      rw [hframed.abstracts.current, pointer, if_pos hcur]
    rcases schedulerHandleIrq_single (hframed.abstracts.enabled.trans henabled)
      (hframed.abstracts.list.trans hlist) hnone hstate with ⟨s'', hs'', hcurrent⟩
    cases hs'.symm.trans hs''
    have hcontext := habs.context
    rw [hcurrent] at hcontext
    exact hcontext.symm

/-- The computer with an empty process list. -/
theorem computerInv_init {cpu : Processor}
    (hledger : Ledger lo hi k.heap ((k.list, sizeofList) :: base)) (hnull : 12 ≤ lo)
    (hhead : listHead k.heap.mem k.list = 0) (hlength : listLength k.heap.mem k.list = 0)
    (hcurrent : k.current = 0) (hroom : P.Room k.heap.mem .kernel cpu.esp) :
    ComputerInv P lo hi base k.list ⟨k, [], [], cpu, saved⟩ := by
  have hk := kernelInv_init hledger hnull hhead hlength hcurrent
  refine ⟨⟨[], ⟨[], fun _ => ⟨0, .waiting, 0⟩, pointer k.current, k.enabled, pointer k.esp⟩,
    hk, ⟨rfl, by simp, rfl, rfl, rfl⟩, ?_⟩, ?_⟩
  · have hnone : pointer k.current = none := if_pos hcurrent
    exact {
      nodup := List.nodup_nil
      subset := fun _ hp => nomatch hp
      current_mem := by
        intro p hp
        rw [hnone] at hp
        cases hp
      parked := fun _ hp => nomatch hp
      kernel := fun hc => absurd hnone hc }
  · have hcontext : k.context = .kernel := if_pos hcurrent
    change P.Room k.heap.mem k.context cpu.esp
    rw [hcontext]
    exact hroom

end

/-- A platform whose kernel stack lies above the heap. -/
def stubPlatform : Platform where
  code := stubCode
  isr := stubAddress
  ignore := 0x800
  stack := 0x80000
  stackLength := 0x10000
  room := 0x1000

theorem stubPlatform_sound : stubPlatform.Sound 0x20000 0x30010 where
  stubs := stubsAt_stubCode
  room := by decide
  stack := by
    intro x hx
    unfold InRange stubPlatform at hx
    unfold InRange
    bv_omega

theorem stubPlatform_room :
    ∀ x, stubPlatform.Below kernelMachine.cpu.esp x →
      InRange stubPlatform.stack stubPlatform.stackLength x := by
  intro x hx
  change InRange (0x90000 - 0x1000) 0x1000 x at hx
  change InRange 0x80000 0x10000 x
  unfold InRange at hx ⊢
  bv_omega

end Hjortron
