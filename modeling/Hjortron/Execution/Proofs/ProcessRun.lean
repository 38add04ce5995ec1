import Hjortron.Execution.Proofs.ProcessLife
import Hjortron.Proofs.ListRun

/-!
# Heap blocks over the lives of all processes

A run interleaves the calls of `process.c` and `scheduler.c` with the code of the kernel and of
the processes, which may write the stacks, the blocks of others and the memory beside the heap.
Two lists are kept along with it: the processes that have been created and not stopped, and
those among them that have been started.
-/

namespace Hjortron

/-- What can happen next. -/
inductive LifeEvent where
  | create (eip : Word)
  | start (process : Word)
  /-- The timer interrupt, with the stack pointer of the interrupted context. -/
  | tick (r : Word)
  | sleep (process ms r : Word)
  | stop (process : Word)
  | enable
  | disable
  /-- Other code runs and leaves the memory as `mem`. -/
  | execute (mem : Mem)

structure LifeState where
  kernel : Kernel
  created : List Word
  started : List Word

/-- The bytes that other code may write. -/
def LifeState.Writable (lo hi : Nat) (base : List (Word × Word)) (s : LifeState) (x : Word) :
    Prop :=
  x.toNat < lo ∨ hi ≤ x.toNat ∨ (∃ e ∈ base, InRange e.1 e.2.toNat x) ∨
    ∃ process ∈ s.created, InRange (processStack s.kernel.heap.mem process) 8192 x

/-- The bytes that neither the allocator nor the scheduler uses. -/
def LifeState.Spare (lo hi : Nat) (base : List (Word × Word)) (s : LifeState) (x : Word) : Prop :=
  s.Writable lo hi base x ∨ s.kernel.heap.Idle x

/-- An event that is handled. A process is started at most once, and only started processes are
stopped. -/
inductive LifeStep (lo hi : Nat) (base : List (Word × Word)) (s : LifeState) :
    LifeEvent → LifeState → Prop
  | create {eip process : Word} {kernel : Kernel} :
    s.kernel.createProcess eip = .ok (process, kernel) →
    LifeStep lo hi base s (.create eip) ⟨kernel, process :: s.created, s.started⟩
  | start {process : Word} {kernel : Kernel} : process ∈ s.created → process ∉ s.started →
    s.kernel.schedulerStart process = .ok kernel →
    LifeStep lo hi base s (.start process) ⟨kernel, s.created, s.started ++ [process]⟩
  | tick {r : Word} {kernel : Kernel} {esp : Option Word} :
    s.kernel.schedulerHandleIrq r = .ok (kernel, esp) →
    LifeStep lo hi base s (.tick r) ⟨kernel, s.created, s.started⟩
  | sleep {process ms r : Word} {kernel : Kernel} {esp : Option Word} : process ∈ s.created →
    s.kernel.schedulerSleep process ms r = .ok (kernel, esp) →
    LifeStep lo hi base s (.sleep process ms r) ⟨kernel, s.created, s.started⟩
  | stop {process : Word} {kernel : Kernel} {esp : Option Word} : process ∈ s.started →
    s.kernel.schedulerStop process = .ok (kernel, esp) →
    LifeStep lo hi base s (.stop process)
      ⟨kernel, s.created.erase process, s.started.erase process⟩
  | enable : LifeStep lo hi base s .enable { s with kernel := s.kernel.schedulerEnable }
  | disable : LifeStep lo hi base s .disable { s with kernel := s.kernel.schedulerDisable }
  | execute {mem : Mem} : (∀ x, ¬ s.Writable lo hi base x → mem x = s.kernel.heap.mem x) →
    LifeStep lo hi base s (.execute mem) { s with kernel := s.kernel.setMem mem }

/-- The invariant of a run. -/
def LifeState.Inv (lo hi : Nat) (base : List (Word × Word)) (header : Word) (s : LifeState) :
    Prop :=
  ∃ nodes, KernelInv lo hi base header s.kernel s.created s.started nodes

section

variable {lo hi : Nat} {base : List (Word × Word)} {header : Word} {s t : LifeState} {e : LifeEvent}
  {nodes : List Word} {mem : Mem} {p n x : Word}

/-- Code that writes what it may write. -/
theorem LifeState.spare_of_writable {m : Mem}
    (hm : ∀ x, ¬ s.Writable lo hi base x → mem x = m x) :
    ∀ x, mem x ≠ m x → s.Spare lo hi base x := by
  intro x hne
  by_contra hspare
  exact hne (hm x fun hw => hspare (Or.inl hw))

theorem LifeState.Writable.stable (hx : s.Writable lo hi base x) :
    Stable lo hi (ownedBlocks s.kernel.heap.mem s.kernel.list nodes s.created ++ base) x := by
  rcases hx with hlo | hhi | ⟨e, he, hin⟩ | ⟨p, hp, hin⟩
  · exact Or.inl hlo
  · exact Or.inr (Or.inl hhi)
  · exact Or.inr (Or.inr ⟨e, List.mem_append_right _ he, hin⟩)
  · exact Or.inr (Or.inr ⟨_, List.mem_append_left _ (mem_ownedBlocks_stack hp), hin⟩)

/-- Of the owned blocks, other code may write the stacks only. -/
theorem KernelInv.writable_apart
    (h : KernelInv lo hi base header s.kernel s.created s.started nodes)
    (hx : s.Writable lo hi base x)
    (hp : (p, n) ∈ ownedBlocks s.kernel.heap.mem s.kernel.list nodes s.created)
    (hn : n ≠ processStackLength) : ¬ InRange p n.toNat x := by
  have hlive := List.mem_append_left base hp
  rcases hx with hlo | hhi | ⟨e, he, hin⟩ | ⟨q, hq, hin⟩
  · exact h.ledger.not_inRange_outside hlive (Or.inl hlo)
  · exact h.ledger.not_inRange_outside hlive (Or.inr hhi)
  · have hnd := h.ledger.nodup
    rw [List.map_append, List.nodup_append] at hnd
    have hne : p ≠ e.1 := hnd.2.2 p (List.mem_map_of_mem hp) e.1 (List.mem_map_of_mem he)
    exact (h.ledger.apart hlive (List.mem_append_right _ he) hne).not_inRange hin
  · have hstack : (processStack s.kernel.heap.mem q, processStackLength) ∈
        ownedBlocks s.kernel.heap.mem s.kernel.list nodes s.created ++ base :=
      List.mem_append_left _ (mem_ownedBlocks_stack hq)
    exact (h.ledger.apart_of_size hlive hstack hn).not_inRange hin

/-- No byte of the list or of a process is spare. -/
theorem KernelInv.spare_apart
    (h : KernelInv lo hi base header s.kernel s.created s.started nodes)
    (hx : s.Spare lo hi base x)
    (hp : (p, n) ∈ ownedBlocks s.kernel.heap.mem s.kernel.list nodes s.created)
    (hn : n ≠ processStackLength) : ¬ InRange p n.toNat x := by
  rcases hx with hx | hx
  · exact h.writable_apart hx hp hn
  · exact h.ledger.not_inRange_idle (List.mem_append_left base hp) hx

/-- Writes of spare bytes leave the stacks where they are. -/
theorem KernelInv.processStack_of_spare
    (h : KernelInv lo hi base header s.kernel s.created s.started nodes)
    (hmem : ∀ x, mem x ≠ s.kernel.heap.mem x → s.Spare lo hi base x) :
    ∀ p ∈ s.created, processStack mem p = processStack s.kernel.heap.mem p := by
  intro p hp
  apply processStack_congr
  apply processAt_congr
  intro y hy
  by_contra hne
  exact h.spare_apart (hmem y hne) (mem_ownedBlocks_process hp) (by decide) hy

theorem KernelInv.execute
    (h : KernelInv lo hi base header s.kernel s.created s.started nodes)
    (hmem : ∀ x, mem x ≠ s.kernel.heap.mem x → s.Spare lo hi base x) :
    KernelInv lo hi base header (s.kernel.setMem mem) s.created s.started nodes := by
  have hkept : ∀ {p n x}, (p, n) ∈ ownedBlocks s.kernel.heap.mem s.kernel.list nodes s.created →
      n ≠ processStackLength → InRange p n.toNat x → mem x = s.kernel.heap.mem x := by
    intro p n x hp hn hx
    by_contra hne
    exact h.spare_apart (hmem x hne) hp hn hx
  apply h.write
  · intro x hne
    exact (hmem x hne).imp_left LifeState.Writable.stable
  · rintro x (hx | ⟨a, ha, hx⟩)
    · exact hkept mem_ownedBlocks_list (by decide) hx
    · exact hkept (mem_ownedBlocks_node ha) (by decide) hx
  · exact h.processStack_of_spare hmem

/-- An empty list and no process. -/
theorem kernelInv_init {k : Kernel} (hledger : Ledger lo hi k.heap ((k.list, sizeofList) :: base))
    (hnull : 12 ≤ lo) (hhead : listHead k.heap.mem k.list = 0)
    (hlength : listLength k.heap.mem k.list = 0) (hcurrent : k.current = 0) :
    KernelInv lo hi base k.list k [] [] [] :=
  ⟨rfl, ⟨hledger, hnull, List.mem_cons_self, by simp, List.nodup_nil, hhead, hlength, trivial⟩,
    rfl, List.nodup_nil, by simp, Or.inl hcurrent⟩

/-- Every event keeps the invariant. -/
theorem LifeStep.inv (h : LifeStep lo hi base s e t) (hs : s.Inv lo hi base header) :
    t.Inv lo hi base header := by
  obtain ⟨nodes, hs⟩ := hs
  cases h with
  | create hcreate => exact ⟨nodes, (hs.createProcess hcreate).1⟩
  | start hp hnew hstart =>
    obtain ⟨⟨new, hinv⟩, -⟩ := hs.schedulerStart hp hnew hstart
    exact ⟨nodes ++ [new], hinv⟩
  | @tick r kernel esp htick =>
    have hr : r ≠ 0 := by
      obtain ⟨_, hr, -⟩ := bind_eq_ok.mp htick
      rwa [assert_eq_ok, bne_iff_ne] at hr
    obtain ⟨k', esp', htick', hinv⟩ := hs.schedulerHandleIrq hr
    obtain ⟨rfl, -⟩ := Prod.mk.inj (Except.ok.inj (htick.symm.trans htick'))
    exact ⟨nodes, hinv⟩
  | @sleep process ms r kernel esp hp hsleep =>
    obtain ⟨k', esp', hsleep', hinv⟩ := hs.schedulerSleep hp
    obtain ⟨rfl, -⟩ := Prod.mk.inj (Except.ok.inj (hsleep.symm.trans hsleep'))
    exact ⟨nodes, hinv⟩
  | @stop process kernel esp hp hstop =>
    obtain ⟨k', esp', nodes', hstop', hinv⟩ := hs.schedulerStop hp
    obtain ⟨rfl, -⟩ := Prod.mk.inj (Except.ok.inj (hstop.symm.trans hstop'))
    exact ⟨nodes', hinv⟩
  | enable => exact ⟨nodes, hs.header_eq, hs.list, hs.values, hs.nodup, hs.subset, hs.current⟩
  | disable => exact ⟨nodes, hs.header_eq, hs.list, hs.values, hs.nodup, hs.subset, hs.current⟩
  | execute hmem => exact ⟨nodes, hs.execute (LifeState.spare_of_writable hmem)⟩

end

/-- From an empty process list on, over every run: the live blocks are those of others, the list
header, a structure and a stack for each process that has been created and not stopped, and a node
for each process that has been started and not stopped. Whenever a started process is stopped, the
blocks that `list_delete` and `process_destroy` free are live. -/
theorem process_blocks_exact {lo hi : Nat} {base : List (Word × Word)} {k : Kernel}
    (hledger : Ledger lo hi k.heap ((k.list, sizeofList) :: base)) (hnull : 12 ≤ lo)
    (hhead : listHead k.heap.mem k.list = 0) (hlength : listLength k.heap.mem k.list = 0)
    (hcurrent : k.current = 0) :
    ∀ events t, Run (LifeStep lo hi base) ⟨k, [], []⟩ events t →
      (∃ nodes : List Word, nodes.map (nodeValue t.kernel.heap.mem) = t.started ∧
        Ledger lo hi t.kernel.heap
          ((k.list, sizeofList) :: (nodes.map (fun a => (a, sizeofNode)) ++
            t.created.flatMap fun p => [(p, sizeofProcess),
              (processEbp t.kernel.heap.mem p - processStackLength, processStackLength)]) ++
            base)) ∧
      t.started.Nodup ∧ (∀ p ∈ t.started, p ∈ t.created) ∧
      ∀ p ∈ t.started, (∃ r, t.kernel.schedulerStop p = .ok r) ∧
        ∃ heap₁ heap₂, t.kernel.heap.listDelete k.list p = .ok heap₁ ∧
          processDestroy heap₁ p = .ok heap₂ := by
  intro events t hrun
  have hstart := kernelInv_init hledger hnull hhead hlength hcurrent
  obtain ⟨nodes, hinv⟩ : t.Inv lo hi base k.list :=
    hrun.invariant (I := LifeState.Inv lo hi base k.list) (fun _ _ _ hs h => h.inv hs) ⟨[], hstart⟩
  have hlist := hinv.header_eq
  refine ⟨⟨nodes, hinv.values, hlist ▸ hinv.ledger⟩, hinv.nodup, hinv.subset, fun p hp => ⟨?_, ?_⟩⟩
  · obtain ⟨k', esp, _, hstop, _⟩ := hinv.schedulerStop hp
    exact ⟨_, hstop⟩
  · obtain ⟨heap₁, heap₂, _, hdelete, hdestroy, _⟩ := hinv.destroy hp
    exact ⟨heap₁, heap₂, hlist ▸ hdelete, hdestroy⟩

/-- A heap of one chunk with the empty list of the scheduler on it. -/
theorem exists_idleKernel : ∃ k : Kernel,
    Ledger 0x20000 0x30010 k.heap [(k.list, sizeofList)] ∧ HasRoom k.heap 65512 ∧
      listHead k.heap.mem k.list = 0 ∧ listLength k.heap.mem k.list = 0 ∧ k.current = 0 := by
  obtain ⟨heap, list, hroom, hhead, hlength⟩ := exists_emptyList
  exact ⟨⟨heap, 0, list, 0, false, 0⟩, hroom.ledger, hroom.hasRoom, hhead, hlength, rfl⟩

/-- Two processes are created and the first of them is started; it can be stopped. -/
theorem process_blocks_exact_oneChunk :
    ∃ k p q t, Run (LifeStep 0x20000 0x30010 []) ⟨k, [], []⟩
        [.create 0x5000, .create 0x6000, .start p] t ∧
      t.created = [q, p] ∧ t.started = [p] ∧
      (∃ node, Ledger 0x20000 0x30010 t.kernel.heap
        [(k.list, sizeofList), (node, sizeofNode), (q, sizeofProcess),
          (processEbp t.kernel.heap.mem q - processStackLength, processStackLength),
          (p, sizeofProcess),
          (processEbp t.kernel.heap.mem p - processStackLength, processStackLength)]) ∧
      ∃ r, t.kernel.schedulerStop p = .ok r := by
  obtain ⟨k, hledger, hroom, hhead, hlength, hcurrent⟩ := exists_idleKernel
  have h₀ : KernelInv 0x20000 0x30010 [] k.list k [] [] [] :=
    kernelInv_init hledger (by decide) hhead hlength hcurrent
  have hall := process_blocks_exact hledger (by decide) hhead hlength hcurrent
  have hroom₀ : HasRoom k.heap (8248 + (8248 + (28 + 48988))) := hroom
  obtain ⟨p, k₁, hp, hroom₁⟩ :=
    h₀.createProcess_ok hroom₀ (by decide) (by decide : (0x5000 : Word) ≠ 0)
  have h₁ := (h₀.createProcess hp).1
  obtain ⟨q, k₂, hq, hroom₂⟩ :=
    h₁.createProcess_ok hroom₁ (by decide) (by decide : (0x6000 : Word) ≠ 0)
  have h₂ := (h₁.createProcess hq).1
  have hmem : p ∈ [q, p] := by simp
  obtain ⟨k₃, hstart, -⟩ := h₂.schedulerStart_ok hroom₂ (by decide) hmem
  have hrun : Run (LifeStep 0x20000 0x30010 []) ⟨k, [], []⟩
      [.create 0x5000, .create 0x6000, .start p] ⟨k₃, [q, p], [p]⟩ :=
    .cons (.create hp) (.cons (.create hq)
      (.cons (.start hmem List.not_mem_nil hstart) (.nil _)))
  obtain ⟨⟨nodes, hvalues, hblocks⟩, -, -, hstop⟩ := hall _ _ hrun
  obtain ⟨node, rfl⟩ := List.length_eq_one_iff.mp (by simpa using congrArg List.length hvalues)
  refine ⟨k, p, q, _, hrun, rfl, rfl, ⟨node, ?_⟩, (hstop p List.mem_cons_self).1⟩
  simpa using hblocks

end Hjortron
