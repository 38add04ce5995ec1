import Hjortron.Memory.Proofs.HeapSafety
import Hjortron.Misc.BlockCommute

/-!
# The order of frees

Freeing live pointers one after another releases their blocks, and block lists do not depend on
the order of releases.
-/

namespace Hjortron

open BlockList

section

variable {s : HeapSession} {bs : List Block} {kernelEnd : Word} {mmap : List MemoryMapEntry}

/-- Freeing the pointers of the blocks `xs`, one after another. -/
theorem SessionInv.free_blocks {xs : List Block} (hs : SessionInv s bs) (hr : Releasable bs xs) :
    ∃ u, Run HeapStep s (xs.map fun x => .free (payloadPtr x)) u ∧
      SessionInv u (releaseAll 16 xs bs) := by
  induction xs generalizing s bs with
  | nil => exact ⟨s, .nil s, hs⟩
  | cons x xs ih =>
    obtain ⟨hx, hu⟩ := hr.mem x List.mem_cons_self
    obtain ⟨t, hstep, ht⟩ := hs.call_of_blockStep (.free hx hu)
    obtain ⟨u, hrun, hfin⟩ := ih ht (hr.tail (by omega) hs.heap.layout.ordered)
    exact ⟨u, .cons hstep hrun, hfin⟩

/-- Freeing a set of live pointers leads to the same chunks in every order. -/
theorem SessionInv.free_order {ptrs : List Word} (hs : SessionInv s bs) (hnd : ptrs.Nodup)
    (hptrs : ∀ p ∈ ptrs, s.Holds p) :
    ∃ bs', ∀ ptrs' : List Word, ptrs'.Perm ptrs →
      ∃ u, Run HeapStep s (ptrs'.map .free) u ∧ ChunksWellFormed u bs' := by
  have hblock : ∀ p, s.Holds p → ∃ b, b ∈ bs ∧ b.used = true ∧ p = payloadPtr b := by
    intro p hp
    obtain ⟨b, hb, hu, heq⟩ := hs.holds_iff.mp hp
    exact ⟨b, hb, hu, heq⟩
  have : Nonempty Block := ⟨⟨0, 0, false⟩⟩
  choose! block hmem hused hpayload using hblock
  have hreleasable : Releasable bs (ptrs.map block) := by
    constructor
    · apply hnd.map_on
      intro p hp q hq heq
      rw [hpayload p (hptrs p hp), hpayload q (hptrs q hq), heq]
    · intro x hx
      obtain ⟨p, hp, rfl⟩ := List.mem_map.mp hx
      exact ⟨hmem p (hptrs p hp), hused p (hptrs p hp)⟩
  refine ⟨releaseAll 16 (ptrs.map block) bs, fun ptrs' hperm => ?_⟩
  have hperm' := hperm.map block
  have hreleasable' : Releasable bs (ptrs'.map block) :=
    ⟨hperm'.nodup_iff.mpr hreleasable.nodup, fun x hx => hreleasable.mem x (hperm'.mem_iff.mp hx)⟩
  obtain ⟨u, hrun, hu⟩ := hs.free_blocks hreleasable'
  refine ⟨u, ?_, ?_⟩
  · have hcalls : (ptrs'.map block).map (fun x => HeapCall.free (payloadPtr x)) =
        ptrs'.map .free := by
      rw [List.map_map]
      apply List.map_congr_left
      intro p hp
      exact congrArg _ (hpayload p (hptrs p (hperm.mem_iff.mp hp))).symm
    rwa [hcalls] at hrun
  · rw [releaseAll_perm (by omega) hs.heap.layout.ordered hreleasable' hperm'] at hu
    exact hu.wellFormed

/-- After every sequence of calls, two live pointers can be freed in either order, and any set of
them in every order, with the same chunks left. -/
theorem heap_run_free_order (hmap : SaneMap kernelEnd mmap) (mem : Mem) :
    ∃ heap, mallocInit kernelEnd mmap (Heap.boot mem) = .ok heap ∧
      ∀ cs s, Run HeapStep (.start heap) cs s →
        (∀ p q, s.Holds p → s.Holds q → p ≠ q →
          ∃ bs u v, Run HeapStep s [.free p, .free q] u ∧ Run HeapStep s [.free q, .free p] v ∧
            ChunksWellFormed u bs ∧ ChunksWellFormed v bs) ∧
        ∀ ptrs : List Word, ptrs.Nodup → (∀ p ∈ ptrs, s.Holds p) →
          ∃ bs, ∀ ptrs' : List Word, ptrs'.Perm ptrs →
            ∃ u, Run HeapStep s (ptrs'.map .free) u ∧ ChunksWellFormed u bs := by
  obtain ⟨heap, hinit, hstart⟩ := hmap.sessionInv mem
  refine ⟨heap, hinit, fun cs s hrun => ?_⟩
  obtain ⟨bs, hs⟩ := hstart.run hrun
  refine ⟨fun p q hp hq hne => ?_, fun ptrs => hs.free_order⟩
  have hholds : ∀ r ∈ [p, q], s.Holds r := by
    intro r hr
    rcases List.mem_pair.mp hr with rfl | rfl
    · exact hp
    · exact hq
  obtain ⟨bs', hall⟩ := hs.free_order (by simpa using hne) hholds
  obtain ⟨u, hpq, hu⟩ := hall [p, q] (List.Perm.refl _)
  obtain ⟨v, hqp, hv⟩ := hall [q, p] (List.Perm.swap ..)
  exact ⟨bs', u, v, hpq, hqp, hu, hv⟩

theorem heap_run_free_order_pcMap :
    ∃ heap s bs u v, mallocInit 0x20000 pcMap (Heap.boot fun _ => 0) = .ok heap ∧
      Run HeapStep (.start heap) [.malloc 16, .malloc 32] s ∧
      Run HeapStep s [.free 0x20010, .free 0x20030] u ∧
      Run HeapStep s [.free 0x20030, .free 0x20010] v ∧
      ChunksWellFormed u bs ∧ ChunksWellFormed v bs := by
  obtain ⟨heap, hinit, hinv⟩ := heapInv_pcMap
  have hblock₁ : BlockStep [⟨0x20000, 0x7fbf0, false⟩, ⟨0x100000, 0x7edfff0, false⟩]
      (.malloc 16) [⟨0x20000, 16, true⟩, ⟨0x20020, 0x7fbd0, false⟩, ⟨0x100000, 0x7edfff0, false⟩] :=
    .malloc (a := 0x20000) (by decide) (by decide)
  obtain ⟨s₁, hstep₁, hs₁⟩ := (SessionInv.start hinv (by simp)).call_of_blockStep hblock₁
  have hblock₂ : BlockStep
      [⟨0x20000, 16, true⟩, ⟨0x20020, 0x7fbd0, false⟩, ⟨0x100000, 0x7edfff0, false⟩] (.malloc 32)
      [⟨0x20000, 16, true⟩, ⟨0x20020, 32, true⟩, ⟨0x20050, 0x7fba0, false⟩,
        ⟨0x100000, 0x7edfff0, false⟩] :=
    .malloc (a := 0x20020) (by decide) (by decide)
  obtain ⟨s₂, hstep₂, hs₂⟩ := hs₁.call_of_blockStep hblock₂
  have hrun : Run HeapStep (.start heap) [.malloc 16, .malloc 32] s₂ :=
    .cons hstep₁ (.cons hstep₂ (.nil _))
  obtain ⟨heap', hinit', hall⟩ := heap_run_free_order saneMap_pcMap fun _ => 0
  obtain rfl : heap = heap' := Except.ok.inj (hinit.symm.trans hinit')
  obtain ⟨bs, u, v, hpq, hqp, hu, hv⟩ := (hall _ s₂ hrun).1 0x20010 0x20030
    (hs₂.complete ⟨0x20000, 16, true⟩ (by simp) rfl)
    (hs₂.complete ⟨0x20020, 32, true⟩ (by simp) rfl) (by decide)
  exact ⟨heap, s₂, bs, u, v, hinit, hrun, hpq, hqp, hu, hv⟩

end

end Hjortron
