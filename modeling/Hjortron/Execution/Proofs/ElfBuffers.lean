import Hjortron.Execution.Proofs.ElfReloc
import Hjortron.Memory.Proofs.InitSpec
import Hjortron.Memory.Proofs.ReallocSpec

/-!
# The buffers of `elf_read`

Two heap blocks are live while a file is loaded: the file buffer and the image. They are apart
from each other and from the allocator's headers.
-/

namespace Hjortron

open BlockList

/-- `fs_read` has delivered the first `n` bytes of the file to `ptr`, and has kept the chunk list
and the blocks in use if `ptr` is one of them, with room for the file. -/
structure FileDelivered (heap heap' : Heap) (ptr : Word) (file : Mem) (n : Nat) : Prop where
  keeps : ∀ bs, HeapInv heap bs → (∃ b ∈ bs, b.used = true ∧ ptr = payloadPtr b ∧ n ≤ b.len) →
    ∃ bs', HeapInv heap' bs' ∧ ∀ b ∈ bs, b.used = true → b ∈ bs'
  bytes : Shows heap'.mem ptr file n

/-- A successful `malloc` in terms of blocks: a new block in use at the pointer, and all blocks
that were in use before. -/
theorem HeapInv.malloc {heap heap' : Heap} {bs : List Block} {size ptr : Word}
    (hinv : HeapInv heap bs) (hm : malloc heap size = .ok (ptr, heap')) :
    ∃ bs', HeapInv heap' bs' ∧ (∀ x, OutsideHeaders bs' x → heap'.mem x = heap.mem x) ∧
      ∃ c ∈ bs', c.used = true ∧ ptr = payloadPtr c ∧ size.toNat ≤ c.len ∧ 0 < size.toNat ∧
        c ∉ bs ∧ ∀ b ∈ bs, b.used = true → b ∈ bs' := by
  obtain ⟨bs', a, mem, hpos, ha, rfl, rfl, hc, hframe⟩ :=
    malloc_eq_ok hinv.chunks hinv.initialized hm
  obtain ⟨c, hcmem, hcu, rfl, hle, hfresh, hused⟩ := served_mem hinv.layout ha
  refine ⟨bs', ⟨hinv.initialized, hc⟩, hframe, c, hcmem, hcu, rfl, hle, hpos, hfresh, ?_⟩
  intro b hb hbu
  exact ((hused b).mpr (.inl ⟨hb, hbu⟩)).1

/-- The heap after the second `malloc`: the block `f` holds the first `n` bytes of the file, and
the block `c` is for `len` bytes of the image. -/
structure LoadBuffers (heap : Heap) (bs : List Block) (f c : Block) (file : Mem) (n len : Nat) :
    Prop where
  inv : HeapInv heap bs
  file_mem : f ∈ bs
  file_used : f.used = true
  file_pos : 0 < n
  file_fits : n ≤ f.len
  image_mem : c ∈ bs
  image_used : c.used = true
  image_pos : 0 < len
  image_fits : len ≤ c.len
  ne : c ≠ f
  bytes : Shows heap.mem (payloadPtr f) file n

/-- `elf_read` up to its second `malloc`. -/
theorem loadBuffers {fsRead : Heap → Word → Word → Except Halt Heap}
    {heap heap₁ heap₂ heap₃ : Heap} {bs : List Block} {size base image len : Word} {file : Mem}
    (hinv : HeapInv heap bs) (hm₁ : malloc heap size = .ok (base, heap₁))
    (hread : fsRead heap₁ base size = .ok heap₂)
    (hdel : FileDelivered heap₁ heap₂ base file size.toNat)
    (hm₂ : malloc heap₂ len = .ok (image, heap₃)) :
    ∃ bs' f c, base = payloadPtr f ∧ image = payloadPtr c ∧
      LoadBuffers heap₃ bs' f c file size.toNat len.toNat := by
  obtain ⟨bs₁, hinv₁, -, f, hf₁, hfu, rfl, hfle, hfpos, -, -⟩ := hinv.malloc hm₁
  obtain ⟨bs₂, hinv₂, hkept⟩ := hdel.keeps bs₁ hinv₁ ⟨f, hf₁, hfu, rfl, hfle⟩
  obtain ⟨bs₃, hinv₃, hframe₃, c, hc, hcu, rfl, hcle, hcpos, hfresh, hkept₃⟩ := hinv₂.malloc hm₂
  have hf₂ := hkept f hf₁ hfu
  have hf₃ := hkept₃ f hf₂ hfu
  refine ⟨bs₃, f, c, rfl, rfl, hinv₃, hf₃, hfu, hfpos, hfle, hc, hcu, hcpos, hcle,
    fun h => hfresh (h ▸ hf₂), hdel.bytes.frame fun y hy => ?_⟩
  exact hframe₃ y (hinv₃.layout.outsideHeaders hf₃ (Nat.lt_of_lt_of_le hy hfle))

namespace LoadBuffers

variable {heap : Heap} {bs : List Block} {f c : Block} {file : Mem} {n len : Nat}
  (h : LoadBuffers heap bs f c file n len)
include h

theorem apart : Apart (payloadPtr c) len (payloadPtr f) n :=
  h.inv.layout.apart_payload h.image_mem h.file_mem h.ne h.image_fits h.file_fits h.image_pos
    h.file_pos

theorem file_ne_zero : payloadPtr f ≠ 0 := h.inv.layout.payloadPtr_ne_zero h.file_mem h.file_used

theorem file_no_wrap : (payloadPtr f).toNat + n ≤ 2 ^ 32 := by
  have hwithin := (h.inv.layout.within f h.file_mem).2
  have hfits := h.file_fits
  rw [h.inv.layout.payloadPtr_toNat h.file_mem h.file_used]
  unfold Block.stop at hwithin
  omega

theorem outsideHeaders_file {y : Word} (hy : InRange (payloadPtr f) n y) : OutsideHeaders bs y :=
  h.inv.layout.outsideHeaders h.file_mem (Nat.lt_of_lt_of_le hy h.file_fits)

theorem outsideHeaders_image {y : Word} (hy : InRange (payloadPtr c) len y) :
    OutsideHeaders bs y :=
  h.inv.layout.outsideHeaders h.image_mem (Nat.lt_of_lt_of_le hy h.image_fits)

/-- After writes to the image, freeing the file buffer keeps the image in use and changes bytes
of headers only. -/
theorem free_file {mem : Mem} (hmem : ∀ y, ¬ InRange (payloadPtr c) len y → mem y = heap.mem y) :
    ∃ bs' mem', free { heap with mem } (payloadPtr f) = .ok { heap with mem := mem' } ∧
      HeapInv { heap with mem := mem' } bs' ∧ c ∈ bs' ∧
      (∀ y, InRange (payloadPtr c) len y → mem' y = mem y) ∧
      Shows mem' (payloadPtr f) file n := by
  have hchunks : ChunkList mem heap.startChunk bs :=
    h.inv.chunks.frame fun y hy => hmem y fun hin => hy (h.outsideHeaders_image hin)
  obtain ⟨mem', hfree, hchunks', hframe⟩ :=
    free_of_mem { heap with mem } hchunks h.inv.initialized h.file_mem h.file_used
  have hc := (mem_release_used (by omega) h.inv.layout.ordered h.file_mem c).mpr
    ⟨h.image_mem, h.image_used, h.ne⟩
  refine ⟨_, mem', hfree, ⟨h.inv.initialized, hchunks'⟩, hc.1,
    fun y hy => hframe y (h.outsideHeaders_image hy), ?_⟩
  exact (h.bytes.of_apart h.apart hmem).frame fun y hy => hframe y (h.outsideHeaders_file hy)

end LoadBuffers

/-- Writing inside a block in use keeps the chunk list. -/
theorem HeapInv.blit {heap : Heap} {bs : List Block} {b : Block} {n : Nat} (hinv : HeapInv heap bs)
    (hb : b ∈ bs) (f : Nat → Byte) (hn : n ≤ 2 ^ 32) (hle : n ≤ b.len) :
    HeapInv { heap with mem := heap.mem.blit (payloadPtr b) f n } bs := by
  refine ⟨hinv.initialized, hinv.chunks.frame fun x hx => ?_⟩
  show heap.mem.blit (payloadPtr b) f n x = heap.mem x
  rw [Mem.blit_apply hn, if_neg]
  intro hin
  exact hx (hinv.layout.outsideHeaders hb (Nat.lt_of_lt_of_le hin hle))

/-- Writing the file to the buffer delivers it. -/
theorem fileDelivered_blit (heap : Heap) (ptr : Word) (file : Mem) {n : Nat} (hn : n < 2 ^ 32) :
    FileDelivered heap { heap with mem := heap.mem.blit ptr (fun k => file (BitVec.ofNat 32 k)) n }
      ptr file n := by
  constructor
  · intro bs hinv hlive
    obtain ⟨b, hb, -, rfl, hle⟩ := hlive
    exact ⟨bs, hinv.blit hb _ (Nat.le_of_lt hn) hle, fun c hc _ => hc⟩
  · intro x hx
    have hsub : ptr + x - ptr = x := by bv_omega
    simp only [Mem.blit_apply (Nat.le_of_lt hn), hsub, if_pos hx, BitVec.ofNat_toNat,
      BitVec.setWidth_eq]

/-- An `fs_read` that delivers the file. -/
def deliver (file : Mem) (heap : Heap) (ptr len : Word) : Except Halt Heap :=
  .ok { heap with mem := heap.mem.blit ptr (fun k => file (BitVec.ofNat 32 k)) len.toNat }

/-- The buffers on the heap of the PC map. -/
theorem pcMap_buffers (file : Mem) {size len : Word} {bs₁ bs₂ : List Block} {a₁ a₂ : Nat}
    (hsize : size ≠ 0) (hlen : len ≠ 0)
    (ha₁ : allocate 16 size.toNat [⟨0x20000, 0x7fbf0, false⟩, ⟨0x100000, 0x7edfff0, false⟩] =
      some (bs₁, a₁))
    (hmem : ⟨a₁, size.toNat, true⟩ ∈ bs₁) (ha₂ : allocate 16 len.toNat bs₁ = some (bs₂, a₂)) :
    ∃ heap heap₁ heap₂ heap₃, mallocInit 0x20000 pcMap (Heap.boot fun _ => 0) = .ok heap ∧
      HeapInv heap [⟨0x20000, 0x7fbf0, false⟩, ⟨0x100000, 0x7edfff0, false⟩] ∧
      malloc heap size = .ok (BitVec.ofNat 32 (a₁ + 16), heap₁) ∧
      deliver file heap₁ (BitVec.ofNat 32 (a₁ + 16)) size = .ok heap₂ ∧
      FileDelivered heap₁ heap₂ (BitVec.ofNat 32 (a₁ + 16)) file size.toNat ∧
      malloc heap₂ len = .ok (BitVec.ofNat 32 (a₂ + 16), heap₃) := by
  obtain ⟨heap, hinit, hinv⟩ := heapInv_pcMap
  obtain ⟨mem₁, hm₁, hc₁, -⟩ := malloc_of_allocate hinv.chunks hinv.initialized hsize ha₁
  have hinv₁ : HeapInv { heap with mem := mem₁ } bs₁ := ⟨hinv.initialized, hc₁⟩
  have hinv₂ := hinv₁.blit hmem (fun k => file (BitVec.ofNat 32 k)) (Nat.le_of_lt size.isLt)
    (Nat.le_refl _)
  obtain ⟨mem₂, hm₂, -, -⟩ := malloc_of_allocate hinv₂.chunks hinv₂.initialized hlen ha₂
  exact ⟨heap, _, _, _, hinit, hinv, hm₁, rfl, fileDelivered_blit _ _ file size.isLt, hm₂⟩

/-- The buffers for a file of 324 bytes with an image of 12 bytes. -/
theorem sample_buffers (file : Mem) :
    ∃ heap heap₁ heap₂ heap₃, mallocInit 0x20000 pcMap (Heap.boot fun _ => 0) = .ok heap ∧
      HeapInv heap [⟨0x20000, 0x7fbf0, false⟩, ⟨0x100000, 0x7edfff0, false⟩] ∧
      malloc heap 324 = .ok (0x20010, heap₁) ∧ deliver file heap₁ 0x20010 324 = .ok heap₂ ∧
      FileDelivered heap₁ heap₂ 0x20010 file 324 ∧ malloc heap₂ 12 = .ok (0x20164, heap₃) :=
  pcMap_buffers file (by decide) (by decide) rfl (List.mem_cons_self ..) rfl

end Hjortron
