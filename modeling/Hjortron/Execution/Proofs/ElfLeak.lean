import Hjortron.Execution.Proofs.ElfBounds
import Hjortron.Filesystem.Proofs.Leaks

/-!
# What a failed load leaves behind

When a relocation cannot be applied, `elf_read` frees the file buffer and returns. The image buffer
has been allocated by then, and nothing refers to it any more.
-/

namespace Hjortron

open BlockList Driver Logged

/-- The `fs_read` frees no block that was live before the call. -/
def KeepsLive (fsRead : Word → Word → Action Unit) : Prop :=
  ∀ ptr len heap u heap' log, (fsRead ptr len).Runs heap u heap' log →
    ∀ live, live ≤ liveAfter live log

/-- The `fs_read` of the driver frees only what it has allocated. -/
theorem fat12Read_keepsLive (fs : Fat12) (disk : Disk) (readFat : Half → Half) (file : Word) :
    KeepsLive (Driver.fat12Read fs disk readFat file) := by
  intro ptr len heap u heap' log h live
  obtain ⟨left, hlive, -⟩ := fat12Read_leaves h
  rw [hlive]
  exact Multiset.le_add_left live left

/-- Freeing one of two new blocks leaves the other. -/
theorem cons_le_erase {live live' : Multiset Word} {file image : Word}
    (h : file ::ₘ live ≤ live') : image ::ₘ live ≤ (image ::ₘ live').erase file := by
  obtain ⟨rest, rfl⟩ := Multiset.le_iff_exists_add.mp h
  rw [Multiset.cons_add, Multiset.cons_swap, Multiset.erase_cons_head]
  exact (Multiset.cons_le_cons_iff image).mpr (Multiset.le_add_right live rest)

/-- The calls of `malloc` and `free` on an error return. -/
theorem elfReadLogged_error {fsRead : Word → Word → Action Unit} {heap heap' : Heap}
    {len buffer entry buffer' entry' : Word} {log : List DriverEvent}
    (h : (elfReadLogged fsRead len buffer entry).Runs heap (false, buffer', entry') heap' log) :
    buffer' = buffer ∧ entry' = entry ∧ ∃ file image log' heap₁ u heap₂,
      (fsRead file len).Runs heap₁ u heap₂ log' ∧
      log = .malloc file :: (log' ++ [.malloc image, .free file]) := by
  obtain ⟨file, heap₁, _, _, hmalloc, h₁, rfl⟩ := runs_bind_iff.mp h
  obtain ⟨-, rfl⟩ := runs_malloc_iff.mp hmalloc
  obtain ⟨u, heap₂, log', _, hread, h₂, rfl⟩ := runs_bind_iff.mp h₁
  obtain ⟨_, _, _, _, hcheck, h₃, rfl⟩ := runs_bind_iff.mp h₂
  obtain ⟨-, rfl⟩ := runs_call_iff.mp hcheck
  obtain ⟨_, _, _, _, hcheck, h₄, rfl⟩ := runs_bind_iff.mp h₃
  obtain ⟨-, rfl⟩ := runs_call_iff.mp hcheck
  obtain ⟨_, _, _, _, hlen, h₅, rfl⟩ := runs_bind_iff.mp h₄
  obtain ⟨-, -, rfl⟩ := runs_read_iff.mp hlen
  obtain ⟨image, _, _, _, hmalloc, h₆, rfl⟩ := runs_bind_iff.mp h₅
  obtain ⟨-, rfl⟩ := runs_malloc_iff.mp hmalloc
  obtain ⟨_, _, _, _, hwrite, h₇, rfl⟩ := runs_bind_iff.mp h₆
  obtain ⟨-, rfl⟩ := runs_write_iff.mp hwrite
  obtain ⟨_, _, _, _, hwrite, h₈, rfl⟩ := runs_bind_iff.mp h₇
  obtain ⟨-, rfl⟩ := runs_write_iff.mp hwrite
  obtain ⟨relocated, _, _, _, hrelocate, h₉, rfl⟩ := runs_bind_iff.mp h₈
  obtain ⟨-, rfl⟩ := runs_call_iff.mp hrelocate
  obtain ⟨_, _, _, _, hfree, h₁₀, rfl⟩ := runs_bind_iff.mp h₉
  obtain ⟨-, rfl⟩ := runs_free_iff.mp hfree
  cases relocated with
  | true =>
    obtain ⟨_, _, _, _, -, h₁₁, rfl⟩ := runs_bind_iff.mp h₁₀
    obtain ⟨hresult, -, -⟩ := runs_pure_iff.mp h₁₁
    cases hresult
  | false =>
    obtain ⟨hresult, -, rfl⟩ := runs_pure_iff.mp h₁₀
    cases hresult
    exact ⟨rfl, rfl, file, image, log', heap₁, u, heap₂, hread, by simp⟩

/-- The image buffer is live after an error return. -/
theorem image_live_after_error {fsRead : Word → Word → Action Unit} {heap heap' : Heap}
    {len buffer entry buffer' entry' : Word} {log : List DriverEvent} (hread : KeepsLive fsRead)
    (h : (elfReadLogged fsRead len buffer entry).Runs heap (false, buffer', entry') heap' log)
    (live : Multiset Word) : ∃ image, image ::ₘ live ≤ liveAfter live log := by
  obtain ⟨-, -, file, image, log', heap₁, u, heap₂, hrun, rfl⟩ := elfReadLogged_error h
  refine ⟨image, ?_⟩
  rw [liveAfter, liveAfter_append]
  exact cons_le_erase (hread file len heap₁ u heap₂ log' hrun (file ::ₘ live))

/-- So it is when the file is read by the driver. -/
theorem image_live_after_fat12Read {fs : Fat12} {disk : Disk} {readFat : Half → Half} {file : Word}
    {heap heap' : Heap} {len buffer entry buffer' entry' : Word} {log : List DriverEvent}
    (h : (elfReadLogged (Driver.fat12Read fs disk readFat file) len buffer entry).Runs heap
      (false, buffer', entry') heap' log) (live : Multiset Word) :
    ∃ image, image ::ₘ live ≤ liveAfter live log :=
  image_live_after_error (fat12Read_keepsLive fs disk readFat file) h live

/-- `elf_read` takes an error return when a relocation has failed. -/
theorem runs_elfReadLogged_error {fsRead : Word → Word → Action Unit}
    {heap heap₁ heap₂ heap₃ heap' : Heap} {len file image : Word} {log : List DriverEvent}
    {mem : Mem} {u : Unit} (buffer entry : Word)
    (hm₁ : Hjortron.malloc heap len = .ok (file, heap₁))
    (hread : (fsRead file len).Runs heap₁ u heap₂ log)
    (hfile : elfCheckFile heap₂.mem file = true)
    (hsupported : elfCheckSupport heap₂.mem file = true)
    (hm₂ : Hjortron.malloc heap₂ (imageLengthLoop heap₂.mem file (2 ^ 16) 0 0) =
      .ok (image, heap₃))
    (hrelocate : relocateLoop file file image (2 ^ 16) 0 (copyLoop file file image (2 ^ 16) 0
      (memset heap₃.mem image 0 (imageLengthLoop heap₂.mem file (2 ^ 16) 0 0))) =
        .ok (mem, false))
    (hfree : Hjortron.free { heap₃ with mem } file = .ok heap') :
    ∃ log, (elfReadLogged fsRead len buffer entry).Runs heap (false, buffer, entry) heap' log := by
  have hcheckFile : (assert (elfCheckFile heap₂.mem file) "elf_check_file(header)").map
      (·, heap₂) = .ok ((), heap₂) := by
    rw [hfile]
    rfl
  have hcheckSupport : (assert (elfCheckSupport heap₂.mem file)
      "elf_check_support(header)").map (·, heap₂) = .ok ((), heap₂) := by
    rw [hsupported]
    rfl
  have hresult := congrArg (Except.map fun r : Mem × Bool => (r.2, { heap₃ with mem := r.1 }))
    hrelocate
  exact ⟨_, (runs_malloc_iff.mpr ⟨hm₁, rfl⟩).bind <| hread.bind <|
    (runs_call_iff.mpr ⟨hcheckFile, rfl⟩).bind <|
    (runs_call_iff.mpr ⟨hcheckSupport, rfl⟩).bind <|
    (runs_read _ _).bind <| (runs_malloc_iff.mpr ⟨hm₂, rfl⟩).bind <|
    ((runs_write_iff (u := ())).mpr ⟨rfl, rfl⟩).bind <|
    ((runs_write_iff (u := ())).mpr ⟨rfl, rfl⟩).bind <|
    (runs_call_iff.mpr ⟨hresult, rfl⟩).bind <|
    ((runs_free_iff (u := ())).mpr ⟨hfree, rfl⟩).bind (runs_pure_iff.mpr ⟨rfl, rfl, rfl⟩)⟩

/-- The sample object with its first symbol undefined. -/
def undefinedObject : Mem := sampleObject.store32 88 0x10

theorem undefinedObject_loadable : Loadable undefinedObject 324 :=
  ⟨⟨by decide, by decide +kernel⟩, by decide +kernel, by decide +kernel⟩

theorem undefinedObject_relocatable : Relocatable undefinedObject 324 :=
  ⟨undefinedObject_loadable.toTableInside, by decide +kernel⟩

theorem undefinedObject_relocations : relocations undefinedObject = [(4, 0), (4, 1)] := by
  decide +kernel

theorem undefinedObject_writesIn (image : Word) (r : Nat × Nat)
    (hr : r ∈ relocations undefinedObject) :
    (relocEffect undefinedObject image r).WritesIn image 12 := by
  apply writesIn_relocEffect image (by decide)
  have hall : ∀ r ∈ [(4, 0), (4, 1)], relocOffset undefinedObject r.1 r.2 + 4 ≤ 12 := by
    decide +kernel
  exact hall r (undefinedObject_relocations ▸ hr)

/-- The first relocation fails. -/
theorem undefinedObject_fails (image : Word) (m : Mem) :
    RelocEffect.runAll ((relocations undefinedObject).map (relocEffect undefinedObject image)) m =
      (m, false) := by
  have hfail : relocEffect undefinedObject image (4, 0) = .fail := by
    unfold relocEffect
    rw [if_neg (by decide +kernel), if_pos (by decide +kernel)]
  rw [undefinedObject_relocations, List.map_cons, hfail]
  rfl

/-- An `fs_read` that delivers the file, as a call of the driver. -/
def deliverLogged (file : Mem) (ptr len : Word) : Action Unit :=
  .call fun heap => (deliver file heap ptr len).map ((), ·)

theorem deliverLogged_keepsLive (file : Mem) : KeepsLive (deliverLogged file) := by
  intro ptr len heap u heap' log h live
  obtain ⟨-, rfl⟩ := runs_call_iff.mp h
  exact le_refl live

/-- Loading that file fails. -/
theorem undefinedObject_run : ∃ heap heap' log,
    mallocInit 0x20000 pcMap (Heap.boot fun _ => 0) = .ok heap ∧
      (elfReadLogged (deliverLogged undefinedObject) 324 0 0).Runs heap (false, 0, 0) heap'
        log := by
  have hlength : imageLength undefinedObject (sectionCount undefinedObject) = 12 := by
    decide +kernel
  have hload := undefinedObject_loadable
  obtain ⟨heap, heap₁, heap₂, heap₃, hinit, hinv, hm₁, hfs, hdel, hm₂⟩ :=
    sample_buffers undefinedObject
  rw [show (12 : Word) =
    BitVec.ofNat 32 (imageLength undefinedObject (sectionCount undefinedObject)) by
      rw [hlength]; rfl] at hm₂
  obtain ⟨bs, f, c, hf, hc, hbuf⟩ := loadBuffers hinv hm₁ hfs hdel hm₂
  have hin := undefinedObject_writesIn (payloadPtr c)
  rw [BitVec.toNat_ofNat, Nat.mod_eq_of_lt (hload.imageLength_lt (Nat.le_refl _))] at hbuf
  rw [← hlength] at hin
  have hchecks := hdel.bytes.checks hload.header (by decide)
  have hlen := hload.imageLengthLoop_eq (by decide) hdel.bytes
  obtain ⟨mem, -, hrelocate, hframe⟩ := loaded_image hbuf (by decide) hload
    undefinedObject_relocatable hin
  rw [undefinedObject_fails] at hrelocate hframe
  obtain ⟨bs', mem', hfree, -⟩ := hbuf.free_file hframe
  rw [← hf, ← hc, ← hlen] at hrelocate
  rw [← hf] at hfree
  have hread : (deliverLogged undefinedObject 0x20010 324).Runs heap₁ () heap₂ [] := by
    apply runs_call_iff.mpr
    rw [hfs]
    exact ⟨rfl, rfl⟩
  obtain ⟨log, hrun⟩ := runs_elfReadLogged_error 0 0 hm₁ hread
    (by rw [elfCheckFile, hchecks.1]; decide +kernel)
    (by rw [elfCheckSupport, hchecks.2]; decide +kernel)
    (by rw [hlen]; exact hm₂) hrelocate hfree
  exact ⟨heap, _, log, hinit, hrun⟩

/-- **A failed load.** On every error return `*buffer` and `*entry` are as they were, but the blocks
that are live are not: the image buffer has been added to them. So no failed load leaves nothing
behind. -/
theorem failed_load_leaks {fsRead : Word → Word → Action Unit} {heap heap' : Heap}
    {len buffer entry buffer' entry' : Word} {log : List DriverEvent} (hread : KeepsLive fsRead)
    (h : (elfReadLogged fsRead len buffer entry).Runs heap (false, buffer', entry') heap' log)
    (live : Multiset Word) :
    buffer' = buffer ∧ entry' = entry ∧ (∃ image, image ::ₘ live ≤ liveAfter live log) ∧
      ¬ (buffer' = buffer ∧ entry' = entry ∧ liveAfter live log = live) := by
  obtain ⟨hbuffer, hentry, -⟩ := elfReadLogged_error h
  obtain ⟨image, hlive⟩ := image_live_after_error hread h live
  refine ⟨hbuffer, hentry, ⟨image, hlive⟩, fun hsame => ?_⟩
  rw [hsame.2.2] at hlive
  have hcard := Multiset.card_le_card hlive
  rw [Multiset.card_cons] at hcard
  omega

theorem failed_load_leaks_sample : ∃ heap heap' log,
    (elfReadLogged (deliverLogged undefinedObject) 324 0 0).Runs heap (false, 0, 0) heap' log ∧
      ∃ image, image ::ₘ 0 ≤ liveAfter 0 log := by
  obtain ⟨heap, heap', log, -, hrun⟩ := undefinedObject_run
  exact ⟨heap, heap', log, hrun,
    (failed_load_leaks (deliverLogged_keepsLive _) hrun 0).2.2.1⟩

/-- With no block live before the call, one is after it. -/
theorem undefinedObject_leaves_image : ∃ heap heap' log,
    mallocInit 0x20000 pcMap (Heap.boot fun _ => 0) = .ok heap ∧
      (elfReadLogged (deliverLogged undefinedObject) 324 0 0).Runs heap (false, 0, 0) heap' log ∧
      liveAfter 0 log ≠ 0 := by
  obtain ⟨heap, heap', log, hinit, hrun⟩ := undefinedObject_run
  refine ⟨heap, heap', log, hinit, hrun, fun hnone => ?_⟩
  obtain ⟨image, hlive⟩ := image_live_after_error (deliverLogged_keepsLive _) hrun 0
  rw [hnone] at hlive
  exact absurd (Multiset.card_le_card hlive) (by simp)

end Hjortron
