import Hjortron.Filesystem.Proofs.Components
import Mathlib.Data.List.GetD
import Mathlib.Tactic.IntervalCases

/-!
# The extension loop of `fat12_open`

The loop steps back on the first dot and leaves its scanning mode by the byte that follows it. In a
name buffer that byte is not NUL, so that the loop does not come back to the dot for ever.
-/

namespace Hjortron

/-- The name with a dot at `d` in the layout of a directory entry: what stands before the dot,
padded with spaces to eight bytes, and the three bytes behind it. -/
def directoryName (buffer : List Byte) (d : Nat) : List Byte :=
  buffer.take d ++ (List.replicate (8 - d) (ascii ' ') ++ (buffer.drop (d + 1)).take 3)

section

variable {readDirectory readDirectory' : Half → List DirectoryEntry} {stack stack' : Nat → Byte}
  {entries : List DirectoryEntry} {buffer s path : List Byte} {d k : Nat}

/-! ## Result -/

/-- Three bytes inside the name buffer. -/
theorem bufferByte_three (hd : d + 3 ≤ buffer.length) :
    [bufferByte stack buffer d, bufferByte stack buffer (d + 1), bufferByte stack buffer (d + 2)] =
      (buffer.drop d).take 3 := by
  have hbyte (i : Nat) (hi : i < buffer.length) : buffer.drop i =
      bufferByte stack buffer i :: buffer.drop (i + 1) := by
    rw [bufferByte, List.getD_eq_getElem _ _ hi]
    exact List.drop_eq_getElem_cons hi
  rw [hbyte d (by omega), hbyte (d + 1) (by omega), hbyte (d + 2) (by omega)]
  rfl

theorem FirstDot.split (h : FirstDot buffer d) (hd : d < buffer.length) :
    buffer = buffer.take d ++ ascii '.' :: buffer.drop (d + 1) := by
  have hdot := h.dot
  rw [List.getD_eq_getElem _ _ hd] at hdot
  rw [← hdot, ← List.drop_eq_getElem_cons hd, List.take_append_drop]

theorem FirstDot.unique (h : FirstDot buffer d) (hk : FirstDot buffer k) : d = k := by
  rcases Nat.lt_trichotomy d k with hlt | rfl | hlt
  · exact absurd h.dot (hk.first d h.pos hlt)
  · rfl
  · exact absurd hk.dot (h.first k hk.pos hlt)

/-- What the loop leaves when the dot stands among the first nine characters. -/
theorem FirstDot.take_fillFrom (h : FirstDot buffer d) (hlen : buffer.length = 12) (hd : d ≤ 8) :
    (fillFrom d buffer [bufferByte stack buffer (d + 1), bufferByte stack buffer (d + 2),
      bufferByte stack buffer (d + 3)]).take 11 = directoryName buffer d := by
  rw [bufferByte_three (by omega), directoryName]
  have hbase : (buffer.take d).length = d := List.length_take_of_le (by omega)
  have htail : 10 ≤ (buffer.take d).length + (buffer.drop (d + 1)).length := by
    rw [hbase, List.length_drop]
    omega
  have hext : ((buffer.drop (d + 1)).take 3).length = 3 := by
    apply List.length_take_of_le
    rw [List.length_drop]
    omega
  have hfill := Hjortron.take_fillFrom (by omega) htail hext
  rwa [← h.split (by omega), hbase] at hfill

/-! ## Components -/

theorem openLoop_nameBuffer (hs : s.length ≤ 11) (hslash : ascii '/' ∉ s) :
    openLoop readDirectory stack entries blankBuffer 0 s =
      openFile stack entries (nameBuffer s) := by
  have hcopy : openLoop readDirectory stack entries blankBuffer 0 (s ++ []) =
      openLoop readDirectory stack entries (copyInto blankBuffer 0 s s.length) (0 + s.length) [] :=
    openLoop_component hslash (by omega) rfl
  rw [List.append_nil, copyInto_nameBuffer] at hcopy
  exact hcopy

/-! ## What lies behind the name buffer -/

/-- The first dot is in the first nine characters, if there is one. -/
def DotInside (s : List Byte) : Prop := ∀ d, FirstDot (nameBuffer s) d → d ≤ 8

/-- An extension inside the name buffer is read from there. -/
theorem bufferByte_inside (hd : d < buffer.length) :
    bufferByte stack buffer d = bufferByte stack' buffer d := by
  rw [bufferByte, bufferByte, List.getD_eq_getElem _ _ hd, List.getD_eq_getElem _ _ hd]

theorem DotInside.loop_eq (h : DotInside s) (hs : s.length ≤ 11) (hnul : 0 ∉ s) :
    extensionLoop stack 24 1 (nameBuffer s) [0, 0, 0] =
      extensionLoop stack' 24 1 (nameBuffer s) [0, 0, 0] := by
  have hlen : (nameBuffer s).length = 12 := length_nameBuffer hs
  rcases noDot_or_firstDot (nameBuffer s) with hno | ⟨d, hd, hdot⟩
  · rw [hno.loop_eq (by decide), hno.loop_eq (by decide)]
  · have hin : d ≤ 8 := h d hdot
    have hbyte (i : Nat) (hi : i < 12) :
        bufferByte stack (nameBuffer s) i = bufferByte stack' (nameBuffer s) i :=
      bufferByte_inside (hlen ▸ hi)
    rw [hdot.loop_eq hd (bufferByte_ne_zero hs hnul (by omega)) (by decide),
      hdot.loop_eq hd (bufferByte_ne_zero hs hnul (by omega)) (by decide),
      hbyte (d + 1) (by omega), hbyte (d + 2) (by omega), hbyte (d + 3) (by omega)]

/-- A component with its dot inside opens the same file whatever lies behind the buffer. -/
theorem DotInside.openLoop_eq (h : DotInside s) (hnul : 0 ∉ s) (hslash : ascii '/' ∉ s) :
    openLoop readDirectory stack entries blankBuffer 0 s =
      openLoop readDirectory stack' entries blankBuffer 0 s := by
  by_cases hs : s.length ≤ 11
  · rw [openLoop_nameBuffer hs hslash, openLoop_nameBuffer hs hslash]
    unfold openFile
    rw [h.loop_eq hs hnul]
  · rw [← List.append_nil s, openLoop_overflow hslash (by omega),
      openLoop_overflow hslash (by omega)]

/-- Opening `path/s` and `s` in the directory of `path` gives the same file, also with different
bytes behind the two buffers. -/
theorem DotInside.opens_same (h : DotInside s) (stack stack' : Nat → Byte) (name : List Byte)
    {dir : FsDir} (hne : path ≠ []) (hnul : 0 ∉ path) (hlast : path.getLast? ≠ some (ascii '/'))
    (hs : 0 ∉ s) (hslash : ascii '/' ∉ s)
    (hdir : (fat12Opendir readDirectory name path).handle = some dir)
    (hroot : readDirectory' 0 = readDirectory (dir.ref.setWidth 16)) :
    ∃ o, fat12Open readDirectory stack (path ++ ascii '/' :: s) = some o ∧
      fat12Open readDirectory' stack' s = some o := by
  have hreturns : (fat12Open readDirectory' stack' s).isSome = true :=
    openLoop_isSome rfl not_mem_blankBuffer hs
  obtain ⟨o, ho⟩ := Option.isSome_iff_exists.mp hreturns
  refine ⟨o, ?_, ho⟩
  rw [fat12Open_directory stack name s hne hnul hlast, hdir, ← ho, fat12Open, hroot]
  exact (openLoop_congr hslash).trans (h.openLoop_eq hs hslash)

end

/-- **Names in the layout of a directory.** A component that fits the name buffer is copied to it,
and the loop on the buffer ends within twelve iterations. With its first dot at 1 to 8 it leaves the
name in the layout of a directory; without a dot it leaves the buffer alone and the path is
rejected. -/
theorem extensionLoop_normalises (stack : Nat → Byte) (s : List Byte) (hs : s.length ≤ 11)
    (hnul : 0 ∉ s) (hslash : ascii '/' ∉ s) :
    (∀ readDirectory entries, openLoop readDirectory stack entries blankBuffer 0 s =
      openFile stack entries (nameBuffer s)) ∧
    ∃ buffer ext,
      (∀ fuel, 12 ≤ fuel →
        extensionLoop stack fuel 1 (nameBuffer s) [0, 0, 0] = some (buffer, ext)) ∧
      (∀ d ≤ 8, FirstDot (nameBuffer s) d → buffer.take 11 = directoryName (nameBuffer s) d) ∧
      (NoDot (nameBuffer s) → buffer = nameBuffer s ∧
        ∀ entries, openFile stack entries (nameBuffer s) = some ⟨none, [.entries]⟩) := by
  refine ⟨fun readDirectory entries => openLoop_nameBuffer hs hslash, ?_⟩
  rcases noDot_or_firstDot (nameBuffer s) with hno | ⟨d, hd, hdot⟩
  · refine ⟨nameBuffer s, [0, 0, 0], fun fuel hfuel => hno.loop_eq (by omega), ?_, ?_⟩
    · intro d hd hdot
      exact absurd hdot.dot (hno d hdot.pos (by omega))
    · intro _
      exact ⟨rfl, fun entries => hno.openFile (strlen_nameBuffer hnul)⟩
  · have hbyte : bufferByte stack (nameBuffer s) (d + 1) ≠ 0 :=
      bufferByte_ne_zero hs hnul (by omega)
    refine ⟨_, _, fun fuel hfuel => hdot.loop_eq hd hbyte hfuel, ?_, ?_⟩
    · intro d' hd' hdot'
      obtain rfl := hdot.unique hdot'
      exact hdot.take_fillFrom (length_nameBuffer hs) hd'
    · intro hno
      exact absurd hdot.dot (hno d hdot.pos hd)

/-- The name of the kernel. -/
theorem extensionLoop_normalises_kernel : ∃ buffer ext,
    extensionLoop (fun _ => 0) 12 1 (nameBuffer ("KERNEL.BIN".toList.map ascii)) [0, 0, 0] =
        some (buffer, ext) ∧
      buffer.take 11 = "KERNEL  BIN".toList.map ascii := by
  have hdot : FirstDot (nameBuffer ("KERNEL.BIN".toList.map ascii)) 6 := by
    refine ⟨by decide, by decide, fun j hj hlt => ?_⟩
    interval_cases j <;> decide
  obtain ⟨-, buffer, ext, hloop, hname, -⟩ := extensionLoop_normalises (fun _ => 0)
    ("KERNEL.BIN".toList.map ascii) (by decide) (by decide) (by decide)
  refine ⟨buffer, ext, hloop 12 le_rfl, (hname 6 (by decide) hdot).trans ?_⟩
  decide

end Hjortron
