import Hjortron.Filesystem.Proofs.ResolveSpec

/-!
# The components of a path

`fat12_open` and `fat12_opendir` walk through a path character by character. `descend` walks
through its components instead; the loops follow it up to the last component.
-/

namespace Hjortron

/-- The parts of a path between slashes. -/
def components : List Byte → List (List Byte)
  | [] => [[]]
  | c :: path =>
    if c = ascii '/' then
      [] :: components path
    else
      match components path with
      | [] => [[c]]
      | s :: rest => (c :: s) :: rest

/-- What follows the last slash. -/
def lastComponent (path : List Byte) : List Byte := (components path).getLastD []

/-- The name buffer that holds a component. -/
def nameBuffer (s : List Byte) : List Byte := s ++ List.replicate (12 - s.length) (ascii ' ')

/-- The entries of the directory that the components lead to from `entries`. -/
def descend (readDirectory : Half → List DirectoryEntry) :
    List DirectoryEntry → List (List Byte) → Option (List DirectoryEntry)
  | entries, [] => some entries
  | entries, s :: rest =>
    if 11 < s.length then
      none
    else
      (entries.find? fun e =>
        e.attributes == fat12AttributeDirectory && e.filename == (nameBuffer s).take 11).bind
        fun e => descend readDirectory (readDirectory (e.cluster.setWidth 16)) rest

section

variable {readDirectory : Half → List DirectoryEntry} {stack : Nat → Byte}
  {entries : List DirectoryEntry} {s path : List Byte}

/-! ## Components -/

theorem components_ne_nil : components path ≠ [] := by
  cases path with
  | nil => simp [components]
  | cons c path =>
    rw [components]
    split
    · simp
    · split <;> simp

theorem components_of_not_mem (h : ascii '/' ∉ s) : components s = [s] := by
  induction s with
  | nil => rfl
  | cons c s ih =>
    rw [List.mem_cons, not_or] at h
    rw [components, if_neg (Ne.symm h.1), ih h.2]

theorem components_append (h : ascii '/' ∉ s) :
    components (s ++ ascii '/' :: path) = s :: components path := by
  induction s with
  | nil => rw [List.nil_append, components, if_pos rfl]
  | cons c s ih =>
    rw [List.mem_cons, not_or] at h
    rw [List.cons_append, components, if_neg (Ne.symm h.1), ih h.2]

theorem lastComponent_append (h : ascii '/' ∉ s) :
    lastComponent (s ++ ascii '/' :: path) = lastComponent path := by
  rw [lastComponent, lastComponent, components_append h, List.getLastD_cons]
  have hne : components path ≠ [] := components_ne_nil
  obtain ⟨t, rest, hcomponents⟩ := List.exists_cons_of_ne_nil hne
  rw [hcomponents, List.getLastD_cons, List.getLastD_cons]

theorem lastComponent_of_not_mem (h : ascii '/' ∉ s) : lastComponent s = s := by
  rw [lastComponent, components_of_not_mem h]
  rfl

/-- Paths are built from components. -/
theorem path_induction {P : List Byte → Prop} (last : ∀ s, ascii '/' ∉ s → P s)
    (step : ∀ s path, ascii '/' ∉ s → P path → P (s ++ ascii '/' :: path)) : ∀ path, P path := by
  intro path
  induction hn : path.length using Nat.strongRecOn generalizing path with
  | ind n ih =>
    by_cases hslash : ascii '/' ∈ path
    · obtain ⟨s, rest, rfl, hs⟩ := List.eq_append_cons_of_mem hslash
      refine step s rest hs (ih rest.length ?_ rest rfl)
      rw [← hn, List.length_append, List.length_cons]
      omega
    · exact last path hslash

theorem components_dropLast (h : ascii '/' ∉ s) :
    (components (s ++ ascii '/' :: path)).dropLast = s :: (components path).dropLast := by
  rw [components_append h, List.dropLast_cons_of_ne_nil components_ne_nil]

theorem not_mem_lastComponent (path : List Byte) (hnul : 0 ∉ path) : 0 ∉ lastComponent path := by
  induction path using path_induction with
  | last s hs => rwa [lastComponent_of_not_mem hs]
  | step s path hs ih =>
    rw [lastComponent_append hs]
    rw [List.mem_append, List.mem_cons, not_or, not_or] at hnul
    exact ih hnul.2.2

theorem components_eq (path : List Byte) :
    components path = (components path).dropLast ++ [lastComponent path] := by
  have hne : components path ≠ [] := components_ne_nil
  rw [lastComponent, List.getLastD_eq_getLast?, List.getLast?_eq_some_getLast hne]
  exact (List.dropLast_concat_getLast hne).symm

theorem lastComponent_mem (path : List Byte) : lastComponent path ∈ components path := by
  rw [components_eq path]
  exact List.mem_append_right _ (List.mem_singleton_self _)

/-! ## The name buffer -/

theorem copyInto_nameBuffer : copyInto blankBuffer 0 s s.length = nameBuffer s := copyInto_blank

theorem not_mem_nameBuffer (hnul : 0 ∉ s) : 0 ∉ nameBuffer s := by
  rw [nameBuffer, List.mem_append, not_or]
  refine ⟨hnul, fun hmem => ?_⟩
  exact absurd (List.eq_of_mem_replicate hmem) (by decide)

theorem length_nameBuffer (hs : s.length ≤ 11) : (nameBuffer s).length = 12 := by
  rw [nameBuffer, List.length_append, List.length_replicate]
  omega

theorem le_length_nameBuffer : 11 ≤ (nameBuffer s).length := by
  rw [nameBuffer, List.length_append, List.length_replicate]
  omega

theorem strlen_nameBuffer (hnul : 0 ∉ s) : strlen (nameBuffer s) ≠ 0 := by
  apply strlen_ne_zero _ (not_mem_nameBuffer hnul)
  exact List.ne_nil_of_length_pos (Nat.lt_of_lt_of_le (by decide) le_length_nameBuffer)

/-- The bytes of the name buffer. -/
theorem bufferByte_ne_zero (hs : s.length ≤ 11) (hnul : 0 ∉ s) (hd : d < 12) :
    bufferByte stack (nameBuffer s) d ≠ 0 := by
  have hin : d < (nameBuffer s).length := by
    rw [length_nameBuffer hs]
    exact hd
  rw [bufferByte, List.getD_eq_getElem?_getD, List.getElem?_eq_getElem hin, Option.getD_some]
  exact fun h0 => not_mem_nameBuffer hnul (h0 ▸ List.getElem_mem hin)

/-! ## The loops -/

theorem findEntry_directory (hnul : 0 ∉ s) :
    findEntry entries fat12AttributeDirectory (nameBuffer s) = entries.find? fun e =>
      e.attributes == fat12AttributeDirectory && e.filename == (nameBuffer s).take 11 := by
  apply findEntry_eq rfl
  · rw [List.length_take]
    exact Nat.min_eq_left le_length_nameBuffer
  · exact fun hmem => not_mem_nameBuffer hnul (List.mem_of_mem_take hmem)

/-- The loop of `fat12_open` looks the last component up in the directory of the others. -/
theorem openLoop_eq (path : List Byte) (entries : List DirectoryEntry) (hnul : 0 ∉ path) :
    openLoop readDirectory stack entries blankBuffer 0 path =
      (descend readDirectory entries (components path).dropLast).elim (some ⟨none, [.entries]⟩)
        fun entries =>
          if 11 < (lastComponent path).length then
            some ⟨none, [.entries]⟩
          else
            openFile stack entries (nameBuffer (lastComponent path)) := by
  induction path using path_induction generalizing entries with
  | last s hs =>
    rw [components_of_not_mem hs, lastComponent_of_not_mem hs]
    change _ = if 11 < s.length then some ⟨none, [.entries]⟩ else openFile stack entries _
    conv_lhs => rw [← List.append_nil s]
    by_cases hlong : 11 < s.length
    · rw [if_pos hlong, openLoop_overflow hs hlong]
    · rw [if_neg hlong, openLoop_component hs (by omega) rfl, copyInto_nameBuffer]
      rfl
  | step s path hs ih =>
    rw [List.mem_append, List.mem_cons, not_or, not_or] at hnul
    rw [components_dropLast hs, lastComponent_append hs, descend]
    by_cases hlong : 11 < s.length
    · rw [if_pos hlong, openLoop_overflow hs hlong]
      rfl
    · rw [if_neg hlong, openLoop_component hs (by omega) rfl, openLoop, if_pos rfl,
        copyInto_nameBuffer, findEntry_directory hnul.1]
      cases entries.find? _ with
      | none => rfl
      | some e => exact ih _ hnul.2.2

/-- The loop of `fat12_opendir` does so, too. -/
theorem opendirLoop_eq (path : List Byte) (entries : List DirectoryEntry) (hnul : 0 ∉ path)
    (hlast : path.getLast? ≠ some (ascii '/')) :
    opendirLoop readDirectory entries blankBuffer 0 path =
      (descend readDirectory entries (components path).dropLast).elim ⟨none, [.entries]⟩
        fun entries =>
          if 11 < (lastComponent path).length then
            ⟨none, [.entries]⟩
          else
            openDirectory entries (nameBuffer (lastComponent path)) := by
  induction path using path_induction generalizing entries with
  | last s hs =>
    rw [components_of_not_mem hs, lastComponent_of_not_mem hs]
    change _ = if 11 < s.length then ⟨none, [.entries]⟩ else openDirectory entries _
    conv_lhs => rw [← List.append_nil s]
    by_cases hlong : 11 < s.length
    · rw [if_pos hlong, opendirLoop_overflow hs hlong]
    · rw [if_neg hlong, opendirLoop_component hs (by omega) rfl, copyInto_nameBuffer]
      rfl
  | step s path hs ih =>
    rw [List.mem_append, List.mem_cons, not_or, not_or] at hnul
    have hne : path ≠ [] := by
      rintro rfl
      simp at hlast
    have hlast' : path.getLast? ≠ some (ascii '/') := by
      intro hslash
      apply hlast
      rw [List.getLast?_append, List.getLast?_cons_of_ne_nil hne, hslash]
      rfl
    rw [components_dropLast hs, lastComponent_append hs, descend]
    by_cases hlong : 11 < s.length
    · rw [if_pos hlong, opendirLoop_overflow hs hlong]
      rfl
    · rw [if_neg hlong, opendirLoop_component hs (by omega) rfl, opendirLoop, if_pos ⟨rfl, hne⟩,
        copyInto_nameBuffer, findEntry_directory hnul.1]
      cases entries.find? _ with
      | none => rfl
      | some e => exact ih _ hnul.2.2 hlast'

theorem descend_append {cs ds : List (List Byte)} :
    descend readDirectory entries (cs ++ ds) =
      (descend readDirectory entries cs).bind fun entries => descend readDirectory entries ds := by
  induction cs generalizing entries with
  | nil => rfl
  | cons s cs ih =>
    rw [List.cons_append, descend, descend]
    split
    · rfl
    · rw [Option.bind_assoc]
      exact Option.bind_congr fun e _ => ih

/-- The end of the path in `fat12_opendir` is one more step down. -/
theorem openDirectory_handle_iff (hs : ¬ 11 < s.length) (hnul : 0 ∉ s) :
    (openDirectory entries (nameBuffer s)).handle.isSome = true ↔
      ∃ E, descend readDirectory entries [s] = some E := by
  have hstr : strlen (nameBuffer s) ≠ 0 := strlen_nameBuffer hnul
  rw [openDirectory, if_neg hstr, findEntry_directory hnul, descend, if_neg hs]
  cases entries.find? _ with
  | none => simp
  | some e => simp [descend]

/-- `fat12_opendir` returns a handle exactly when the components lead to a directory. -/
theorem opendirLoop_handle_iff (hnul : 0 ∉ path) (hlast : path.getLast? ≠ some (ascii '/')) :
    (opendirLoop readDirectory entries blankBuffer 0 path).handle.isSome = true ↔
      ∃ E, descend readDirectory entries (components path) = some E := by
  rw [components_eq path, descend_append, opendirLoop_eq path entries hnul hlast]
  cases descend readDirectory entries (components path).dropLast with
  | none => simp
  | some E =>
    rw [Option.elim_some, Option.bind_some]
    by_cases hlong : 11 < (lastComponent path).length
    · rw [if_pos hlong, descend, if_pos hlong]
      simp
    · rw [if_neg hlong]
      exact openDirectory_handle_iff hlong (not_mem_lastComponent path hnul)

end

end Hjortron
