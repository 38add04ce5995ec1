import Hjortron.Misc.ArrayStore

/-!
# Stores with open files

What the clients of a file system rely on: next to their arrays they hold open files. A file that
is opened under a path has the contents of that path. Reading copies the next elements of its
contents into an array and moves its position behind them; no other array and no other file
changes. A file system may serve only some requests as they are meant: the other reads deliver too
few elements, and the other moves go to the end of the file. The arrays and the files of a store
are named by the same kind of names.
-/

namespace Hjortron

/-! ## Open files -/

/-- What an open file contains, and where the next read starts. -/
structure OpenFile (β : Type*) where
  contents : List β
  position : Nat
  deriving DecidableEq, Repr

/-- `ys` written over `xs` from index `i` on. -/
def splice {β : Type*} (xs : List β) (i : Nat) (ys : List β) : List β :=
  xs.take i ++ ys ++ xs.drop (i + ys.length)

theorem getElem?_splice {β : Type*} {xs ys : List β} {i j : Nat} (hi : i + ys.length ≤ xs.length) :
    (splice xs i ys)[j]? = if i ≤ j ∧ j < i + ys.length then ys[j - i]? else xs[j]? := by
  have hlength : (xs.take i).length = i := List.length_take_of_le (by omega)
  unfold splice
  rw [List.append_assoc, List.getElem?_append, hlength]
  by_cases hlt : j < i
  · rw [if_pos hlt, List.getElem?_take_of_lt hlt, if_neg (by omega)]
  · rw [if_neg hlt, List.getElem?_append]
    by_cases hin : j < i + ys.length
    · rw [if_pos (by omega), if_pos (by omega)]
    · rw [if_neg (by omega), if_neg (by omega), List.getElem?_drop]
      congr 1
      omega

namespace OpenFile

variable {β : Type*} (f : OpenFile β) (n : Nat)

/-- The next `n` elements, as far as there are any. -/
def next : List β := (f.contents.drop f.position).take n

/-- The position moves forward by `n`. -/
def advance : OpenFile β := { f with position := f.position + n }

/-- The position moves to `n`, but not behind the end. -/
def seek : OpenFile β := { f with position := min n f.contents.length }

end OpenFile

/-! ## Stores -/

/-- Arrays and open files by name. -/
structure FileStore (ι β : Type*) where
  arrays : ArrayStore ι β
  files : ι → Option (OpenFile β)

/-- What a client does to a store, with the results that it gets. -/
inductive FileEvent (ι π β : Type*)
  | array (e : StoreEvent ι β)
  | openFile (path : π) (file : Option ι)
  | readFile (file array : ι) (i n : Nat)
  | seekFile (file : ι) (n : Nat)
  | closeFile (file : ι)
  deriving DecidableEq, Repr

/-- What a file system promises: what the paths lead to, and which requests it serves as they are
meant. -/
structure FileSpec (π β : Type*) where
  leads : π → Option (List β) → Prop
  reads : OpenFile β → Nat → Prop
  seeks : OpenFile β → Nat → Prop

namespace FileSpec

variable {π β : Type*} (spec : FileSpec π β) (file : OpenFile β) (n : Nat)

/-- What a read of `n` elements delivers: the next ones, or too few elements. -/
def Delivers (ys : List β) : Prop :=
  (spec.reads file n → ys = file.next n) ∧
    (¬ spec.reads file n → ys.length < (file.next n).length)

/-- How a request for position `n` moves a file: there, or to its end. -/
def Moves (file' : OpenFile β) : Prop :=
  (spec.seeks file n → file' = file.seek n) ∧
    (¬ spec.seeks file n → file' = file.seek file.contents.length)

variable {spec file n} {file' : OpenFile β}

/-- No request moves a file behind its end. -/
theorem Moves.position_le (h : spec.Moves file n file') :
    file'.position ≤ file.contents.length := by
  by_cases hserved : spec.seeks file n
  · rw [h.1 hserved]
    exact Nat.min_le_right _ _
  · rw [h.2 hserved]
    exact Nat.min_le_right _ _

end FileSpec

variable {ι π β : Type*} [DecidableEq ι] {s t : ArrayStore ι β} {e : StoreEvent ι β}
  {K : ι → Bool} {p : ι}

namespace FileStore

/-- The steps of a store. -/
inductive Step (spec : FileSpec π β) : FileStore ι β → FileEvent ι π β → FileStore ι β → Prop
  | array {s : FileStore ι β} {e : StoreEvent ι β} {t : ArrayStore ι β} :
      ArrayStore.Step s.arrays e t → Step spec s (.array e) { s with arrays := t }
  | openFile {s : FileStore ι β} {path : π} {contents : List β} {f : ι} :
      spec.leads path (some contents) → s.files f = none →
      Step spec s (.openFile path (some f))
        { s with files := Function.update s.files f (some ⟨contents, 0⟩) }
  | notFound {s : FileStore ι β} {path : π} : spec.leads path none →
      Step spec s (.openFile path none) s
  | readFile {s : FileStore ι β} {f p : ι} {file : OpenFile β} {xs ys : List β} {i n : Nat} :
      s.files f = some file → s.arrays p = some xs → i + (file.next n).length ≤ xs.length →
      spec.Delivers file n ys →
      Step spec s (.readFile f p i n)
        { arrays := Function.update s.arrays p (some (splice xs i ys))
          files := Function.update s.files f (some (file.advance ys.length)) }
  | seekFile {s : FileStore ι β} {f : ι} {file file' : OpenFile β} {n : Nat} :
      s.files f = some file → spec.Moves file n file' →
      Step spec s (.seekFile f n) { s with files := Function.update s.files f (some file') }
  | closeFile {s : FileStore ι β} {f : ι} {file : OpenFile β} : s.files f = some file →
      Step spec s (.closeFile f) { s with files := Function.update s.files f none }

variable {spec : FileSpec π β} {u w : FileStore ι β} {path : π} {f : ι} {file : OpenFile β}
  {n : Nat}

/-- A file that has been opened. -/
theorem Step.opened (h : Step spec u (.openFile path (some f)) w) :
    ∃ contents, spec.leads path (some contents) ∧ w.files f = some ⟨contents, 0⟩ := by
  cases h with
  | openFile hleads _ => exact ⟨_, hleads, Function.update_self ..⟩

/-- A path that no file has been found under. -/
theorem Step.missed (h : Step spec u (.openFile path none) w) : spec.leads path none := by
  cases h with
  | notFound hleads => exact hleads

/-- A file that has been moved. -/
theorem Step.moved (h : Step spec u (.seekFile f n) w) (hfile : u.files f = some file) :
    ∃ file', spec.Moves file n file' ∧ w.files f = some file' := by
  cases h with
  | seekFile hopen hmoves =>
    obtain rfl := Option.some.inj (hfile.symm.trans hopen)
    exact ⟨_, hmoves, Function.update_self ..⟩

end FileStore

/-! ## Part of a store -/

/-- The name that an event needs. -/
def StoreEvent.Uses (K : ι → Bool) : StoreEvent ι β → Prop
  | .malloc _ _ => True
  | .realloc p _ _ | .free p | .store p _ _ | .load p _ _ => K p = true

/-- The names after an event. -/
def StoreEvent.keep (K : ι → Bool) : StoreEvent ι β → ι → Bool
  | .malloc _ p => Function.update K p true
  | .realloc p _ q => Function.update (Function.update K p false) q true
  | .free p => Function.update K p false
  | .store _ _ _ | .load _ _ _ => K

namespace ArrayStore

omit [DecidableEq ι] in
/-- The arrays with some names. -/
def restrict (s : ArrayStore ι β) (K : ι → Bool) : ArrayStore ι β := fun p =>
  if K p then s p else none

omit [DecidableEq ι] in
theorem restrict_of_mem (h : K p = true) : s.restrict K p = s p := if_pos h

theorem restrict_update {x : Option (List β)} :
    ArrayStore.restrict (Function.update s p x) (Function.update K p true) =
      Function.update (s.restrict K) p x := by
  funext q
  by_cases hq : q = p
  · subst hq
    rw [restrict_of_mem (Function.update_self ..), Function.update_self, Function.update_self]
  · simp only [restrict, Function.update_of_ne hq]

theorem restrict_forget {x : Option (List β)} :
    ArrayStore.restrict (Function.update s p x) (Function.update K p false) =
      Function.update (s.restrict K) p none := by
  funext q
  by_cases hq : q = p
  · subst hq
    simp [restrict]
  · simp only [restrict, Function.update_of_ne hq]

/-- A step of a store is a step of a part of it, when the part has the arrays that are needed. -/
theorem Step.restrict (h : Step s e t) (huse : e.Uses K) :
    Step (s.restrict K) e (t.restrict (e.keep K)) := by
  cases h with
  | malloc hp =>
    rw [StoreEvent.keep, restrict_update]
    apply Step.malloc
    simp only [ArrayStore.restrict, hp, ite_self]
  | realloc hp hq hcopy =>
    rw [StoreEvent.keep, restrict_update, restrict_forget]
    apply Step.realloc ((restrict_of_mem huse).trans hp) _ hcopy
    rcases hq with hq | hq
    · exact .inl hq
    · exact .inr (by simp only [ArrayStore.restrict, hq, ite_self])
  | free hp =>
    rw [StoreEvent.keep, restrict_forget]
    exact .free ((restrict_of_mem huse).trans hp)
  | @store p xs i v hp hi =>
    have hkeep : Function.update K p true = K := by
      rw [← show K p = true from huse, Function.update_eq_self]
    rw [StoreEvent.keep, ← hkeep, restrict_update, hkeep]
    exact .store ((restrict_of_mem huse).trans hp) hi
  | load hp hget => exact .load ((restrict_of_mem huse).trans hp) hget

/-- An array that is not part of it stays, and out of it. -/
theorem Step.other (h : Step s e t) (huse : e.Uses K) (hp : K p = false) (hs : s p ≠ none) :
    t p = s p ∧ e.keep K p = false := by
  have hne : ∀ q, K q = true → p ≠ q := by
    rintro q hq rfl
    rw [hp] at hq
    cases hq
  have hfresh : ∀ q, s q = none → p ≠ q := by
    rintro q hq rfl
    exact hs hq
  cases h with
  | malloc hq =>
    have hpq := hfresh _ hq
    exact ⟨Function.update_of_ne hpq .., (Function.update_of_ne hpq ..).trans hp⟩
  | @realloc r q xs ys hq hnew _ =>
    have hpq : p ≠ r := hne r huse
    have hpn : p ≠ q := by
      rcases hnew with rfl | hnew
      · exact hpq
      · exact hfresh _ hnew
    rw [Function.update_of_ne hpn, Function.update_of_ne hpq]
    refine ⟨rfl, ?_⟩
    rw [StoreEvent.keep, Function.update_of_ne hpn, Function.update_of_ne hpq]
    exact hp
  | free hq =>
    have hpq := hne _ huse
    exact ⟨Function.update_of_ne hpq .., (Function.update_of_ne hpq ..).trans hp⟩
  | store hq hi => exact ⟨Function.update_of_ne (hne _ huse) .., hp⟩
  | load hq hget => exact ⟨rfl, hp⟩

end ArrayStore

end Hjortron
