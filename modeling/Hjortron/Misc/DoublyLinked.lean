import Mathlib.Data.List.Nodup
import Mathlib.Logic.Function.Basic

/-!
# Doubly linked nodes

A store of nodes is a total function, so that the node of the null address can be written like
any other. `Chain s p ns q` says that the nodes `ns` follow `p`, that `q` follows them, and that
they are linked in both directions in between. Unlinking writes the neighbours of a node without
asking whether they are null; as null is not in the list, this is right in every position.
-/

namespace Hjortron

/-- A node with the addresses of its neighbours. -/
structure Node (α β : Type*) where
  previous : α
  next : α
  value : β
  deriving DecidableEq, Repr

namespace Node

variable {α β : Type*} [DecidableEq α]

/-- Overwrites the successor of `a`. -/
def setNext (s : α → Node α β) (a v : α) : α → Node α β :=
  Function.update s a { s a with next := v }

/-- Overwrites the predecessor of `a`. -/
def setPrevious (s : α → Node α β) (a v : α) : α → Node α β :=
  Function.update s a { s a with previous := v }

/-- The neighbours of `a` become neighbours of each other. -/
def unlink (s : α → Node α β) (a : α) : α → Node α β :=
  setPrevious (setNext s (s a).previous (s a).next) (s a).next (s a).previous

/-- The node `new` becomes the successor of `last`. -/
def linkLast (s : α → Node α β) (last new : α) : α → Node α β :=
  setPrevious (setNext s last new) new last

/-- The nodes `ns` follow `p` and are followed by `q`. -/
def Chain (s : α → Node α β) : α → List α → α → Prop
  | _, [], _ => True
  | p, a :: ns, q => (s a).previous = p ∧ (s a).next = ns.headD q ∧ Chain s a ns q

variable {s s' : α → Node α β} {a b p q last new null : α} {ns pre post : List α}

/-! ## Writes -/

@[simp] theorem setNext_next (v : α) :
    (setNext s a v b).next = if b = a then v else (s b).next := by
  unfold setNext
  by_cases h : b = a
  · rw [if_pos h, h, Function.update_self]
  · rw [if_neg h, Function.update_of_ne h]

@[simp] theorem setNext_previous (v : α) : (setNext s a v b).previous = (s b).previous := by
  unfold setNext
  by_cases h : b = a
  · rw [h, Function.update_self]
  · rw [Function.update_of_ne h]

@[simp] theorem setNext_value (v : α) : (setNext s a v b).value = (s b).value := by
  unfold setNext
  by_cases h : b = a
  · rw [h, Function.update_self]
  · rw [Function.update_of_ne h]

@[simp] theorem setPrevious_previous (v : α) :
    (setPrevious s a v b).previous = if b = a then v else (s b).previous := by
  unfold setPrevious
  by_cases h : b = a
  · rw [if_pos h, h, Function.update_self]
  · rw [if_neg h, Function.update_of_ne h]

@[simp] theorem setPrevious_next (v : α) : (setPrevious s a v b).next = (s b).next := by
  unfold setPrevious
  by_cases h : b = a
  · rw [h, Function.update_self]
  · rw [Function.update_of_ne h]

@[simp] theorem setPrevious_value (v : α) : (setPrevious s a v b).value = (s b).value := by
  unfold setPrevious
  by_cases h : b = a
  · rw [h, Function.update_self]
  · rw [Function.update_of_ne h]

theorem setPrevious_congr {v : α} (ha : s' a = s a) (hb : s' b = s b) :
    setPrevious s' a v b = setPrevious s a v b := by
  unfold setPrevious
  by_cases h : b = a
  · rw [h, Function.update_self, Function.update_self, ha]
  · rw [Function.update_of_ne h, Function.update_of_ne h, hb]

@[simp] theorem unlink_value : (unlink s a b).value = (s b).value := by
  simp [unlink]

@[simp] theorem linkLast_value : (linkLast s last new b).value = (s b).value := by
  simp [linkLast]

/-! ## Chains -/

omit [DecidableEq α] in
/-- A chain depends on the links of its own nodes only. -/
theorem Chain.congr (hc : Chain s p ns q)
    (h : ∀ a ∈ ns, (s' a).previous = (s a).previous ∧ (s' a).next = (s a).next) :
    Chain s' p ns q := by
  induction ns generalizing p with
  | nil => trivial
  | cons a ns ih =>
    obtain ⟨hprevious, hnext, hrest⟩ := hc
    obtain ⟨hp, hn⟩ := h a List.mem_cons_self
    exact ⟨hp.trans hprevious, hn.trans hnext,
      ih hrest fun b hb => h b (List.mem_cons_of_mem _ hb)⟩

omit [DecidableEq α] in
theorem chain_append :
    Chain s p (pre ++ post) q ↔ Chain s p pre (post.headD q) ∧ Chain s (pre.getLastD p) post q := by
  induction pre generalizing p with
  | nil => simp [Chain]
  | cons a pre ih =>
    have hhead : (pre ++ post).headD q = pre.headD (post.headD q) := by cases pre <;> rfl
    have hlast : (a :: pre).getLastD p = pre.getLastD a := by cases pre <;> rfl
    rw [List.cons_append, Chain, Chain, ih, hhead, hlast]
    tauto

/-- A chain that ends elsewhere: only the successor of its last node changes. -/
theorem Chain.redirect (hc : Chain s p ns q) {q' : α} (hnd : ns.Nodup)
    (hprevious : ∀ a ∈ ns, (s' a).previous = (s a).previous)
    (hnext : ∀ a ∈ ns, (s' a).next = if a = ns.getLastD p then q' else (s a).next) :
    Chain s' p ns q' := by
  induction ns generalizing p with
  | nil => trivial
  | cons a ns ih =>
    obtain ⟨hp, hn, hrest⟩ := hc
    have hlast : (a :: ns).getLastD p = ns.getLastD a := by cases ns <;> rfl
    rw [List.nodup_cons] at hnd
    refine ⟨(hprevious a List.mem_cons_self).trans hp, ?_, ih hrest hnd.2
      (fun b hb => hprevious b (List.mem_cons_of_mem _ hb)) fun b hb => ?_⟩
    · rw [hnext a List.mem_cons_self, hlast]
      cases ns with
      | nil => simp
      | cons b ns =>
        have hne : a ≠ (b :: ns).getLastD a := by
          intro heq
          rw [List.getLastD_cons] at heq
          exact hnd.1 (heq ▸ List.getLastD_mem_cons)
        rw [if_neg hne, hn]
        rfl
    · rw [hnext b (List.mem_cons_of_mem _ hb), hlast]

omit [DecidableEq α] in
/-- The neighbours of a node of a list. -/
theorem Chain.at (hc : Chain s null (pre ++ a :: post) null) :
    (s a).previous = pre.getLastD null ∧ (s a).next = post.headD null := by
  obtain ⟨-, hprevious, hnext, -⟩ := chain_append.mp hc
  exact ⟨hprevious, hnext⟩

/-- Unlinking is right whether the node is the first, the last, the only one or in between. -/
theorem Chain.unlink (hc : Chain s null (pre ++ a :: post) null)
    (hnd : (null :: (pre ++ a :: post)).Nodup) :
    Chain (unlink s a) null (pre ++ post) null := by
  obtain ⟨hprevious, hnext⟩ := hc.at
  obtain ⟨hpre, -, -, hpost⟩ := chain_append.mp hc
  rw [List.nodup_cons, List.nodup_append, List.nodup_cons] at hnd
  obtain ⟨hnull, hpreNd, ⟨-, hpostNd⟩, hdisjoint⟩ := hnd
  have hlast : pre.getLastD null ∈ null :: pre := List.getLastD_mem_cons
  have hhead : post.headD null ∈ null :: post := by cases post <;> simp
  have hfar : ∀ b ∈ pre, b ≠ post.headD null := by
    rintro b hb rfl
    rcases List.mem_cons.mp hhead with heq | hmem
    · exact hnull (List.mem_append_left _ (heq ▸ hb))
    · exact hdisjoint _ hb _ (List.mem_cons_of_mem _ hmem) rfl
  have hnear : ∀ b ∈ post, b ≠ pre.getLastD null := by
    rintro b hb rfl
    rcases List.mem_cons.mp hlast with heq | hmem
    · exact hnull (List.mem_append_right _ (List.mem_cons_of_mem _ (heq ▸ hb)))
    · exact hdisjoint _ hmem _ (List.mem_cons_of_mem _ hb) rfl
  unfold Node.unlink
  rw [hprevious, hnext]
  refine chain_append.mpr ⟨hpre.redirect hpreNd (fun b hb => ?_) fun b hb => ?_, ?_⟩
  · rw [setPrevious_previous, if_neg (hfar b hb), setNext_previous]
  · rw [setPrevious_next, setNext_next]
  · cases post with
    | nil => trivial
    | cons c post =>
      obtain ⟨-, hc, hrest⟩ := hpost
      refine ⟨?_, ?_, hrest.congr fun b hb => ⟨?_, ?_⟩⟩
      · rw [setPrevious_previous, List.headD_cons, if_pos rfl]
      · rw [setPrevious_next, setNext_next, if_neg (hnear c List.mem_cons_self), hc]
      · have hne : b ≠ c := fun heq => (List.nodup_cons.mp hpostNd).1 (heq ▸ hb)
        rw [setPrevious_previous, List.headD_cons, if_neg hne, setNext_previous]
      · rw [setPrevious_next, setNext_next, if_neg (hnear b (List.mem_cons_of_mem _ hb))]

theorem Chain.linkLast (hc : Chain s null ns null) (hnd : (null :: (ns ++ [new])).Nodup)
    (hnew : (s new).next = null) :
    Chain (linkLast s (ns.getLastD null) new) null (ns ++ [new]) null := by
  rw [List.nodup_cons, List.nodup_append] at hnd
  obtain ⟨hnull, hns, -, hdisjoint⟩ := hnd
  have hfresh : ∀ b ∈ ns, b ≠ new := fun b hb => hdisjoint b hb new (List.mem_singleton_self _)
  have hne : new ≠ ns.getLastD null := by
    intro heq
    have hlast : ns.getLastD null ∈ null :: ns := List.getLastD_mem_cons
    rw [← heq] at hlast
    rcases List.mem_cons.mp hlast with rfl | hmem
    · exact hnull (List.mem_append_right _ (List.mem_singleton_self _))
    · exact hfresh new hmem rfl
  unfold Node.linkLast
  refine chain_append.mpr ⟨hc.redirect hns (fun b hb => ?_) fun b hb => ?_, ?_, ?_, trivial⟩
  · rw [setPrevious_previous, if_neg (hfresh b hb), setNext_previous]
  · rw [setPrevious_next, setNext_next, List.headD_cons]
  · rw [setPrevious_previous, if_pos rfl]
  · rw [setPrevious_next, setNext_next, if_neg hne, hnew]
    rfl

omit [DecidableEq α] in
/-- Within a list, `previous` is the inverse of `next`. -/
theorem Chain.next_eq_iff (hc : Chain s null ns null) (hnull : null ∉ ns) (ha : a ∈ ns)
    (hb : b ∈ ns) : (s a).next = b ↔ (s b).previous = a := by
  constructor
  · intro h
    obtain ⟨pre, post, rfl⟩ := List.append_of_mem ha
    cases post with
    | nil =>
      have hnext : (s a).next = null := hc.at.2
      exact absurd hb (by rwa [← h, hnext])
    | cons c post =>
      have hnext : (s a).next = c := hc.at.2
      obtain rfl : c = b := hnext.symm.trans h
      rw [List.append_cons] at hc
      rw [hc.at.1, List.getLastD_concat]
  · intro h
    obtain ⟨pre, post, rfl⟩ := List.append_of_mem hb
    rcases List.eq_nil_or_concat' pre with rfl | ⟨pre, c, rfl⟩
    · have hprevious : (s b).previous = null := hc.at.1
      exact absurd ha (by rwa [← h, hprevious])
    · obtain rfl : c = a := by rw [← h, hc.at.1, List.getLastD_concat]
      rw [List.append_assoc] at hc
      exact hc.at.2

end Node

end Hjortron
