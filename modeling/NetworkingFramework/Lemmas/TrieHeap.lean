import NetworkingFramework.TrieHeap
import NetworkingFramework.Lemmas.Trie
import NetworkingFramework.Lib.PrefixTree
import Mathlib.Data.Fintype.Card

/-!
# The trie in memory as a tree of prefixes

The paths that lead to nodes are a prefix tree (`tree`). In a memory that is intact, where no two paths lead to one node, a write
to a node is an update of the tree, creating a child grows it and removing a child prunes it.
-/

namespace NetworkingFramework

open Wire

variable {TYPE KEY : Type} {range : Nat}

namespace TrieCell

/-- The child of a value, when its index lies in the array. -/
def child (assignIndex : TYPE → Nat) (cell : TrieCell range KEY) (c : TYPE) : Option NodePtr :=
  if h : assignIndex c < range then cell.children ⟨assignIndex c, h⟩ else none

/-- The number of children. -/
def countChildren (cell : TrieCell range KEY) : Nat := (Finset.univ.filter fun i => (cell.children i).isSome).card

variable {assignIndex : TYPE → Nat} {cell : TrieCell range KEY} {c d : TYPE} {ptr : Option NodePtr}

@[simp] theorem child_new [Inhabited KEY] : (new : TrieCell range KEY).child assignIndex c = none := by
  unfold child new
  split <;> rfl

theorem child_setChild_self (hc : assignIndex c < range) :
    (cell.setChild (assignIndex c) ptr).child assignIndex c = ptr := by
  rw [child, dif_pos hc]
  exact if_pos rfl

theorem child_setChild_ne (hne : assignIndex d ≠ assignIndex c) :
    (cell.setChild (assignIndex c) ptr).child assignIndex d = cell.child assignIndex d := by
  unfold child
  split
  · exact if_neg hne
  · rfl

/-- A pointer set where there was none is one child more. -/
theorem countChildren_setChild_some (hc : assignIndex c < range) (hnone : cell.child assignIndex c = none) (b : NodePtr) :
    (cell.setChild (assignIndex c) (some b)).countChildren = cell.countChildren + 1 := by
  have hset : (Finset.univ.filter fun i => ((cell.setChild (assignIndex c) (some b)).children i).isSome) =
      insert ⟨assignIndex c, hc⟩ (Finset.univ.filter fun i => (cell.children i).isSome) := by
    ext i
    simp only [Finset.mem_filter, Finset.mem_insert]
    by_cases hi : i.val = assignIndex c <;> simp [setChild, Fin.ext_iff, hi]
  have hnew : (⟨assignIndex c, hc⟩ : Fin range) ∉ Finset.univ.filter fun i => (cell.children i).isSome := by
    rw [child, dif_pos hc] at hnone
    simp [hnone]
  rw [countChildren, hset, Finset.card_insert_of_notMem hnew, countChildren]

/-- A pointer that becomes null is one child less. -/
theorem countChildren_setChild_none (hc : assignIndex c < range) (hsome : (cell.child assignIndex c).isSome) :
    (cell.setChild (assignIndex c) none).countChildren = cell.countChildren - 1 := by
  have hset : (Finset.univ.filter fun i => ((cell.setChild (assignIndex c) none).children i).isSome) =
      (Finset.univ.filter fun i => (cell.children i).isSome).erase ⟨assignIndex c, hc⟩ := by
    ext i
    simp only [Finset.mem_filter, Finset.mem_erase]
    by_cases hi : i.val = assignIndex c <;> simp [setChild, Fin.ext_iff, hi]
  have hold : (⟨assignIndex c, hc⟩ : Fin range) ∈ Finset.univ.filter fun i => (cell.children i).isSome := by
    rw [child, dif_pos hc] at hsome
    simp [hsome]
  rw [countChildren, hset, Finset.card_erase_of_mem hold, countChildren]

/-- With one child at most, there is no other. -/
theorem index_eq_of_countChildren_le {i j : Fin range} (h : cell.countChildren ≤ 1) (hi : (cell.children i).isSome)
    (hj : (cell.children j).isSome) : i = j :=
  Finset.card_le_one.mp h i (by simp [hi]) j (by simp [hj])

/-- With more than one child, there is one at another index. -/
theorem exists_ne_of_lt_countChildren (h : 1 < cell.countChildren) (i : Fin range) :
    ∃ j, j ≠ i ∧ (cell.children j).isSome := by
  obtain ⟨j, hj, hne⟩ := Finset.exists_mem_ne h i
  exact ⟨j, hne, by simpa using hj⟩

end TrieCell

namespace TrieHeap

open TrieNode (InRange)

variable (assignIndex : TYPE → Nat)

/-- The node that a path leads to. -/
def walk (heap : TrieHeap range KEY) : NodePtr → List TYPE → Option NodePtr
  | ptr, [] => some ptr
  | ptr, c :: str => (heap[ptr]?).bind fun cell => (cell.child assignIndex c).bind fun child => walk heap child str

/-- The mark and the key of a node. -/
def content (heap : TrieHeap range KEY) (ptr : NodePtr) : Option (Bool × KEY) := heap[ptr]?.map fun cell => (cell.marked, cell.key)

/-- What holds of the memory between calls. -/
structure Intact (heap : TrieHeap range KEY) (this : NodePtr) : Prop where
  root_lt : this < heap.length
  child_lt : ∀ cell ∈ heap, ∀ i child, cell.children i = some child → child < heap.length
  unique : ∀ p q ptr, walk assignIndex heap this p = some ptr → walk assignIndex heap this q = some ptr → p = q
  counted : ∀ cell ∈ heap, cell.childCount = cell.countChildren
  named : ∀ cell ∈ heap, ∀ i, (cell.children i).isSome → ∃ c, assignIndex c = i.val

variable {assignIndex} {heap : TrieHeap range KEY} {this ptr a : NodePtr} {cell : TrieCell range KEY} {c : TYPE}
  {str u p q : List TYPE}

/-! ## Walks -/

theorem walk_append (ptr : NodePtr) (p q : List TYPE) :
    walk assignIndex heap ptr (p ++ q) = (walk assignIndex heap ptr p).bind fun b => walk assignIndex heap b q := by
  induction p generalizing ptr with
  | nil => rfl
  | cons c p ih =>
    rw [List.cons_append, walk, walk]
    cases heap[ptr]? with
    | none => rfl
    | some cell =>
      cases hchild : cell.child assignIndex c with
      | none => simp [hchild]
      | some child => simp [hchild, ih]

theorem walk_concat (ptr : NodePtr) (p : List TYPE) (c : TYPE) : walk assignIndex heap ptr (p ++ [c]) =
    (walk assignIndex heap ptr p).bind fun b => (heap[b]?).bind fun cell => cell.child assignIndex c := by
  rw [walk_append]
  simp [walk]

theorem child_eq_some (h : cell.child assignIndex c = some ptr) :
    ∃ hc : assignIndex c < range, cell.children ⟨assignIndex c, hc⟩ = some ptr := by
  unfold TrieCell.child at h
  split at h
  · exact ⟨_, h⟩
  · cases h

theorem Intact.walk_lt (h : Intact assignIndex heap this) (hw : walk assignIndex heap this p = some ptr) :
    ptr < heap.length := by
  induction p using List.reverseRecOn generalizing ptr with
  | nil =>
    obtain rfl : this = ptr := Option.some.inj hw
    exact h.root_lt
  | append_singleton p c ih =>
    rw [walk_concat, Option.bind_eq_some_iff] at hw
    obtain ⟨b, hb, hw⟩ := hw
    obtain ⟨cell, hcell, hchild⟩ := Option.bind_eq_some_iff.mp hw
    obtain ⟨hc, hchild⟩ := child_eq_some hchild
    exact h.child_lt cell (List.mem_of_getElem? hcell) _ ptr hchild

/-- A path leads to a node in the memory. -/
theorem Intact.walk_cell (h : Intact assignIndex heap this) (hw : walk assignIndex heap this p = some ptr) :
    ∃ cell, heap[ptr]? = some cell := ⟨_, List.getElem?_eq_getElem (h.walk_lt hw)⟩

theorem node_ok (h : heap[ptr]? = some cell) : heap.node ptr = .ok cell := by
  rw [node, h]

theorem getChild_ok (h : heap[ptr]? = some cell) (hc : assignIndex c < range) :
    getChild assignIndex heap ptr c = .ok (cell.child assignIndex c) := by
  rw [getChild, node_ok h, ok_bind, dif_pos hc, TrieCell.child, dif_pos hc]
  rfl

/-! ## The tree -/

/-- The paths that lead to nodes, labelled with the marks and keys. -/
def tree (assignIndex : TYPE → Nat) (heap : TrieHeap range KEY) (this : NodePtr) : PrefixTree TYPE (Bool × KEY) where
  label p := (walk assignIndex heap this p).bind heap.content
  closed p c h := by
    rw [walk_concat] at h
    cases hw : walk assignIndex heap this p with
    | none => simp [hw] at h
    | some b =>
      cases hcell : heap[b]? with
      | none => simp [hw, hcell] at h
      | some cell => simp [content, hcell]

theorem label_tree (p : List TYPE) :
    (tree assignIndex heap this).label p = (walk assignIndex heap this p).bind heap.content := rfl

theorem content_eq (h : heap[ptr]? = some cell) : heap.content ptr = some (cell.marked, cell.key) := by
  rw [content, h]
  rfl

theorem tree_label (hw : walk assignIndex heap this p = some ptr) (h : heap[ptr]? = some cell) :
    (tree assignIndex heap this).label p = some (cell.marked, cell.key) := by
  rw [label_tree, hw, Option.bind_some, content_eq h]

/-- The nodes of the tree are the paths that lead to nodes. -/
theorem Intact.mem_paths_iff (h : Intact assignIndex heap this) :
    p ∈ (tree assignIndex heap this).paths ↔ ∃ ptr, walk assignIndex heap this p = some ptr := by
  constructor
  · intro hp
    cases hw : walk assignIndex heap this p with
    | none => simp [PrefixTree.paths, tree, hw] at hp
    | some ptr => exact ⟨ptr, rfl⟩
  · intro hw
    obtain ⟨ptr, hw⟩ := hw
    obtain ⟨cell, hcell⟩ := h.walk_cell hw
    rw [PrefixTree.paths, Set.mem_ofPred_eq, tree_label hw hcell]
    rfl

/-! ## A write to a node -/

theorem getElem?_set_self {cell' : TrieCell range KEY} (h : heap[a]? = some cell) :
    (heap.set a cell')[a]? = some cell' := by
  obtain ⟨hlt, -⟩ := List.getElem?_eq_some_iff.mp h
  rw [List.getElem?_set_self hlt]

/-- Writes that leave the pointers leave the walks. -/
theorem walk_set {cell' : TrieCell range KEY} (h : heap[a]? = some cell) (hchildren : cell'.children = cell.children)
    (ptr : NodePtr) (p : List TYPE) : walk assignIndex (heap.set a cell') ptr p = walk assignIndex heap ptr p := by
  have hchild : cell'.child assignIndex = cell.child assignIndex := by
    funext c
    rw [TrieCell.child, TrieCell.child, hchildren]
  induction p generalizing ptr with
  | nil => rfl
  | cons c p ih =>
    rw [walk, walk]
    by_cases hptr : ptr = a
    · subst hptr
      rw [getElem?_set_self h, h, Option.bind_some, Option.bind_some, hchild]
      exact Option.bind_congr fun child _ => ih child
    · rw [List.getElem?_set_ne (Ne.symm hptr)]
      exact Option.bind_congr fun cell _ => Option.bind_congr fun child _ => ih child

/-- A node of a memory that was written to. -/
theorem mem_set {cell' other : TrieCell range KEY} (h : other ∈ heap.set a cell') : other ∈ heap ∨ other = cell' :=
  List.mem_or_eq_of_mem_set h

theorem Intact.set {cell' : TrieCell range KEY} (h : Intact assignIndex heap this) (hcell : heap[a]? = some cell)
    (hchildren : cell'.children = cell.children) (hcount : cell'.childCount = cell.childCount) :
    Intact assignIndex (heap.set a cell') this := by
  have hmem := List.mem_of_getElem? hcell
  constructor
  · rw [List.length_set]
    exact h.root_lt
  · intro other hother i child hchild
    rw [List.length_set]
    rcases mem_set hother with hother | rfl
    · exact h.child_lt other hother i child hchild
    · exact h.child_lt cell hmem i child (hchildren ▸ hchild)
  · intro p q ptr hp hq
    rw [walk_set hcell hchildren] at hp hq
    exact h.unique p q ptr hp hq
  · intro other hother
    rcases mem_set hother with hother | rfl
    · exact h.counted other hother
    · rw [hcount, h.counted cell hmem, TrieCell.countChildren, TrieCell.countChildren, hchildren]
  · intro other hother i hi
    rcases mem_set hother with hother | rfl
    · exact h.named other hother i hi
    · exact h.named cell hmem i (hchildren ▸ hi)

/-- A write to a node is an update of its label. -/
theorem Intact.tree_set {cell' : TrieCell range KEY} (h : Intact assignIndex heap this)
    (hw : walk assignIndex heap this p = some a) (hcell : heap[a]? = some cell) (hchildren : cell'.children = cell.children)
    {f : Bool × KEY → Bool × KEY} (hf : f (cell.marked, cell.key) = (cell'.marked, cell'.key)) :
    tree assignIndex (heap.set a cell') this = (tree assignIndex heap this).update p f := by
  ext1
  funext q
  by_cases hq : q = p
  · subst hq
    have hw' : walk assignIndex (heap.set a cell') this q = some a := by rw [walk_set hcell hchildren, hw]
    rw [PrefixTree.label_update_self, tree_label hw hcell, tree_label hw' (getElem?_set_self hcell), Option.map_some, hf]
  · rw [PrefixTree.label_update_ne f hq, label_tree, label_tree, walk_set hcell hchildren]
    refine Option.bind_congr fun ptr hptr => ?_
    have hne : a ≠ ptr := fun heq => hq (h.unique q p ptr hptr (heq ▸ hw))
    rw [content, content, List.getElem?_set_ne hne]

/-! ## A child created -/

/-- There is no node at the path of a child that is not there. -/
theorem walk_child_none (hw : walk assignIndex heap this u = some a) (hcell : heap[a]? = some cell)
    (hnone : cell.child assignIndex c = none) : walk assignIndex heap this (u ++ [c]) = none := by
  rw [walk_concat, hw, Option.bind_some, hcell, Option.bind_some, hnone]

/-- The memory after a child was created. -/
def created [Inhabited KEY] (assignIndex : TYPE → Nat) (heap : TrieHeap range KEY) (a : NodePtr) (cell : TrieCell range KEY)
    (c : TYPE) : TrieHeap range KEY :=
  heap.set a { cell.setChild (assignIndex c) (some heap.length) with childCount := cell.childCount + 1 } ++ [.new]

section Created

variable [Inhabited KEY] (hinj : Function.Injective assignIndex) (h : Intact assignIndex heap this)
  (hw : walk assignIndex heap this u = some a) (hcell : heap[a]? = some cell) (hc : assignIndex c < range)
  (hnone : cell.child assignIndex c = none)

include hcell in
theorem created_self : (created assignIndex heap a cell c)[a]? =
    some { cell.setChild (assignIndex c) (some heap.length) with childCount := cell.childCount + 1 } := by
  obtain ⟨hlt, -⟩ := List.getElem?_eq_some_iff.mp hcell
  rw [created, List.getElem?_append_left (by rwa [List.length_set]), List.getElem?_set_self hlt]

theorem created_fresh : (created assignIndex heap a cell c)[heap.length]? = some .new := by
  rw [created, List.getElem?_append_right (by rw [List.length_set]), List.length_set, Nat.sub_self]
  rfl

theorem created_other {b : NodePtr} (hne : b ≠ a) (hlt : b < heap.length) :
    (created assignIndex heap a cell c)[b]? = heap[b]? := by
  rw [created, List.getElem?_append_left (by rwa [List.length_set]), List.getElem?_set_ne (Ne.symm hne)]

/-- What the nodes hold does not change. -/
theorem content_created (hcell : heap[a]? = some cell) {b : NodePtr} (hlt : b < heap.length) :
    (created assignIndex heap a cell c).content b = heap.content b := by
  by_cases hb : b = a
  · subst hb
    rw [content_eq (created_self hcell), content_eq hcell]
    rfl
  · rw [content, content, created_other hb hlt]

include hinj h hw hcell hc hnone in
/-- The new path leads to the new node, and every other one to where it led. -/
theorem walk_created (p : List TYPE) :
    (p = u ++ [c] → walk assignIndex (created assignIndex heap a cell c) this p = some heap.length) ∧
    (p ≠ u ++ [c] → walk assignIndex (created assignIndex heap a cell c) this p = walk assignIndex heap this p) := by
  induction p using List.reverseRecOn with
  | nil => exact ⟨fun hp => absurd hp (by simp), fun _ => rfl⟩
  | append_singleton p d ih =>
    by_cases hfresh : p = u ++ [c]
    · -- behind the new node there is nothing
      have hold := walk_child_none hw hcell hnone
      subst hfresh
      have hne : u ++ [c] ++ [d] ≠ u ++ [c] := by simp
      refine ⟨fun hp => absurd hp hne, fun _ => ?_⟩
      rw [walk_concat this (u ++ [c]) d, walk_concat this (u ++ [c]) d, ih.1 rfl, hold, Option.bind_some, created_fresh,
        Option.bind_some, TrieCell.child_new]
      rfl
    · rw [walk_concat, walk_concat, ih.2 hfresh]
      cases hp : walk assignIndex heap this p with
      | none =>
        refine ⟨fun heq => ?_, fun _ => rfl⟩
        obtain ⟨rfl, rfl⟩ : p = u ∧ d = c := by simpa using List.append_inj' heq rfl
        rw [hw] at hp
        cases hp
      | some b =>
        rw [Option.bind_some, Option.bind_some]
        by_cases hb : b = a
        · subst hb
          obtain rfl := h.unique p u b hp hw
          rw [created_self hcell, hcell, Option.bind_some, Option.bind_some]
          refine ⟨fun heq => ?_, fun hne => ?_⟩
          · obtain rfl : d = c := by simpa using List.append_inj' heq rfl
            exact TrieCell.child_setChild_self hc
          · have hdc : assignIndex d ≠ assignIndex c := fun heq => hne (by rw [hinj heq])
            exact TrieCell.child_setChild_ne hdc
        · refine ⟨fun heq => ?_, fun _ => by rw [created_other hb (h.walk_lt hp)]⟩
          obtain ⟨rfl, rfl⟩ : p = u ∧ d = c := by simpa using List.append_inj' heq rfl
          exact absurd (Option.some.inj (hp.symm.trans hw)) hb

include hinj h hw hcell hc hnone in
theorem Intact.created : Intact assignIndex (created assignIndex heap a cell c) this := by
  have hlen : (TrieHeap.created assignIndex heap a cell c).length = heap.length + 1 := by simp [TrieHeap.created]
  have hmem := List.mem_of_getElem? hcell
  have hcases : ∀ other ∈ TrieHeap.created assignIndex heap a cell c, other ∈ heap ∨
      other = { cell.setChild (assignIndex c) (some heap.length) with childCount := cell.childCount + 1 } ∨
        other = .new := by
    intro other hother
    rcases List.mem_append.mp hother with hother | hother
    · exact (mem_set hother).imp_right .inl
    · exact .inr (.inr (List.mem_singleton.mp hother))
  have hwalk := walk_created hinj h hw hcell hc hnone
  constructor
  · rw [hlen]
    exact Nat.lt_succ_of_lt h.root_lt
  · intro other hother i child hchild
    rw [hlen]
    rcases hcases other hother with hother | rfl | rfl
    · exact Nat.lt_succ_of_lt (h.child_lt other hother i child hchild)
    · simp only [TrieCell.setChild] at hchild
      split at hchild
      · obtain rfl := Option.some.inj hchild
        exact Nat.lt_succ_self _
      · exact Nat.lt_succ_of_lt (h.child_lt cell hmem i child hchild)
    · cases hchild
  · -- the new node has no other path, and the others have theirs
    have hfresh : ∀ p, walk assignIndex (TrieHeap.created assignIndex heap a cell c) this p = some heap.length → p = u ++ [c] := by
      intro p hp
      by_contra hne
      rw [(hwalk p).2 hne] at hp
      exact absurd (h.walk_lt hp) (Nat.lt_irrefl _)
    intro p q ptr hp hq
    by_cases hpc : p = u ++ [c]
    · obtain rfl := Option.some.inj (((hwalk p).1 hpc).symm.trans hp)
      rw [hpc, hfresh q hq]
    · by_cases hqc : q = u ++ [c]
      · obtain rfl := Option.some.inj (((hwalk q).1 hqc).symm.trans hq)
        exact absurd (hfresh p hp) hpc
      · rw [(hwalk p).2 hpc] at hp
        rw [(hwalk q).2 hqc] at hq
        exact h.unique p q ptr hp hq
  · intro other hother
    rcases hcases other hother with hother | rfl | rfl
    · exact h.counted other hother
    · refine Eq.trans ?_ (TrieCell.countChildren_setChild_some hc hnone heap.length).symm
      rw [← h.counted cell hmem]
    · simp [TrieCell.new, TrieCell.countChildren]
  · intro other hother i hi
    rcases hcases other hother with hother | rfl | rfl
    · exact h.named other hother i hi
    · by_cases hidx : i.val = assignIndex c
      · exact ⟨c, hidx.symm⟩
      · simp only [TrieCell.setChild, if_neg hidx] at hi
        exact h.named cell hmem i hi
    · cases hi

include hinj h hw hcell hc hnone in
theorem Intact.tree_created : tree assignIndex (TrieHeap.created assignIndex heap a cell c) this =
    (tree assignIndex heap this).grow (u ++ [c]) (false, default) := by
  have hwalk := walk_created hinj h hw hcell hc hnone
  ext1
  funext p
  by_cases hp : p = u ++ [c]
  · subst hp
    have hlabel : (tree assignIndex heap this).label (u ++ [c]) = none := by
      rw [label_tree, walk_child_none hw hcell hnone, Option.bind_none]
    rw [PrefixTree.label_grow_of_begins (List.prefix_refl _), hlabel, tree_label ((hwalk _).1 rfl) created_fresh]
    rfl
  · have hsame : (tree assignIndex (TrieHeap.created assignIndex heap a cell c) this).label p =
        (tree assignIndex heap this).label p := by
      rw [label_tree, label_tree, (hwalk p).2 hp]
      exact Option.bind_congr fun ptr hptr => content_created hcell (h.walk_lt hptr)
    rw [hsame]
    by_cases hpre : p <+: u ++ [c]
    · have hpu : p <+: u := (List.prefix_concat_iff.mp hpre).resolve_left hp
      have hpath := PrefixTree.mem_paths_of_begins hpu (h.mem_paths_iff.mpr ⟨a, hw⟩)
      obtain ⟨l, hl⟩ := Option.isSome_iff_exists.mp hpath
      rw [PrefixTree.label_grow_of_begins hpre, hl, Option.getD_some]
    · rw [PrefixTree.label_grow_of_not_begins hpre]

end Created

/-! ## A child removed -/

/-- The memory after a child was removed. -/
def removed (assignIndex : TYPE → Nat) (heap : TrieHeap range KEY) (a : NodePtr) (cell : TrieCell range KEY) (c : TYPE) :
    TrieHeap range KEY :=
  heap.set a { cell.setChild (assignIndex c) none with childCount := cell.childCount - 1 }

section Removed

variable (hinj : Function.Injective assignIndex) (h : Intact assignIndex heap this)
  (hw : walk assignIndex heap this u = some a) (hcell : heap[a]? = some cell) (hc : assignIndex c < range)

theorem removed_self (hcell : heap[a]? = some cell) : (removed assignIndex heap a cell c)[a]? =
    some { cell.setChild (assignIndex c) none with childCount := cell.childCount - 1 } := by
  obtain ⟨hlt, -⟩ := List.getElem?_eq_some_iff.mp hcell
  rw [removed, List.getElem?_set_self hlt]

theorem removed_other {b : NodePtr} (hne : b ≠ a) : (removed assignIndex heap a cell c)[b]? = heap[b]? := by
  rw [removed, List.getElem?_set_ne (Ne.symm hne)]

/-- What the nodes hold does not change. -/
theorem content_removed (hcell : heap[a]? = some cell) (b : NodePtr) :
    (removed assignIndex heap a cell c).content b = heap.content b := by
  by_cases hb : b = a
  · subst hb
    rw [content_eq (removed_self hcell), content_eq hcell]
    rfl
  · rw [content, content, removed_other hb]

include hinj h hw hcell hc

/-- The paths through the child lead nowhere, and every other one to where it led. -/
theorem walk_removed (p : List TYPE) :
    (u ++ [c] <+: p → walk assignIndex (removed assignIndex heap a cell c) this p = none) ∧
    (¬u ++ [c] <+: p → walk assignIndex (removed assignIndex heap a cell c) this p = walk assignIndex heap this p) := by
  induction p using List.reverseRecOn with
  | nil => exact ⟨fun hp => absurd hp.length_le (by simp), fun _ => rfl⟩
  | append_singleton p d ih =>
    rw [walk_concat, walk_concat]
    by_cases hbehind : u ++ [c] <+: p
    · rw [ih.1 hbehind]
      exact ⟨fun _ => rfl, fun hp => absurd (hbehind.trans (List.prefix_append p [d])) hp⟩
    · rw [ih.2 hbehind]
      cases hp : walk assignIndex heap this p with
      | none => exact ⟨fun _ => rfl, fun _ => rfl⟩
      | some b =>
        rw [Option.bind_some, Option.bind_some]
        by_cases hb : b = a
        · subst hb
          obtain rfl := h.unique p u b hp hw
          rw [removed_self hcell, hcell, Option.bind_some, Option.bind_some]
          refine ⟨fun hpre => ?_, fun hpre => ?_⟩
          · have heq := hpre.eq_of_length (by simp)
            obtain rfl : c = d := by simpa using heq
            exact TrieCell.child_setChild_self hc
          · have hdc : assignIndex d ≠ assignIndex c := fun heq => hpre (by rw [hinj heq])
            exact TrieCell.child_setChild_ne hdc
        · refine ⟨fun hpre => ?_, fun _ => by rw [removed_other hb]⟩
          have heq := (List.prefix_concat_iff.mp hpre).resolve_right hbehind
          obtain ⟨rfl, rfl⟩ : u = p ∧ c = d := by simpa using List.append_inj' heq rfl
          exact absurd (Option.some.inj (hp.symm.trans hw)) hb

theorem Intact.removed (hsome : (cell.child assignIndex c).isSome) :
    Intact assignIndex (removed assignIndex heap a cell c) this := by
  have hmem := List.mem_of_getElem? hcell
  have hwalk : ∀ p ptr, walk assignIndex (TrieHeap.removed assignIndex heap a cell c) this p = some ptr →
      walk assignIndex heap this p = some ptr := by
    intro p ptr hp
    by_cases hpre : u ++ [c] <+: p
    · rw [(walk_removed hinj h hw hcell hc p).1 hpre] at hp
      cases hp
    · rwa [(walk_removed hinj h hw hcell hc p).2 hpre] at hp
  have hchildren : ∀ i, ((cell.setChild (assignIndex c) none).children i).isSome → (cell.children i).isSome ∧
      (cell.setChild (assignIndex c) none).children i = cell.children i := by
    intro i hi
    by_cases hidx : i.val = assignIndex c
    · simp [TrieCell.setChild, hidx] at hi
    · simp only [TrieCell.setChild, if_neg hidx, and_true] at hi ⊢
      exact hi
  constructor
  · rw [TrieHeap.removed, List.length_set]
    exact h.root_lt
  · intro other hother i child hchild
    rw [TrieHeap.removed, List.length_set]
    rcases mem_set hother with hother | rfl
    · exact h.child_lt other hother i child hchild
    · have hsame := (hchildren i (by rw [hchild]; rfl)).2
      exact h.child_lt cell hmem i child (hsame ▸ hchild)
  · exact fun p q ptr hp hq => h.unique p q ptr (hwalk p ptr hp) (hwalk q ptr hq)
  · intro other hother
    rcases mem_set hother with hother | rfl
    · exact h.counted other hother
    · refine Eq.trans ?_ (TrieCell.countChildren_setChild_none hc hsome).symm
      rw [← h.counted cell hmem]
  · intro other hother i hi
    rcases mem_set hother with hother | rfl
    · exact h.named other hother i hi
    · exact h.named cell hmem i (hchildren i hi).1

theorem Intact.tree_removed : tree assignIndex (TrieHeap.removed assignIndex heap a cell c) this =
    (tree assignIndex heap this).prune (u ++ [c]) := by
  ext1
  funext p
  by_cases hpre : u ++ [c] <+: p
  · rw [PrefixTree.label_prune_of_begins hpre, label_tree, (walk_removed hinj h hw hcell hc p).1 hpre, Option.bind_none]
  · rw [PrefixTree.label_prune_of_not_begins hpre, label_tree, label_tree, (walk_removed hinj h hw hcell hc p).2 hpre]
    exact Option.bind_congr fun ptr _ => content_removed hcell ptr

end Removed

end TrieHeap
end NetworkingFramework
