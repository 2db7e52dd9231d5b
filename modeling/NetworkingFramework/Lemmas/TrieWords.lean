import NetworkingFramework.Lemmas.TrieHeap

/-!
# The words of a trie

What each function of a trie in memory does to the tree of its paths: `add_word` grows the tree along the word and marks its end,
`remove_word` prunes a branch, and the queries read the nodes and the marks. The indexes of every word lie in the array.
-/

namespace NetworkingFramework.TrieHeap

open Wire
open TrieNode (InRange)

variable {TYPE KEY : Type} {range : Nat} {assignIndex : TYPE → Nat} {heap : TrieHeap range KEY} {this ptr a : NodePtr}
  {cell : TrieCell range KEY} {c : TYPE} {str u p q : List TYPE}

/-- A label with a mark. -/
def Marked (label : Bool × KEY) : Prop := label.1 = true

/-- The label of a node as it is created. -/
def newLabel [Inhabited KEY] : Bool × KEY := (false, default)

/-- What marking a node does to its label. -/
def markLabel (label : Bool × KEY) : Bool × KEY := (true, label.2)

theorem not_marked_newLabel [Inhabited KEY] : ¬Marked (newLabel : Bool × KEY) := Bool.false_ne_true

theorem marked_markLabel (label : Bool × KEY) : Marked (markLabel label) := rfl

/-- The tree after a word was added. -/
noncomputable def withWord [Inhabited KEY] (t : PrefixTree TYPE (Bool × KEY)) (str : List TYPE) : PrefixTree TYPE (Bool × KEY) :=
  (t.grow str newLabel).update str markLabel

theorem words_withWord [Inhabited KEY] (t : PrefixTree TYPE (Bool × KEY)) (str : List TYPE) :
    (withWord t str).words Marked = insert str (t.words Marked) := by
  have hmem : str ∈ (t.grow str newLabel).paths := PrefixTree.mem_paths_grow.mpr (.inl (List.prefix_refl str))
  rw [withWord, PrefixTree.words_update_mark marked_markLabel hmem, PrefixTree.words_grow not_marked_newLabel]

/-- A node of the tree after a word was added was there with its key, or is new. -/
theorem label_withWord [Inhabited KEY] {t : PrefixTree TYPE (Bool × KEY)} {label : Bool × KEY}
    (h : (withWord t str).label p = some label) :
    (t.label p = none ∧ label.2 = default) ∨ ∃ old, t.label p = some old ∧ label.2 = old.2 := by
  have hgrown : ∃ mid, (t.grow str newLabel).label p = some mid ∧ label.2 = mid.2 := by
    by_cases hp : p = str
    · subst hp
      rw [withWord, PrefixTree.label_update_self, Option.map_eq_some_iff] at h
      obtain ⟨mid, hmid, rfl⟩ := h
      exact ⟨mid, hmid, rfl⟩
    · rw [withWord, PrefixTree.label_update_ne _ hp] at h
      exact ⟨label, h, rfl⟩
  obtain ⟨mid, hmid, hkey⟩ := hgrown
  by_cases hpre : p <+: str
  · rw [PrefixTree.label_grow_of_begins hpre] at hmid
    obtain rfl := Option.some.inj hmid
    cases hold : t.label p with
    | none =>
      rw [hold] at hkey
      exact .inl ⟨rfl, hkey⟩
    | some old =>
      rw [hold] at hkey
      exact .inr ⟨old, rfl, hkey⟩
  · rw [PrefixTree.label_grow_of_not_begins hpre] at hmid
    exact .inr ⟨mid, hmid, hkey⟩

/-! ## Searching -/

theorem search_eq (h : Intact assignIndex heap this) (hstr : InRange range assignIndex str)
    (hw : walk assignIndex heap this u = some a) : search assignIndex heap a str = .ok (walk assignIndex heap this (u ++ str)) := by
  induction str generalizing u a with
  | nil => rw [List.append_nil, hw, search]
  | cons c str ih =>
    obtain ⟨cell, hcell⟩ := h.walk_cell hw
    rw [search, getChild_ok hcell hstr.head, ok_bind]
    cases hchild : cell.child assignIndex c with
    | none =>
      have hnone := walk_child_none hw hcell hchild
      rw [List.append_cons, walk_append, hnone]
      rfl
    | some child =>
      have hwalk : walk assignIndex heap this (u ++ [c]) = some child := by
        rw [walk_concat, hw, Option.bind_some, hcell, Option.bind_some, hchild]
      rw [List.append_cons]
      exact ih hstr.tail hwalk

/-- `search` from the root. -/
theorem search_root (h : Intact assignIndex heap this) (hstr : InRange range assignIndex str) :
    search assignIndex heap this str = .ok (walk assignIndex heap this str) := search_eq (u := []) h hstr rfl

theorem isPrefix_spec (h : Intact assignIndex heap this) (hstr : InRange range assignIndex str) :
    ∃ b, isPrefix assignIndex heap this str = .ok b ∧ (b = true ↔ str ∈ (tree assignIndex heap this).paths) := by
  rw [isPrefix, search_root h hstr]
  refine ⟨_, rfl, ?_⟩
  rw [h.mem_paths_iff, Option.isSome_iff_exists]

/-- A path leads to a word when its node is marked. -/
theorem mem_words_iff_marked (hw : walk assignIndex heap this p = some ptr) (hcell : heap[ptr]? = some cell) :
    p ∈ (tree assignIndex heap this).words Marked ↔ cell.marked = true := by
  simp [PrefixTree.mem_words_iff, tree_label hw hcell, Marked]

theorem containsWord_spec (h : Intact assignIndex heap this) (hstr : InRange range assignIndex str) :
    ∃ b, containsWord assignIndex heap this str = .ok b ∧ (b = true ↔ str ∈ (tree assignIndex heap this).words Marked) := by
  rw [containsWord, search_root h hstr, ok_bind]
  cases hw : walk assignIndex heap this str with
  | none =>
    refine ⟨false, rfl, ?_⟩
    have hlabel : (tree assignIndex heap this).label str = none := by rw [label_tree, hw, Option.bind_none]
    simp [PrefixTree.mem_words_iff, hlabel]
  | some ptr =>
    obtain ⟨cell, hcell⟩ := h.walk_cell hw
    refine ⟨cell.marked, ?_, (mem_words_iff_marked hw hcell).symm⟩
    simp only [node_ok hcell, ok_bind, pure_eq_ok]

/-- The loop of `contains_prefix` looks for a word among the prefixes that are left. -/
theorem containsPrefix_eq (h : Intact assignIndex heap this) (hstr : InRange range assignIndex str)
    (hw : walk assignIndex heap this u = some a) :
    ∃ b, containsPrefix assignIndex heap a str = .ok b ∧
      (b = true ↔ ∃ s, s ≠ [] ∧ s <+: str ∧ u ++ s ∈ (tree assignIndex heap this).words Marked) := by
  induction str generalizing u a with
  | nil =>
    refine ⟨false, rfl, ?_⟩
    simp +contextual
  | cons c str ih =>
    obtain ⟨cell, hcell⟩ := h.walk_cell hw
    rw [containsPrefix, getChild_ok hcell hstr.head, ok_bind]
    cases hchild : cell.child assignIndex c with
    | none =>
      refine ⟨false, rfl, ?_⟩
      have hnone := walk_child_none hw hcell hchild
      -- a word behind the missing child would lead through it
      have hno : ∀ s, s ≠ [] → s <+: c :: str → u ++ s ∉ (tree assignIndex heap this).words Marked := by
        intro s hne hpre hword
        obtain ⟨d, s, rfl⟩ := List.exists_cons_of_ne_nil hne
        obtain rfl : d = c := (List.cons_prefix_cons.mp hpre).1
        have hpath := PrefixTree.words_subset_paths hword
        rw [List.append_cons, h.mem_paths_iff, walk_append, hnone] at hpath
        obtain ⟨_, hpath⟩ := hpath
        cases hpath
      simpa using hno
    | some child =>
      have hwalk : walk assignIndex heap this (u ++ [c]) = some child := by
        rw [walk_concat, hw, Option.bind_some, hcell, Option.bind_some, hchild]
      obtain ⟨childCell, hchildCell⟩ := h.walk_cell hwalk
      obtain ⟨b, hb, hiff⟩ := ih hstr.tail hwalk
      simp only [node_ok hchildCell, ok_bind]
      have hmarked := mem_words_iff_marked hwalk hchildCell
      by_cases hm : childCell.marked = true
      · refine ⟨true, if_pos hm, ?_⟩
        simp only [true_iff]
        exact ⟨[c], List.cons_ne_nil c [], List.cons_prefix_cons.mpr ⟨rfl, List.nil_prefix⟩, hmarked.mpr hm⟩
      · refine ⟨b, by rw [if_neg hm, hb], hiff.trans ⟨fun hs => ?_, fun hs => ?_⟩⟩
        · obtain ⟨s, -, hpre, hword⟩ := hs
          refine ⟨c :: s, List.cons_ne_nil c s, List.cons_prefix_cons.mpr ⟨rfl, hpre⟩, ?_⟩
          rwa [List.append_cons]
        · obtain ⟨s, hne, hpre, hword⟩ := hs
          obtain ⟨d, s, rfl⟩ := List.exists_cons_of_ne_nil hne
          obtain ⟨rfl, hrest⟩ := List.cons_prefix_cons.mp hpre
          rw [List.append_cons] at hword
          refine ⟨s, fun hnil => ?_, hrest, hword⟩
          subst hnil
          rw [List.append_nil, hmarked] at hword
          exact hm hword

/-- `contains_prefix`, when the root is not marked. -/
theorem containsPrefix_spec (h : Intact assignIndex heap this) (hstr : InRange range assignIndex str)
    (hroot : [] ∉ (tree assignIndex heap this).words Marked) :
    ∃ b, containsPrefix assignIndex heap this str = .ok b ∧
      (b = true ↔ ∃ s ∈ (tree assignIndex heap this).words Marked, s <+: str) := by
  obtain ⟨b, hb, hiff⟩ := containsPrefix_eq (u := []) h hstr rfl
  refine ⟨b, hb, hiff.trans ⟨fun hs => ?_, fun hs => ?_⟩⟩
  · obtain ⟨s, -, hpre, hword⟩ := hs
    exact ⟨s, hword, hpre⟩
  · obtain ⟨s, hword, hpre⟩ := hs
    exact ⟨s, fun hnil => hroot (hnil ▸ hword), hpre, hword⟩

/-! ## Adding -/

/-- Nothing that a pointer leads to moves: every path leads to where it led. -/
def Keeps (assignIndex : TYPE → Nat) (this : NodePtr) (heap heap' : TrieHeap range KEY) : Prop :=
  ∀ p ptr, walk assignIndex heap this p = some ptr → walk assignIndex heap' this p = some ptr

theorem Keeps.trans {heap₁ heap₂ heap₃ : TrieHeap range KEY} (h : Keeps assignIndex this heap₁ heap₂)
    (h' : Keeps assignIndex this heap₂ heap₃) : Keeps assignIndex this heap₁ heap₃ :=
  fun p ptr hp => h' p ptr (h p ptr hp)

/-- The loop of `add_word` goes to the child of the next value, which it creates when it is not there. -/
theorem addWordLoop_cons [Inhabited KEY] (heap : TrieHeap range KEY) (a : NodePtr) (c : TYPE) (str : List TYPE) :
    addWordLoop assignIndex heap a (c :: str) = (do
      let (heap, child) ← createChild assignIndex heap a c
      addWordLoop assignIndex heap child str) := by
  rw [addWordLoop]
  cases hget : getChild assignIndex heap a c with
  | error e => simp [createChild, hget]
  | ok found =>
    cases found with
    | none => rfl
    | some child => simp [createChild, hget]

/-- A write to the node at the end of a path. -/
theorem Intact.write (h : Intact assignIndex heap this) (hw : walk assignIndex heap this p = some a)
    (hcell : heap[a]? = some cell) (cell' : TrieCell range KEY) (hchildren : cell'.children = cell.children)
    (hcount : cell'.childCount = cell.childCount) (f : Bool × KEY → Bool × KEY)
    (hf : f (cell.marked, cell.key) = (cell'.marked, cell'.key)) :
    Intact assignIndex (heap.set a cell') this ∧ Keeps assignIndex this heap (heap.set a cell') ∧
      tree assignIndex (heap.set a cell') this = (tree assignIndex heap this).update p f := by
  refine ⟨h.set hcell hchildren hcount, fun q ptr hq => ?_, h.tree_set hw hcell hchildren hf⟩
  rw [walk_set hcell hchildren, hq]

variable (hinj : Function.Injective assignIndex)
include hinj

/-- The child that was there, or a new one: the tree has grown by a node. -/
theorem createChild_spec [Inhabited KEY] (h : Intact assignIndex heap this) (hw : walk assignIndex heap this u = some a)
    (hc : assignIndex c < range) :
    ∃ heap' child, createChild assignIndex heap a c = .ok (heap', child) ∧ Intact assignIndex heap' this ∧
      walk assignIndex heap' this (u ++ [c]) = some child ∧ Keeps assignIndex this heap heap' ∧
      tree assignIndex heap' this = (tree assignIndex heap this).grow (u ++ [c]) newLabel := by
  obtain ⟨cell, hcell⟩ := h.walk_cell hw
  rw [createChild, getChild_ok hcell hc, ok_bind]
  cases hchild : cell.child assignIndex c with
  | some child =>
    have hwalk : walk assignIndex heap this (u ++ [c]) = some child := by
      rw [walk_concat, hw, Option.bind_some, hcell, Option.bind_some, hchild]
    refine ⟨heap, child, rfl, h, hwalk, fun _ _ hp => hp, ?_⟩
    rw [PrefixTree.grow_of_mem (h.mem_paths_iff.mpr ⟨child, hwalk⟩)]
  | none =>
    have hwalk := walk_created hinj h hw hcell hc hchild
    refine ⟨created assignIndex heap a cell c, heap.length, ?_, h.created hinj hw hcell hc hchild, (hwalk _).1 rfl,
      fun p ptr hp => ?_, h.tree_created hinj hw hcell hc hchild⟩
    · simp only [node_ok hcell, ok_bind]
      rfl
    · have hne : p ≠ u ++ [c] := by
        intro heq
        rw [heq, walk_child_none hw hcell hchild] at hp
        cases hp
      rw [(hwalk p).2 hne, hp]

theorem addWordLoop_spec [Inhabited KEY] (hstr : InRange range assignIndex str) (h : Intact assignIndex heap this)
    (hw : walk assignIndex heap this u = some a) :
    ∃ heap' found, addWordLoop assignIndex heap a str = .ok (heap', found) ∧ Intact assignIndex heap' this ∧
      walk assignIndex heap' this (u ++ str) = some found ∧ Keeps assignIndex this heap heap' ∧
      tree assignIndex heap' this = withWord (tree assignIndex heap this) (u ++ str) := by
  induction str generalizing heap u a with
  | nil =>
    obtain ⟨cell, hcell⟩ := h.walk_cell hw
    obtain ⟨h', hkeeps, htree⟩ := h.write hw hcell { cell with marked := true } rfl rfl markLabel rfl
    have hmem := h.mem_paths_iff.mpr ⟨a, hw⟩
    rw [List.append_nil, withWord, PrefixTree.grow_of_mem hmem]
    refine ⟨_, a, ?_, h', hkeeps u a hw, hkeeps, htree⟩
    rw [addWordLoop, node_ok hcell]
    rfl
  | cons c str ih =>
    obtain ⟨heap₁, child, hcreate, h₁, hw₁, hkeeps₁, htree₁⟩ := createChild_spec hinj h hw hstr.head
    obtain ⟨heap', found, hadd, h', hw', hkeeps', htree'⟩ := ih hstr.tail h₁ hw₁
    refine ⟨heap', found, ?_, h', ?_, hkeeps₁.trans hkeeps', ?_⟩
    · rw [addWordLoop_cons, hcreate]
      exact hadd
    · rw [List.append_cons, hw']
    · have hpre : u ++ [c] <+: u ++ c :: str := ⟨str, (List.append_cons u c str).symm⟩
      rw [htree', htree₁, ← List.append_cons, withWord, PrefixTree.grow_grow hpre, withWord]

/-- `add_word` adds the word, and returns where a search for it ends. -/
theorem addWord_spec [Inhabited KEY] (hne : str ≠ []) (hstr : InRange range assignIndex str) (h : Intact assignIndex heap this) :
    ∃ heap' found, addWord assignIndex heap this str = .ok (heap', some found) ∧ Intact assignIndex heap' this ∧
      walk assignIndex heap' this str = some found ∧ Keeps assignIndex this heap heap' ∧
      tree assignIndex heap' this = withWord (tree assignIndex heap this) str := by
  obtain ⟨heap', found, hadd, h', hw', hkeeps, htree⟩ := addWordLoop_spec (u := []) hinj hstr h rfl
  refine ⟨heap', found, ?_, h', hw', hkeeps, htree⟩
  rw [addWord, if_neg hne, hadd]
  rfl

omit hinj

/-- A write of a key through a pointer. -/
theorem writeKey_spec (h : Intact assignIndex heap this) (hw : walk assignIndex heap this p = some ptr) (key : KEY) :
    ∃ heap', heap.writeKey ptr key = .ok heap' ∧ Intact assignIndex heap' this ∧ Keeps assignIndex this heap heap' ∧
      tree assignIndex heap' this = (tree assignIndex heap this).update p fun label => (label.1, key) := by
  obtain ⟨cell, hcell⟩ := h.walk_cell hw
  refine ⟨_, ?_, h.write hw hcell { cell with key } rfl rfl (fun label => (label.1, key)) rfl⟩
  rw [writeKey, node_ok hcell]
  rfl

/-- A new tree. -/
theorem init_intact [Inhabited KEY] : Intact assignIndex (init : TrieHeap range KEY) 0 := by
  have hmem : ∀ cell ∈ (init : TrieHeap range KEY), cell = .new := fun cell hcell => List.mem_singleton.mp hcell
  have hwalk : ∀ p ptr, walk assignIndex (init : TrieHeap range KEY) 0 p = some ptr → p = [] := by
    intro p ptr hp
    cases p with
    | nil => rfl
    | cons c p => simp [walk, init] at hp
  constructor
  · exact Nat.one_pos
  · intro cell hcell i child hchild
    obtain rfl := hmem cell hcell
    cases hchild
  · intro p q ptr hp hq
    rw [hwalk p ptr hp, hwalk q ptr hq]
  · intro cell hcell
    obtain rfl := hmem cell hcell
    simp [TrieCell.new, TrieCell.countChildren]
  · intro cell hcell i hi
    obtain rfl := hmem cell hcell
    cases hi

/-- The tree of a new one has no words, and only the root. -/
theorem init_tree [Inhabited KEY] (p : List TYPE) :
    (tree assignIndex (init : TrieHeap range KEY) 0).label p = if p.isEmpty then some newLabel else none := by
  cases p with
  | nil => rfl
  | cons c p => simp [label_tree, walk, init]

/-! ## Removing -/

section Remove

/-- Where the loop of `remove_word` is: `u` of the word is behind it, and below the child it would remove, which `v` leads to, the
nodes so far lead to this word only. -/
structure Lowest (assignIndex : TYPE → Nat) (heap : TrieHeap range KEY) (this : NodePtr) (w u v : List TYPE)
    (s : RemoveState TYPE) : Prop where
  curr : walk assignIndex heap this u = some s.currNode
  par : walk assignIndex heap this v = some s.lowestAnsPar
  on_path : v ++ [s.lowestAnsVal] <+: w
  chain : ∀ p, v ++ [s.lowestAnsVal] <+: p → p <+: w → p.length < u.length →
    p ∉ (tree assignIndex heap this).words Marked ∧ ∀ c, p ++ [c] ∈ (tree assignIndex heap this).paths → p ++ [c] <+: w
  branch : v = [] ∨ v ∈ (tree assignIndex heap this).words Marked ∨
    ∃ d, d ≠ s.lowestAnsVal ∧ v ++ [d] ∈ (tree assignIndex heap this).paths

variable {v w : List TYPE} {s : RemoveState TYPE} {child : NodePtr}

/-- A node with more than one child leads elsewhere too. -/
theorem Intact.exists_other (h : Intact assignIndex heap this) (hw : walk assignIndex heap this u = some a)
    (hcell : heap[a]? = some cell) (hc : assignIndex c < range) (hcount : 1 < cell.childCount) :
    ∃ d, d ≠ c ∧ u ++ [d] ∈ (tree assignIndex heap this).paths := by
  have hmem := List.mem_of_getElem? hcell
  rw [h.counted cell hmem] at hcount
  obtain ⟨j, hj, hsome⟩ := TrieCell.exists_ne_of_lt_countChildren hcount ⟨assignIndex c, hc⟩
  obtain ⟨d, hd⟩ := h.named cell hmem j hsome
  have hdlt : assignIndex d < range := hd ▸ j.isLt
  have hdj : (⟨assignIndex d, hdlt⟩ : Fin range) = j := Fin.ext hd
  obtain ⟨b, hb⟩ := Option.isSome_iff_exists.mp hsome
  refine ⟨d, fun hdc => hj ?_, h.mem_paths_iff.mpr ⟨b, ?_⟩⟩
  · subst hdc
    exact hdj.symm
  · rw [walk_concat, hw, Option.bind_some, hcell, Option.bind_some, TrieCell.child, dif_pos hdlt, hdj, hb]

/-- A node with one child at most leads to that one only. -/
theorem Intact.only_child (hinj : Function.Injective assignIndex) (h : Intact assignIndex heap this)
    (hw : walk assignIndex heap this u = some a) (hcell : heap[a]? = some cell) (hcount : ¬1 < cell.childCount)
    (hchild : cell.child assignIndex c = some child) {d : TYPE} (hd : u ++ [d] ∈ (tree assignIndex heap this).paths) : d = c := by
  have hmem := List.mem_of_getElem? hcell
  rw [h.counted cell hmem] at hcount
  rw [h.mem_paths_iff] at hd
  obtain ⟨b, hb⟩ := hd
  rw [walk_concat, hw, Option.bind_some, hcell, Option.bind_some] at hb
  obtain ⟨hc, hchild⟩ := child_eq_some hchild
  obtain ⟨hd, hb⟩ := child_eq_some hb
  have hidx := TrieCell.index_eq_of_countChildren_le (Nat.le_of_not_lt hcount) (Option.isSome_iff_exists.mpr ⟨b, hb⟩)
    (Option.isSome_iff_exists.mpr ⟨child, hchild⟩)
  exact hinj (Fin.mk.inj hidx)

/-- One turn of the loop. -/
theorem Lowest.step (hinj : Function.Injective assignIndex) (h : Intact assignIndex heap this)
    (hs : Lowest assignIndex heap this w u v s) (hpre : u ++ [c] <+: w) (hcell : heap[s.currNode]? = some cell)
    (hchild : cell.child assignIndex c = some child) :
    ∃ v', Lowest assignIndex heap this w (u ++ [c]) v'
      (if cell.marked ∨ cell.childCount > 1 then ⟨child, s.currNode, c⟩ else { s with currNode := child }) := by
  have hwalk : walk assignIndex heap this (u ++ [c]) = some child := by
    rw [walk_concat, hs.curr, Option.bind_some, hcell, Option.bind_some, hchild]
  have hmarked := mem_words_iff_marked hs.curr hcell
  obtain ⟨hc, -⟩ := child_eq_some hchild
  split
  · rename_i hother
    refine ⟨u, hwalk, hs.curr, hpre, fun p hp _ hlt => ?_, ?_⟩
    · exact absurd (hp.length_le.trans_lt hlt) (Nat.lt_irrefl _)
    · rcases hother with hother | hother
      · exact .inr (.inl (hmarked.mpr hother))
      · exact .inr (.inr (h.exists_other hs.curr hcell hc hother))
  · rename_i hother
    rw [not_or] at hother
    refine ⟨v, hwalk, hs.par, hs.on_path, fun p hp hpw hlt => ?_, hs.branch⟩
    rw [List.length_append, List.length_singleton] at hlt
    by_cases hshort : p.length < u.length
    · exact hs.chain p hp hpw hshort
    · -- the node that was passed
      have hpu : p = u := by
        have huw : u <+: w := (List.prefix_append u [c]).trans hpre
        exact (List.prefix_of_prefix_length_le hpw huw (by omega)).eq_of_length (by omega)
      subst hpu
      refine ⟨fun hword => hother.1 (hmarked.mp hword), fun d hd => ?_⟩
      rwa [h.only_child hinj hs.curr hcell hother.2 hchild hd]

/-- The whole loop. -/
theorem removeWordLoop_spec (hinj : Function.Injective assignIndex) (h : Intact assignIndex heap this)
    (hstr : InRange range assignIndex str) (hs : Lowest assignIndex heap this (u ++ str) u v s) :
    (removeWordLoop assignIndex heap s str = .ok none ∧ u ++ str ∉ (tree assignIndex heap this).paths) ∨
    ∃ s' v', removeWordLoop assignIndex heap s str = .ok (some s') ∧
      Lowest assignIndex heap this (u ++ str) (u ++ str) v' s' := by
  induction str generalizing u v s with
  | nil =>
    rw [List.append_nil] at hs ⊢
    exact .inr ⟨s, v, rfl, hs⟩
  | cons c str ih =>
    obtain ⟨cell, hcell⟩ := h.walk_cell hs.curr
    rw [removeWordLoop, getChild_ok hcell hstr.head, ok_bind]
    cases hchild : cell.child assignIndex c with
    | none =>
      refine .inl ⟨rfl, fun hpath => ?_⟩
      rw [h.mem_paths_iff, List.append_cons, walk_append, walk_child_none hs.curr hcell hchild] at hpath
      obtain ⟨_, hpath⟩ := hpath
      cases hpath
    | some child =>
      have hpre : u ++ [c] <+: u ++ c :: str := ⟨str, (List.append_cons u c str).symm⟩
      obtain ⟨v', hs'⟩ := hs.step hinj h hpre hcell hchild
      rw [List.append_cons] at hs' ⊢
      have hrest := ih hstr.tail hs'
      simp only [node_ok hcell, ok_bind]
      split
      · rename_i hother
        rwa [if_pos hother] at hrest
      · rename_i hother
        rwa [if_neg hother] at hrest

/-- `remove_word` removes a word and every word it is a prefix of, or changes nothing when it is no word. -/
theorem removeWord_spec (hinj : Function.Injective assignIndex) (h : Intact assignIndex heap this)
    (htight : (tree assignIndex heap this).Tight Marked) (hne : w ≠ []) (hstr : InRange range assignIndex w) :
    (w ∉ (tree assignIndex heap this).words Marked ∧ removeWord assignIndex heap this w = .ok heap) ∨
    (w ∈ (tree assignIndex heap this).words Marked ∧
      ∃ heap', removeWord assignIndex heap this w = .ok heap' ∧ Intact assignIndex heap' this ∧
        (tree assignIndex heap' this).Tight Marked ∧ (tree assignIndex heap' this).words Marked =
          {v | v ∈ (tree assignIndex heap this).words Marked ∧ ¬w <+: v}) := by
  obtain ⟨c, str, rfl⟩ := List.exists_cons_of_ne_nil hne
  have hstart : Lowest assignIndex heap this ([] ++ c :: str) [] [] ⟨this, this, c⟩ := by
    refine ⟨rfl, rfl, List.cons_prefix_cons.mpr ⟨rfl, List.nil_prefix⟩, fun p _ _ hlt => ?_, .inl rfl⟩
    exact absurd hlt (Nat.not_lt_zero _)
  rcases removeWordLoop_spec hinj h hstr hstart with ⟨hloop, hpath⟩ | ⟨s, v, hloop, hs⟩
  · refine .inl ⟨fun hword => hpath (PrefixTree.words_subset_paths hword), ?_⟩
    simp only [removeWord, hloop, ok_bind, pure_eq_ok]
  · rw [List.nil_append] at hs
    obtain ⟨cell, hcell⟩ := h.walk_cell hs.curr
    have hmarked := mem_words_iff_marked hs.curr hcell
    by_cases hm : cell.marked = true
    · refine .inr ⟨hmarked.mpr hm, ?_⟩
      obtain ⟨parCell, hparCell⟩ := h.walk_cell hs.par
      have hc : assignIndex s.lowestAnsVal < range := hstr _ (hs.on_path.subset (by simp))
      -- the child to remove is there, since it leads to the word
      have hsome : (parCell.child assignIndex s.lowestAnsVal).isSome := by
        obtain ⟨b, hb⟩ := h.mem_paths_iff.mp (PrefixTree.mem_paths_of_begins hs.on_path (h.mem_paths_iff.mpr ⟨_, hs.curr⟩))
        rw [walk_concat, hs.par, Option.bind_some, hparCell, Option.bind_some] at hb
        rw [hb]
        rfl
      have htree := h.tree_removed hinj hs.par hparCell hc
      have hchain : (tree assignIndex heap this).Chain Marked (v ++ [s.lowestAnsVal]) (c :: str) := by
        intro p hp hpw hne
        refine hs.chain p hp hpw (Nat.lt_of_not_le fun hle => hne (hpw.eq_of_length (Nat.le_antisymm hpw.length_le hle)))
      refine ⟨removed assignIndex heap s.lowestAnsPar parCell s.lowestAnsVal, ?_, h.removed hinj hs.par hparCell hc hsome, ?_, ?_⟩
      · obtain ⟨b, hb⟩ := Option.isSome_iff_exists.mp hsome
        simp only [removeWord, hloop, node_ok hcell, ok_bind, hm, not_true_eq_false, if_false]
        simp only [removeChild, getChild_ok hparCell hc, hb, node_ok hparCell, ok_bind]
        rfl
      · rw [htree]
        exact htight.prune_child hs.branch
      · rw [htree, hchain.words_prune hs.on_path]
    · refine .inl ⟨fun hword => hm (hmarked.mp hword), ?_⟩
      simp only [removeWord, hloop, node_ok hcell, ok_bind, hm, if_true, pure_eq_ok, not_false_eq_true, Bool.false_eq_true]

end Remove

end NetworkingFramework.TrieHeap
