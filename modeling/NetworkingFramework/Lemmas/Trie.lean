import NetworkingFramework.Trie
import Mathlib.Logic.Function.Basic

/-!
# The trie as a map

When the index function is injective and the words stay within its range, a trie is a map from words to keys (`keyOf`): adding a
word and writing its key changes the map at that word only (`addWord_writeKey`).
-/

namespace NetworkingFramework.TrieNode

open Wire

variable {TYPE KEY : Type} {range : Nat}

/-- The key of a word: that of its node, when the node is marked. -/
def keyOf (assignIndex : TYPE → Nat) (node : TrieNode range KEY) (str : List TYPE) : Except Fault (Option KEY) :=
  (node.search assignIndex str).map fun found => (found.filter (·.marked)).map (·.key)

/-- The indexes of a word lie in the array. -/
def InRange (range : Nat) (assignIndex : TYPE → Nat) (str : List TYPE) : Prop := ∀ c ∈ str, assignIndex c < range

variable {assignIndex : TYPE → Nat}

theorem InRange.head {c : TYPE} {str : List TYPE} (h : InRange range assignIndex (c :: str)) : assignIndex c < range :=
  h c List.mem_cons_self

theorem InRange.tail {c : TYPE} {str : List TYPE} (h : InRange range assignIndex (c :: str)) : InRange range assignIndex str :=
  fun x hx => h x (List.mem_cons_of_mem c hx)

/-! ## Children -/

theorem getChild_ok (node : TrieNode range KEY) {c : TYPE} (hc : assignIndex c < range) :
    node.getChild assignIndex c = .ok (node.children ⟨assignIndex c, hc⟩) :=
  dif_pos hc

theorem getChild_setChild_self (node child : TrieNode range KEY) {c : TYPE} (hc : assignIndex c < range) :
    (node.setChild assignIndex c child).getChild assignIndex c = .ok (some child) := by
  rw [getChild_ok _ hc]
  simp only [setChild, if_true]

theorem getChild_setChild_ne (hinj : Function.Injective assignIndex) (node child : TrieNode range KEY) {c c' : TYPE}
    (hne : c' ≠ c) : (node.setChild assignIndex c child).getChild assignIndex c' = node.getChild assignIndex c' := by
  have hidx : assignIndex c' ≠ assignIndex c := fun h => hne (hinj h)
  simp only [getChild, setChild, if_neg hidx]

theorem keyOf_nil (node : TrieNode range KEY) :
    node.keyOf assignIndex [] = .ok (if node.marked then some node.key else none) := by
  cases hmarked : node.marked <;> simp [keyOf, search, hmarked]

/-- The count of the children is no part of the map. -/
theorem keyOf_childCount (node : TrieNode range KEY) (n : Nat) (str : List TYPE) :
    ({ node with childCount := n } : TrieNode range KEY).keyOf assignIndex str = node.keyOf assignIndex str := by
  cases str with
  | nil => simp only [keyOf_nil]
  | cons c str => rfl

/-- The words behind a child are those of the child. -/
theorem keyOf_cons_of_child {node child : TrieNode range KEY} {c : TYPE} (str : List TYPE)
    (h : node.getChild assignIndex c = .ok (some child)) :
    node.keyOf assignIndex (c :: str) = child.keyOf assignIndex str := by
  simp only [keyOf, search, h, ok_bind]

/-- Behind a child that is not there are no words. -/
theorem keyOf_cons_of_none {node : TrieNode range KEY} {c : TYPE} (str : List TYPE)
    (h : node.getChild assignIndex c = .ok none) : node.keyOf assignIndex (c :: str) = .ok none := by
  simp only [keyOf, search, h, ok_bind, pure_eq_ok, map_ok, Option.filter_none, Option.map_none]

/-- A node as it is created has no words. -/
theorem keyOf_new [Inhabited KEY] {str : List TYPE} (h : InRange range assignIndex str) :
    (new : TrieNode range KEY).keyOf assignIndex str = .ok none := by
  cases str with
  | nil => rfl
  | cons c str => exact keyOf_cons_of_none str (getChild_ok _ h.head)

/-- Setting a child changes no other words than those behind it. -/
theorem keyOf_setChild_of_ne (hinj : Function.Injective assignIndex) (node child : TrieNode range KEY) {c : TYPE}
    {str : List TYPE} (h : ∀ rest, str ≠ c :: rest) :
    (node.setChild assignIndex c child).keyOf assignIndex str = node.keyOf assignIndex str := by
  cases str with
  | nil => simp only [keyOf_nil, setChild]
  | cons c' str =>
    have hne : c' ≠ c := fun hc => h str (by rw [hc])
    simp only [keyOf, search, getChild_setChild_ne hinj node child hne]

theorem keyOf_setChild_self (node child : TrieNode range KEY) {c : TYPE} (hc : assignIndex c < range) (str : List TYPE) :
    (node.setChild assignIndex c child).keyOf assignIndex (c :: str) = child.keyOf assignIndex str :=
  keyOf_cons_of_child str (getChild_setChild_self node child hc)

/-- A child found or created: no word changes. -/
theorem createChild_spec [Inhabited KEY] (hinj : Function.Injective assignIndex) (node : TrieNode range KEY) {c : TYPE}
    (hc : assignIndex c < range) :
    ∃ node' child, node.createChild assignIndex c = .ok (node', child) ∧
      (∀ str, (∀ rest, str ≠ c :: rest) → node'.keyOf assignIndex str = node.keyOf assignIndex str) ∧
      ∀ str, InRange range assignIndex str → child.keyOf assignIndex str = node.keyOf assignIndex (c :: str) := by
  cases hchild : node.children ⟨assignIndex c, hc⟩ with
  | some child =>
    have hget : node.getChild assignIndex c = .ok (some child) := by rw [getChild_ok node hc, hchild]
    refine ⟨node, child, ?_, fun _ _ => rfl, fun str _ => (keyOf_cons_of_child str hget).symm⟩
    rw [createChild, hget]
    rfl
  | none =>
    have hget : node.getChild assignIndex c = .ok none := by rw [getChild_ok node hc, hchild]
    refine ⟨{ node.setChild assignIndex c new with childCount := node.childCount + 1 }, new, ?_, fun str hstr => ?_,
      fun str hstr => ?_⟩
    · rw [createChild, hget]
      rfl
    · exact (keyOf_childCount _ _ str).trans (keyOf_setChild_of_ne hinj node new hstr)
    · rw [keyOf_cons_of_none str hget, keyOf_new hstr]

/-! ## Words -/

theorem addWordLoop_cons [Inhabited KEY] (node : TrieNode range KEY) (c : TYPE) (str : List TYPE) :
    node.addWordLoop assignIndex (c :: str) = (do
      let (node, child) ← node.createChild assignIndex c
      return node.setChild assignIndex c (← child.addWordLoop assignIndex str)) := by
  rw [addWordLoop]
  cases hget : node.getChild assignIndex c with
  | error e => simp [createChild, hget]
  | ok found =>
    cases found with
    | none => rfl
    | some child => simp [createChild, hget]

/-- Adding a word marks its node and changes no other word. -/
theorem addWordLoop_spec [Inhabited KEY] (hinj : Function.Injective assignIndex) {str : List TYPE}
    (hstr : InRange range assignIndex str) (node : TrieNode range KEY) :
    ∃ node', node.addWordLoop assignIndex str = .ok node' ∧
      (∃ found, node'.search assignIndex str = .ok (some found) ∧ found.marked = true) ∧
      ∀ str', InRange range assignIndex str' → str' ≠ str →
        node'.keyOf assignIndex str' = node.keyOf assignIndex str' := by
  induction str generalizing node with
  | nil =>
    refine ⟨_, rfl, ⟨_, rfl, rfl⟩, fun str' _ hne => ?_⟩
    cases str' with
    | nil => exact absurd rfl hne
    | cons c str' => rfl
  | cons c str ih =>
    obtain ⟨node₁, child, hcreate, hother, hbehind⟩ := createChild_spec hinj node hstr.head
    obtain ⟨child', hadd, ⟨found, hsearch, hmarked⟩, hrest⟩ := ih hstr.tail child
    refine ⟨node₁.setChild assignIndex c child', ?_, ⟨found, ?_, hmarked⟩, fun str' hstr' hne => ?_⟩
    · rw [addWordLoop_cons, hcreate, ok_bind]
      simp only [hadd, ok_bind, pure_eq_ok]
    · rw [search, getChild_setChild_self node₁ child' hstr.head]
      exact hsearch
    · by_cases hhead : ∃ rest, str' = c :: rest
      · obtain ⟨rest, rfl⟩ := hhead
        have hne' : rest ≠ str := fun h => hne (by rw [h])
        rw [keyOf_setChild_self node₁ child' hstr.head, hrest rest hstr'.tail hne', hbehind rest hstr'.tail]
      · have hhead' : ∀ rest, str' ≠ c :: rest := fun rest h => hhead ⟨rest, h⟩
        rw [keyOf_setChild_of_ne hinj node₁ child' hhead', hother str' hhead']

/-- Writing the key of a marked node changes the key of its word and of no other. -/
theorem writeKeyAt_spec (hinj : Function.Injective assignIndex) {str : List TYPE} (hstr : InRange range assignIndex str)
    (key : KEY) {node found : TrieNode range KEY} (hfound : node.search assignIndex str = .ok (some found))
    (hmarked : found.marked = true) :
    ∃ node', node.writeKeyAt assignIndex key str = .ok node' ∧ node'.keyOf assignIndex str = .ok (some key) ∧
      ∀ str', InRange range assignIndex str' → str' ≠ str →
        node'.keyOf assignIndex str' = node.keyOf assignIndex str' := by
  induction str generalizing node with
  | nil =>
    obtain rfl : node = found := Option.some.inj (Except.ok.inj hfound)
    refine ⟨_, rfl, ?_, fun str' _ hne => ?_⟩
    · rw [keyOf_nil]
      exact congrArg Except.ok (if_pos hmarked)
    · cases str' with
      | nil => exact absurd rfl hne
      | cons c str' => rfl
  | cons c str ih =>
    rw [search, getChild_ok node hstr.head, ok_bind] at hfound
    cases hchild : node.children ⟨assignIndex c, hstr.head⟩ with
    | none =>
      rw [hchild] at hfound
      nomatch hfound
    | some child =>
      rw [hchild] at hfound
      have hget : node.getChild assignIndex c = .ok (some child) := by rw [getChild_ok node hstr.head, hchild]
      obtain ⟨child', hwrite, hkey, hrest⟩ := ih hstr.tail hfound
      refine ⟨node.setChild assignIndex c child', ?_, ?_, fun str' hstr' hne => ?_⟩
      · rw [writeKeyAt, hget, ok_bind]
        simp only [hwrite, ok_bind, pure_eq_ok]
      · rw [keyOf_setChild_self node child' hstr.head, hkey]
      · by_cases hhead : ∃ rest, str' = c :: rest
        · obtain ⟨rest, rfl⟩ := hhead
          have hne' : rest ≠ str := fun h => hne (by rw [h])
          rw [keyOf_setChild_self node child' hstr.head, hrest rest hstr'.tail hne', keyOf_cons_of_child rest hget]
        · exact keyOf_setChild_of_ne hinj node child' fun rest h => hhead ⟨rest, h⟩

/-- Adding a word and writing its key through the pointer that was returned: an update of the map. -/
theorem addWord_writeKey [Inhabited KEY] (hinj : Function.Injective assignIndex) {str : List TYPE} (hne : str ≠ [])
    (hstr : InRange range assignIndex str) (key : KEY) (node : TrieNode range KEY) :
    ∃ node₁ node', node.addWord assignIndex str = .ok (node₁, some str) ∧
      node₁.writeKey assignIndex key (some str) = .ok node' ∧ node'.keyOf assignIndex str = .ok (some key) ∧
      ∀ str', InRange range assignIndex str' → str' ≠ str →
        node'.keyOf assignIndex str' = node.keyOf assignIndex str' := by
  obtain ⟨node₁, hadd, ⟨found, hsearch, hmarked⟩, hrest₁⟩ := addWordLoop_spec hinj hstr node
  obtain ⟨node', hwrite, hkey, hrest⟩ := writeKeyAt_spec hinj hstr key hsearch hmarked
  refine ⟨node₁, node', ?_, hwrite, hkey, fun str' hstr' hne' => ?_⟩
  · rw [addWord, if_neg hne, hadd]
    rfl
  · rw [hrest str' hstr' hne', hrest₁ str' hstr' hne']

end NetworkingFramework.TrieNode
