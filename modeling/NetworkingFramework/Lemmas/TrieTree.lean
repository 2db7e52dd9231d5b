import NetworkingFramework.Lemmas.TrieRuns

/-!
# The trie as a tree of prefixes

The paths of a trie that is given by its nodes are a prefix tree too. Adding a word and writing a key do to it what they do to the
trie in memory (`run_tree`), and a search faults when it reaches a value whose index lies outside the array (`search_cases`).
-/

namespace NetworkingFramework

open Wire

variable {TYPE KEY : Type} {range : Nat}

namespace TrieNode

open TrieHeap (withWord newLabel markLabel)

section

variable (assignIndex : TYPE → Nat)

/-- The child of a value, when its index lies in the array. -/
def child (node : TrieNode range KEY) (c : TYPE) : Option (TrieNode range KEY) :=
  if h : assignIndex c < range then node.children ⟨assignIndex c, h⟩ else none

/-- The node that a path leads to. -/
def nodeAt : TrieNode range KEY → List TYPE → Option (TrieNode range KEY)
  | node, [] => some node
  | node, c :: str => (node.child assignIndex c).bind fun child => nodeAt child str

end

variable {assignIndex : TYPE → Nat} {node node' : TrieNode range KEY} {c : TYPE} {str p : List TYPE}

theorem nodeAt_append (node : TrieNode range KEY) (p q : List TYPE) :
    nodeAt assignIndex node (p ++ q) = (nodeAt assignIndex node p).bind fun n => nodeAt assignIndex n q := by
  induction p generalizing node with
  | nil => rfl
  | cons c p ih =>
    rw [List.cons_append, nodeAt, nodeAt, Option.bind_assoc]
    exact Option.bind_congr fun child _ => ih child

/-- The paths that lead to nodes, labelled with the marks and keys. -/
def tree (assignIndex : TYPE → Nat) (node : TrieNode range KEY) : PrefixTree TYPE (Bool × KEY) where
  label p := (nodeAt assignIndex node p).map fun n => (n.marked, n.key)
  closed p c h := by
    rw [Option.isSome_map, nodeAt_append] at h
    rw [Option.isSome_map]
    cases hp : nodeAt assignIndex node p with
    | none => simp [hp] at h
    | some n => rfl

theorem label_nil : (tree assignIndex node).label [] = some (node.marked, node.key) := rfl

theorem label_cons (node : TrieNode range KEY) (c : TYPE) (p : List TYPE) : (tree assignIndex node).label (c :: p) =
    (node.child assignIndex c).bind fun child => (tree assignIndex child).label p := by
  simp only [tree, nodeAt, Option.map_bind]
  rfl

theorem mem_paths_iff : p ∈ (tree assignIndex node).paths ↔ ∃ n, nodeAt assignIndex node p = some n := by
  simp [PrefixTree.paths, tree, Option.isSome_iff_exists]

theorem label_new_cons [Inhabited KEY] : (tree assignIndex (new : TrieNode range KEY)).label (c :: p) = none := by
  rw [label_cons]
  have hnone : (new : TrieNode range KEY).child assignIndex c = none := by
    unfold child new
    split <;> rfl
  rw [hnone, Option.bind_none]

theorem getChild_eq_child (hc : assignIndex c < range) : node.getChild assignIndex c = .ok (node.child assignIndex c) := by
  rw [getChild_ok node hc, child, dif_pos hc]

/-! ## Searching -/

/-- A search reaches a value whose index lies outside the array, or ends where the path leads to. -/
theorem search_cases (node : TrieNode range KEY) (str : List TYPE) :
    ((∃ pre c post, str = pre ++ c :: post ∧ range ≤ assignIndex c ∧ pre ∈ (tree assignIndex node).paths) ∧
      node.search assignIndex str = .error .outOfBounds) ∨
    ((∀ pre c post, str = pre ++ c :: post → range ≤ assignIndex c → pre ∉ (tree assignIndex node).paths) ∧
      node.search assignIndex str = .ok (nodeAt assignIndex node str)) := by
  induction str generalizing node with
  | nil => exact .inr ⟨fun pre c post heq => absurd heq (by simp), rfl⟩
  | cons c str ih =>
    by_cases hc : assignIndex c < range
    · rw [search, getChild_eq_child hc, ok_bind, nodeAt]
      cases hchild : node.child assignIndex c with
      | none =>
        refine .inr ⟨fun pre d post heq hd hpre => ?_, rfl⟩
        rcases List.cons_eq_append_iff.mp heq with ⟨rfl, hcons⟩ | ⟨pre, rfl, -⟩
        · obtain rfl : d = c := (List.cons.inj hcons).1
          omega
        · rw [mem_paths_iff, nodeAt, hchild] at hpre
          obtain ⟨_, hpre⟩ := hpre
          cases hpre
      | some child =>
        have hbehind : ∀ pre, c :: pre ∈ (tree assignIndex node).paths ↔ pre ∈ (tree assignIndex child).paths := by
          intro pre
          rw [mem_paths_iff, mem_paths_iff, nodeAt, hchild, Option.bind_some]
        rcases ih child with ⟨⟨pre, d, post, rfl, hd, hpre⟩, hsearch⟩ | ⟨hno, hsearch⟩
        · exact .inl ⟨⟨c :: pre, d, post, rfl, hd, (hbehind pre).mpr hpre⟩, hsearch⟩
        · refine .inr ⟨fun pre d post heq hd hpre => ?_, hsearch⟩
          rcases List.cons_eq_append_iff.mp heq with ⟨rfl, hcons⟩ | ⟨pre, rfl, hrest⟩
          · obtain rfl : d = c := (List.cons.inj hcons).1
            omega
          · exact hno pre d post hrest hd ((hbehind pre).mp hpre)
    · refine .inl ⟨⟨[], c, str, rfl, Nat.le_of_not_lt hc, mem_paths_iff.mpr ⟨node, rfl⟩⟩, ?_⟩
      rw [search, getChild, dif_neg hc]
      rfl

/-! ## Adding and writing -/

theorem child_setChild_self {child' : TrieNode range KEY} (hc : assignIndex c < range) :
    (node.setChild assignIndex c child').child assignIndex c = some child' := by
  rw [child, dif_pos hc]
  exact if_pos rfl

theorem child_setChild_ne (hinj : Function.Injective assignIndex) {child' : TrieNode range KEY} {d : TYPE} (hne : d ≠ c) :
    (node.setChild assignIndex c child').child assignIndex d = node.child assignIndex d := by
  have hidx : assignIndex d ≠ assignIndex c := fun h => hne (hinj h)
  unfold child
  split
  · exact if_neg hidx
  · rfl

/-- The label of the node at a word, and of the nodes before it, after the word was added. -/
theorem label_withWord_eq [Inhabited KEY] (t : PrefixTree TYPE (Bool × KEY)) (str : List TYPE) :
    (withWord t str).label str = some (markLabel ((t.label str).getD newLabel)) ∧
    (∀ p, p <+: str → p ≠ str → (withWord t str).label p = some ((t.label p).getD newLabel)) ∧
    ∀ p, ¬p <+: str → (withWord t str).label p = t.label p := by
  refine ⟨?_, fun p hpre hne => ?_, fun p hpre => ?_⟩
  · rw [withWord, PrefixTree.label_update_self, PrefixTree.label_grow_of_begins (List.prefix_refl str), Option.map_some]
  · rw [withWord, PrefixTree.label_update_ne _ hne, PrefixTree.label_grow_of_begins hpre]
  · have hne : p ≠ str := fun heq => hpre (heq ▸ List.prefix_refl p)
    rw [withWord, PrefixTree.label_update_ne _ hne, PrefixTree.label_grow_of_not_begins hpre]

/-- A tree to which a word is added, seen from a child of the root. -/
theorem label_withWord_cons [Inhabited KEY] {t t' : PrefixTree TYPE (Bool × KEY)}
    (h : ∀ p, (t.label (c :: p)).getD newLabel = (t'.label p).getD newLabel ∧ (p ≠ [] → t.label (c :: p) = t'.label p))
    (p : List TYPE) : (withWord t (c :: str)).label (c :: p) = (withWord t' str).label p := by
  obtain ⟨hself, hbefore, hother⟩ := label_withWord_eq t (c :: str)
  obtain ⟨hself', hbefore', hother'⟩ := label_withWord_eq t' str
  have hpre : c :: p <+: c :: str ↔ p <+: str := by simp
  by_cases hp : p <+: str
  · by_cases heq : p = str
    · subst heq
      rw [hself, hself', (h p).1]
    · rw [hbefore _ (hpre.mpr hp) (fun heq' => heq (List.cons.inj heq').2), hbefore' p hp heq, (h p).1]
  · have hne : p ≠ [] := fun hnil => hp (hnil ▸ List.nil_prefix)
    rw [hother _ (mt hpre.mp hp), hother' p hp, (h p).2 hne]

/-- `createChild` when the child is there or not. -/
theorem createChild_cases [Inhabited KEY] (hc : assignIndex c < range) :
    ∃ node' child', node.createChild assignIndex c = .ok (node', child') ∧ node'.marked = node.marked ∧ node'.key = node.key ∧
      (∀ n, node'.setChild assignIndex c n = { node.setChild assignIndex c n with childCount := node'.childCount }) ∧
      (node.child assignIndex c = some child' ∨ (node.child assignIndex c = none ∧ child' = new)) := by
  rw [createChild, getChild_eq_child hc, ok_bind]
  cases hchild : node.child assignIndex c with
  | some child' => exact ⟨node, child', rfl, rfl, rfl, fun _ => rfl, .inl rfl⟩
  | none =>
    refine ⟨_, new, rfl, rfl, rfl, fun n => ?_, .inr ⟨rfl, rfl⟩⟩
    simp only [setChild, mk.injEq, true_and, and_true]
    funext i
    by_cases hi : i.val = assignIndex c <;> simp [hi]

/-- The loop of `add_word` adds the word. -/
theorem addWordLoop_tree [Inhabited KEY] (hinj : Function.Injective assignIndex) (hstr : InRange range assignIndex str)
    (node : TrieNode range KEY) : ∃ node', node.addWordLoop assignIndex str = .ok node' ∧
      tree assignIndex node' = withWord (tree assignIndex node) str := by
  induction str generalizing node with
  | nil =>
    refine ⟨_, rfl, ?_⟩
    ext1
    funext p
    obtain ⟨hself, -, hother⟩ := label_withWord_eq (tree assignIndex node) []
    cases p with
    | nil => rw [hself, label_nil, label_nil]; rfl
    | cons c p => rw [hother _ (by simp), label_cons, label_cons]; rfl
  | cons c str ih =>
    obtain ⟨node₁, child', hcreate, hmarked, hkey, hset, hchild⟩ := @createChild_cases _ _ _ _ node c _ hstr.head
    obtain ⟨child'', hadd, htree⟩ := ih hstr.tail child'
    refine ⟨node₁.setChild assignIndex c child'', ?_, ?_⟩
    · rw [addWordLoop_cons, hcreate, ok_bind]
      simp only [hadd, ok_bind, pure_eq_ok]
    · ext1
      funext p
      obtain ⟨-, hbefore, hother⟩ := label_withWord_eq (tree assignIndex node) (c :: str)
      cases p with
      | nil =>
        rw [hbefore [] List.nil_prefix (List.cons_ne_nil c str).symm, label_nil, label_nil, Option.getD_some]
        simp only [setChild, hmarked, hkey]
      | cons d p =>
        by_cases hd : d = c
        · subst hd
          rw [label_cons, child_setChild_self hstr.head, Option.bind_some, htree]
          refine (label_withWord_cons (fun q => ?_) p).symm
          rw [label_cons]
          rcases hchild with hchild | ⟨hnone, rfl⟩
          · rw [hchild]
            exact ⟨rfl, fun _ => rfl⟩
          · rw [hnone, Option.bind_none]
            cases q with
            | nil => exact ⟨rfl, fun h => absurd rfl h⟩
            | cons e q => rw [label_new_cons]; exact ⟨rfl, fun _ => rfl⟩
        · have hpre : ¬d :: p <+: c :: str := fun h => hd (List.cons_prefix_cons.mp h).1
          rw [hother _ hpre, label_cons, label_cons, hset]
          have hother' := @child_setChild_ne _ _ _ assignIndex node c hinj child'' d hd
          exact congrArg (fun n : Option (TrieNode range KEY) => n.bind fun child => (tree assignIndex child).label p) hother'

/-- A write to the key of a node. -/
theorem writeKeyAt_tree (hinj : Function.Injective assignIndex) (hstr : InRange range assignIndex str) (key : KEY)
    (hpath : str ∈ (tree assignIndex node).paths) : ∃ node', node.writeKeyAt assignIndex key str = .ok node' ∧
      tree assignIndex node' = (tree assignIndex node).update str fun label => (label.1, key) := by
  induction str generalizing node with
  | nil =>
    refine ⟨_, rfl, ?_⟩
    ext1
    funext p
    cases p with
    | nil => rw [PrefixTree.label_update_self, label_nil, label_nil]; rfl
    | cons c p => rw [PrefixTree.label_update_ne _ (List.cons_ne_nil c p), label_cons, label_cons]; rfl
  | cons c str ih =>
    rw [mem_paths_iff, nodeAt] at hpath
    obtain ⟨n, hn⟩ := hpath
    obtain ⟨child', hchild, hn⟩ := Option.bind_eq_some_iff.mp hn
    obtain ⟨child'', hwrite, htree⟩ := ih hstr.tail (mem_paths_iff.mpr ⟨n, hn⟩)
    refine ⟨node.setChild assignIndex c child'', ?_, ?_⟩
    · rw [writeKeyAt, getChild_eq_child hstr.head, hchild, ok_bind]
      simp only [hwrite, ok_bind, pure_eq_ok]
    · ext1
      funext p
      cases p with
      | nil => rw [PrefixTree.label_update_ne _ (List.cons_ne_nil c str).symm, label_nil, label_nil]; rfl
      | cons d p =>
        by_cases hd : d = c
        · subst hd
          rw [label_cons, child_setChild_self hstr.head, Option.bind_some, htree]
          by_cases hp : p = str
          · subst hp
            rw [PrefixTree.label_update_self, PrefixTree.label_update_self, label_cons, hchild, Option.bind_some]
          · have hne : d :: p ≠ d :: str := fun h => hp (List.cons.inj h).2
            rw [PrefixTree.label_update_ne _ hp, PrefixTree.label_update_ne _ hne, label_cons, hchild, Option.bind_some]
        · have hne : d :: p ≠ c :: str := fun h => hd (List.cons.inj h).1
          rw [PrefixTree.label_update_ne _ hne, label_cons, label_cons, child_setChild_ne hinj hd]

/-! ## Uses -/

section Uses

variable [Inhabited KEY]

/-- One use of a trie given by its nodes, where the pointer that `add_word` returns is the word. -/
def use (assignIndex : TYPE → Nat) (node : TrieNode range KEY) : TrieUse TYPE KEY → Except Fault (TrieNode range KEY)
  | .addWord str => do return (← node.addWord assignIndex str).1
  | .writeKey str key => node.writeKey assignIndex key (some str)

/-- The trie in memory and the trie given by its nodes have the same paths, marks and keys after any uses with words that have
indexes, as the ASCII names of a `dns_database` do. -/
theorem use_represents [DecidableEq TYPE] (hinj : Function.Injective assignIndex) {uses : List (TrieUse TYPE KEY)}
    (hrange : ∀ str, .addWord str ∈ uses → InRange range assignIndex str) (hne : ∀ str, .addWord str ∈ uses → str ≠ [])
    (hheld : TrieSession.Held uses) :
    ∃ (s : TrieSession TYPE range KEY) (node : TrieNode range KEY), TrieSession.run assignIndex uses = .ok s ∧
      uses.foldlM (use assignIndex) new = .ok node ∧ TrieHeap.tree assignIndex s.heap 0 = tree assignIndex node := by
  induction uses using List.reverseRecOn with
  | nil =>
    refine ⟨_, _, rfl, rfl, ?_⟩
    ext1
    funext p
    cases p with
    | nil => rfl
    | cons c p => rw [label_new_cons, TrieHeap.init_tree]; rfl
  | append_singleton uses u ih =>
    have hrange' : ∀ str, .addWord str ∈ uses → InRange range assignIndex str := fun str hmem =>
      hrange str (List.mem_append_left _ hmem)
    have hne' : ∀ str, .addWord str ∈ uses → str ≠ [] := fun str hmem => hne str (List.mem_append_left _ hmem)
    have hheld' : TrieSession.Held uses := fun pre str key post heq => hheld pre str key (post ++ [u]) (by simp [heq])
    obtain ⟨s, node, hrun, huses, htree⟩ := ih hrange' hne' hheld'
    obtain ⟨s₁, hrun₁, hs⟩ := @TrieSession.run_spec _ _ range _ _ assignIndex _ hinj hrange' hne' hheld'
    obtain rfl := Except.ok.inj (hrun.symm.trans hrun₁)
    have hnext : ∃ s' node', s.step assignIndex u = .ok s' ∧ node.use assignIndex u = .ok node' ∧
        TrieHeap.tree assignIndex s'.heap 0 = tree assignIndex node' := by
      cases u with
      | addWord str =>
        have hnonempty := hne str (by simp)
        have hstr := hrange str (by simp)
        obtain ⟨heap', found, hadd, -, -, -, htree'⟩ := TrieHeap.addWord_spec hinj hnonempty hstr hs.intact
        obtain ⟨node', hadd', htree''⟩ := addWordLoop_tree hinj hstr node
        refine ⟨⟨heap', (str, some found) :: s.pointers⟩, node', ?_, ?_, ?_⟩
        · rw [TrieSession.step, hadd]
          rfl
        · rw [use, addWord, if_neg hnonempty, hadd']
          rfl
        · rw [htree', htree'', htree]
      | writeKey str key =>
        have hadded := hheld uses str key [] rfl
        obtain ⟨ptr, hlookup⟩ := hs.returned str hadded
        obtain ⟨found, rfl, hwalk⟩ := hs.held str ptr (TrieSession.mem_of_lookup hlookup)
        obtain ⟨heap', hwrite, -, -, htree'⟩ := TrieHeap.writeKey_spec hs.intact hwalk key
        have hpath : str ∈ (tree assignIndex node).paths := by
          rw [← htree]
          exact PrefixTree.words_subset_paths ((hs.words str).mpr hadded)
        obtain ⟨node', hwrite', htree''⟩ := writeKeyAt_tree hinj (hrange str (List.mem_append_left _ hadded)) key hpath
        refine ⟨{ s with heap := heap' }, node', ?_, hwrite', ?_⟩
        · simp only [TrieSession.step, hlookup, hwrite, ok_bind, pure_eq_ok]
        · rw [htree', htree'', htree]
    obtain ⟨s', node', hstep, huse, htree'⟩ := hnext
    refine ⟨s', node', ?_, ?_, htree'⟩
    · rw [TrieSession.run, List.foldlM_append, ← TrieSession.run, hrun]
      simp only [ok_bind, List.foldlM_cons, hstep, List.foldlM_nil, pure_eq_ok]
    · rw [List.foldlM_append, huses]
      simp only [ok_bind, List.foldlM_cons, huse, List.foldlM_nil, pure_eq_ok]

end Uses

end TrieNode
end NetworkingFramework
