import NetworkingFramework.Lib.Wire

/-!
# The trie

`utils/trie.h`: a tree of nodes with an array of `range` children each, which an index function assigns to the values of a word.
Nothing checks that an index lies in the array. A pointer to a node, as `add_word` returns it, is the path to the node.
-/

namespace NetworkingFramework

open Wire

/-- `trie_node`. -/
structure TrieNode (range : Nat) (KEY : Type) where
  marked : Bool
  children : Fin range → Option (TrieNode range KEY)
  childCount : Nat
  key : KEY

namespace TrieNode

variable {TYPE KEY : Type} {range : Nat}

/-- A node as it is created, with a key that nothing was written to. -/
def new [Inhabited KEY] : TrieNode range KEY := ⟨false, fun _ => none, 0, default⟩

section Children

variable (assignIndex : TYPE → Nat)

/-- `get_child`. -/
def getChild (node : TrieNode range KEY) (val : TYPE) : Except Fault (Option (TrieNode range KEY)) :=
  if h : assignIndex val < range then .ok (node.children ⟨assignIndex val, h⟩) else .error .outOfBounds

/-- The node after its child at an index was replaced or changed. -/
def setChild (node : TrieNode range KEY) (val : TYPE) (child : TrieNode range KEY) : TrieNode range KEY :=
  { node with children := fun i => if i.val = assignIndex val then some child else node.children i }

/-- `create_child`: the node after it, and the child. -/
def createChild [Inhabited KEY] (node : TrieNode range KEY) (val : TYPE) :
    Except Fault (TrieNode range KEY × TrieNode range KEY) := do
  match ← node.getChild assignIndex val with
  | some child => return (node, child)
  | none => return ({ node.setChild assignIndex val new with childCount := node.childCount + 1 }, new)

/-! ## Words -/

/-- `search`. -/
def search : TrieNode range KEY → List TYPE → Except Fault (Option (TrieNode range KEY))
  | node, [] => .ok (some node)
  | node, c :: str => do
    match ← node.getChild assignIndex c with
    | none => return none
    | some child => search child str

/-- The loop of `add_word`. -/
def addWordLoop [Inhabited KEY] : TrieNode range KEY → List TYPE → Except Fault (TrieNode range KEY)
  | node, [] => .ok { node with marked := true }
  | node, c :: str => do
    let (node, child) ←
      match ← node.getChild assignIndex c with
      | some child => Except.ok (node, child)
      | none => node.createChild assignIndex c
    return node.setChild assignIndex c (← addWordLoop child str)

/-- `add_word`: the trie after it, and the pointer it returns. -/
def addWord [Inhabited KEY] (node : TrieNode range KEY) (str : List TYPE) :
    Except Fault (TrieNode range KEY × Option (List TYPE)) :=
  if str = [] then .ok (node, none) else do return (← node.addWordLoop assignIndex str, some str)

/-- The trie after a write to the key of the node at a path. -/
def writeKeyAt (key : KEY) : TrieNode range KEY → List TYPE → Except Fault (TrieNode range KEY)
  | node, [] => .ok { node with key }
  | node, c :: path => do
    match ← node.getChild assignIndex c with
    | none => throw .nullPointer
    | some child => return node.setChild assignIndex c (← writeKeyAt key child path)

/-- A write to the key through a pointer. -/
def writeKey (node : TrieNode range KEY) (key : KEY) : Option (List TYPE) → Except Fault (TrieNode range KEY)
  | none => .error .nullPointer
  | some path => node.writeKeyAt assignIndex key path

end Children
end TrieNode
end NetworkingFramework
