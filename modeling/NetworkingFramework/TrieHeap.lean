import NetworkingFramework.Trie

/-!
# The trie in memory

`utils/trie.h` once more, with its nodes in memory and pointers between them, and with the functions that remove and that query.
The loops take the values of a word as `char`s, whatever their type, and `get_child` takes these as values again. The functions on
nodes are given first on the values that `get_child` takes, and then, for a trie of any type, on the words themselves
(`TrieTemplate`). A pointer that is null or leads to no node faults when it is followed.

The call of `count_children`, which is not declared, is read as the node's `child_count`. A deletion of a node is not modelled
beyond the pointer to it: nothing points to what it frees, nor to what it leaves behind.
-/

namespace NetworkingFramework

open Wire

/-- A pointer to a node, the place of the node in the memory. -/
abbrev NodePtr : Type := Nat

/-- `trie_node`, with pointers to its children. -/
structure TrieCell (range : Nat) (KEY : Type) where
  marked : Bool
  children : Fin range → Option NodePtr
  childCount : Nat
  key : KEY

/-- The nodes that were created, each at its address. -/
abbrev TrieHeap (range : Nat) (KEY : Type) : Type := List (TrieCell range KEY)

namespace TrieCell

variable {TYPE KEY : Type} {range : Nat}

/-- A node as it is created, with a key that nothing was written to. -/
def new [Inhabited KEY] : TrieCell range KEY := ⟨false, fun _ => none, 0, default⟩

/-- The node with the pointer at an index of `children` replaced. -/
def setChild (node : TrieCell range KEY) (i : Nat) (child : Option NodePtr) : TrieCell range KEY :=
  { node with children := fun j => if j.val = i then child else node.children j }

end TrieCell

namespace TrieHeap

variable {TYPE KEY : Type} {range : Nat}

/-- The node that a pointer leads to. -/
def node (heap : TrieHeap range KEY) (ptr : NodePtr) : Except Fault (TrieCell range KEY) :=
  match heap[ptr]? with
  | none => .error .nullPointer
  | some cell => .ok cell

/-- A new tree: one node. -/
def init [Inhabited KEY] : TrieHeap range KEY := [.new]

section Children

variable (assignIndex : TYPE → Nat) (heap : TrieHeap range KEY)

/-- `get_child`. -/
def getChild (this : NodePtr) (val : TYPE) : Except Fault (Option NodePtr) := do
  let cell ← heap.node this
  if h : assignIndex val < range then return cell.children ⟨assignIndex val, h⟩ else throw .outOfBounds

/-- `create_child`: the memory after it, and the child. -/
def createChild [Inhabited KEY] (this : NodePtr) (val : TYPE) : Except Fault (TrieHeap range KEY × NodePtr) := do
  match ← getChild assignIndex heap this val with
  | some child => return (heap, child)
  | none =>
    let cell ← heap.node this
    let child := heap.length
    let cell := { cell.setChild (assignIndex val) (some child) with childCount := cell.childCount + 1 }
    return (heap.set this cell ++ [.new], child)

/-- `remove_child`. -/
def removeChild (this : NodePtr) (val : TYPE) : Except Fault (TrieHeap range KEY) := do
  match ← getChild assignIndex heap this val with
  | none => return heap
  | some _ =>
    let cell ← heap.node this
    return heap.set this { cell.setChild (assignIndex val) none with childCount := cell.childCount - 1 }

/-! ## Words -/

/-- `search`, from a node on. -/
def search : NodePtr → List TYPE → Except Fault (Option NodePtr)
  | currNode, [] => .ok (some currNode)
  | currNode, c :: str => do
    match ← getChild assignIndex heap currNode c with
    | none => return none
    | some child => search child str

/-- The loop of `add_word`, from a node on. -/
def addWordLoop [Inhabited KEY] : TrieHeap range KEY → NodePtr → List TYPE → Except Fault (TrieHeap range KEY × NodePtr)
  | heap, currNode, [] => do
    let cell ← heap.node currNode
    return (heap.set currNode { cell with marked := true }, currNode)
  | heap, currNode, c :: str => do
    let (heap, child) ←
      match ← getChild assignIndex heap currNode c with
      | some child => Except.ok (heap, child)
      | none => createChild assignIndex heap currNode c
    addWordLoop heap child str

/-- `add_word`: the memory after it, and the pointer it returns. -/
def addWord [Inhabited KEY] (this : NodePtr) (str : List TYPE) : Except Fault (TrieHeap range KEY × Option NodePtr) :=
  if str = [] then .ok (heap, none) else do
    let (heap, found) ← addWordLoop assignIndex heap this str
    return (heap, some found)

/-- What the loop of `remove_word` ends with. -/
structure RemoveState (TYPE : Type) where
  currNode : NodePtr
  lowestAnsPar : NodePtr
  lowestAnsVal : TYPE

/-- The loop of `remove_word`. It returns nothing when the word does not exist. -/
def removeWordLoop : RemoveState TYPE → List TYPE → Except Fault (Option (RemoveState TYPE))
  | s, [] => .ok (some s)
  | s, c :: str => do
    match ← getChild assignIndex heap s.currNode c with
    | none => return none
    | some child =>
      let cell ← heap.node s.currNode
      if cell.marked ∨ cell.childCount > 1 then removeWordLoop ⟨child, s.currNode, c⟩ str
      else removeWordLoop { s with currNode := child } str

/-- `remove_word`. -/
def removeWord (this : NodePtr) : List TYPE → Except Fault (TrieHeap range KEY)
  | [] => .ok heap
  | c :: str => do
    match ← removeWordLoop assignIndex heap ⟨this, this, c⟩ (c :: str) with
    | none => return heap
    | some s =>
      let cell ← heap.node s.currNode
      if ¬cell.marked then return heap else removeChild assignIndex heap s.lowestAnsPar s.lowestAnsVal

/-- `contains_word`. -/
def containsWord (this : NodePtr) (str : List TYPE) : Except Fault Bool := do
  match ← search assignIndex heap this str with
  | none => return false
  | some found => return (← heap.node found).marked

/-- `is_prefix`. -/
def isPrefix (this : NodePtr) (str : List TYPE) : Except Fault Bool := do
  return (← search assignIndex heap this str).isSome

/-- `contains_prefix`, from a node on. -/
def containsPrefix : NodePtr → List TYPE → Except Fault Bool
  | _, [] => .ok false
  | currNode, c :: str => do
    match ← getChild assignIndex heap currNode c with
    | none => return false
    | some child => if (← heap.node child).marked then return true else containsPrefix child str

end Children

/-- A write to the key through a pointer. -/
def writeKey (heap : TrieHeap range KEY) (ptr : NodePtr) (key : KEY) : Except Fault (TrieHeap range KEY) := do
  let cell ← heap.node ptr
  return heap.set ptr { cell with key }

end TrieHeap

/-! ## Runs -/

/-- A call that adds or removes a word. -/
inductive TrieCall (TYPE : Type) where
  | addWord (str : List TYPE)
  | removeWord (str : List TYPE)
  deriving DecidableEq, Repr

/-- The word of a call. -/
def TrieCall.word {TYPE : Type} : TrieCall TYPE → List TYPE
  | addWord str | removeWord str => str

/-- A word was added and not removed since. -/
def TrieCall.Present {TYPE : Type} (calls : List (TrieCall TYPE)) (w : List TYPE) : Prop :=
  ∃ pre post, calls = pre ++ .addWord w :: post ∧ .removeWord w ∉ post

/-- The call with a function applied to the values of its word. -/
def TrieCall.map {TYPE TYPE' : Type} (f : TYPE → TYPE') : TrieCall TYPE → TrieCall TYPE'
  | addWord str => addWord (str.map f)
  | removeWord str => removeWord (str.map f)

/-- A use of a trie that only grows: a call, or a write to the key through the pointer that the last call of `add_word` with a
word returned. -/
inductive TrieUse (TYPE KEY : Type) where
  | addWord (str : List TYPE)
  | writeKey (str : List TYPE) (key : KEY)
  deriving DecidableEq, Repr

/-- The use with a function applied to the values of its word. -/
def TrieUse.map {TYPE TYPE' KEY : Type} (f : TYPE → TYPE') : TrieUse TYPE KEY → TrieUse TYPE' KEY
  | addWord str => addWord (str.map f)
  | writeKey str key => writeKey (str.map f) key

/-- The key that was written last through a pointer for a word. -/
def TrieUse.lastKey {TYPE KEY : Type} [DecidableEq TYPE] : List (TrieUse TYPE KEY) → List TYPE → Option KEY
  | [], _ => none
  | .addWord _ :: uses, w => lastKey uses w
  | .writeKey str key :: uses, w => (lastKey uses w).or (if str = w then some key else none)

/-- A trie, whose root is the first node that was created, and the pointers that `add_word` returned, the latest first. -/
structure TrieSession (TYPE : Type) (range : Nat) (KEY : Type) where
  heap : TrieHeap range KEY
  pointers : List (List TYPE × Option NodePtr)

section Runs

variable {TYPE KEY : Type} {range : Nat} [Inhabited KEY] (assignIndex : TYPE → Nat)

/-- One call. -/
def TrieHeap.call (heap : TrieHeap range KEY) : TrieCall TYPE → Except Fault (TrieHeap range KEY)
  | .addWord str => do return (← addWord assignIndex heap 0 str).1
  | .removeWord str => removeWord assignIndex heap 0 str

/-- Call after call on a new trie. -/
def TrieHeap.calls (calls : List (TrieCall TYPE)) : Except Fault (TrieHeap range KEY) :=
  calls.foldlM (TrieHeap.call assignIndex) init

variable [DecidableEq TYPE]

/-- One use. -/
def TrieSession.step (s : TrieSession TYPE range KEY) : TrieUse TYPE KEY → Except Fault (TrieSession TYPE range KEY)
  | .addWord str => do
    let (heap, ptr) ← TrieHeap.addWord assignIndex s.heap 0 str
    return ⟨heap, (str, ptr) :: s.pointers⟩
  | .writeKey str key => do
    match s.pointers.lookup str with
    | some (some ptr) => return { s with heap := ← s.heap.writeKey ptr key }
    | _ => throw .nullPointer

/-- Use after use of a new trie. -/
def TrieSession.run (uses : List (TrieUse TYPE KEY)) : Except Fault (TrieSession TYPE range KEY) :=
  uses.foldlM (TrieSession.step assignIndex) ⟨.init, []⟩

end Runs

/-! ## Words of any type -/

/-- What a trie is made with: a type, its conversions from and to `char`, and `ASSIGN_INDEX`. -/
structure TrieTemplate (TYPE : Type) where
  toChar : TYPE → UInt8
  ofChar : UInt8 → TYPE
  assignIndex : TYPE → Nat

namespace TrieTemplate

variable {TYPE KEY : Type} {range : Nat} (T : TrieTemplate TYPE)

/-- What becomes of a value that `for (char c: str)` takes and `get_child` or `remove_child` gets. -/
def narrow (val : TYPE) : TYPE := T.ofChar (T.toChar val)

section Words

variable (heap : TrieHeap range KEY) (this : NodePtr) (str : List TYPE)

/-- `search`. -/
def search : Except Fault (Option NodePtr) := heap.search T.assignIndex this (str.map T.narrow)

/-- `add_word`. -/
def addWord [Inhabited KEY] : Except Fault (TrieHeap range KEY × Option NodePtr) :=
  heap.addWord T.assignIndex this (str.map T.narrow)

/-- `remove_word`, which keeps the value of `lowest_ans_val` in a `char` too. -/
def removeWord : Except Fault (TrieHeap range KEY) := heap.removeWord T.assignIndex this (str.map T.narrow)

/-- `contains_word`. -/
def containsWord : Except Fault Bool := heap.containsWord T.assignIndex this (str.map T.narrow)

/-- `is_prefix`. -/
def isPrefix : Except Fault Bool := heap.isPrefix T.assignIndex this (str.map T.narrow)

/-- `contains_prefix`. -/
def containsPrefix : Except Fault Bool := heap.containsPrefix T.assignIndex this (str.map T.narrow)

end Words

variable [Inhabited KEY]

/-- One call. -/
def call (heap : TrieHeap range KEY) : TrieCall TYPE → Except Fault (TrieHeap range KEY)
  | .addWord str => do return (← T.addWord heap 0 str).1
  | .removeWord str => T.removeWord heap 0 str

/-- Call after call on a new trie. -/
def calls (calls : List (TrieCall TYPE)) : Except Fault (TrieHeap range KEY) := calls.foldlM T.call .init

variable [DecidableEq TYPE]

/-- One use. -/
def step (s : TrieSession TYPE range KEY) : TrieUse TYPE KEY → Except Fault (TrieSession TYPE range KEY)
  | .addWord str => do
    let (heap, ptr) ← T.addWord s.heap 0 str
    return ⟨heap, (str, ptr) :: s.pointers⟩
  | .writeKey str key => do
    match s.pointers.lookup str with
    | some (some ptr) => return { s with heap := ← s.heap.writeKey ptr key }
    | _ => throw .nullPointer

/-- Use after use of a new trie. -/
def run (uses : List (TrieUse TYPE KEY)) : Except Fault (TrieSession TYPE range KEY) := uses.foldlM T.step ⟨.init, []⟩

end TrieTemplate
end NetworkingFramework
