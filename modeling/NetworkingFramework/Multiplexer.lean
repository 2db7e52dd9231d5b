import Mathlib.Data.List.FinRange
import Mathlib.Logic.Function.Basic
import NetworkingFramework.Lib.Runs

/-!
# The multiplexer

`utils/multiplexer.h`: handlers with requirements on the components of a tuple, and the tuples streamed to them. A handler is
found in the pool through the values that it requires. Its counter of the requirements met is not reset when a tuple comes, but
when the handler is met for the first time under the tuple's `unique_id`.

A call that reads outside of the pool leads nowhere.
-/

namespace NetworkingFramework

/-- `handler`. An `array_id` is a `size_t`. -/
structure Handler (D : Type) where
  lastId : UInt64 := 0
  noReqs : Nat := 0
  reqsSatisfied : Nat := 0
  data : D

/-- `multiplexer`, over the types that its tuples are made of. A key that a map does not have has no indexes. -/
structure Multiplexer (D : Type) {n : Nat} (T : Fin n → Type) where
  uniqueId : UInt64 := 1
  handlersPool : List (Handler D) := []
  maps : ∀ i, T i → List Nat := fun _ _ => []

/-- A call of a `multiplexer`. -/
inductive MultiplexerCall (D : Type) {n : Nat} (T : Fin n → Type) where
  | appendNewEmptyHandler (data : D)
  | addRequirementToLastHandler (i : Fin n) (val : T i)
  | streamArray (arr : ∀ i, T i)

namespace Multiplexer

variable {D : Type} {n : Nat} {T : Fin n → Type}

/-- `append_new_empty_handler`. -/
def appendNewEmptyHandler (m : Multiplexer D T) (data : D) : Multiplexer D T :=
  { m with handlersPool := m.handlersPool ++ [{ data }] }

/-- `add_requirement_to_last_handler<i>`. -/
def addRequirementToLastHandler [∀ i, DecidableEq (T i)] (m : Multiplexer D T) (i : Fin n) (val : T i) :
    Option (Multiplexer D T) :=
  let last := m.handlersPool.length - 1
  match m.handlersPool[last]? with
  | none => none
  | some handler => some { m with
      handlersPool := m.handlersPool.set last { handler with noReqs := handler.noReqs + 1 }
      maps := Function.update m.maps i (Function.update (m.maps i) val (m.maps i val ++ [last])) }

/-- A handler that is met: its counter is reset if it was last met under another id, and then incremented. -/
def meet (uniqueId : UInt64) (handler : Handler D) : Handler D :=
  let handler := if handler.lastId ≠ uniqueId then { handler with lastId := uniqueId, reqsSatisfied := 0 } else handler
  { handler with reqsSatisfied := handler.reqsSatisfied + 1 }

/-- The body of the loop of `rec_stream_array`, on the pool and on `stream_res`. -/
def meetHandler (uniqueId : UInt64) (state : List (Handler D) × List D) (handlerIn : Nat) :
    Option (List (Handler D) × List D) :=
  match state.1[handlerIn]? with
  | none => none
  | some handler =>
    let currHandler := meet uniqueId handler
    some (state.1.set handlerIn currHandler,
      if currHandler.reqsSatisfied = currHandler.noReqs then state.2 ++ [currHandler.data] else state.2)

/-- `rec_stream_array` for the indexes that are left. -/
def recStreamArray (uniqueId : UInt64) (maps : ∀ i, T i → List Nat) (arr : ∀ i, T i) (state : List (Handler D) × List D) :
    List (Fin n) → Option (List (Handler D) × List D)
  | [] => some state
  | currIndex :: rest => do
    let state ← (maps currIndex (arr currIndex)).foldlM (meetHandler uniqueId) state
    recStreamArray uniqueId maps arr state rest

/-- `stream_array`. -/
def streamArray (m : Multiplexer D T) (arr : ∀ i, T i) : Option (List D × Multiplexer D T) := do
  let uniqueId := m.uniqueId + 1
  let (handlersPool, streamRes) ← recStreamArray uniqueId m.maps arr (m.handlersPool, []) (List.finRange n)
  return (streamRes, { m with uniqueId, handlersPool })

/-- The multiplexer after a call. -/
def step [∀ i, DecidableEq (T i)] (m : Multiplexer D T) : MultiplexerCall D T → Option (Multiplexer D T)
  | .appendNewEmptyHandler data => some (m.appendNewEmptyHandler data)
  | .addRequirementToLastHandler i val => m.addRequirementToLastHandler i val
  | .streamArray arr => (m.streamArray arr).map Prod.snd

end Multiplexer

/-! ## What a multiplexer is for -/

/-- A handler as it was registered: its data, and the values required. -/
abbrev Registered (D : Type) {n : Nat} (T : Fin n → Type) := D × List (Sigma T)

namespace Registered

variable {D : Type} {n : Nat} {T : Fin n → Type}

/-- The tuple meets all the requirements, of which there is at least one. -/
def Satisfied (r : Registered D T) (arr : ∀ i, T i) : Prop := r.2 ≠ [] ∧ ∀ req ∈ r.2, arr req.1 = req.2

instance [∀ i, DecidableEq (T i)] (r : Registered D T) (arr : ∀ i, T i) : Decidable (r.Satisfied arr) :=
  inferInstanceAs (Decidable (_ ∧ _))

/-- A call registers a handler, or a requirement of the last. -/
def register (rs : List (Registered D T)) : MultiplexerCall D T → List (Registered D T)
  | .appendNewEmptyHandler data => rs ++ [(data, [])]
  | .addRequirementToLastHandler i val => rs.modify (rs.length - 1) fun r => (r.1, r.2 ++ [⟨i, val⟩])
  | .streamArray _ => rs

/-- The data of the handlers that a tuple satisfies. -/
def satisfiedData [∀ i, DecidableEq (T i)] (rs : List (Registered D T)) (arr : ∀ i, T i) : List D :=
  (rs.filter fun r => r.Satisfied arr).map Prod.fst

end Registered

/-- No requirement comes before the first handler. -/
def MultiplexerCall.HandlerFirst {D : Type} {n : Nat} {T : Fin n → Type} : List (MultiplexerCall D T) → Prop
  | [] => True
  | .appendNewEmptyHandler _ :: _ => True
  | .addRequirementToLastHandler _ _ :: _ => False
  | .streamArray _ :: calls => HandlerFirst calls

/-- How many tuples some calls stream. -/
def MultiplexerCall.streams {D : Type} {n : Nat} {T : Fin n → Type} : List (MultiplexerCall D T) → Nat
  | [] => 0
  | .streamArray _ :: calls => streams calls + 1
  | _ :: calls => streams calls

end NetworkingFramework
