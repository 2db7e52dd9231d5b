import NetworkingFramework.Lib.Reader

/-!
# Filtered receivers

The `connect_recv` of the protocols with a source and a destination install the same kind of receiver: the header is
extracted, the data behind it copied, and both go on when each filter that is given has the header's value.
-/

namespace NetworkingFramework

open Wire Wire.Decoder

/-- The value a filter asks for, where it asks for one, is the header's. -/
def Accepts {α : Type} (filter : Option α) (x : α) : Prop := ∀ y ∈ filter, x = y

instance {α : Type} [DecidableEq α] (filter : Option α) (x : α) : Decidable (Accepts filter x) :=
  inferInstanceAs (Decidable (∀ y ∈ filter, x = y))

/-- The receiver of a `connect_recv`. The size of the header is the number of bytes its extraction consumes. -/
def recvFiltered {H : Type} (extract : Decoder H) (accepts : H → Prop) [DecidablePred accepts] (data : Bytes) :
    Except Fault (List (H × Bytes)) := do
  let (header, headerSz) ← extract.run data 0
  let encapData ← suffixFrom data headerSz
  if accepts header then return [(header, encapData)]
  else return []

/-- The same, where the size of the header is an `int` that need not be its size. -/
def recvFilteredInt {H : Type} (extract : Reader H) (accepts : H → Prop) [DecidablePred accepts] (data : Bytes) :
    Except Fault (List (H × Bytes)) := do
  let (header, headerSz) ← extract.run data 0
  let encapData ← suffixFromInt data headerSz
  if accepts header then return [(header, encapData)]
  else return []

@[simp] theorem accepts_none {α : Type} (x : α) : Accepts none x := fun _ h => nomatch h

@[simp] theorem accepts_some {α : Type} (x y : α) : Accepts (some y) x ↔ x = y :=
  ⟨fun h => h y rfl, fun h _ hy => h.trans (Option.some.inj hy)⟩

/-- The receiver on a header that round trips and the data behind it. -/
theorem recvFiltered_eq {H : Type} {extract : Decoder H} {w : Bytes} {header : H} (hw : RoundTrips extract w header)
    (accepts : H → Prop) [DecidablePred accepts] (data : Bytes) :
    recvFiltered extract accepts (w ++ data) = .ok (if accepts header then [(header, data)] else []) := by
  have hrun : extract.run (w ++ data) 0 = .ok (header, w.length) := hw [] data
  rw [recvFiltered, hrun]
  by_cases h : accepts header
  · simp [h]
  · simp [h]

theorem recvFilteredInt_eq {H : Type} {extract : Reader H} {w : Bytes} {header : H} (hw : extract.RoundTrips w header)
    (accepts : H → Prop) [DecidablePred accepts] (data : Bytes) :
    recvFilteredInt extract accepts (w ++ data) = .ok (if accepts header then [(header, data)] else []) := by
  rw [recvFilteredInt, hw.run_append data]
  by_cases h : accepts header
  · simp [h]
  · simp [h]

end NetworkingFramework
