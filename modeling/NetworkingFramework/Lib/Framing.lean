import Mathlib.Data.List.Basic
import Mathlib.Tactic.Common

/-!
# Frames in a stream

Messages sent over a stream each behind a header of its own. A reader of the stream that has been given a part of it stands
between two frames or inside the body of one (`Place`). It cannot stand inside a header: a header that the part ends in is cut
(`CutsHeader`), and where a stream is cut does not depend on the frames that are behind the reader.
-/

namespace Framing

variable {α : Type}

/-- The messages one after another, each behind its header. -/
def stream (header : List α → List α) (ms : List (List α)) : List α := (ms.map fun m => header m ++ m).flatten

/-- Where a reader of a stream stands: between two frames, or inside a body of which it has got a part. -/
inductive Place (α : Type) where
  | between
  | inside (got missing : List α)

/-- The messages that the reader has not got in full, when `ms` are those whose frames it has not begun. -/
def Place.messages : Place α → List (List α) → List (List α)
  | .between, ms => ms
  | .inside got missing, ms => (got ++ missing) :: ms

/-- What the reader has not got of the stream. -/
def Place.rest (header : List α → List α) : Place α → List (List α) → List α
  | .between, ms => stream header ms
  | .inside _ missing, ms => missing ++ stream header ms

/-- The stream is cut inside a header when it is cut `n` from its end. -/
def CutsHeader (header : List α → List α) (ms : List (List α)) (n : Nat) : Prop :=
  ∃ before m after, ms = before ++ m :: after ∧ (m ++ stream header after).length < n ∧ n < (stream header (m :: after)).length

variable (header : List α → List α)

@[simp] theorem stream_nil : stream header [] = [] := rfl

theorem stream_cons (m : List α) (ms : List (List α)) : stream header (m :: ms) = header m ++ (m ++ stream header ms) := by
  simp [stream]

theorem stream_append (ms ms' : List (List α)) : stream header (ms ++ ms') = stream header ms ++ stream header ms' := by
  simp [stream]

/-- A part of what begins with a body goes beyond the body, or ends inside it. -/
theorem beyond_or_inside {part rem body behind : List α} (h : part ++ rem = body ++ behind) :
    (∃ part', part = body ++ part' ∧ part' ++ rem = behind) ∨ ∃ left, left ≠ [] ∧ body = part ++ left ∧ rem = left ++ behind := by
  rcases List.append_eq_append_iff.mp h with ⟨left, hbody, hrem⟩ | ⟨part', hpart, hbehind⟩
  · by_cases hleft : left = []
    · subst hleft
      exact Or.inl ⟨[], by simpa using hbody.symm, by simpa using hrem⟩
    · exact Or.inr ⟨left, hleft, hbody, hrem⟩
  · exact Or.inl ⟨part', hpart, hbehind.symm⟩

/-- A stream with nothing in it has no messages, if no header is empty. -/
theorem eq_nil_of_stream_eq_nil (hheader : ∀ m, header m ≠ []) {ms : List (List α)} (h : stream header ms = []) : ms = [] := by
  cases ms with
  | nil => rfl
  | cons m ms =>
    rw [stream_cons] at h
    exact absurd (List.append_eq_nil_iff.mp h).1 (hheader m)

/-- A cut is in the header of the first frame or of a later one. -/
theorem cutsHeader_cons_iff (m : List α) (ms : List (List α)) (n : Nat) :
    CutsHeader header (m :: ms) n ↔
      ((m ++ stream header ms).length < n ∧ n < (stream header (m :: ms)).length) ∨ CutsHeader header ms n := by
  constructor
  · rintro ⟨before, m', after, heq, hcut⟩
    rcases List.cons_eq_append_iff.mp heq with ⟨rfl, hcons⟩ | ⟨before', rfl, hms⟩
    · obtain ⟨rfl, rfl⟩ := List.cons.inj hcons
      exact Or.inl hcut
    · exact Or.inr ⟨before', m', after, hms, hcut⟩
  · rintro (hcut | ⟨before, m', after, rfl, hcut⟩)
    · exact ⟨[], m, ms, rfl, hcut⟩
    · exact ⟨m :: before, m', after, rfl, hcut⟩

/-- A cut in a header lies in the stream. -/
theorem CutsHeader.lt_length {ms : List (List α)} {n : Nat} (h : CutsHeader header ms n) : n < (stream header ms).length := by
  obtain ⟨before, m, after, rfl, -, hn⟩ := h
  rw [stream_append, List.length_append]
  omega

/-- Behind the header of the first frame, a cut is in no header unless it is in a later one. -/
theorem cutsHeader_cons_of_le {m : List α} {ms : List (List α)} {n : Nat} (hn : n ≤ (m ++ stream header ms).length) :
    CutsHeader header (m :: ms) n ↔ CutsHeader header ms n := by
  rw [cutsHeader_cons_iff]
  constructor
  · rintro (⟨hlt, -⟩ | hcut)
    · exact absurd hn (Nat.not_le.mpr hlt)
    · exact hcut
  · exact Or.inr

/-- What the reader has not got begins with no cut header. -/
theorem not_cutsHeader_rest (p : Place α) (ms : List (List α)) : ¬CutsHeader header ms (p.rest header ms).length := by
  intro hcut
  have hlt := hcut.lt_length
  cases p with
  | between => exact Nat.lt_irrefl _ hlt
  | inside got missing =>
    rw [Place.rest, List.length_append] at hlt
    omega

end Framing
