import Mathlib.Data.List.Nodup

/-!
# Demultiplexing by source

A demultiplexer keeps one session for each source it has heard from, numbered in the order of their first packets, and gives
every payload to the session of its source. `route` says what such a demultiplexer does with each packet of a sequence;
`openEach` is the machine that opens a session for every packet. The two agree exactly on sequences whose packets all have
different sources.
-/

namespace Demux

variable {κ π : Type}

/-- What the handling of one packet came to: the sources that sessions were opened for, and the payloads that were given to
sessions, with the numbers of these sessions. -/
structure Outcome (κ π : Type) where
  opened : List κ
  delivered : List (Nat × π)
  deriving DecidableEq, Repr

/-- What a demultiplexer does with each packet, when it has sessions for the sources in `known`, in this order. -/
def route [DecidableEq κ] (known : List κ) : List (κ × π) → List (Outcome κ π)
  | [] => []
  | (source, payload) :: packets =>
    if source ∈ known then ⟨[], [(known.idxOf source, payload)]⟩ :: route known packets
    else ⟨[source], [(known.length, payload)]⟩ :: route (known ++ [source]) packets

/-- A new session for every packet, `n` of them being open. -/
def openEach (n : Nat) : List (κ × π) → List (Outcome κ π)
  | [] => []
  | (source, payload) :: packets => ⟨[source], [(n, payload)]⟩ :: openEach (n + 1) packets

/-- A demultiplexer gives each payload to one session. -/
theorem length_delivered_of_mem_route [DecidableEq κ] {known : List κ} {packets : List (κ × π)} {out : Outcome κ π}
    (h : out ∈ route known packets) : out.delivered.length = 1 := by
  induction packets generalizing known with
  | nil => exact absurd h List.not_mem_nil
  | cons packet packets ih =>
    unfold route at h
    split at h
    · rcases List.mem_cons.mp h with rfl | h
      · rfl
      · exact ih h
    · rcases List.mem_cons.mp h with rfl | h
      · rfl
      · exact ih h

/-- Opening a session for every packet is demultiplexing when no source comes twice, and only then. -/
theorem openEach_eq_route_iff [DecidableEq κ] (known : List κ) (packets : List (κ × π)) :
    openEach known.length packets = route known packets ↔
      (packets.map Prod.fst).Nodup ∧ ∀ source ∈ packets.map Prod.fst, source ∉ known := by
  induction packets generalizing known with
  | nil => simp [openEach, route]
  | cons packet packets ih =>
    obtain ⟨source, payload⟩ := packet
    rw [openEach, route, List.map_cons, List.nodup_cons]
    by_cases hknown : source ∈ known
    · rw [if_pos hknown]
      constructor
      · intro h
        nomatch congrArg Outcome.opened (List.cons.inj h).1
      · intro h
        rcases h with ⟨-, hnew⟩
        exact absurd hknown (hnew source List.mem_cons_self)
    · have hlen : known.length + 1 = (known ++ [source]).length := by simp
      rw [if_neg hknown, List.cons.injEq, hlen, ih]
      simp only [true_and, List.mem_append, List.mem_singleton, not_or, List.forall_mem_cons]
      constructor
      · intro h
        rcases h with ⟨hnodup, hnew⟩
        exact ⟨⟨fun h => (hnew source h).2 rfl, hnodup⟩, hknown, fun s hs => (hnew s hs).1⟩
      · intro h
        rcases h with ⟨⟨hfresh, hnodup⟩, -, hnew⟩
        exact ⟨hnodup, fun s hs => ⟨hnew s hs, fun h => hfresh (h ▸ hs)⟩⟩

end Demux
