import NetworkingFramework.Lemmas.SplitStr

/-!
# Tokens of a string

What `split_str` returns for any string and any delimiter that is not empty.
-/

namespace NetworkingFramework

open Wire CText

/-- The tokens of a string: the delimiter is in none of them, and it joins them to the string. -/
structure SplitsInto (delimiter str : Bytes) (tokens : List Bytes) : Prop where
  ne_nil : tokens ≠ []
  free : ∀ token ∈ tokens, ¬delimiter <:+: token
  joined : joined delimiter tokens = str

/-- A string without the delimiter is its only token. -/
theorem SplitsInto.single {delimiter str : Bytes} (h : ¬delimiter <:+: str) : SplitsInto delimiter str [str] where
  ne_nil := List.cons_ne_nil _ _
  free token htoken := by
    rw [List.mem_singleton.mp htoken]
    exact h
  joined := List.append_nil str

/-- One more token, and the delimiter behind it. -/
theorem SplitsInto.cons {delimiter token rest : Bytes} {tokens : List Bytes} (h : ¬delimiter <:+: token)
    (hrest : SplitsInto delimiter rest tokens) : SplitsInto delimiter (token ++ (delimiter ++ rest)) (token :: tokens) where
  ne_nil := List.cons_ne_nil _ _
  free := List.forall_mem_cons.mpr ⟨h, hrest.free⟩
  joined := by
    obtain ⟨t, ts, rfl⟩ := List.exists_cons_of_ne_nil hrest.ne_nil
    rw [← hrest.joined]
    simp [CText.joined]

/-- The loop ends after fewer rounds than the string has characters, and pushes its tokens. By induction on the length of the
string: each round erases a delimiter at least. -/
theorem exists_tokens {delimiter : Bytes} (hne : delimiter ≠ []) (str : Bytes) :
    ∃ found, SplitsInto delimiter str found ∧
      ∀ tokens fuel, str.length < fuel → splitStrLoop delimiter fuel tokens str = .ok (tokens ++ found) := by
  induction hlen : str.length using Nat.strongRecOn generalizing str with
  | ind n ih =>
    cases hfind : findStr delimiter str with
    | none =>
      refine ⟨[str], .single (not_infix_of_findStr hfind), fun tokens fuel hfuel => ?_⟩
      obtain ⟨fuel, rfl⟩ := Nat.exists_eq_succ_of_ne_zero (Nat.ne_zero_of_lt hfuel)
      rw [splitStrLoop, hfind]
    | some pos =>
      obtain ⟨hsplit, hfree⟩ := split_of_findStr hne hfind
      have hshorter : (str.drop (pos + delimiter.length)).length < n := by
        have hlength := congrArg List.length hsplit
        have hpos := List.length_pos_of_ne_nil hne
        rw [List.length_append, List.length_append] at hlength
        omega
      obtain ⟨found, hfound, hloop⟩ := ih _ hshorter _ rfl
      refine ⟨str.take pos :: found, ?_, fun tokens fuel hfuel => ?_⟩
      · have hcons := SplitsInto.cons hfree hfound
        rwa [← hsplit] at hcons
      · obtain ⟨fuel, rfl⟩ := Nat.exists_eq_succ_of_ne_zero (Nat.ne_zero_of_lt hfuel)
        rw [splitStrLoop, hfind]
        simp only
        rw [hloop _ _ (by omega), List.append_assoc]
        rfl

/-- `split_str` ends, and returns tokens of the string. -/
theorem splitStr_exact (s : Bytes) {d : Bytes} (hne : d ≠ []) :
    ∃ tokens, Computes (splitStr s d) tokens ∧ SplitsInto d s tokens := by
  obtain ⟨tokens, htokens, hloop⟩ := exists_tokens hne s
  exact ⟨tokens, ⟨s.length + 1, fun fuel hle => hloop [] fuel hle⟩, htokens⟩

theorem splitStr_exact_overlapping : ([1, 1] : Bytes) ≠ [] ∧
    ∃ tokens, Computes (splitStr [1, 1, 1, 2, 1] [1, 1]) tokens ∧ SplitsInto [1, 1] [1, 1, 1, 2, 1] tokens :=
  ⟨by decide, splitStr_exact [1, 1, 1, 2, 1] (by decide)⟩

end NetworkingFramework
