import NetworkingFramework.Lib.CText
import NetworkingFramework.Lib.Loops
import NetworkingFramework.SplitStr

/-!
# Strings joined and split

Strings are found again between the delimiters when there is a character that the delimiter has once and the strings do not have.
-/

namespace NetworkingFramework

open Wire CText

/-! ## Where a string is found -/

/-- A string that is not found does not occur. -/
theorem not_infix_of_findStr {pat s : Bytes} (h : findStr pat s = none) : ¬pat <:+: s := by
  induction s with
  | nil =>
    unfold findStr at h
    intro hinfix
    rw [if_pos (List.eq_nil_of_infix_nil hinfix)] at h
    nomatch h
  | cons c s ih =>
    unfold findStr at h
    by_cases hprefix : pat.isPrefixOf (c :: s) = true
    · rw [if_pos hprefix] at h
      nomatch h
    · rw [if_neg hprefix, Option.map_eq_none_iff] at h
      intro hinfix
      rcases List.infix_cons_iff.mp hinfix with hp | hp
      · exact hprefix (List.isPrefixOf_iff_prefix.mpr hp)
      · exact ih h hp

/-- Where a string is found it begins, and it does not occur before. -/
theorem split_of_findStr {pat s : Bytes} (hne : pat ≠ []) {pos : Nat} (h : findStr pat s = some pos) :
    s = s.take pos ++ (pat ++ s.drop (pos + pat.length)) ∧ ¬pat <:+: s.take pos := by
  induction s generalizing pos with
  | nil =>
    rw [findStr, if_neg hne] at h
    nomatch h
  | cons c s ih =>
    unfold findStr at h
    by_cases hprefix : pat.isPrefixOf (c :: s) = true
    · rw [if_pos hprefix] at h
      obtain rfl := Option.some.inj h
      rw [List.take_zero, List.nil_append, Nat.zero_add]
      exact ⟨List.prefix_iff_eq_append.mp (List.isPrefixOf_iff_prefix.mp hprefix) |>.symm, fun hinfix =>
        hne (List.eq_nil_of_infix_nil hinfix)⟩
    · rw [if_neg hprefix] at h
      obtain ⟨pos, hpos, rfl⟩ := Option.map_eq_some_iff.mp h
      obtain ⟨hsplit, hfree⟩ := ih hpos
      rw [List.take_succ_cons, Nat.succ_add, List.drop_succ_cons, List.cons_append, ← hsplit]
      refine ⟨rfl, fun hinfix => ?_⟩
      -- an occurrence at the head of what is before would begin the string
      rcases List.infix_cons_iff.mp hinfix with hp | hp
      · exact hprefix (List.isPrefixOf_iff_prefix.mpr (hp.trans (List.take_prefix (pos + 1) (c :: s))))
      · exact hfree hp

/-! ## Delimiters that are recognised -/

/-- A character by which the delimiter is recognised: it is in it once, after some others. -/
structure Marks (c : UInt8) (before after : Bytes) (delimiter : Bytes) : Prop where
  split : delimiter = before ++ c :: after
  once : c ∉ before

variable {c : UInt8} {before after delimiter : Bytes}

/-- A string without the character does not have the delimiter. -/
theorem Marks.findStr_none (h : Marks c before after delimiter) {s : Bytes} (hs : c ∉ s) : findStr delimiter s = none := by
  have hmem : c ∈ delimiter := by
    rw [h.split]
    exact List.mem_append_right _ List.mem_cons_self
  induction s with
  | nil =>
    rw [findStr, if_neg (List.ne_nil_of_mem hmem)]
  | cons x s ih =>
    have hprefix : ¬delimiter.isPrefixOf (x :: s) = true := fun hp => hs ((List.isPrefixOf_iff_prefix.mp hp).subset hmem)
    rw [findStr, if_neg hprefix, ih fun hc => hs (List.mem_cons_of_mem x hc)]
    rfl

/-- The delimiter is found behind a string without the character, and not before. -/
theorem Marks.findStr_append (h : Marks c before after delimiter) {s : Bytes} (hs : c ∉ s) (rest : Bytes) :
    findStr delimiter (s ++ (delimiter ++ rest)) = some s.length := by
  induction s with
  | nil =>
    have hprefix : delimiter.isPrefixOf (delimiter ++ rest) = true := List.isPrefixOf_iff_prefix.mpr (List.prefix_append _ _)
    obtain ⟨x, xs, hcons⟩ : ∃ x xs, delimiter ++ rest = x :: xs := by
      rw [h.split]
      cases before with
      | nil => exact ⟨c, _, rfl⟩
      | cons b bs => exact ⟨b, _, rfl⟩
    rw [List.nil_append]
    rw [hcons] at hprefix ⊢
    rw [findStr, if_pos hprefix]
    rfl
  | cons x s ih =>
    have hprefix : ¬delimiter.isPrefixOf (x :: (s ++ (delimiter ++ rest))) = true := by
      intro hp
      -- the character would be among those before it
      have hat : (x :: (s ++ (delimiter ++ rest)))[before.length]? = some c := by
        obtain ⟨tail, htail⟩ := List.isPrefixOf_iff_prefix.mp hp
        rw [← htail, h.split, List.append_assoc, List.cons_append, List.getElem?_append_right (Nat.le_refl _), Nat.sub_self]
        rfl
      have hsplit : x :: (s ++ (delimiter ++ rest)) = (x :: s ++ before) ++ (c :: after ++ rest) := by
        rw [h.split]
        simp
      have hlt : before.length < (x :: s ++ before).length := by
        rw [List.length_append, List.length_cons]
        omega
      rw [hsplit, List.getElem?_append_left hlt] at hat
      rcases List.mem_append.mp (List.mem_of_getElem? hat) with hmem | hmem
      · exact hs hmem
      · exact h.once hmem
    rw [List.cons_append, findStr, if_neg hprefix, ih fun hc => hs (List.mem_cons_of_mem x hc)]
    rfl

/-- Joined strings without the character are split into these strings. -/
theorem Marks.splitStrLoop_joined (h : Marks c before after delimiter) {s : Bytes} {ss : List Bytes}
    (hs : ∀ t ∈ s :: ss, c ∉ t) (tokens : List Bytes) {fuel : Nat} (hfuel : ss.length < fuel) :
    splitStrLoop delimiter fuel tokens (joined delimiter (s :: ss)) = .ok (tokens ++ s :: ss) := by
  induction ss generalizing s tokens fuel with
  | nil =>
    obtain ⟨fuel, rfl⟩ := Nat.exists_eq_succ_of_ne_zero (Nat.ne_zero_of_lt hfuel)
    rw [joined, List.flatMap_nil, List.append_nil, splitStrLoop, h.findStr_none (hs s List.mem_cons_self)]
  | cons t ss ih =>
    obtain ⟨fuel, rfl⟩ := Nat.exists_eq_succ_of_ne_zero (Nat.ne_zero_of_lt hfuel)
    have hjoined : joined delimiter (s :: t :: ss) = s ++ (delimiter ++ joined delimiter (t :: ss)) := by
      simp [joined]
    have hrest : (s ++ (delimiter ++ joined delimiter (t :: ss))).drop (s.length + delimiter.length) =
        joined delimiter (t :: ss) := by
      rw [← List.append_assoc, ← List.length_append, List.drop_left]
    rw [hjoined, splitStrLoop, h.findStr_append (hs s List.mem_cons_self)]
    simp only [List.take_left, hrest]
    rw [ih (fun u hu => hs u (List.mem_cons_of_mem s hu)) _ (Nat.lt_of_succ_lt_succ hfuel), List.append_assoc]
    rfl

theorem Marks.computes_splitStr (h : Marks c before after delimiter) {s : Bytes} {ss : List Bytes}
    (hs : ∀ t ∈ s :: ss, c ∉ t) : Computes (splitStr (joined delimiter (s :: ss)) delimiter) (s :: ss) :=
  ⟨ss.length + 1, fun _ hle => h.splitStrLoop_joined hs [] hle⟩

theorem splitStrLoop_succ {fuel : Nat} {tokens tokens' : List Bytes} {str : Bytes}
    (hok : splitStrLoop delimiter fuel tokens str = .ok tokens') : splitStrLoop delimiter (fuel + 1) tokens str = .ok tokens' := by
  induction fuel generalizing tokens str with
  | zero => nomatch hok
  | succ fuel ih =>
    unfold splitStrLoop at hok ⊢
    cases hfind : findStr delimiter str with
    | none =>
      rw [hfind] at hok
      exact hok
    | some pos =>
      rw [hfind] at hok
      exact ih hok

theorem steady_splitStr (str delimiter : Bytes) : Steady (splitStr str delimiter) := by
  apply Steady.of_succ
  intro fuel tokens hok
  exact splitStrLoop_succ hok

/-- What is returned for joined strings without the character. -/
theorem Marks.eq_of_splitStr_ok (h : Marks c before after delimiter) {s : Bytes} {ss : List Bytes} (hs : ∀ t ∈ s :: ss, c ∉ t)
    {fuel : Nat} {tokens : List Bytes} (hok : splitStr (joined delimiter (s :: ss)) delimiter fuel = .ok tokens) :
    tokens = s :: ss :=
  (h.computes_splitStr hs).eq_of_ok (steady_splitStr _ _) hok

end NetworkingFramework
