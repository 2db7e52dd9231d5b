import Mathlib.Data.List.Infix
import Mathlib.Data.Set.Insert

/-!
# Prefix trees

A tree whose nodes are named by the lists that lead to them from the root, each with a label. A tree grows along a word, the label
of a node is updated, and a subtree is pruned. The words of a tree are the nodes whose label is marked; a tree is tight when every
node but the root leads to a word.
-/

/-- The labels of the nodes. A node's parent is a node. -/
@[ext] structure PrefixTree (α β : Type) where
  label : List α → Option β
  closed : ∀ p c, (label (p ++ [c])).isSome → (label p).isSome

namespace PrefixTree

variable {α β : Type}

/-- The nodes. -/
def paths (t : PrefixTree α β) : Set (List α) := {p | (t.label p).isSome}

/-- The nodes with a marked label. -/
def words (marked : β → Prop) (t : PrefixTree α β) : Set (List α) := {w | ∃ b, t.label w = some b ∧ marked b}

open scoped Classical in
/-- The tree with a node for each prefix of a word. A new node gets the label that is given. -/
noncomputable def grow (t : PrefixTree α β) (w : List α) (b : β) : PrefixTree α β where
  label p := if p <+: w then some ((t.label p).getD b) else t.label p
  closed p c h := by
    by_cases hp : p <+: w
    · rw [if_pos hp]
      rfl
    · have hpc : ¬p ++ [c] <+: w := fun h' => hp ((List.prefix_append p [c]).trans h')
      rw [if_neg hpc] at h
      rw [if_neg hp]
      exact t.closed p c h

open scoped Classical in
/-- The tree with the label of one node updated. -/
noncomputable def update (t : PrefixTree α β) (w : List α) (f : β → β) : PrefixTree α β where
  label p := if p = w then (t.label p).map f else t.label p
  closed p c h := by
    have hsome : (t.label (p ++ [c])).isSome := by
      split at h
      · rwa [Option.isSome_map] at h
      · exact h
    have hclosed := t.closed p c hsome
    split
    · rwa [Option.isSome_map]
    · exact hclosed

open scoped Classical in
/-- The tree without the nodes at and below a path. -/
noncomputable def prune (t : PrefixTree α β) (q : List α) : PrefixTree α β where
  label p := if q <+: p then none else t.label p
  closed p c h := by
    have hpc : ¬q <+: p ++ [c] := by
      intro hq
      rw [if_pos hq] at h
      cases h
    have hp : ¬q <+: p := fun hq => hpc (hq.trans (List.prefix_append p [c]))
    rw [if_neg hpc] at h
    rw [if_neg hp]
    exact t.closed p c h

variable {t : PrefixTree α β} {p q w : List α} {b : β} {marked : β → Prop}

/-! ## Nodes -/

/-- The nodes are closed under prefixes. -/
theorem mem_paths_of_begins (h : p <+: q) (hq : q ∈ t.paths) : p ∈ t.paths := by
  obtain ⟨s, rfl⟩ := h
  induction s using List.reverseRecOn with
  | nil => rwa [List.append_nil] at hq
  | append_singleton s c ih =>
    rw [← List.append_assoc] at hq
    exact ih (t.closed _ c hq)

theorem label_eq_none_iff : t.label p = none ↔ p ∉ t.paths := by
  simp [paths]

theorem label_grow_of_begins (h : p <+: w) : (t.grow w b).label p = some ((t.label p).getD b) := if_pos h

theorem label_grow_of_not_begins (h : ¬p <+: w) : (t.grow w b).label p = t.label p := if_neg h

theorem label_update_self (f : β → β) : (t.update w f).label w = (t.label w).map f := if_pos rfl

theorem label_update_ne (f : β → β) (h : p ≠ w) : (t.update w f).label p = t.label p := if_neg h

theorem label_prune_of_begins (h : q <+: p) : (t.prune q).label p = none := if_pos h

theorem label_prune_of_not_begins (h : ¬q <+: p) : (t.prune q).label p = t.label p := if_neg h

@[simp] theorem mem_paths_grow : p ∈ (t.grow w b).paths ↔ p <+: w ∨ p ∈ t.paths := by
  by_cases h : p <+: w
  · simp [paths, label_grow_of_begins h, h]
  · simp [paths, label_grow_of_not_begins h, h]

@[simp] theorem mem_paths_update (f : β → β) : p ∈ (t.update w f).paths ↔ p ∈ t.paths := by
  by_cases h : p = w
  · subst h
    simp [paths, label_update_self]
  · simp [paths, label_update_ne f h]

@[simp] theorem mem_paths_prune : p ∈ (t.prune q).paths ↔ p ∈ t.paths ∧ ¬q <+: p := by
  by_cases h : q <+: p
  · simp [paths, label_prune_of_begins h, h]
  · simp [paths, label_prune_of_not_begins h, h]

/-- Growing along a word after growing along a prefix of it. -/
theorem grow_grow (h : p <+: w) : (t.grow p b).grow w b = t.grow w b := by
  ext1
  funext q
  by_cases hw : q <+: w
  · rw [label_grow_of_begins hw, label_grow_of_begins hw]
    by_cases hp : q <+: p
    · rw [label_grow_of_begins hp]
      rfl
    · rw [label_grow_of_not_begins hp]
  · have hp : ¬q <+: p := fun hq => hw (hq.trans h)
    rw [label_grow_of_not_begins hw, label_grow_of_not_begins hw, label_grow_of_not_begins hp]

/-- Growing along a word whose prefixes are nodes. -/
theorem grow_of_mem (h : w ∈ t.paths) : t.grow w b = t := by
  ext1
  funext p
  by_cases hp : p <+: w
  · obtain ⟨l, hl⟩ := Option.isSome_iff_exists.mp (mem_paths_of_begins hp h)
    rw [label_grow_of_begins hp, hl, Option.getD_some]
  · exact label_grow_of_not_begins hp

/-! ## Words -/

theorem mem_words_iff : w ∈ t.words marked ↔ ∃ b, t.label w = some b ∧ marked b := Iff.rfl

theorem words_subset_paths (h : w ∈ t.words marked) : w ∈ t.paths := by
  obtain ⟨b, hb, -⟩ := h
  simp [paths, hb]

/-- Growing with a label that is not marked adds no word. -/
theorem words_grow (hb : ¬marked b) : (t.grow w b).words marked = t.words marked := by
  ext p
  by_cases h : p <+: w
  · rw [mem_words_iff, mem_words_iff, label_grow_of_begins h]
    cases t.label p <;> simp [hb]
  · rw [mem_words_iff, mem_words_iff, label_grow_of_not_begins h]

/-- Marking a node adds its word. -/
theorem words_update_mark {f : β → β} (hf : ∀ b, marked (f b)) (h : w ∈ t.paths) :
    (t.update w f).words marked = insert w (t.words marked) := by
  obtain ⟨l, hl⟩ := Option.isSome_iff_exists.mp h
  ext p
  by_cases hp : p = w
  · subst hp
    simp [mem_words_iff, label_update_self, hl, hf]
  · simp [mem_words_iff, label_update_ne f hp, hp]

/-- An update that leaves the mark changes no word. -/
theorem words_update_keep {f : β → β} (hf : ∀ b, marked (f b) ↔ marked b) : (t.update w f).words marked = t.words marked := by
  ext p
  by_cases hp : p = w
  · subst hp
    cases hl : t.label p <;> simp [mem_words_iff, label_update_self, hl, hf]
  · rw [mem_words_iff, mem_words_iff, label_update_ne f hp]

@[simp] theorem mem_words_prune {v : List α} : v ∈ (t.prune q).words marked ↔ v ∈ t.words marked ∧ ¬q <+: v := by
  by_cases h : q <+: v
  · simp [mem_words_iff, label_prune_of_begins h, h]
  · simp [mem_words_iff, label_prune_of_not_begins h, h]

/-! ## Tight trees -/

/-- Every node but the root leads to a word. -/
def Tight (marked : β → Prop) (t : PrefixTree α β) : Prop := ∀ p ∈ t.paths, p = [] ∨ ∃ w ∈ t.words marked, p <+: w

/-- The nodes of a tight tree are the prefixes of its words. -/
theorem Tight.mem_paths_iff (h : t.Tight marked) (hne : p ≠ []) : p ∈ t.paths ↔ ∃ w ∈ t.words marked, p <+: w := by
  constructor
  · intro hp
    exact (h p hp).resolve_left hne
  · intro hw
    obtain ⟨w, hw, hpre⟩ := hw
    exact mem_paths_of_begins hpre (words_subset_paths hw)

/-- A tree to which a word was added is tight. -/
theorem Tight.grow_mark (h : t.Tight marked) {f : β → β} (hb : ¬marked b) (hf : ∀ b, marked (f b)) :
    ((t.grow w b).update w f).Tight marked := by
  have hw : w ∈ (t.grow w b).paths := mem_paths_grow.mpr (.inl (List.prefix_refl w))
  intro p hp
  rw [words_update_mark hf hw, words_grow hb]
  rw [mem_paths_update, mem_paths_grow] at hp
  rcases hp with hp | hp
  · exact .inr ⟨w, Set.mem_insert w _, hp⟩
  · refine (h p hp).imp_right fun hv => ?_
    obtain ⟨v, hv, hpre⟩ := hv
    exact ⟨v, Set.mem_insert_of_mem w hv, hpre⟩

/-- A tree in which labels were updated without their marks is tight. -/
theorem Tight.update_keep (h : t.Tight marked) {f : β → β} (hf : ∀ b, marked (f b) ↔ marked b) :
    (t.update w f).Tight marked := by
  intro p hp
  rw [mem_paths_update] at hp
  rw [words_update_keep hf]
  exact h p hp

/-- Nothing branches off, and no word ends, between a path and a word below it. -/
def Chain (marked : β → Prop) (t : PrefixTree α β) (q w : List α) : Prop :=
  ∀ p, q <+: p → p <+: w → p ≠ w → p ∉ t.words marked ∧ ∀ c, p ++ [c] ∈ t.paths → p ++ [c] <+: w

/-- Below the start of a chain there are only the words that its end leads to. -/
theorem Chain.prefix_of_mem_words (h : t.Chain marked q w) (hqw : q <+: w) {v : List α} (hv : v ∈ t.words marked)
    (hqv : q <+: v) : w <+: v := by
  -- the prefixes of `v` between `q` and `w` are prefixes of `w`, and `v` is none of them
  have hchain : ∀ s, q ++ s <+: v → q ++ s <+: w ∨ w <+: q ++ s := by
    intro s
    induction s using List.reverseRecOn with
    | nil => exact fun _ => .inl (by rwa [List.append_nil])
    | append_singleton s c ih =>
      intro hs
      rw [← List.append_assoc] at hs ⊢
      have hs' := (List.prefix_append (q ++ s) [c]).trans hs
      rcases ih hs' with hw | hw
      · by_cases heq : q ++ s = w
        · rw [heq]
          exact .inr (List.prefix_append w [c])
        · have hpath := mem_paths_of_begins hs (words_subset_paths hv)
          exact .inl ((h (q ++ s) (List.prefix_append q s) hw heq).2 c hpath)
      · exact .inr (hw.trans (List.prefix_append (q ++ s) [c]))
  obtain ⟨s, rfl⟩ := hqv
  rcases hchain s (List.prefix_refl _) with hw | hw
  · by_cases heq : q ++ s = w
    · rw [heq]
    · exact absurd hv (h (q ++ s) (List.prefix_append q s) hw heq).1
  · exact hw

/-- Pruning the start of a chain removes the words that its end leads to. -/
theorem Chain.words_prune (h : t.Chain marked q w) (hqw : q <+: w) :
    (t.prune q).words marked = {v | v ∈ t.words marked ∧ ¬w <+: v} := by
  ext v
  rw [mem_words_prune]
  exact and_congr_right fun hv => not_congr ⟨fun hqv => h.prefix_of_mem_words hqw hv hqv, fun hwv => hqw.trans hwv⟩

/-- Pruning a child of the root, of a word or of a branching keeps a tree tight. -/
theorem Tight.prune_child (h : t.Tight marked) {u : List α} {c : α}
    (hu : u = [] ∨ u ∈ t.words marked ∨ ∃ d, d ≠ c ∧ u ++ [d] ∈ t.paths) : (t.prune (u ++ [c])).Tight marked := by
  have hself : ¬u ++ [c] <+: u := fun hpre => absurd hpre.length_le (by simp)
  intro p hp
  rw [mem_paths_prune] at hp
  obtain ⟨hp, hpc⟩ := hp
  rcases h p hp with rfl | ⟨v, hv, hpv⟩
  · exact .inl rfl
  · by_cases hcv : u ++ [c] <+: v
    · -- `p` leads to a word that is removed, so it lies on the way to `u`
      have hpu : p <+: u := by
        have hle : p.length ≤ u.length := by
          refine Nat.le_of_not_lt fun hlt => hpc (List.prefix_of_prefix_length_le hcv hpv ?_)
          rw [List.length_append, List.length_singleton]
          exact hlt
        exact List.prefix_of_prefix_length_le hpv ((List.prefix_append u [c]).trans hcv) hle
      rcases hu with rfl | hu | ⟨d, hdc, hd⟩
      · exact .inl (List.prefix_nil.mp hpu)
      · exact .inr ⟨u, mem_words_prune.mpr ⟨hu, hself⟩, hpu⟩
      · obtain ⟨v', hv', hdv'⟩ := (h _ hd).resolve_left (by simp)
        refine .inr ⟨v', mem_words_prune.mpr ⟨hv', fun hcv' => hdc ?_⟩, hpu.trans ((List.prefix_append u [d]).trans hdv')⟩
        have heq := (List.prefix_of_prefix_length_le hdv' hcv' (by simp)).eq_of_length (by simp)
        simpa using heq
    · exact .inr ⟨v, mem_words_prune.mpr ⟨hv, hcv⟩, hpv⟩

end PrefixTree
