import NetworkingFramework.Lemmas.TrieWords

/-!
# Runs of a trie

The words after any calls of `add_word` and `remove_word` on a new trie: a removal takes with it every word that the removed one is
a prefix of (`calls_spec`). When words are only added, each keeps its node and the key that was written last to it (`run_spec`).
-/

namespace NetworkingFramework

open Wire

variable {TYPE KEY : Type} {range : Nat}

/-! ## Words that are present -/

namespace TrieCall

variable {calls : List (TrieCall TYPE)} {s w : List TYPE}

theorem not_present_nil : ¬Present ([] : List (TrieCall TYPE)) w := by
  intro h
  obtain ⟨pre, post, heq, -⟩ := h
  exact absurd heq (by simp)

/-- What the last call does to a word that was added before it. -/
theorem present_concat_iff {c : TrieCall TYPE} :
    Present (calls ++ [c]) w ↔ c = .addWord w ∨ (Present calls w ∧ c ≠ .removeWord w) := by
  constructor
  · intro h
    obtain ⟨pre, post, heq, hpost⟩ := h
    rcases List.eq_nil_or_concat post with rfl | ⟨post, x, rfl⟩
    · have hlast := (List.append_inj' heq rfl).2
      exact .inl (List.singleton_inj.mp hlast)
    · rw [List.concat_eq_append, ← List.cons_append, ← List.append_assoc] at heq
      obtain ⟨hcalls, hlast⟩ := List.append_inj' heq rfl
      obtain rfl := List.singleton_inj.mp hlast
      simp only [List.concat_eq_append, List.mem_append, List.mem_singleton, not_or] at hpost
      exact .inr ⟨⟨pre, post, hcalls, hpost.1⟩, Ne.symm hpost.2⟩
  · intro h
    rcases h with rfl | ⟨⟨pre, post, rfl, hpost⟩, hc⟩
    · exact ⟨calls, [], rfl, List.not_mem_nil⟩
    · refine ⟨pre, post ++ [c], by simp, ?_⟩
      simp only [List.mem_append, List.mem_singleton, not_or]
      exact ⟨hpost, Ne.symm hc⟩

end TrieCall

namespace TrieHeap

open TrieNode (InRange)

/-- The words after a call. -/
def wordsAfter (words : Set (List TYPE)) : TrieCall TYPE → Set (List TYPE)
  | .addWord str => insert str words
  | .removeWord str => {v | v ∈ words ∧ ¬(str ∈ words ∧ str <+: v)}

/-! ## Calls -/

section Calls

variable [Inhabited KEY] {assignIndex : TYPE → Nat} (hinj : Function.Injective assignIndex)
  (hrange : ∀ c, assignIndex c < range)

/-- What holds of a trie between calls. -/
structure Kept (assignIndex : TYPE → Nat) (heap : TrieHeap range KEY) : Prop where
  intact : Intact assignIndex heap 0
  tight : (tree assignIndex heap 0).Tight Marked
  root : [] ∉ (tree assignIndex heap 0).words Marked

theorem init_kept : Kept assignIndex (init : TrieHeap range KEY) := by
  refine ⟨init_intact, fun p hp => ?_, ?_⟩
  · cases p with
    | nil => exact .inl rfl
    | cons c p => simp [PrefixTree.paths, init_tree] at hp
  · simp [PrefixTree.mem_words_iff, init_tree, not_marked_newLabel]

theorem init_words : (tree assignIndex (init : TrieHeap range KEY) 0).words Marked = ∅ := by
  ext w
  cases w with
  | nil => simp [PrefixTree.mem_words_iff, init_tree, not_marked_newLabel]
  | cons c w => simp [PrefixTree.mem_words_iff, init_tree]

include hinj hrange

/-- What one call does. -/
theorem Kept.call {heap : TrieHeap range KEY} (h : Kept assignIndex heap) (c : TrieCall TYPE) (hne : c.word ≠ []) :
    ∃ heap', heap.call assignIndex c = .ok heap' ∧ Kept assignIndex heap' ∧
      (tree assignIndex heap' 0).words Marked = wordsAfter ((tree assignIndex heap 0).words Marked) c := by
  have hstr : ∀ str, InRange range assignIndex str := fun str c _ => hrange c
  cases c with
  | addWord str =>
    have hne : str ≠ [] := hne
    obtain ⟨heap', found, hadd, hintact, -, -, htree⟩ := addWord_spec hinj hne (hstr str) h.intact
    have hwords : (tree assignIndex heap' 0).words Marked = insert str ((tree assignIndex heap 0).words Marked) := by
      rw [htree, words_withWord]
    refine ⟨heap', ?_, ⟨hintact, ?_, ?_⟩, hwords⟩
    · rw [TrieHeap.call, hadd]
      rfl
    · rw [htree]
      exact h.tight.grow_mark not_marked_newLabel marked_markLabel
    · rw [hwords]
      exact fun hmem => (Set.mem_insert_iff.mp hmem).elim (fun heq => hne heq.symm) h.root
  | removeWord str =>
    have hne : str ≠ [] := hne
    rcases removeWord_spec hinj h.intact h.tight hne (hstr str) with
      ⟨hword, hremove⟩ | ⟨hword, heap', hremove, hintact, htight, hwords⟩
    · refine ⟨heap, hremove, h, ?_⟩
      ext v
      simp [wordsAfter, hword]
    · refine ⟨heap', hremove, ⟨hintact, htight, ?_⟩, ?_⟩
      · rw [hwords]
        exact fun hmem => h.root hmem.1
      · rw [hwords]
        ext v
        simp [wordsAfter, hword]

/-- What any calls on a new trie do. -/
theorem calls_spec {calls : List (TrieCall TYPE)} (hne : ∀ c ∈ calls, c.word ≠ []) :
    ∃ heap : TrieHeap range KEY, TrieHeap.calls assignIndex calls = .ok heap ∧ Kept assignIndex heap ∧
      (tree assignIndex heap 0).words Marked = calls.foldl wordsAfter ∅ := by
  induction calls using List.reverseRecOn with
  | nil => exact ⟨init, rfl, init_kept, init_words⟩
  | append_singleton calls c ih =>
    obtain ⟨heap, hcalls, hkept, hwords⟩ := ih fun c hc => hne c (List.mem_append_left _ hc)
    obtain ⟨heap', hcall, hkept', hwords'⟩ := hkept.call hinj hrange c (hne c (by simp))
    refine ⟨heap', ?_, hkept', ?_⟩
    · rw [TrieHeap.calls, List.foldlM_append, ← TrieHeap.calls, hcalls]
      simp only [ok_bind, List.foldlM_cons, hcall, List.foldlM_nil, pure_eq_ok]
    · rw [hwords', hwords, List.foldl_append, List.foldl_cons, List.foldl_nil]

end Calls
end TrieHeap

/-! ## Uses -/

namespace TrieUse

/-- The words that were added, as a function makes them. -/
theorem mem_map_addWord_iff {TYPE' : Type} {f : TYPE → TYPE'} {uses : List (TrieUse TYPE KEY)} {x : List TYPE'} :
    .addWord x ∈ uses.map (TrieUse.map f) ↔ ∃ w, .addWord w ∈ uses ∧ w.map f = x := by
  rw [List.mem_map]
  constructor
  · rintro ⟨u, hu, heq⟩
    cases u with
    | addWord w => exact ⟨w, hu, TrieUse.addWord.inj heq⟩
    | writeKey w key => cases heq
  · rintro ⟨w, hw, rfl⟩
    exact ⟨.addWord w, hw, rfl⟩

variable [DecidableEq TYPE] {uses : List (TrieUse TYPE KEY)} {str w : List TYPE} {key : KEY}

theorem lastKey_append (uses uses' : List (TrieUse TYPE KEY)) (w : List TYPE) :
    lastKey (uses ++ uses') w = (lastKey uses' w).or (lastKey uses w) := by
  induction uses with
  | nil => simp [lastKey]
  | cons u uses ih => cases u <;> simp [lastKey, ih, Option.or_assoc]

@[simp] theorem lastKey_concat_addWord : lastKey (uses ++ [.addWord str]) w = lastKey uses w := by
  simp [lastKey_append, lastKey]

theorem lastKey_concat_writeKey_self : lastKey (uses ++ [.writeKey w key]) w = some key := by
  simp [lastKey_append, lastKey]

theorem lastKey_concat_writeKey_ne (hne : str ≠ w) : lastKey (uses ++ [.writeKey str key]) w = lastKey uses w := by
  simp [lastKey_append, lastKey, hne]

/-- A function that tells the values apart tells the words apart that keys are written for. -/
theorem lastKey_map {TYPE' : Type} [DecidableEq TYPE'] {f : TYPE → TYPE'} (hf : Function.Injective f)
    (uses : List (TrieUse TYPE KEY)) (w : List TYPE) : lastKey (uses.map (TrieUse.map f)) (w.map f) = lastKey uses w := by
  induction uses with
  | nil => rfl
  | cons u uses ih =>
    cases u with
    | addWord str => exact ih
    | writeKey str key => simp only [List.map_cons, TrieUse.map, lastKey, ih, (List.map_injective_iff.mpr hf).eq_iff]

end TrieUse

namespace TrieSession

open TrieHeap
open TrieNode (InRange)

variable [Inhabited KEY] [DecidableEq TYPE] {assignIndex : TYPE → Nat} {uses : List (TrieUse TYPE KEY)}
  {s : TrieSession TYPE range KEY} {str : List TYPE}

/-- What holds after some uses: the words are those added, a node's key is the last that was written to it, and each pointer that
was returned leads to the node of its word. -/
structure Grown (assignIndex : TYPE → Nat) (uses : List (TrieUse TYPE KEY)) (s : TrieSession TYPE range KEY) : Prop where
  intact : Intact assignIndex s.heap 0
  tight : (tree assignIndex s.heap 0).Tight Marked
  words : ∀ w, w ∈ (tree assignIndex s.heap 0).words Marked ↔ .addWord w ∈ uses
  keys : ∀ p label, (tree assignIndex s.heap 0).label p = some label → label.2 = (TrieUse.lastKey uses p).getD default
  unwritten : ∀ p, .addWord p ∉ uses → TrieUse.lastKey uses p = none
  held : ∀ w ptr, (w, ptr) ∈ s.pointers → ∃ found, ptr = some found ∧ walk assignIndex s.heap 0 w = some found
  returned : ∀ w, .addWord w ∈ uses → ∃ ptr, s.pointers.lookup w = some ptr

theorem init_grown : Grown assignIndex ([] : List (TrieUse TYPE KEY)) (⟨.init, []⟩ : TrieSession TYPE range KEY) := by
  refine ⟨init_intact, init_kept.tight, fun w => ?_, fun p label hlabel => ?_, fun _ _ => rfl, fun _ _ h => ?_, fun _ h => ?_⟩
  · rw [init_words]
    simp
  · rw [init_tree] at hlabel
    split at hlabel
    · obtain rfl := Option.some.inj hlabel
      rfl
    · cases hlabel
  · cases h
  · cases h

theorem mem_of_lookup {w : List TYPE} {ptr : Option NodePtr} {pointers : List (List TYPE × Option NodePtr)}
    (h : pointers.lookup w = some ptr) : (w, ptr) ∈ pointers := by
  obtain ⟨l₁, l₂, rfl, -⟩ := List.lookup_eq_some_iff.mp h
  simp

variable (hinj : Function.Injective assignIndex)

include hinj in
/-- A word added. -/
theorem Grown.addWord (h : Grown assignIndex uses s) (hne : str ≠ []) (hstr : InRange range assignIndex str) :
    ∃ s', s.step assignIndex (.addWord str) = .ok s' ∧ Grown assignIndex (uses ++ [.addWord str]) s' := by
  obtain ⟨heap', found, hadd, hintact, hwalk, hkeeps, htree⟩ := addWord_spec hinj hne hstr h.intact
  refine ⟨⟨heap', (str, some found) :: s.pointers⟩, ?_, hintact, ?_, fun w => ?_, fun p label hlabel => ?_, fun p hp => ?_,
    fun w ptr hmem => ?_, fun w hw => ?_⟩
  · rw [step, hadd]
    rfl
  · rw [htree]
    exact h.tight.grow_mark not_marked_newLabel marked_markLabel
  · rw [htree, words_withWord, Set.mem_insert_iff, h.words]
    simp [or_comm]
  · rw [TrieUse.lastKey_concat_addWord]
    rw [htree] at hlabel
    rcases label_withWord hlabel with ⟨hnew, hkey⟩ | ⟨old, hold, hkey⟩
    · -- nothing was written to a node that was not there
      have hadded : .addWord p ∉ uses := by
        rw [← h.words]
        intro hword
        exact PrefixTree.label_eq_none_iff.mp hnew (PrefixTree.words_subset_paths hword)
      rw [hkey, h.unwritten p hadded]
      rfl
    · rw [hkey, h.keys p old hold]
  · rw [TrieUse.lastKey_concat_addWord]
    exact h.unwritten p fun hmem => hp (List.mem_append_left _ hmem)
  · rcases List.mem_cons.mp hmem with heq | hmem
    · obtain ⟨rfl, rfl⟩ := Prod.mk.inj heq
      exact ⟨found, rfl, hwalk⟩
    · obtain ⟨b, rfl, hb⟩ := h.held w ptr hmem
      exact ⟨b, rfl, hkeeps w b hb⟩
  · by_cases heq : w = str
    · subst heq
      exact ⟨some found, by simp⟩
    · have hold : .addWord w ∈ uses := by simpa [heq] using hw
      obtain ⟨ptr, hptr⟩ := h.returned w hold
      exact ⟨ptr, by rw [List.lookup_cons, beq_false_of_ne heq]; exact hptr⟩

/-- A key written. -/
theorem Grown.writeKey (h : Grown assignIndex uses s) (hadded : .addWord str ∈ uses) (key : KEY) :
    ∃ s', s.step assignIndex (.writeKey str key) = .ok s' ∧ Grown assignIndex (uses ++ [.writeKey str key]) s' := by
  obtain ⟨ptr, hlookup⟩ := h.returned str hadded
  obtain ⟨found, rfl, hwalk⟩ := h.held str ptr (mem_of_lookup hlookup)
  obtain ⟨heap', hwrite, hintact, hkeeps, htree⟩ := writeKey_spec h.intact hwalk key
  have hmarks : ∀ label : Bool × KEY, Marked (label.1, key) ↔ Marked label := fun _ => Iff.rfl
  refine ⟨{ s with heap := heap' }, ?_, hintact, ?_, fun w => ?_, fun p label hlabel => ?_, fun p hp => ?_, fun w b hmem => ?_,
    fun w hw => ?_⟩
  · simp only [step, hlookup, hwrite, ok_bind, pure_eq_ok]
  · rw [htree]
    exact h.tight.update_keep hmarks
  · rw [htree, PrefixTree.words_update_keep hmarks, h.words]
    simp
  · rw [htree] at hlabel
    by_cases hp : p = str
    · subst hp
      rw [PrefixTree.label_update_self, Option.map_eq_some_iff] at hlabel
      obtain ⟨old, -, rfl⟩ := hlabel
      rw [TrieUse.lastKey_concat_writeKey_self]
      rfl
    · rw [PrefixTree.label_update_ne _ hp] at hlabel
      rw [TrieUse.lastKey_concat_writeKey_ne (Ne.symm hp)]
      exact h.keys p label hlabel
  · have hp' : .addWord p ∉ uses := fun hmem => hp (List.mem_append_left _ hmem)
    have hne : str ≠ p := fun heq => hp' (heq ▸ hadded)
    rw [TrieUse.lastKey_concat_writeKey_ne hne]
    exact h.unwritten p hp'
  · obtain ⟨found', rfl, hfound'⟩ := h.held w b hmem
    exact ⟨found', rfl, hkeeps w found' hfound'⟩
  · exact h.returned w (by simpa using hw)

/-- The keys are written through pointers that were returned. -/
def Held (uses : List (TrieUse TYPE KEY)) : Prop :=
  ∀ pre str key post, uses = pre ++ .writeKey str key :: post → .addWord str ∈ pre

include hinj in
/-- After any uses of a new trie with non-empty words. -/
theorem run_spec (hrange : ∀ str, .addWord str ∈ uses → InRange range assignIndex str)
    (hne : ∀ str, .addWord str ∈ uses → str ≠ []) (hheld : Held uses) :
    ∃ s : TrieSession TYPE range KEY, run assignIndex uses = .ok s ∧ Grown assignIndex uses s := by
  induction uses using List.reverseRecOn with
  | nil => exact ⟨_, rfl, init_grown⟩
  | append_singleton uses u ih =>
    have hheld' : Held uses := fun pre str key post heq => hheld pre str key (post ++ [u]) (by simp [heq])
    obtain ⟨s, hrun, hs⟩ := ih (fun str hmem => hrange str (List.mem_append_left _ hmem))
      (fun str hmem => hne str (List.mem_append_left _ hmem)) hheld'
    have hnext : ∃ s', s.step assignIndex u = .ok s' ∧ Grown assignIndex (uses ++ [u]) s' := by
      cases u with
      | addWord str => exact hs.addWord hinj (hne str (by simp)) (hrange str (by simp))
      | writeKey str key => exact hs.writeKey (hheld uses str key [] rfl) key
    obtain ⟨s', hstep, hs'⟩ := hnext
    refine ⟨s', ?_, hs'⟩
    rw [run, List.foldlM_append, ← run, hrun]
    simp only [ok_bind, List.foldlM_cons, hstep, List.foldlM_nil, pure_eq_ok]

end TrieSession

/-! ## Words of any type -/

namespace TrieTemplate

open TrieHeap
open TrieNode (InRange)
open TrieCall (Present)

variable [Inhabited KEY] {T : TrieTemplate TYPE}

theorem call_eq (heap : TrieHeap range KEY) (c : TrieCall TYPE) :
    T.call heap c = heap.call T.assignIndex (c.map T.narrow) := by
  cases c <;> rfl

theorem calls_eq (calls : List (TrieCall TYPE)) :
    T.calls calls = (TrieHeap.calls T.assignIndex (calls.map (TrieCall.map T.narrow)) : Except Fault (TrieHeap range KEY)) := by
  rw [TrieTemplate.calls, TrieHeap.calls, List.foldlM_map]
  exact congrArg (fun f => List.foldlM f init calls) (funext fun heap => funext fun c => call_eq heap c)

/-- The words that are present are told apart from all others, and none is removed that another one begins with. -/
structure Separate (T : TrieTemplate TYPE) (calls : List (TrieCall TYPE)) : Prop where
  apart : ∀ done left, calls = done ++ left → ∀ w v, Present done w → v.map T.narrow = w.map T.narrow → Present done v
  alone : ∀ done w left, calls = done ++ .removeWord w :: left → Present done w →
    ∀ v, Present done v → w.map T.narrow <+: v.map T.narrow → v = w

theorem Separate.of_append {calls left : List (TrieCall TYPE)} (h : T.Separate (calls ++ left)) : T.Separate calls where
  apart done rest heq := h.apart done (rest ++ left) (by simp [heq])
  alone done w rest heq := h.alone done w (rest ++ left) (by simp [heq])

/-- After such calls the trie has the words that were added and not removed since. -/
theorem foldl_wordsAfter {calls : List (TrieCall TYPE)} (h : T.Separate calls) :
    (calls.map (TrieCall.map T.narrow)).foldl wordsAfter ∅ = {x | ∃ w, Present calls w ∧ w.map T.narrow = x} := by
  induction calls using List.reverseRecOn with
  | nil =>
    ext x
    simp [TrieCall.not_present_nil]
  | append_singleton calls c ih =>
    rw [List.map_append, List.foldl_append, List.map_singleton, List.foldl_cons, List.foldl_nil, ih h.of_append]
    have hapart := h.apart calls [c] rfl
    ext x
    cases c with
    | addWord str =>
      simp only [TrieCall.map, wordsAfter, Set.mem_insert_iff, Set.mem_ofPred_eq, TrieCall.present_concat_iff,
        TrieCall.addWord.injEq, ne_eq, reduceCtorEq, not_false_eq_true, and_true]
      constructor
      · rintro (rfl | ⟨w, hw, rfl⟩)
        · exact ⟨str, .inl rfl, rfl⟩
        · exact ⟨w, .inr hw, rfl⟩
      · rintro ⟨w, rfl | hw, rfl⟩
        · exact .inl rfl
        · exact .inr ⟨w, hw, rfl⟩
    | removeWord str =>
      have halone := h.alone calls str [] rfl
      simp only [TrieCall.map, wordsAfter, Set.mem_ofPred_eq, TrieCall.present_concat_iff, reduceCtorEq, false_or, ne_eq,
        TrieCall.removeWord.injEq]
      constructor
      · rintro ⟨⟨w, hw, rfl⟩, hkept⟩
        refine ⟨w, ⟨hw, fun heq => hkept ⟨⟨str, heq ▸ hw, rfl⟩, heq ▸ List.prefix_rfl⟩⟩, rfl⟩
      · rintro ⟨w, ⟨hw, hne⟩, rfl⟩
        refine ⟨⟨w, hw, rfl⟩, fun hgone => hne ?_⟩
        obtain ⟨⟨v, hv, heq⟩, hpre⟩ := hgone
        exact (halone (hapart v str hv heq.symm) w hw hpre).symm

/-! ### Uses -/

variable [DecidableEq TYPE] {uses : List (TrieUse TYPE KEY)} {s : TrieSession TYPE range KEY}

/-- What holds after some uses: it does of the trie and of the words that its loops took, and what was returned for a word is
kept. -/
structure Grown (T : TrieTemplate TYPE) (uses : List (TrieUse TYPE KEY)) (s : TrieSession TYPE range KEY) : Prop where
  narrowed : TrieSession.Grown T.assignIndex (uses.map (TrieUse.map T.narrow))
    (⟨s.heap, s.pointers.map fun p => (p.1.map T.narrow, p.2)⟩ : TrieSession TYPE range KEY)
  returned : ∀ w, .addWord w ∈ uses → ∃ ptr, s.pointers.lookup w = some ptr

/-- A pointer that is kept leads to the node of its word. -/
theorem Grown.walk (h : T.Grown uses s) {w : List TYPE} {ptr : Option NodePtr} (hmem : (w, ptr) ∈ s.pointers) :
    ∃ found, ptr = some found ∧ TrieHeap.walk T.assignIndex s.heap 0 (w.map T.narrow) = some found :=
  h.narrowed.held _ _ (List.mem_map_of_mem (f := fun p => (p.1.map T.narrow, p.2)) hmem)

variable (hinj : Function.Injective T.assignIndex)

include hinj in
/-- A word added. -/
theorem Grown.addWord (h : T.Grown uses s) {str : List TYPE} (hne : str ≠ []) (hrange : ∀ c, T.assignIndex c < range) :
    ∃ s', T.step s (.addWord str) = .ok s' ∧ T.Grown (uses ++ [.addWord str]) s' := by
  have hne' : str.map T.narrow ≠ [] := by simpa using hne
  obtain ⟨s₁, hstep, hs₁⟩ := h.narrowed.addWord hinj hne' fun c _ => hrange c
  rw [TrieSession.step, bind_eq_ok_iff] at hstep
  obtain ⟨⟨heap, ptr⟩, hadd, heq⟩ := hstep
  obtain rfl := Except.ok.inj heq
  refine ⟨⟨heap, (str, ptr) :: s.pointers⟩, ?_, ?_, fun w hw => ?_⟩
  · rw [TrieTemplate.step, TrieTemplate.addWord, hadd]
    rfl
  · rw [List.map_append]
    exact hs₁
  · by_cases heq : w = str
    · subst heq
      exact ⟨ptr, by simp⟩
    · have hold : .addWord w ∈ uses := by simpa [heq] using hw
      obtain ⟨ptr', hptr'⟩ := h.returned w hold
      exact ⟨ptr', by rw [List.lookup_cons, beq_false_of_ne heq]; exact hptr'⟩

/-- A key written. -/
theorem Grown.writeKey (h : T.Grown uses s) {str : List TYPE} (hadded : .addWord str ∈ uses) (key : KEY) :
    ∃ s', T.step s (.writeKey str key) = .ok s' ∧ T.Grown (uses ++ [.writeKey str key]) s' := by
  obtain ⟨ptr, hlookup⟩ := h.returned str hadded
  obtain ⟨found, rfl, hwalk⟩ := h.walk (TrieSession.mem_of_lookup hlookup)
  obtain ⟨s₁, hstep, hs₁⟩ := h.narrowed.writeKey (TrieUse.mem_map_addWord_iff.mpr ⟨str, hadded, rfl⟩) key
  -- the pointer for the word is the one that is kept for what the loops took it as
  obtain ⟨ptr', hlookup'⟩ := h.narrowed.returned _ (TrieUse.mem_map_addWord_iff.mpr ⟨str, hadded, rfl⟩)
  obtain ⟨found', rfl, hwalk'⟩ := h.narrowed.held _ ptr' (TrieSession.mem_of_lookup hlookup')
  obtain rfl : found = found' := Option.some.inj (hwalk.symm.trans hwalk')
  simp only [TrieSession.step, hlookup'] at hstep
  rw [bind_eq_ok_iff] at hstep
  obtain ⟨heap, hwrite, heq⟩ := hstep
  obtain rfl := Except.ok.inj heq
  refine ⟨{ s with heap }, ?_, ?_, fun w hw => h.returned w (by simpa using hw)⟩
  · simp only [TrieTemplate.step, hlookup, hwrite, ok_bind, pure_eq_ok]
  · rw [List.map_append]
    exact hs₁

include hinj in
/-- After any uses of a new trie with non-empty words. -/
theorem run_spec (hrange : ∀ c, T.assignIndex c < range) (hne : ∀ str, .addWord str ∈ uses → str ≠ [])
    (hheld : TrieSession.Held uses) :
    ∃ s : TrieSession TYPE range KEY, T.run uses = .ok s ∧ T.Grown uses s := by
  induction uses using List.reverseRecOn with
  | nil => exact ⟨_, rfl, TrieSession.init_grown, fun _ hw => absurd hw List.not_mem_nil⟩
  | append_singleton uses u ih =>
    have hheld' : TrieSession.Held uses := fun pre str key post heq => hheld pre str key (post ++ [u]) (by simp [heq])
    obtain ⟨s, hrun, hs⟩ := ih (fun str hmem => hne str (List.mem_append_left _ hmem)) hheld'
    have hnext : ∃ s', T.step s u = .ok s' ∧ T.Grown (uses ++ [u]) s' := by
      cases u with
      | addWord str => exact hs.addWord hinj (hne str (by simp)) hrange
      | writeKey str key => exact hs.writeKey (hheld uses str key [] rfl) key
    obtain ⟨s', hstep, hs'⟩ := hnext
    refine ⟨s', ?_, hs'⟩
    rw [TrieTemplate.run, List.foldlM_append, ← TrieTemplate.run, hrun]
    simp only [ok_bind, List.foldlM_cons, hstep, List.foldlM_nil, pure_eq_ok]

end TrieTemplate
end NetworkingFramework
