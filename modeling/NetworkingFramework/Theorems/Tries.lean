import NetworkingFramework.Lemmas.TrieRuns

/-!
# Tries

When words are only added, a trie answers every query about them, keeps the node of each and what was written to its key. With
removals it is the set of the words that are present as long as no word is removed that another one begins with. Both need that
words are told apart by what `char` keeps of their values, as those of `char`s are.
-/

namespace NetworkingFramework

open Wire
open TrieCall (Present)

variable {TYPE KEY : Type} {range : Nat} [Inhabited KEY] (T : TrieTemplate TYPE)

namespace TrieTemplate

section Insertions

variable [DecidableEq TYPE]

/-- After the uses of a new trie, writes through pointers that `add_word` returned among them: `contains_prefix` tells whether some
added word is a prefix, `is_prefix` whether the word is a prefix of an added one, each pointer is the one that a search for its word
returns, the node has the key that was written last for that word, and every node counts its children. -/
def Answers (range : Nat) (uses : List (TrieUse TYPE KEY)) : Prop :=
  ∃ s : TrieSession TYPE range KEY, T.run uses = .ok s ∧
    (∀ str, ∃ b, T.containsPrefix s.heap 0 str = .ok b ∧ (b = true ↔ ∃ w, .addWord w ∈ uses ∧ w <+: str)) ∧
    (∀ str, str ≠ [] → ∃ b, T.isPrefix s.heap 0 str = .ok b ∧ (b = true ↔ ∃ w, .addWord w ∈ uses ∧ str <+: w)) ∧
    (∀ w ptr, (w, ptr) ∈ s.pointers → ptr.isSome ∧ T.search s.heap 0 w = .ok ptr) ∧
    (∀ w, .addWord w ∈ uses → ∃ ptr cell, s.pointers.lookup w = some (some ptr) ∧
      T.search s.heap 0 w = .ok (some ptr) ∧ s.heap.node ptr = .ok cell ∧
        cell.marked = true ∧ cell.key = (TrieUse.lastKey uses w).getD default) ∧
    ∀ cell ∈ s.heap, cell.childCount = (Finset.univ.filter fun i => (cell.children i).isSome).card

/-- What `char` keeps of the values does not make a word begin with an added one that does not, nor the other way round, and no key
written for one word is the last for another. -/
structure ToldApart (uses : List (TrieUse TYPE KEY)) : Prop where
  shorter : ∀ w str, .addWord w ∈ uses → w.map T.narrow <+: str.map T.narrow → ∃ w', .addWord w' ∈ uses ∧ w' <+: str
  longer : ∀ w str, str ≠ [] → .addWord w ∈ uses → str.map T.narrow <+: w.map T.narrow → ∃ w', .addWord w' ∈ uses ∧ str <+: w'
  keys : ∀ w, .addWord w ∈ uses →
    (TrieUse.lastKey (uses.map (TrieUse.map T.narrow)) (w.map T.narrow)).getD default = (TrieUse.lastKey uses w).getD default

variable {T}

/-- What `char` keeps tells everything apart where it tells the values apart. -/
theorem ToldApart.of_injective (hnarrow : Function.Injective T.narrow) (uses : List (TrieUse TYPE KEY)) : T.ToldApart uses where
  shorter w str hw hpre := ⟨w, hw, (List.prefix_map_iff_of_injective hnarrow).mp hpre⟩
  longer w str _ hw hpre := ⟨w, hw, (List.prefix_map_iff_of_injective hnarrow).mp hpre⟩
  keys w _ := by rw [TrieUse.lastKey_map hnarrow]

variable {uses : List (TrieUse TYPE KEY)}

/-- A run answers the queries exactly when its words are told apart. -/
theorem answers_iff (hinj : Function.Injective T.assignIndex) (hrange : ∀ c, T.assignIndex c < range)
    (hne : ∀ str, .addWord str ∈ uses → str ≠ []) (hheld : TrieSession.Held uses) :
    T.Answers range uses ↔ T.ToldApart uses := by
  have hstr : ∀ str, TrieNode.InRange range T.assignIndex str := fun str c _ => hrange c
  obtain ⟨s, hrun, hs⟩ : ∃ s : TrieSession TYPE range KEY, T.run uses = .ok s ∧ T.Grown uses s := T.run_spec hinj hrange hne hheld
  have hn := hs.narrowed
  have hroot : [] ∉ (TrieHeap.tree T.assignIndex s.heap 0).words TrieHeap.Marked := by
    rw [hn.words, TrieUse.mem_map_addWord_iff]
    rintro ⟨w, hw, heq⟩
    exact hne w hw (List.map_eq_nil_iff.mp heq)
  have hshorter (str : List TYPE) : ∃ b, T.containsPrefix s.heap 0 str = .ok b ∧
      (b = true ↔ ∃ w, .addWord w ∈ uses ∧ w.map T.narrow <+: str.map T.narrow) := by
    obtain ⟨b, hb, hiff⟩ := TrieHeap.containsPrefix_spec hn.intact (hstr (str.map T.narrow)) hroot
    refine ⟨b, hb, hiff.trans ⟨?_, ?_⟩⟩
    · rintro ⟨x, hx, hpre⟩
      obtain ⟨w, hw, rfl⟩ := TrieUse.mem_map_addWord_iff.mp ((hn.words x).mp hx)
      exact ⟨w, hw, hpre⟩
    · rintro ⟨w, hw, hpre⟩
      exact ⟨_, (hn.words _).mpr (TrieUse.mem_map_addWord_iff.mpr ⟨w, hw, rfl⟩), hpre⟩
  have hlonger (str : List TYPE) (hstr' : str ≠ []) : ∃ b, T.isPrefix s.heap 0 str = .ok b ∧
      (b = true ↔ ∃ w, .addWord w ∈ uses ∧ str.map T.narrow <+: w.map T.narrow) := by
    obtain ⟨b, hb, hiff⟩ := TrieHeap.isPrefix_spec hn.intact (hstr (str.map T.narrow))
    refine ⟨b, hb, hiff.trans ((hn.tight.mem_paths_iff (by simpa using hstr')).trans ⟨?_, ?_⟩)⟩
    · rintro ⟨x, hx, hpre⟩
      obtain ⟨w, hw, rfl⟩ := TrieUse.mem_map_addWord_iff.mp ((hn.words x).mp hx)
      exact ⟨w, hw, hpre⟩
    · rintro ⟨w, hw, hpre⟩
      exact ⟨_, (hn.words _).mpr (TrieUse.mem_map_addWord_iff.mpr ⟨w, hw, rfl⟩), hpre⟩
  have hpointers (w : List TYPE) (ptr : Option NodePtr) (hmem : (w, ptr) ∈ s.pointers) :
      ptr.isSome ∧ T.search s.heap 0 w = .ok ptr := by
    obtain ⟨found, rfl, hwalk⟩ := hs.walk hmem
    exact ⟨rfl, (TrieHeap.search_root hn.intact (hstr _)).trans (congrArg Except.ok hwalk)⟩
  have hkey (w : List TYPE) (hw : .addWord w ∈ uses) : ∃ ptr cell, s.pointers.lookup w = some (some ptr) ∧
      T.search s.heap 0 w = .ok (some ptr) ∧ s.heap.node ptr = .ok cell ∧ cell.marked = true ∧
        cell.key = (TrieUse.lastKey (uses.map (TrieUse.map T.narrow)) (w.map T.narrow)).getD default := by
    obtain ⟨ptr, hlookup⟩ := hs.returned w hw
    obtain ⟨found, rfl, hwalk⟩ := hs.walk (TrieSession.mem_of_lookup hlookup)
    obtain ⟨cell, hcell⟩ := hn.intact.walk_cell hwalk
    have hmarked := (TrieHeap.mem_words_iff_marked hwalk hcell).mp
      ((hn.words _).mpr (TrieUse.mem_map_addWord_iff.mpr ⟨w, hw, rfl⟩))
    exact ⟨found, cell, hlookup, (TrieHeap.search_root hn.intact (hstr _)).trans (congrArg Except.ok hwalk),
      TrieHeap.node_ok hcell, hmarked, hn.keys _ _ (TrieHeap.tree_label hwalk hcell)⟩
  constructor
  · rintro ⟨s', hrun', hprefix, hextends, -, hkeys, -⟩
    obtain rfl := Except.ok.inj (hrun.symm.trans hrun')
    refine ⟨fun w str hw hpre => ?_, fun w str hstr' hw hpre => ?_, fun w hw => ?_⟩
    · obtain ⟨b, hb, hiff⟩ := hprefix str
      obtain ⟨b', hb', hiff'⟩ := hshorter str
      obtain rfl := Except.ok.inj (hb.symm.trans hb')
      exact hiff.mp (hiff'.mpr ⟨w, hw, hpre⟩)
    · obtain ⟨b, hb, hiff⟩ := hextends str hstr'
      obtain ⟨b', hb', hiff'⟩ := hlonger str hstr'
      obtain rfl := Except.ok.inj (hb.symm.trans hb')
      exact hiff.mp (hiff'.mpr ⟨w, hw, hpre⟩)
    · obtain ⟨ptr, cell, hlookup, -, hcell, -, hlast⟩ := hkeys w hw
      obtain ⟨ptr', cell', hlookup', -, hcell', -, hlast'⟩ := hkey w hw
      obtain rfl : ptr = ptr' := Option.some.inj (Option.some.inj (hlookup.symm.trans hlookup'))
      obtain rfl := Except.ok.inj (hcell.symm.trans hcell')
      exact hlast'.symm.trans hlast
  · intro h
    refine ⟨s, hrun, fun str => ?_, fun str hstr' => ?_, hpointers, fun w hw => ?_, hn.intact.counted⟩
    · obtain ⟨b, hb, hiff⟩ := hshorter str
      refine ⟨b, hb, hiff.trans ⟨?_, ?_⟩⟩
      · rintro ⟨w, hw, hpre⟩
        exact h.shorter w str hw hpre
      · rintro ⟨w, hw, hpre⟩
        exact ⟨w, hw, hpre.map T.narrow⟩
    · obtain ⟨b, hb, hiff⟩ := hlonger str hstr'
      refine ⟨b, hb, hiff.trans ⟨?_, ?_⟩⟩
      · rintro ⟨w, hw, hpre⟩
        exact h.longer w str hstr' hw hpre
      · rintro ⟨w, hw, hpre⟩
        exact ⟨w, hw, hpre.map T.narrow⟩
    · obtain ⟨ptr, cell, hlookup, hsearch, hcell, hmarked, hlast⟩ := hkey w hw
      exact ⟨ptr, cell, hlookup, hsearch, hcell, hmarked, hlast.trans (h.keys w hw)⟩

end Insertions
end TrieTemplate

/-- Any calls of `add_word` with non-empty words on a new trie, and any writes through the pointers that they returned, lead to a
trie that answers every query about the words exactly when the words are told apart by what `char` keeps of their values; and they
all do exactly when the values are. -/
theorem trie_queries_after_insertions_iff [DecidableEq TYPE] (hinj : Function.Injective T.assignIndex)
    (hrange : ∀ c, T.assignIndex c < range) :
    (∀ uses : List (TrieUse TYPE KEY), (∀ str, .addWord str ∈ uses → str ≠ []) → TrieSession.Held uses →
      (T.Answers range uses ↔ T.ToldApart uses)) ∧
    ((∀ uses : List (TrieUse TYPE KEY), (∀ str, .addWord str ∈ uses → str ≠ []) → TrieSession.Held uses → T.Answers range uses) ↔
      Function.Injective T.narrow) := by
  refine ⟨fun uses hne hheld => T.answers_iff hinj hrange hne hheld, fun hall u v huv => ?_, fun hnarrow uses hne hheld => ?_⟩
  · have hheld : TrieSession.Held ([.addWord [u]] : List (TrieUse TYPE KEY)) := by
      intro pre str key post heq
      have hmem : TrieUse.writeKey str key ∈ [TrieUse.addWord [u]] := by simp [heq]
      simp at hmem
    have hne : ∀ str, .addWord str ∈ ([.addWord [u]] : List (TrieUse TYPE KEY)) → str ≠ [] := by simp
    have hapart := (T.answers_iff hinj hrange hne hheld).mp (hall _ hne hheld)
    obtain ⟨w, hw, hpre⟩ := hapart.longer [u] [v] (by simp) (by simp) (by simp [huv])
    obtain rfl : w = [u] := by simpa using hw
    exact (List.cons_prefix_cons.mp hpre).1.symm
  · exact (T.answers_iff hinj hrange hne hheld).mpr (.of_injective hnarrow uses)

/-- A trie over `char`s. -/
def charTemplate : TrieTemplate UInt8 := ⟨id, id, UInt8.toNat⟩

/-- A trie over the 16 bits of a `char16_t`. The conversion from a signed `char` extends the high bit. -/
def char16Template : TrieTemplate UInt16 := ⟨UInt16.toUInt8, fun c => c.toInt8.toInt16.toUInt16, UInt16.toNat⟩

/-- A word with a key, and then a prefix of it. -/
def insertedUses : List (TrieUse UInt8 Nat) := [.addWord [97, 98], .writeKey [97, 98] 7, .addWord [97]]

theorem trie_queries_after_insertions_two : charTemplate.Answers 256 insertedUses := by
  have hinj : Function.Injective charTemplate.assignIndex := fun a b h => UInt8.toNat_inj.mp h
  have hne : ∀ str, .addWord str ∈ insertedUses → str ≠ [] := by simp [insertedUses]
  have hheld : TrieSession.Held insertedUses := by
    intro pre str key post heq
    rcases pre with _ | ⟨a, _ | ⟨b, _ | ⟨c, pre⟩⟩⟩ <;> simp [insertedUses] at heq
    obtain ⟨rfl, ⟨rfl, -⟩, -⟩ := heq
    exact List.mem_cons_self
  exact (trie_queries_after_insertions_iff charTemplate hinj fun c => c.toNat_lt).2.mpr (fun _ _ h => h) insertedUses hne hheld

/-- The word of the one value 0x161 is added to a trie of `char16_t`s, and `a` is the prefix of an added word. -/
theorem trie_queries_after_insertions_counterexample :
    ¬char16Template.Answers 65536 ([.addWord [0x161]] : List (TrieUse UInt16 Nat)) := by
  rintro ⟨s, hrun, -, hprefix, -⟩
  obtain ⟨b, hb, hiff⟩ := hprefix [97] (by simp)
  have hfound : (char16Template.run [.addWord [0x161]] >>= fun s : TrieSession UInt16 65536 Nat =>
      char16Template.isPrefix s.heap 0 [97]) = .ok true := rfl
  rw [hrun, ok_bind, hb] at hfound
  obtain ⟨w, hw, hpre⟩ := hiff.mp (Except.ok.inj hfound)
  obtain rfl : w = [0x161] := by simpa using hw
  exact absurd hpre (by decide)

/-! ## Removals -/

/-- After any calls of `add_word` and `remove_word` with non-empty words on a new trie, and after each of them, the words that it
contains are those that were added and not removed since, if and only if at all times the words present are told apart from all
others by what `char` keeps of their values, and no word is removed while another present word begins with it. -/
theorem trie_is_set_of_words_iff (hinj : Function.Injective T.assignIndex) (hrange : ∀ c, T.assignIndex c < range)
    (calls : List (TrieCall TYPE)) (hne : ∀ c ∈ calls, c.word ≠ []) :
    (∀ done left, calls = done ++ left → ∃ heap : TrieHeap range KEY, T.calls done = .ok heap ∧
      ∀ w, ∃ b, T.containsWord heap 0 w = .ok b ∧ (b = true ↔ Present done w)) ↔
    (∀ done left, calls = done ++ left → ∀ w v, Present done w → v.map T.narrow = w.map T.narrow → Present done v) ∧
      ∀ done w left, calls = done ++ .removeWord w :: left → Present done w →
        ∀ v, Present done v → w.map T.narrow <+: v.map T.narrow → v = w := by
  have hstr : ∀ str, TrieNode.InRange range T.assignIndex str := fun str c _ => hrange c
  -- what the trie contains after some of the calls
  have hcontains : ∀ done left, calls = done ++ left → ∃ heap : TrieHeap range KEY, T.calls done = .ok heap ∧
      ∀ w, ∃ b, T.containsWord heap 0 w = .ok b ∧
        (b = true ↔ w.map T.narrow ∈ (done.map (TrieCall.map T.narrow)).foldl TrieHeap.wordsAfter ∅) := by
    intro done left heq
    have hne' : ∀ c ∈ done.map (TrieCall.map T.narrow), c.word ≠ [] := by
      intro c hc
      obtain ⟨c', hc', rfl⟩ := List.mem_map.mp hc
      have hword := hne c' (heq ▸ List.mem_append_left left hc')
      cases c' <;> simpa [TrieCall.map, TrieCall.word] using hword
    obtain ⟨heap, hcalls, hkept, hwords⟩ := @TrieHeap.calls_spec TYPE KEY range _ _ hinj hrange _ hne'
    refine ⟨heap, by rw [T.calls_eq, hcalls], fun w => ?_⟩
    rw [← hwords]
    exact TrieHeap.containsWord_spec hkept.intact (hstr _)
  constructor
  · intro h
    have hagree : ∀ done left, calls = done ++ left → ∀ w,
        w.map T.narrow ∈ (done.map (TrieCall.map T.narrow)).foldl TrieHeap.wordsAfter ∅ ↔ Present done w := by
      intro done left heq w
      obtain ⟨heap, hcalls, hpresent⟩ := h done left heq
      obtain ⟨heap', hcalls', hwords⟩ := hcontains done left heq
      obtain rfl := Except.ok.inj (hcalls.symm.trans hcalls')
      obtain ⟨b, hb, hiff⟩ := hpresent w
      obtain ⟨b', hb', hiff'⟩ := hwords w
      obtain rfl := Except.ok.inj (hb.symm.trans hb')
      exact hiff'.symm.trans hiff
    refine ⟨fun done left heq w v hw hsame => ?_, fun done w left heq hw v hv hpre => ?_⟩
    · rw [← hagree done left heq] at hw ⊢
      rwa [hsame]
    · -- the removal has taken `v` with it
      have hbefore := hagree done (.removeWord w :: left) heq
      have hafter := hagree (done ++ [.removeWord w]) left (by simp [heq]) v
      rw [List.map_append, List.foldl_append, List.map_singleton, List.foldl_cons, List.foldl_nil,
        TrieCall.present_concat_iff] at hafter
      by_contra hvw
      have hpresent := hafter.mpr (.inr ⟨hv, fun heq => hvw (TrieCall.removeWord.inj heq).symm⟩)
      exact hpresent.2 ⟨(hbefore w).mpr hw, hpre⟩
  · rintro ⟨hapart, halone⟩ done left heq
    obtain ⟨heap, hcalls, hwords⟩ := hcontains done left heq
    have hseparate : T.Separate (done ++ left) := heq ▸ ⟨hapart, halone⟩
    rw [T.foldl_wordsAfter hseparate.of_append] at hwords
    refine ⟨heap, hcalls, fun w => ?_⟩
    obtain ⟨b, hb, hiff⟩ := hwords w
    refine ⟨b, hb, hiff.trans ⟨?_, fun hw => ⟨w, hw, rfl⟩⟩⟩
    rintro ⟨v, hv, hsame⟩
    exact hapart done left heq v w hv hsame.symm

/-- A word is removed of which another one is a prefix. -/
theorem trie_is_set_of_words_leaf : ∃ heap : TrieHeap 256 Nat,
    charTemplate.calls [.addWord [97], .addWord [97, 98], .removeWord [97, 98]] = .ok heap ∧
      ∀ w, ∃ b, charTemplate.containsWord heap 0 w = .ok b ∧
        (b = true ↔ Present [.addWord [97], .addWord [97, 98], .removeWord [97, 98]] w) := by
  have hinj : Function.Injective charTemplate.assignIndex := fun a b h => UInt8.toNat_inj.mp h
  have hkeep : ∀ w : List UInt8, w.map charTemplate.narrow = w := List.map_id
  have hiff := @trie_is_set_of_words_iff UInt8 Nat 256 _ charTemplate hinj (fun c => c.toNat_lt)
    [.addWord [97], .addWord [97, 98], .removeWord [97, 98]] (by simp [TrieCall.word])
  simp only [hkeep] at hiff
  refine hiff.mpr ⟨fun done left _ w v hw heq => heq ▸ hw, fun done w left heq _ v hv hpre => ?_⟩ _ [] rfl
  rcases done with _ | ⟨a, _ | ⟨b, _ | ⟨c, done⟩⟩⟩ <;> simp at heq
  obtain ⟨rfl, rfl, rfl, -⟩ := heq
  have hpresent : ∀ v, Present [.addWord ([97] : List UInt8), .addWord [97, 98]] v → v = [97] ∨ v = [97, 98] := by
    intro v hv
    obtain ⟨pre, post, heq, -⟩ := hv
    have hmem : TrieCall.addWord v ∈ [.addWord ([97] : List UInt8), .addWord [97, 98]] := by simp [heq]
    simpa using hmem
  rcases hpresent v hv with rfl | rfl
  · exact absurd hpre (by decide)
  · rfl

/-- The words `a` and `ab`, of which `a` is removed. -/
theorem trie_is_set_of_words_counterexample :
    ¬∀ calls : List (TrieCall UInt8), (∀ c ∈ calls, c.word ≠ []) → ∃ heap : TrieHeap 256 Nat,
      charTemplate.calls calls = .ok heap ∧
        ∀ w, ∃ b, charTemplate.containsWord heap 0 w = .ok b ∧ (b = true ↔ Present calls w) := by
  intro h
  obtain ⟨heap, hcalls, hcontains⟩ := h [.addWord [97], .addWord [97, 98], .removeWord [97]] (by simp [TrieCall.word])
  obtain ⟨b, hb, hiff⟩ := hcontains [97, 98]
  have hlost : (charTemplate.calls [.addWord [97], .addWord [97, 98], .removeWord [97]] >>= fun heap =>
      charTemplate.containsWord (heap : TrieHeap 256 Nat) 0 [97, 98]) = .ok false := rfl
  rw [hcalls, ok_bind, hb] at hlost
  have hpresent : Present [.addWord [97], .addWord [97, 98], .removeWord [97]] ([97, 98] : List UInt8) :=
    ⟨[.addWord [97]], [.removeWord [97]], rfl, by decide⟩
  have hfalse : b = false := Except.ok.inj hlost
  exact absurd (hiff.mpr hpresent) (by simp [hfalse])

end NetworkingFramework
