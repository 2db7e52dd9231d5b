import NetworkingFramework.Lemmas.DnsDatabase
import NetworkingFramework.Lemmas.TrieTree

/-!
# Looking up any name

What a trie of records holds after records were added (`Stores`), and what a search for a name of any bytes does with it: it faults
when it gets to a byte with its upper bit set (`searchRecord_cases`).
-/

namespace NetworkingFramework

open Wire TrieNode

variable {KEY : Type}

/-- A byte's index lies outside the array when its upper bit is set. -/
theorem assignRange_le_assign_iff (b : UInt8) : assignRange ≤ assign b ↔ 128 ≤ b := by
  have hb : b.toNat < 256 := b.toNat_lt
  have hle : 128 ≤ b ↔ 128 ≤ b.toNat := UInt8.le_iff_toNat_le
  have hsize : UInt64.size = 18446744073709551616 := rfl
  rw [hle, assign, assignRange]
  split <;> omega

/-- A trie of records: its nodes are the prefixes of their names, and the key of a marked node is in a record of its name. -/
structure Stores (mappings : TrieNode assignRange KEY) (records : List (Bytes × KEY)) : Prop where
  paths : ∀ p, p ∈ (tree assign mappings).paths ↔ p = [] ∨ ∃ r ∈ records, p <+: r.1
  marked : ∀ p key, (tree assign mappings).label p = some (true, key) → (p, key) ∈ records

theorem new_stores [Inhabited KEY] : Stores (TrieNode.new : TrieNode assignRange KEY) [] := by
  constructor
  · intro p
    cases p with
    | nil => simp [PrefixTree.paths, label_nil]
    | cons c p => simp [PrefixTree.paths, label_new_cons]
  · intro p key h
    cases p with
    | nil => rw [label_nil] at h; cases h
    | cons c p => rw [label_new_cons] at h; cases h

/-- Only a word within the array's range can be added. -/
theorem inRange_of_addWordLoop [Inhabited KEY] {node node' : TrieNode assignRange KEY} {name : Bytes}
    (h : node.addWordLoop assign name = .ok node') : InRange assignRange assign name := by
  induction name generalizing node node' with
  | nil => intro c hc; cases hc
  | cons c name ih =>
    have hc : assign c < assignRange := by
      by_contra hc
      rw [addWordLoop, getChild, dif_neg hc] at h
      cases h
    rw [addWordLoop_cons] at h
    obtain ⟨node₁, child', hcreate, -⟩ := @createChild_cases _ _ _ assign node c _ hc
    rw [hcreate, ok_bind, bind_eq_ok_iff] at h
    obtain ⟨child'', hadd, -⟩ := h
    intro d hd
    rcases List.mem_cons.mp hd with rfl | hd
    · exact hc
    · exact ih hadd d hd

/-- What a record that was added does. -/
theorem Stores.add [Inhabited KEY] {mappings mappings' : TrieNode assignRange KEY} {records : List (Bytes × KEY)}
    (h : Stores mappings records) {name : Bytes} {key : KEY} (hadd : addRecord mappings name key = .ok mappings') :
    Stores mappings' (records ++ [(name, key)]) := by
  have hne : name ≠ [] := by
    rintro rfl
    rw [addRecord, addWord, if_pos rfl] at hadd
    cases hadd
  rw [addRecord, addWord, if_neg hne, bind_eq_ok_iff] at hadd
  obtain ⟨⟨node, ptr⟩, hword, hwrite⟩ := hadd
  obtain ⟨node₁, hloop, hpair⟩ := (bind_eq_ok_iff _ _ _).mp hword
  obtain ⟨rfl, rfl⟩ := Prod.mk.inj (Except.ok.inj hpair)
  have hrange := inRange_of_addWordLoop hloop
  obtain ⟨node₂, hloop', htree⟩ := addWordLoop_tree assign_injective hrange mappings
  obtain rfl := Except.ok.inj (hloop.symm.trans hloop')
  have hpaths : ∀ p, p ∈ (tree assign node₁).paths ↔ p <+: name ∨ p ∈ (tree assign mappings).paths := by
    intro p
    rw [htree, TrieHeap.withWord, PrefixTree.mem_paths_update, PrefixTree.mem_paths_grow]
  obtain ⟨node₃, hwrite', htree'⟩ :=
    writeKeyAt_tree assign_injective hrange key ((hpaths name).mpr (.inl (List.prefix_refl name)))
  obtain rfl := Except.ok.inj (hwrite'.symm.trans hwrite)
  constructor
  · intro p
    rw [htree', PrefixTree.mem_paths_update, hpaths, h.paths]
    simp only [List.mem_append, List.mem_singleton]
    constructor
    · intro hp
      rcases hp with hp | hp | ⟨r, hr, hp⟩
      · exact .inr ⟨(name, key), .inr rfl, hp⟩
      · exact .inl hp
      · exact .inr ⟨r, .inl hr, hp⟩
    · intro hp
      rcases hp with hp | ⟨r, hr | rfl, hp⟩
      · exact .inr (.inl hp)
      · exact .inr (.inr ⟨r, hr, hp⟩)
      · exact .inl hp
  · intro p key' hlabel
    obtain ⟨hself, hbefore, hother⟩ := label_withWord_eq (tree assign mappings) name
    rw [htree', htree] at hlabel
    by_cases hp : p = name
    · subst hp
      rw [PrefixTree.label_update_self, hself, Option.map_some] at hlabel
      obtain rfl : key = key' := (Prod.mk.inj (Option.some.inj hlabel)).2
      simp
    · rw [PrefixTree.label_update_ne _ hp] at hlabel
      have hold : (tree assign mappings).label p = some (true, key') := by
        by_cases hpre : p <+: name
        · rw [hbefore p hpre hp] at hlabel
          cases hl : (tree assign mappings).label p with
          | none =>
            rw [hl] at hlabel
            cases hlabel
          | some l =>
            rw [hl] at hlabel
            exact hlabel
        · rwa [hother p hpre] at hlabel
      exact List.mem_append_left _ (h.marked p key' hold)

/-- A search faults when it gets to a byte with its upper bit set, and finds a record that was added otherwise. -/
theorem Stores.searchRecord_cases {mappings : TrieNode assignRange KEY} {records : List (Bytes × KEY)} (h : Stores mappings records)
    (name : Bytes) :
    ((∃ pre b post, name = pre ++ b :: post ∧ 128 ≤ b ∧ (pre = [] ∨ ∃ r ∈ records, pre <+: r.1)) ∧
      searchRecord mappings name = .error .outOfBounds) ∨
    ((∀ pre b post, name = pre ++ b :: post → 128 ≤ b → ¬(pre = [] ∨ ∃ r ∈ records, pre <+: r.1)) ∧
      ∃ found, searchRecord mappings name = .ok found ∧ ∀ key, found = some key → (name, key) ∈ records) := by
  rcases @search_cases _ _ _ assign mappings name with ⟨⟨pre, b, post, heq, hb, hpre⟩, hsearch⟩ | ⟨hno, hsearch⟩
  · refine .inl ⟨⟨pre, b, post, heq, (assignRange_le_assign_iff b).mp hb, (h.paths pre).mp hpre⟩, ?_⟩
    rw [searchRecord, hsearch]
    rfl
  · refine .inr ⟨fun pre b post heq hb hpre => hno pre b post heq ((assignRange_le_assign_iff b).mpr hb)
      ((h.paths pre).mpr hpre), ?_⟩
    rw [searchRecord, hsearch, ok_bind]
    cases hnode : nodeAt assign mappings name with
    | none => exact ⟨none, rfl, fun key hkey => by cases hkey⟩
    | some n =>
      refine ⟨_, rfl, fun key hkey => h.marked name key ?_⟩
      split at hkey
      · rename_i hmarked
        unfold tree
        simp only [hnode, Option.map_some, hmarked, Option.some.inj hkey]
      · cases hkey

/-! ## The database -/

/-- The records of addresses among those added. -/
def recordsA (adds : List DnsAdd) : List (Bytes × Option Ip4Addr) :=
  adds.filterMap fun op => match op with
    | .a name addr => some (name, some addr)
    | .mx _ _ => none

/-- The records of mail servers among those added. -/
def recordsMx (adds : List DnsAdd) : List (Bytes × Bytes) :=
  adds.filterMap fun op => match op with
    | .a _ _ => none
    | .mx name res => some (name, res)

/-- After any calls that succeed, the two tries store the records that were added. -/
theorem addAll_stores {adds : List DnsAdd} {db : DnsDatabase} (h : DnsDatabase.empty.addAll adds = .ok db) :
    Stores db.mappingsA (recordsA adds) ∧ Stores db.mappingsMx (recordsMx adds) := by
  induction adds using List.reverseRecOn generalizing db with
  | nil =>
    obtain rfl := Except.ok.inj h
    exact ⟨new_stores, new_stores⟩
  | append_singleton adds op ih =>
    rw [DnsDatabase.addAll, List.foldlM_append, bind_eq_ok_iff] at h
    obtain ⟨db₁, hadds, hlast⟩ := h
    obtain ⟨hA, hMx⟩ := ih hadds
    rw [List.foldlM_cons, bind_eq_ok_iff] at hlast
    obtain ⟨db₂, hadd, hnil⟩ := hlast
    obtain rfl := Except.ok.inj hnil
    cases op with
    | a name addr =>
      obtain ⟨mappings, hrecord, hdb⟩ := (bind_eq_ok_iff _ _ _).mp hadd
      obtain rfl := Except.ok.inj hdb
      refine ⟨?_, by simpa [recordsMx] using hMx⟩
      have hstores := hA.add hrecord
      simpa [recordsA] using hstores
    | mx name res =>
      obtain ⟨mappings, hrecord, hdb⟩ := (bind_eq_ok_iff _ _ _).mp hadd
      obtain rfl := Except.ok.inj hdb
      refine ⟨by simpa [recordsA] using hA, ?_⟩
      have hstores := hMx.add hrecord
      simpa [recordsMx] using hstores

end NetworkingFramework
