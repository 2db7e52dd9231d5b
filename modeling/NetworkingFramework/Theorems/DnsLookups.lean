import NetworkingFramework.Lemmas.DnsLookups

/-!
# Lookups in the database

A lookup of a name from the wire stays inside the arrays of the tries unless it gets to a byte with its upper bit set, which as a
`char` is negative.
-/

namespace NetworkingFramework

open Wire

/-- After any additions of records, both lookups of a name stay inside the arrays and find only records that were added under it, if
and only if no byte of the name from 128 on stands at its start or behind the start of a name that was added. -/
theorem dnsDatabase_lookups_inside_iff (adds : List DnsAdd) (db : DnsDatabase)
    (hadds : DnsDatabase.empty.addAll adds = .ok db) (name : Bytes) :
    ((∃ found, db.searchRecordA name = .ok found ∧ ∀ addr, found = some addr → .a name addr ∈ adds) ∧
      ∃ found, db.searchRecordMx name = .ok found ∧ ∀ res, found = some res → .mx name res ∈ adds) ↔
    ∀ pre b post, name = pre ++ b :: post → 128 ≤ b → ¬(pre = [] ∨ ∃ op ∈ adds, pre <+: op.name) := by
  obtain ⟨hA, hMx⟩ := addAll_stores hadds
  have hmemA : ∀ n key, (n, key) ∈ recordsA adds → ∃ addr, key = some addr ∧ .a n addr ∈ adds := by
    intro n key hmem
    obtain ⟨op, hop, heq⟩ := List.mem_filterMap.mp hmem
    cases op with
    | a name addr =>
      obtain ⟨rfl, rfl⟩ := Prod.mk.inj (Option.some.inj heq)
      exact ⟨addr, rfl, hop⟩
    | mx name res => cases heq
  have hmemMx : ∀ n key, (n, key) ∈ recordsMx adds → .mx n key ∈ adds := by
    intro n key hmem
    obtain ⟨op, hop, heq⟩ := List.mem_filterMap.mp hmem
    cases op with
    | a name addr => cases heq
    | mx name res =>
      obtain ⟨rfl, rfl⟩ := Prod.mk.inj (Option.some.inj heq)
      exact hop
  constructor
  · intro h pre b post heq hb hpre
    obtain ⟨⟨foundA, hfoundA, -⟩, foundMx, hfoundMx, -⟩ := h
    -- the added name that begins with what is before the byte is in one of the tries
    have hreached : (pre = [] ∨ ∃ r ∈ recordsA adds, pre <+: r.1) ∨ pre = [] ∨ ∃ r ∈ recordsMx adds, pre <+: r.1 := by
      rcases hpre with hnil | ⟨op, hop, hpre⟩
      · exact .inl (.inl hnil)
      · cases op with
        | a n addr => exact .inl (.inr ⟨(n, some addr), List.mem_filterMap.mpr ⟨_, hop, rfl⟩, hpre⟩)
        | mx n res => exact .inr (.inr ⟨(n, res), List.mem_filterMap.mpr ⟨_, hop, rfl⟩, hpre⟩)
    rcases hreached with hreached | hreached
    · rcases hA.searchRecord_cases name with ⟨-, hfault⟩ | ⟨hno, -⟩
      · rw [DnsDatabase.searchRecordA, hfault] at hfoundA
        cases hfoundA
      · exact hno pre b post heq hb hreached
    · rcases hMx.searchRecord_cases name with ⟨-, hfault⟩ | ⟨hno, -⟩
      · rw [DnsDatabase.searchRecordMx, hfault] at hfoundMx
        cases hfoundMx
      · exact hno pre b post heq hb hreached
  · intro h
    constructor
    · rcases hA.searchRecord_cases name with ⟨⟨pre, b, post, heq, hb, hpre⟩, -⟩ | ⟨-, found, hfound, hrecord⟩
      · refine absurd (hpre.imp_right fun hr => ?_) (h pre b post heq hb)
        obtain ⟨⟨n, key⟩, hr, hpre⟩ := hr
        obtain ⟨addr, -, hop⟩ := hmemA n key hr
        exact ⟨_, hop, hpre⟩
      · rw [DnsDatabase.searchRecordA, hfound, ok_bind]
        cases found with
        | none => exact ⟨none, rfl, fun _ haddr => by cases haddr⟩
        | some key =>
          obtain ⟨addr, rfl, hop⟩ := hmemA name key (hrecord key rfl)
          exact ⟨some addr, rfl, fun addr' haddr => Option.some.inj haddr ▸ hop⟩
    · rcases hMx.searchRecord_cases name with ⟨⟨pre, b, post, heq, hb, hpre⟩, -⟩ | ⟨-, found, hfound, hrecord⟩
      · refine absurd (hpre.imp_right fun hr => ?_) (h pre b post heq hb)
        obtain ⟨⟨n, key⟩, hr, hpre⟩ := hr
        exact ⟨_, hmemMx n key hr, hpre⟩
      · exact ⟨found, hfound, fun res hres => hmemMx name res (hrecord res hres)⟩

/-- A name `cé`, of whose bytes only the first is looked up where only `ab` was added. -/
theorem dnsDatabase_lookups_inside_unreached : ∃ db, DnsDatabase.empty.addAll [.mx [97, 98] [109]] = .ok db ∧
    ∃ found, db.searchRecordMx [99, 195, 169] = .ok found ∧ ∀ res, found = some res →
      .mx [99, 195, 169] res ∈ [DnsAdd.mx [97, 98] [109]] := by
  obtain ⟨db, hdb⟩ : ∃ db, DnsDatabase.empty.addAll [.mx [97, 98] [109]] = .ok db := ⟨_, rfl⟩
  have hiff := dnsDatabase_lookups_inside_iff [.mx [97, 98] [109]] db hdb [99, 195, 169]
  refine ⟨db, hdb, (hiff.mpr ?_).2⟩
  intro pre b post heq hb hpre
  rcases pre with _ | ⟨c, pre⟩
  · obtain rfl : b = 99 := (List.cons.inj heq).1.symm
    exact absurd hb (by decide)
  · obtain rfl : c = 99 := (List.cons.inj heq).1.symm
    simp [DnsAdd.name] at hpre

/-- The name `é` is looked up in an empty database: the first byte, -61 as a `char`, is an index of 18446744073709551555. -/
theorem dnsDatabase_lookups_inside_counterexample :
    ¬∀ (adds : List DnsAdd) (db : DnsDatabase), DnsDatabase.empty.addAll adds = .ok db → ∀ name : Bytes, 0 ∉ name →
      (∃ found, db.searchRecordA name = .ok found ∧ ∀ addr, found = some addr → .a name addr ∈ adds) ∧
        ∃ found, db.searchRecordMx name = .ok found ∧ ∀ res, found = some res → .mx name res ∈ adds := by
  intro h
  obtain ⟨⟨found, hfound, -⟩, -⟩ := h [] .empty rfl [195, 169] (by decide)
  have hfault : DnsDatabase.empty.searchRecordA [195, 169] = .error .outOfBounds := rfl
  rw [hfault] at hfound
  cases hfound

end NetworkingFramework
