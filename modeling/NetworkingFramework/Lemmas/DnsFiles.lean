import NetworkingFramework.DnsFiles
import NetworkingFramework.Lemmas.DnsLookups
import NetworkingFramework.Lib.Loops

/-!
# Lemmas: the files of a DNS server

The words of a file are read two after two. After some records were added to a trie, a search finds the last under each name.
-/

namespace NetworkingFramework

open Wire CText TrieNode

/-! ## Pairs of words -/

/-- Two elements after two. An odd one at the end is left out. -/
def pairs {α : Type} : List α → List (α × α)
  | a :: b :: rest => (a, b) :: pairs rest
  | _ => []

/-- The pairs of words of a file. -/
def filePairs (file : Option Bytes) : List (Bytes × Bytes) := pairs (words (file.getD []))

theorem fst_ne_nil_of_mem_filePairs {file : Option Bytes} {p : Bytes × Bytes} (h : p ∈ filePairs file) : p.1 ≠ [] := by
  have hmem {ws : List Bytes} (hp : p ∈ pairs ws) : p.1 ∈ ws := by
    induction ws using pairs.induct with
    | case1 a b rest ih =>
      rcases List.mem_cons.mp hp with rfl | hp
      · exact List.mem_cons_self
      · exact List.mem_cons_of_mem _ (List.mem_cons_of_mem _ (ih hp))
    | case2 ws hws =>
      rw [pairs] at hp
      · exact absurd hp List.not_mem_nil
      · exact hws
  exact ne_nil_of_mem_words (hmem h)

section Loop

variable {KEY : Type} {parse : Bytes → Except Fault (Option KEY)}

/-- What the loop does with one pair. -/
def pushRecord (parse : Bytes → Except Fault (Option KEY)) (res : List (Bytes × KEY)) (p : Bytes × Bytes) :
    Except Fault (List (Bytes × KEY)) := do
  match ← parse p.2 with
  | none => return res
  | some key => return res ++ [(p.1, key)]

/-- The records of some pairs. -/
def recordsOf (parse : Bytes → Except Fault (Option KEY)) (ps : List (Bytes × Bytes)) : List (Bytes × KEY) :=
  ps.filterMap fun p => (parse p.2).toOption.join.map fun key => (p.1, key)

/-- The loop goes over the pairs of words. -/
theorem parseRecordsLoop_eq {fuel : Nat} {input : InStream} (hsound : input.Sound) (hok : input.failed = false)
    (hfuel : (pairs (words input.rest)).length < fuel) (name val : Bytes) (res : List (Bytes × KEY)) :
    parseRecordsLoop parse fuel input name val res = (pairs (words input.rest)).foldlM (pushRecord parse) res := by
  induction fuel generalizing input name val res with
  | zero => exact absurd hfuel (Nat.not_lt_zero _)
  | succ fuel ih =>
    rw [parseRecordsLoop]
    rcases input.getWord_cases hsound hok name with ⟨hnone, hfailed⟩ | ⟨input₁, name₁, hread, hsound₁, hok₁, hwords⟩
    · have hbad : (input.getWord name).1.good = false := by simp [InStream.good, hfailed]
      simp only [InStream.getWord_of_not_good hbad, hnone, if_true]
      rfl
    · simp only [hread]
      rcases input₁.getWord_cases hsound₁ hok₁ val with ⟨hnone, hfailed⟩ | ⟨input₂, val₂, hread₂, hsound₂, hok₂, hwords₂⟩
      · simp only [hfailed, if_true, hwords, hnone]
        rfl
      · rw [hwords, hwords₂, pairs] at hfuel ⊢
        rw [List.length_cons] at hfuel
        simp only [hread₂, hok₂, Bool.false_eq_true, if_false, List.foldlM_cons, pushRecord]
        cases hparse : parse val₂ with
        | error e => rfl
        | ok found =>
          cases found with
          | none => exact ih hsound₂ hok₂ (by omega) name₁ val₂ res
          | some key => exact ih hsound₂ hok₂ (by omega) name₁ val₂ _

/-- The loop over some pairs returns when every second word is parsed, and then with their records. -/
theorem foldlM_pushRecord_eq_ok_iff {ps : List (Bytes × Bytes)} {res found : List (Bytes × KEY)} :
    ps.foldlM (pushRecord parse) res = .ok found ↔
      (∀ p ∈ ps, ∃ r, parse p.2 = .ok r) ∧ found = res ++ recordsOf parse ps := by
  induction ps generalizing res with
  | nil =>
    rw [recordsOf, List.filterMap_nil, List.append_nil]
    exact ⟨fun h => ⟨fun p hp => absurd hp List.not_mem_nil, (Except.ok.inj h).symm⟩, fun h => h.2 ▸ rfl⟩
  | cons p ps ih =>
    rw [List.foldlM_cons, List.forall_mem_cons]
    cases hparse : parse p.2 with
    | error e =>
      constructor
      · intro h
        simp only [pushRecord, hparse] at h
        cases h
      · rintro ⟨⟨⟨r, hr⟩, -⟩, -⟩
        cases hr
    | ok r =>
      have hhead : ∃ r', (.ok r : Except Fault (Option KEY)) = .ok r' := ⟨r, rfl⟩
      cases r with
      | none =>
        simp only [pushRecord, hparse, ok_bind, pure_eq_ok, ih, hhead, true_and, recordsOf, List.filterMap_cons, Except.toOption,
          Option.join_some, Option.map_none]
      | some key =>
        simp only [pushRecord, hparse, ok_bind, pure_eq_ok, ih, hhead, true_and, recordsOf, List.filterMap_cons, Except.toOption,
          Option.join_some, Option.map_some, List.append_assoc, List.singleton_append]

end Loop

/-- The records of addresses of a file. -/
def addressRecords (file : Option Bytes) : List (Bytes × Ip4Addr) := recordsOf strToIp4Addr (filePairs file)

theorem dnsParseRecordsA_eq {file : Option Bytes} {fuel : Nat} (hfuel : (filePairs file).length < fuel) :
    dnsParseRecordsA fuel file = (filePairs file).foldlM (pushRecord strToIp4Addr) [] := by
  cases file with
  | none => rfl
  | some file => exact parseRecordsLoop_eq (InStream.sound_ofString file) rfl hfuel [] [] []

/-- Every pair of words is a record of a mail server. -/
theorem dnsParseRecordsMx_eq {file : Option Bytes} {fuel : Nat} (hfuel : (filePairs file).length < fuel) :
    dnsParseRecordsMx fuel file = .ok (filePairs file) := by
  cases file with
  | none => rfl
  | some file =>
    have hall : recordsOf (fun val => .ok (some val)) (filePairs (some file)) = filePairs (some file) :=
      List.filterMap_some
    refine (parseRecordsLoop_eq (InStream.sound_ofString file) rfl hfuel [] [] []).trans ?_
    exact foldlM_pushRecord_eq_ok_iff.mpr ⟨fun p _ => ⟨_, rfl⟩, hall.symm⟩

/-! ## Adding records -/

section Records

variable {KEY : Type}

/-- The key of the last record of a name. -/
def lastRecord (records : List (Bytes × KEY)) (name : Bytes) : Option KEY := (records.reverse.find? (·.1 = name)).map Prod.snd

theorem lastRecord_concat (records : List (Bytes × KEY)) (r : Bytes × KEY) (name : Bytes) :
    lastRecord (records ++ [r]) name = if r.1 = name then some r.2 else lastRecord records name := by
  unfold lastRecord
  rw [List.reverse_append, List.reverse_singleton, List.singleton_append, List.find?_cons]
  by_cases hname : r.1 = name
  · simp [hname]
  · simp [hname]

theorem lastRecord_map {VALUE : Type} (f : KEY → VALUE) (records : List (Bytes × KEY)) (name : Bytes) :
    lastRecord (records.map fun r => (r.1, f r.2)) name = (lastRecord records name).map f := by
  induction records using List.reverseRecOn with
  | nil => rfl
  | append_singleton records r ih =>
    rw [List.map_append, List.map_singleton, lastRecord_concat, lastRecord_concat, ih]
    split <;> rfl

variable [Inhabited KEY]

/-- Record after record. -/
def addRecords (mappings : TrieNode assignRange KEY) (records : List (Bytes × KEY)) : Except Fault (TrieNode assignRange KEY) :=
  records.foldlM (fun mappings r => addRecord mappings r.1 r.2) mappings

/-- A name that a record is added under is ASCII. -/
theorem asciiName_of_addRecord {mappings mappings' : TrieNode assignRange KEY} {name : Bytes} {key : KEY}
    (h : addRecord mappings name key = .ok mappings') : AsciiName name := by
  have hne : name ≠ [] := by
    rintro rfl
    rw [addRecord, addWord, if_pos rfl] at h
    cases h
  rw [addRecord, addWord, if_neg hne, bind_eq_ok_iff] at h
  obtain ⟨⟨node, ptr⟩, hword, -⟩ := h
  obtain ⟨node₁, hloop, -⟩ := (bind_eq_ok_iff _ _ _).mp hword
  intro b hb
  by_contra hlarge
  have hout : assignRange ≤ assign b :=
    (assignRange_le_assign_iff b).mpr (UInt8.le_iff_toNat_le.mpr (Nat.le_of_not_lt hlarge))
  exact absurd (inRange_of_addWordLoop hloop b hb) (Nat.not_lt.mpr hout)

/-- Records can be added when their names are ASCII, and then the last under each name is found. -/
theorem addRecords_spec {records : List (Bytes × KEY)} (hne : ∀ r ∈ records, r.1 ≠ []) :
    ((∃ mappings, addRecords .new records = .ok mappings) ↔ ∀ r ∈ records, AsciiName r.1) ∧
      ∀ mappings, addRecords .new records = .ok mappings →
        ∀ name, AsciiName name → searchRecord mappings name = .ok (lastRecord records name) := by
  induction records using List.reverseRecOn with
  | nil =>
    refine ⟨⟨fun _ r hr => absurd hr List.not_mem_nil, fun _ => ⟨_, rfl⟩⟩, fun mappings h name hname => ?_⟩
    obtain rfl := Except.ok.inj h
    rw [searchRecord_eq_keyOf]
    exact keyOf_new hname.inRange
  | append_singleton records r ih =>
    obtain ⟨hiff, hfound⟩ := ih fun r' hr' => hne r' (List.mem_append_left _ hr')
    have hr : r.1 ≠ [] := hne r (List.mem_append_right _ List.mem_cons_self)
    have hsplit (mappings' : TrieNode assignRange KEY) : addRecords .new (records ++ [r]) = .ok mappings' ↔
        ∃ mappings, addRecords .new records = .ok mappings ∧ addRecord mappings r.1 r.2 = .ok mappings' := by
      rw [addRecords, List.foldlM_append, bind_eq_ok_iff]
      simp only [List.foldlM_cons, List.foldlM_nil, bind_pure]
      rfl
    constructor
    · constructor
      · rintro ⟨mappings', h⟩
        obtain ⟨mappings, hadds, hadd⟩ := (hsplit mappings').mp h
        intro r' hr'
        rcases List.mem_append.mp hr' with hr' | hr'
        · exact hiff.mp ⟨mappings, hadds⟩ r' hr'
        · rw [List.mem_singleton.mp hr']
          exact asciiName_of_addRecord hadd
      · intro hnames
        obtain ⟨mappings, hadds⟩ := hiff.mpr fun r' hr' => hnames r' (List.mem_append_left _ hr')
        obtain ⟨mappings', hadd, -⟩ := addRecord_spec mappings hr (hnames r (List.mem_append_right _ List.mem_cons_self)) r.2
        exact ⟨mappings', (hsplit mappings').mpr ⟨mappings, hadds, hadd⟩⟩
    · intro mappings' h name hname
      obtain ⟨mappings, hadds, hadd⟩ := (hsplit mappings').mp h
      obtain ⟨mappings'', hadd', hself, hothers⟩ := addRecord_spec mappings hr (asciiName_of_addRecord hadd) r.2
      obtain rfl := Except.ok.inj (hadd'.symm.trans hadd)
      rw [lastRecord_concat]
      by_cases hsame : r.1 = name
      · rw [if_pos hsame, ← hsame, hself]
      · rw [if_neg hsame, hothers name hname (Ne.symm hsame), hfound mappings hadds name hname]

end Records

/-! ## Filling the database -/

theorem foldlM_addRecordA (records : List (Bytes × Ip4Addr)) (db : DnsDatabase) :
    records.foldlM (fun database r => database.addRecordA r.1 r.2) db =
      (addRecords db.mappingsA (records.map fun r => (r.1, some r.2))).map fun mappings => { db with mappingsA := mappings } := by
  induction records generalizing db with
  | nil => rfl
  | cons r records ih =>
    simp only [List.foldlM_cons, List.map_cons, addRecords, DnsDatabase.addRecordA]
    cases hadd : addRecord db.mappingsA r.1 (some r.2) with
    | error e => rfl
    | ok mappings =>
      simp only [ok_bind, pure_eq_ok]
      exact ih { db with mappingsA := mappings }

theorem foldlM_addRecordMx (records : List (Bytes × Bytes)) (db : DnsDatabase) :
    records.foldlM (fun database r => database.addRecordMx r.1 r.2) db =
      (addRecords db.mappingsMx records).map fun mappings => { db with mappingsMx := mappings } := by
  induction records generalizing db with
  | nil => rfl
  | cons r records ih =>
    simp only [List.foldlM_cons, addRecords, DnsDatabase.addRecordMx]
    cases hadd : addRecord db.mappingsMx r.1 r.2 with
    | error e => rfl
    | ok mappings =>
      simp only [ok_bind, pure_eq_ok]
      exact ih { db with mappingsMx := mappings }

end NetworkingFramework
