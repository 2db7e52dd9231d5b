import NetworkingFramework.DnsDatabase
import NetworkingFramework.Lemmas.Trie

/-!
# The database as a map

Over ASCII names, a database reached by adding records holds, under each name, the address that was added last
(`addAll_searchRecordA`).
-/

namespace NetworkingFramework

open Wire TrieNode

/-- The name is ASCII. -/
def AsciiName (name : Bytes) : Prop := ∀ b ∈ name, b.toNat < 128

theorem assign_injective : Function.Injective assign := by
  intro b c h
  have hb : b.toNat < 256 := b.toNat_lt
  have hc : c.toNat < 256 := c.toNat_lt
  apply UInt8.toNat_inj.mp
  unfold assign at h
  split at h <;> split at h <;> omega

/-- The indexes of an ASCII name lie in the array. -/
theorem AsciiName.inRange {name : Bytes} (h : AsciiName name) : InRange assignRange assign name := by
  intro b hb
  have hlt : b.toNat < 128 := h b hb
  rw [assign, if_pos hlt, assignRange]
  omega

/-! ## One trie -/

theorem searchRecord_eq_keyOf {KEY : Type} (mappings : TrieNode assignRange KEY) (name : Bytes) :
    searchRecord mappings name = mappings.keyOf assign name := by
  unfold searchRecord keyOf
  cases mappings.search assign name with
  | error e => rfl
  | ok found =>
    cases found with
    | none => rfl
    | some res => cases hmarked : res.marked <;> simp [Option.filter_some, hmarked]

/-- Adding a record is an update of the map. -/
theorem addRecord_spec {KEY : Type} [Inhabited KEY] (mappings : TrieNode assignRange KEY) {name : Bytes} (hne : name ≠ [])
    (hname : AsciiName name) (key : KEY) :
    ∃ mappings', addRecord mappings name key = .ok mappings' ∧ searchRecord mappings' name = .ok (some key) ∧
      ∀ name', AsciiName name' → name' ≠ name → searchRecord mappings' name' = searchRecord mappings name' := by
  obtain ⟨node, mappings', hadd, hwrite, hkey, hrest⟩ := addWord_writeKey assign_injective hne hname.inRange key mappings
  refine ⟨mappings', ?_, ?_, fun name' hname' hne' => ?_⟩
  · rw [addRecord, hadd]
    exact hwrite
  · rw [searchRecord_eq_keyOf, hkey]
  · rw [searchRecord_eq_keyOf, searchRecord_eq_keyOf, hrest name' hname'.inRange hne']

/-! ## Runs -/

/-- The address that was added last under a name. -/
def lastA : List DnsAdd → Bytes → Option Ip4Addr
  | [], _ => none
  | .a name addr :: adds, name' => (lastA adds name').or (if name = name' then some addr else none)
  | .mx _ _ :: adds, name' => lastA adds name'

/-- A database that holds the addresses of a map under ASCII names. -/
def DnsDatabase.HoldsA (db : DnsDatabase) (records : Bytes → Option Ip4Addr) : Prop :=
  ∀ name, AsciiName name → searchRecord db.mappingsA name = .ok ((records name).map some)

theorem DnsDatabase.HoldsA.searchRecordA {db : DnsDatabase} {records : Bytes → Option Ip4Addr} (h : db.HoldsA records)
    {name : Bytes} (hname : AsciiName name) : db.searchRecordA name = .ok (records name) := by
  rw [DnsDatabase.searchRecordA, h name hname]
  cases records name <;> rfl

theorem DnsDatabase.empty_holdsA : DnsDatabase.empty.HoldsA fun _ => none := by
  intro name hname
  rw [searchRecord_eq_keyOf]
  exact keyOf_new hname.inRange

/-- What one call does to the addresses held. -/
theorem DnsDatabase.HoldsA.add {db : DnsDatabase} {records : Bytes → Option Ip4Addr} (h : db.HoldsA records) (op : DnsAdd)
    (hne : op.name ≠ []) (hname : AsciiName op.name) :
    ∃ db', db.add op = .ok db' ∧ db'.HoldsA fun name => (lastA [op] name).or (records name) := by
  cases op with
  | mx name res =>
    obtain ⟨mappings, hadd, -, -⟩ := @addRecord_spec _ _ db.mappingsMx name hne hname res
    refine ⟨{ db with mappingsMx := mappings }, ?_, fun name' hname' => h name' hname'⟩
    rw [DnsDatabase.add, addRecordMx, hadd]
    rfl
  | a name addr =>
    obtain ⟨mappings, hadd, hkey, hrest⟩ := @addRecord_spec _ _ db.mappingsA name hne hname (some addr)
    refine ⟨{ db with mappingsA := mappings }, ?_, fun name' hname' => ?_⟩
    · rw [DnsDatabase.add, addRecordA, hadd]
      rfl
    · by_cases heq : name = name'
      · subst heq
        simp [lastA, hkey]
      · have hother := hrest name' hname' fun h => heq h.symm
        simp [lastA, heq, hother, h name' hname']

/-- After any calls with ASCII names, a search finds the address that was added last under the name. -/
theorem DnsDatabase.addAll_holdsA {adds : List DnsAdd} (hnames : ∀ op ∈ adds, op.name ≠ [] ∧ AsciiName op.name)
    {db : DnsDatabase} {records : Bytes → Option Ip4Addr} (h : db.HoldsA records) :
    ∃ db', db.addAll adds = .ok db' ∧ db'.HoldsA fun name => (lastA adds name).or (records name) := by
  induction adds generalizing db records with
  | nil => exact ⟨db, rfl, h⟩
  | cons op adds ih =>
    obtain ⟨hne, hname⟩ := hnames op List.mem_cons_self
    obtain ⟨db₁, hadd, h₁⟩ := h.add op hne hname
    obtain ⟨db', hall, h'⟩ := ih (fun op' hop' => hnames op' (List.mem_cons_of_mem op hop')) h₁
    have hlast : (fun name => (lastA (op :: adds) name).or (records name)) =
        fun name => (lastA adds name).or ((lastA [op] name).or (records name)) := by
      funext name
      cases op <;> simp [lastA, Option.or_assoc]
    refine ⟨db', ?_, ?_⟩
    · rw [DnsDatabase.addAll, List.foldlM_cons, hadd]
      exact hall
    · rw [hlast]
      exact h'

end NetworkingFramework
