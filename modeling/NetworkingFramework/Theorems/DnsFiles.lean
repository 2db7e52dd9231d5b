import NetworkingFramework.Lemmas.DnsFiles
import NetworkingFramework.Theorems.Ip4Texts

/-!
# What a DNS server reads from its files

Whatever the files contain, the server either cannot be filled, for a reason that can be read off their words, or it finds the last
record of each name. Records that are printed are read back.
-/

namespace NetworkingFramework

open Wire CText

/-! ## Filling the database -/

/-- The server can be filled from its files: no number of an address is too large to be converted, and no name of a record has a
byte above 127. -/
def Loadable (dbA dbMx : Option Bytes) : Prop :=
  (∀ p ∈ filePairs dbA, ¬Overflows p.2) ∧ (∀ r ∈ addressRecords dbA, AsciiName r.1) ∧ ∀ p ∈ filePairs dbMx, AsciiName p.1

/-- The database that is filled: its tries, after the records that were parsed were added. -/
theorem loadDatabase_computes_iff (dbA dbMx : Option Bytes) (db : DnsDatabase) :
    Computes (DnsServer.loadDatabase dbA dbMx) db ↔ (∀ p ∈ filePairs dbA, ¬Overflows p.2) ∧
      addRecords .new ((addressRecords dbA).map fun r => (r.1, some r.2)) = .ok db.mappingsA ∧
        addRecords .new (filePairs dbMx) = .ok db.mappingsMx := by
  have hloads (fuel : Nat) (hfuel : (filePairs dbA).length + (filePairs dbMx).length + 1 ≤ fuel) :
      DnsServer.loadDatabase dbA dbMx fuel = (do
        let database ← (← (filePairs dbA).foldlM (pushRecord strToIp4Addr) []).foldlM (fun database r =>
          database.addRecordA r.1 r.2) DnsDatabase.empty
        (filePairs dbMx).foldlM (fun database r => database.addRecordMx r.1 r.2) database) := by
    rw [DnsServer.loadDatabase, dnsParseRecordsA_eq (by omega), dnsParseRecordsMx_eq (by omega)]
    rfl
  have hparsed (p : Bytes × Bytes) : (∃ r, strToIp4Addr p.2 = .ok r) ↔ ¬Overflows p.2 := by
    rw [overflows_iff]
    cases strToIp4Addr p.2 <;> simp
  rw [computes_iff_of_forall hloads, bind_eq_ok_iff]
  constructor
  · rintro ⟨found, hfound, h⟩
    obtain ⟨hall, rfl⟩ := foldlM_pushRecord_eq_ok_iff.mp hfound
    obtain ⟨database, hA, hMx⟩ := (bind_eq_ok_iff _ _ _).mp h
    rw [List.nil_append, foldlM_addRecordA, map_eq_ok_iff] at hA
    obtain ⟨mappingsA, hA, rfl⟩ := hA
    rw [foldlM_addRecordMx, map_eq_ok_iff] at hMx
    obtain ⟨mappingsMx, hMx, rfl⟩ := hMx
    exact ⟨fun p hp => (hparsed p).mp (hall p hp), hA, hMx⟩
  · rintro ⟨hnone, hA, hMx⟩
    refine ⟨_, foldlM_pushRecord_eq_ok_iff.mpr ⟨fun p hp => (hparsed p).mpr (hnone p hp), rfl⟩, ?_⟩
    rw [List.nil_append, foldlM_addRecordA]
    rw [show DnsDatabase.empty.mappingsA = .new from rfl]
    change (Except.map _ (addRecords .new ((addressRecords dbA).map fun r => (r.1, some r.2))) >>= _) = _
    rw [hA, map_ok, ok_bind, foldlM_addRecordMx]
    change Except.map _ (addRecords .new (filePairs dbMx)) = _
    rw [hMx]
    rfl

theorem fst_ne_nil_of_mem_addressRecords {dbA : Option Bytes} :
    ∀ r ∈ (addressRecords dbA).map fun r => (r.1, some r.2), r.1 ≠ [] := by
  intro r hr
  obtain ⟨r', hr', rfl⟩ := List.mem_map.mp hr
  obtain ⟨p, hp, hparsed⟩ := List.mem_filterMap.mp hr'
  obtain ⟨addr, -, rfl⟩ := Option.map_eq_some_iff.mp hparsed
  exact fst_ne_nil_of_mem_filePairs hp

/-- What a database that was filled is searched for. -/
theorem search_of_loadDatabase {dbA dbMx : Option Bytes} {db : DnsDatabase} (h : Computes (DnsServer.loadDatabase dbA dbMx) db)
    {name : Bytes} (hname : AsciiName name) : db.searchRecordA name = .ok (lastRecord (addressRecords dbA) name) ∧
      db.searchRecordMx name = .ok (lastRecord (filePairs dbMx) name) := by
  obtain ⟨-, hA, hMx⟩ := (loadDatabase_computes_iff dbA dbMx db).mp h
  have hfoundA := (addRecords_spec fst_ne_nil_of_mem_addressRecords).2 db.mappingsA hA name hname
  refine ⟨?_, (addRecords_spec fun p hp => fst_ne_nil_of_mem_filePairs hp).2 db.mappingsMx hMx name hname⟩
  rw [DnsDatabase.searchRecordA, hfoundA, lastRecord_map]
  cases lastRecord (addressRecords dbA) name <;> rfl

theorem exists_loadDatabase_iff (dbA dbMx : Option Bytes) :
    (∃ db, Computes (DnsServer.loadDatabase dbA dbMx) db) ↔ Loadable dbA dbMx := by
  have hiffA := (addRecords_spec (@fst_ne_nil_of_mem_addressRecords dbA)).1
  have hiffMx := (addRecords_spec fun p (hp : p ∈ filePairs dbMx) => fst_ne_nil_of_mem_filePairs hp).1
  rw [List.forall_mem_map] at hiffA
  simp only [loadDatabase_computes_iff, Loadable]
  constructor
  · rintro ⟨db, hnone, hA, hMx⟩
    exact ⟨hnone, hiffA.mp ⟨_, hA⟩, hiffMx.mp ⟨_, hMx⟩⟩
  · rintro ⟨hnone, hA, hMx⟩
    obtain ⟨mappingsA, hA⟩ := hiffA.mpr hA
    obtain ⟨mappingsMx, hMx⟩ := hiffMx.mpr hMx
    exact ⟨⟨mappingsA, mappingsMx⟩, hnone, hA, hMx⟩

/-- Whatever is in the two files: the server can be filled from them exactly when no number of an address is too large and no
name has a byte above 127; and then it finds under each name the address, and the mail server, of the last pair of words that
gives one. -/
theorem loadDatabase_finds_last (dbA dbMx : Option Bytes) :
    ((∃ db, Computes (DnsServer.loadDatabase dbA dbMx) db) ↔ Loadable dbA dbMx) ∧
      ∀ db, Computes (DnsServer.loadDatabase dbA dbMx) db → ∀ name, AsciiName name →
        db.searchRecordA name = .ok (lastRecord (addressRecords dbA) name) ∧
          db.searchRecordMx name = .ok (lastRecord (filePairs dbMx) name) :=
  ⟨exists_loadDatabase_iff dbA dbMx, fun _ h _ hname => search_of_loadDatabase h hname⟩

/-- The last of two addresses of a name, between which there is a line that gives none, and an odd word. -/
example : lastRecord (addressRecords (some (chars "a 1.2.3.4\nb none\n a\t5.6.7.8 c"))) (chars "a") =
    some ⟨⟨[5, 6, 7, 8], rfl⟩⟩ := by
  decide +kernel

/-! ## Printed records -/

/-- Records, each on a line of its own. -/
def recordsText (records : List (Bytes × Bytes)) : Bytes := records.flatMap fun r => r.1 ++ chars " " ++ r.2 ++ chars "\n"

/-- A word has a character, and no white space. -/
def IsWord (word : Bytes) : Prop := word ≠ [] ∧ ∀ c ∈ word, isSpace c = false

theorem filePairs_recordsText {records : List (Bytes × Bytes)} (h : ∀ r ∈ records, IsWord r.1 ∧ IsWord r.2) :
    filePairs (some (recordsText records)) = records := by
  unfold filePairs recordsText
  induction records with
  | nil => rfl
  | cons r records ih =>
    obtain ⟨⟨⟨hname, hnameChars⟩, hval, hvalChars⟩, hrest⟩ := List.forall_mem_cons.mp h
    have hspace : isSpace ' '.toUInt8 = true := by decide
    have hline : isSpace '\n'.toUInt8 = true := by decide
    have hends {b : UInt8} (hb : isSpace b = true) (rest : Bytes) : ∀ c ∈ (b :: rest).head?, isSpace c = true := by
      intro c hc
      obtain rfl := Option.some.inj hc
      exact hb
    have hlines (rest : Bytes) :
        r.1 ++ chars " " ++ r.2 ++ chars "\n" ++ rest = r.1 ++ ' '.toUInt8 :: (r.2 ++ '\n'.toUInt8 :: rest) := by
      simp only [List.append_assoc]
      rfl
    rw [Option.getD_some, List.flatMap_cons, hlines, words_append hname hnameChars (hends hspace _), words_cons_space hspace,
      words_append hval hvalChars (hends hline _), words_cons_space hline, pairs]
    exact congrArg (r :: ·) (ih hrest)

theorem isWord_singleton {c : UInt8} (h : isSpace c = false) : IsWord [c] := by
  refine ⟨List.cons_ne_nil c [], ?_⟩
  intro b hb
  rw [List.mem_singleton.mp hb]
  exact h

/-- A printed address is a word. -/
theorem isWord_ip4AddrToStr (addr : Ip4Addr) : IsWord (ip4AddrToStr addr) := by
  constructor
  · unfold ip4AddrToStr
    exact List.append_ne_nil_of_right_ne_nil _ (printNat_ne_nil 10 _)
  · intro c hc
    rcases (isAddress_ip4AddrToStr addr).mem hc with hdigit | rfl
    · exact not_isSpace_of_isDigit hdigit
    · decide

/-- Records that are written to files line by line, are read back as they are. -/
theorem dnsParseRecords_round_trip (addresses : List (Bytes × Ip4Addr)) (servers : List (Bytes × Bytes))
    (haddresses : ∀ r ∈ addresses, IsWord r.1) (hservers : ∀ r ∈ servers, IsWord r.1 ∧ IsWord r.2) :
    Computes (fun fuel => dnsParseRecordsA fuel (some (recordsText (addresses.map fun r => (r.1, ip4AddrToStr r.2))))) addresses ∧
      Computes (fun fuel => dnsParseRecordsMx fuel (some (recordsText servers))) servers := by
  have hwords : ∀ r ∈ addresses.map fun r => (r.1, ip4AddrToStr r.2), IsWord r.1 ∧ IsWord r.2 := by
    intro r hr
    obtain ⟨r', hr', rfl⟩ := List.mem_map.mp hr
    exact ⟨haddresses r' hr', isWord_ip4AddrToStr r'.2⟩
  have hparsed (addr : Ip4Addr) : strToIp4Addr (ip4AddrToStr addr) = .ok (some addr) := (isAddress_ip4AddrToStr addr).parsed
  constructor
  · refine (computes_iff_of_forall (fun fuel hfuel => dnsParseRecordsA_eq (Nat.lt_of_succ_le hfuel)) _).mpr ?_
    rw [filePairs_recordsText hwords]
    refine foldlM_pushRecord_eq_ok_iff.mpr ⟨fun p hp => ?_, ?_⟩
    · obtain ⟨r, -, rfl⟩ := List.mem_map.mp hp
      exact ⟨_, hparsed r.2⟩
    · rw [recordsOf, List.filterMap_map, List.nil_append]
      have hsame : ((fun p => (strToIp4Addr p.2).toOption.join.map fun key => (p.1, key)) ∘ fun r : Bytes × Ip4Addr =>
          (r.1, ip4AddrToStr r.2)) = some := by
        funext r
        simp only [Function.comp_apply, hparsed]
        rfl
      rw [hsame, List.filterMap_some]
  · refine (computes_iff_of_forall (fun fuel hfuel => dnsParseRecordsMx_eq (Nat.lt_of_succ_le hfuel)) _).mpr ?_
    rw [filePairs_recordsText hservers]

/-- An address of `a`, and a mail server of `b`. -/
theorem dnsParseRecords_round_trip_two :
    Computes (fun fuel => dnsParseRecordsA fuel (some (recordsText ([(chars "a", ip4AddrEmpty)].map fun r =>
      (r.1, ip4AddrToStr r.2))))) [(chars "a", ip4AddrEmpty)] ∧
      Computes (fun fuel => dnsParseRecordsMx fuel (some (recordsText [(chars "b", chars "c")]))) [(chars "b", chars "c")] := by
  have hspaces : isSpace 97 = false ∧ isSpace 98 = false ∧ isSpace 99 = false := by decide
  refine dnsParseRecords_round_trip _ _ ?_ ?_
  · intro r hr
    obtain rfl := List.mem_singleton.mp hr
    exact isWord_singleton hspaces.1
  · intro r hr
    obtain rfl := List.mem_singleton.mp hr
    exact ⟨isWord_singleton hspaces.2.1, isWord_singleton hspaces.2.2⟩

end NetworkingFramework
