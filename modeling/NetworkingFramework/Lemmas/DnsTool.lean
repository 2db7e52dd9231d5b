import NetworkingFramework.DnsTool
import NetworkingFramework.Lemmas.DnsDatabase
import NetworkingFramework.Lemmas.DnsRdata

/-!
# How a server answers

What `handle_query` adds for one query (`answerQuery_eq`) and for all of them (`answerQueries_ok_iff`), when the names are made of
labels over ASCII and no query asks for a mail server. It returns when the record of authority can be made for every query
that has no address, which the layout of a stack frame decides (`getMyStartOfAuthority_ok_iff`).
-/

namespace NetworkingFramework

open Wire

/-! ## The record of authority -/

/-- The answer to a query for a mail server that was stored. -/
def mxAnswer (query : DnsQuery) (v : Bytes) : DnsAnswer where
  name := query.qName
  type := query.qType
  class_ := query.qClass
  ttl := 3600
  dataLen := UInt16.ofNat (mxRdataBytes ⟨10, v⟩).length
  rdata := mxRdataBytes ⟨10, v⟩

theorem mxAnswer_dataLen (query : DnsQuery) (v : Bytes) :
    (mxAnswer query v).dataLen.toNat = (mxRdataBytes ⟨10, v⟩).length % 65536 := UInt16.toNat_ofNat'

/-- What it counts is there, for a count is not rounded up. -/
theorem mxAnswer_dataLen_le (query : DnsQuery) (v : Bytes) :
    (mxAnswer query v).dataLen.toNat ≤ (mxAnswer query v).rdata.length := by
  rw [mxAnswer_dataLen]
  exact Nat.mod_le _ _

namespace DnsTool

/-- The names in the server's own record of authority are short. -/
theorem convertMyStartOfAuthority_ok_iff (frame : SoaFrame) :
    (∃ rdata, convertSoaToRdata frame myStartOfAuthority = .ok rdata) ↔ frame.Forward := by
  have hshort : (chars "none" ++ [0]).length < 2 ^ 31 := by decide
  rw [convertSoaToRdata_ok_iff]
  exact ⟨fun h => h.2.2, fun h => ⟨hshort, hshort, h⟩⟩

theorem getMyStartOfAuthority_ok_iff (frame : SoaFrame) : (∃ a, getMyStartOfAuthority frame = .ok a) ↔ frame.Forward := by
  rw [← convertMyStartOfAuthority_ok_iff frame]
  refine ⟨fun h => ?_, fun h => ?_⟩
  · obtain ⟨a, h⟩ := h
    obtain ⟨rdata, hrdata, -⟩ := (bind_eq_ok_iff _ _ _).mp h
    exact ⟨rdata, hrdata⟩
  · obtain ⟨rdata, hrdata⟩ := h
    rw [getMyStartOfAuthority, hrdata]
    exact ⟨_, rfl⟩

/-- The record was made by `get_my_start_of_authority`. -/
def IsStartOfAuthority (a : DnsAnswer) : Prop := ∃ frame, getMyStartOfAuthority frame = .ok a

/-- What does not depend on the stack in a record of authority. -/
theorem IsStartOfAuthority.fields {a : DnsAnswer} (h : IsStartOfAuthority a) :
    a.name = chars "some local dns server" ++ [0] ∧ a.type = dnsRecordTypeSoa ∧ a.dataLen.toNat ≤ a.rdata.length := by
  obtain ⟨frame, h⟩ := h
  obtain ⟨rdata, -, h⟩ := (bind_eq_ok_iff _ _ _).mp h
  obtain rfl := Except.ok.inj h
  refine ⟨rfl, rfl, ?_⟩
  show (UInt16.ofNat rdata.length).toNat ≤ rdata.length
  rw [UInt16.toNat_ofNat']
  exact Nat.mod_le _ _

theorem nameOver_startOfAuthority : NameOver Plain (chars "some local dns server" ++ [0]) := by
  have hlen : (chars "some local dns server").length = 21 := by decide
  have hbytes : ∀ b ∈ chars "some local dns server", b ≠ 0 ∧ b ≠ dot ∧ b &&& jumpMask ≠ jumpMask := by
    decide +kernel
  refine ⟨[chars "some local dns server"], by simp, fun l hl => ?_, rfl⟩
  obtain rfl := List.mem_singleton.mp hl
  rw [hlen]
  exact ⟨by decide, by decide, hbytes⟩

/-! ## One query -/

/-- The address that a server has for a query. -/
def addressFor (records : Bytes → Option Ip4Addr) (query : DnsQuery) : Option Ip4Addr :=
  if query.qType = dnsRecordTypeA then records query.qName.dropLast else none

/-- The answer with an address. -/
def addressAnswer (query : DnsQuery) (addr : Ip4Addr) : DnsAnswer :=
  ⟨query.qName, query.qType, query.qClass, 3600, 4, addr.octets.toList⟩

/-- The answers to the queries that have an address. -/
def addressAnswers (records : Bytes → Option Ip4Addr) (queries : List DnsQuery) : List DnsAnswer :=
  queries.filterMap fun query => (addressFor records query).map (addressAnswer query)

/-- The queries that have none. -/
def unanswered (records : Bytes → Option Ip4Addr) (queries : List DnsQuery) : List DnsQuery :=
  queries.filter fun query => (addressFor records query).isNone

/-- Every query is answered, one way or the other. -/
theorem length_addressAnswers_add (records : Bytes → Option Ip4Addr) (queries : List DnsQuery) :
    (addressAnswers records queries).length + (unanswered records queries).length = queries.length := by
  induction queries with
  | nil => rfl
  | cons query queries ih =>
    unfold addressAnswers unanswered at ih ⊢
    cases haddr : addressFor records query with
    | some addr =>
      simp only [List.filterMap_cons, List.filter_cons, haddr, Option.map_some, Option.isNone_some, List.length_cons,
        Bool.false_eq_true, if_false]
      omega
    | none =>
      simp only [List.filterMap_cons, List.filter_cons, haddr, Option.map_none, Option.isNone_none, List.length_cons, if_true]
      omega

/-- What is known of an answer with an address. -/
theorem mem_addressAnswers {records : Bytes → Option Ip4Addr} {queries : List DnsQuery} {a : DnsAnswer}
    (h : a ∈ addressAnswers records queries) : ∃ query ∈ queries, ∃ addr, a = addressAnswer query addr := by
  obtain ⟨query, hquery, hmap⟩ := List.mem_filterMap.mp h
  obtain ⟨addr, -, rfl⟩ := Option.map_eq_some_iff.mp hmap
  exact ⟨query, hquery, addr, rfl⟩

theorem addressAnswer_dataLen (query : DnsQuery) (addr : Ip4Addr) :
    (addressAnswer query addr).dataLen.toNat = (addressAnswer query addr).rdata.length := by
  unfold addressAnswer
  exact (List.Vector.toList_length addr.octets).symm

/-- A query for a name of ASCII labels that does not ask for a mail server. -/
def Plausible (query : DnsQuery) : Prop := NameOver AsciiByte query.qName ∧ query.qType ≠ dnsRecordTypeMx

theorem mem_joinLabels {labels : List Bytes} {b : UInt8} (h : b ∈ joinLabels labels) : b = dot ∨ ∃ l ∈ labels, b ∈ l := by
  cases labels with
  | nil => exact absurd h List.not_mem_nil
  | cons l ls =>
    rw [joinLabels_cons, List.mem_append, List.mem_flatMap] at h
    rcases h with h | ⟨l', hl', h⟩
    · exact .inr ⟨l, List.mem_cons_self, h⟩
    · rcases List.mem_cons.mp h with h | h
      · exact .inl h
      · exact .inr ⟨l', List.mem_cons_of_mem l hl', h⟩

/-- The string of a name is the name without its null byte, and ASCII. -/
theorem cString_name {name : Bytes} (h : NameOver AsciiByte name) : cString name = .ok name.dropLast ∧ AsciiName name.dropLast := by
  obtain ⟨labels, -, hlabels, rfl⟩ := h
  have hbytes : ∀ b ∈ joinLabels labels, b.toNat < 128 ∧ b ≠ 0 := by
    intro b hb
    rcases mem_joinLabels hb with rfl | ⟨l, hl, hbl⟩
    · decide
    · exact ⟨((hlabels l hl).2.2 b hbl).1, ((hlabels l hl).2.2 b hbl).2.1⟩
  rw [List.dropLast_concat]
  refine ⟨?_, fun b hb => (hbytes b hb).1⟩
  have hzero : (0 : UInt8) ∈ joinLabels labels ++ [0] := by simp
  have htake : (joinLabels labels ++ [0]).takeWhile (· ≠ 0) = joinLabels labels := by
    rw [List.takeWhile_append_of_pos fun b hb => decide_eq_true (hbytes b hb).2]
    simp
  rw [cString, if_pos hzero, htake]

/-- What the loop adds for a query, whatever it is: the address or the mail server that the database holds for it, or the record
of authority. -/
theorem answerQuery_cases {db : DnsDatabase} {frame : SoaFrame} {query : DnsQuery} {answers authAns : List DnsAnswer}
    (h : answerQuery db frame query = .ok (answers, authAns)) :
    (∃ addr, query.qType = dnsRecordTypeA ∧ (cString query.qName >>= db.searchRecordA) = .ok (some addr) ∧
      answers = [addressAnswer query addr] ∧ authAns = []) ∨
    (∃ v, query.qType = dnsRecordTypeMx ∧ (cString query.qName >>= db.searchRecordMx) = .ok (some v) ∧ v.length < 2 ^ 31 ∧
      answers = [mxAnswer query v] ∧ authAns = []) ∨
    (query.qType = dnsRecordTypeA → (cString query.qName >>= db.searchRecordA) = .ok none) ∧
      (query.qType = dnsRecordTypeMx → (cString query.qName >>= db.searchRecordMx) = .ok none) ∧
      ∃ a, getMyStartOfAuthority frame = .ok a ∧ answers = [] ∧ authAns = [a] := by
  have hne : dnsRecordTypeA ≠ dnsRecordTypeMx := by decide
  have hsoa (h : (getMyStartOfAuthority frame >>= fun a => .ok ([], [a])) = .ok (answers, authAns)) :
      ∃ a, getMyStartOfAuthority frame = .ok a ∧ answers = [] ∧ authAns = [a] := by
    obtain ⟨a, ha, hpair⟩ := (bind_eq_ok_iff _ _ _).mp h
    obtain ⟨rfl, rfl⟩ := Prod.mk.inj (Except.ok.inj hpair)
    exact ⟨a, ha, rfl, rfl⟩
  unfold answerQuery at h
  by_cases hA : query.qType = dnsRecordTypeA
  · rw [if_pos hA] at h
    obtain ⟨name, hname, h⟩ := (bind_eq_ok_iff _ _ _).mp h
    obtain ⟨res, hres, h⟩ := (bind_eq_ok_iff _ _ _).mp h
    rw [hname, ok_bind, hres]
    cases res with
    | none => exact .inr (.inr ⟨fun _ => rfl, fun hMx => absurd (hA.symm.trans hMx) hne, hsoa h⟩)
    | some addr =>
      obtain ⟨rfl, rfl⟩ := Prod.mk.inj (Except.ok.inj h)
      exact .inl ⟨addr, hA, rfl, rfl, rfl⟩
  rw [if_neg hA] at h
  by_cases hMx : query.qType = dnsRecordTypeMx
  · rw [if_pos hMx] at h
    obtain ⟨name, hname, h⟩ := (bind_eq_ok_iff _ _ _).mp h
    obtain ⟨res, hres, h⟩ := (bind_eq_ok_iff _ _ _).mp h
    rw [hname, ok_bind, ok_bind, hres]
    cases res with
    | none => exact .inr (.inr ⟨fun hA' => absurd hA' hA, fun _ => rfl, hsoa h⟩)
    | some v =>
      obtain ⟨rdata, hrdata, h⟩ := (bind_eq_ok_iff _ _ _).mp h
      obtain ⟨hlt, rfl⟩ := (convertMxToRdata_ok_iff ..).mp hrdata
      obtain ⟨rfl, rfl⟩ := Prod.mk.inj (Except.ok.inj h)
      exact .inr (.inl ⟨v, hMx, rfl, hlt, rfl, rfl⟩)
  · rw [if_neg hMx] at h
    exact .inr (.inr ⟨fun hA' => absurd hA' hA, fun hMx' => absurd hMx' hMx, hsoa h⟩)

/-- What the loop adds for a query: an answer when the database has an address, and the record of authority otherwise. -/
theorem answerQuery_eq {db : DnsDatabase} {records : Bytes → Option Ip4Addr} (hdb : db.HoldsA records) (frame : SoaFrame)
    {query : DnsQuery} (hquery : Plausible query) :
    answerQuery db frame query =
      match addressFor records query with
      | some addr => .ok ([addressAnswer query addr], [])
      | none => (getMyStartOfAuthority frame).map fun a => ([], [a]) := by
  obtain ⟨hstring, hascii⟩ := cString_name hquery.1
  unfold answerQuery addressFor
  by_cases hA : query.qType = dnsRecordTypeA
  · rw [if_pos hA, if_pos hA, hstring, ok_bind, hdb.searchRecordA hascii, ok_bind]
    cases records query.qName.dropLast with
    | some addr => rfl
    | none => exact bind_ok_eq_map _ _
  · rw [if_neg hA, if_neg hA, if_neg hquery.2]
    exact bind_ok_eq_map _ _

/-- The loop goes on when there is an address, or the record of authority can be made. -/
theorem answerQuery_ok_iff {db : DnsDatabase} {records : Bytes → Option Ip4Addr} (hdb : db.HoldsA records) (frame : SoaFrame)
    {query : DnsQuery} (hquery : Plausible query) :
    (∃ r, answerQuery db frame query = .ok r) ↔ (addressFor records query = none → frame.Forward) := by
  rw [answerQuery_eq hdb frame hquery]
  cases addressFor records query with
  | some addr => simp
  | none =>
    simp only [map_eq_ok_iff, true_implies, ← getMyStartOfAuthority_ok_iff]
    refine ⟨fun h => ?_, fun h => ?_⟩
    · obtain ⟨_, a, ha, -⟩ := h
      exact ⟨a, ha⟩
    · obtain ⟨a, ha⟩ := h
      exact ⟨_, a, ha, rfl⟩

/-- The records of a part of the reply: an answer for each query with an address, and for each other query a record of
authority. -/
def Answers (records : Bytes → Option Ip4Addr) (queries : List DnsQuery) (answers authAns : List DnsAnswer) : Prop :=
  answers = addressAnswers records queries ∧ authAns.length = (unanswered records queries).length ∧
    ∀ a ∈ authAns, IsStartOfAuthority a

theorem Answers.append {records : Bytes → Option Ip4Addr} {queries queries' : List DnsQuery}
    {answers answers' authAns authAns' : List DnsAnswer} (h : Answers records queries answers authAns)
    (h' : Answers records queries' answers' authAns') :
    Answers records (queries ++ queries') (answers ++ answers') (authAns ++ authAns') := by
  obtain ⟨rfl, hlen, hsoa⟩ := h
  obtain ⟨rfl, hlen', hsoa'⟩ := h'
  refine ⟨?_, ?_, fun a ha => ?_⟩
  · rw [addressAnswers, addressAnswers, addressAnswers, List.filterMap_append]
  · rw [unanswered, List.filter_append, List.length_append, List.length_append, hlen, hlen']
    rfl
  · rcases List.mem_append.mp ha with ha | ha
    · exact hsoa a ha
    · exact hsoa' a ha

theorem answerQuery_answers {db : DnsDatabase} {records : Bytes → Option Ip4Addr} (hdb : db.HoldsA records)
    {frame : SoaFrame} {query : DnsQuery} (hquery : Plausible query) {answers authAns : List DnsAnswer}
    (h : answerQuery db frame query = .ok (answers, authAns)) : Answers records [query] answers authAns := by
  rw [answerQuery_eq hdb frame hquery] at h
  unfold Answers addressAnswers unanswered
  cases haddr : addressFor records query with
  | some addr =>
    rw [haddr] at h
    obtain ⟨rfl, rfl⟩ := Prod.mk.inj (Except.ok.inj h)
    simp [haddr]
  | none =>
    rw [haddr] at h
    obtain ⟨a, ha, hpair⟩ := (map_eq_ok_iff _ _ _).mp h
    obtain ⟨rfl, rfl⟩ := Prod.mk.inj hpair
    refine ⟨by simp [haddr], by simp [haddr], fun b hb => ?_⟩
    rw [List.mem_singleton.mp hb]
    exact ⟨frame, ha⟩

/-! ## All queries -/

/-- The frames in which records of authority are made, for the queries without an address, are laid out forward. -/
def FramesForward (records : Bytes → Option Ip4Addr) (frames : Nat → SoaFrame) (queries : List DnsQuery) : Prop :=
  ∀ i query, queries[i]? = some query → addressFor records query = none → (frames i).Forward

theorem framesForward_cons (records : Bytes → Option Ip4Addr) (frames : Nat → SoaFrame) (query : DnsQuery)
    (queries : List DnsQuery) :
    FramesForward records frames (query :: queries) ↔
      (addressFor records query = none → (frames 0).Forward) ∧ FramesForward records (fun i => frames (i + 1)) queries := by
  refine ⟨fun h => ⟨h 0 query rfl, fun i q hq => h (i + 1) q hq⟩, fun h i q hq => ?_⟩
  cases i with
  | zero =>
    obtain rfl : query = q := Option.some.inj hq
    exact h.1
  | succ i => exact h.2 i q hq

/-- The loop adds what it adds for one query, and for those behind it. -/
theorem answerQueries_succ {db : DnsDatabase} {frames : Nat → SoaFrame} {queries : List DnsQuery} {count i : Nat}
    {answers authAns : List DnsAnswer} (h : answerQueries db frames queries (count + 1) i = .ok (answers, authAns)) :
    ∃ query answers₁ authAns₁ answers₂ authAns₂, queries[i]? = some query ∧
      answerQuery db (frames i) query = .ok (answers₁, authAns₁) ∧
      answerQueries db frames queries count (i + 1) = .ok (answers₂, authAns₂) ∧
      answers = answers₁ ++ answers₂ ∧ authAns = authAns₁ ++ authAns₂ := by
  unfold answerQueries at h
  split at h
  · cases h
  · rename_i query hquery
    obtain ⟨⟨answers₁, authAns₁⟩, h₁, h⟩ := (bind_eq_ok_iff _ _ _).mp h
    obtain ⟨⟨answers₂, authAns₂⟩, h₂, hpair⟩ := (bind_eq_ok_iff _ _ _).mp h
    obtain ⟨rfl, rfl⟩ := Prod.mk.inj (Except.ok.inj hpair)
    exact ⟨query, answers₁, authAns₁, answers₂, authAns₂, hquery, h₁, h₂, rfl, rfl⟩

/-- The loop from a query on does not look at the queries before. -/
theorem answerQueries_cons (db : DnsDatabase) (frames : Nat → SoaFrame) (query : DnsQuery) (queries : List DnsQuery)
    (count i : Nat) :
    answerQueries db frames (query :: queries) count (i + 1) = answerQueries db (fun i => frames (i + 1)) queries count i := by
  induction count generalizing i with
  | zero => rfl
  | succ count ih =>
    simp only [answerQueries, List.getElem?_cons_succ, ih]

/-- What the loop adds for a query is in the reply. -/
theorem mem_answerQueries {db : DnsDatabase} {frames : Nat → SoaFrame} {queries : List DnsQuery} {count i j : Nat}
    {answers authAns : List DnsAnswer} (h : answerQueries db frames queries count i = .ok (answers, authAns))
    (hi : i ≤ j) (hj : j < i + count) {query : DnsQuery} (hquery : queries[j]? = some query)
    {added addedAuth : List DnsAnswer} (hadded : answerQuery db (frames j) query = .ok (added, addedAuth)) :
    added ⊆ answers ∧ addedAuth ⊆ authAns := by
  induction count generalizing i answers authAns with
  | zero => omega
  | succ count ih =>
    obtain ⟨first, answers₁, authAns₁, answers₂, authAns₂, hfirst, h₁, h₂, rfl, rfl⟩ := answerQueries_succ h
    rcases Nat.eq_or_lt_of_le hi with rfl | hlt
    · obtain rfl := Option.some.inj (hfirst.symm.trans hquery)
      obtain ⟨rfl, rfl⟩ := Prod.mk.inj (Except.ok.inj (h₁.symm.trans hadded))
      exact ⟨List.subset_append_left _ _, List.subset_append_left _ _⟩
    · obtain ⟨hans, hauth⟩ := ih h₂ hlt (by omega)
      exact ⟨List.subset_append_of_subset_right _ hans, List.subset_append_of_subset_right _ hauth⟩

/-- The loop goes through exactly when the frames it needs are laid out forward. -/
theorem answerQueries_ok_iff {db : DnsDatabase} {records : Bytes → Option Ip4Addr} (hdb : db.HoldsA records)
    (frames : Nat → SoaFrame) {queries : List DnsQuery} (hqueries : ∀ query ∈ queries, Plausible query) :
    (∃ r, answerQueries db frames queries queries.length 0 = .ok r) ↔ FramesForward records frames queries := by
  induction queries generalizing frames with
  | nil => exact ⟨fun _ i q hq => (nomatch hq), fun _ => ⟨_, rfl⟩⟩
  | cons query queries ih =>
    have hrest := ih (fun i => frames (i + 1)) fun q hq => hqueries q (List.mem_cons_of_mem query hq)
    rw [framesForward_cons, ← answerQuery_ok_iff hdb (frames 0) (hqueries query List.mem_cons_self), ← hrest]
    simp only [List.length_cons, answerQueries, List.getElem?_cons_zero, answerQueries_cons, bind_eq_ok_iff]
    refine ⟨fun h => ?_, fun h => ?_⟩
    · obtain ⟨_, r₁, h₁, r₂, h₂, -⟩ := h
      exact ⟨⟨r₁, h₁⟩, r₂, h₂⟩
    · obtain ⟨⟨r₁, h₁⟩, r₂, h₂⟩ := h
      exact ⟨_, r₁, h₁, r₂, h₂, rfl⟩

/-- Then it has answered all queries. -/
theorem answerQueries_answers {db : DnsDatabase} {records : Bytes → Option Ip4Addr} (hdb : db.HoldsA records)
    {frames : Nat → SoaFrame} {queries : List DnsQuery} (hqueries : ∀ query ∈ queries, Plausible query)
    {answers authAns : List DnsAnswer} (h : answerQueries db frames queries queries.length 0 = .ok (answers, authAns)) :
    Answers records queries answers authAns := by
  induction queries generalizing frames answers authAns with
  | nil =>
    obtain ⟨rfl, rfl⟩ := Prod.mk.inj (Except.ok.inj h)
    exact ⟨rfl, rfl, fun a ha => absurd ha List.not_mem_nil⟩
  | cons query queries ih =>
    obtain ⟨first, answers₁, authAns₁, answers₂, authAns₂, hquery, h₁, h₂, rfl, rfl⟩ := answerQueries_succ h
    obtain rfl : query = first := Option.some.inj hquery
    rw [answerQueries_cons] at h₂
    have hfirst := answerQuery_answers hdb (hqueries query List.mem_cons_self) h₁
    exact hfirst.append (ih (fun q hq => hqueries q (List.mem_cons_of_mem query hq)) h₂)

end DnsTool
end NetworkingFramework
