import NetworkingFramework.PtpGenerator
import NetworkingFramework.Lemmas.PtpPath
import NetworkingFramework.Lemmas.PtpNode

/-!
# PTP sessions

A PTP generator keeps the sessions of a sequence of packets apart only if the sequence has at most one packet: the receiver of
the newest session is registered beside the generator's, gets every later packet whatever its path, and the generator makes a
session for every packet. Even the first packet is delivered twice when the session's receiver lies above the generator's.
-/

namespace NetworkingFramework
namespace PtpProtocol

open Wire OrderedSet Demux

/-! ## Packets that end at this endpoint -/

/-- The receiver of `connect_recv` takes packets. -/
theorem packet_of_connectRecv {cond : PtpHeader → Except Fault Bool} {data payload : Bytes} {h : PtpHeader}
    (hrecv : connectRecv cond data = .ok [(h, payload)]) : PtpPacket data h payload := by
  obtain ⟨⟨h', sz⟩, hx, hrest⟩ := (bind_eq_ok_iff _ _ _).mp hrecv
  obtain ⟨b, -, hb⟩ := (bind_eq_ok_iff _ _ _).mp hrest
  cases b with
  | false => simp at hb
  | true =>
    obtain ⟨payload', hsuffix, heq⟩ := (bind_eq_ok_iff _ _ _).mp hb
    obtain ⟨rfl, rfl⟩ : h' = h ∧ payload' = payload := by simpa using heq
    exact ptpPacket_of_suffix hx hsuffix

/-- The packet ends at this endpoint, with this path and payload. -/
def EndsHere (data : Bytes) (source : List PtpAction × Bytes) : Prop :=
  ∃ header, connectRecv ptpIsEndpointEnd data = .ok [(header, source.2)] ∧ header.actions = source.1

theorem EndsHere.singleRecv {data : Bytes} {source : List PtpAction × Bytes} (h : EndsHere data source) :
    netAccessSingleRecv data = .ok [source.2] := by
  obtain ⟨header, hrecv, -⟩ := h
  rw [netAccessSingleRecv, hrecv]
  rfl

theorem EndsHere.generatorRecv {data : Bytes} {source : List PtpAction × Bytes} (h : EndsHere data source) :
    generatorRecv data = (createReverseActions source.1).map fun reverse => [⟨source.1, reverse, source.2⟩] := by
  obtain ⟨header, hrecv, hactions⟩ := h
  rw [PtpProtocol.generatorRecv, hrecv, ok_bind, ← hactions, List.mapM_cons, List.mapM_nil]
  cases hrev : createReverseActions header.actions with
  | error e => simp [hrev]
  | ok reverse => simp [hrev]

/-- The path of such a packet can be reversed when its endpoints are starts and ends. -/
theorem EndsHere.reversible_iff {data : Bytes} {source : List PtpAction × Bytes} (h : EndsHere data source) :
    (∃ reverse, createReverseActions source.1 = .ok reverse) ↔ ∀ x ∈ source.1, x.Reversible := by
  obtain ⟨header, hrecv, hactions⟩ := h
  have hp := packet_of_connectRecv hrecv
  rw [← hactions]
  constructor
  · intro h
    rcases h with ⟨reverse, hreverse⟩
    exact reversible_of_createReverseActions hreverse
  · intro hrev
    exact ⟨_, createReverseActions_eq hp.wellFormed.2 hrev⟩

/-! ## Turns of the multiplexer's loop -/

section

variable {gen : Address} {addr : Nat → Address}

/-- The generator's turn. -/
theorem visit_generator {data : Bytes} {source : List PtpAction × Bytes} (h : EndsHere data source) (g : Generator)
    (out : Outcome (List PtpAction) Bytes) :
    (behaviour gen addr).visit data (g, out) gen = (createReverseActions source.1).map fun reverse =>
      ((⟨some (addr g.sessions.length), g.sessions ++ [reverse]⟩,
        ⟨out.opened ++ [source.1], out.delivered ++ [(g.sessions.length, source.2)]⟩),
        (setRecvAccess g.curr (addr g.sessions.length)).flatMap MultiRecvCall.changes) := by
  simp only [Behaviour.visit, behaviour, if_true, h.generatorRecv]
  cases createReverseActions source.1 <;> rfl

/-- The turn of the receiver of a net access. -/
theorem visit_session {data : Bytes} {source : List PtpAction × Bytes} (h : EndsHere data source) (g : Generator)
    (out : Outcome (List PtpAction) Bytes) {l : Address} {k : Nat} (hl : l ≠ gen) (hk : g.sessionAt addr l = some k) :
    (behaviour gen addr).visit data (g, out) l = .ok ((g, ⟨out.opened, out.delivered ++ [(k, source.2)]⟩), []) := by
  simp only [Behaviour.visit, behaviour, if_neg hl, hk, h.singleRecv]
  rfl

/-- No turn takes a delivery back. -/
theorem length_delivered_visit {data : Bytes} {source : List PtpAction × Bytes} (h : EndsHere data source)
    {st st' : Generator × Outcome (List PtpAction) Bytes} {l : Address} {changes : List (Change Address)} {n : Nat}
    (hn : n ≤ st.2.delivered.length) (hvisit : (behaviour gen addr).visit data st l = .ok (st', changes)) :
    n ≤ st'.2.delivered.length := by
  obtain ⟨g, out⟩ := st
  have hle : n ≤ out.delivered.length := hn
  by_cases hl : l = gen
  · subst hl
    rw [visit_generator h] at hvisit
    obtain ⟨reverse, -, hst⟩ := (map_eq_ok_iff _ _ _).mp hvisit
    obtain rfl := (Prod.mk.inj hst).1
    simp only [List.length_append]
    omega
  · cases hk : g.sessionAt addr l with
    | none =>
      simp only [Behaviour.visit, behaviour, if_neg hl, hk] at hvisit
      obtain rfl : (g, out) = st' := by simpa using congrArg Prod.fst (Except.ok.inj hvisit)
      exact hle
    | some k =>
      rw [visit_session h g out hl hk] at hvisit
      obtain rfl := (Prod.mk.inj (Except.ok.inj hvisit)).1
      simp only [List.length_append]
      omega

/-! ## Packets at the multiplexer -/

/-- A packet at the multiplexer is a walk over its receivers. -/
theorem handleRecv_ok_iff {fuel : Nat} {m m' : MultiRecvListener} {g g' : Generator} {data : Bytes}
    {out : Outcome (List PtpAction) Bytes} :
    handleRecv gen addr fuel (m, g) data = .ok ((m', g'), out) ↔
      ∃ visited, walk ((behaviour gen addr).visit data) fuel (g, ⟨[], []⟩) m.listeners =
        .ok ((g', out), m'.listeners, visited) := by
  simp only [handleRecv, MultiRecvListener.handleRecv]
  cases hwalk : walk ((behaviour gen addr).visit data) fuel (g, ⟨[], []⟩) m.listeners with
  | error e => simp
  | ok r =>
    obtain ⟨⟨g₁, out₁⟩, s, visited⟩ := r
    obtain ⟨s'⟩ := m'
    simp only [ok_bind, pure_eq_ok, Except.ok.injEq, Prod.mk.injEq, MultiRecvListener.mk.injEq]
    constructor
    · intro h
      rcases h with ⟨⟨rfl, rfl⟩, rfl⟩
      exact ⟨visited, ⟨rfl, rfl⟩, rfl, rfl⟩
    · intro h
      rcases h with ⟨_, ⟨rfl, rfl⟩, rfl, -⟩
      exact ⟨⟨rfl, rfl⟩, rfl⟩

/-- The multiplexer and the generator as they are connected. -/
theorem connected_eq : connectNetAccessGeneratorListener gen = (⟨{gen}⟩, ⟨none, []⟩) := rfl

/-- The first packet, when its path can be reversed: a net access is made and gets the payload, twice if its receiver lies
above the generator's. -/
theorem handleRecv_first {data : Bytes} {source : List PtpAction × Bytes} (h : EndsHere data source)
    {reverse : List PtpAction} (hrev : createReverseActions source.1 = .ok reverse) (haddr : addr 0 ≠ gen) {fuel : Nat}
    (hfuel : 2 ≤ fuel) :
    handleRecv gen addr fuel (connectNetAccessGeneratorListener gen) data = .ok ((⟨{addr 0, gen}⟩, ⟨some (addr 0), [reverse]⟩),
      ⟨[source.1], if gen < addr 0 then [(0, source.2), (0, source.2)] else [(0, source.2)]⟩) := by
  have hfirst : first ({gen} : Finset Address) = some gen := (first_eq_some_iff _ _).mpr ⟨by simp, by simp⟩
  have hset : applyAll ({gen} : Finset Address) [.insert (addr 0)] = {addr 0, gen} := rfl
  have hgen : (behaviour gen addr).visit data (⟨none, []⟩, ⟨[], []⟩) gen =
      .ok ((⟨some (addr 0), [reverse]⟩, ⟨[source.1], [(0, source.2)]⟩), [.insert (addr 0)]) := by
    rw [visit_generator h, hrev]
    rfl
  rw [connected_eq, handleRecv_ok_iff]
  obtain ⟨fuel, rfl⟩ : ∃ k, fuel = k + 2 := ⟨fuel - 2, by omega⟩
  by_cases habove : gen < addr 0
  · have hnext : next ({addr 0, gen} : Finset Address) gen = some (addr 0) :=
      (next_eq_some_iff _ _ _).mpr ⟨by simp, habove, by simp⟩
    have hlast : next ({addr 0, gen} : Finset Address) (addr 0) = none :=
      (next_eq_none_iff _ _).mpr (by simp [habove.le])
    have hat : (⟨some (addr 0), [reverse]⟩ : Generator).sessionAt addr (addr 0) = some 0 := by simp [Generator.sessionAt]
    have hsession := visit_session h ⟨some (addr 0), [reverse]⟩ ⟨[source.1], [(0, source.2)]⟩ haddr hat
    refine ⟨[gen, addr 0], ?_⟩
    rw [walk, hfirst, walkFrom_some_ok_iff]
    refine ⟨_, _, [addr 0], hgen, by simp [Change.erases], ?_, rfl⟩
    rw [hset, hnext, walkFrom_some_ok_iff]
    refine ⟨_, _, [], hsession, rfl, ?_, rfl⟩
    have hsame : applyAll ({addr 0, gen} : Finset Address) [] = {addr 0, gen} := rfl
    rw [hsame, hlast, walkFrom_none, if_pos habove]
    rfl
  · have hlast : next ({addr 0, gen} : Finset Address) gen = none :=
      (next_eq_none_iff _ _).mpr (by simpa using habove)
    refine ⟨[gen], ?_⟩
    rw [walk, hfirst, walkFrom_some_ok_iff]
    refine ⟨_, _, [], hgen, by simp [Change.erases], ?_, rfl⟩
    rw [hset, hlast, walkFrom_none, if_neg habove]

/-- The first packet, when its path cannot be reversed. -/
theorem reversible_of_handleRecv_first {data : Bytes} {source : List PtpAction × Bytes} (h : EndsHere data source) {fuel : Nat}
    {state : MultiRecvListener × Generator} {out : Outcome (List PtpAction) Bytes}
    (hrun : handleRecv gen addr fuel (connectNetAccessGeneratorListener gen) data = .ok (state, out)) :
    ∃ reverse, createReverseActions source.1 = .ok reverse := by
  have hfirst : first ({gen} : Finset Address) = some gen := (first_eq_some_iff _ _).mpr ⟨by simp, by simp⟩
  obtain ⟨visited, hwalk⟩ := handleRecv_ok_iff.mp (connected_eq ▸ hrun)
  rw [walk, hfirst] at hwalk
  obtain ⟨_, _, _, _, hvisit, -⟩ := visit_of_walkFrom hwalk
  rw [visit_generator h] at hvisit
  obtain ⟨reverse, hrev, -⟩ := (map_eq_ok_iff _ _ _).mp hvisit
  exact ⟨reverse, hrev⟩

/-- A later packet is delivered to the newest session, whose receiver lies below the generator's, and to a new one. -/
theorem two_deliveries_of_handleRecv {data : Bytes} {source : List PtpAction × Bytes} (h : EndsHere data source)
    {reverse : List PtpAction} (hbelow : addr 0 < gen) {fuel : Nat} {state : MultiRecvListener × Generator}
    {out : Outcome (List PtpAction) Bytes}
    (hrun : handleRecv gen addr fuel (⟨{addr 0, gen}⟩, ⟨some (addr 0), [reverse]⟩) data = .ok (state, out)) :
    2 ≤ out.delivered.length := by
  have hfirst : first ({addr 0, gen} : Finset Address) = some (addr 0) :=
    (first_eq_some_iff _ _).mpr ⟨by simp, by simpa using hbelow.le⟩
  have hnext : next ({addr 0, gen} : Finset Address) (addr 0) = some gen :=
    (next_eq_some_iff _ _ _).mpr ⟨by simp, hbelow, by simp⟩
  obtain ⟨visited, hwalk⟩ := handleRecv_ok_iff.mp hrun
  rw [walk, hfirst] at hwalk
  obtain ⟨_, st, changes, rest, hvisit, hrest, -⟩ := visit_of_walkFrom hwalk
  have hat : (⟨some (addr 0), [reverse]⟩ : Generator).sessionAt addr (addr 0) = some 0 := by simp [Generator.sessionAt]
  rw [visit_session h _ _ hbelow.ne hat] at hvisit
  obtain ⟨rfl, rfl⟩ := Prod.mk.inj (Except.ok.inj hvisit)
  have hsame : applyAll ({addr 0, gen} : Finset Address) [] = {addr 0, gen} := rfl
  rw [hsame, hnext] at hrest
  obtain ⟨_, st', changes', rest', hvisit', hrest', -⟩ := visit_of_walkFrom hrest
  rw [visit_generator h] at hvisit'
  obtain ⟨reverse', -, hst⟩ := (map_eq_ok_iff _ _ _).mp hvisit'
  obtain ⟨rfl, rfl⟩ := Prod.mk.inj hst
  exact invariant_of_walkFrom (P := fun st => 2 ≤ st.2.delivered.length)
    (fun st a st' changes hst hvisit => length_delivered_visit h hst hvisit) hrest' (Nat.le_refl 2)

end

/-! ## The sequence of packets -/

/-- A run over one packet or more returns what came of the first and of the rest. -/
theorem run_cons_ok_iff {gen : Address} {addr : Nat → Address} {fuel : Nat} {state : MultiRecvListener × Generator}
    {data : Bytes} {packets : List Bytes} {outs : List (Outcome (List PtpAction) Bytes)} :
    run gen addr fuel state (data :: packets) = .ok outs ↔
      ∃ state' out rest, handleRecv gen addr fuel state data = .ok (state', out) ∧
        run gen addr fuel state' packets = .ok rest ∧ outs = out :: rest := by
  rw [run, bind_eq_ok_iff]
  constructor
  · intro h
    rcases h with ⟨⟨state', out⟩, hstep, h⟩
    obtain ⟨rest, hrest, hok⟩ := (bind_eq_ok_iff _ _ _).mp h
    exact ⟨state', out, rest, hstep, hrest, (Except.ok.inj hok).symm⟩
  · intro h
    rcases h with ⟨state', out, rest, hstep, hrest, rfl⟩
    exact ⟨(state', out), hstep, by simp [hrest]⟩

/-- A generator keeps the sessions of a sequence of packets that end at this endpoint apart exactly when there is none, or a
single one whose path can be reversed, the receiver of its net access lying below the generator's. -/
theorem ptp_sessions_demultiplex_iff (gen : Address) (addr : Nat → Address) (haddr : ∀ k, addr k ≠ gen)
    (packets : List Bytes) (sources : List (List PtpAction × Bytes)) (hends : List.Forall₂ EndsHere packets sources) :
    Demultiplexes gen addr packets sources ↔
      sources = [] ∨ ∃ source, sources = [source] ∧ addr 0 < gen ∧ ∀ x ∈ source.1, x.Reversible := by
  cases hends with
  | nil => exact ⟨fun _ => .inl rfl, fun _ => ⟨0, fun _ _ => rfl⟩⟩
  | @cons data source packets sources hdata hrest =>
    constructor
    · intro h
      rcases h with ⟨enough, henough⟩
      have hrun := henough (max enough 2) (Nat.le_max_left _ _)
      have hone : ∀ out ∈ route [] (source :: sources), out.delivered.length = 1 := fun _ => length_delivered_of_mem_route
      obtain ⟨state, out, outs, hfirst, hlater, hroute⟩ := run_cons_ok_iff.mp hrun
      rw [hroute] at hone
      obtain ⟨reverse, hreverse⟩ := reversible_of_handleRecv_first hdata hfirst
      rw [handleRecv_first hdata hreverse (haddr 0) (Nat.le_max_right _ _)] at hfirst
      obtain ⟨rfl, rfl⟩ := Prod.mk.inj (Except.ok.inj hfirst)
      -- the first packet is delivered twice unless the new receiver lies below
      have hbelow : addr 0 < gen := by
        rcases Nat.lt_or_gt_of_ne (haddr 0) with hlt | hgt
        · exact hlt
        · have h := hone _ List.mem_cons_self
          rw [if_pos hgt] at h
          nomatch h
      refine .inr ⟨source, ?_, hbelow, hdata.reversible_iff.mp ⟨reverse, hreverse⟩⟩
      cases hrest with
      | nil => rfl
      | @cons data' source' packets' sources' hdata' _ =>
        -- a second packet would be delivered twice
        obtain ⟨state', out', outs', hsecond, -, rfl⟩ := run_cons_ok_iff.mp hlater
        have htwo := two_deliveries_of_handleRecv hdata' hbelow hsecond
        have h := hone out' (List.mem_cons_of_mem _ List.mem_cons_self)
        omega
    · intro h
      rcases h with h | ⟨source', h, hbelow, hrev⟩
      · nomatch h
      · obtain ⟨rfl, rfl⟩ := List.cons.inj h
        cases hrest
        obtain ⟨reverse, hreverse⟩ := hdata.reversible_iff.mpr hrev
        refine ⟨2, fun fuel hfuel => run_cons_ok_iff.mpr ?_⟩
        refine ⟨_, _, [], handleRecv_first hdata hreverse (haddr 0) hfuel, rfl, ?_⟩
        rw [if_neg (Nat.not_lt.mpr hbelow.le)]
        rfl

/-- The path of an end endpoint alone, and one with a start before it. -/
def endOnly : List PtpAction := [⟨.endpoint, .endpoint ⟨ptpEndpointEnd⟩⟩]

def startEnd : List PtpAction := ⟨.endpoint, .endpoint ⟨ptpEndpointStart⟩⟩ :: endOnly

/-- One packet, the receiver of its net access at address 1, the generator's at 2 and those of later ones above. -/
theorem ptp_sessions_demultiplex_one : Demultiplexes 2 (fun k => 2 * k + 1) [[1, 0, 1, 0, 0, 7]] [(endOnly, [7])] := by
  have haddr (k : Nat) : 2 * k + 1 ≠ 2 := by omega
  refine (ptp_sessions_demultiplex_iff 2 _ haddr _ _ (.cons ⟨⟨_, 0, 0⟩, rfl, rfl⟩ .nil)).mpr ?_
  refine .inr ⟨_, rfl, by decide, ?_⟩
  intro x hx
  obtain rfl := List.mem_singleton.mp hx
  exact .inr rfl

/-- Two packets of different paths, the receivers of their net accesses at addresses 1 and 3: the second one is delivered to the
first one's session too. -/
theorem ptp_sessions_demultiplex_counterexample :
    ¬Demultiplexes 2 (fun k => 2 * k + 1) [[1, 0, 1, 0, 0, 7], [2, 0, 0, 0, 1, 1, 0, 8]] [(endOnly, [7]), (startEnd, [8])] := by
  have hends : EndsHere [1, 0, 1, 0, 0, 7] (endOnly, [7]) := ⟨⟨_, 0, 0⟩, rfl, rfl⟩
  have hends' : EndsHere [2, 0, 0, 0, 1, 1, 0, 8] (startEnd, [8]) := ⟨⟨_, 1, 0⟩, rfl, rfl⟩
  have hreverse : createReverseActions endOnly = .ok [⟨.endpoint, .endpoint ⟨ptpEndpointStart⟩⟩] := rfl
  intro h
  rcases h with ⟨enough, henough⟩
  obtain ⟨state, out, outs, hfirst, hlater, hroute⟩ := run_cons_ok_iff.mp (henough (max enough 2) (Nat.le_max_left _ _))
  rw [handleRecv_first hends hreverse (by decide) (Nat.le_max_right _ _)] at hfirst
  obtain ⟨rfl, rfl⟩ := Prod.mk.inj (Except.ok.inj hfirst)
  obtain ⟨state', out', outs', hsecond, -, rfl⟩ := run_cons_ok_iff.mp hlater
  have htwo := two_deliveries_of_handleRecv hends' (by decide) hsecond
  have hmem : out' ∈ route [] [(endOnly, [7]), (startEnd, [8])] := by
    rw [hroute]
    exact List.mem_cons_of_mem _ List.mem_cons_self
  have hone := length_delivered_of_mem_route hmem
  omega

/-! ## What becomes of every packet -/

section

variable (gen : Address) (addr : Nat → Address)

/-- Where the payload goes of the packet that the session with the number `k` is made for: to the session before it when its
receiver lies below the generator's, to its own, and there again when its receiver lies above. -/
def deliveries (k : Nat) (payload : Bytes) : List (Nat × Bytes) :=
  (match k with
    | 0 => []
    | before + 1 => if addr before < gen then [(before, payload)] else []) ++
    (k, payload) :: if gen < addr k then [(k, payload)] else []

/-- What becomes of packets with these paths and payloads, the sessions being numbered from `k` on. -/
def outcomes : Nat → List (List PtpAction × Bytes) → List (Outcome (List PtpAction) Bytes)
  | _, [] => []
  | k, source :: sources => ⟨[source.1], deliveries gen addr k source.2⟩ :: outcomes (k + 1) sources

/-- The receiver of the newest session is the current one of the second half, and is registered beside the generator's. -/
structure Registered (m : MultiRecvListener) (g : Generator) : Prop where
  curr : g.curr = (match g.sessions.length with | 0 => none | k + 1 => some (addr k))
  listeners : m.listeners = (match g.curr with | none => {gen} | some l => {l, gen})

variable {gen addr}

theorem registered_connected :
    Registered gen addr (connectNetAccessGeneratorListener gen).1 (connectNetAccessGeneratorListener gen).2 :=
  ⟨rfl, rfl⟩

theorem sessionAt_newest (g : Generator) {k : Nat} (hk : g.sessions.length = k + 1) : g.sessionAt addr (addr k) = some k := by
  unfold Generator.sessionAt
  rw [hk, List.range_succ, List.reverse_append]
  simp

/-- The rest of the loop behind the generator's turn. -/
theorem walk_behind_generator {data : Bytes} {source : List PtpAction × Bytes} (h : EndsHere data source) (g : Generator)
    (out : Outcome (List PtpAction) Bytes) {k : Nat} (hk : g.sessions.length = k + 1) (haddr : addr k ≠ gen) (fuel : Nat) :
    ∃ visited, walkFrom ((behaviour gen addr).visit data) (fuel + 1) (g, out) {addr k, gen} (next {addr k, gen} gen) =
      .ok ((g, ⟨out.opened, out.delivered ++ if gen < addr k then [(k, source.2)] else []⟩), {addr k, gen}, visited) := by
  by_cases habove : gen < addr k
  · have hnext : next ({addr k, gen} : Finset Address) gen = some (addr k) :=
      (next_eq_some_iff _ _ _).mpr ⟨by simp, habove, by simp⟩
    have hlast : next ({addr k, gen} : Finset Address) (addr k) = none := (next_eq_none_iff _ _).mpr (by simp [habove.le])
    have hsame : applyAll ({addr k, gen} : Finset Address) [] = {addr k, gen} := rfl
    refine ⟨[addr k], ?_⟩
    rw [hnext, walkFrom_some_ok_iff]
    refine ⟨_, _, [], visit_session h g out haddr (sessionAt_newest g hk), rfl, ?_, rfl⟩
    rw [hsame, hlast, walkFrom_none, if_pos habove]
  · have hlast : next ({addr k, gen} : Finset Address) gen = none := (next_eq_none_iff _ _).mpr (by simpa using habove)
    exact ⟨[], by rw [hlast, walkFrom_none, if_neg habove, List.append_nil]⟩

/-- The generator's turn and the rest of the loop. -/
theorem walk_from_generator {data : Bytes} {source : List PtpAction × Bytes} (h : EndsHere data source) {reverse : List PtpAction}
    (hrev : createReverseActions source.1 = .ok reverse) {m : MultiRecvListener} {g : Generator} (hreg : Registered gen addr m g)
    (haddr : ∀ k, addr k ≠ gen) (out : Outcome (List PtpAction) Bytes) (fuel : Nat) :
    ∃ visited, walkFrom ((behaviour gen addr).visit data) (fuel + 2) (g, out) m.listeners (some gen) =
      .ok ((⟨some (addr g.sessions.length), g.sessions ++ [reverse]⟩, ⟨out.opened ++ [source.1], out.delivered ++
        (g.sessions.length, source.2) :: if gen < addr g.sessions.length then [(g.sessions.length, source.2)] else []⟩),
        {addr g.sessions.length, gen}, visited) := by
  have hvisit := @visit_generator gen addr _ _ h g out
  rw [hrev, map_ok] at hvisit
  have hset : applyAll m.listeners ((setRecvAccess g.curr (addr g.sessions.length)).flatMap MultiRecvCall.changes) =
      {addr g.sessions.length, gen} := by
    rw [hreg.listeners]
    cases hcurr : g.curr with
    | none => rfl
    | some l =>
      have hne : l ≠ gen := by
        have hnewest := hreg.curr
        rw [hcurr] at hnewest
        cases hlen : g.sessions.length with
        | zero => rw [hlen] at hnewest; cases hnewest
        | succ k => rw [hlen] at hnewest; exact Option.some.inj hnewest ▸ haddr k
      have herase : ({l, gen} : Finset Address).erase l = {gen} := Finset.erase_insert (by simpa using hne)
      show Insert.insert _ (({l, gen} : Finset Address).erase l) = _
      rw [herase]
  have hkept : ((setRecvAccess g.curr (addr g.sessions.length)).flatMap MultiRecvCall.changes).any (Change.erases gen) = false := by
    cases hcurr : g.curr with
    | none => rfl
    | some l =>
      have hnewest := hreg.curr
      rw [hcurr] at hnewest
      cases hlen : g.sessions.length with
      | zero => rw [hlen] at hnewest; cases hnewest
      | succ k =>
        rw [hlen] at hnewest
        obtain rfl : l = addr k := Option.some.inj hnewest
        simp [setRecvAccess, MultiRecvCall.changes, Change.erases, (haddr k).symm]
  obtain ⟨visited, hrest⟩ := walk_behind_generator h ⟨some (addr g.sessions.length), g.sessions ++ [reverse]⟩
    ⟨out.opened ++ [source.1], out.delivered ++ [(g.sessions.length, source.2)]⟩ (List.length_append ..) (haddr _) fuel
  refine ⟨gen :: visited, (walkFrom_some_ok_iff ..).mpr ⟨_, _, visited, hvisit, hkept, ?_, rfl⟩⟩
  rw [hset, hrest, List.append_assoc]
  rfl

/-- A packet at the multiplexer, whatever was before it. -/
theorem handleRecv_registered {data : Bytes} {source : List PtpAction × Bytes} (h : EndsHere data source) {reverse : List PtpAction}
    (hrev : createReverseActions source.1 = .ok reverse) {m : MultiRecvListener} {g : Generator} (hreg : Registered gen addr m g)
    (haddr : ∀ k, addr k ≠ gen) (fuel : Nat) :
    ∃ m' g', Registered gen addr m' g' ∧ g'.sessions.length = g.sessions.length + 1 ∧
      handleRecv gen addr (fuel + 3) (m, g) data =
        .ok ((m', g'), ⟨[source.1], deliveries gen addr g.sessions.length source.2⟩) := by
  refine ⟨⟨{addr g.sessions.length, gen}⟩, ⟨some (addr g.sessions.length), g.sessions ++ [reverse]⟩, ⟨?_, rfl⟩,
    List.length_append .., ?_⟩
  · rw [List.length_append]
    rfl
  · rw [handleRecv_ok_iff, walk]
    have hcurr := hreg.curr
    have hlisteners := hreg.listeners
    cases hlen : g.sessions.length with
    | zero =>
      rw [hlen] at hcurr
      rw [hcurr] at hlisteners
      have hfirst : first m.listeners = some gen := by
        rw [hlisteners]
        exact (first_eq_some_iff _ _).mpr ⟨by simp, by simp⟩
      obtain ⟨visited, hwalk⟩ := walk_from_generator h hrev hreg haddr ⟨[], []⟩ (fuel + 1)
      rw [hlen] at hwalk
      exact ⟨visited, by rw [hfirst]; exact hwalk⟩
    | succ k =>
      rw [hlen] at hcurr
      rw [hcurr] at hlisteners
      by_cases hbelow : addr k < gen
      · -- the session before this one comes first
        have hfirst : first m.listeners = some (addr k) := by
          rw [hlisteners]
          exact (first_eq_some_iff _ _).mpr ⟨by simp, by simpa using hbelow.le⟩
        have hnext : next m.listeners (addr k) = some gen := by
          rw [hlisteners]
          exact (next_eq_some_iff _ _ _).mpr ⟨by simp, hbelow, by simp⟩
        obtain ⟨visited, hwalk⟩ := walk_from_generator h hrev hreg haddr ⟨[], [(k, source.2)]⟩ fuel
        rw [hlen] at hwalk
        refine ⟨addr k :: visited, ?_⟩
        rw [hfirst, walkFrom_some_ok_iff]
        refine ⟨_, [], visited, visit_session h g ⟨[], []⟩ (haddr k) (sessionAt_newest g hlen), rfl, ?_, rfl⟩
        have hsame : applyAll m.listeners [] = m.listeners := rfl
        have hdelivered : deliveries gen addr (k + 1) source.2 = [(k, source.2)] ++ (k + 1, source.2) ::
            if gen < addr (k + 1) then [(k + 1, source.2)] else [] := by rw [deliveries, if_pos hbelow]
        rw [hsame, hnext, hdelivered]
        exact hwalk
      · have hfirst : first m.listeners = some gen := by
          rw [hlisteners]
          exact (first_eq_some_iff _ _).mpr ⟨by simp, by simpa using hbelow⟩
        obtain ⟨visited, hwalk⟩ := walk_from_generator h hrev hreg haddr ⟨[], []⟩ (fuel + 1)
        rw [hlen] at hwalk
        have hdelivered : deliveries gen addr (k + 1) source.2 = (k + 1, source.2) ::
            if gen < addr (k + 1) then [(k + 1, source.2)] else [] := by rw [deliveries, if_neg hbelow]; rfl
        exact ⟨visited, by rw [hfirst, hdelivered]; exact hwalk⟩

end

/-- Packets that end at this endpoint, of any number and with any paths that can be reversed: each opens a session of its own,
and is delivered to this one, perhaps twice, and to the one before it or not; no other session gets anything of it. -/
theorem ptp_sessions_deliver (gen : Address) (addr : Nat → Address) (haddr : ∀ k, addr k ≠ gen) (packets : List Bytes)
    (sources : List (List PtpAction × Bytes)) (hends : List.Forall₂ EndsHere packets sources)
    (hrev : ∀ source ∈ sources, ∀ x ∈ source.1, x.Reversible) (fuel : Nat) (hfuel : 3 ≤ fuel) :
    run gen addr fuel (connectNetAccessGeneratorListener gen) packets = .ok (outcomes gen addr 0 sources) := by
  obtain ⟨fuel, rfl⟩ := Nat.exists_eq_add_of_le' hfuel
  have hrun {m : MultiRecvListener} {g : Generator} (hreg : Registered gen addr m g) :
      run gen addr (fuel + 3) (m, g) packets = .ok (outcomes gen addr g.sessions.length sources) := by
    induction hends generalizing m g with
    | nil => rfl
    | @cons data source packets sources hdata _ ih =>
      obtain ⟨reverse, hreverse⟩ := hdata.reversible_iff.mpr (hrev source List.mem_cons_self)
      obtain ⟨m', g', hreg', hlen, hstep⟩ := handleRecv_registered hdata hreverse hreg haddr fuel
      have hrest := ih (fun source hsource => hrev source (List.mem_cons_of_mem _ hsource)) hreg'
      rw [hlen] at hrest
      exact run_cons_ok_iff.mpr ⟨_, _, _, hstep, hrest, rfl⟩
  exact hrun registered_connected

/-- Two packets of different paths; the first session's receiver lies below the generator's and the second one's above. -/
theorem ptp_sessions_deliver_two :
    run 2 (fun k => if k = 0 then 1 else 3) 3 (connectNetAccessGeneratorListener 2) [[1, 0, 1, 0, 0, 7], [2, 0, 0, 0, 1, 1, 0, 8]] =
      .ok [⟨[endOnly], [(0, [7])]⟩, ⟨[startEnd], [(0, [8]), (1, [8]), (1, [8])]⟩] := by
  have hends : EndsHere [1, 0, 1, 0, 0, 7] (endOnly, [7]) := ⟨⟨_, 0, 0⟩, rfl, rfl⟩
  have hends' : EndsHere [2, 0, 0, 0, 1, 1, 0, 8] (startEnd, [8]) := ⟨⟨_, 1, 0⟩, rfl, rfl⟩
  refine ptp_sessions_deliver 2 _ ?_ _ _ (.cons hends (.cons hends' .nil)) ?_ 3 (Nat.le_refl 3)
  · intro k
    split <;> decide
  · have hend : ∀ x ∈ endOnly, x.Reversible := by
      intro x hx
      rw [List.mem_singleton.mp hx]
      exact .inr rfl
    intro source hsource
    rcases List.mem_cons.mp hsource with rfl | hsource
    · exact hend
    · rw [List.mem_singleton.mp hsource]
      exact List.forall_mem_cons.mpr ⟨.inl rfl, hend⟩

end PtpProtocol
end NetworkingFramework
