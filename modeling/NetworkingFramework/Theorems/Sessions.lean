import NetworkingFramework.Generator

/-!
# Who receives what

A `multi_recv_listener` delivers to the listeners registered when it was called exactly when none of them, called in turn,
disturbs the walk over the set. A generator of net accesses demultiplexes the packets of Ethernet, IPv4, UDP or EMP exactly
when no two of them come from one source, since the receiver it sets takes the place of the one its `multi_net_access` set.
-/

namespace NetworkingFramework

open Wire OrderedSet Demux

/-! ## `multi_recv_listener` -/

/-- The datum reaches the listeners registered at the call, each once, and no other; the loop returns. -/
def MultiRecvListener.DeliversToSnapshot {σ TYPE : Type} (m : MultiRecvListener) (behave : Behaviour σ TYPE) (st : σ)
    (data : TYPE) : Prop :=
  ∃ enough, ∀ fuel ≥ enough, ∃ st' m' calls, m.handleRecv behave fuel st data = .ok (st', m', calls) ∧ calls.Nodup ∧
    ∀ l d, (l, d) ∈ calls ↔ l ∈ m.listeners ∧ d = data

/-- The loop delivers to the snapshot exactly when each registered listener, called in the order of the addresses, is still
registered after its turn and the least listener then registered above it is the next of the snapshot. -/
theorem handleRecv_deliversToSnapshot_iff {σ TYPE : Type} (m : MultiRecvListener) (behave : Behaviour σ TYPE) (st : σ)
    (data : TYPE) :
    m.DeliversToSnapshot behave st data ↔ Undisturbed (behave.visit data) st m.listeners m.listeners.sort := by
  rw [← walk_eq_snapshot_iff]
  refine exists_congr fun enough => forall₂_congr fun fuel _ => ?_
  constructor
  · intro h
    rcases h with ⟨st', m', calls, hrun, hnodup, hmem⟩
    obtain ⟨⟨st₁, s', called⟩, hwalk, hok⟩ := (bind_eq_ok_iff _ _ _).mp hrun
    obtain ⟨rfl, rfl, rfl⟩ : st₁ = st' ∧ ⟨s'⟩ = m' ∧ (called.map fun l => (l, data)) = calls := by simpa using hok
    refine ⟨st₁, s', called, hwalk, hnodup.of_map _, fun l => ?_⟩
    simpa using hmem l data
  · intro h
    rcases h with ⟨st', s', called, hwalk, hnodup, hmem⟩
    refine ⟨st', ⟨s'⟩, called.map fun l => (l, data), ?_, ?_, fun l d => ?_⟩
    · rw [MultiRecvListener.handleRecv, hwalk]
      rfl
    · exact hnodup.map fun l l' h => (Prod.mk.inj h).1
    · simp only [List.mem_map, Prod.mk.injEq, hmem]
      constructor
      · intro h
        rcases h with ⟨l', hl', rfl, rfl⟩
        exact ⟨hl', rfl⟩
      · intro h
        rcases h with ⟨hl, rfl⟩
        exact ⟨l, hl, rfl, rfl⟩

/-- One listener at address 1 that registers another at address 2: the new one receives the datum too. -/
theorem handleRecv_deliversToSnapshot_counterexample :
    ¬(MultiRecvListener.mk {1}).DeliversToSnapshot
      (fun (_ : Unit) l (_ : Unit) => .ok ((), if l = 1 then [.addRecvListener (some 2)] else [])) () () := by
  intro h
  rcases h with ⟨enough, henough⟩
  obtain ⟨st', m', calls, hrun, -, hmem⟩ := henough (enough + 2) (by omega)
  have hcalls : (2, ()) ∈ calls := by
    obtain ⟨⟨st₁, s', called⟩, hwalk, hok⟩ := (bind_eq_ok_iff _ _ _).mp hrun
    obtain ⟨-, -, rfl⟩ : st₁ = st' ∧ ⟨s'⟩ = m' ∧ (called.map fun l => (l, ())) = calls := by simpa using hok
    obtain ⟨_, changes, rest, hvisit, -, hrest, rfl⟩ := (walkFrom_some_ok_iff ..).mp hwalk
    obtain rfl : [Change.insert 2] = changes := (Prod.mk.inj (Except.ok.inj hvisit)).2
    have hhead := head_of_walkFrom hrest
    exact List.mem_map.mpr ⟨2, List.mem_cons_of_mem 1 (List.mem_of_head? hhead), rfl⟩
  have hnot := (hmem 2 ()).mp hcalls
  exact absurd hnot.1 (by decide)

/-! ## Generators of net accesses -/

/-- A generator whose receiver is the one set on the net access below makes a net access for every packet. -/
theorem Generator.run_eq_openEach {Src : Type} (protocol : GeneratorProtocol Src) (addr : Nat → Address) (fuel : Nat)
    (g : Generator Src) (hset : g.recvAccess = some .generator) {packets : List Bytes} {sources : List (Src × Bytes)}
    (hmatch : List.Forall₂ (fun data source => protocol.recv data = .ok [source]) packets sources) :
    g.run protocol addr fuel packets = .ok (openEach g.sessions.length sources) := by
  induction hmatch generalizing g with
  | nil => rfl
  | @cons data source packets sources hdata _ ih =>
    have hstep : g.handleRecv protocol addr fuel data = .ok (g.handleNew addr source) := by
      rw [Generator.handleRecv, hset]
      simp [hdata]
    have hset' : (g.handleNew addr source).1.recvAccess = some .generator := hset
    have hlen : (g.handleNew addr source).1.sessions.length = g.sessions.length + 1 := by simp [Generator.handleNew]
    have hrest := ih _ hset'
    rw [hlen] at hrest
    simp only [Generator.run, hstep, ok_bind, hrest, pure_eq_ok]
    rfl

/-- Every packet of the sequence goes to the net access of its source, made at its first packet. -/
def GeneratorProtocol.Demultiplexes {Src : Type} [DecidableEq Src] (protocol : GeneratorProtocol Src)
    (addr : Nat → Address) (fuel : Nat) (packets : List Bytes) (sources : List (Src × Bytes)) : Prop :=
  (connectNetAccessGeneratorListener Src).run protocol addr fuel packets = .ok (route [] sources)

/-- The generator of each of the four protocols demultiplexes a sequence of packets that pass its filters exactly when no two
of the packets have the same source. -/
theorem generators_demultiplex_iff (params : GeneratorParams) (addr : Nat → Address) (fuel : Nat) (packets : List Bytes)
    (sources : List (params.Src × Bytes))
    (hmatch : List.Forall₂ (fun data source => params.protocol.recv data = .ok [source]) packets sources) :
    params.protocol.Demultiplexes addr fuel packets sources ↔ (sources.map Prod.fst).Nodup := by
  have hrun := Generator.run_eq_openEach params.protocol addr fuel (connectNetAccessGeneratorListener params.Src) rfl hmatch
  have hroute : openEach 0 sources = route [] sources ↔ (sources.map Prod.fst).Nodup := by
    simpa using openEach_eq_route_iff [] sources
  unfold GeneratorProtocol.Demultiplexes
  rw [hrun, Except.ok.injEq]
  exact hroute

/-- Two datagrams to port 53, from ports 9 and 10. -/
theorem generators_demultiplex_two_ports : (GeneratorParams.udp 53).protocol.Demultiplexes id 0
    [UdpProtocol.send ⟨9, 53, 0, 0⟩ [1], UdpProtocol.send ⟨10, 53, 0, 0⟩ [2]]
    [((9 : UInt16), [1]), ((10 : UInt16), [2])] := by
  refine (generators_demultiplex_iff (.udp 53) id 0 _ _ (.cons rfl (.cons rfl .nil))).mpr ?_
  have hports : ([9, 10] : List UInt16).Nodup := by decide
  exact hports

/-- Two datagrams from port 9: the second one gets a net access of its own. -/
theorem generators_demultiplex_counterexample : ¬(GeneratorParams.udp 53).protocol.Demultiplexes id 0
    [UdpProtocol.send ⟨9, 53, 0, 0⟩ [1], UdpProtocol.send ⟨9, 53, 0, 0⟩ [2]]
    [((9 : UInt16), [1]), ((9 : UInt16), [2])] := by
  intro h
  have hmatch : List.Forall₂ (fun data source => (UdpProtocol.generator 53).recv data = .ok [source])
      [UdpProtocol.send ⟨9, 53, 0, 0⟩ [1], UdpProtocol.send ⟨9, 53, 0, 0⟩ [2]] [(9, [1]), (9, [2])] :=
    .cons rfl (.cons rfl .nil)
  have hrun := Generator.run_eq_openEach _ id 0 (connectNetAccessGeneratorListener UInt16) rfl hmatch
  have hsame : openEach 0 [((9 : UInt16), ([1] : Bytes)), (9, [2])] = route [] [(9, [1]), (9, [2])] :=
    Except.ok.inj (hrun.symm.trans h)
  revert hsame
  decide

end NetworkingFramework
