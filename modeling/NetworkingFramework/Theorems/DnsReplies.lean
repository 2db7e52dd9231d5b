import NetworkingFramework.DnsServer
import NetworkingFramework.Lemmas.DnsReplySize
import NetworkingFramework.Theorems.DnsService

/-!
# What a server's buffer holds

The handler of a server writes its reply to a buffer of 4096 bytes. The reply fits exactly when 12 bytes, and for each query its
name twice over or a record of authority, and what goes with them, are no more than that.
-/

namespace NetworkingFramework

open Wire

/-- The reply is written to no more bytes than the handler's buffer has. -/
def DnsMessage.FitsTmpBuff (reply : DnsMessage) : Prop :=
  ∃ written, writeDnsMessage reply = .ok written ∧ written.length ≤ DnsServer.tmpBuffSize

namespace DnsTool

/-- The reply to a message fits when its queries and their records do. -/
theorem reply_fits_iff {database : DnsDatabase} {frames : Nat → SoaFrame} {cd ad : Bool} {data : Bytes} {msg reply : DnsMessage}
    (hmsg : DnsProtocol.Receives data msg) (hreply : handleQuery database frames cd ad msg = .ok reply) :
    reply.FitsTmpBuff ↔ replySize database frames msg.queries ≤ DnsServer.tmpBuffSize := by
  obtain ⟨hsize, hwrite⟩ := size_of_handleQuery (queryCount_of_receives hmsg) hreply
  rw [← hsize]
  constructor
  · intro h
    obtain ⟨written, hwritten, hle⟩ := h
    rwa [length_of_writeDnsMessage hwritten] at hle
  · intro hle
    have hbuff : DnsServer.tmpBuffSize < 2 ^ 31 := by decide
    obtain ⟨written, hwritten⟩ := hwrite (by omega)
    exact ⟨written, hwritten, length_of_writeDnsMessage hwritten ▸ hle⟩

/-- A request for the address of `a`, made `n` times. -/
def requestForAs (n : Nat) : DnsMessage :=
  { requestForA with
    header := { requestForA.header with queryCount := UInt16.ofNat n }
    queries := List.replicate n ⟨[97, 0], dnsRecordTypeA, dnsRecordClassIn⟩ }

theorem requestForAs_isRequest {n : Nat} (h : n < 65536) : IsRequest (requestForAs n) := by
  refine ⟨rfl, rfl, rfl, ?_, rfl, rfl, rfl, rfl, rfl, rfl, fun query hquery => ?_⟩
  · rw [requestForAs, List.length_replicate]
    exact UInt16.toNat_ofNat_of_lt' h
  · obtain rfl := List.eq_of_mem_replicate hquery
    exact requestForA_isRequest.queries _ List.mem_cons_self

theorem sumOver_replicate {size : SoaFrame → DnsQuery → Nat} {query : DnsQuery} {c : Nat} (h : ∀ frame, size frame query = c)
    (frames : Nat → SoaFrame) (n : Nat) : sumOver size frames (List.replicate n query) = n * c := by
  induction n generalizing frames with
  | zero => exact (Nat.zero_mul c).symm
  | succ n ih => rw [List.replicate_succ, sumOver, h, ih, Nat.add_one_mul, Nat.add_comm]

/-- With an address for `a`, a server answers such a request in 24 bytes for each query. -/
theorem requestForAs_answered {n : Nat} (h : n < 65536) (addr : Ip4Addr) (frames : Nat → SoaFrame) (cd ad : Bool) :
    ∃ database data reply, DnsDatabase.empty.addAll [.a [97] addr] = .ok database ∧ data.length = 12 + n * 7 ∧
      DnsProtocol.Receives data (requestForAs n) ∧ handleQuery database frames cd ad (requestForAs n) = .ok reply ∧
      replySize database frames (requestForAs n).queries = 12 + n * 24 := by
  have hreq := requestForAs_isRequest h
  obtain ⟨database, hall, hholds⟩ := (fillable_a addr).holdsA
  have hshort : ∀ query ∈ (requestForAs n).queries, query.size < 2 ^ 31 := by
    intro query hquery
    obtain rfl := List.eq_of_mem_replicate hquery
    decide
  obtain ⟨data, hdata, hreturns⟩ := hreq.travels hshort
  have haddr : lastA [.a [97] addr] [97] = some addr := rfl
  have hframes : FramesForward (lastA [.a [97] addr]) frames (requestForAs n).queries := by
    intro i query hquery hnone
    obtain rfl := List.eq_of_mem_replicate (List.mem_of_getElem? hquery)
    cases hnone
  obtain ⟨⟨answers, authAns⟩, hloop⟩ := (answerQueries_ok_iff hholds frames hreq.queries).mpr hframes
  have hreply : handleQuery database frames cd ad (requestForAs n) = .ok (replyTo cd ad (requestForAs n) answers authAns) := by
    rw [handleQuery, hreq.queryCount, hloop]
    rfl
  refine ⟨database, data, _, hall, ?_, ⟨_, hreturns⟩, hreply, ?_⟩
  · have hqueries : ((requestForAs n).queries.map DnsQuery.size).sum = n * 7 := by
      rw [requestForAs, List.map_replicate, List.sum_replicate_nat]
      rfl
    rw [length_of_writeDnsMessage hdata, DnsMessage.size, hqueries, hreq.records_eq_nil]
    rfl
  · have hrecord (frame : SoaFrame) : recordSize database frame ⟨[97, 0], dnsRecordTypeA, dnsRecordClassIn⟩ = 17 := by
      have hstring : cString [97, 0] = .ok [97] := rfl
      have hsearch : database.searchRecordA [97] = .ok (some addr) := hholds.searchRecordA (by simp [AsciiName])
      rw [recordSize, if_pos rfl, hstring, ok_bind, hsearch]
      rfl
    rw [replySize, requestForAs, sumOver_replicate fun frame => by rw [hrecord]]
    rfl

/-- A single query for `a` is answered. -/
theorem reply_fits_iff_single : ∃ database data reply, DnsDatabase.empty.addAll [.a [97] ip4AddrEmpty] = .ok database ∧
    DnsProtocol.Receives data (requestForAs 1) ∧
    handleQuery database (fun _ => ascendingFrame) false false (requestForAs 1) = .ok reply ∧ reply.FitsTmpBuff := by
  obtain ⟨database, data, reply, hall, -, hmsg, hreply, hsize⟩ :=
    @requestForAs_answered 1 (by decide) ip4AddrEmpty (fun _ => ascendingFrame) false false
  exact ⟨database, data, reply, hall, hmsg, hreply, (reply_fits_iff hmsg hreply).mpr (hsize ▸ by decide)⟩

/-- A request of 1209 bytes is answered in 4116. -/
theorem reply_fits_counterexample : ∃ database data reply, DnsDatabase.empty.addAll [.a [97] ip4AddrEmpty] = .ok database ∧
    data.length ≤ 65507 ∧ DnsProtocol.Receives data (requestForAs 171) ∧
    handleQuery database (fun _ => ascendingFrame) false false (requestForAs 171) = .ok reply ∧
    ∃ written, writeDnsMessage reply = .ok written ∧ ¬written.length ≤ DnsServer.tmpBuffSize := by
  obtain ⟨database, data, reply, hall, hlen, hmsg, hreply, hsize⟩ :=
    @requestForAs_answered 171 (by decide) ip4AddrEmpty (fun _ => ascendingFrame) false false
  obtain ⟨hreplySize, hwrite⟩ := size_of_handleQuery (queryCount_of_receives hmsg) hreply
  rw [hsize] at hreplySize
  obtain ⟨written, hwritten⟩ := hwrite (by rw [hreplySize]; decide)
  refine ⟨database, data, reply, hall, by omega, hmsg, hreply, written, hwritten, ?_⟩
  rw [length_of_writeDnsMessage hwritten, hreplySize]
  decide

end DnsTool
end NetworkingFramework
