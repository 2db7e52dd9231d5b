import NetworkingFramework.Lemmas.HeaderCodecs

/-!
# ICMP messages received

The receiver of `connect_recv` hands on the whole message with the header, where the receivers of the other protocols hand on
what is behind it. So a message is never delivered as it was sent.
-/

namespace NetworkingFramework
namespace IcmpProtocol

open Wire Wire.Decoder

/-- The header of a message that is sent: the checksum is filled in. -/
def sentHeader (header : IcmpHeader) (data : Bytes) : IcmpHeader :=
  { header with checksum := internetChecksum (writeIcmpHeader { header with checksum := 0 } ++ data) }

@[simp] theorem sentHeader_type (header : IcmpHeader) (data : Bytes) : (sentHeader header data).type = header.type := rfl

theorem send_eq (header : IcmpHeader) (data : Bytes) : send header data = writeIcmpHeader (sentHeader header data) ++ data := rfl

/-- What a receiver does with a message. -/
theorem connectRecv_eq (type : Option UInt8) (header : IcmpHeader) (data : Bytes) :
    connectRecv type (writeIcmpHeader header ++ data) =
      .ok (if Accepts type header.type then [(header, writeIcmpHeader header ++ data)] else []) := by
  rw [connectRecv, (roundTrips_icmpHeader header).run_append data, ok_bind]
  by_cases h : Accepts type header.type
  · simp [h]
  · simp [h]

theorem connectRecv_send (type : Option UInt8) (header : IcmpHeader) (data : Bytes) :
    connectRecv type (send header data) =
      .ok (if Accepts type header.type then [(sentHeader header data, send header data)] else []) := by
  rw [send_eq, connectRecv_eq, sentHeader_type]

/-- A message is longer than its payload. -/
theorem send_ne (header : IcmpHeader) (data : Bytes) : send header data ≠ data := by
  intro h
  have hlength := congrArg List.length h
  rw [send_eq, List.length_append] at hlength
  have hheader : (writeIcmpHeader (sentHeader header data)).length = 8 := rfl
  omega

/-- The receiver gets what was sent: once when its filter accepts the type, with the payload and with the header but for the
checksum, and not at all otherwise. -/
def ReceivesSent (type : Option UInt8) (header : IcmpHeader) (data : Bytes) : Prop :=
  ∃ delivered, connectRecv type (send header data) = .ok delivered ∧
    (Accepts type header.type → ∃ checksum, delivered = [({ header with checksum }, data)]) ∧
      (¬Accepts type header.type → delivered = [])

/-- A receiver that accepts the type gets something else. -/
theorem not_receivesSent {type : Option UInt8} {header : IcmpHeader} (haccepts : Accepts type header.type) (data : Bytes) :
    ¬ReceivesSent type header data := by
  intro h
  obtain ⟨delivered, hrecv, hsent, -⟩ := h
  obtain ⟨checksum, rfl⟩ := hsent haccepts
  rw [connectRecv_send, if_pos haccepts] at hrecv
  have hmessage := List.head_eq_of_cons_eq (Except.ok.inj hrecv)
  exact send_ne header data (congrArg Prod.snd hmessage)

/-- A receiver gets what was sent only when it is to get nothing. -/
theorem icmp_receivesSent_iff (type : Option UInt8) (header : IcmpHeader) (data : Bytes) :
    ReceivesSent type header data ↔ ∃ other, type = some other ∧ other ≠ header.type := by
  constructor
  · intro h
    cases type with
    | none => exact absurd h (not_receivesSent (accepts_none _) data)
    | some other =>
      refine ⟨other, rfl, fun hother => ?_⟩
      exact not_receivesSent ((accepts_some _ _).mpr hother.symm) data h
  · intro h
    obtain ⟨other, rfl, hother⟩ := h
    have hdrops : ¬Accepts (some other) header.type := by
      rw [accepts_some]
      exact Ne.symm hother
    refine ⟨[], ?_, fun haccepts => absurd haccepts hdrops, fun _ => rfl⟩
    rw [connectRecv_send, if_neg hdrops]

theorem icmp_receivesSent_counterexample : ¬ReceivesSent none ⟨8, 0, 0, 0x12340001⟩ [0x61] :=
  not_receivesSent (accepts_none _) _

end IcmpProtocol
end NetworkingFramework
