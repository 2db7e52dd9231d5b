import NetworkingFramework.Lemmas.Arp

/-!
# ARP packets

The codec of a header whose addresses have the lengths that the header says, and what is left of the others.
-/

namespace NetworkingFramework

open Wire Wire.Decoder

/-- A header whose four addresses have the sizes that it says is written in `calc_sz()` bytes, and read back from them with that
size, whatever follows. Any other is not written: the program is aborted when the fields before the addresses and the addresses
before the first with another size are written, and no byte of that address or of one behind it. -/
theorem arpHeader_roundTrips (header : ArpHeader) :
    (header.SizesMatch → ∃ written, writeArpHeader header = .ok written ∧ written.length = header.calcSz ∧
      ∀ post, extractArpHeader.run (written ++ post) 0 = .ok (header, header.calcSz)) ∧
    (¬header.SizesMatch → ∃ before addr behind, header.addrs = before ++ addr :: behind ∧
      (∀ a ∈ before, a.1.length = a.2.toNat) ∧ addr.1.length ≠ addr.2.toNat ∧
      writeArpHeader header = .error (header.fixedPart ++ before.flatMap Prod.fst)) := by
  constructor
  · intro h
    refine ⟨header.wire, writeArpHeader_ok h, h.length_wire, fun post => ?_⟩
    rw [← h.length_wire]
    exact (roundTrips_arpHeader h).run_append post
  · intro h
    rw [header.sizesMatch_iff] at h
    rw [writeArpHeader_eq]
    exact writeArpAddrs_error h header.fixedPart

end NetworkingFramework
