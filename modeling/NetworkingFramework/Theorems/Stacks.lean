import NetworkingFramework.Lemmas.HeaderCodecs

/-!
# Stacks of protocols

What the top of one host's stack sends is delivered on top of the other host's mirrored stack, once and unchanged; if some
layer filters on another value than the one written, nothing is.
-/

namespace NetworkingFramework

open Wire

/-- What one host sends through a stack of protocols that has room for it, the other host's stack of the same protocols
delivers if its layers mirror the sender's, and drops if some layer filters on another value than the sender wrote. -/
theorem stack_transparent_selective (as bs : List Layer) (hsame : List.Forall₂ Layer.SameProtocol as bs) (payload : Bytes)
    (hroom : StackHasRoom as payload) :
    ∃ frame, stackSend as payload = .ok frame ∧
      (List.Forall₂ Layer.Mirrored as bs → stackRecv bs frame = .ok [payload]) ∧
      ((∃ ab ∈ as.zip bs, ¬ab.2.AcceptsFrom ab.1) → stackRecv bs frame = .ok []) := by
  obtain ⟨frame, hframe⟩ := stackSend_of_hasRoom hroom
  have hrecv := stackRecv_of_stackSend hsame hframe
  refine ⟨frame, hframe, fun hmirrored => ?_, ?_⟩
  · have hall : ∀ ab ∈ as.zip bs, ab.2.AcceptsFrom ab.1 := fun ab hab =>
      Layer.Mirrored.acceptsFrom (List.forall₂_iff_zip.mp hmirrored |>.2 hab)
    rw [hrecv, if_pos hall]
  · intro h
    rcases h with ⟨ab, hab, hnot⟩
    rw [hrecv, if_neg fun hall => hnot (hall ab hab)]

/-- EMP over UDP over IPv4 over Ethernet between two hosts. -/
theorem stack_transparent_selective_emp : ∃ frame, stackSend
      [.emp ⟨some ⟨[2]⟩, ⟨[0, 1]⟩⟩, .udp ⟨some 9, 8⟩, .ip4 ⟨⟨⟨[10, 0, 0, 2], rfl⟩⟩, some ⟨⟨[10, 0, 0, 1], rfl⟩⟩, some 17⟩,
        .ether2 ⟨⟨⟨[0, 0, 0, 0, 0, 2], rfl⟩⟩, some ⟨⟨[0, 0, 0, 0, 0, 1], rfl⟩⟩, some 0x0800⟩] [104, 105] = .ok frame ∧
    stackRecv
      [.emp ⟨some ⟨[0, 1]⟩, ⟨[2]⟩⟩, .udp ⟨some 8, 9⟩, .ip4 ⟨⟨⟨[10, 0, 0, 1], rfl⟩⟩, some ⟨⟨[10, 0, 0, 2], rfl⟩⟩, some 17⟩,
        .ether2 ⟨⟨⟨[0, 0, 0, 0, 0, 1], rfl⟩⟩, some ⟨⟨[0, 0, 0, 0, 0, 2], rfl⟩⟩, some 0x0800⟩] frame = .ok [[104, 105]] := by
  obtain ⟨frame, hsend, hmirrored, -⟩ := stack_transparent_selective
    [.emp ⟨some ⟨[2]⟩, ⟨[0, 1]⟩⟩, .udp ⟨some 9, 8⟩, .ip4 ⟨⟨⟨[10, 0, 0, 2], rfl⟩⟩, some ⟨⟨[10, 0, 0, 1], rfl⟩⟩, some 17⟩,
      .ether2 ⟨⟨⟨[0, 0, 0, 0, 0, 2], rfl⟩⟩, some ⟨⟨[0, 0, 0, 0, 0, 1], rfl⟩⟩, some 0x0800⟩]
    [.emp ⟨some ⟨[0, 1]⟩, ⟨[2]⟩⟩, .udp ⟨some 8, 9⟩, .ip4 ⟨⟨⟨[10, 0, 0, 1], rfl⟩⟩, some ⟨⟨[10, 0, 0, 2], rfl⟩⟩, some 17⟩,
      .ether2 ⟨⟨⟨[0, 0, 0, 0, 0, 1], rfl⟩⟩, some ⟨⟨[0, 0, 0, 0, 0, 2], rfl⟩⟩, some 0x0800⟩]
    (.cons trivial (.cons trivial (.cons trivial (.cons trivial .nil)))) [104, 105]
    ⟨by decide, fun _ _ => ⟨trivial, fun _ _ => ⟨trivial, fun _ _ => ⟨trivial, fun _ _ => trivial⟩⟩⟩⟩
  refine ⟨frame, hsend, hmirrored ?_⟩
  exact .cons ⟨rfl, rfl⟩ (.cons ⟨rfl, rfl⟩ (.cons ⟨rfl, rfl, rfl⟩ (.cons ⟨rfl, rfl, rfl⟩ .nil)))

end NetworkingFramework
