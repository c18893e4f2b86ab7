import ChainRelay.Proofs.BlockFetch.Codec
import ChainRelay.Proofs.ChainSync.Codec
import ChainRelay.Proofs.KeepAlive.Codec

/-! Messages and their written forms belong to each other. A message is read back as it
was written, and a value that is read as a message is what that message is written as, so
nothing is added to it, left out of it or shaped otherwise. -/
namespace ChainRelay.Protocol

variable {State Message : Type}

structure Exact (p : Protocol State Message) (Whole : Message → Prop) : Prop where
  /-- a whole message can be written, and arrives as it was -/
  returned : ∀ m, Whole m → ∃ b, p.encode m = .ok b ∧ p.decode b = .ok m
  /-- a value is read as a message only if the message is written as that value -/
  only : ∀ v m, p.ofCbor v = .ok m → p.toCbor m = v
  /-- whatever has been read can be written, and read again; no input is longer than a
  machine word can count -/
  again : ∀ b m, b.length < UInt64.size → p.decode b = .ok m →
    ∃ c, p.encode m = .ok c ∧ p.decode c = .ok m

theorem exact_of_conveys {p : Protocol State Message} {Fits Whole : Message → Prop}
    {carried : Message → Message} (conveys : p.Conveys Fits carried)
    (reads : ∀ {m}, Fits m → p.ofCbor (p.toCbor m) = .ok (carried m))
    (only : ∀ v m, p.ofCbor v = .ok m → p.toCbor m = v)
    (fits_of_read : ∀ {v m}, p.ofCbor v = .ok m → v.weight < UInt64.size → Fits m)
    (fits : ∀ {m}, Whole m → Fits m) (same : ∀ {m}, Whole m → carried m = m) : p.Exact Whole where
  returned m whole := by
    obtain ⟨b, written, read⟩ := conveys.delivered (fits whole)
    rw [same whole] at read
    exact ⟨b, written, read⟩
  only := only
  again b m short read := by
    obtain ⟨v, item, shape⟩ := Cbor.bind_eq_ok.mp read
    have light := Nat.lt_of_le_of_lt (Cbor.weight_le_of_decode item) short
    have fit := fits_of_read shape light
    -- the message is the one that its own value stands for
    have kept : carried m = m := by
      have own := reads fit
      rw [only v m shape, shape] at own
      exact (Except.ok.inj own).symm
    obtain ⟨c, written, back⟩ := conveys.delivered fit
    rw [kept] at back
    exact ⟨c, written, back⟩

/-- Chain sync, block fetch and keep-alive are exact. Only a point without a hash that is
not the origin, a late era numbered 0 and what no machine word can count do not return. -/
theorem exact_codecs :
    ChainSync.protocol.Exact ChainSync.Message.Whole ∧
      BlockFetch.protocol.Exact BlockFetch.Message.Whole ∧
        KeepAlive.protocol.Exact fun _ => True := by
  refine ⟨?chainSync, ?blockFetch, ?keepAlive⟩
  case chainSync =>
    exact exact_of_conveys ChainSync.conveys ChainSync.Message.ofCbor_toCbor
      (fun _ _ => ChainSync.Message.toCbor_of_ofCbor) ChainSync.Message.fits_of_ofCbor
      ChainSync.Message.Whole.fits ChainSync.Message.Whole.carried_eq
  case blockFetch =>
    exact exact_of_conveys BlockFetch.conveys (fun {m} _ => m.ofCbor_toCbor)
      (fun _ _ => BlockFetch.Message.toCbor_of_ofCbor) BlockFetch.Message.fits_of_ofCbor
      BlockFetch.Message.Whole.fits BlockFetch.Message.Whole.carried_eq
  case keepAlive =>
    exact exact_of_conveys KeepAlive.conveys (fun {m} _ => m.ofCbor_toCbor)
      (fun _ _ => KeepAlive.Message.toCbor_of_ofCbor) (fun _ _ => trivial) id fun _ => rfl

/-- A Byron header at a tip with a hash, told back as it was. -/
theorem exact_codecs_byron :
    (ChainSync.Message.rollForward (.byronMain 7 [0x80]) ⟨⟨20, some .zero⟩, 1⟩).Whole ∧
      ∃ b, ChainSync.protocol.encode
          (.rollForward (.byronMain 7 [0x80]) ⟨⟨20, some .zero⟩, 1⟩) = .ok b ∧
        ChainSync.protocol.decode b =
          .ok (.rollForward (.byronMain 7 [0x80]) ⟨⟨20, some .zero⟩, 1⟩) := by
  have whole : (ChainSync.Message.rollForward (.byronMain 7 [0x80]) ⟨⟨20, some .zero⟩, 1⟩).Whole :=
    ⟨⟨by decide, nofun⟩, .inr rfl⟩
  exact ⟨whole, exact_codecs.1.returned _ whole⟩

end ChainRelay.Protocol
