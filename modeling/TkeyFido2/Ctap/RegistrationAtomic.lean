import TkeyFido2.Ctap.MakeCredentialStages
import TkeyFido2.Ctap.Simulator

/-!
# Failed registrations

authenticatorMakeCredential stores a resident key before it signs and encodes the attestation statement.  A
request that fails behind that point has already changed the store; this happens where the device has an
attestation key but no certificate that fits.
-/

namespace TkeyFido2

open Cbor Encoder Prog

variable {P : Platform} {w w' : World}

/-! ## What must hold for a credential to be stored -/

theorem World.SameStore.trans {w'' : World} (h : w.SameStore w') (h' : w'.SameStore w'') : w.SameStore w'' :=
  ⟨h'.1.trans h.1, h'.2.trans h.2⟩

section Touching

variable {S : List Part} {α : Type} {m : CtapM α}

theorem Touches.sameStore_ok (hm : Touches S m) (hf : Part.rkFiles ∉ S) (hs : Part.rkStored ∉ S) {a : α}
    (h : m w = .ok a w') : w.SameStore w' := ⟨(hm .rkFiles hf).ok h, (hm .rkStored hs).ok h⟩

theorem Touches.sameStore_error (hm : Touches S m) (hf : Part.rkFiles ∉ S) (hs : Part.rkStored ∉ S) {e : Stop}
    (h : m w = .error e w') : w.SameStore w' := ⟨(hm .rkFiles hf).error h, (hm .rkStored hs).error h⟩

end Touching

end TkeyFido2
