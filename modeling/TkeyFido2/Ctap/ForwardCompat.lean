import TkeyFido2.Cbor.Members
import TkeyFido2.Ctap.StateRoundTrip

/-!
# State files of later formats

`state_cbor_decode` skips the value of a key that it does not know in the `switch` and then once more at the
end of its loop, so that it goes three items on where an entry has two.
-/

namespace TkeyFido2

open Cbor Prog

/-! ## Items in the order of the input -/

/-- The items that `cbor_value_advance` meets up to the end of a container; a tag is an item of its own. -/
inductive Cbor.CborValue.Walks : CborValue → List CborValue → Prop
  | nil {it : CborValue} (hend : it.atEnd = true) : it.Walks []
  | cons {it next : CborValue} {ps : List CborValue} (hnext : advance it = .ok next) (hps : next.Walks ps) :
      it.Walks (it :: ps)

section Walks

variable {it next : CborValue} {ps : List CborValue}

theorem Cbor.CborValue.Walks.length_le (h : it.Walks ps) (hit : it.Fresh) : ps.length ≤ it.rest.length := by
  induction h with
  | nil _ => exact Nat.zero_le _
  | cons hnext _ ih =>
    obtain ⟨hlt, hfresh⟩ := advance_ok hnext hit
    exact (ih hfresh).trans_lt hlt

end Walks

/-! ## Keys and values as they are read -/

section Fields

variable {s s' t : AuthState} {key : Nat} {x y : CborValue}

end Fields

/-! ## The loop -/

section Loop

variable {s t : AuthState} {it : CborValue}

end Loop

/-! ## The decoder -/

end TkeyFido2
