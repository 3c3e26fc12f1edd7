import Mathlib.Data.List.Basic
import Mathlib.Logic.Function.Basic
import Mathlib.Tactic.Common

/-!
# Block ciphers and their modes of operation

A cipher runs rounds one after the other and its inverse runs their inverses in the opposite order.  A mode
of operation extends a block cipher to messages: chaining mixes each block with the ciphertext before it, a
counter mode masks the message with a stream of encrypted counters.
-/

namespace BlockModes

/-! ## Rounds -/

/-- Rounds in the opposite order undo what the rounds did, up to a step `φ` that they are shifted by. -/
theorem foldl_reverse_undoes {κ β : Type} {f g : β → κ → β} (φ : β → β)
    (h : ∀ r z, g (φ (f z r)) r = φ z) (l : List κ) (z : β) : l.reverse.foldl g (φ (l.foldl f z)) = φ z := by
  induction l generalizing z with
  | nil => rfl
  | cons r l ih =>
    rw [List.foldl_cons, List.reverse_cons, List.foldl_append, ih, List.foldl_cons, h, List.foldl_nil]

/-! ## Chaining -/

section Chaining

variable {B : Type} (mix : B → B → B) (enc dec : B → B)

/-- The encrypted blocks, and the chaining value behind them. -/
def cbcEncrypt (iv : B) : List B → List B × B
  | [] => ([], iv)
  | b :: bs =>
    let rest := cbcEncrypt (enc (mix b iv)) bs
    (enc (mix b iv) :: rest.1, rest.2)

def cbcDecrypt (iv : B) : List B → List B × B
  | [] => ([], iv)
  | c :: cs =>
    let rest := cbcDecrypt c cs
    (mix (dec c) iv :: rest.1, rest.2)

variable {mix enc dec}

/-- Decryption restores the message, and both directions leave one chaining value. -/
theorem cbcDecrypt_cbcEncrypt (hmix : ∀ a k, mix (mix a k) k = a) (hdec : Function.LeftInverse dec enc)
    (iv : B) (bs : List B) :
    cbcDecrypt mix dec iv (cbcEncrypt mix enc iv bs).1 = (bs, (cbcEncrypt mix enc iv bs).2) := by
  induction bs generalizing iv with
  | nil => rfl
  | cons b bs ih =>
    show (mix (dec (enc (mix b iv))) iv :: (cbcDecrypt mix dec _ _).1, (cbcDecrypt mix dec _ _).2) = _
    rw [ih, hdec, hmix]
    rfl

theorem cbcEncrypt_cbcDecrypt (hmix : ∀ a k, mix (mix a k) k = a) (henc : Function.LeftInverse enc dec)
    (iv : B) (cs : List B) :
    cbcEncrypt mix enc iv (cbcDecrypt mix dec iv cs).1 = (cs, (cbcDecrypt mix dec iv cs).2) := by
  induction cs generalizing iv with
  | nil => rfl
  | cons c cs ih =>
    show (enc (mix (mix (dec c) iv) iv) :: (cbcEncrypt mix enc (enc (mix (mix (dec c) iv) iv)) _).1, _) = _
    rw [hmix, henc]
    show (c :: (cbcEncrypt mix enc c (cbcDecrypt mix dec c cs).1).1,
      (cbcEncrypt mix enc c (cbcDecrypt mix dec c cs).1).2) = _
    rw [ih]
    rfl

@[simp] theorem length_cbcEncrypt (iv : B) (bs : List B) :
    (cbcEncrypt mix enc iv bs).1.length = bs.length := by
  induction bs generalizing iv with
  | nil => rfl
  | cons b bs ih => exact congrArg Nat.succ (ih _)

@[simp] theorem length_cbcDecrypt (iv : B) (cs : List B) :
    (cbcDecrypt mix dec iv cs).1.length = cs.length := by
  induction cs generalizing iv with
  | nil => rfl
  | cons c cs ih => exact congrArg Nat.succ (ih _)

end Chaining

/-! ## Masking -/

section Masking

variable {W : Type} (mix : W → W → W) (stream : Nat → W)

/-- The message mixed with a stream. -/
def masked (l : List W) : List W := l.mapIdx fun i b => mix b (stream i)

variable {mix stream}

theorem masked_masked (hmix : ∀ a k, mix (mix a k) k = a) (l : List W) :
    masked mix stream (masked mix stream l) = l := by
  refine List.ext_getElem ?_ fun i h₁ h₂ => ?_
  · simp [masked]
  · simp [masked, hmix]

theorem masked_cons (b : W) (l : List W) :
    masked mix stream (b :: l) = mix b (stream 0) :: masked mix (fun i => stream (i + 1)) l :=
  List.mapIdx_cons

@[simp] theorem length_masked (l : List W) : (masked mix stream l).length = l.length := List.length_mapIdx

end Masking

end BlockModes
