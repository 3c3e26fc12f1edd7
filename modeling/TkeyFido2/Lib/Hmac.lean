import TkeyFido2.Lib.Bytes

/-!
# HMAC and HKDF

RFC 2104 and RFC 5869 over any hash function of byte strings with digests of `L` bytes and blocks of
`B` bytes.
-/

namespace Hmac

variable {L : Nat} (hash : List UInt8 → Bytes L) (B : Nat)

/-! ## HMAC -/

/-- The key as a block: a long one is hashed, and zeroes fill the block. -/
def blockKey (key : List UInt8) : List UInt8 :=
  let key := if B < key.length then (hash key).toList else key
  key ++ List.replicate (B - key.length) 0

def hmac (key msg : List UInt8) : Bytes L :=
  hash ((blockKey hash B key).map (· ^^^ 0x5c)
    ++ (hash ((blockKey hash B key).map (· ^^^ 0x36) ++ msg)).toList)

variable {B}

theorem blockKey_of_le {key : List UInt8} (h : key.length ≤ B) :
    blockKey hash B key = key ++ List.replicate (B - key.length) 0 := by
  unfold blockKey
  rw [if_neg (by omega)]

/-- Zeroes behind a short key do not matter. -/
theorem hmac_append_zeros {key : List UInt8} {k : Nat} (h : key.length + k ≤ B) (msg : List UInt8) :
    hmac hash B (key ++ List.replicate k 0) msg = hmac hash B key msg := by
  have hlen : (key ++ List.replicate k (0 : UInt8)).length = key.length + k := by
    rw [List.length_append, List.length_replicate]
  unfold hmac
  rw [blockKey_of_le hash (by omega), blockKey_of_le hash (show key.length ≤ B by omega), hlen,
    List.append_assoc, List.replicate_append_replicate, show k + (B - (key.length + k)) = B - key.length by omega]

/-! ## HKDF -/

variable (B)

/-- The extract step; without a salt it is as many zeroes as a digest has. -/
def extract (salt : Option (List UInt8)) (ikm : List UInt8) : Bytes L :=
  hmac hash B (salt.getD (List.replicate L 0)) ikm

/-- An empty salt is as good as none. -/
theorem extract_empty (hB : L ≤ B) (ikm : List UInt8) : extract hash B (some []) ikm = extract hash B none ikm :=
  (hmac_append_zeros hash (show ([] : List UInt8).length + L ≤ B by rw [List.length_nil]; omega) ikm).symm

/-- The blocks `T(0)`, `T(1)`, ... of the expand step, the first of them empty. -/
def expandBlock (prk info : List UInt8) : Nat → List UInt8
  | 0 => []
  | i + 1 => (hmac hash B prk (expandBlock prk info i ++ info ++ [UInt8.ofNat (i + 1)])).toList

/-- `T(1)` to `T(n)`, one after the other. -/
def expandBlocks (prk info : List UInt8) (n : Nat) : List UInt8 :=
  (List.range n).flatMap fun i => expandBlock hash B prk info (i + 1)

/-- The first `len` bytes of as many blocks as that takes. -/
def expand (prk info : List UInt8) (len : Nat) : List UInt8 :=
  (expandBlocks hash B prk info ((len + L - 1) / L)).take len

theorem expandBlocks_succ (prk info : List UInt8) (n : Nat) :
    expandBlocks hash B prk info (n + 1)
      = expandBlocks hash B prk info n ++ expandBlock hash B prk info (n + 1) := by
  rw [expandBlocks, List.range_succ, List.flatMap_append, List.flatMap_singleton]
  rfl

theorem length_expandBlocks (prk info : List UInt8) (n : Nat) :
    (expandBlocks hash B prk info n).length = L * n := by
  induction n with
  | zero => rfl
  | succ n ih =>
    rw [expandBlocks_succ, List.length_append, ih, expandBlock, List.Vector.toList_length, Nat.mul_succ]

theorem length_expand (hL : 0 < L) (prk info : List UInt8) (len : Nat) :
    (expand hash B prk info len).length = len := by
  have hdiv := Nat.lt_mul_div_succ (len + L - 1) hL
  rw [expand, List.length_take, length_expandBlocks]
  rw [Nat.mul_succ] at hdiv
  omega

/-- More blocks than needed make no difference. -/
theorem take_expandBlocks_of_le (prk info : List UInt8) {len n m : Nat} (hn : len ≤ L * n) (hnm : n ≤ m) :
    (expandBlocks hash B prk info m).take len = (expandBlocks hash B prk info n).take len := by
  induction m, hnm using Nat.le_induction with
  | base => rfl
  | succ m hle ih =>
    have hm : len ≤ L * m := hn.trans (Nat.mul_le_mul_left L hle)
    rw [expandBlocks_succ, List.take_append_of_le_length (by rwa [length_expandBlocks]), ih]

end Hmac
