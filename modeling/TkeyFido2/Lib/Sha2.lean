import TkeyFido2.Lib.BlockHash
import TkeyFido2.Lib.Bytes

/-!
# SHA-256

The hash function of FIPS 180-4: the functions on words, the message schedule, the compression of a
block and the padding of a message.  A message longer than the standard allows takes its length modulo
2^64.
-/

namespace Sha2

/-! ## Functions and constants -/

def rotr (n : Nat) (x : UInt32) : UInt32 := ⟨x.toBitVec.rotateRight n⟩

def ch (x y z : UInt32) : UInt32 := (x &&& y) ^^^ (~~~x &&& z)
def maj (x y z : UInt32) : UInt32 := (x &&& y) ^^^ (x &&& z) ^^^ (y &&& z)

/-- The functions `Σ` of the rounds and `σ` of the schedule. -/
def bigSigma0 (x : UInt32) : UInt32 := rotr 2 x ^^^ rotr 13 x ^^^ rotr 22 x
def bigSigma1 (x : UInt32) : UInt32 := rotr 6 x ^^^ rotr 11 x ^^^ rotr 25 x
def smallSigma0 (x : UInt32) : UInt32 := rotr 7 x ^^^ rotr 18 x ^^^ (x >>> 3)
def smallSigma1 (x : UInt32) : UInt32 := rotr 17 x ^^^ rotr 19 x ^^^ (x >>> 10)

/-- The constants of the rounds. -/
def roundConstants : List UInt32 :=
  [0x428a2f98, 0x71374491, 0xb5c0fbcf, 0xe9b5dba5, 0x3956c25b, 0x59f111f1, 0x923f82a4, 0xab1c5ed5,
    0xd807aa98, 0x12835b01, 0x243185be, 0x550c7dc3, 0x72be5d74, 0x80deb1fe, 0x9bdc06a7, 0xc19bf174,
    0xe49b69c1, 0xefbe4786, 0x0fc19dc6, 0x240ca1cc, 0x2de92c6f, 0x4a7484aa, 0x5cb0a9dc, 0x76f988da,
    0x983e5152, 0xa831c66d, 0xb00327c8, 0xbf597fc7, 0xc6e00bf3, 0xd5a79147, 0x06ca6351, 0x14292967,
    0x27b70a85, 0x2e1b2138, 0x4d2c6dfc, 0x53380d13, 0x650a7354, 0x766a0abb, 0x81c2c92e, 0x92722c85,
    0xa2bfe8a1, 0xa81a664b, 0xc24b8b70, 0xc76c51a3, 0xd192e819, 0xd6990624, 0xf40e3585, 0x106aa070,
    0x19a4c116, 0x1e376c08, 0x2748774c, 0x34b0bcb5, 0x391c0cb3, 0x4ed8aa4a, 0x5b9cca4f, 0x682e6ff3,
    0x748f82ee, 0x78a5636f, 0x84c87814, 0x8cc70208, 0x90befffa, 0xa4506ceb, 0xbef9a3f7, 0xc67178f2]

/-- The eight words of a hash value. -/
abbrev HashValue := List.Vector UInt32 8

def hashValue (a b c d e f g h : UInt32) : HashValue := ⟨[a, b, c, d, e, f, g, h], rfl⟩

def initialHash : HashValue :=
  hashValue 0x6a09e667 0xbb67ae85 0x3c6ef372 0xa54ff53a 0x510e527f 0x9b05688c 0x1f83d9ab 0x5be0cd19

/-! ## A block -/

/-- A word of a block, the high byte first. -/
def blockWord (block : List UInt8) (t : Nat) : UInt32 :=
  UInt32.ofNat ((block.getD (4 * t) 0).toNat * 16777216 + (block.getD (4 * t + 1) 0).toNat * 65536
    + (block.getD (4 * t + 2) 0).toNat * 256 + (block.getD (4 * t + 3) 0).toNat)

/-- The message schedule. -/
def schedule (block : List UInt8) (t : Nat) : UInt32 :=
  if t < 16 then blockWord block t
  else smallSigma1 (schedule block (t - 2)) + schedule block (t - 7) + smallSigma0 (schedule block (t - 15))
    + schedule block (t - 16)

/-- The working variables. -/
structure Work where
  a : UInt32
  b : UInt32
  c : UInt32
  d : UInt32
  e : UInt32
  f : UInt32
  g : UInt32
  h : UInt32

/-- A round with its constant and its word of the schedule. -/
def round (k w : UInt32) (v : Work) : Work :=
  let t₁ := v.h + bigSigma1 v.e + ch v.e v.f v.g + k + w
  let t₂ := bigSigma0 v.a + maj v.a v.b v.c
  ⟨t₁ + t₂, v.a, v.b, v.c, v.d + t₁, v.e, v.f, v.g⟩

def workOf (H : HashValue) : Work :=
  ⟨H.get 0, H.get 1, H.get 2, H.get 3, H.get 4, H.get 5, H.get 6, H.get 7⟩

/-- The working variables added to the hash value. -/
def addWork (H : HashValue) (v : Work) : HashValue :=
  hashValue (H.get 0 + v.a) (H.get 1 + v.b) (H.get 2 + v.c) (H.get 3 + v.d) (H.get 4 + v.e) (H.get 5 + v.f)
    (H.get 6 + v.g) (H.get 7 + v.h)

def compress (H : HashValue) (block : List UInt8) : HashValue :=
  addWork H ((List.range 64).foldl (fun v t => round (roundConstants.getD t 0) (schedule block t) v) (workOf H))

theorem schedule_of_lt (block : List UInt8) {t : Nat} (h : t < 16) : schedule block t = blockWord block t := by
  rw [schedule, if_pos h]

theorem schedule_of_le (block : List UInt8) {t : Nat} (h : 16 ≤ t) :
    schedule block t = smallSigma1 (schedule block (t - 2)) + schedule block (t - 7)
      + smallSigma0 (schedule block (t - 15)) + schedule block (t - 16) := by
  rw [schedule, if_neg (by omega)]

/-! ## A message -/

/-- A number in eight bytes, the high one first. -/
def be64 (x : Nat) : List UInt8 :=
  [UInt8.ofNat (x / 72057594037927936), UInt8.ofNat (x / 281474976710656), UInt8.ofNat (x / 1099511627776),
    UInt8.ofNat (x / 4294967296), UInt8.ofNat (x / 16777216), UInt8.ofNat (x / 65536), UInt8.ofNat (x / 256),
    UInt8.ofNat x]

/-- The bit 1, zeroes and the length in bits, up to a whole number of blocks of `len` bytes. -/
def padding (len : Nat) : List UInt8 :=
  0x80 :: List.replicate ((119 - len % 64) % 64) 0 ++ be64 (8 * len)

/-- The words of a hash value, the high bytes first. -/
def digestOf (H : HashValue) : Bytes 32 :=
  Bytes.ofList 32 (H.toList.flatMap be32)

def sha256 (msg : List UInt8) : Bytes 32 :=
  digestOf (BlockHash.chain compress 64 initialHash (msg ++ padding msg.length))

theorem length_padding (len : Nat) : (padding len).length = 9 + (119 - len % 64) % 64 := by
  unfold padding
  rw [List.length_append, List.length_cons, List.length_replicate]
  show _ + 1 + 8 = _
  omega

/-- The padded message has whole blocks. -/
theorem dvd_length_padded (msg : List UInt8) : 64 ∣ (msg ++ padding msg.length).length := by
  rw [List.length_append, length_padding]
  omega

end Sha2
