import TkeyFido2.Ctap.Types

/-!
# Cryptography

The primitives are parameters: SHA-256, AES in CTR and CBC mode, the P-256 operations of micro-ecc
and Ed25519.  Functions that draw random numbers take the remaining output of the generator and say
how many bytes they used.  HMAC, HKDF and the key hierarchy follow `crypto.c`.
-/

namespace TkeyFido2

/-- The primitives. -/
structure Primitives where
  sha256 : List UInt8 → Bytes 32
  /-- `AES_CTR_xcrypt_buffer` under a key and an initial counter block. -/
  aesCtr : Bytes 32 → Bytes 16 → {n : Nat} → Bytes n → Bytes n
  aesCbcEncrypt : Bytes 32 → Bytes 16 → {n : Nat} → Bytes n → Bytes n
  aesCbcDecrypt : Bytes 32 → Bytes 16 → {n : Nat} → Bytes n → Bytes n
  /-- `uECC_compute_public_key`; `none` is the result 0. -/
  eccPublicKey : Bytes 32 → (Nat → UInt8) → Option (Bytes 64) × Nat
  /-- `uECC_shared_secret` of a public and a private key; `none` is the result 0. -/
  eccSharedSecret : Bytes 64 → Bytes 32 → (Nat → UInt8) → Option (Bytes 32) × Nat
  /-- `uECC_sign` with a private key; `none` is the result 0. -/
  eccSign : Bytes 32 → Bytes 32 → (Nat → UInt8) → Option (Bytes 64) × Nat
  /-- The public key of an Ed25519 seed. -/
  ed25519PublicKey : Bytes 32 → Bytes 32
  /-- The signature of a message under an Ed25519 seed. -/
  ed25519Sign : Bytes 32 → List UInt8 → Bytes 64

namespace Primitives

variable (C : Primitives)

/-- `crypto_sha256_hmac_init`, updates and `crypto_sha256_hmac_final`, for a key of at most 64
bytes. -/
def hmac (key msg : List UInt8) : Bytes 32 :=
  let pad := (Bytes.ofList 64 key).toList
  C.sha256 (pad.map (· ^^^ 0x5c) ++ (C.sha256 (pad.map (· ^^^ 0x36) ++ msg)).toList)

/-- `crypto_hkdf_extract_sha256`; an empty salt is 32 zero bytes. -/
def hkdfExtract (salt ikm : List UInt8) : Bytes 32 :=
  C.hmac (if salt = [] then List.replicate 32 0 else salt) ikm

/-- `crypto_hkdf_expand_sha256` for 32 bytes of output: one round of its loop. -/
def hkdfExpand32 (prk : Bytes 32) (info : List UInt8) : Bytes 32 :=
  C.hmac prk.toList (info ++ [1])

end Primitives

/-- The bytes of an ASCII literal. -/
def ascii (s : String) : List UInt8 := s.toList.map fun c => UInt8.ofNat c.toNat

/-- `cred_cmp_func`: larger counts first. -/
def credCmpLe (a b : CredentialDescriptor) : Prop := b.id.count ≤ a.id.count

/-- `qsort` with `cred_cmp_func`: some sorted permutation. -/
structure Qsort where
  sort : List CredentialDescriptor → List CredentialDescriptor
  perm : ∀ l, (sort l).Perm l
  sorted : ∀ l, (sort l).Pairwise credCmpLe

/-- What differs from device to device. -/
structure Platform where
  prims : Primitives
  qsort : Qsort
  /-- The compound device identifier, the hardware secret bound to device and app. -/
  cdi : Bytes 32

namespace Platform

variable (P : Platform)

/-- A static string passed with `sizeof`, so with its zero byte. -/
def info (s : String) : List UInt8 := ascii s ++ [0]

def keyAttestationEnc : Bytes 32 := P.prims.hkdfExpand32 P.cdi (info "att_enc")
def keyPinEnc : Bytes 32 := P.prims.hkdfExpand32 P.cdi (info "pin_enc")
def keyDeviceMac : Bytes 32 := P.prims.hkdfExpand32 P.cdi (info "device_mac")

end Platform

/-- The keys of `crypto_derive_session_keys`. -/
structure SessionKeys where
  credPriv : Bytes 32
  credMac : Bytes 32
  metaEnc : Bytes 32
  hmacExt : Bytes 32
  deriving DecidableEq

/-- `crypto_derive_session_keys`. -/
def Platform.deriveSessionKeys (P : Platform) (salt : Bytes 64) : SessionKeys :=
  let prk := P.prims.hkdfExtract salt.toList P.cdi.toList
  { credPriv := P.prims.hkdfExpand32 prk (Platform.info "cred_priv")
    credMac := P.prims.hkdfExpand32 prk (Platform.info "cred_mac")
    metaEnc := P.prims.hkdfExpand32 prk (Platform.info "meta_enc")
    hmacExt := P.prims.hkdfExpand32 prk (Platform.info "hmac_ext") }

/-- The group order of P-256, big-endian. -/
def secp256r1N : List UInt8 :=
  [0xFF, 0xFF, 0xFF, 0xFF, 0x00, 0x00, 0x00, 0x00, 0xFF, 0xFF, 0xFF, 0xFF, 0xFF, 0xFF, 0xFF, 0xFF,
    0xBC, 0xE6, 0xFA, 0xAD, 0xA7, 0x17, 0x9E, 0x84, 0xF3, 0xB9, 0xCA, 0xC2, 0xFC, 0x63, 0x25, 0x51]

/-- `memcmp(a, b, n) < 0` for buffers of one length. -/
def memcmpLt : List UInt8 → List UInt8 → Bool
  | a :: as, b :: bs => if a = b then memcmpLt as bs else a < b
  | _, _ => false

/-- `crypto_ecc256_is_valid_scalar`. -/
def isValidScalar (k : Bytes 32) : Bool :=
  k.toList.any (· ≠ 0) && memcmpLt k.toList secp256r1N

/-- `n` bytes of a stream from a position on. -/
def streamBytes (byte : Nat → UInt8) (pos n : Nat) : Bytes n :=
  ⟨(List.range n).map fun i => byte (pos + i), by simp⟩

/-- The output of the random number generator.  A generator that works yields a valid P-256 scalar
within a bounded number of draws. -/
structure Rng where
  byte : Nat → UInt8
  tries : Nat
  scalar : ∀ pos, ∃ k ≤ tries, isValidScalar (streamBytes byte (pos + 32 * k) 32)

end TkeyFido2
