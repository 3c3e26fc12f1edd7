import Mathlib.Data.List.Sort
import TkeyFido2.Ctap.Start

/-!
# Running the model

Stand-ins for the primitives that are cheap to compute, so that requests can be evaluated.  They are
total functions of the right types; ciphers undo themselves and different messages have different
hashes as far as the runs below need it.  A list of messages is served one after the other, and what
comes out is a history of the device.
-/

namespace TkeyFido2

open Cbor Prog

/-! ## A platform -/

/-- A polynomial hash, spread over 32 bytes. -/
def simSha256 (l : List UInt8) : Bytes 32 :=
  let acc := l.foldl (fun (a : Nat) b => (a * 257 + b.toNat + 1) % (2 ^ 256 - 189)) 7
  Bytes.ofList 32 (Encoder.beBytes
    (acc * 0x9e3779b97f4a7c15f39cc0605cedc8341082276bf3a27251f86c6a11d0c18e95 % (2 ^ 256 - 189)) 32)

/-- XOR with a key stream. -/
def simCipher (k : Bytes 32) (iv : Bytes 16) {n : Nat} (b : Bytes n) : Bytes n :=
  ⟨b.toList.zipWith (· ^^^ ·) ((List.range n).map fun i => k.byte (i % 32) ^^^ iv.byte (i % 16)), by simp⟩

def simPrimitives : Primitives where
  sha256 := simSha256
  aesCtr := fun k iv _ b => simCipher k iv b
  aesCbcEncrypt := fun k iv _ b => simCipher k iv b
  aesCbcDecrypt := fun k iv _ b => simCipher k iv b
  eccPublicKey := fun k _ => (some (Bytes.append k k), 0)
  eccSharedSecret := fun _ _ _ => (some (Bytes.zero 32), 0)
  eccSign := fun k h _ => (some (Bytes.append k h), 0)
  ed25519PublicKey := fun k => k
  ed25519Sign := fun k m => Bytes.ofList 64 (k.toList ++ m)

instance : DecidableRel credCmpLe := fun a b => inferInstanceAs (Decidable (b.id.count ≤ a.id.count))

instance : Std.Total credCmpLe := ⟨fun a b => UInt32.le_total b.id.count a.id.count⟩

instance : IsTrans CredentialDescriptor credCmpLe := ⟨fun _ _ _ hab hbc => UInt32.le_trans hbc hab⟩

/-- Insertion sort is one of the sorting functions that `qsort` may be. -/
def simQsort : Qsort where
  sort := List.insertionSort credCmpLe
  perm := List.perm_insertionSort credCmpLe
  sorted := List.pairwise_insertionSort credCmpLe

def simPlatform : Platform where
  prims := simPrimitives
  qsort := simQsort
  cdi := Bytes.zero 32

/-- A key whose first byte is neither zero nor the largest one is below the group order. -/
theorem isValidScalar_of_head {k : Bytes 32} {b : UInt8} {l : List UInt8} (hk : k.toList = b :: l)
    (h₀ : b ≠ 0) (h₁ : b < 0xff) : isValidScalar k = true := by
  have hlt : memcmpLt (b :: l) secp256r1N = true := by
    unfold secp256r1N memcmpLt
    rw [if_neg (by rintro rfl; exact absurd h₁ (by decide))]
    simpa using h₁
  simp [isValidScalar, hk, hlt, h₀]

/-- A generator whose every draw is a valid scalar. -/
def simRng : Rng where
  byte := fun i => UInt8.ofNat (i % 200 + 3)
  tries := 0
  scalar := fun pos => ⟨0, le_rfl, by
    have hnat : (UInt8.ofNat (pos % 200 + 3)).toNat = pos % 200 + 3 := by
      rw [UInt8.toNat_ofNat']
      omega
    refine isValidScalar_of_head (b := UInt8.ofNat (pos % 200 + 3)) rfl ?_ ?_
    · intro h
      rw [h] at hnat
      simp at hnat
    · rw [UInt8.lt_iff_toNat_lt, hnat]
      show pos % 200 + 3 < 255
      omega⟩

/-- Inputs with a user who touches the device as told. -/
def simInputs (presence : Nat → Bool) : Inputs where
  rng := simRng
  presence := presence
  millis := fun _ => 5

/-- A device that was never started. -/
def simNew : World where
  appVersion := 0
  keys := zeroKeys
  inputs := simInputs fun _ => true

/-- The device after its first start. -/
def simStart : World :=
  final (ctapInit simPlatform) ((simNew.powerOn 0).withInputs (simInputs fun _ => true))

theorem run_simStart : Run simPlatform [.boot simStart] simStart := by
  have hnew : simNew.IsNew := ⟨rfl, fun _ => rfl⟩
  obtain ⟨w', h⟩ := hnew.boots (P := simPlatform) (simInputs fun _ => true) 0
  have hw : simStart = w' := final_of_ok h
  exact .start hnew ⟨_, _, hw ▸ h⟩

/-! ## Histories -/

/-- A message and what happens while it is served. -/
structure Message where
  cmd : UInt8
  request : List UInt8
  inputs : Inputs

variable (P : Platform)

/-- Serve a message. -/
def serve (w : World) (m : Message) : Option Served :=
  match ctapRequest P m.cmd m.request (w.withInputs m.inputs) with
  | .ok (status, response) after =>
    some { before := w, cmd := m.cmd, request := m.request, status, response, after }
  | .error _ _ => none

/-- Serve messages in their order: the state behind the last one and the served requests, the newest
first. -/
def serveAll (w : World) : List Message → Option (World × List Served)
  | [] => some (w, [])
  | m :: ms =>
    match serve P w m with
    | none => none
    | some r => (serveAll r.after ms).map fun x => (x.1, x.2 ++ [r])

variable {P}

theorem serve_valid {w : World} {m : Message} {r : Served} (h : serve P w m = some r) :
    r.Valid P ∧ r.before = w := by
  unfold serve at h
  split at h
  · rename_i status response after hr
    obtain rfl := Option.some.inj h
    exact ⟨⟨m.inputs, hr⟩, rfl⟩
  · cases h

/-- What is served one after the other is a history. -/
theorem serveAll_run {ms : List Message} {h : List Entry} {w w' : World} {rs : List Served}
    (hr : Run P h w) (hs : serveAll P w ms = some (w', rs)) : Run P (rs.map .request ++ h) w' := by
  induction ms generalizing h w rs with
  | nil =>
    obtain ⟨rfl, rfl⟩ : w = w' ∧ [] = rs := by simpa [serveAll] using hs
    exact hr
  | cons m ms ih =>
    unfold serveAll at hs
    cases hm : serve P w m with
    | none => simp [hm] at hs
    | some r =>
      simp only [hm, Option.map_eq_some_iff] at hs
      obtain ⟨⟨w₁, rs₁⟩, hall, heq⟩ := hs
      obtain ⟨rfl, rfl⟩ := Prod.mk.inj heq
      obtain ⟨hv, hb⟩ := serve_valid hm
      have := ih (.request hr r hv hb) hall
      simpa using this

/-! ## Evaluated runs -/

section Evaluated

variable {α : Type} {w : World}

/-- A run that ends well, with a property of what it leaves. -/
theorem run_of_test {m : CtapM α} {p : α → World → Bool}
    (h : (match m w with
      | .ok a w' => p a w'
      | .error _ _ => false) = true) : ∃ a w', m w = .ok a w' ∧ p a w' = true := by
  cases hrun : m w with
  | ok a w' =>
    rw [hrun] at h
    exact ⟨a, w', rfl, h⟩
  | error e w' =>
    rw [hrun] at h
    exact absurd h (by simp)

/-- A test of what a run leaves that ends well. -/
def runTest (m : CtapM α) (p : α → World → Bool) (w : World) : Bool :=
  match m w with
  | .ok a w' => p a w'
  | .error _ _ => false

theorem runTest_ok {m : CtapM α} {p : α → World → Bool} (h : runTest m p w = true) :
    ∃ a w', m w = .ok a w' ∧ p a w' = true := run_of_test h

theorem parse_of_test {x : Parse α} {p : α → Bool}
    (h : (match x with
      | .ok a => p a
      | .error _ => false) = true) : ∃ a, x = .ok a ∧ p a = true := by
  cases hrun : x with
  | ok a =>
    rw [hrun] at h
    exact ⟨a, rfl, h⟩
  | error e =>
    rw [hrun] at h
    exact absurd h (by simp)

end Evaluated

/-! ## Requests -/

def encBytes (l : List UInt8) : List UInt8 := Encoder.numberBytes l.length 2 ++ l

def encString (s : String) : List UInt8 := Encoder.numberBytes s.length 3 ++ ascii s

def encMap (members : List (List UInt8 × List UInt8)) : List UInt8 :=
  Encoder.numberBytes members.length 5 ++ (members.map fun m => m.1 ++ m.2).flatten

/-- The key agreement key of a platform. -/
def simCoseKey : List UInt8 :=
  encMap [([1], [2]), ([3], [0x38, 0x18]), ([0x20], [1]), ([0x21], encBytes (List.replicate 32 1)),
    ([0x22], encBytes (List.replicate 32 1))]

/-- Encryption and MAC key of protocol 1 for the shared secret of the stand-in. -/
def simSecret : Bytes 32 × Bytes 32 := kdf simPrimitives (Bytes.zero 32) 1

def simEncrypt {n : Nat} (b : Bytes n) : List UInt8 := (simCipher simSecret.1 (Bytes.zero 16) b).toList

/-- The first 16 bytes of a MAC, as protocol 1 sends it. -/
def simAuth (key : Bytes 32) (message : List UInt8) : List UInt8 :=
  encBytes ((simPrimitives.hmac key.toList message).toList.take 16)

/-- The token of protocol 1 that is issued. -/
def simToken : Bytes 32 := streamBytes simRng.byte 0 32

/-- setPIN. -/
def setPinRequest (pin : String) : List UInt8 :=
  let enc := simEncrypt (Bytes.ofList 64 (ascii pin))
  encMap [([1], [1]), ([2], [3]), ([3], simCoseKey), ([4], simAuth simSecret.2 enc), ([5], encBytes enc)]

/-- getPinUvAuthTokenUsingPinWithPermissions. -/
def getTokenRequest (pin : String) (permissions : UInt8) (rpId : String) : List UInt8 :=
  encMap [([1], [1]), ([2], [9]), ([3], simCoseKey),
    ([6], encBytes (simEncrypt ((simSha256 (ascii pin)).slice 0 16))), ([9], [permissions]),
    ([10], encString rpId)]

/-- The members of authenticatorMakeCredential for a discoverable credential. -/
def makeCredentialMembers (rpId : String) (user : UInt8) : List (List UInt8 × List UInt8) :=
  [([1], encBytes (List.replicate 32 7)), ([2], encMap [(encString "id", encString rpId)]),
    ([3], encMap [(encString "id", encBytes [user])]),
    ([4], [0x81] ++ encMap [(encString "alg", [0x26]), (encString "type", encString "public-key")]),
    ([7], encMap [(encString "rk", [0xf5])])]

/-- The members of authenticatorGetAssertion without an allow list. -/
def getAssertionMembersOf (rpId : String) (clientDataHash : List UInt8) : List (List UInt8 × List UInt8) :=
  [([1], encString rpId), ([2], encBytes clientDataHash)]

def encCredential (id : CredentialId) : List UInt8 :=
  encMap [(encString "id", encBytes id.raw.toList), (encString "type", encString "public-key")]

/-- A credentialManagement request under the token. -/
def credMgmtRequest (subCommand : UInt8) (params : List (List UInt8 × List UInt8)) : List UInt8 :=
  encMap [([1], [subCommand]), ([2], encMap params), ([3], [1]),
    ([4], simAuth simToken ([subCommand] ++ encMap params))]

/-- A message for which the user touches the device. -/
def touched (cmd : UInt8) (request : List UInt8) : Message := ⟨cmd, request, simInputs fun _ => true⟩

/-- A message for which nobody touches the device. -/
def untouched (cmd : UInt8) (request : List UInt8) : Message := ⟨cmd, request, simInputs fun _ => false⟩

end TkeyFido2
