import Mathlib.Logic.Relation
import TkeyFido2.Ctap.PinCuts
import TkeyFido2.Ctap.RpBinding
import TkeyFido2.Ctap.U2fHandles
import TkeyFido2.Hid.Replies

/-!
# The attestation files

Two vendor commands write the attestation key and its certificate, and no authorisation is asked for.  Both write
only where the file is empty, so that what was written once stays, and the key that is read and decrypted after a
start is the one that was written.
-/

namespace TkeyFido2.Hid

open Cbor Prog

/-! ## Reading -/

/-- `attestation_read_key`: encrypted key and nonce, where size and MAC of the file are right. -/
def attestationReadKey (P : Platform) (file : List UInt8) : Option (Bytes 32 × Bytes 16) :=
  if file.length ≠ 64 then none
  else
    let keyEnc := Bytes.ofList 32 file
    let nonce := Bytes.ofList 16 (file.drop 32)
    if deviceMac P (keyEnc.toList ++ nonce.toList) = file.drop 48 then some (keyEnc, nonce) else none

/-- `attestation_read_cert` into a buffer of `size` bytes. -/
def attestationReadCertInto (cert : Option (List UInt8)) (size : Nat) : Option (List UInt8) :=
  cert.filter (·.length ≤ size)

/-- `crypto_attestation_available`. -/
def cryptoAttestationAvailable (w : World) : Bool := w.attestationKey.isSome

/-- `crypto_ecc256_load_attestation_key`: the signing key.  Without a key that was read, `key_attest` is zero. -/
def cryptoEcc256LoadAttestationKey (P : Platform) (w : World) : Bytes 32 :=
  let (keyEnc, nonce) := w.attestationKey.getD (Bytes.zero 32, Bytes.zero 16)
  P.prims.aesCtr P.keyAttestationEnc nonce keyEnc

/-- The file that `attestation_write_key` writes. -/
def attestationFile (P : Platform) (key : List UInt8) (nonce : Bytes 16) : List UInt8 :=
  let body := (P.prims.aesCtr P.keyAttestationEnc nonce (Bytes.ofList 32 key)).toList ++ nonce.toList
  body ++ deviceMac P body

section Reading

variable {P : Platform} {w w' : World} {keyFile key cert : List UInt8} {nonce : Bytes 16}

/-- Both callers of `attestation_read_cert` have a buffer for the largest certificate. -/
theorem attestationReadCert_eq_into :
    attestationReadCert w = attestationReadCertInto w.attestationCert attestationMaxCertSize := rfl

/-- The attestation statement is signed with the key that is loaded. -/
theorem attestationSignature_eq {authData : List UInt8} {hash : Bytes 32} (h : cryptoAttestationAvailable w = true) :
    attestationSignature P authData hash w =
      ctapSignData P (cryptoEcc256LoadAttestationKey P w) authData hash .es256 w := by
  unfold attestationSignature cryptoEcc256LoadAttestationKey
  rw [get_bind]
  obtain ⟨⟨keyEnc, nonce⟩, hkey⟩ := Option.isSome_iff_exists.mp h
  rw [hkey]
  rfl

/-- What was written is read, size and MAC included. -/
theorem attestationReadKey_attestationFile : attestationReadKey P (attestationFile P key nonce) =
    some (P.prims.aesCtr P.keyAttestationEnc nonce (Bytes.ofList 32 key), nonce) := by
  set keyEnc := P.prims.aesCtr P.keyAttestationEnc nonce (Bytes.ofList 32 key) with hkeyEnc
  have hfile : attestationFile P key nonce =
      keyEnc.toList ++ (nonce.toList ++ deviceMac P (keyEnc.toList ++ nonce.toList)) := List.append_assoc _ _ _
  have henc : Bytes.ofList 32 (attestationFile P key nonce) = keyEnc := by rw [hfile, Bytes.ofList_append]
  have hnonce : Bytes.ofList 16 ((attestationFile P key nonce).drop 32) = nonce := by
    rw [hfile, List.drop_left' (by simp), Bytes.ofList_append]
  have hmac : (attestationFile P key nonce).drop 48 = deviceMac P (keyEnc.toList ++ nonce.toList) := by
    rw [hfile, ← List.append_assoc, List.drop_left' (by simp)]
  unfold attestationReadKey
  rw [if_neg (by rw [hfile]; simp)]
  dsimp only
  rw [henc, hnonce, hmac, if_pos rfl]

theorem attestationFile_ne_nil : attestationFile P key nonce ≠ [] := by
  intro h
  have hlen := congrArg List.length h
  simp [attestationFile] at hlen

/-- Once the file is read, the key in it is loaded. -/
theorem load_of_read (hC : P.prims.CtrUndoes) (hlen : key.length = 32)
    (h : w.attestationKey = attestationReadKey P (attestationFile P key nonce)) :
    cryptoAttestationAvailable w = true ∧ (cryptoEcc256LoadAttestationKey P w).toList = key := by
  rw [attestationReadKey_attestationFile] at h
  unfold cryptoAttestationAvailable cryptoEcc256LoadAttestationKey
  rw [h]
  refine ⟨rfl, ?_⟩
  show (P.prims.aesCtr P.keyAttestationEnc nonce (P.prims.aesCtr P.keyAttestationEnc nonce _)).toList = key
  rw [hC, Bytes.toList_ofList_of_length hlen]

/-! ## Writing -/

/-- `attestation_write_key` succeeds for a key of 32 bytes where the file is empty. -/
theorem attestationWriteKey_cases {file : Option (List UInt8)} (h : attestationWriteKey P keyFile key w = .ok file w') :
    (key.length = 32 ∧ keyFile = [] ∧ file = some (attestationFile P key (streamBytes w.inputs.rng.byte w.rngPos 16)) ∧
      w' = { w with rngPos := w.rngPos + 16 }) ∨
    ((key.length ≠ 32 ∨ keyFile ≠ []) ∧ file = none ∧ w' = w) := by
  unfold attestationWriteKey at h
  by_cases hc : key.length ≠ 32 ∨ keyFile ≠ []
  · rw [if_pos hc] at h
    obtain ⟨rfl, rfl⟩ := pure_eq_ok.mp h
    exact .inr ⟨hc, rfl, rfl⟩
  · rw [if_neg hc] at h
    rw [not_or, not_not, not_not] at hc
    obtain ⟨rfl, rfl⟩ := EStateM.Result.ok.inj h
    exact .inl ⟨hc.1, hc.2, rfl, rfl⟩

theorem attestationWriteKey_ok (hlen : key.length = 32) :
    ∃ file w', attestationWriteKey P [] key w = .ok (some file) w' := by
  unfold attestationWriteKey
  rw [if_neg (by simp [hlen])]
  exact ⟨_, _, rfl⟩

/-- `attestation_write_cert` succeeds for a certificate that is not too long where the file is empty. -/
theorem attestationWriteCert_cases {ok : Bool} (h : attestationWriteCert cert w = .ok ok w') :
    (cert.length ≤ attestationMaxCertSize ∧ w.attestationCert.getD [] = [] ∧ ok = true ∧
      w' = { w with attestationCert := some cert }) ∨
    ((attestationMaxCertSize < cert.length ∨ w.attestationCert.getD [] ≠ []) ∧ ok = false ∧ w' = w) := by
  unfold attestationWriteCert at h
  rw [get_bind] at h
  by_cases hc : attestationMaxCertSize < cert.length ∨ w.attestationCert.getD [] ≠ []
  · rw [if_pos hc] at h
    obtain ⟨rfl, rfl⟩ := pure_eq_ok.mp h
    exact .inr ⟨hc, rfl, rfl⟩
  · rw [if_neg hc] at h
    rw [not_or, not_lt, not_not] at hc
    obtain ⟨rfl, rfl⟩ := EStateM.Result.ok.inj h
    exact .inl ⟨hc.1, hc.2, rfl, rfl⟩

end Reading

/-! ## Packets -/

/-- Key and certificate in memory and storage, as far as a request can see them. -/
def Device.attestation (d : Device) : List UInt8 × Option (List UInt8) × Option (Bytes 32 × Bytes 16) :=
  (d.keyFile, d.world.attestationCert, d.world.attestationKey)

/-- The packet completes a message of a command. -/
def Device.Completes (version : Version) (d : Device) (pkt : Packet) (cmd : UInt8) (data : List UInt8) : Prop :=
  ∃ r l, ctaphidBufferPacket version d.layer pkt = some (r, l) ∧ (r.status = .empty ∨ r.status = .buffered) ∧
    r.cmd = cmd ∧ ({ d with layer := l } : Device).message r.len = data

/-- What a packet does to the attestation files. -/
inductive Device.Attests (P : Platform) (d : Device) (cmd : UInt8) (data : List UInt8) (inputs : Inputs) (d' : Device) :
    Prop
  | kept (h : d'.attestation = d.attestation) (hkey : cmd = ctaphidWriteKey → data ≠ [] →
      attestationWriteKey P d.keyFile data (d.world.withInputs inputs) = .ok none d'.world)
    (hcert : cmd = ctaphidWriteCert → data ≠ [] →
      attestationWriteCert data (d.world.withInputs inputs) = .ok false d'.world)
  | key (file : List UInt8) (hcmd : cmd = ctaphidWriteKey)
    (hw : attestationWriteKey P d.keyFile data (d.world.withInputs inputs) = .ok (some file) d'.world)
    (h : d'.attestation = (file, d.attestation.2))
  | cert (hcmd : cmd = ctaphidWriteCert)
    (hw : attestationWriteCert data (d.world.withInputs inputs) = .ok true d'.world)
    (h : d'.attestation = (d.keyFile, some data, d.world.attestationKey))

section Packets

variable {version : Version} {P : Platform} {env : Env} {d d' : Device} {cid : UInt32} {cmd : UInt8} {len : UInt16}
  {done : Bool}

/-- What no request changes holds the certificate and the key in memory. -/
theorem attestation_of_world {w w' : World} (hfixed : w'.fixed = w.fixed) :
    w'.attestationCert = w.attestationCert ∧ w'.attestationKey = w.attestationKey :=
  ⟨congrArg (fun x => x.2.2.1) hfixed, congrArg (fun x => x.2.1) hfixed⟩

theorem ctapRequest_fixed {w w' : World} {cmd : UInt8} {request : List UInt8} {x : CtapStatus × List UInt8}
    (h : ctapRequest P cmd request w = .ok x w') : w'.fixed = w.fixed := by
  obtain ⟨w₁, rfl, hd⟩ := ctapRequest_cases h
  show w₁.fixed = w.fixed
  rcases hd with ⟨-, hd⟩ | ⟨e, -, -, hd⟩
  · exact keeps_fixed_dispatch.ok hd
  · exact keeps_fixed_dispatch.error hd

theorem handleCbor_attestation (h : handleCbor P env d cid cmd len = .ok (done, d')) :
    d'.attestation = d.attestation := by
  unfold handleCbor at h
  split at h
  · obtain ⟨rfl, rfl⟩ := Prod.mk.inj (Except.ok.inj h)
    rfl
  · obtain ⟨⟨⟨status, data⟩, d₁⟩, hrun, h⟩ := except_bind_eq_ok.mp h
    obtain ⟨w, hw, rfl⟩ := Device.run_eq_ok hrun
    obtain ⟨hcert, hkey⟩ := attestation_of_world (ctapRequest_fixed hw)
    have hsame : (d.keyFile, w.attestationCert, w.attestationKey) = d.attestation := by rw [hcert, hkey]; rfl
    simp only at h
    split_ifs at h
    all_goals
      obtain ⟨rfl, rfl⟩ := Prod.mk.inj (Except.ok.inj h)
      exact hsame

theorem handleMsg_attestation (h : handleMsg P env d cid cmd len = .ok (done, d')) :
    d'.attestation = d.attestation := by
  unfold handleMsg at h
  split at h
  · obtain ⟨rfl, rfl⟩ := Prod.mk.inj (Except.ok.inj h)
    rfl
  · obtain ⟨⟨⟨data, buf⟩, d₁⟩, hrun, h⟩ := except_bind_eq_ok.mp h
    obtain ⟨w, hw, rfl⟩ := Device.run_eq_ok hrun
    obtain ⟨hcert, hkey⟩ := attestation_of_world ((touches_u2fRequest .fixed (by decide)).ok hw)
    have hsame : (d.keyFile, w.attestationCert, w.attestationKey) = d.attestation := by rw [hcert, hkey]; rfl
    simp only at h
    split_ifs at h
    all_goals
      obtain ⟨rfl, rfl⟩ := Prod.mk.inj (Except.ok.inj h)
      exact hsame

theorem message_eq_nil_of_zero (h : len = 0) : d.message len = [] := by
  subst h
  rfl

theorem ctaphidCustomCommand_attests (h : ctaphidCustomCommand version P env d cid cmd len = .ok (done, d')) :
    d.Attests P cmd (d.message len) env.inputs d' := by
  unfold ctaphidCustomCommand at h
  split_ifs at h with hkey hzero hcert hzero hreboot hrng hversion
  · obtain ⟨rfl, rfl⟩ := Prod.mk.inj (Except.ok.inj h)
    exact .kept rfl (fun _ hne => absurd (message_eq_nil_of_zero hzero) hne)
      fun _ hne => absurd (message_eq_nil_of_zero hzero) hne
  · obtain ⟨⟨file, d₁⟩, hrun, h⟩ := except_bind_eq_ok.mp h
    obtain ⟨w, hw, rfl⟩ := Device.run_eq_ok hrun
    obtain ⟨rfl, rfl⟩ := Prod.mk.inj (Except.ok.inj h)
    rcases attestationWriteKey_cases hw with ⟨-, -, rfl, rfl⟩ | ⟨-, rfl, rfl⟩
    · exact .key _ hkey hw rfl
    · exact .kept rfl (fun _ _ => hw) fun hc => absurd (hkey.symm.trans hc) (by decide)
  · obtain ⟨rfl, rfl⟩ := Prod.mk.inj (Except.ok.inj h)
    exact .kept rfl (fun _ hne => absurd (message_eq_nil_of_zero hzero) hne)
      fun _ hne => absurd (message_eq_nil_of_zero hzero) hne
  · obtain ⟨⟨written, d₁⟩, hrun, h⟩ := except_bind_eq_ok.mp h
    obtain ⟨w, hw, rfl⟩ := Device.run_eq_ok hrun
    obtain ⟨rfl, rfl⟩ := Prod.mk.inj (Except.ok.inj h)
    rcases attestationWriteCert_cases hw with ⟨-, -, rfl, rfl⟩ | ⟨-, rfl, rfl⟩
    · exact .cert hcert hw rfl
    · exact .kept rfl (fun hc => absurd hc hkey) fun _ _ => hw
  · obtain ⟨⟨rng, d₁⟩, hrun, h⟩ := except_bind_eq_ok.mp h
    obtain ⟨w, hw, rfl⟩ := Device.run_eq_ok hrun
    obtain ⟨rfl, rfl⟩ := Prod.mk.inj (Except.ok.inj h)
    obtain ⟨hc, hk⟩ := attestation_of_world ((touches_ctapGenerateRng .fixed (by decide)).ok hw)
    refine .kept ?_ (fun hc => absurd hc hkey) fun hc => absurd hc hcert
    show (d.keyFile, w.attestationCert, w.attestationKey) = _
    rw [hc, hk]
    rfl
  · obtain ⟨rfl, rfl⟩ := Prod.mk.inj (Except.ok.inj h)
    exact .kept rfl (fun hc => absurd hc hkey) fun hc => absurd hc hcert
  · obtain ⟨rfl, rfl⟩ := Prod.mk.inj (Except.ok.inj h)
    exact .kept rfl (fun hc => absurd hc hkey) fun hc => absurd hc hcert

/-- Other commands than the two write nothing. -/
theorem attests_of_kept {data : List UInt8} {inputs : Inputs} (hkey : cmd ≠ ctaphidWriteKey)
    (hcert : cmd ≠ ctaphidWriteCert) (h : d'.attestation = d.attestation) : d.Attests P cmd data inputs d' :=
  .kept h (fun hc => absurd hc hkey) fun hc => absurd hc hcert

theorem Device.Attests.congr {data : List UInt8} {inputs : Inputs} {d'' : Device} (h : d.Attests P cmd data inputs d')
    (hfile : d''.keyFile = d'.keyFile) (hworld : d''.world = d'.world) : d.Attests P cmd data inputs d'' := by
  have hsame : d''.attestation = d'.attestation := by
    unfold Device.attestation
    rw [hfile, hworld]
  cases h with
  | kept h hkey hcert =>
    exact .kept (hsame.trans h) (fun hc hne => hworld ▸ hkey hc hne) fun hc hne => hworld ▸ hcert hc hne
  | key file hcmd hw h => exact .key file hcmd (hworld ▸ hw) (hsame.trans h)
  | cert hcmd hw h => exact .cert hcmd (hworld ▸ hw) (hsame.trans h)

theorem handleCommand_attests (h : handleCommand version P env d cid cmd len = .ok (done, d')) :
    d.Attests P cmd (d.message len) env.inputs d' := by
  unfold handleCommand at h
  split_ifs at h with h₁ h₂ h₃ h₄ h₅ h₆
  · obtain ⟨rfl, rfl⟩ := Prod.mk.inj (Except.ok.inj h)
    exact attests_of_kept (by rw [h₂]; decide) (by rw [h₂]; decide) rfl
  · obtain ⟨rfl, rfl⟩ := Prod.mk.inj (Except.ok.inj h)
    exact attests_of_kept (by rw [h₃]; decide) (by rw [h₃]; decide) rfl
  · exact attests_of_kept (by rw [h₄]; decide) (by rw [h₄]; decide) (handleCbor_attestation h)
  · exact attests_of_kept (by rw [h₅]; decide) (by rw [h₅]; decide) (handleMsg_attestation h)
  · obtain ⟨rfl, rfl⟩ := Prod.mk.inj (Except.ok.inj h)
    exact attests_of_kept (by rw [h₆]; decide) (by rw [h₆]; decide) rfl
  · obtain ⟨⟨b, d₁⟩, hc, h⟩ := except_bind_eq_ok.mp h
    have hattests := ctaphidCustomCommand_attests hc
    cases b with
    | true =>
      obtain ⟨rfl, rfl⟩ := Prod.mk.inj (Except.ok.inj h)
      exact hattests.congr rfl rfl
    | false =>
      obtain ⟨rfl, rfl⟩ := Prod.mk.inj (Except.ok.inj h)
      exact hattests.congr rfl rfl

/-- A message that is completed. -/
theorem Device.Completes.attests {pkt : Packet} {data : List UInt8} (hc : d.Completes version pkt cmd data)
    (h : ctaphidHandlePacket version P env d pkt = .ok d') : d.Attests P cmd data env.inputs d' := by
  obtain ⟨r, l, hbuf, hst, rfl, rfl⟩ := hc
  unfold ctaphidHandlePacket at h
  rw [hbuf] at h
  dsimp only at h
  have hrun : ∃ done d₁, handleCommand version P env { d with layer := l } r.cid r.cmd r.len = .ok (done, d₁) ∧
      d' = if done then d₁.release r.cid else d₁ := by
    rcases hst with hst | hst
    all_goals
      rw [hst] at h
      obtain ⟨⟨done, d₁⟩, hcmd, h⟩ := except_bind_eq_ok.mp h
      exact ⟨done, d₁, hcmd, (Except.ok.inj h).symm⟩
  obtain ⟨done, d₁, hcmd, rfl⟩ := hrun
  have hattests : d.Attests P r.cmd (({ d with layer := l } : Device).message r.len) env.inputs d₁ := by
    cases handleCommand_attests hcmd with
    | kept h hkey hcert => exact .kept h hkey hcert
    | key file hcmd hw h => exact .key file hcmd hw h
    | cert hcmd hw h => exact .cert hcmd hw h
  refine hattests.congr ?_ ?_
  · cases done <;> rfl
  · cases done <;> rfl

/-- A packet that completes no message changes no file. -/
theorem handlePacket_attests {pkt : Packet} (h : ctaphidHandlePacket version P env d pkt = .ok d') :
    d'.attestation = d.attestation ∨ ∃ cmd data, d.Attests P cmd data env.inputs d' := by
  have hpacket := h
  unfold ctaphidHandlePacket at h
  cases hbuf : ctaphidBufferPacket version d.layer pkt with
  | none =>
    rw [hbuf] at h
    cases h
  | some x =>
    obtain ⟨r, l⟩ := x
    rw [hbuf] at h
    dsimp only at h
    have hcomplete (hst : r.status = .empty ∨ r.status = .buffered) :
        ∃ cmd data, d.Attests P cmd data env.inputs d' :=
      ⟨r.cmd, _, Device.Completes.attests ⟨r, l, hbuf, hst, rfl, rfl⟩ hpacket⟩
    cases hst : r.status with
    | empty => exact .inr (hcomplete (.inl hst))
    | buffered => exact .inr (hcomplete (.inr hst))
    | buffering =>
      rw [hst] at h
      obtain rfl := Except.ok.inj h
      exact .inl rfl
    | hidError =>
      rw [hst] at h
      obtain rfl := Except.ok.inj h
      exact .inl rfl
    | hidIgnore =>
      rw [hst] at h
      obtain rfl := Except.ok.inj h
      exact .inl rfl

end Packets

/-! ## Life of a device -/

/-- A power cycle.  A message that was cut off may have changed the other files; the attestation files are those of
the last message that was completed, and `crypto_derive_device_keys` reads the key from them. -/
structure Device.Reboots (P : Platform) (d d' : Device) : Prop where
  keyFile : d'.keyFile = d.keyFile
  boots : ∃ w : World, w.attestationCert = d.world.attestationCert ∧
    Boots P { w with attestationKey := attestationReadKey P d.keyFile } d'.world
  cids : d'.layer.cids = List.replicate 9 {}
  lastCid : d'.layer.lastCid = 1
  buffer : d'.layer.buffer = {}
  isBusy : d'.isBusy = false

/-- A packet, a round of `ctaphid_check_timeouts`, or a power cycle. -/
inductive Device.Step (version : Version) (P : Platform) : Device → Device → Prop
  | packet {d d' : Device} (env : Env) (pkt : Packet) (h : ctaphidHandlePacket version P env d pkt = .ok d') :
    Step version P d d'
  | timeouts (d : Device) : Step version P d { d with layer := ctaphidCheckTimeouts d.layer }
  | reboot {d d' : Device} (h : d.Reboots P d') : Step version P d d'

/-- What a device comes to. -/
def Device.Later (version : Version) (P : Platform) : Device → Device → Prop := Relation.ReflTransGen (Step version P)

/-- A message WRITE_KEY is served, and `attestation_write_key` succeeds or not. -/
structure Device.WritesKey (version : Version) (P : Platform) (env : Env) (d : Device) (pkt : Packet) (key : List UInt8)
    (ok : Bool) (d' : Device) : Prop where
  completes : d.Completes version pkt ctaphidWriteKey key
  served : ctaphidHandlePacket version P env d pkt = .ok d'
  result : ∃ file w, attestationWriteKey P d.keyFile key (d.world.withInputs env.inputs) = .ok file w ∧ file.isSome = ok

/-- A message WRITE_CERT is served, and `attestation_write_cert` succeeds or not. -/
structure Device.WritesCert (version : Version) (P : Platform) (env : Env) (d : Device) (pkt : Packet)
    (cert : List UInt8) (ok : Bool) (d' : Device) : Prop where
  completes : d.Completes version pkt ctaphidWriteCert cert
  served : ctaphidHandlePacket version P env d pkt = .ok d'
  result : ∃ w, attestationWriteCert cert (d.world.withInputs env.inputs) = .ok ok w

section Life

variable {version : Version} {P : Platform} {env : Env} {d d' : Device} {pkt : Packet}

theorem Device.Reboots.attestation (h : d.Reboots P d') :
    d'.attestation = (d.keyFile, d.world.attestationCert, attestationReadKey P d.keyFile) := by
  obtain ⟨w, hcert, inputs, version, hinit⟩ := h.boots
  obtain ⟨hc, hk⟩ := attestation_of_world ((touches_ctapInit .fixed (by decide)).ok hinit)
  unfold Device.attestation
  rw [h.keyFile, hc, hk]
  show (d.keyFile, w.attestationCert, attestationReadKey P d.keyFile) = _
  rw [hcert]

/-- A file that is not empty is kept by every step. -/
theorem Device.Step.keyFile_kept (h : Step version P d d') (hne : d.keyFile ≠ []) : d'.keyFile = d.keyFile := by
  cases h with
  | packet env pkt h =>
    rcases handlePacket_attests h with h | ⟨cmd, data, h⟩
    · exact congrArg Prod.fst h
    · cases h with
      | kept h => exact congrArg Prod.fst h
      | key file hcmd hw h =>
        rcases attestationWriteKey_cases hw with ⟨-, hempty, -⟩ | ⟨-, hnone, -⟩
        · exact absurd hempty hne
        · cases hnone
      | cert hcmd hw h => exact congrArg Prod.fst h
  | timeouts => rfl
  | reboot h => exact h.keyFile

theorem Device.Step.cert_kept (h : Step version P d d') {cert : List UInt8} (hcert : d.world.attestationCert = some cert)
    (hne : cert ≠ []) : d'.world.attestationCert = some cert := by
  have hsame {x : List UInt8 × Option (List UInt8) × Option (Bytes 32 × Bytes 16)} (h : d'.attestation = x)
      (hx : x.2.1 = d.world.attestationCert) : d'.world.attestationCert = some cert :=
    ((congrArg (·.2.1) h).trans hx).trans hcert
  cases h with
  | packet env pkt h =>
    rcases handlePacket_attests h with h | ⟨cmd, data, h⟩
    · exact hsame h rfl
    · cases h with
      | kept h => exact hsame h rfl
      | key file hcmd hw h => exact hsame h rfl
      | cert hcmd hw h =>
        rcases attestationWriteCert_cases hw with ⟨-, hempty, -⟩ | ⟨-, hfalse, -⟩
        · have hold : cert = [] := by
            rw [show (d.world.withInputs env.inputs).attestationCert = d.world.attestationCert from rfl, hcert] at hempty
            exact hempty
          exact absurd hold hne
        · cases hfalse
  | timeouts => exact hcert
  | reboot h => exact hsame h.attestation rfl

/-- The key in memory is kept, and after a power cycle it is the one in the file. -/
theorem Device.Step.key_kept (h : Step version P d d')
    (hkey : d.world.attestationKey = attestationReadKey P d.keyFile) :
    d'.world.attestationKey = attestationReadKey P d.keyFile := by
  have hsame {x : List UInt8 × Option (List UInt8) × Option (Bytes 32 × Bytes 16)} (h : d'.attestation = x)
      (hx : x.2.2 = d.world.attestationKey) : d'.world.attestationKey = attestationReadKey P d.keyFile :=
    ((congrArg (·.2.2) h).trans hx).trans hkey
  cases h with
  | packet env pkt h =>
    rcases handlePacket_attests h with h | ⟨cmd, data, h⟩
    · exact hsame h rfl
    · cases h with
      | kept h => exact hsame h rfl
      | key file hcmd hw h => exact hsame h rfl
      | cert hcmd hw h => exact hsame h rfl
  | timeouts => exact hkey
  | reboot h => exact congrArg (·.2.2) h.attestation

theorem Device.Later.keyFile_kept (h : Later version P d d') (hne : d.keyFile ≠ []) : d'.keyFile = d.keyFile := by
  induction h with
  | refl => rfl
  | tail _ step ih => exact (step.keyFile_kept (ih ▸ hne)).trans ih

theorem Device.Later.cert_kept (h : Later version P d d') {cert : List UInt8}
    (hcert : d.world.attestationCert = some cert) (hne : cert ≠ []) : d'.world.attestationCert = some cert := by
  induction h with
  | refl => exact hcert
  | tail _ step ih => exact step.cert_kept ih hne

theorem Device.Later.key_kept (h : Later version P d d') (hne : d.keyFile ≠ [])
    (hkey : d.world.attestationKey = attestationReadKey P d.keyFile) :
    d'.world.attestationKey = attestationReadKey P d.keyFile := by
  induction h with
  | refl => exact hkey
  | @tail d₁ d₂ hrun step ih =>
    have hfile : d₁.keyFile = d.keyFile := Device.Later.keyFile_kept hrun hne
    rw [← hfile] at ih ⊢
    exact step.key_kept ih

/-- A key that was written is in the file. -/
theorem Device.WritesKey.written {key : List UInt8} (h : d.WritesKey version P env pkt key true d') :
    key.length = 32 ∧ ∃ nonce, d'.keyFile = attestationFile P key nonce := by
  obtain ⟨file, w, hw, hsome⟩ := h.result
  obtain ⟨hlen, hempty⟩ : key.length = 32 ∧ d.keyFile = [] := by
    rcases attestationWriteKey_cases hw with ⟨hlen, hempty, -⟩ | ⟨-, rfl, -⟩
    · exact ⟨hlen, hempty⟩
    · cases hsome
  have hne : key ≠ [] := by
    rintro rfl
    cases hlen
  refine ⟨hlen, ?_⟩
  cases h.completes.attests h.served with
  | kept hsame hkey =>
    rcases attestationWriteKey_cases (hkey rfl hne) with ⟨-, -, hnone, -⟩ | ⟨hc, -⟩
    · cases hnone
    · exact absurd hc (by rw [not_or, not_not, not_not]; exact ⟨hlen, hempty⟩)
  | key file' hcmd hw' hsame =>
    rcases attestationWriteKey_cases hw' with ⟨-, -, hfile, -⟩ | ⟨-, hnone, -⟩
    · exact ⟨_, (congrArg Prod.fst hsame).trans (Option.some.inj hfile)⟩
    · cases hnone
  | cert hcmd => exact absurd hcmd (by decide)

theorem Device.WritesCert.written {cert : List UInt8} (hne : cert ≠ []) (h : d.WritesCert version P env pkt cert true d') :
    d'.world.attestationCert = some cert := by
  obtain ⟨w, hw⟩ := h.result
  cases h.completes.attests h.served with
  | kept hsame hkey hcert =>
    have hfalse := hw.symm.trans (hcert rfl hne)
    cases (EStateM.Result.ok.inj hfalse).1
  | key file' hcmd => exact absurd hcmd (by decide)
  | cert hcmd hw' hsame => exact congrArg (·.2.1) hsame

/-- Where the file is not empty, a key is not written. -/
theorem Device.WritesKey.fails {key : List UInt8} {ok : Bool} (hne : d.keyFile ≠ [])
    (h : d.WritesKey version P env pkt key ok d') : ok = false ∧ d'.attestation = d.attestation := by
  obtain ⟨file, w, hw, rfl⟩ := h.result
  rcases attestationWriteKey_cases hw with ⟨-, hempty, -⟩ | ⟨-, rfl, -⟩
  · exact absurd hempty hne
  · refine ⟨rfl, ?_⟩
    cases h.completes.attests h.served with
    | kept hsame => exact hsame
    | key file' hcmd hw' =>
      rcases attestationWriteKey_cases hw' with ⟨-, hempty, -⟩ | ⟨-, hnone, -⟩
      · exact absurd hempty hne
      · cases hnone
    | cert hcmd => exact absurd hcmd (by decide)

theorem Device.WritesCert.fails {cert data : List UInt8} {ok : Bool} (hcert : d.world.attestationCert = some cert)
    (hne : cert ≠ []) (h : d.WritesCert version P env pkt data ok d') : ok = false ∧ d'.attestation = d.attestation := by
  have hfull : ¬ (d.world.withInputs env.inputs).attestationCert.getD [] = [] := by
    rw [show (d.world.withInputs env.inputs).attestationCert = d.world.attestationCert from rfl, hcert]
    exact hne
  obtain ⟨w, hw⟩ := h.result
  rcases attestationWriteCert_cases hw with ⟨-, hempty, -⟩ | ⟨-, rfl, -⟩
  · exact absurd hempty hfull
  · refine ⟨rfl, ?_⟩
    cases h.completes.attests h.served with
    | kept hsame => exact hsame
    | key file' hcmd => exact absurd hcmd (by decide)
    | cert hcmd hw' =>
      rcases attestationWriteCert_cases hw' with ⟨-, hempty, -⟩ | ⟨-, hfalse, -⟩
      · exact absurd hempty hfull
      · cases hfalse

end Life

/-- Attestation key and certificate are written once.  After the first key that is written every later one is refused
and the file stays, and from the next start on that key is available and loaded.  After the first certificate that is
written and not empty every later one is refused, and it is what is read into a buffer that it fits. -/
theorem attestation_written_once {version : Version} {P : Platform} (hC : P.prims.CtrUndoes) :
    (∀ (d d₁ : Device) env pkt key, d.WritesKey version P env pkt key true d₁ → ∀ d₂, d₁.Later version P d₂ →
      d₂.keyFile = d₁.keyFile ∧
      (∀ env pkt key' ok d₃, d₂.WritesKey version P env pkt key' ok d₃ → ok = false ∧ d₃.attestation = d₂.attestation) ∧
      ∀ d₃, d₂.Reboots P d₃ → ∀ d₄, d₃.Later version P d₄ → cryptoAttestationAvailable d₄.world = true ∧
        (cryptoEcc256LoadAttestationKey P d₄.world).toList = key) ∧
    ∀ (d d₁ : Device) env pkt cert, d.WritesCert version P env pkt cert true d₁ → cert ≠ [] →
      ∀ d₂, d₁.Later version P d₂ →
      (∀ env pkt cert' ok d₃, d₂.WritesCert version P env pkt cert' ok d₃ →
        ok = false ∧ d₃.attestation = d₂.attestation) ∧
      ∀ size, cert.length ≤ size → attestationReadCertInto d₂.world.attestationCert size = some cert := by
  refine ⟨fun d d₁ env pkt key hwrite d₂ hlater => ?_, fun d d₁ env pkt cert hwrite hne d₂ hlater => ?_⟩
  · obtain ⟨hlen, nonce, hfile⟩ := hwrite.written
    have hne₁ : d₁.keyFile ≠ [] := hfile ▸ attestationFile_ne_nil
    have hsame₂ : d₂.keyFile = d₁.keyFile := hlater.keyFile_kept hne₁
    have hne₂ : d₂.keyFile ≠ [] := hsame₂ ▸ hne₁
    refine ⟨hsame₂, fun env pkt key' ok d₃ h => h.fails hne₂, fun d₃ hboot d₄ hlater' => ?_⟩
    have hfile₃ : d₃.keyFile = attestationFile P key nonce := by rw [hboot.keyFile, hsame₂, hfile]
    have hkey₃ : d₃.world.attestationKey = attestationReadKey P d₃.keyFile := by
      rw [hboot.keyFile]
      exact congrArg (·.2.2) hboot.attestation
    have hkey₄ : d₄.world.attestationKey = attestationReadKey P (attestationFile P key nonce) := by
      rw [hlater'.key_kept (hfile₃ ▸ attestationFile_ne_nil) hkey₃, hfile₃]
    exact load_of_read hC hlen hkey₄
  · have hcert₂ := hlater.cert_kept (hwrite.written hne) hne
    refine ⟨fun env pkt cert' ok d₃ h => h.fails hcert₂ hne, fun size hsize => ?_⟩
    unfold attestationReadCertInto
    rw [hcert₂, Option.filter_some, if_pos (decide_eq_true hsize)]

/-- A power cycle is possible at any time, also where the other files are lost. -/
theorem Device.exists_reboots (P : Platform) (d : Device) : ∃ d', d.Reboots P d' := by
  let w : World := { d.world with
    stateFile := []
    rkFiles := fun _ => [] }
  have hnew : World.IsNew { w with attestationKey := attestationReadKey P d.keyFile } := ⟨rfl, fun _ => rfl⟩
  obtain ⟨w', hinit⟩ := hnew.boots (P := P) d.world.inputs d.world.appVersion
  exact ⟨{ layer := {}, world := w', keyFile := d.keyFile }, rfl, ⟨w, rfl, _, _, hinit⟩, rfl, rfl, rfl, rfl⟩

/-- A key that is written in one packet, and a power cycle. -/
theorem attestation_written_once_one_key :
    ∃ d₁ d₂ : Device, simDevice.WritesKey simVersion simPlatform simEnv
        (initReport 2 ctaphidWriteKey 32 (List.replicate 32 7)) (List.replicate 32 7) true d₁ ∧
      d₁.Reboots simPlatform d₂ ∧ cryptoAttestationAvailable d₂.world = true ∧
      (cryptoEcc256LoadAttestationKey simPlatform d₂.world).toList = List.replicate 32 7 := by
  set key : List UInt8 := List.replicate 32 7 with hkey
  set pkt := initReport 2 ctaphidWriteKey 32 key with hpkt
  obtain ⟨d₁, hd₁⟩ : ∃ d₁, d₁ ∈ simHandle [pkt] :=
    Option.isSome_iff_exists.mp (by rw [hpkt, hkey]; decide +kernel)
  have hserved := handlePacket_of_simHandle hd₁
  have hcompletes : simDevice.Completes simVersion pkt ctaphidWriteKey key := by
    cases hx : ctaphidBufferPacket simVersion simDevice.layer pkt with
    | none => exact absurd hx (ctaphidBufferPacket_ne_none _ _ _)
    | some x =>
      have hok : ∀ y ∈ ctaphidBufferPacket simVersion simDevice.layer (initReport 2 ctaphidWriteKey 32 (List.replicate 32 7)),
          (y.1.status = .empty ∨ y.1.status = .buffered) ∧ y.1.cmd = ctaphidWriteKey ∧
            y.2.buffer.data.toList.take y.1.len.toNat = List.replicate 32 7 := by
        decide +kernel
      obtain ⟨hst, hcmd, hdata⟩ := hok x hx
      exact ⟨x.1, x.2, hx, hst, hcmd, hdata⟩
  have hfile : simDevice.keyFile = [] := by simp only [simDevice]
  have hwrite : simDevice.WritesKey simVersion simPlatform simEnv pkt key true d₁ := by
    refine ⟨hcompletes, hserved, ?_⟩
    rw [hfile]
    obtain ⟨file, w, hw⟩ := @attestationWriteKey_ok simPlatform (simDevice.world.withInputs simEnv.inputs) key
      List.length_replicate
    exact ⟨some file, w, hw, rfl⟩
  obtain ⟨d₂, hboot⟩ := d₁.exists_reboots simPlatform
  obtain ⟨-, -, hload⟩ := (attestation_written_once simCipher_undoes).1 _ _ _ _ _ hwrite d₁ .refl
  exact ⟨d₁, d₂, hwrite, hboot, hload d₂ hboot d₂ .refl⟩

end TkeyFido2.Hid
