import TkeyFido2.Ctap.CredentialKeys
import TkeyFido2.Ctap.Enumeration
import TkeyFido2.Ctap.AssertionMap
import TkeyFido2.Ctap.RpIdNames
import TkeyFido2.Ctap.StoreHistory
import TkeyFido2.Ctap.Unread

/-!
# From a registration to assertions and enumerations

The ID of a credential is all that later commands have.  An assertion and an enumeration derive the key
again from its bytes, and decrypt algorithm and credProtect level with its nonce; so they come to what the
registration came to, as long as the device is not reset.
-/

namespace TkeyFido2

open Cbor Encoder Prog Ledger

variable {P : Platform} {w w' : World}

/-! ## Public keys -/

/-- The public key of a credential. -/
inductive CredentialKey
  | es256 (pub : Bytes 64)
  | eddsa (pub : Bytes 32)
  deriving DecidableEq

namespace CredentialKey

def alg : CredentialKey → CoseAlg
  | es256 _ => .es256
  | eddsa _ => .eddsa

/-- The key as COSE has it. -/
def cose : CredentialKey → List UInt8
  | es256 pub => coseKeyEs256 pub
  | eddsa pub => [0xa4, 0x01, 0x01, 0x03, 0x27, 0x20, 0x06, 0x21, 0x58, 0x20] ++ pub.toList

/-- The public key that the device computes for a private key. -/
def ComputedFrom (P : Platform) (priv : Bytes 32) : CredentialKey → Prop
  | es256 pub => PublicKeyFrom P priv pub
  | eddsa pub => pub = P.prims.ed25519PublicKey priv

/-- The public key of a private key: there is one, and every computation comes to it. -/
def IsPublicOf (P : Platform) (priv : Bytes 32) : CredentialKey → Prop
  | es256 pub => ∀ random, (P.prims.eccPublicKey priv random).1 = some pub
  | eddsa pub => P.prims.ed25519PublicKey priv = pub

end CredentialKey

/-- `uECC_compute_public_key` uses its random numbers for nothing that shows. -/
def Primitives.PublicKeyFixed (C : Primitives) : Prop :=
  ∀ key random random', (C.eccPublicKey key random).1 = (C.eccPublicKey key random').1

section Keys

variable {priv : Bytes 32} {key key' : CredentialKey}

/-- Two computations come to one key. -/
theorem CredentialKey.ComputedFrom.unique (hfix : P.prims.PublicKeyFixed) (h : key.ComputedFrom P priv)
    (h' : key'.ComputedFrom P priv) (halg : key.alg = key'.alg) : key = key' := by
  cases key with
  | es256 pub =>
    cases key' with
    | es256 pub' =>
      obtain ⟨random, rfl⟩ := h
      obtain ⟨random', rfl⟩ := h'
      rw [hfix priv random random']
    | eddsa pub' => cases halg
  | eddsa pub =>
    cases key' with
    | es256 pub' => cases halg
    | eddsa pub' => exact congrArg CredentialKey.eddsa (Eq.trans h (Eq.symm h'))

theorem CredentialKey.ComputedFrom.isPublicOf (hfix : P.prims.PublicKeyFixed) (h : key.ComputedFrom P priv)
    (hsome : key.alg = .es256 → HasPublicKey P priv) : key.IsPublicOf P priv := by
  cases key with
  | es256 pub =>
    intro random
    obtain ⟨random', rfl⟩ := h
    obtain ⟨pub, hpub⟩ := Option.ne_none_iff_exists'.mp (hsome rfl random)
    rw [hfix priv random' random, hpub, Option.getD_some]
  | eddsa pub => exact Eq.symm h

theorem appends_coseKeyEddsa (pub y : Bytes 32) :
    Appends 1 (CredentialKey.eddsa pub).cose (coseKeyAdd · pub y .eddsa) := by
  have hstring : Appends 1 ([0x58, 0x20] ++ pub.toList) (·.byteString pub.toList) := by
    have hs := appends_byteString (s := pub.toList)
    rwa [List.Vector.toList_length] at hs
  have hmap := Appends.map (k := 4) (appends_int (v := 1) |>.andThen <| appends_int (v := 1) |>.andThen <|
    appends_int (v := 3) |>.andThen <| appends_int (v := -8) |>.andThen <| appends_int (v := -1) |>.andThen <|
    appends_int (v := 6) |>.andThen <| appends_int (v := -2) |>.andThen hstring)
  refine hmap.congr fun e => ?_
  simp only [bind_assoc]
  rfl

theorem CredentialKey.length_cose (key : CredentialKey) : key.cose.length ≤ 77 := by
  cases key with
  | es256 pub => exact (length_coseKeyEs256 pub).le
  | eddsa pub => simp [cose]

/-- `cose_key_generate` appends the key of the credential. -/
theorem coseKeyGenerate_ok {data : List UInt8} {alg : CoseAlg} {e e' : Encoder}
    (halg : alg = .es256 ∨ alg = .eddsa) (hroom : 77 ≤ e.room)
    (h : coseKeyGenerate P e data .pubKey (some alg) w = .ok e' w') :
    ∃ key : CredentialKey, key.alg = alg ∧
      key.ComputedFrom P (cryptoDeriveCredentialKey P.prims w.keys data) ∧
      e' = e.put 1 key.cose ∧ w'.keys = w.keys := by
  have hkeys : w'.keys = w.keys := (touches_coseKeyGenerate .keys (by decide)).ok h
  unfold coseKeyGenerate at h
  rw [if_neg (by simp)] at h
  rcases halg with rfl | rfl
  · obtain ⟨pub, w₁, hpub, h⟩ := bind_eq_ok.mp h
    obtain ⟨rfl, -⟩ := pure_eq_ok.mp h
    refine ⟨.es256 pub, rfl, cryptoEcc256DerivePublicKey_ok hpub, ?_, hkeys⟩
    rw [(appends_coseKeyEs256 pub).eq_ok ((length_coseKeyEs256 pub).le.trans hroom)]
    rfl
  · obtain ⟨_, w₁, hget, h⟩ := bind_eq_ok.mp h
    obtain ⟨rfl, -⟩ := pure_eq_ok.mp h
    obtain ⟨rfl, -⟩ := EStateM.Result.ok.inj hget
    refine ⟨.eddsa _, rfl, rfl, ?_, hkeys⟩
    rw [(appends_coseKeyEddsa _ _).eq_ok ((CredentialKey.length_cose _).trans hroom)]
    rfl

end Keys

/-! ## What the metadata keeps -/

section Metadata

variable {k : SessionKeys} {l nonce : Bytes 16} {n : UInt32} {c : CredInfo} {e : Extensions}

theorem credentialMetadata_new (hC : P.prims.CtrUndoes) :
    credentialMetadata P.prims k (newCredentialId P k l nonce n c e) = newMetadata c e := by
  unfold credentialMetadata newCredentialId
  rw [CredentialId.make_nonce, CredentialId.make_protectedMetadata]
  exact hC _ _ _ _

theorem restoredAlg_new (hC : P.prims.CtrUndoes) {alg : CoseAlg} (hc : c.coseAlgorithmIdentifier = some alg)
    (halg : alg = .es256 ∨ alg = .eddsa) :
    ctapRestoreMetadataCoseAlg P.prims k (newCredentialId P k l nonce n c e) = alg := by
  unfold ctapRestoreMetadataCoseAlg
  rw [credentialMetadata_new hC]
  unfold newMetadata
  rw [hc]
  rcases halg with rfl | rfl
  · rfl
  · rfl

theorem credProtectOf_new (hC : P.prims.CtrUndoes) :
    credProtectOf P.prims k (newCredentialId P k l nonce n c e) = e.credProtect := by
  unfold credProtectOf
  rw [credentialMetadata_new hC]
  rfl

end Metadata

/-! ## Registrations -/

/-- The response of a registration with this credential ID and this public key in its authenticator data. -/
def RegistersCredential (out : List UInt8) (id : CredentialId) (key : CredentialKey) : Prop :=
  ∃ packed authData ext rest, out = (formatEncoder packed).out ++ (authDataBytes authData ++ rest) ∧
    authData.drop 55 = id.raw.toList ++ key.cose ++ ext

theorem ctapOverwriteRk_stored {rk : ResidentKey} {u : Unit} (h : ctapOverwriteRk P rk w = .ok u w') :
    w'.rkChanges = w.rkChanges ++ [.stored rk] := by
  unfold ctapOverwriteRk at h
  rw [get_bind] at h
  cases hfile : overwriteFirst rk (w.rkFiles (rkFile rk.id.rpIdLookup)) with
  | some l =>
    simp only [hfile, writeRkFile_eq] at h
    obtain ⟨-, rfl⟩ := EStateM.Result.ok.inj h
    exact rkChanges_putRkFile ..
  | none =>
    simp only [hfile] at h
    rw [bind_of_ok (writeRkFile_eq ..)] at h
    obtain ⟨-, rfl⟩ := EStateM.Result.ok.inj ((authenticatorWriteState_eq _).symm.trans h)
    exact (rkChanges_flushed _).trans (rkChanges_putRkFile ..)

theorem storeResidentKey_stored {rp : RpId} {hash : Bytes 32} {id : CredentialId} {user : UserEntity}
    {u : Unit} (h : storeResidentKey P rp hash id user w = .ok u w') :
    ∃ rk, rk.id = id ∧ w'.rkChanges = w.rkChanges ++ [.stored rk] := by
  unfold storeResidentKey at h
  rw [get_bind, failIf_bind_eq_ok] at h
  obtain ⟨-, h⟩ := h
  obtain ⟨nonce, w₁, hrng, h⟩ := bind_eq_ok.mp h
  rw [get_bind] at h
  have hchanges : w₁.rkChanges = w.rkChanges := (touches_ctapGenerateRng .rkChanges (by decide)).ok hrng
  refine ⟨_, ?_, (ctapOverwriteRk_stored h).trans (by rw [hchanges])⟩
  rfl

/-- A registration returns the ID and the key of the new credential, and stores a discoverable one. -/
theorem ctapMakeCredential_registersCredential {MC : MakeCredential} {request out : List UInt8}
    (hparse : parseMakeCredential request = .ok MC) (hok : ctapMakeCredential P request w = .ok out w') :
    (∃ key : CredentialKey, MC.credInfo.coseAlgorithmIdentifier = some key.alg ∧
      key.ComputedFrom P (cryptoDeriveCredentialKey P.prims w.keys (w.nextCredentialId P MC).raw.toList) ∧
      RegistersCredential out (w.nextCredentialId P MC) key) ∧
    (MC.credInfo.rk = true → ∃ rk, rk.id = w.nextCredentialId P MC ∧
      w'.rkChanges = w.rkChanges ++ [.stored rk]) := by
  obtain ⟨hparams, packed, authData, rest, cose, w₁, w₂, hkeys, hbefore, hafter, hnew, hout⟩ :=
    ctapMakeCredential_new hparse hok
  obtain ⟨htype, halg⟩ := (parseMakeCredential_ok hparse).algorithm hparams
  constructor
  · obtain ⟨w₃, w₄, e, hkeys₃, rfl, hcose⟩ := hnew.generated
    obtain ⟨ext, hdata⟩ := hnew.bytes
    obtain ⟨alg, hsome, halg⟩ : ∃ alg, MC.credInfo.coseAlgorithmIdentifier = some alg ∧
        (alg = .es256 ∨ alg = .eddsa) := by
      rcases halg with halg | halg
      · exact ⟨_, halg, .inl rfl⟩
      · exact ⟨_, halg, .inr rfl⟩
    rw [htype, hsome] at hcose
    obtain ⟨key, rfl, hfrom, rfl, -⟩ := coseKeyGenerate_ok halg (by decide) hcose
    rw [hkeys₃, hkeys] at hfrom
    exact ⟨key, hsome, hfrom, packed, authData, ext, rest, hout, hdata⟩
  · intro hrk
    obtain ⟨w₃, w₄, hbefore₃, -, hafter₄, hstore⟩ := hnew.stored
    rw [onlyIf, if_pos hrk] at hstore
    obtain ⟨rk, hid, hstored⟩ := storeResidentKey_stored hstore
    exact ⟨rk, hid, by rw [hafter, hafter₄, hstored, hbefore₃, hbefore]⟩

/-! ## Enumerations -/

/-- The pairs of the response for a credential, with the total in the first response. -/
def credentialPairs (user : UserEntity) (id : CredentialId) (key : CredentialKey) (total : Nat)
    (level : UInt8) : List (Int × List UInt8) :=
  [(6, userEntityBytes user true), (7, descriptorBytes { type := .pubKey, id := id }), (8, key.cose)]
    ++ (if 0 < total then [(9, intBytes total)] else []) ++ [(10, intBytes level.toNat)]

/-- The response for a credential in an enumeration. -/
def credentialResponse (user : UserEntity) (id : CredentialId) (key : CredentialKey) (total : Nat)
    (level : UInt8) : List UInt8 :=
  numberBytes (credentialPairs user id key total level).length 5
    ++ pairsBytes (credentialPairs user id key total level)

/-- The level that an enumeration reports: 1 stands for none. -/
def reportedLevel (level : UInt8) : UInt8 := if level = 0 ∨ 3 < level then 1 else level

theorem out_of_close {e inner e' : Encoder} (h : e.close inner = .ok e') : e'.out = inner.out := by
  unfold close at h
  split at h
  · cases h
  · rw [← Except.ok.inj h]

theorem put_pair (e : Encoder) (key : Int) (value : List UInt8) :
    (e.put 1 (intBytes key)).put 1 value = e.putPairs [(key, value)] := by
  rw [put_put]
  simp [putPairs, pairsBytes]

theorem encodeTotal_pairs {e e' : Encoder} {total : Nat}
    (h : encode (encodeTotal e 9 total) w = .ok e' w') :
    e' = e.putPairs (if 0 < total then [(9, intBytes total)] else []) ∧ w' = w := by
  by_cases htotal : 0 < total
  · rw [if_pos htotal]
    obtain ⟨-, rfl⟩ := (appends_encodeTotal htotal).of_ok (encCheck_eq_ok.mp (ctapCheck_eq_ok.mp h).1)
    refine ⟨?_, encode_ok h⟩
    unfold putPairs pairsBytes
    simp
  · rw [if_neg htotal]
    obtain rfl : total = 0 := by omega
    obtain ⟨-, rfl⟩ := appends_encodeTotal_zero.of_ok (encCheck_eq_ok.mp (ctapCheck_eq_ok.mp h).1)
    exact ⟨rfl, encode_ok h⟩

theorem length_userEntityBytes_le (user : UserEntity) (isVerified : Bool) :
    (userEntityBytes user isVerified).length ≤ 300 := by
  obtain ⟨m, hm, -⟩ := writes_userEntity user isVerified (Encoder.init 300) (by decide)
  exact (appends_userEntity.of_ok hm).1

theorem length_descriptorBytes_le (cred : CredentialDescriptor) : (descriptorBytes cred).length ≤ 200 := by
  obtain ⟨m, hm, -⟩ := writes_credentialDescriptor cred (Encoder.init 200) (by decide)
  exact (appends_descriptor.of_ok hm).1

/-- What `cbor_encode_enumerate_credential` writes. -/
theorem cborEncodeEnumerateCredential_bytes {rk : ResidentKey} {total : Nat} {out : List UInt8}
    (h : cborEncodeEnumerateCredential P rk total w = .ok out w') :
    ∃ key : CredentialKey, key.alg = ctapRestoreMetadataCoseAlg P.prims w.keys rk.id ∧
      key.ComputedFrom P (cryptoDeriveCredentialKey P.prims w.keys rk.id.raw.toList) ∧
      out = credentialResponse rk.user rk.id key total
        (reportedLevel (credProtectOf P.prims w.keys rk.id)) := by
  have halg : ctapRestoreMetadataCoseAlg P.prims w.keys rk.id = .es256 ∨
      ctapRestoreMetadataCoseAlg P.prims w.keys rk.id = .eddsa := by
    unfold ctapRestoreMetadataCoseAlg
    split_ifs <;> simp
  unfold cborEncodeEnumerateCredential at h
  rw [get_bind] at h
  obtain ⟨map, w₁, hmap, h⟩ := bind_eq_ok.mp h
  obtain rfl := encode_ok hmap
  obtain ⟨-, rfl⟩ := (appends_bytes (d := _)).of_ok (encCheck_eq_ok.mp (ctapCheck_eq_ok.mp hmap).1)
  rw [← bind_assoc] at h
  obtain ⟨map₁, w₁, h₁, h⟩ := bind_eq_ok.mp h
  obtain ⟨rfl, rfl⟩ := encode_pair_ok 6 appends_userEntity h₁
  rw [← bind_assoc] at h
  obtain ⟨map₂, w₂, h₂, h⟩ := bind_eq_ok.mp h
  obtain ⟨rfl, rfl⟩ := encode_pair_ok 7 appends_descriptor h₂
  obtain ⟨map₃, w₃, h₃, h⟩ := bind_eq_ok.mp h
  obtain rfl := encode_ok h₃
  obtain ⟨-, rfl⟩ := (appends_int (v := 8)).of_ok (encCheck_eq_ok.mp (ctapCheck_eq_ok.mp h₃).1)
  obtain ⟨map₄, w₄, h₄, h⟩ := bind_eq_ok.mp h
  have huser := length_userEntityBytes_le rk.user true
  have hdesc := length_descriptorBytes_le { type := .pubKey, id := rk.id }
  -- the user and the ID leave room for the key
  have hroom : ∀ e : Encoder, e.room = 1200 →
      77 ≤ ((((e.put 0 (numberBytes (if 0 < total then 5 else 4) 5)).putPairs
        [(6, userEntityBytes rk.user true)]).putPairs
        [(7, descriptorBytes { type := .pubKey, id := rk.id })]).put 1 (intBytes 8)).room := by
    intro e he
    have hhead : (numberBytes (if 0 < total then 5 else 4) 5).length = 1 := by split_ifs <;> rfl
    have hkeys : (intBytes 6).length = 1 ∧ (intBytes 7).length = 1 ∧ (intBytes 8).length = 1 := by decide
    simp only [put, putPairs, pairsBytes, he, hhead, List.map_cons, List.map_nil, List.flatten_cons,
      List.flatten_nil, List.append_nil, List.length_append]
    omega
  obtain ⟨key, hkey, hfrom, rfl, -⟩ := coseKeyGenerate_ok halg (hroom _ rfl) h₄
  rw [put_pair, putPairs_cons, putPairs_cons] at h
  obtain ⟨map₅, w₅, h₅, hlevel⟩ := bind_eq_ok.mp h
  obtain ⟨rfl, rfl⟩ := encodeTotal_pairs h₅
  rw [← bind_assoc] at hlevel
  obtain ⟨map₆, w₆, h₆, hclose⟩ := bind_eq_ok.mp hlevel
  obtain ⟨rfl, rfl⟩ := encode_pair_ok 10 appends_int h₆
  obtain ⟨e, w₇, hclosed, hout⟩ := bind_eq_ok.mp hclose
  obtain ⟨rfl, -⟩ := pure_eq_ok.mp hout
  refine ⟨key, hkey, hfrom, ?_⟩
  have hclosed := encCheck_eq_ok.mp (ctapCheck_eq_ok.mp hclosed).1
  have hn : (credentialPairs rk.user rk.id key total
      (reportedLevel (credProtectOf P.prims w₃.keys rk.id))).length
      = if 0 < total then 5 else 4 := by
    unfold credentialPairs
    split_ifs <;> rfl
  unfold credentialResponse
  rw [hn]
  rw [putPairs_putPairs, putPairs_putPairs] at hclosed
  rw [out_of_close hclosed]
  rfl

/-! ## Runs -/

section Runs

variable {later earlier : List Entry} {g : Served}

/-- The keys stay as long as the device is not reset. -/
theorem Run.keys_since (hr : Run P (later ++ .request g :: earlier) w) (hg : g.resets = false)
    (hno : ∀ r, Entry.request r ∈ later → r.resets = false) :
    w.keys = g.before.keys ∧ ∀ r, Entry.request r ∈ later → r.before.keys = g.before.keys := by
  induction later generalizing w with
  | nil =>
    obtain ⟨-, hv, rfl⟩ := hr.of_request
    exact ⟨hv.keys_kept hg, fun r hr => absurd hr List.not_mem_nil⟩
  | cons e later ih =>
    have hno' : ∀ r, Entry.request r ∈ later → r.resets = false :=
      fun r hr => hno r (List.mem_cons_of_mem _ hr)
    cases e with
    | request r =>
      obtain ⟨hbefore, hv, rfl⟩ := Run.of_request hr
      obtain ⟨hkeys, hall⟩ := ih hbefore hno'
      refine ⟨(hv.keys_kept (hno r List.mem_cons_self)).trans hkeys, fun r' hr' => ?_⟩
      rcases List.mem_cons.mp hr' with heq | hr'
      · cases heq
        exact hkeys
      · exact hall r' hr'
    | boot w' =>
      obtain ⟨w₀, hbefore, hb, rfl⟩ := Run.of_boot hr (by simp)
      obtain ⟨hkeys, hall⟩ := ih hbefore hno'
      refine ⟨(hb.keys_kept hbefore.synced hbefore.storeOk.keys).trans hkeys, fun r' hr' => ?_⟩
      exact hall r' (by simpa using hr')

/-- A change that neither deletes nor replaces a record. -/
def RkChange.Spares (rk : ResidentKey) : RkChange → Prop
  | .stored r => r.key = rk.key → r.id = rk.id
  | .deleted r => r.key ≠ rk.key
  | .reset => False

theorem rkLog_append (l l' : List Entry) : rkLog (l ++ l') = rkLog l ++ rkLog l' := by
  induction l with
  | nil => rfl
  | cons e l ih =>
    show e.world.rkChanges.reverse ++ rkLog (l ++ l') = e.world.rkChanges.reverse ++ rkLog l ++ rkLog l'
    rw [ih, List.append_assoc]

/-- A credential that was stored is held until it is deleted or replaced. -/
theorem Run.holds_stored {rk : ResidentKey} (hr : Run P (later ++ .request g :: earlier) w)
    (hg : g.after.rkChanges = [.stored rk]) (hspare : ∀ c ∈ rkLog later, c.Spares rk) :
    w.HoldsId rk.key rk.id ∧ rk.id.count ≠ 0 := by
  obtain ⟨hfollows, hcounts⟩ := hr.tracked
  have hlog : rkLog (later ++ .request g :: earlier) = rkLog later ++ (.stored rk :: rkLog earlier) := by
    rw [rkLog_append]
    show rkLog later ++ (g.after.rkChanges.reverse ++ rkLog earlier) = _
    rw [hg]
    rfl
  rw [hlog] at hfollows hcounts
  refine ⟨(hfollows rk.key rk.id).mpr ?_, hcounts rk (by simp)⟩
  rw [List.map_append]
  refine latest_append_of_spares (by simp [latest, RkChange.change]) fun change hchange => ?_
  obtain ⟨c, hc, rfl⟩ := List.mem_map.mp hchange
  have hspared := hspare c hc
  cases c with
  | stored r => exact hspared
  | deleted r => exact hspared
  | reset => exact hspared

/-- What a successful registration of a history made. -/
theorem Served.Valid.registersCredential (hv : g.Valid P) (hc : commandOf g.cmd = .makeCredential)
    (hok : g.status = .ok) : ∃ (MC : MakeCredential) (id : CredentialId) (key : CredentialKey),
      parseMakeCredential g.request = .ok MC ∧ RegistersCredential g.response id key ∧
      MC.credInfo.coseAlgorithmIdentifier = some key.alg ∧
      key.ComputedFrom P (cryptoDeriveCredentialKey P.prims g.before.keys id.raw.toList) ∧
      (∃ nonce n, id = newCredentialId P g.before.keys
        (rpIdLookupOf P.prims g.before.keys (P.prims.sha256 MC.rp.bytes)) nonce n MC.credInfo MC.extensions) ∧
      (MC.credInfo.rk = true → ∃ rk, g.after.rkChanges = [.stored rk] ∧ rk.id = id) := by
  obtain ⟨w₁, hafter, ⟨-, hd⟩ | ⟨e, herr, -⟩⟩ := hv.run
  · have hcmd := (dispatch_ok hd).2
    rw [hc] at hcmd
    obtain ⟨MC, -, hparse, -⟩ := ctapMakeCredential_registers hcmd
    obtain ⟨⟨key, halg, hfrom, hreg⟩, hstored⟩ := ctapMakeCredential_registersCredential hparse hcmd
    refine ⟨MC, _, key, hparse, hreg, halg, hfrom, ⟨_, _, rfl⟩, fun hrk => ?_⟩
    obtain ⟨rk, hid, hchanges⟩ := hstored hrk
    refine ⟨rk, ?_, hid⟩
    rw [hafter]
    exact hchanges
  · rw [hok] at herr
    cases herr

theorem resets_of_makeCredential (hc : commandOf g.cmd = .makeCredential) : g.resets = false := by
  simp [Served.resets, hc]

/-- Bytes of the full length are the whole ID. -/
theorem CredentialDescriptor.id_eq_of_idBytes (cred : CredentialDescriptor) {id : CredentialId}
    (h : cred.idBytes = id.raw.toList) : cred.id = id := by
  have hlen := congrArg List.length h
  unfold idBytes ctapGetCredentialIdSize u2fKeyHandleSize at h hlen
  split_ifs at h hlen
  · simp at hlen
  · rw [List.take_of_length_le (by simp)] at h
    have hraw : cred.id.raw = id.raw := Subtype.ext h
    cases hid : cred.id
    cases id
    rw [hid] at hraw
    exact congrArg CredentialId.mk hraw

theorem alg_cases (key : CredentialKey) : key.alg = .es256 ∨ key.alg = .eddsa := by
  cases key with
  | es256 pub => exact .inl rfl
  | eddsa pub => exact .inr rfl

/-- The record that is held for a stored credential is one of those that an enumeration returns. -/
theorem World.HoldsId.enumerated {key : Bytes 16 × Bytes 16} {id : CredentialId} {hash : Bytes 32}
    (h : w.HoldsId key id) (hlookup : id.rpIdLookup = rpIdLookupOf P.prims w.keys hash) (hzero : id.count ≠ 0)
    (hmax : id.count ≠ 0xffffffff) : ∃ rk ∈ credentialsOf P w hash, rk.id = id := by
  obtain ⟨rk, hrk, -, rfl⟩ := h
  refine ⟨rk, ?_, rfl⟩
  unfold World.Stores at hrk
  unfold credentialsOf
  rw [← hlookup, List.mem_filter]
  refine ⟨hrk, ?_⟩
  unfold scanMatches residentKeyIsValid
  have hpos : 0 < rk.id.count := UInt32.pos_iff_ne_zero.mpr hzero
  simp [hpos, hmax]

/-- **A credential is used as it was registered.**  Assertions that select it are signed with the algorithm
and the private key of the registration, also behind power cycles; and as long as a discoverable one is
neither deleted nor replaced, enumerations return its ID with its public key and its credProtect level. -/
theorem registered_credential_kept (hctr : P.prims.CtrUndoes) (hfix : P.prims.PublicKeyFixed)
    (hr : Run P (later ++ .request g :: earlier) w) (hc : commandOf g.cmd = .makeCredential)
    (hok : g.status = .ok) (hno : ∀ r, Entry.request r ∈ later → r.resets = false) :
    ∃ (MC : MakeCredential) (id : CredentialId) (key : CredentialKey),
      parseMakeCredential g.request = .ok MC ∧ RegistersCredential g.response id key ∧
      MC.credInfo.coseAlgorithmIdentifier = some key.alg ∧
      (∀ r cred, Entry.request r ∈ later → commandOf r.cmd ∈ [.getAssertion, .getNextAssertion] →
        r.status = .ok → r.SignsWith cred → cred.idBytes = id.raw.toList →
        ∃ priv sig, r.after.signatures = [.signature key.alg priv sig] ∧
          ((key.alg = .es256 → HasPublicKey P priv) → key.IsPublicOf P priv)) ∧
      (MC.credInfo.rk = true → ∃ rk, g.after.rkChanges = [.stored rk] ∧ rk.id = id ∧
        (id.count ≠ 0xffffffff → (∀ c ∈ rkLog later, c.Spares rk) → ∀ b rs,
          Enumeration P w (fun CM => CM.subCommand = 4 ∧ CM.params.rpIdHashPresent = true ∧
            CM.params.rpIdHash = P.prims.sha256 MC.rp.bytes) 5 b rs →
          ∃ i < (credentialsOf P w (P.prims.sha256 MC.rp.bytes)).length, ∀ r, (b :: rs)[i]? = some r →
            r.status = .ok ∧ ∃ user total, r.response =
              credentialResponse user id key total (reportedLevel MC.extensions.credProtect))) := by
  have hg := resets_of_makeCredential hc
  obtain ⟨hkeys, hkeysAt⟩ := hr.keys_since hg hno
  obtain ⟨-, hv, -⟩ := hr.suffix.of_request
  obtain ⟨MC, id, key, hparse, hreg, halg, hfrom, ⟨nonce, n, hid⟩, hstored⟩ :=
    hv.registersCredential hc hok
  have hrestored : ctapRestoreMetadataCoseAlg P.prims g.before.keys id = key.alg := by
    rw [hid]
    exact restoredAlg_new hctr halg (alg_cases key)
  refine ⟨MC, id, key, hparse, hreg, halg, ?_, fun hrk => ?_⟩
  · intro r cred hmem hcmd hstatus hsigns hbytes
    obtain ⟨l₁, l₂, rfl⟩ := List.append_of_mem hmem
    have hr' : Run P (l₁ ++ .request r :: (l₂ ++ .request g :: earlier)) w := by simpa using hr
    obtain ⟨-, hvr, -⟩ := hr'.suffix.of_request
    obtain ⟨sig, hsig⟩ := hvr.signedFor hcmd hstatus hsigns
    have hpriv : cred.privateKey P.prims g.before.keys
        = cryptoDeriveCredentialKey P.prims g.before.keys id.raw.toList := by
      unfold CredentialDescriptor.privateKey
      rw [hbytes]
    refine ⟨_, sig, ?_, fun hsome => hfrom.isPublicOf hfix hsome⟩
    rw [hsig, cred.id_eq_of_idBytes hbytes, hkeysAt r hmem, hrestored, hpriv]
  · obtain ⟨rk, hchanges, rfl⟩ := hstored hrk
    refine ⟨rk, hchanges, rfl, fun hmax hspare b rs hen => ?_⟩
    obtain ⟨hholds, hzero⟩ := hr.holds_stored hchanges hspare
    have hlookup : rk.id.rpIdLookup = rpIdLookupOf P.prims w.keys (P.prims.sha256 MC.rp.bytes) := by
      rw [hkeys, hid]
      exact CredentialId.make_rpIdLookup ..
    obtain ⟨rk', hmem, hsame⟩ := hholds.enumerated hlookup hzero hmax
    have hreturn : ReturnInTurn w.keys (cborEncodeEnumerateCredential P)
        ((credentialsOf P w (P.prims.sha256 MC.rp.bytes)).map (·.xcrypt P.prims w.keys)) (b :: rs) := by
      refine (credentialEnumerator P (P.prims.sha256 MC.rp.bytes)).returnInTurn (.inr rfl)
        (fun _ => credMgmtCommand_next) hen ?_
      rintro CM ⟨hsub, hpresent, hhash⟩
      rw [← hhash]
      exact begins_credentials (length_file_le hr.storeOk) hsub hpresent
    obtain ⟨i, hi⟩ := List.mem_iff_getElem?.mp hmem
    obtain ⟨hlt, -⟩ := List.getElem?_eq_some_iff.mp hi
    refine ⟨i, hlt, fun r hrs => ?_⟩
    have hresponse := hreturn i r hrs
    rw [List.getElem?_map, hi] at hresponse
    obtain ⟨hstatus, w₁, w₂, hk, hrun⟩ := hresponse
    obtain ⟨key', halg', hfrom', hout⟩ := cborEncodeEnumerateCredential_bytes hrun
    have hxid : (rk'.xcrypt P.prims w.keys).id = rk.id := hsame
    dsimp only at halg' hfrom' hout
    rw [hk, hxid, hkeys] at halg' hfrom' hout
    have hkey : key' = key := hfrom'.unique hfix hfrom (halg'.trans hrestored)
    rw [hkey, hid, credProtectOf_new hctr, ← hid] at hout
    exact ⟨hstatus, _, _, hout⟩

end Runs

/-! ## One user -/

/-- A user registers, another message follows, and the credentials of the RP are enumerated. -/
def registeredAndThen (next : World → Message) : Option (World × List Served × Served) :=
  (serveAll simPlatform simStart [touched 1 (encMap (makeCredentialMembers "a" 1))]).bind fun x =>
  (serveAll simPlatform x.1
    [next x.1, touched 6 (setPinRequest "1234"), touched 6 (getTokenRequest "1234" 4 "a")]).bind fun y =>
  (serve simPlatform y.1
    (touched 0x0a (credMgmtRequest 4 [([1], encBytes (simSha256 (ascii "a")).toList)]))).map
    fun b => (y.1, y.2 ++ x.2, b)

theorem registeredAndThen_run {next : World → Message} {w : World} {rs : List Served} {b : Served}
    (h : registeredAndThen next = some (w, rs, b)) :
    Run simPlatform (rs.map .request ++ [.boot simStart]) w ∧ b.Valid simPlatform ∧ b.before = w := by
  obtain ⟨⟨w₁, rs₁⟩, h₁, h⟩ := Option.bind_eq_some_iff.mp h
  obtain ⟨⟨w₂, rs₂⟩, h₂, h⟩ := Option.bind_eq_some_iff.mp h
  obtain ⟨b', hb, heq⟩ := Option.map_eq_some_iff.mp h
  simp only [Prod.mk.injEq] at heq
  obtain ⟨rfl, rfl, rfl⟩ := heq
  have hrun := serveAll_run (serveAll_run run_simStart h₁) h₂
  rw [← List.append_assoc, ← List.map_append] at hrun
  exact ⟨hrun, serve_valid hb⟩

/-- Whether a request begins to enumerate the credentials of RP a. -/
def Served.beginsCredentials (r : Served) : Bool :=
  r.isBoundTo simPlatform (ascii "a") &&
    match parseCredentialManagementRequest r.request with
    | .ok CM => CM.subCommand = 4 && CM.params.rpIdHashPresent && CM.params.rpIdHash = simSha256 (ascii "a")
    | .error _ => false

theorem enumeration_of_beginsCredentials {w : World} {b : Served} (hv : b.Valid simPlatform)
    (hb : b.before = w) (h : b.beginsCredentials = true) :
    Enumeration simPlatform w (fun CM => CM.subCommand = 4 ∧ CM.params.rpIdHashPresent = true ∧
      CM.params.rpIdHash = simSha256 (ascii "a")) 5 b [] := by
  unfold Served.beginsCredentials at h
  obtain ⟨hbound, hparams⟩ := Bool.and_eq_true_iff.mp h
  obtain ⟨CM, hboundTo⟩ := Served.boundTo_of_isBoundTo hbound
  rw [hboundTo.parsed] at hparams
  simp only [Bool.and_eq_true, decide_eq_true_eq] at hparams
  exact ⟨hv, hb, ⟨CM, hboundTo.toAccepted, hparams.1.1, hparams.1.2, hparams.2⟩, List.isChain_singleton _⟩

theorem simPublicKey_fixed : simPlatform.prims.PublicKeyFixed := fun _ _ _ => rfl

/-- Whether a request signs with the credential that a registration stored. -/
def Served.signsStored (r g : Served) : Bool :=
  g.after.rkChanges.any fun
    | .stored rk => rk.id.count ≠ 0xffffffff && r.after.assertionEvents.any fun
      | .signed cred _ _ => cred.idBytes = rk.id.raw.toList
      | _ => false
    | _ => false

theorem Served.signsWith_of_signsStored {r g : Served} {rk : ResidentKey} (h : r.signsStored g = true)
    (hg : g.after.rkChanges = [.stored rk]) :
    rk.id.count ≠ 0xffffffff ∧ ∃ cred, r.SignsWith cred ∧ cred.idBytes = rk.id.raw.toList := by
  unfold Served.signsStored at h
  simp only [hg, List.any_cons, List.any_nil, Bool.or_false, Bool.and_eq_true, decide_eq_true_eq] at h
  refine ⟨h.1, ?_⟩
  obtain ⟨e, he, hid⟩ := List.any_eq_true.mp h.2
  cases e with
  | signed cred authData hash => exact ⟨cred, ⟨authData, hash, he⟩, of_decide_eq_true hid⟩
  | _ => cases hid

/-- Whether a request registers a discoverable credential of RP a without a credProtect level. -/
def Served.registersA (g : Served) : Bool :=
  commandOf g.cmd = .makeCredential && g.status = .ok &&
    match parseMakeCredential g.request with
    | .ok MC => MC.credInfo.rk && simSha256 MC.rp.bytes = simSha256 (ascii "a") &&
      reportedLevel MC.extensions.credProtect = 1
    | .error _ => false

theorem Served.registersA_spec {g : Served} (h : g.registersA = true) : commandOf g.cmd = .makeCredential ∧
    g.status = .ok ∧ ∀ MC, parseMakeCredential g.request = .ok MC → MC.credInfo.rk = true ∧
      simSha256 MC.rp.bytes = simSha256 (ascii "a") ∧ reportedLevel MC.extensions.credProtect = 1 := by
  unfold Served.registersA at h
  simp only [Bool.and_eq_true, decide_eq_true_eq] at h
  refine ⟨h.1.1, h.1.2, fun MC hparse => ?_⟩
  have hMC := h.2
  rw [hparse] at hMC
  simp only [Bool.and_eq_true, decide_eq_true_eq] at hMC
  exact ⟨hMC.1.1, hMC.1.2, hMC.2⟩

/-- Whether an assertion with the stored credential followed, and nothing changed the store. -/
def signedIn (x : World × List Served × Served) : Bool :=
  x.2.2.beginsCredentials && (credentialsOf simPlatform x.1 (simSha256 (ascii "a"))).length = 1 &&
    match x.2.1 with
    | [t, s, r, g] => [t, s, r].all (fun e => !e.resets && e.after.rkChanges.isEmpty) && g.registersA &&
        commandOf r.cmd = .getAssertion && r.status = .ok && r.signsStored g
    | _ => false

theorem signedIn_spec {w : World} {rs : List Served} {b : Served} (h : signedIn (w, rs, b) = true) :
    b.beginsCredentials = true ∧ (credentialsOf simPlatform w (simSha256 (ascii "a"))).length = 1 ∧
      ∃ t s r g, rs = [t, s, r, g] ∧ (∀ e ∈ [t, s, r], e.resets = false ∧ e.after.rkChanges = []) ∧
        g.registersA = true ∧ commandOf r.cmd = .getAssertion ∧ r.status = .ok ∧ r.signsStored g = true := by
  unfold signedIn at h
  obtain ⟨hfirst, hprops⟩ := Bool.and_eq_true_iff.mp h
  obtain ⟨hbegins, hone⟩ := Bool.and_eq_true_iff.mp hfirst
  refine ⟨hbegins, of_decide_eq_true hone, ?_⟩
  split at hprops
  · rename_i t s r g heq
    simp only [Bool.and_eq_true, decide_eq_true_eq, List.all_eq_true, Bool.not_eq_true',
      List.isEmpty_iff] at hprops
    obtain ⟨⟨⟨⟨hquiet, hg⟩, hr⟩, hrok⟩, hsigns⟩ := hprops
    exact ⟨t, s, r, g, heq, hquiet, hg, hr, hrok, hsigns⟩
  · cases hprops

/-- The credential is signed with and enumerated. -/
theorem registered_credential_kept_signed_in :
    ∃ (w : World) (g r b : Served) (id : CredentialId) (key : CredentialKey),
      Enumeration simPlatform w (fun CM => CM.subCommand = 4 ∧ CM.params.rpIdHashPresent = true ∧
        CM.params.rpIdHash = simSha256 (ascii "a")) 5 b [] ∧ RegistersCredential g.response id key ∧
      (∃ priv sig, r.after.signatures = [.signature key.alg priv sig] ∧ key.IsPublicOf simPlatform priv) ∧
      b.status = .ok ∧ ∃ user total, b.response = credentialResponse user id key total 1 := by
  have heval : (registeredAndThen fun w => touched 2 (allowListRequest "a" (w.records.map (·.id)))).any signedIn
      = true := by
    decide +kernel
  obtain ⟨⟨w, rs, b⟩, hrs, heval⟩ := (Option.any_eq_true _ _).mp heval
  obtain ⟨hrun, hvalid, hbefore⟩ := registeredAndThen_run hrs
  obtain ⟨hbegins, hone, t, s, r, g, rfl, hquiet, hg, hr, hrok, hsigns⟩ := signedIn_spec heval
  obtain ⟨hc, hok, hMC⟩ := Served.registersA_spec hg
  have hrun' : Run simPlatform ([.request t, .request s, .request r] ++ .request g :: [.boot simStart]) w :=
    hrun
  obtain ⟨MC, id, key, hparse, hreg, -, hsigned, hstored⟩ := registered_credential_kept simCipher_undoes
    simPublicKey_fixed hrun' hc hok (fun e he => (hquiet e (by simpa using he)).1)
  obtain ⟨hrk, hsha, hlevel⟩ := hMC MC hparse
  obtain ⟨rk, hchanges, rfl, henum⟩ := hstored hrk
  obtain ⟨hcount, cred, hwith, hid⟩ := Served.signsWith_of_signsStored hsigns hchanges
  obtain ⟨priv, sig, hsig, hpublic⟩ := hsigned r cred (by simp) (by simp [hr]) hrok hwith hid
  have hen := enumeration_of_beginsCredentials hvalid hbefore hbegins
  have hspare : ∀ c ∈ rkLog [.request t, .request s, .request r], c.Spares rk := by
    have hnone : rkLog [.request t, .request s, .request r] = [] := by
      simp [rkLog, Entry.world, (hquiet t (by simp)).2, (hquiet s (by simp)).2, (hquiet r (by simp)).2]
    rw [hnone]
    exact fun c hc => absurd hc List.not_mem_nil
  have hhash : simPlatform.prims.sha256 MC.rp.bytes = simSha256 (ascii "a") := hsha
  rw [hhash] at henum
  obtain ⟨i, hi, hall⟩ := henum hcount hspare b [] hen
  obtain rfl : i = 0 := by omega
  obtain ⟨hbok, user, total, hresponse⟩ := hall b rfl
  rw [hlevel] at hresponse
  refine ⟨w, g, r, b, rk.id, key, hen, hreg, ⟨priv, sig, hsig, hpublic fun _ random => ?_⟩, hbok, user, total,
    hresponse⟩
  simp [simPlatform, simPrimitives]

end TkeyFido2
