import TkeyFido2.Ctap.SigningKeys
import TkeyFido2.Ctap.NextAssertion
import TkeyFido2.Ctap.U2f

/-!
# U2F key handles in an allow list

A key handle of `u2f_register` lies over the memory of a `CredentialId`.  An entry of the allow list with
48 bytes is authenticated as a key handle, and then read as a FIDO2 credential: bytes of the random key are
taken for the nonce, the encrypted metadata and the count.
-/

namespace TkeyFido2

open Cbor Prog

variable {P : Platform} {w w' : World} {b : CtapBuffer}

/-! ## U2F requests -/

theorem touches_cryptoEcc256Sign {key hash : Bytes 32} : Touches [.inputs] (cryptoEcc256Sign P key hash) := by
  unfold cryptoEcc256Sign
  refine touches_drawing.bind fun sig => ?_
  cases sig with
  | none => exact frames_throw
  | some sig => exact frames_pure

theorem touches_u2fResponseWriteback {out buf : List UInt8} : Touches [] (u2fResponseWriteback out buf) :=
  frames_ite frames_throw frames_pure

/-- What a U2F request changes. -/
def u2fParts : List Part := [.inputs, .counter, .assertionEvents]

theorem touches_u2fAuthenticate : Touches u2fParts (u2fAuthenticate P b) := by
  have hwrite {out buf : List UInt8} : Touches u2fParts (u2fResponseWriteback out buf) :=
    touches_u2fResponseWriteback.mono (by decide)
  have hsign {key hash : Bytes 32} : Touches u2fParts (cryptoEcc256Sign P key hash) :=
    touches_cryptoEcc256Sign.mono (by decide)
  unfold u2fAuthenticate
  refine frames_get.bind fun _ => ?_
  dsimp only
  refine frames_ite frames_pure (frames_ite frames_pure (frames_ite ?_ ?_))
  · refine Frames.bind frames_pure fun _ => frames_ite frames_pure ?_
    exact (touches_ctapAtomicCount.mono (by decide)).bind fun _ => hsign.bind fun _ =>
      hwrite.bind fun _ => hwrite.bind fun _ => hwrite.bind fun _ => frames_pure
  · refine (touches_ctapUserPresenceTest.mono (by decide)).bind fun _ => frames_ite frames_pure ?_
    exact (touches_ctapAtomicCount.mono (by decide)).bind fun _ => hsign.bind fun _ =>
      hwrite.bind fun _ => hwrite.bind fun _ => hwrite.bind fun _ => frames_pure

theorem touches_u2fRegister : Touches u2fParts (u2fRegister P b) := by
  have hwrite {out buf : List UInt8} : Touches u2fParts (u2fResponseWriteback out buf) :=
    touches_u2fResponseWriteback.mono (by decide)
  unfold u2fRegister
  refine Frames.bind (touches_ctapUserPresenceTest.mono (by decide)) fun _ => frames_ite frames_pure ?_
  refine (touches_ctapGenerateRng.mono (by decide)).bind fun _ => frames_get.bind fun _ =>
    (touches_cryptoEcc256DerivePublicKey.mono (by decide)).bind fun _ => frames_get.bind fun _ =>
    (touches_cryptoEcc256Sign.mono (by decide)).bind fun _ =>
    hwrite.bind fun _ => hwrite.bind fun _ => hwrite.bind fun _ => hwrite.bind fun _ =>
    frames_get.bind fun w => ?_
  cases attestationReadCert w with
  | none => exact frames_pure
  | some cert => exact hwrite.bind fun _ => hwrite.bind fun _ => frames_pure

theorem touches_u2fRequest : Touches u2fParts (u2fRequest P b) := by
  have hwrite {out buf : List UInt8} : Touches u2fParts (u2fResponseWriteback out buf) :=
    touches_u2fResponseWriteback.mono (by decide)
  have hcommand : Touches u2fParts (u2fCommand P b) := by
    unfold u2fCommand
    split
    · exact frames_ite frames_pure touches_u2fRegister
    · exact touches_u2fAuthenticate
    · exact frames_ite frames_pure (hwrite.bind fun _ => frames_pure)
    · exact frames_pure
    · exact frames_pure
    · exact frames_pure
  unfold u2fRequest
  refine frames_ite ?_ (hcommand.bind fun _ => ?_)
  · exact Frames.bind frames_pure fun _ => hwrite.bind fun _ => hwrite.bind fun _ => frames_pure
  · exact hwrite.bind fun _ => hwrite.bind fun _ => frames_pure

/-! ## A device that speaks both protocols -/

/-- A message that is served, or a power cycle, and whether it is a reset. -/
inductive Step (P : Platform) : Bool → World → World → Prop
  | request (r : Served) (hv : r.Valid P) : Step P r.resets r.before r.after
  | u2f (b : CtapBuffer) (inputs : Inputs) (x : List UInt8 × CtapBuffer) {w w' : World}
      (h : u2fRequest P b (w.withInputs inputs) = .ok x w') : Step P false w w'
  | boot {w w' : World} (hb : Boots P w w') : Step P false w w'

/-- The states that a new device can reach. -/
inductive Serving (P : Platform) : World → Prop
  | start {w w' : World} (hw : w.IsNew) (hb : Boots P w w') : Serving P w'
  | step {w w' : World} {reset : Bool} (hw : Serving P w) (hs : Step P reset w w') : Serving P w'

/-- The states that follow without a reset. -/
def Later (P : Platform) : World → World → Prop := Relation.ReflTransGen (Step P false)

/-- What a power cycle relies on. -/
structure Persistent (P : Platform) (w : World) : Prop where
  synced : Synced P w
  store : StoreOk P w

theorem ignores_persistent : Ignores (u2fParts ++ .ga :: requestParts) (Persistent P) := by
  intro w w' h hw
  exact ⟨ignores_synced.mono (by decide) w w' h hw.synced, ignores_storeOk.mono (by decide) w w' h hw.store⟩

theorem Step.persistent {reset : Bool} (hs : Step P reset w w') (hw : Persistent P w) : Persistent P w' := by
  cases hs with
  | request r hv =>
    refine hv.invariant (ignores_persistent.mono (by decide)) ?_ hw
    intro v hv
    exact ⟨synced_dispatch _ _ v hv.synced, storeOk_dispatch _ _ v hv.store⟩
  | u2f b inputs x h =>
    have hstart : Persistent P (w.withInputs inputs) :=
      ignores_persistent.mono (S := requestParts) (by decide) _ _ (fun p hp => withInputs_view hp) hw
    have hkeep : Persistent P (final (u2fRequest P b) (w.withInputs inputs)) :=
      ignores_persistent.preserves touches_u2fRequest (by decide) _ hstart
    rwa [final_of_ok h] at hkeep
  | boot hb => exact ⟨hw.synced.boots hb, hw.store.boots hw.synced hb⟩

theorem Serving.persistent (hw : Serving P w) : Persistent P w := by
  induction hw with
  | start hw hb =>
    obtain ⟨salt, hstate, -, hfiles, hst⟩ := hb.of_new hw
    exact ⟨hb.synced_of_new hw, .empty hst.keys hfiles (by rw [hstate]; rfl)⟩
  | step hw hs ih => exact hs.persistent ih

theorem Step.keys_kept (hs : Step P false w w') (hw : Persistent P w) : w'.keys = w.keys := by
  generalize hreset : false = reset at hs
  cases hs with
  | request r hv => exact hv.keys_kept hreset.symm
  | u2f b inputs x h =>
    have hkeys : w'.keys = (w.withInputs inputs).keys := (touches_u2fRequest .keys (by decide)).ok h
    exact hkeys
  | boot hb => exact hb.keys_kept hw.synced hw.store.keys

theorem Later.keys_kept (h : Later P w w') (hw : Persistent P w) : Persistent P w' ∧ w'.keys = w.keys := by
  induction h with
  | refl => exact ⟨hw, rfl⟩
  | tail _ hs ih => exact ⟨hs.persistent ih.1, (hs.keys_kept ih.1).trans ih.2⟩

/-! ## Key handles -/

theorem u2fResponseWriteback_ok {out buf out' : List UInt8} (h : u2fResponseWriteback out buf w = .ok out' w') :
    out' = out ++ buf ∧ w' = w := by
  unfold u2fResponseWriteback at h
  rcases ite_eq_ok.mp h with ⟨-, h⟩ | ⟨-, h⟩
  · exact absurd h (by simp)
  · obtain ⟨rfl, rfl⟩ := pure_eq_ok.mp h
    exact ⟨rfl, rfl⟩

/-- The key handle in the response to a registration, behind two constant bytes, the public key and the length. -/
def registeredHandle (out : List UInt8) : List UInt8 := (out.drop 67).take 48

/-- The key handle that a registration makes: a random key with its MAC. -/
def World.nextKeyHandle (P : Platform) (w : World) (app : Bytes 32) : List UInt8 :=
  (u2fMakeAuthTag P.prims w.keys (streamBytes w.inputs.rng.byte w.rngPos 32) app).toList
    ++ (streamBytes w.inputs.rng.byte w.rngPos 32).toList

theorem length_nextKeyHandle (app : Bytes 32) : (w.nextKeyHandle P app).length = 48 := by
  unfold World.nextKeyHandle
  rw [List.length_append, List.Vector.toList_length, List.Vector.toList_length]

theorem ctapUserPresenceTest_keeps :
    Keeps (fun w : World => (w.keys, w.inputs, w.rngPos)) ctapUserPresenceTest := by
  intro w
  unfold ctapUserPresenceTest
  cases hup : w.upDisabled <;> simp only [final, get_bind, hup] <;> rfl

/-- A public key as a registration computes it. -/
def PublicKeyFrom (P : Platform) (key : Bytes 32) (pub : Bytes 64) : Prop :=
  ∃ random, pub = (P.prims.eccPublicKey key random).1.getD (Bytes.zero 64)

theorem cryptoEcc256DerivePublicKey_ok {data : List UInt8} {pub : Bytes 64}
    (h : cryptoEcc256DerivePublicKey P data w = .ok pub w') :
    PublicKeyFrom P (cryptoDeriveCredentialKey P.prims w.keys data) pub := by
  unfold cryptoEcc256DerivePublicKey at h
  rw [get_bind] at h
  exact ⟨_, (EStateM.Result.ok.inj h).1.symm⟩

/-- The response to a registration. -/
theorem u2fRegister_output {reply : U2fReply} (h : u2fRegister P b w = .ok reply w')
    (hdone : reply.rcode = u2fSwNoError) : ∃ (pub : Bytes 64) (rest : List UInt8),
      PublicKeyFrom P (cryptoDeriveCredentialKey P.prims w.keys (w.nextKeyHandle P b.app)) pub ∧
        reply.out = [5, 4] ++ pub.toList ++ [48] ++ w.nextKeyHandle P b.app ++ rest := by
  unfold u2fRegister at h
  rw [bind_eq_ok] at h
  obtain ⟨touch, w₁, htouch, h⟩ := h
  have hkept := ctapUserPresenceTest_keeps.ok htouch
  rcases ite_eq_ok.mp h with ⟨-, h⟩ | ⟨-, h⟩
  · obtain ⟨rfl, -⟩ := pure_eq_ok.mp h
    exact absurd hdone (by decide)
  rw [bind_eq_ok] at h
  obtain ⟨key, w₂, hrng, h⟩ := h
  have hkeys₂ : w₂.keys = w₁.keys := (touches_ctapGenerateRng .keys (by decide)).ok hrng
  have hhandle : (u2fMakeAuthTag P.prims w₂.keys key b.app).toList ++ key.toList = w.nextKeyHandle P b.app := by
    obtain rfl := (EStateM.Result.ok.inj hrng).1
    unfold World.nextKeyHandle
    rw [hkeys₂, show w₁.keys = w.keys from congrArg (·.1) hkept,
      show w₁.inputs = w.inputs from congrArg (·.2.1) hkept, show w₁.rngPos = w.rngPos from congrArg (·.2.2) hkept]
  rw [get_bind] at h
  dsimp only at h
  rw [hhandle, bind_eq_ok] at h
  obtain ⟨pubkey, w₃, hpub, h⟩ := h
  have hfrom := cryptoEcc256DerivePublicKey_ok hpub
  rw [hkeys₂, show w₁.keys = w.keys from congrArg (·.1) hkept] at hfrom
  rw [get_bind] at h
  rw [bind_eq_ok] at h
  obtain ⟨sig, w₄, -, h⟩ := h
  rw [bind_eq_ok] at h
  obtain ⟨out₁, w₅, h₁, h⟩ := h
  rw [bind_eq_ok] at h
  obtain ⟨out₂, w₆, h₂, h⟩ := h
  rw [bind_eq_ok] at h
  obtain ⟨out₃, w₇, h₃, h⟩ := h
  rw [bind_eq_ok] at h
  obtain ⟨out₄, w₈, h₄, h⟩ := h
  rw [get_bind] at h
  have hout₄ : out₄ = [5, 4] ++ pubkey.toList ++ [48] ++ w.nextKeyHandle P b.app := by
    rw [(u2fResponseWriteback_ok h₄).1, (u2fResponseWriteback_ok h₃).1, (u2fResponseWriteback_ok h₂).1,
      (u2fResponseWriteback_ok h₁).1]
    rfl
  cases hcert : attestationReadCert w₈ with
  | none =>
    rw [hcert] at h
    obtain ⟨rfl, -⟩ := pure_eq_ok.mp h
    have hfull : u2fSwInsufficientMemory ≠ u2fSwNoError := by decide
    exact absurd hdone hfull
  | some cert =>
    rw [hcert] at h
    dsimp only at h
    rw [bind_eq_ok] at h
    obtain ⟨out₅, w₉, h₅, h⟩ := h
    rw [bind_eq_ok] at h
    obtain ⟨out₆, w₁₀, h₆, h⟩ := h
    obtain ⟨rfl, -⟩ := pure_eq_ok.mp h
    refine ⟨pubkey, cert ++ ctapEncodeDerSig sig, hfrom, ?_⟩
    show out₆ = _
    rw [(u2fResponseWriteback_ok h₆).1, (u2fResponseWriteback_ok h₅).1, List.append_assoc, hout₄]

/-- A registration hands out a random key with its MAC. -/
theorem u2fRegister_ok {reply : U2fReply} (h : u2fRegister P b w = .ok reply w')
    (hdone : reply.rcode = u2fSwNoError) : ∃ key : Bytes 32,
      registeredHandle reply.out = (u2fMakeAuthTag P.prims w.keys key b.app).toList ++ key.toList := by
  obtain ⟨pub, rest, -, hout⟩ := u2fRegister_output h hdone
  refine ⟨streamBytes w.inputs.rng.byte w.rngPos 32, ?_⟩
  unfold registeredHandle
  rw [hout, List.append_assoc, List.drop_left' (by simp), List.take_left' (length_nextKeyHandle _)]
  rfl

section Handle

variable {key : Bytes 32} {app : Bytes 32} {k : SessionKeys} {id : CredentialId}

/-- A credential ID that starts with a key handle is authenticated by it. -/
theorem u2fAuthenticateCredential_handle {C : Primitives}
    (h : id.raw.toList.take 48 = (u2fMakeAuthTag C k key app).toList ++ key.toList) :
    u2fAuthenticateCredential C k id app = true := by
  have hraw : id.raw.toList
      = (u2fMakeAuthTag C k key app).toList ++ (key.toList ++ id.raw.toList.drop 48) := by
    rw [← List.append_assoc, ← h, List.take_append_drop]
  have htag : id.u2fTag = u2fMakeAuthTag C k key app :=
    Bytes.slice_of_append [] (key.toList ++ id.raw.toList.drop 48) hraw rfl
  have hkey : id.u2fKey = key :=
    Bytes.slice_of_append (u2fMakeAuthTag C k key app).toList (id.raw.toList.drop 48) hraw (by simp)
  unfold u2fAuthenticateCredential
  rw [htag, hkey]
  exact decide_eq_true rfl

/-- The metadata lies within the key handle. -/
theorem credentialMetadata_handle {C : Primitives} {id' : CredentialId}
    (h : id.raw.toList.take 48 = id'.raw.toList.take 48) : credentialMetadata C k id = credentialMetadata C k id' := by
  have hnonce : id.nonce = id'.nonce := Bytes.slice_eq_of_take_eq h (by decide) (by decide)
  have hmeta : id.protectedMetadata = id'.protectedMetadata := Bytes.slice_eq_of_take_eq h (by decide) (by decide)
  unfold credentialMetadata
  rw [hnonce, hmeta]

end Handle

/-! ## Requests that name a key handle -/

/-- A request up to `build_filtered_credential_list`. -/
structure FilterRun (P : Platform) (request : List UInt8) (w : World) where
  GA : GetAssertion
  (parsed verified : World)
  parse : parseGetAssertionRequest request w = .ok GA parsed
  verify : verifyGetAssertionAuth P GA (P.prims.sha256 GA.rp.bytes) parsed = .ok () verified

namespace FilterRun

variable {request : List UInt8}

/-- An entry of the allow list. -/
def entry (F : FilterRun P request w) (j : Nat) : CredentialDescriptor := F.verified.ga.creds.nth j

/-- What the filter depends on. -/
def filter (F : FilterRun P request w) : Filter :=
  F.verified.filter (P.prims.sha256 F.GA.rp.bytes)
    (rpIdLookupOf P.prims F.parsed.keys (P.prims.sha256 F.GA.rp.bytes))

/-- An entry is found valid. -/
def findsValid (F : FilterRun P request w) (j : Nat) : Bool := allowListQualifies P.prims F.filter (F.entry j)

/-- The allow list has a key handle at a position. -/
structure Names (F : FilterRun P request w) (j : Nat) (handle : List UInt8) : Prop where
  listed : j < F.GA.credLen
  type : (F.entry j).type = .ctap1
  bytes : (F.entry j).idBytes = handle

theorem filter_keys (F : FilterRun P request w) : F.filter.keys = w.keys :=
  ((touches_verifyGetAssertionAuth .keys (by decide)).ok F.verify).trans
    ((touches_parseGetAssertionRequest .keys (by decide)).ok F.parse)

theorem filter_rkFiles (F : FilterRun P request w) : F.filter.rkFiles = w.rkFiles :=
  ((touches_verifyGetAssertionAuth .rkFiles (by decide)).ok F.verify).trans
    ((touches_parseGetAssertionRequest .rkFiles (by decide)).ok F.parse)

theorem filter_userVerified (F : FilterRun P request w) : F.filter.userVerified = decide (F.GA.uvFlag ≠ 0) := by
  rw [← verifyGetAssertionAuth_uvFlag F.verify]
  rfl

/-- A successful request went through the filter. -/
theorem eq_of_run {w' : World} (F : FilterRun P request w) (A : AssertionRun P request w w') :
    A.verified = F.verified ∧ A.filter = F.filter ∧ A.GA = F.GA := by
  obtain ⟨hGA, hparsed⟩ := EStateM.Result.ok.inj (A.parse.symm.trans F.parse)
  have hverify := A.verify
  rw [hGA, hparsed] at hverify
  obtain ⟨-, hverified⟩ := EStateM.Result.ok.inj (hverify.symm.trans F.verify)
  refine ⟨hverified, ?_, hGA⟩
  unfold AssertionRun.filter FilterRun.filter
  rw [hverified, hGA, hparsed]

end FilterRun

/-- The bytes of an entry that is a key handle. -/
theorem CredentialDescriptor.take_of_ctap1 {cred : CredentialDescriptor} (h : cred.type = .ctap1) :
    cred.idBytes = cred.id.raw.toList.take 48 := by
  unfold CredentialDescriptor.idBytes ctapGetCredentialIdSize
  rw [if_pos h]
  rfl

section Named

variable {r : Served} {handle : List UInt8} {j : Nat}
  {F : FilterRun P r.request (r.before.withInputs r.after.inputs)}

/-- A key handle of the RP is found valid depending on the metadata that lies over its key. -/
theorem FilterRun.Names.findsValid_iff {key : Bytes 32} (hname : F.Names j handle)
    (hhandle : handle = (u2fMakeAuthTag P.prims r.before.keys key (P.prims.sha256 F.GA.rp.bytes)).toList ++ key.toList) :
    F.findsValid j = true ↔
      (credProtectOf P.prims r.before.keys (F.entry j).id ≠ 3 ∨ F.GA.uvFlag ≠ 0) ∧
      (isRkOf P.prims r.before.keys (F.entry j).id = false ∨
        ctapVerifyRkExists P.prims r.before.keys r.before.rkFiles (F.entry j).id = true) := by
  have hkeys : F.filter.keys = r.before.keys := F.filter_keys
  have hfiles : F.filter.rkFiles = r.before.rkFiles := F.filter_rkFiles
  have hbelongs : ctapCredentialBelongsToRp P.prims F.filter.keys F.filter.rpIdLookup F.filter.rpIdHash (F.entry j)
      = true := by
    unfold ctapCredentialBelongsToRp
    rw [hname.type, hkeys]
    refine @u2fAuthenticateCredential_handle key _ _ _ _ ?_
    rw [← CredentialDescriptor.take_of_ctap1 hname.type, hname.bytes, hhandle]
    rfl
  unfold FilterRun.findsValid
  rw [allowListQualifies_iff, hkeys, hfiles, F.filter_userVerified, decide_eq_true_eq]
  exact and_iff_right (hkeys ▸ hbelongs)

/-- A successful request signs with the first entry that is found valid, unless its count is taken for that
of an invalidated one. -/
theorem FilterRun.signsWith_first (hv : r.Valid P) (hc : commandOf r.cmd = .getAssertion) (hok : r.status = .ok)
    (hj : j < F.GA.credLen) (hvalid : F.findsValid j = true) (hfirst : ∀ i < j, F.findsValid i = false)
    (hcount : j = 0 ∨ (F.entry j).id.count ≠ 0) : ∃ cred, r.SignsWith cred ∧ cred.Shows (F.entry j) := by
  obtain ⟨w₁, hafter, hd⟩ := hv.run
  rcases hd with ⟨-, hd⟩ | ⟨e, herr, -⟩
  · have hcmd := (dispatch_ok hd).2
    rw [hc] at hcmd
    obtain ⟨A⟩ := ctapGetAssertion_ok hcmd
    obtain ⟨hverified, hfilter, hGA⟩ := F.eq_of_run A
    have hfew : F.GA.credLen ≤ 20 := parseGetAssertionRequest_le _ _ _ F.parse
    have hres := A.filtered
    rw [hverified, hfilter, hGA] at hres
    obtain ⟨cred, authData, h⟩ := A.asserted
    obtain ⟨c, hget, hshows⟩ := h.shows
    have hcreds : c = A.listed.ga.creds.nth 0 := by
      unfold AssertionRun.creds at hget
      rw [List.getElem?_take_of_lt (Nat.pos_of_ne_zero A.count_ne_zero)] at hget
      unfold Creds.nth
      rw [List.getD_eq_getElem?_getD, hget, Option.getD_some]
    refine ⟨cred, ⟨authData, _, (h.with_lastcmd hafter).signed_mem⟩, ?_⟩
    generalize hpair : (A.listed.ga.creds, A.count) = res at hres
    cases hres with
    | named n hn first =>
      obtain ⟨hlist, -⟩ := Prod.mk.inj hpair
      obtain rfl : n = j := by
        rcases Nat.lt_trichotomy n j with hlt | heq | hgt
        · exact absurd (first.1.symm.trans (hfirst n hlt)) (by decide)
        · exact heq
        · exact absurd ((first.2 j hgt).symm.trans hvalid) (by decide)
      rw [hcreds, hlist, nth_zero_sortPrefix (hj.trans_le hfew) hcount] at hshows
      exact hshows
    | refused hne none creds' => exact absurd ((none j hj).symm.trans hvalid) (by decide)
    | stored hzero creds' hcreds => omega
  · rw [hok] at herr
    cases herr

/-- What a request that signs with a key handle signs with. -/
theorem FilterRun.Names.signature_iff (hname : F.Names j handle) (hv : r.Valid P)
    (hc : commandOf r.cmd = .getAssertion) (hok : r.status = .ok) {cred : CredentialDescriptor}
    (hs : r.SignsWith cred) (htype : cred.type = .ctap1) (hbytes : cred.idBytes = handle) :
    (∃ sig, r.after.signatures = [.signature .es256 (cryptoDeriveCredentialKey P.prims r.before.keys handle) sig]) ↔
      (credentialMetadata P.prims r.before.keys (F.entry j).id).byte 2 ≠ 1 := by
  obtain ⟨sig, hsig⟩ := hv.signedFor (by rw [hc]; decide) hok hs
  have hmeta : credentialMetadata P.prims r.before.keys cred.id
      = credentialMetadata P.prims r.before.keys (F.entry j).id := by
    refine credentialMetadata_handle ?_
    rw [← CredentialDescriptor.take_of_ctap1 htype, hbytes, ← hname.bytes, CredentialDescriptor.take_of_ctap1 hname.type]
  unfold CredentialDescriptor.privateKey ctapRestoreMetadataCoseAlg at hsig
  rw [hbytes, hmeta] at hsig
  rw [hsig]
  constructor
  · rintro ⟨sig', h⟩ hone
    rw [if_pos hone] at h
    simp at h
  · intro hne
    exact ⟨sig, by rw [if_neg hne]⟩

end Named

theorem cryptoEcc256Sign_ok {key hash : Bytes 32} {sig : Bytes 64} (h : cryptoEcc256Sign P key hash w = .ok sig w') :
    ∃ f, (P.prims.eccSign key hash f).1 = some sig := by
  unfold cryptoEcc256Sign at h
  rw [bind_eq_ok] at h
  obtain ⟨res, w₁, hdraw, h⟩ := h
  have hres := (EStateM.Result.ok.inj hdraw).1
  cases res with
  | none => exact absurd h (by simp)
  | some s =>
    obtain ⟨rfl, -⟩ := pure_eq_ok.mp h
    exact ⟨_, hres⟩

/-- `u2f_authenticate` signs with the key of the handle. -/
theorem u2fAuthenticate_signature {reply : U2fReply} {sig : Bytes 64} (h : u2fAuthenticate P b w = .ok reply w')
    (hsig : reply.sig = some sig) : ∃ hash f, (P.prims.eccSign
      (cryptoDeriveCredentialKey P.prims w.keys (b.kh.raw.toList.take b.khl.toNat)) hash f).1 = some sig := by
  unfold u2fAuthenticate at h
  rw [get_bind] at h
  dsimp only at h
  rcases ite_eq_ok.mp h with ⟨-, h⟩ | ⟨-, h⟩
  · obtain ⟨rfl, -⟩ := pure_eq_ok.mp h
    cases hsig
  rcases ite_eq_ok.mp h with ⟨-, h⟩ | ⟨-, h⟩
  · obtain ⟨rfl, -⟩ := pure_eq_ok.mp h
    cases hsig
  -- with or without a touch, the rest is the same
  rcases ite_eq_ok.mp h with ⟨-, h⟩ | ⟨-, h⟩
  all_goals
    rw [bind_eq_ok] at h
    obtain ⟨touch, w₁, -, h⟩ := h
    rcases ite_eq_ok.mp h with ⟨-, h⟩ | ⟨-, h⟩
    · obtain ⟨rfl, -⟩ := pure_eq_ok.mp h
      cases hsig
    rw [bind_eq_ok] at h
    obtain ⟨count, w₂, -, h⟩ := h
    rw [bind_eq_ok] at h
    obtain ⟨sig', w₃, hsign, h⟩ := h
    rw [bind_eq_ok] at h
    obtain ⟨out₁, w₄, -, h⟩ := h
    rw [bind_eq_ok] at h
    obtain ⟨out₂, w₅, -, h⟩ := h
    rw [bind_eq_ok] at h
    obtain ⟨out₃, w₆, -, h⟩ := h
    obtain ⟨rfl, -⟩ := pure_eq_ok.mp h
    obtain rfl := Option.some.inj hsig
    exact ⟨_, cryptoEcc256Sign_ok hsign⟩

/-! ## Registered key handles -/

/-- The code reads a registered key handle as a FIDO2 credential.  A later authenticatorGetAssertion for the
same RP that names it finds it valid exactly if the bytes of the key that it takes for the metadata neither
ask for user verification that the request lacks nor say that the credential is a discoverable one, unless it
is stored as such.  An assertion that is signed with it is made by ECDSA with the key of U2F authentication
exactly if these bytes do not say EdDSA. -/
theorem u2fHandle_in_allowList_iff {w₀ w₁ : World} {inputs : Inputs} {b : CtapBuffer} {reply : U2fReply}
    {r : Served} {j : Nat} {F : FilterRun P r.request (r.before.withInputs r.after.inputs)}
    (hw : Serving P w₀) (hreg : u2fRegister P b (w₀.withInputs inputs) = .ok reply w₁)
    (hdone : reply.rcode = u2fSwNoError) (hlater : Later P w₁ r.before) (hv : r.Valid P)
    (hc : commandOf r.cmd = .getAssertion) (happ : P.prims.sha256 F.GA.rp.bytes = b.app)
    (hname : F.Names j (registeredHandle reply.out)) :
    (F.findsValid j = true ↔
      (credProtectOf P.prims r.before.keys (F.entry j).id ≠ 3 ∨ F.GA.uvFlag ≠ 0) ∧
      (isRkOf P.prims r.before.keys (F.entry j).id = false ∨
        ctapVerifyRkExists P.prims r.before.keys r.before.rkFiles (F.entry j).id = true)) ∧
    (r.status = .ok → ∀ cred, r.SignsWith cred → cred.type = .ctap1 →
      cred.idBytes = registeredHandle reply.out →
      ((∃ sig, r.after.signatures = [.signature .es256
          (cryptoDeriveCredentialKey P.prims r.before.keys (registeredHandle reply.out)) sig]) ↔
        (credentialMetadata P.prims r.before.keys (F.entry j).id).byte 2 ≠ 1)) ∧
    (r.status = .ok → F.findsValid j = true → (∀ i < j, F.findsValid i = false) →
      (j = 0 ∨ (F.entry j).id.count ≠ 0) → ∃ cred, r.SignsWith cred ∧ cred.Shows (F.entry j)) ∧
    ∀ a : CtapBuffer, a.khl = 48 → a.kh.raw.toList.take 48 = registeredHandle reply.out → a.app = b.app →
      u2fAuthenticateKeyHandle P.prims r.before.keys a.kh a.khl a.app = true ∧
      ∀ w w' answer sig, w.keys = r.before.keys → u2fAuthenticate P a w = .ok answer w' → answer.sig = some sig →
        ∃ hash f, (P.prims.eccSign
          (cryptoDeriveCredentialKey P.prims r.before.keys (registeredHandle reply.out)) hash f).1 = some sig := by
  have hregistered : Persistent P w₁ ∧ w₁.keys = w₀.keys := by
    have hstart : Persistent P (w₀.withInputs inputs) :=
      ignores_persistent.mono (S := requestParts) (by decide) _ _ (fun p hp => withInputs_view hp) hw.persistent
    have hkeep : Persistent P (final (u2fRegister P b) (w₀.withInputs inputs)) :=
      ignores_persistent.preserves touches_u2fRegister (by decide) _ hstart
    rw [final_of_ok hreg] at hkeep
    have hsame : w₁.keys = (w₀.withInputs inputs).keys := (touches_u2fRegister .keys (by decide)).ok hreg
    exact ⟨hkeep, hsame⟩
  obtain ⟨key, hhandle⟩ := u2fRegister_ok hreg hdone
  have hkeys : (w₀.withInputs inputs).keys = r.before.keys :=
    hregistered.2.symm.trans (hlater.keys_kept hregistered.1).2.symm
  rw [hkeys] at hhandle
  refine ⟨hname.findsValid_iff (hhandle.trans (by rw [happ])), fun hok cred hs htype hbytes =>
    hname.signature_iff hv hc hok hs htype hbytes, fun hok hvalid hfirst hcount =>
    FilterRun.signsWith_first hv hc hok hname.listed hvalid hfirst hcount, fun a hkhl hkh ha => ⟨?_, ?_⟩⟩
  · unfold u2fAuthenticateKeyHandle
    rw [if_neg (by rw [hkhl]; decide), if_pos hkhl, ha]
    exact u2fAuthenticateCredential_handle (hkh.trans hhandle)
  · intro w w' answer sig hw' hauth hsig
    have hsigned := u2fAuthenticate_signature hauth hsig
    rwa [hw', hkhl, show (48 : UInt8).toNat = 48 from rfl, hkh] at hsigned

/-! ## Two key handles -/

/-- A generator that repeats its bytes. -/
def slowRng : Rng where
  byte := fun i => UInt8.ofNat (i / 17 % 200 + 3)
  tries := 0
  scalar := fun pos => ⟨0, le_rfl, by
    have hnat : (UInt8.ofNat (pos / 17 % 200 + 3)).toNat = pos / 17 % 200 + 3 := by
      rw [UInt8.toNat_ofNat']
      omega
    refine @isValidScalar_of_head _ (UInt8.ofNat (pos / 17 % 200 + 3)) _ rfl ?_ ?_
    · intro h
      rw [h] at hnat
      simp at hnat
    · rw [UInt8.lt_iff_toNat_lt, hnat]
      show pos / 17 % 200 + 3 < 255
      omega⟩

/-- A device with an attestation certificate that was never started. -/
def certifiedNew : World := { simNew with attestationCert := some [] }

/-- The same after its first start. -/
def certifiedStart : World :=
  final (ctapInit simPlatform) ((certifiedNew.powerOn 0).withInputs (simInputs fun _ => true))

theorem serving_certifiedStart : Serving simPlatform certifiedStart := by
  have hnew : certifiedNew.IsNew := ⟨rfl, fun _ => rfl⟩
  obtain ⟨w', h⟩ := hnew.boots (P := simPlatform) (simInputs fun _ => true) 0
  have hw : certifiedStart = w' := final_of_ok h
  exact .start hnew ⟨_, _, hw ▸ h⟩

/-- A U2F registration for RP a. -/
def registerApdu : CtapBuffer :=
  Bytes.ofList 1344 ([0, 1, 0, 0, 0, 0, 64] ++ List.replicate 32 1 ++ (simSha256 (ascii "a")).toList)

/-- authenticatorGetAssertion for RP a with a key handle in the allow list. -/
def handleRequest (handle : List UInt8) : List UInt8 :=
  encMap (getAssertionMembersOf "a" (List.replicate 32 9) ++
    [([3], [0x81] ++ encMap [(encString "id", encBytes handle), (encString "type", encString "public-key")])])

/-- A registration and an assertion that names its key handle. -/
def registerAndAssert (P : Platform) (w₀ : World) (b : CtapBuffer) (inputs : Inputs) :
    Option (U2fReply × World × Served) :=
  match u2fRegister P b (w₀.withInputs inputs) with
  | .ok reply w =>
    (serve P w (touched 2 (handleRequest (registeredHandle reply.out)))).map fun r => (reply, w, r)
  | .error _ _ => none

/-- Run a request up to the filter. -/
def filterRun (P : Platform) (request : List UInt8) (w : World) : Option (FilterRun P request w) :=
  match h : parseGetAssertionRequest request w with
  | .ok GA parsed =>
    match h' : verifyGetAssertionAuth P GA (P.prims.sha256 GA.rp.bytes) parsed with
    | .ok _ verified => some ⟨GA, parsed, verified, h, h'⟩
    | .error _ _ => none
  | .error _ _ => none

/-- What a run of both shows: whether it is one of a registered key handle that is named, the status of the
assertion, and whether the key handle is found valid. -/
def handleOutcome (P : Platform) (b : CtapBuffer) (x : U2fReply × World × Served) :
    Bool × CtapStatus × Option (Bool × Bool) :=
  (x.1.rcode = u2fSwNoError ∧ x.2.2.cmd = 2, x.2.2.status,
    (filterRun P x.2.2.request (x.2.2.before.withInputs x.2.2.after.inputs)).map fun F =>
      (P.prims.sha256 F.GA.rp.bytes = b.app ∧ 0 < F.GA.credLen ∧ (F.entry 0).type = .ctap1 ∧
        (F.entry 0).idBytes = registeredHandle x.1.out, F.findsValid 0))

theorem exists_of_handleOutcome {w₀ : World} {b : CtapBuffer} {inputs : Inputs} {status : CtapStatus}
    {valid : Bool}
    (h : (registerAndAssert P w₀ b inputs).map (handleOutcome P b) = some (true, status, some (true, valid))) :
    ∃ (reply : U2fReply) (w : World) (r : Served)
      (F : FilterRun P r.request (r.before.withInputs r.after.inputs)),
      u2fRegister P b (w₀.withInputs inputs) = .ok reply w ∧ reply.rcode = u2fSwNoError ∧
      Later P w r.before ∧ r.Valid P ∧ commandOf r.cmd = .getAssertion ∧
      P.prims.sha256 F.GA.rp.bytes = b.app ∧ F.Names 0 (registeredHandle reply.out) ∧ r.status = status ∧
      F.findsValid 0 = valid := by
  obtain ⟨⟨reply, w, r⟩, hx, hout⟩ := Option.map_eq_some_iff.mp h
  unfold registerAndAssert at hx
  split at hx
  · rename_i reply' w' hreg
    obtain ⟨r', hserve, heq⟩ := Option.map_eq_some_iff.mp hx
    simp only [Prod.mk.injEq] at heq
    obtain ⟨rfl, rfl, rfl⟩ := heq
    obtain ⟨hv, hb⟩ := serve_valid hserve
    unfold handleOutcome at hout
    simp only [Prod.mk.injEq, decide_eq_true_eq] at hout
    obtain ⟨⟨hdone, hcmd⟩, hstatus, hF⟩ := hout
    obtain ⟨F, -, hF⟩ := Option.map_eq_some_iff.mp hF
    simp only [Prod.mk.injEq, decide_eq_true_eq] at hF
    obtain ⟨⟨happ, hlen, htype, hbytes⟩, hvalid⟩ := hF
    exact ⟨reply', w', r', F, hreg, hdone, hb ▸ .refl, hv, commandOf_eq_getAssertion.mpr hcmd, happ,
      ⟨hlen, htype, hbytes⟩, hstatus, hvalid⟩
  · cases hx

/-- A key handle that works. -/
theorem u2fHandle_in_allowList_iff_valid_handle :
    ∃ (w₀ w₁ : World) (inputs : Inputs) (b : CtapBuffer) (reply : U2fReply) (r : Served)
      (F : FilterRun simPlatform r.request (r.before.withInputs r.after.inputs)),
      Serving simPlatform w₀ ∧ u2fRegister simPlatform b (w₀.withInputs inputs) = .ok reply w₁ ∧
      reply.rcode = u2fSwNoError ∧ Later simPlatform w₁ r.before ∧ r.Valid simPlatform ∧
      commandOf r.cmd = .getAssertion ∧ simPlatform.prims.sha256 F.GA.rp.bytes = b.app ∧
      F.Names 0 (registeredHandle reply.out) ∧ F.findsValid 0 = true ∧
      ∃ cred, r.SignsWith cred ∧ cred.Shows (F.entry 0) := by
  have heval : (registerAndAssert simPlatform certifiedStart registerApdu (simInputs fun _ => true)).map
      (handleOutcome simPlatform registerApdu) = some (true, .ok, some (true, true)) := by
    decide +kernel
  obtain ⟨reply, w₁, r, F, hreg, hdone, hlater, hv, hc, happ, hname, hok, hvalid⟩ :=
    exists_of_handleOutcome heval
  have h := u2fHandle_in_allowList_iff serving_certifiedStart hreg hdone hlater hv hc happ hname
  exact ⟨_, w₁, _, registerApdu, reply, r, F, serving_certifiedStart, hreg, hdone, hlater, hv, hc, happ,
    hname, hvalid, h.2.2.1 hok hvalid (fun i hi => absurd hi (Nat.not_lt_zero i)) (.inl rfl)⟩

/-- A key handle whose random key is read as that of a discoverable credential is refused. -/
theorem u2fHandle_read_as_discoverable :
    ∃ (w₀ w₁ : World) (inputs : Inputs) (b : CtapBuffer) (reply : U2fReply) (r : Served)
      (F : FilterRun simPlatform r.request (r.before.withInputs r.after.inputs)),
      Serving simPlatform w₀ ∧ u2fRegister simPlatform b (w₀.withInputs inputs) = .ok reply w₁ ∧
      reply.rcode = u2fSwNoError ∧ Later simPlatform w₁ r.before ∧ r.Valid simPlatform ∧
      commandOf r.cmd = .getAssertion ∧ simPlatform.prims.sha256 F.GA.rp.bytes = b.app ∧
      F.Names 0 (registeredHandle reply.out) ∧ F.findsValid 0 = false ∧ r.status = .error .noCredentials := by
  have heval : (registerAndAssert simPlatform certifiedStart registerApdu
      { simInputs fun _ => true with rng := slowRng }).map (handleOutcome simPlatform registerApdu)
      = some (true, .error .noCredentials, some (true, false)) := by
    decide +kernel
  obtain ⟨reply, w₁, r, F, hreg, hdone, hlater, hv, hc, happ, hname, hstatus, hvalid⟩ :=
    exists_of_handleOutcome heval
  exact ⟨_, w₁, _, registerApdu, reply, r, F, serving_certifiedStart, hreg, hdone, hlater, hv, hc, happ,
    hname, hvalid, hstatus⟩

end TkeyFido2
