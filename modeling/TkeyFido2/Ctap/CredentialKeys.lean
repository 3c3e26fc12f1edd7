import TkeyFido2.Ctap.Curve
import TkeyFido2.Ctap.IdChecks
import TkeyFido2.Ctap.U2fHandles
import TkeyFido2.Fs.Counter

/-!
# The keys of credentials

The private key of a credential is the HMAC of its ID, whatever number that is.  A registration does not look
at the result of `uECC_compute_public_key`: where the number is no usable scalar, the response is a success
with 64 zero bytes for the public key.
-/

namespace TkeyFido2

open Cbor Encoder Prog

variable {P : Platform} {w w' : World}

/-! ## Random numbers -/

section Draws

/-- `m` draws no random numbers. -/
abbrev Undrawn {α : Type} (m : CtapM α) : Prop := Frames (fun (_ : Unit) (w : World) => w.rngPos) [] m

variable {S : List Part} {α : Type} {m : CtapM α}

theorem Touches.undrawn (hm : Touches S m) (h : Part.inputs ∉ S) : Undrawn m :=
  fun _ _ w => congrArg (·.1) (hm .inputs h w)

theorem Frames.rngPos_ok (hm : Undrawn m) {a : α} (h : m w = .ok a w') : w'.rngPos = w.rngPos := by
  have hkeeps : Keeps World.rngPos m := fun w => hm () (by simp) w
  exact hkeeps.ok h

theorem undrawn_failIf {c : Prop} [Decidable c] {s : CtapError} : Undrawn (failIf c s) :=
  (@touches_failIf [] c _ s).undrawn (by simp)

theorem undrawn_usageTimeObserver {slot : Slot} : Undrawn (usageTimeObserver slot) := by
  have hclear {f : TokenState → TokenState} : Undrawn (clearInUse slot f) := touches_clearInUse.undrawn (by decide)
  have hstop : Undrawn (stopUsingPinUvAuthToken slot) := touches_modifyTokenState.undrawn (by decide)
  have honly {c : Prop} [Decidable c] {m : CtapM Unit} (hm : Undrawn m) : Undrawn (onlyIf c m) :=
    frames_ite hm frames_pure
  have hemit {e : Event} : Undrawn (emit e) := fun _ _ _ => rfl
  refine frames_get.bind fun _ => frames_ite ?_ hemit
  refine Frames.bind (fun _ _ _ => rfl) fun now => hemit.bind fun _ => frames_get.bind fun _ => ?_
  refine (honly hstop).bind fun _ => frames_get.bind fun _ => (honly hclear).bind fun _ => ?_
  exact frames_get.bind fun _ => frames_ite hstop (touches_modifyTokenState.undrawn (by decide))

theorem undrawn_verifyMakeCredentialAuth {MC : MakeCredential} : Undrawn (verifyMakeCredentialAuth P MC) := by
  have hverify : Undrawn (clientPinVerifyAuth P MC.pinUvAuthParam.param MC.clientDataHash MC.pinProtocol) :=
    undrawn_usageTimeObserver.bind fun _ => frames_get.bind fun _ => undrawn_failIf.bind fun _ =>
      frames_get.bind fun _ => undrawn_failIf.bind fun _ => fun _ _ _ => rfl
  exact frames_get.bind fun _ => frames_ite (undrawn_failIf.bind fun _ => hverify.bind fun _ =>
    frames_get.bind fun _ => undrawn_failIf.bind fun _ => frames_get.bind fun _ => undrawn_failIf) frames_pure

theorem undrawn_ctapUserPresenceTest : Undrawn ctapUserPresenceTest :=
  fun _ _ w => congrArg (·.2.2) (ctapUserPresenceTest_keeps w)

theorem undrawn_ctap2UserPresenceTest : Undrawn ctap2UserPresenceTest := by
  refine undrawn_ctapUserPresenceTest.bind fun r => ?_
  cases r with
  | disabled => exact frames_pure
  | present => exact frames_pure
  | absent => exact frames_pure

theorem undrawn_excludeLoop {h : Bytes 32} {l : Bytes 16} {slot : Slot} {n : Nat} {cred : CredentialDescriptor}
    {it : CborValue} : Undrawn (excludeLoop P h l slot n cred it) := by
  have hcheck {β : Type} {x : Parse β} : Undrawn (ctapCheck x : CtapM β) :=
    (@touches_ctapCheck _ [] x).undrawn (by simp)
  induction n generalizing cred it with
  | zero => exact frames_pure
  | succ n ih =>
    refine hcheck.bind fun cred => frames_get.bind fun w => ?_
    rcases excludeCheck P w h l slot cred with _ | _ | _
    · exact ih
    · exact hcheck.bind fun _ => ih
    · refine Frames.bind (undrawn_ctap2UserPresenceTest.bind fun r => ?_) fun _ => frames_throw
      exact (@touches_checkStatus [] r).undrawn (by simp)

theorem undrawn_checkExcludeList {MC : MakeCredential} {h : Bytes 32} {l : Bytes 16} :
    Undrawn (checkExcludeList P MC h l) := by
  unfold checkExcludeList
  cases MC.excludeList with
  | none => exact frames_pure
  | some it => exact frames_get.bind fun _ => undrawn_excludeLoop

end Draws

/-! ## The next credential ID -/

/-- The count that the next credential carries, and where in the stream of random numbers its nonce starts. -/
def World.nextCount (w : World) : UInt32 × Nat :=
  if w.counter + w.drawnCount = 0 then (w.drawn.drawnCount, w.rngPos + 2)
  else (w.counter + w.drawnCount, w.rngPos + 1)

/-- The ID of the credential that a registration makes. -/
def World.nextCredentialId (P : Platform) (w : World) (MC : MakeCredential) : CredentialId :=
  newCredentialId P w.keys (rpIdLookupOf P.prims w.keys (P.prims.sha256 MC.rp.bytes))
    (streamBytes w.inputs.rng.byte w.nextCount.2 16) w.nextCount.1 MC.credInfo MC.extensions

theorem ctapAtomicCount_eq : ctapAtomicCount 0 w = .ok (w.counter + w.drawnCount) { w.drawn with
    counter := w.counter + w.drawnCount
    trace := w.trace ++ [.counterWritten (w.counter + w.drawnCount)] } := rfl

theorem ctapAuthDataUpdateCount_next {n : UInt32} (h : ctapAuthDataUpdateCount w = .ok n w') :
    n = w.nextCount.1 ∧ w'.rngPos = w.nextCount.2 := by
  unfold ctapAuthDataUpdateCount at h
  rw [bind_of_ok ctapAtomicCount_eq] at h
  unfold World.nextCount
  by_cases hzero : w.counter + w.drawnCount = 0
  · rw [if_pos hzero] at h ⊢
    rw [ctapAtomicCount_eq] at h
    obtain ⟨rfl, rfl⟩ := EStateM.Result.ok.inj h
    refine ⟨?_, rfl⟩
    show w.counter + w.drawnCount + w.drawn.drawnCount = w.drawn.drawnCount
    rw [hzero, UInt32.zero_add]
  · rw [if_neg hzero] at h ⊢
    obtain ⟨rfl, rfl⟩ := EStateM.Result.ok.inj h
    exact ⟨rfl, rfl⟩

theorem makeAuthDataHeader_next {h : Bytes 32} {head : AuthDataHeader} {n : UInt32}
    (hok : makeAuthDataHeader .scratch h w = .ok (head, n) w') : n = w.nextCount.1 ∧ w'.rngPos = w.nextCount.2 := by
  unfold makeAuthDataHeader at hok
  rw [get_bind, bind_of_ok (show putHead .scratch _ w = .ok () w from rfl), bind_eq_ok] at hok
  obtain ⟨count, w₁, hcount, hok⟩ := hok
  obtain ⟨hn, hpos⟩ := ctapAuthDataUpdateCount_next hcount
  rw [bind_of_ok (show putHead .scratch _ w₁ = .ok () w₁ from rfl), bind_eq_ok] at hok
  obtain ⟨up, w₂, hup, hok⟩ := hok
  have hpos₂ : w₂.rngPos = w₁.rngPos := Frames.rngPos_ok undrawn_ctap2UserPresenceTest hup
  obtain ⟨_, w₃, hcheck, hok⟩ := bind_eq_ok.mp hok
  have hpos₃ : w₃.rngPos = w₂.rngPos := by
    have hundrawn : Undrawn (onlyIf (up ≠ .error .userPresenceDisabled) (checkStatus up)) :=
      frames_ite ((@touches_checkStatus [] up).undrawn (by simp)) frames_pure
    exact Frames.rngPos_ok hundrawn hcheck
  rw [get_bind, bind_of_ok (show putHead .scratch _ w₃ = .ok () w₃ from rfl)] at hok
  obtain ⟨heq, rfl⟩ := pure_eq_ok.mp hok
  obtain ⟨-, rfl⟩ := Prod.mk.inj heq
  exact ⟨hn, hpos₃.trans (hpos₂.trans hpos)⟩

/-! ## The public key in a response -/

/-- An ES256 key as COSE has it. -/
def coseKeyEs256 (pub : Bytes 64) : List UInt8 :=
  [0xa5, 0x01, 0x02, 0x03, 0x26, 0x20, 0x01, 0x21, 0x58, 0x20] ++ (pub.slice 0 32).toList
    ++ [0x22, 0x58, 0x20] ++ (pub.slice 32 32).toList

theorem appends_coseKeyEs256 (pub : Bytes 64) :
    Appends 1 (coseKeyEs256 pub) (coseKeyAdd · (pub.slice 0 32) (pub.slice 32 32) .es256) := by
  have hstring (s : Bytes 32) : Appends 1 ([0x58, 0x20] ++ s.toList) (·.byteString s.toList) := by
    have hs := appends_byteString (s := s.toList)
    rwa [List.Vector.toList_length] at hs
  have hmap := Appends.map (k := 5) (appends_int (v := 1) |>.andThen <| appends_int (v := 2) |>.andThen <|
    appends_int (v := 3) |>.andThen <| appends_int (v := -7) |>.andThen <| appends_int (v := -1) |>.andThen <|
    appends_int (v := 1) |>.andThen <| appends_int (v := -2) |>.andThen <|
    hstring (pub.slice 0 32) |>.andThen <| appends_int (v := -3) |>.andThen <|
    hstring (pub.slice 32 32))
  have hbytes : coseKeyEs256 pub = numberBytes 5 5 ++ (intBytes 1 ++ (intBytes 2 ++ (intBytes 3 ++
      (intBytes (-7) ++ (intBytes (-1) ++ (intBytes 1 ++ (intBytes (-2) ++
      ([0x58, 0x20] ++ (pub.slice 0 32).toList ++ (intBytes (-3) ++
      ([0x58, 0x20] ++ (pub.slice 32 32).toList)))))))))) := by
    unfold coseKeyEs256
    simp only [List.append_assoc]
    rfl
  rw [hbytes]
  refine hmap.congr fun e => ?_
  simp only [bind_assoc]
  rfl

theorem length_coseKeyEs256 (pub : Bytes 64) : (coseKeyEs256 pub).length = 77 := by simp [coseKeyEs256]

variable {MC : MakeCredential} {h : Bytes 32} {l : Bytes 16}

theorem coseKeyGenerate_es256 {data : List UInt8} {e : Encoder}
    (hok : coseKeyGenerate P (Encoder.init 198) data .pubKey (some .es256) w = .ok e w') :
    ∃ pub, PublicKeyFrom P (cryptoDeriveCredentialKey P.prims w.keys data) pub ∧ e.out = coseKeyEs256 pub := by
  unfold coseKeyGenerate at hok
  rw [if_neg (by simp)] at hok
  obtain ⟨pub, w₁, hpub, hok⟩ := bind_eq_ok.mp hok
  obtain ⟨rfl, -⟩ := pure_eq_ok.mp hok
  obtain ⟨e, he, hout⟩ := appends_init (appends_coseKeyEs256 pub) (show _ ≤ 198 by rw [length_coseKeyEs256]; decide)
  refine ⟨pub, cryptoEcc256DerivePublicKey_ok hpub, ?_⟩
  rw [he]
  exact hout

/-- A new credential: it is stored if it is discoverable, and its key stands behind its ID. -/
theorem makeAttestedData_ok {rp : RpId} {n : UInt32} {c : CredInfo} {e : Extensions} {a : List UInt8} {id : CredentialId}
    (hid : id = newCredentialId P w.keys l (streamBytes w.inputs.rng.byte w.rngPos 16) n c e)
    (hok : makeAttestedData P rp h l n c e w = .ok a w') : ∃ cose w₁,
      onlyIf c.rk (storeResidentKey P rp h id c.user) { w with rngPos := w.rngPos + 16 } = .ok () w₁ ∧
        w₁.keys = w.keys ∧
        coseKeyGenerate P (Encoder.init 198) id.raw.toList c.publicKeyCredentialType c.coseAlgorithmIdentifier w₁
          = .ok cose w' ∧
        a = aaguid ++ [0, 57] ++ id.raw.toList ++ cose.out := by
  subst hid
  unfold makeAttestedData at hok
  rw [get_bind, bind_of_ok (show ctapGenerateRng 16 w = .ok _ { w with rngPos := w.rngPos + 16 } from rfl)] at hok
  obtain ⟨⟨⟩, w₁, hstore, hok⟩ := bind_eq_ok.mp hok
  have hkept := (touches_onlyIf touches_storeResidentKey .keys (by decide)).ok hstore
  have hkeys : w₁.keys = w.keys := hkept
  obtain ⟨cose, w₂, hcose, hok⟩ := bind_eq_ok.mp hok
  obtain ⟨rfl, rfl⟩ := pure_eq_ok.mp hok
  exact ⟨cose, w₁, hstore, hkeys, hcose, rfl⟩

/-- The authenticator data of a registration. -/
structure NewCredential (P : Platform) (MC : MakeCredential) (h : Bytes 32) (id : CredentialId) (a : List UInt8)
    (w w' : World) (cose : List UInt8) : Prop where
  stored : ∃ w₁ w₂, w₁.rkChanges = w.rkChanges ∧ w₁.keys = w.keys ∧ w'.rkChanges = w₂.rkChanges ∧
    onlyIf MC.credInfo.rk (storeResidentKey P MC.rp h id MC.credInfo.user) w₁ = .ok () w₂
  generated : ∃ w₁ w₂ e, w₁.keys = w.keys ∧ e.out = cose ∧ coseKeyGenerate P (Encoder.init 198) id.raw.toList
    MC.credInfo.publicKeyCredentialType MC.credInfo.coseAlgorithmIdentifier w₁ = .ok e w₂
  bytes : ∃ ext, a.drop 55 = id.raw.toList ++ cose ++ ext

theorem makeCredentialAuthData_ok {a : List UInt8}
    (hl : l = rpIdLookupOf P.prims w.keys (P.prims.sha256 MC.rp.bytes))
    (hok : makeCredentialAuthData P MC h l w = .ok a w') :
    ∃ cose, NewCredential P MC h (w.nextCredentialId P MC) a w w' cose := by
  unfold makeCredentialAuthData ctapMakeAuthData at hok
  obtain ⟨⟨head, attested⟩, w₂, hauth, hok⟩ := bind_eq_ok.mp hok
  obtain ⟨⟨head₀, n⟩, w₁, hhead, hattested⟩ := bind_eq_ok.mp hauth
  obtain ⟨rfl, hpos⟩ := makeAuthDataHeader_next hhead
  have hkeys : w₁.keys = w.keys := (touches_makeAuthDataHeader .scratch .keys (by decide)).ok hhead
  have hchanges : w₁.rkChanges = w.rkChanges := (touches_makeAuthDataHeader .scratch .rkChanges (by decide)).ok hhead
  have hinputs : w₁.inputs = w.inputs :=
    congrArg (·.2.2.2) ((touches_makeAuthDataHeader .scratch .fixed (by decide)).ok hhead)
  obtain ⟨data, w₃, hdata, hattested⟩ := bind_eq_ok.mp hattested
  obtain ⟨heq, rfl⟩ := pure_eq_ok.mp hattested
  obtain ⟨rfl, rfl⟩ := Prod.mk.inj heq
  have hid : w.nextCredentialId P MC = newCredentialId P w₁.keys l (streamBytes w₁.inputs.rng.byte w₁.rngPos 16)
      w.nextCount.1 MC.credInfo MC.extensions := by
    rw [hkeys, hinputs, hpos, hl]
    rfl
  obtain ⟨cose, w₄, hstore, hkeys₄, hcose, rfl⟩ := makeAttestedData_ok hid hdata
  have hchanges₃ : w₂.rkChanges = w₄.rkChanges := (touches_coseKeyGenerate .rkChanges (by decide)).ok hcose
  dsimp only at hok
  obtain ⟨_, w₅, hclear, hok⟩ := bind_eq_ok.mp hok
  have hchanges₅ : w₅.rkChanges = w₂.rkChanges := (touches_clearPinFlags .rkChanges (by decide)).ok hclear
  obtain ⟨ext, w₆, hext, hok⟩ := bind_eq_ok.mp hok
  have hchanges₆ : w₆.rkChanges = w₅.rkChanges := (touches_ctapExtensionsEncodeOutput .rkChanges (by decide)).ok hext
  obtain ⟨rfl, rfl⟩ := pure_eq_ok.mp hok
  refine ⟨cose.out, ⟨⟨{ w₁ with rngPos := w₁.rngPos + 16 }, w₄, hchanges, hkeys, ?_, hstore⟩, ⟨w₄, w₂, cose, hkeys₄.trans hkeys, rfl, hcose⟩, ext, ?_⟩⟩
  · rw [hchanges₆, hchanges₅, hchanges₃]
  · have hdrop (head' : AuthDataHeader) (rest : List UInt8) :
        (head'.bytes ++ (aaguid ++ [0, 57] ++ rest) ++ ext).drop 55 = rest ++ ext := by
      have hpre : (head'.bytes ++ (aaguid ++ [0, 57])).length = 55 := by
        simp [AuthDataHeader.bytes, aaguid]
      rw [← List.append_assoc head'.bytes, List.append_assoc, List.drop_left' hpre]
    rw [List.append_assoc (aaguid ++ [0, 57])]
    exact hdrop _ _

/-- The response of a registration with this credential ID and this public key in its authenticator data. -/
def RegistersKey (out : List UInt8) (id : CredentialId) (pub : Bytes 64) : Prop :=
  ∃ packed authData ext rest, out = (formatEncoder packed).out ++ (authDataBytes authData ++ rest) ∧
    authData.drop 55 = id.raw.toList ++ coseKeyEs256 pub ++ ext

/-- What a successful registration makes. -/
theorem ctapMakeCredential_new {request out : List UInt8} (hparse : parseMakeCredential request = .ok MC)
    (hok : ctapMakeCredential P request w = .ok out w') :
    MC.pubKeyCredParamsParsed = true ∧ ∃ packed authData rest cose w₁ w₂, w₁.keys = w.keys ∧
      w₁.rkChanges = w.rkChanges ∧ w'.rkChanges = w₂.rkChanges ∧
      NewCredential P MC (P.prims.sha256 MC.rp.bytes) (w.nextCredentialId P MC) authData w₁ w₂ cose ∧
      out = (formatEncoder packed).out ++ (authDataBytes authData ++ rest) := by
  rw [ctapMakeCredential_eq, bind_eq_ok] at hok
  obtain ⟨⟨MC', h, l⟩, w₁, hchecks, hok⟩ := hok
  rw [bind_eq_ok] at hok
  obtain ⟨_, w₂, hlist, hok⟩ := hok
  have hchecked := makeCredentialChecks_ok hchecks
  obtain rfl : MC' = MC := Except.ok.inj (hchecked.parse.symm.trans hparse)
  have hMC := parseMakeCredential_ok hparse
  -- the checks and the exclude list leave alone what the ID is made from
  have hkeys : w₂.keys = w.keys :=
    ((touches_checkExcludeList .keys (by decide)).ok hlist).trans (hchecked.kept (p := .keys) (by decide))
  have hchanges : w₂.rkChanges = w.rkChanges :=
    ((touches_checkExcludeList .rkChanges (by decide)).ok hlist).trans (hchecked.kept (p := .rkChanges) (by decide))
  have hcounter : w₂.counter = w.counter :=
    ((touches_checkExcludeList .counter (by decide)).ok hlist).trans (hchecked.kept (p := .counter) (by decide))
  have hinputs : w₂.inputs = w.inputs := congrArg (·.2.2.2)
    (((touches_checkExcludeList .fixed (by decide)).ok hlist).trans (hchecked.kept (p := .fixed) (by decide)))
  have hpos : w₂.rngPos = w.rngPos := (Frames.rngPos_ok undrawn_checkExcludeList hlist).trans
    (Frames.rngPos_ok undrawn_verifyMakeCredentialAuth hchecked.verify)
  have hid : w₂.nextCredentialId P MC' = w.nextCredentialId P MC' := by
    unfold World.nextCredentialId World.nextCount World.drawnCount World.drawn
    rw [hkeys, hcounter, hinputs, hpos]
  obtain ⟨authData, rest, w₃, hauth, hlast, hout⟩ := makeCredentialResponse_authData hMC hchecked.params hok
  have hlookup : l = rpIdLookupOf P.prims w₂.keys (P.prims.sha256 MC'.rp.bytes) := by
    rw [hchecked.lookup, hchecked.hash, hkeys]
  obtain ⟨cose, hnew⟩ := makeCredentialAuthData_ok hlookup hauth
  rw [hid, hchecked.hash] at hnew
  exact ⟨hchecked.params, _, authData, rest, cose, w₂, w₃, hkeys, hchanges, hlast .rkChanges (by decide), hnew, hout⟩

theorem ctapMakeCredential_registersKey {request out : List UInt8} (hparse : parseMakeCredential request = .ok MC)
    (hes : MC.credInfo.coseAlgorithmIdentifier = some .es256) (hok : ctapMakeCredential P request w = .ok out w') :
    ∃ pub, RegistersKey out (w.nextCredentialId P MC) pub ∧
      PublicKeyFrom P (cryptoDeriveCredentialKey P.prims w.keys (w.nextCredentialId P MC).raw.toList) pub := by
  obtain ⟨hparams, packed, authData, rest, cose, w₁, w₂, hkeys, -, -, hnew, hout⟩ := ctapMakeCredential_new hparse hok
  obtain ⟨w₃, w₄, e, hkeys₃, rfl, hcose⟩ := hnew.generated
  obtain ⟨ext, hdata⟩ := hnew.bytes
  rw [((parseMakeCredential_ok hparse).algorithm hparams).1, hes] at hcose
  obtain ⟨pub, hpub, hcose'⟩ := coseKeyGenerate_es256 hcose
  rw [hcose'] at hdata
  rw [hkeys₃, hkeys] at hpub
  exact ⟨pub, ⟨packed, authData, ext, rest, hout, hdata⟩, hpub⟩

/-! ## Usable keys -/

/-- What a relying party and the device rely on: the private key behind an ID is a scalar of the group, the
public key that was returned for it is a point of the curve, and signing with the ID does not stop the device
while the random numbers serve. -/
structure KeyUsable (P : Platform) (k : SessionKeys) (id : List UInt8) (pub : Bytes 64) : Prop where
  inRange : 1 ≤ scalarOf (cryptoDeriveCredentialKey P.prims k id) ∧
    scalarOf (cryptoDeriveCredentialKey P.prims k id) ≤ groupOrder - 1
  onCurve : validPublicKey pub = true
  signs : ∀ (hash : Bytes 32) (w : World), ServesEcc (fun i => w.inputs.rng.byte (w.rngPos + i)) →
    ∃ sig w', cryptoEcc256Sign P (cryptoDeriveCredentialKey P.prims k id) hash w = .ok sig w'

variable {k : SessionKeys} {id : List UInt8} {pub : Bytes 64}

/-- Signing never depends on the scalar. -/
theorem cryptoEcc256Sign_serves (hecc : P.prims.EccWorks) {key hash : Bytes 32}
    (hserves : ServesEcc fun i => w.inputs.rng.byte (w.rngPos + i)) :
    ∃ sig w', cryptoEcc256Sign P key hash w = .ok sig w' := by
  obtain ⟨sig, hsig⟩ := Option.ne_none_iff_exists'.mp (hecc.signs key hash _ hserves)
  unfold cryptoEcc256Sign
  rw [bind_of_ok (m := drawing _) rfl, hsig]
  exact ⟨_, _, rfl⟩

theorem keyUsable_iff (hecc : P.prims.EccWorks)
    (hpub : PublicKeyFrom P (cryptoDeriveCredentialKey P.prims k id) pub) :
    KeyUsable P k id pub ↔ LadderScalar (cryptoDeriveCredentialKey P.prims k id) := by
  obtain ⟨random, rfl⟩ := hpub
  constructor
  · intro husable
    by_contra hno
    have hzero := husable.onCurve
    rw [hecc.noPoint _ _ hno, Option.getD_none, not_validPublicKey_zero] at hzero
    exact Bool.false_ne_true hzero
  · intro hscalar
    obtain ⟨pub, hsome, hvalid⟩ := hecc.point _ random hscalar
    refine ⟨isValidScalar_iff.mp hscalar.isValidScalar, ?_, fun hash w => cryptoEcc256Sign_serves hecc⟩
    rw [hsome, Option.getD_some]
    exact hvalid

/-- A registration returns a usable key exactly where the HMAC of the new ID is a scalar that the ladder of
`uECC_compute_public_key` comes to an end for; in every other case it succeeds as well. -/
theorem registered_key_usable_iff (P : Platform) (hecc : P.prims.EccWorks) :
    (∀ (request out : List UInt8) (w w' : World) (MC : MakeCredential), parseMakeCredential request = .ok MC →
      MC.credInfo.coseAlgorithmIdentifier = some .es256 → ctapMakeCredential P request w = .ok out w' →
        ∃ pub, RegistersKey out (w.nextCredentialId P MC) pub ∧
          (KeyUsable P w.keys (w.nextCredentialId P MC).raw.toList pub ↔
            LadderScalar (cryptoDeriveCredentialKey P.prims w.keys (w.nextCredentialId P MC).raw.toList))) ∧
    ∀ (b : CtapBuffer) (w w' : World) (reply : U2fReply), u2fRegister P b w = .ok reply w' →
      reply.rcode = u2fSwNoError →
        ∃ pub rest, reply.out = [5, 4] ++ pub.toList ++ [48] ++ w.nextKeyHandle P b.app ++ rest ∧
          (KeyUsable P w.keys (w.nextKeyHandle P b.app) pub ↔
            LadderScalar (cryptoDeriveCredentialKey P.prims w.keys (w.nextKeyHandle P b.app))) := by
  constructor
  · intro request out w w' MC hparse hes hok
    obtain ⟨pub, hreg, hpub⟩ := ctapMakeCredential_registersKey hparse hes hok
    exact ⟨pub, hreg, keyUsable_iff hecc hpub⟩
  · intro b w w' reply hok hdone
    obtain ⟨pub, rest, hpub, hout⟩ := u2fRegister_output hok hdone
    exact ⟨pub, rest, hout, keyUsable_iff hecc hpub⟩

/-! ## Two devices -/

/-- The double of the base point. -/
def doubledBase : Bytes 64 := Bytes.ofList 64
  [0x7c, 0xf2, 0x7b, 0x18, 0x8d, 0x03, 0x4f, 0x7e, 0x8a, 0x52, 0x38, 0x03, 0x04, 0xb5, 0x1a, 0xc3,
    0xc0, 0x89, 0x69, 0xe2, 0x77, 0xf2, 0x1b, 0x35, 0xa6, 0x0b, 0x48, 0xfc, 0x47, 0x66, 0x99, 0x78,
    0x07, 0x77, 0x55, 0x10, 0xdb, 0x8e, 0xd0, 0x40, 0x29, 0x3d, 0x9a, 0xc6, 0x9f, 0x74, 0x30, 0xdb,
    0xba, 0x7d, 0xad, 0xe6, 0x3c, 0xe9, 0x82, 0x29, 0x9e, 0x04, 0xb7, 0x9d, 0x22, 0x78, 0x73, 0xd1]

/-- A device whose hash function has one value. -/
def constantHash (value : Bytes 32) : Platform := { simPlatform with
  prims := { simPrimitives with
    sha256 := fun _ => value
    eccPublicKey := fun k _ => (if LadderScalar k then some doubledBase else none, 0) } }

theorem constantHash_eccWorks (value : Bytes 32) : (constantHash value).prims.EccWorks where
  point k random hk := ⟨doubledBase, if_pos hk, by decide +kernel⟩
  noPoint k random hk := if_neg hk
  signs k hash random _ := by simp [constantHash, simPrimitives]

/-- The device after its first start. -/
def constantHashStart (value : Bytes 32) : World :=
  final (ctapInit (constantHash value)) ((certifiedNew.powerOn 0).withInputs (simInputs fun _ => true))

def scalarTwo : Bytes 32 := Bytes.ofList 32 (List.replicate 31 0 ++ [2])

theorem plainRequest_parses : ∃ MC, parseMakeCredential plainRequest = .ok MC ∧
    MC.credInfo.coseAlgorithmIdentifier = some .es256 := by
  obtain ⟨MC, hparse, hes⟩ := parse_of_test (x := parseMakeCredential plainRequest)
    (p := fun MC => MC.credInfo.coseAlgorithmIdentifier = some .es256) (by decide +kernel)
  exact ⟨MC, hparse, of_decide_eq_true hes⟩

/-- Where all hashes are 2, the keys of credentials are 2. -/
theorem registered_key_usable_iff_two : ∃ (out : List UInt8) (w' w'' : World) (MC : MakeCredential) (reply : U2fReply)
    (pub pub' : Bytes 64) (rest : List UInt8),
    ctapMakeCredential (constantHash scalarTwo) plainRequest (constantHashStart scalarTwo) = .ok out w' ∧
      RegistersKey out ((constantHashStart scalarTwo).nextCredentialId (constantHash scalarTwo) MC) pub ∧
      KeyUsable (constantHash scalarTwo) (constantHashStart scalarTwo).keys
        ((constantHashStart scalarTwo).nextCredentialId (constantHash scalarTwo) MC).raw.toList pub ∧
      u2fRegister (constantHash scalarTwo) registerApdu (constantHashStart scalarTwo) = .ok reply w'' ∧
      reply.out = [5, 4] ++ pub'.toList ++ [48]
        ++ (constantHashStart scalarTwo).nextKeyHandle (constantHash scalarTwo) registerApdu.app ++ rest ∧
      KeyUsable (constantHash scalarTwo) (constantHashStart scalarTwo).keys
        ((constantHashStart scalarTwo).nextKeyHandle (constantHash scalarTwo) registerApdu.app) pub' := by
  have hladder (k : SessionKeys) (data : List UInt8) :
      LadderScalar (cryptoDeriveCredentialKey (constantHash scalarTwo).prims k data) := by
    show LadderScalar scalarTwo
    decide +kernel
  obtain ⟨MC, hparse, hes⟩ := plainRequest_parses
  obtain ⟨out, w', hok, -⟩ := runTest_ok (m := ctapMakeCredential (constantHash scalarTwo) plainRequest)
    (p := fun _ _ => true) (w := constantHashStart scalarTwo) (by decide +kernel)
  obtain ⟨reply, w'', hreg, hdone⟩ := runTest_ok (m := u2fRegister (constantHash scalarTwo) registerApdu)
    (p := fun reply _ => reply.rcode = u2fSwNoError) (w := constantHashStart scalarTwo) (by decide +kernel)
  obtain ⟨hcredential, hhandle⟩ := registered_key_usable_iff _ (constantHash_eccWorks scalarTwo)
  obtain ⟨pub, hregisters, husable⟩ := hcredential _ _ _ _ MC hparse hes hok
  obtain ⟨pub', rest, hout, husable'⟩ := hhandle _ _ _ _ hreg (of_decide_eq_true hdone)
  exact ⟨out, w', w'', MC, reply, pub, pub', rest, hok, hregisters, husable.mpr (hladder _ _), hreg, hout,
    husable'.mpr (hladder _ _)⟩

/-- Where a hash is 0, a registration succeeds with a credential whose private key is 0 and whose public key is no
point. -/
theorem registered_key_of_zero_scalar : ∃ (out : List UInt8) (w' : World) (MC : MakeCredential) (pub : Bytes 64),
    ctapMakeCredential (constantHash (Bytes.zero 32)) plainRequest (constantHashStart (Bytes.zero 32)) = .ok out w' ∧
      parseMakeCredential plainRequest = .ok MC ∧ MC.credInfo.coseAlgorithmIdentifier = some .es256 ∧
      RegistersKey out ((constantHashStart (Bytes.zero 32)).nextCredentialId (constantHash (Bytes.zero 32)) MC) pub ∧
      isValidScalar (cryptoDeriveCredentialKey (constantHash (Bytes.zero 32)).prims
        (constantHashStart (Bytes.zero 32)).keys
        ((constantHashStart (Bytes.zero 32)).nextCredentialId (constantHash (Bytes.zero 32)) MC).raw.toList) = false ∧
      validPublicKey pub = false := by
  obtain ⟨MC, hparse, hes⟩ := plainRequest_parses
  obtain ⟨out, w', hok, -⟩ := runTest_ok (m := ctapMakeCredential (constantHash (Bytes.zero 32)) plainRequest)
    (p := fun _ _ => true) (w := constantHashStart (Bytes.zero 32)) (by decide +kernel)
  obtain ⟨pub, hregisters, random, hpub⟩ := ctapMakeCredential_registersKey hparse hes hok
  have hzero : pub = Bytes.zero 64 := by
    rw [hpub]
    show Option.getD (if LadderScalar (Bytes.zero 32) then some doubledBase else none) _ = _
    rw [if_neg (by decide +kernel)]
    rfl
  refine ⟨out, w', MC, pub, hok, hparse, hes, hregisters, ?_, ?_⟩
  · show isValidScalar (Bytes.zero 32) = false
    decide +kernel
  · rw [hzero]
    exact not_validPublicKey_zero

end TkeyFido2
