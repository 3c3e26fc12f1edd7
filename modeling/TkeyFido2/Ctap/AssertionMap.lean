import TkeyFido2.Cbor.Output
import TkeyFido2.Ctap.NextAssertion

/-!
# The response map of an assertion

`ctap_get_assertion` announces the size of its map before it encodes the pairs, and takes one of the
conditions for it from the last of the matching credentials, while the pairs are those of the first.
`ctap_get_next_assertion` takes both from one credential.
-/

namespace TkeyFido2

namespace Cbor.Encoder

/-- The bytes of the pairs of a map. -/
def pairsBytes (pairs : List (Int × List UInt8)) : List UInt8 :=
  (pairs.map fun p => intBytes p.1 ++ p.2).flatten

/-- The encoder behind these pairs. -/
def putPairs (e : Encoder) (pairs : List (Int × List UInt8)) : Encoder :=
  e.put (2 * pairs.length) (pairsBytes pairs)

theorem putPairs_putPairs (e : Encoder) (l l' : List (Int × List UInt8)) :
    (e.putPairs l).putPairs l' = e.putPairs (l ++ l') := by
  unfold putPairs pairsBytes
  rw [put_put, List.length_append, Nat.mul_add, List.map_append, List.flatten_append]

theorem putPairs_cons (e : Encoder) (p : Int × List UInt8) (l : List (Int × List UInt8)) :
    (e.putPairs [p]).putPairs l = e.putPairs (p :: l) := putPairs_putPairs e [p] l

/-- A container closes behind the number of pairs that was announced. -/
theorem close_putPairs_iff {e map : Encoder} {n : Nat} {pairs : List (Int × List UInt8)}
    (hmap : map.remaining = 2 * n + 1) :
    (∃ e', e.close (map.putPairs pairs) = .ok e') ↔ n = pairs.length := by
  have hleft : (map.putPairs pairs).remaining = 2 * n + 1 - 2 * pairs.length := by
    rw [← hmap]
    rfl
  unfold close
  rw [hleft]
  by_cases h : n = pairs.length
  · rw [if_neg (by omega)]
    exact ⟨fun _ => h, fun _ => ⟨_, rfl⟩⟩
  · rw [if_pos (by omega)]
    exact ⟨fun ⟨_, he⟩ => absurd he (by simp), fun hn => absurd hn h⟩

theorem remaining_createMap {e map : Encoder} {n : Nat} (h : e.createMap n = .ok map) :
    map.remaining = 2 * n + 1 := by
  rw [((appends_bytes (d := numberBytes n 5)).of_ok h).2]
  rfl

end Cbor.Encoder

open Cbor Prog Encoder

variable {P : Platform} {w w' : World}

/-! ## Values -/

/-- A credential ID as a public key credential descriptor. -/
def descriptorBytes (cred : CredentialDescriptor) : List UInt8 :=
  numberBytes 2 5 ++ (numberBytes 2 3 ++ ascii "id" ++ (numberBytes cred.idBytes.length 2 ++ cred.idBytes
    ++ (numberBytes 4 3 ++ ascii "type" ++ (numberBytes 10 3 ++ ascii "public-key"))))

theorem appends_descriptor {cred : CredentialDescriptor} :
    Appends 1 (descriptorBytes cred) (ctapCborEncodeCredentialDescriptor · cred) := by
  refine (Appends.map (k := 2) (appends_textString (s := ascii "id") |>.andThen <|
    appends_byteString (s := cred.idBytes) |>.andThen <| appends_textString (s := ascii "type") |>.andThen <|
    appends_textString (s := ascii "public-key"))).congr fun e => ?_
  unfold ctapCborEncodeCredentialDescriptor
  simp only [bind_assoc]

/-- The names of a user entity. -/
def userNames (user : UserEntity) : List UInt8 :=
  numberBytes 4 3 ++ ascii "name" ++ (numberBytes (cstr user.name.toList).length 3 ++ cstr user.name.toList
    ++ (numberBytes 11 3 ++ ascii "displayName"
      ++ (numberBytes (cstr user.displayName.toList).length 3 ++ cstr user.displayName.toList)))

/-- A user entity, with its names or without. -/
def userEntityBytes (user : UserEntity) (isVerified : Bool) : List UInt8 :=
  let dispname : Bool := user.name.byte 0 ≠ 0 ∧ isVerified
  let id := user.id.toList.take user.idSize.toNat
  numberBytes (if dispname then 3 else 1) 5 ++ (numberBytes 2 3 ++ ascii "id" ++ (numberBytes id.length 2 ++ id
    ++ if dispname then userNames user else []))

theorem appends_userEntity {user : UserEntity} {isVerified : Bool} :
    Appends 1 (userEntityBytes user isVerified) (ctapCborEncodeUserEntity · user isVerified) := by
  unfold userEntityBytes ctapCborEncodeUserEntity
  by_cases hname : decide (user.name.byte 0 ≠ 0 ∧ isVerified = true) = true
  · dsimp only
    rw [hname]
    refine (Appends.map (k := 3) (appends_textString (s := ascii "id") |>.andThen <|
      appends_byteString |>.andThen <| appends_textString (s := ascii "name") |>.andThen <|
      appends_textString |>.andThen <| appends_textString (s := ascii "displayName") |>.andThen <|
      appends_textString)).congr fun e => ?_
    simp only [bind_assoc, if_true]
  · dsimp only
    rw [Bool.eq_false_iff.mpr hname]
    refine (Appends.map (k := 1) (appends_textString (s := ascii "id") |>.andThen <|
      appends_byteString.andThen appends_nothing)).congr fun e => ?_
    simp only [bind_assoc, Bool.false_eq_true, if_false]
    rfl

/-- The pairs in the response for a credential. -/
def assertionPairs (cred : CredentialDescriptor) (authData sig : List UInt8) (isVerified : Bool) :
    List (Int × List UInt8) :=
  [(1, descriptorBytes cred), (2, numberBytes authData.length 2 ++ authData),
    (3, numberBytes sig.length 2 ++ sig)]
    ++ if cred.user.idSize ≠ 0 then [(4, userEntityBytes cred.user isVerified)] else []

/-- The pair with the number of credentials, where there are several. -/
def countPairs (validCredCount : Nat) : List (Int × List UInt8) :=
  if 1 < validCredCount then [(5, intBytes validCredCount)] else []

/-- A key and its value, encoded by two calls. -/
theorem encode_pair_ok (key : Int) {value : List UInt8} {f : Encoder → EncM Encoder} {e e' : Encoder}
    (hf : Appends 1 value f) (h : (encode (e.int key) >>= fun map => encode (f map)) w = .ok e' w') :
    e' = e.putPairs [(key, value)] ∧ w' = w := by
  obtain ⟨map, w₁, hkey, h⟩ := bind_eq_ok.mp h
  have hw₁ := encode_ok hkey
  subst hw₁
  obtain ⟨-, rfl⟩ := (appends_int (v := key)).of_ok (encCheck_eq_ok.mp (ctapCheck_eq_ok.mp hkey).1)
  obtain ⟨-, rfl⟩ := hf.of_ok (encCheck_eq_ok.mp (ctapCheck_eq_ok.mp h).1)
  refine ⟨?_, encode_ok h⟩
  rw [put_put, putPairs, pairsBytes, List.map_cons, List.map_nil, List.flatten_cons, List.flatten_nil,
    List.append_nil]
  rfl

/-- What `ctap_get_assertion_cbor_encode_assertion_response` adds to the map. -/
theorem encodeAssertionResponse_pairs {map map' : Encoder} {cred : CredentialDescriptor}
    {authData : List UInt8} {hash : Bytes 32}
    (h : encodeAssertionResponse P map cred authData hash w = .ok map' w') :
    ∃ (sig : List UInt8) (isVerified : Bool),
      map' = map.putPairs (assertionPairs cred authData sig isVerified) := by
  unfold encodeAssertionResponse at h
  rw [← bind_assoc, bind_eq_ok] at h
  obtain ⟨map₁, w₁, h₁, h⟩ := h
  obtain ⟨rfl, rfl⟩ := encode_pair_ok 1 appends_descriptor h₁
  rw [← bind_assoc, bind_eq_ok] at h
  obtain ⟨map₂, w₂, h₂, h⟩ := h
  obtain ⟨rfl, rfl⟩ := encode_pair_ok 2 appends_byteString h₂
  rw [get_bind, bind_eq_ok] at h
  obtain ⟨sig, w₃, -, h⟩ := h
  rw [bind_eq_ok] at h
  obtain ⟨⟨⟩, w₄, -, h⟩ := h
  rw [← bind_assoc, bind_eq_ok] at h
  obtain ⟨map₃, w₅, h₃, h⟩ := h
  obtain ⟨rfl, rfl⟩ := encode_pair_ok 3 appends_byteString h₃
  unfold assertionPairs
  rw [putPairs_cons, putPairs_putPairs] at h
  rcases ite_eq_ok.mp h with ⟨hid, huser⟩ | ⟨hid, h⟩
  · rw [bind_eq_ok] at huser
    obtain ⟨map₄, w₆, h₄, huser⟩ := huser
    rw [get_bind] at huser
    obtain ⟨rfl, -⟩ := encode_pair_ok 4 appends_userEntity
      (bind_eq_ok.mpr ⟨map₄, w₆, h₄, huser⟩)
    refine ⟨sig, decide (w₆.ga.userVerified ≠ 0), ?_⟩
    rw [if_pos hid, putPairs_putPairs]
    rfl
  · obtain ⟨rfl, -⟩ := pure_eq_ok.mp h
    refine ⟨sig, true, ?_⟩
    rw [if_neg hid, List.append_nil]
    rfl

theorem encodeCount_pairs {map map' : Encoder} {n : Nat} (h : encodeCount map n w = .ok map' w') :
    map' = map.putPairs (countPairs n) ∧ w' = w := by
  unfold encodeCount at h
  unfold countPairs
  rcases ite_eq_ok.mp h with ⟨hn, h⟩ | ⟨hn, h⟩
  · rw [if_pos hn]
    exact encode_pair_ok 5 appends_int h
  · obtain ⟨rfl, rfl⟩ := pure_eq_ok.mp h
    rw [if_neg hn]
    refine ⟨?_, rfl⟩
    unfold putPairs pairsBytes put
    simp

/-! ## The stages of the commands -/

/-- Encoding does not change the state. -/
theorem encode_bind_congr {α β : Type} {x : EncM α} {k k' : α → CtapM β} (h : ∀ a, k a w = k' a w) :
    (encode x >>= k) w = (encode x >>= k') w := by
  unfold encode
  cases encCheck x with
  | ok a => exact h a
  | error e => rfl

section Stages

variable (P)

/-- `ctap_get_assertion` up to the list of matching credentials: the request, the hash and the lookup MAC of
its RP ID, and `validCredCount`. -/
def matchCredentials (request : List UInt8) : CtapM (GetAssertion × Bytes 32 × Bytes 16 × Nat) := do
  let GA ← parseGetAssertionRequest request
  onlyIf GA.pinUvAuthParam.empty selectByTouch
  failIf (GA.rp.size = 0 ∨ ¬ GA.clientDataHashPresent) .missingParameter
  let (rpIdHash, rpIdLookup) := ctapDeriveRpIdInfo P.prims (← get).keys GA.rp.bytes
  verifyGetAssertionAuth P GA rpIdHash
  let validCredCount ← buildFilteredCredentialList P GA rpIdHash rpIdLookup
  failIf (validCredCount = 0) .noCredentials
  pure (GA, rpIdHash, rpIdLookup, validCredCount)

/-- `ctap_get_assertion` between the opening of its map and the closing. -/
def fillAssertionMap (GA : GetAssertion) (rpIdHash : Bytes 32) (rpIdLookup : Bytes 16) (validCredCount : Nat)
    (map : Encoder) : CtapM Encoder := do
  onlyIf (validCredCount < 2 ∨ (← get).ga.userVerified = 0) (hideName 0)
  makeAssertionAuthData P GA rpIdHash rpIdLookup
  let size ← assertionExtensions P GA.extensions
  let ga := (← get).ga
  let map ← encodeAssertionResponse P map (ga.creds.nth 0) (ga.authDataBytes size) GA.clientDataHash
  encodeCount map validCredCount

theorem ctapGetAssertion_stages (request : List UInt8) : ctapGetAssertion P request = (do
    let (GA, rpIdHash, rpIdLookup, validCredCount) ← matchCredentials P request
    let map ← encode (responseEncoder.createMap (assertionMapSize (← get).ga.creds validCredCount))
    let map ← fillAssertionMap P GA rpIdHash rpIdLookup validCredCount map
    let encoder ← encode (responseEncoder.close map)
    saveCredentialList GA.clientDataHash (validCredCount - 1) GA.extensions
    pure encoder.out) := by
  unfold ctapGetAssertion matchCredentials fillAssertionMap
  simp only [bind_assoc, pure_bind]

/-- `ctap_get_next_assertion` up to its map: the position of the credential. -/
def nextPosition : CtapM Nat := do
  match ← getNextCredential with
  | none => failWith .notAllowed
  | some i =>
    let count ← ctapAuthDataUpdateCount
    modify fun w => { w with ga := { w.ga with
      authData := { w.ga.authData with signCount := count } } }
    pure i

/-- `ctap_get_next_assertion` between the opening of its map and the closing. -/
def fillNextMap (i : Nat) (map : Encoder) : CtapM Encoder := do
  onlyIf ((← get).ga.userVerified = 0) (hideName i)
  let size ← nextExtensions P
  let ga := (← get).ga
  encodeAssertionResponse P map (ga.creds.nth i) (ga.authDataBytes size) ga.clientDataHash

/-- The size of the map that `ctap_get_next_assertion` announces. -/
def nextMapSize (creds : Creds) (i : Nat) : Nat := if (creds.nth i).user.idSize ≠ 0 then 4 else 3

theorem ctapGetNextAssertion_stages : ctapGetNextAssertion P = (do
    let i ← nextPosition
    let map ← encode (responseEncoder.createMap (nextMapSize (← get).ga.creds i))
    let map ← fillNextMap P i map
    let encoder ← encode (responseEncoder.close map)
    pure encoder.out) := by
  unfold ctapGetNextAssertion nextPosition
  rw [bind_assoc]
  refine congrArg (getNextCredential >>= ·) (funext fun r => ?_)
  cases r with
  | none => rfl
  | some i =>
    unfold fillNextMap nextMapSize
    simp only [bind_assoc, pure_bind]
    refine congrArg (ctapAuthDataUpdateCount >>= ·) (funext fun count => ?_)
    refine congrArg (_ >>= ·) (funext fun _ => ?_)
    refine funext fun w => ?_
    rw [get_bind, get_bind]
    refine encode_bind_congr fun map => ?_
    rw [get_bind]

end Stages

/-! ## The size of the map -/

theorem idSize_withoutName (cred : CredentialDescriptor) : cred.withoutName.user.idSize = cred.user.idSize :=
  Bytes.byte_eq_of_take_eq (Bytes.take_patch_of_le cred.user.raw 65 _ 65 le_rfl (by simp)) (by omega)

theorem CredentialDescriptor.Shows.idSize_eq {cred saved : CredentialDescriptor} (h : cred.Shows saved) :
    cred.user.idSize = saved.user.idSize := by
  rcases h with rfl | rfl
  · rfl
  · exact idSize_withoutName saved

/-- The pairs of `ctap_get_assertion` are those of the first credential. -/
theorem fillAssertionMap_pairs {GA : GetAssertion} {h : Bytes 32} {l : Bytes 16} {n : Nat} {map body : Encoder}
    (hfill : fillAssertionMap P GA h l n map w = .ok body w') :
    ∃ (cred : CredentialDescriptor) (authData sig : List UInt8) (isVerified : Bool),
      cred.user.idSize = (w.ga.creds.nth 0).user.idSize ∧
      body = map.putPairs (assertionPairs cred authData sig isVerified ++ countPairs n) := by
  unfold fillAssertionMap at hfill
  rw [get_bind, bind_eq_ok] at hfill
  obtain ⟨⟨⟩, w₁, hname, hfill⟩ := hfill
  obtain ⟨⟨⟩, w₂, hmake, hfill⟩ := bind_eq_ok.mp hfill
  obtain ⟨size, w₃, hext, hfill⟩ := bind_eq_ok.mp hfill
  rw [get_bind, bind_eq_ok] at hfill
  obtain ⟨map', w₄, hsign, hcount⟩ := hfill
  obtain ⟨sig, isVerified, rfl⟩ := encodeAssertionResponse_pairs hsign
  obtain ⟨rfl, -⟩ := encodeCount_pairs hcount
  obtain ⟨-, hshows, -⟩ := hideName_ok hname
  obtain ⟨head, hga₂, -⟩ := makeAssertionAuthData_ok hmake
  obtain ⟨extBuf, flags, hga₃⟩ := (assertionExtensions_ok hext).rest
  refine ⟨_, _, sig, isVerified, ?_, putPairs_putPairs _ _ _⟩
  rw [hga₃, hga₂]
  exact hshows.idSize_eq

/-- The pairs of `ctap_get_next_assertion`. -/
theorem fillNextMap_pairs {i : Nat} {map body : Encoder} (hfill : fillNextMap P i map w = .ok body w') :
    ∃ (cred : CredentialDescriptor) (authData sig : List UInt8) (isVerified : Bool),
      cred.user.idSize = (w.ga.creds.nth i).user.idSize ∧
      body = map.putPairs (assertionPairs cred authData sig isVerified) := by
  unfold fillNextMap at hfill
  rw [get_bind, bind_eq_ok] at hfill
  obtain ⟨⟨⟩, w₁, hname, hfill⟩ := hfill
  obtain ⟨size, w₂, hext, hfill⟩ := bind_eq_ok.mp hfill
  rw [get_bind] at hfill
  obtain ⟨sig, isVerified, rfl⟩ := encodeAssertionResponse_pairs hfill
  obtain ⟨-, hshows, -⟩ := hideName_ok hname
  obtain ⟨extBuf, flags, hga⟩ := (nextExtensions_ok hext).1.rest
  refine ⟨_, _, sig, isVerified, ?_, rfl⟩
  rw [hga]
  exact hshows.idSize_eq

/-- A response map announces as many pairs as it holds, it closes, and its keys ascend. -/
structure MapMatches (announced : Nat) (body : Encoder) (pairs : List (Int × List UInt8)) : Prop where
  count : announced = pairs.length
  closes : ∃ e, responseEncoder.close body = .ok e
  ascending : (pairs.map Prod.fst).Pairwise (· < ·)

theorem mapMatches_iff {n : Nat} {map : Encoder} {pairs : List (Int × List UInt8)}
    (hmap : responseEncoder.createMap n = .ok map) (hasc : (pairs.map Prod.fst).Pairwise (· < ·)) :
    MapMatches n (map.putPairs pairs) pairs ↔ n = pairs.length :=
  ⟨fun h => h.count, fun h => ⟨h, (close_putPairs_iff (remaining_createMap hmap)).mpr h, hasc⟩⟩

theorem assertionPairs_ascending (cred : CredentialDescriptor) (authData sig : List UInt8) (isVerified : Bool)
    (n : Nat) : ((assertionPairs cred authData sig isVerified ++ countPairs n).map Prod.fst).Pairwise (· < ·) := by
  unfold assertionPairs countPairs
  by_cases hid : cred.user.idSize ≠ 0 <;> by_cases hn : 1 < n
  all_goals simp [hid, hn]

theorem length_assertionPairs (cred : CredentialDescriptor) (authData sig : List UInt8) (isVerified : Bool) :
    (assertionPairs cred authData sig isVerified).length = 3 + if cred.user.idSize ≠ 0 then 1 else 0 := by
  unfold assertionPairs
  by_cases hid : cred.user.idSize ≠ 0
  · simp [hid]
  · simp [hid]

theorem length_countPairs (n : Nat) : (countPairs n).length = if 1 < n then 1 else 0 := by
  unfold countPairs
  by_cases hn : 1 < n
  · simp [hn]
  · simp [hn]

theorem fillAssertionMap_matches_iff {GA : GetAssertion} {h : Bytes 32} {l : Bytes 16} {n : Nat}
    {map body : Encoder} (hmap : responseEncoder.createMap (assertionMapSize w.ga.creds n) = .ok map)
    (hfill : fillAssertionMap P GA h l n map w = .ok body w') :
    ∃ (cred : CredentialDescriptor) (authData sig : List UInt8) (isVerified : Bool),
      body = map.putPairs (assertionPairs cred authData sig isVerified ++ countPairs n) ∧
      (MapMatches (assertionMapSize w.ga.creds n) body
          (assertionPairs cred authData sig isVerified ++ countPairs n) ↔
        ((w.ga.creds.nth 0).user.idSize = 0 ↔ (w.ga.creds.nth (n - 1)).user.idSize = 0)) := by
  obtain ⟨cred, authData, sig, isVerified, hid, rfl⟩ := fillAssertionMap_pairs hfill
  refine ⟨cred, authData, sig, isVerified, rfl, ?_⟩
  rw [mapMatches_iff hmap (assertionPairs_ascending ..), assertionMapSize, List.length_append,
    length_assertionPairs, length_countPairs, hid]
  by_cases hfirst : (w.ga.creds.nth 0).user.idSize = 0 <;>
    by_cases hlast : (w.ga.creds.nth (n - 1)).user.idSize = 0
  all_goals
    simp only [hfirst, hlast, ne_eq, not_true_eq_false, not_false_eq_true, if_true, if_false, iff_true,
      iff_false]
    omega

/-- The map of `ctap_get_assertion` matches its header exactly where the first and the last of the matching
credentials both have a user ID or both have none.  That of `ctap_get_next_assertion` always does. -/
theorem assertionMap_matches_iff (P : Platform) (w : World) :
    (∀ (request : List UInt8) (GA : GetAssertion) (rpIdHash : Bytes 32) (rpIdLookup : Bytes 16) (n : Nat)
      (listed w' : World) (map body : Encoder),
      matchCredentials P request w = .ok (GA, rpIdHash, rpIdLookup, n) listed →
      responseEncoder.createMap (assertionMapSize listed.ga.creds n) = .ok map →
      fillAssertionMap P GA rpIdHash rpIdLookup n map listed = .ok body w' →
      ∃ (cred : CredentialDescriptor) (authData sig : List UInt8) (isVerified : Bool),
        body = map.putPairs (assertionPairs cred authData sig isVerified ++ countPairs n) ∧
        (MapMatches (assertionMapSize listed.ga.creds n) body
            (assertionPairs cred authData sig isVerified ++ countPairs n) ↔
          ((listed.ga.creds.nth 0).user.idSize = 0 ↔ (listed.ga.creds.nth (n - 1)).user.idSize = 0))) ∧
    ∀ (i : Nat) (counted w' : World) (map body : Encoder),
      nextPosition w = .ok i counted →
      responseEncoder.createMap (nextMapSize counted.ga.creds i) = .ok map →
      fillNextMap P i map counted = .ok body w' →
      ∃ (cred : CredentialDescriptor) (authData sig : List UInt8) (isVerified : Bool),
        body = map.putPairs (assertionPairs cred authData sig isVerified) ∧
        MapMatches (nextMapSize counted.ga.creds i) body (assertionPairs cred authData sig isVerified) := by
  constructor
  · intro request GA rpIdHash rpIdLookup n listed w' map body _ hmap hfill
    exact fillAssertionMap_matches_iff hmap hfill
  · intro i counted w' map body hpos hmap hfill
    obtain ⟨cred, authData, sig, isVerified, hid, rfl⟩ := fillNextMap_pairs hfill
    refine ⟨cred, authData, sig, isVerified, rfl, ?_⟩
    have hasc := assertionPairs_ascending cred authData sig isVerified 0
    rw [show countPairs 0 = [] from rfl, List.append_nil] at hasc
    rw [mapMatches_iff hmap hasc, nextMapSize, length_assertionPairs, hid]
    split
    · rfl
    · rfl

/-- The members of a registration with a user ID. -/
def registrationOf (rpId : String) (userId : List UInt8) : List UInt8 :=
  encMap [([1], encBytes (List.replicate 32 7)), ([2], encMap [(encString "id", encString rpId)]),
    ([3], encMap [(encString "id", encBytes userId)]),
    ([4], [0x81] ++ encMap [(encString "alg", [0x26]), (encString "type", encString "public-key")]),
    ([7], encMap [(encString "rk", [0xf5])])]

/-- An assertion for an RP ID, as the code runs it up to the closing of the map. -/
def openAssertionMap (request : List UInt8) :
    CtapM ((GetAssertion × Bytes 32 × Bytes 16 × Nat) × Creds × Encoder × Encoder) := do
  let m ← matchCredentials simPlatform request
  let creds := (← get).ga.creds
  let map ← encode (responseEncoder.createMap (assertionMapSize creds m.2.2.2))
  let body ← fillAssertionMap simPlatform m.1 m.2.1 m.2.2.1 m.2.2.2 map
  pure (m, creds, map, body)

theorem openAssertionMap_ok {request : List UInt8} {GA : GetAssertion} {rpIdHash : Bytes 32}
    {rpIdLookup : Bytes 16} {n : Nat} {creds : Creds} {map body : Encoder}
    (h : openAssertionMap request w = .ok ((GA, rpIdHash, rpIdLookup, n), creds, map, body) w') :
    ∃ listed : World, listed.ga.creds = creds ∧
      matchCredentials simPlatform request w = .ok (GA, rpIdHash, rpIdLookup, n) listed ∧
      responseEncoder.createMap (assertionMapSize listed.ga.creds n) = .ok map ∧
      fillAssertionMap simPlatform GA rpIdHash rpIdLookup n map listed = .ok body w' := by
  unfold openAssertionMap at h
  rw [bind_eq_ok] at h
  obtain ⟨m, listed, hmatch, h⟩ := h
  rw [get_bind, bind_eq_ok] at h
  obtain ⟨map', w₁, hmap, h⟩ := h
  rw [encode_ok hmap, bind_eq_ok] at h
  obtain ⟨body', w₂, hfill, h⟩ := h
  obtain ⟨heq, rfl⟩ := pure_eq_ok.mp h
  simp only [Prod.mk.injEq] at heq
  obtain ⟨hm, rfl, rfl, rfl⟩ := heq
  rw [← hm] at hfill hmatch hmap
  exact ⟨listed, rfl, hmatch, encCheck_eq_ok.mp (ctapCheck_eq_ok.mp hmap).1, hfill⟩

/-- Two credentials with user IDs. -/
theorem assertionMap_matches_iff_two_users : ∃ (w : World) (n : Nat) (creds : Creds) (body : Encoder)
    (pairs : List (Int × List UInt8)), n = 2 ∧ (creds.nth 0).user.idSize = 1 ∧
      MapMatches (assertionMapSize creds n) body pairs ∧ w.ga.creds = creds := by
  have heval : ((serveAll simPlatform simStart threeCredentials).any fun x =>
      runTest (openAssertionMap (assertionRequest "a")) (fun a _ => a.1.2.2.2 = 2 &&
        (a.2.1.nth 0).user.idSize = 1 && (a.2.1.nth (a.1.2.2.2 - 1)).user.idSize ≠ 0)
        (x.1.withInputs (simInputs fun _ => true))) = true := by
    decide +kernel
  obtain ⟨⟨w, rs⟩, -, htest⟩ := (Option.any_eq_true _ _).mp heval
  obtain ⟨⟨⟨GA, rpIdHash, rpIdLookup, n⟩, creds, map, body⟩, w', hrun, hids⟩ := runTest_ok htest
  simp only [Bool.and_eq_true, decide_eq_true_eq] at hids
  obtain ⟨⟨hn, hfirst⟩, hlast⟩ := hids
  obtain ⟨listed, rfl, hmatch, hmap, hfill⟩ := openAssertionMap_ok hrun
  obtain ⟨cred, authData, sig, isVerified, -, hiff⟩ :=
    (assertionMap_matches_iff simPlatform _).1 _ _ _ _ _ _ _ _ _ hmatch hmap hfill
  refine ⟨listed, n, _, body, _, hn, hfirst, hiff.mpr ⟨fun h => ?_, fun h => absurd h hlast⟩, rfl⟩
  rw [hfirst] at h
  exact absurd h (by decide)

/-- Of two credentials for one RP, the older has an empty user ID: the map is announced with 4 pairs and
holds 5, and the request fails. -/
theorem assertionMap_empty_user_id : ∃ (h : List Entry) (w : World), Run simPlatform h w ∧
    ∃ (request : List UInt8) (inputs : Inputs) (GA : GetAssertion) (rpIdHash : Bytes 32) (rpIdLookup : Bytes 16)
      (n : Nat) (listed w' : World) (map body : Encoder),
      matchCredentials simPlatform request (w.withInputs inputs) = .ok (GA, rpIdHash, rpIdLookup, n) listed ∧
      responseEncoder.createMap (assertionMapSize listed.ga.creds n) = .ok map ∧
      fillAssertionMap simPlatform GA rpIdHash rpIdLookup n map listed = .ok body w' ∧
      (∃ (cred : CredentialDescriptor) (authData sig : List UInt8) (isVerified : Bool),
        body = map.putPairs (assertionPairs cred authData sig isVerified ++ countPairs n) ∧
        ¬ MapMatches (assertionMapSize listed.ga.creds n) body
          (assertionPairs cred authData sig isVerified ++ countPairs n)) ∧
      ∃ r : Served, r.Valid simPlatform ∧ r.before = w ∧ r.cmd = 2 ∧ r.request = request ∧
        r.status = .error .invalidCbor := by
  have heval : ((serveAll simPlatform simStart
      [touched 1 (registrationOf "a" []), touched 1 (registrationOf "a" [1])]).any fun x =>
        (serve simPlatform x.1 (touched 2 (assertionRequest "a"))).any (fun r => r.cmd = 2 &&
          r.request = assertionRequest "a" && r.status = .error .invalidCbor) &&
        runTest (openAssertionMap (assertionRequest "a")) (fun a _ => (a.2.1.nth 0).user.idSize ≠ 0 &&
          (a.2.1.nth (a.1.2.2.2 - 1)).user.idSize = 0) (x.1.withInputs (simInputs fun _ => true))) = true := by
    decide +kernel
  obtain ⟨⟨w, rs⟩, hrs, htest⟩ := (Option.any_eq_true _ _).mp heval
  obtain ⟨hserve, hopen⟩ := (Bool.and_eq_true _ _).mp htest
  obtain ⟨r, hr, htest⟩ := (Option.any_eq_true _ _).mp hserve
  simp only [Bool.and_eq_true, decide_eq_true_eq] at htest
  obtain ⟨⟨hcmd, hrequest⟩, hstatus⟩ := htest
  obtain ⟨hv, hb⟩ := serve_valid hr
  obtain ⟨⟨⟨GA, rpIdHash, rpIdLookup, n⟩, creds, map, body⟩, w', hrun, hids⟩ := runTest_ok hopen
  simp only [Bool.and_eq_true, decide_eq_true_eq] at hids
  obtain ⟨listed, rfl, hmatch, hmap, hfill⟩ := openAssertionMap_ok hrun
  obtain ⟨cred, authData, sig, isVerified, hbody, hiff⟩ := fillAssertionMap_matches_iff hmap hfill
  refine ⟨_, w, serveAll_run run_simStart hrs, assertionRequest "a", _, GA, rpIdHash, rpIdLookup, n, listed, w',
    map, body, hmatch, hmap, hfill, ⟨cred, authData, sig, isVerified, hbody, fun h => ?_⟩,
    r, hv, hb, hcmd, hrequest, hstatus⟩
  exact hids.1 ((hiff.mp h).mpr hids.2)

end TkeyFido2
