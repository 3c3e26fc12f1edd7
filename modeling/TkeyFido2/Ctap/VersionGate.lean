import TkeyFido2.Cbor.Members
import TkeyFido2.Ctap.Persistence
import TkeyFido2.Ctap.PowerCuts

/-!
# The version gate

Programs of different versions start on one store.  A state file in the format of this program keeps the
version of the newest one, and an older one does not start on it.
-/

namespace TkeyFido2

open Cbor Prog

/-! ## Versions in their order -/

/-- The version that `version_compare` orders by. -/
def versionKey (v : UInt32) : Nat :=
  v.toNat % 256 * 65536 + v.toNat / 256 % 256 * 256 + v.toNat / 65536 % 256

/-- The value under a key of the format that this program knows has the type and the size of its field. -/
def StateMember (key : Nat) (x : CborValue) : Prop :=
  match key with
  | 0 => x.getUint64 = .ok stateVersion.toNat
  | 1 => ∃ v < 2 ^ 32, x.getUint64 = .ok v
  | 10 => ∃ v < 2 ^ 8, x.getUint64 = .ok v
  | 11 => ∃ v, (-128 ≤ v ∧ v ≤ 127) ∧ x.getInt64 = .ok v
  | 12 => ∃ r, (copyByteString x 16).result = .ok r
  | 13 => ∃ r, (copyByteString x 16).result = .ok r
  | 20 => ∃ v < 2 ^ 16, x.getUint64 = .ok v
  | 30 => ∃ r, (copyByteString x 64).result = .ok r
  | _ => False

/-- A file with the right magic byte, the right MAC and a map without a key twice. -/
structure StateMap (P : Platform) (file : List UInt8) (members : List (CborValue × CborValue)) : Prop where
  envelope : ∃ cbor it map,
    fsReadOpen file stateEnvelopeBufSize = some (stateMagic :: (deviceMac P cbor ++ cbor)) ∧
    cborParserInit cbor = .ok it ∧ it.type = .map ∧ enterContainer it = .ok map ∧ map.Members members
  distinct : members.Pairwise fun m m' => ∀ key, m.1.getUint64 = .ok key → m'.1.getUint64 ≠ .ok key

/-- The map carries a version of the program. -/
def CarriesVersion (P : Platform) (file : List UInt8) (v : UInt32) : Prop :=
  ∃ members, StateMap P file members ∧
    ∃ m ∈ members, m.1.getUint64 = .ok 1 ∧ m.2.getUint64 = .ok v.toNat

/-- The map is one of the format that this program knows: version 1, and no other members. -/
def KnownFormat (P : Platform) (file : List UInt8) : Prop :=
  ∃ members, StateMap P file members ∧ (∃ m ∈ members, m.1.getUint64 = .ok 0) ∧
    ∀ m ∈ members, ∃ key, m.1.getUint64 = .ok key ∧ StateMember key m.2

section Files

variable {P : Platform}

theorem StateMap.unique {file : List UInt8} {l l' : List (CborValue × CborValue)} (h : StateMap P file l)
    (h' : StateMap P file l') : l = l' := by
  obtain ⟨cbor, it, map, hfile, hinit, -, henter, hmembers⟩ := h.envelope
  obtain ⟨cbor', it', map', hfile', hinit', -, henter', hmembers'⟩ := h'.envelope
  obtain ⟨-, htail⟩ := List.cons.inj (Option.some.inj (hfile.symm.trans hfile'))
  obtain ⟨-, rfl⟩ := List.append_inj htail (by rw [length_deviceMac, length_deviceMac])
  obtain rfl := Except.ok.inj (hinit.symm.trans hinit')
  obtain rfl := Except.ok.inj (henter.symm.trans henter')
  exact hmembers.unique hmembers'

theorem CarriesVersion.unique {file : List UInt8} {v v' : UInt32} (h : CarriesVersion P file v)
    (h' : CarriesVersion P file v') : v' = v := by
  obtain ⟨members, hmap, m, hm, hkey, hv⟩ := h
  obtain ⟨members', hmap', m', hm', hkey', hv'⟩ := h'
  obtain rfl := hmap.unique hmap'
  have hsame : m = m' := by
    by_contra hne
    have hsymm : Std.Symm fun m m' : CborValue × CborValue =>
        ∀ key, m.1.getUint64 = .ok key → m'.1.getUint64 ≠ .ok key :=
      ⟨fun _ _ hd key h₁ h₂ => hd key h₂ h₁⟩
    exact hmap.distinct.forall hm hm' hne 1 hkey hkey'
  subst hsame
  exact UInt32.toNat_inj.mp (Except.ok.inj (hv'.symm.trans hv))

/-- The members that `state_cbor_encode` writes. -/
def stateMembers (s : AuthState) : List (Nat × Item) :=
  [(0, .int s.version.toNat), (1, .int s.appVersion.toNat), (10, .int s.isPinSet.toNat),
    (11, .int s.remainingTries.toInt), (12, .bytes s.pinHashEnc.toList), (13, .bytes s.pinHashIv.toList),
    (20, .int s.rkStored.toNat), (30, .bytes s.keySalt.toList)]

theorem stateItems_eq (s : AuthState) :
    stateItems s = (stateMembers s).flatMap fun p => [.int p.1, p.2] := rfl

/-- The written fields have the types and sizes that they are read with. -/
theorem stateMember_written {s : AuthState} (hs : s.version = stateVersion) {p : Nat × Item}
    (hp : p ∈ stateMembers s) {x : CborValue} {items : List Item} (hx : x.Iterates (p.2 :: items)) :
    StateMember p.1 x := by
  have hbytes {n : Nat} (b : Bytes n) (hx : x.Iterates (.bytes b.toList :: items)) :
      ∃ r, (copyByteString x n).result = .ok r := by
    obtain ⟨it', hcopy⟩ := hx.copyByteString
    rw [b.toList_length] at hcopy
    exact ⟨_, by rw [hcopy]⟩
  simp only [stateMembers, List.mem_cons, List.not_mem_nil, or_false] at hp
  rcases hp with rfl | rfl | rfl | rfl | rfl | rfl | rfl | rfl
  · exact hs ▸ hx.getUint64
  · exact ⟨_, s.appVersion.toNat_lt, hx.getUint64⟩
  · exact ⟨_, s.isPinSet.toNat_lt, hx.getUint64⟩
  · have h₁ := s.remainingTries.le_toInt
    have h₂ := s.remainingTries.toInt_lt
    exact ⟨_, ⟨h₁, by omega⟩, hx.getInt64⟩
  · exact hbytes _ hx
  · exact hbytes _ hx
  · exact ⟨_, s.rkStored.toNat_lt, hx.getUint64⟩
  · exact hbytes _ hx

/-- The map of a written file. -/
theorem stateMap_stateFileOf (s : AuthState) : ∃ members, StateMap P (stateFileOf P s) members ∧
    (∀ m ∈ members, ∃ p ∈ stateMembers s, AtMember m p) ∧
      ∀ p ∈ stateMembers s, ∃ m ∈ members, AtMember m p := by
  obtain ⟨it, map, hinit, htype, henter, hmap⟩ := parse_flat_map (n := 8) (stateItems s) rfl
    (by decide) (by decide) (stateItems_small s)
  rw [stateItems_eq] at hmap
  obtain ⟨members, hmembers, hkeys, hall, hall'⟩ := hmap.members
  have hdistinct : (members.map fun m => m.1.getUint64).Pairwise
      fun k k' => ∀ key, k = .ok key → k' ≠ .ok key := by
    rw [hkeys]
    simp [stateMembers]
  exact ⟨members, ⟨⟨_, it, map, fsReadOpen_stateFileOf P s, hinit, htype, henter, hmembers⟩, List.pairwise_map.mp hdistinct⟩,
    hall, hall'⟩

theorem carriesVersion_stateFileOf (s : AuthState) : CarriesVersion P (stateFileOf P s) s.appVersion := by
  obtain ⟨members, hmap, -, hall⟩ := stateMap_stateFileOf (P := P) s
  obtain ⟨m, hm, hkey, items, hx⟩ := hall (1, .int s.appVersion.toNat) (by simp [stateMembers])
  exact ⟨members, hmap, m, hm, hkey, hx.getUint64⟩

theorem knownFormat_stateFileOf {s : AuthState} (hs : s.version = stateVersion) :
    KnownFormat P (stateFileOf P s) := by
  obtain ⟨members, hmap, hall, hall'⟩ := stateMap_stateFileOf (P := P) s
  obtain ⟨m, hm, hkey, -⟩ := hall' (0, .int s.version.toNat) (by simp [stateMembers])
  refine ⟨members, hmap, ⟨m, hm, hkey⟩, fun m hm => ?_⟩
  obtain ⟨p, hp, hkey, items, hx⟩ := hall m hm
  exact ⟨p.1, hkey, stateMember_written hs hp hx⟩

end Files

/-! ## Runs -/

section Runs

variable {P : Platform}

/-- The file is of the known format and carries the version in memory, which is not below `n`; nor is
that of the running program. -/
structure Gated (P : Platform) (n : Nat) (w : World) : Prop where
  version : w.state.version = stateVersion
  known : KnownFormat P w.stateFile
  carries : CarriesVersion P w.stateFile w.state.appVersion
  notBelow : n ≤ versionKey w.state.appVersion
  running : n ≤ versionKey w.appVersion

variable {n : Nat}

theorem ignores_gated : Ignores unwrittenParts (Gated P n) := by
  intro w w' h hw
  have hstate : w'.state = w.state :=
    World.state_ext (h .pinState (by decide)) (h .rkStored (by decide)) (h .identity (by decide))
  have hfile : w'.stateFile = w.stateFile := h .stateFile (by decide)
  have happ : w'.appVersion = w.appVersion := congrArg Prod.fst (h .fixed (by decide))
  exact ⟨hstate ▸ hw.version, hfile ▸ hw.known, by rw [hfile, hstate]; exact hw.carries,
    by rw [hstate]; exact hw.notBelow, by rw [happ]; exact hw.running⟩

/-- Behind a write. -/
theorem gated_flushed {w : World} (hv : w.state.version = stateVersion)
    (hn : n ≤ versionKey w.state.appVersion) (hr : n ≤ versionKey w.appVersion) :
    Gated P n (w.flushed P) :=
  ⟨hv, knownFormat_stateFileOf hv, carriesVersion_stateFileOf w.state, hn, hr⟩

theorem gated_dispatch (c : Command) (request : List UInt8) :
    Preserves (Gated P n) (dispatch P c request) := by
  refine preserves_dispatch_of_write ignores_gated (fun f hf => ?_)
    (fun w hw => gated_flushed rfl hw.running hw.running) c request
  rw [preserves_iff_ends]
  intro w hw
  rw [ends_bind, ends_modify]
  obtain ⟨hidentity, hfixed⟩ := hf w
  have hv : (f w).state.version = w.state.version := congrArg Prod.fst hidentity
  have happ : (f w).state.appVersion = w.state.appVersion :=
    congrArg (fun x : UInt8 × UInt32 × Bytes 64 => x.2.1) hidentity
  have hrun : (f w).appVersion = w.appVersion := congrArg Prod.fst hfixed
  have hwritten : Gated P n ((f w).flushed P) :=
    gated_flushed (hv.trans hw.version) (by rw [happ]; exact hw.notBelow) (by rw [hrun]; exact hw.running)
  exact ends_of_ok (authenticatorWriteState_eq _) hwritten

theorem Gated.request {w : World} (hw : Gated P n w) {r : Served} (hv : r.Valid P) (hb : r.before = w) :
    Gated P n r.after := by
  obtain ⟨inputs, hreq⟩ := hv
  subst hb
  have hstart : Gated P n (r.before.withInputs inputs) :=
    ⟨hw.version, hw.known, hw.carries, hw.notBelow, hw.running⟩
  have hend := preserves_ctapRequest (ignores_gated.mono (by decide))
    (gated_dispatch (commandOf r.cmd) r.request) _ hstart
  rwa [final_of_ok hreq] at hend

theorem Gated.mono {m : Nat} {w : World} (hw : Gated P n w) (h : m ≤ n) : Gated P m w :=
  ⟨hw.version, hw.known, hw.carries, h.trans hw.notBelow, h.trans hw.running⟩

end Runs

end TkeyFido2
