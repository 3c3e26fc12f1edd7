import TkeyFido2.Ctap.StateFile
import TkeyFido2.Ctap.World

/-!
# The device

`device.c`: random numbers, timer, user presence, the signature counter, the state file and the
files of resident keys.
-/

namespace TkeyFido2

/-! ## Environment -/

/-- `ctap_generate_rng`. -/
def ctapGenerateRng (n : Nat) : CtapM (Bytes n) :=
  modifyGet fun w =>
    (streamBytes w.inputs.rng.byte w.rngPos n, { w with rngPos := w.rngPos + n })

/-- Call a primitive that draws random bytes itself. -/
def drawing {α : Type} (f : (Nat → UInt8) → α × Nat) : CtapM α :=
  modifyGet fun w =>
    let r := f fun i => w.inputs.rng.byte (w.rngPos + i)
    (r.1, { w with rngPos := w.rngPos + r.2 })

/-- `millis`, before the timer runs out. -/
def millis : CtapM UInt32 :=
  modifyGet fun w => (w.inputs.millis w.millisPos, { w with millisPos := w.millisPos + 1 })

/-- The results of `ctap_user_presence_test`. -/
inductive UpTest
  | disabled
  | present
  | absent
  deriving DecidableEq, Repr

/-- `ctap_user_presence_test`. -/
def ctapUserPresenceTest : CtapM UpTest := do
  if (← get).upDisabled then
    pure .disabled
  else
    let present ← modifyGet fun (w : World) =>
      (w.inputs.presence w.presencePos, { w with presencePos := w.presencePos + 1 })
    emit (.presenceTested present)
    pure (if present then .present else .absent)

/-- `device_disable_up`. -/
def deviceDisableUp (disable : Bool) : CtapM Unit := modify fun w => { w with upDisabled := disable }

/-- The amount that `ctap_atomic_count` adds: for 0 a random one from 1 to 16. -/
def countAmount (amount : UInt32) : CtapM UInt32 := do
  if amount = 0 then
    let rng ← ctapGenerateRng 1
    pure ((rng.byte 0 &&& 0x0f).toUInt32 + 1)
  else pure amount

/-- `ctap_atomic_count`. -/
def ctapAtomicCount (amount : UInt32) : CtapM UInt32 := do
  let amount ← countAmount amount
  let count ← modifyGet fun (w : World) =>
    (w.counter + amount, { w with counter := w.counter + amount })
  emit (.counterWritten count)
  pure count

/-! ## The state file -/

variable (P : Platform)

/-- `authenticator_write_state` of `STATE`; `ctap_flush_state` is the same call. -/
def authenticatorWriteState : CtapM Unit := do
  let s := (← get).state
  match stateEnvelope P s with
  | .ok file =>
    modify fun w => { w with stateFile := file }
    emit (.stateWritten s)
  | .error _ => throw (.halt .assert)

/-! ## Resident keys -/

/-- `ctap_max_number_of_rks`. -/
def ctapMaxNumberOfRks : UInt16 := 200

/-- `rpid_hash_to_file`: the high nibble of the first byte. -/
def rpidHashToFile (hash : UInt8) : Fin 16 :=
  ⟨hash.toNat / 16, Nat.div_lt_of_lt_mul hash.toNat_lt⟩

/-- The file for records with a lookup MAC. -/
def rkFile (rpIdLookup : Bytes 16) : Fin 16 := rpidHashToFile (rpIdLookup.byte 0)

/-- Replace one of the files, for a change of one record. -/
def writeRkFile (n : Fin 16) (l : List ResidentKey) (c : RkChange) : CtapM Unit := do
  modify fun w => { w with rkFiles := Function.update w.rkFiles n l }
  emit (.rkWritten n l)
  emit (.rkChanged c)

/-- `ctap_reset_rk`: `fs_dir_del` removes one file after the other. -/
def ctapResetRk : CtapM Unit := do
  modify fun w => { w with
    rkFiles := fun _ => []
    trace := w.trace ++ (List.finRange 16).map fun n => .rkWritten n [] }
  emit (.rkChanged .reset)

/-- `ctap_increment_rk_store`. -/
def ctapIncrementRkStore : CtapM Unit := do
  modify fun w => { w with state := { w.state with rkStored := w.state.rkStored + 1 } }
  authenticatorWriteState P

/-- `ctap_decrement_rk_store`. -/
def ctapDecrementRkStore : CtapM Unit := do
  modify fun w => { w with state := { w.state with rkStored := w.state.rkStored - 1 } }
  authenticatorWriteState P

/-- The loop of `ctap_overwrite_rk`: the file with the first record for the same RP and user
replaced, if there is one. -/
def overwriteFirst (rk : ResidentKey) : List ResidentKey → Option (List ResidentKey)
  | [] => none
  | r :: l =>
    if r.id.rpIdLookup = rk.id.rpIdLookup ∧ r.userIdLookup = rk.userIdLookup then some (rk :: l)
    else (overwriteFirst rk l).map (r :: ·)

/-- `ctap_overwrite_rk`. -/
def ctapOverwriteRk (rk : ResidentKey) : CtapM Unit := do
  let file := (← get).rkFiles (rkFile rk.id.rpIdLookup)
  match overwriteFirst rk file with
  | some file => writeRkFile (rkFile rk.id.rpIdLookup) file (.stored rk)
  | none =>
    writeRkFile (rkFile rk.id.rpIdLookup) (file ++ [rk]) (.stored rk)
    ctapIncrementRkStore P

/-- The loop of `ctap_delete_rk`: the file without the first record with the same RP and tag, the
records behind it moved down and the file cut, if there is one. -/
def deleteFirst (id : CredentialId) : List ResidentKey → Option (List ResidentKey)
  | [] => none
  | r :: l =>
    if id.rpIdLookup = r.id.rpIdLookup ∧ id.tag = r.id.tag then some l
    else (deleteFirst id l).map (r :: ·)

/-- The record that `ctap_delete_rk` stops at. -/
def recordToDelete (id : CredentialId) (file : List ResidentKey) : ResidentKey :=
  (file.find? fun r => id.rpIdLookup = r.id.rpIdLookup ∧ id.tag = r.id.tag).getD {}

/-- `ctap_delete_rk`; `false` is a negative result. -/
def ctapDeleteRk (id : CredentialId) : CtapM Bool := do
  let w ← get
  match deleteFirst id (w.rkFiles (rkFile id.rpIdLookup)) with
  | none => pure false
  | some file =>
    writeRkFile (rkFile id.rpIdLookup) file
      (.deleted (recordToDelete id (w.rkFiles (rkFile id.rpIdLookup))))
    ctapDecrementRkStore P
    pure true

end TkeyFido2
