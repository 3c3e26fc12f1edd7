import TkeyFido2.Ctap.Simulator
import TkeyFido2.Fs.ResidentKeys

/-!
# The handle of the resident keys

`_f_rk` is one handle for all files of records.  The functions that open it are followed here through
every result that littlefs may give: each leaves it closed, and none opens it while it is open.
-/

namespace TkeyFido2

open Prog

namespace Fs

variable {σ H : Type} (P : Platform) (L : Littlefs σ H)

/-! ## ctap_verify_rk_exists -/

/-- The loop of `ctap_verify_rk_exists` with the counter `i`. -/
def verifyLoop (id : CredentialId) (count : Nat) : Nat → UInt16 → ResidentKey → BoardM σ H Bool
  | 0, _, _ => throw (.halt .loop)
  | fuel + 1, i, lookupRk =>
    if i.toNat < count then do
      let lookupRk ← ctapLoadNextRk L lookupRk
      let k := (← get).world.keys
      if id.rpIdLookup ≠ lookupRk.id.rpIdLookup then verifyLoop id count fuel (i + 1) lookupRk
      else if id ≠ lookupRk.id then verifyLoop id count fuel (i + 1) lookupRk
      else if !ctapVerifyMac P.prims k lookupRk.rkTag lookupRk.macInput then
        verifyLoop id count fuel (i + 1) lookupRk
      else closeAndReturn L true
    else closeAndReturn L false

/-- `ctap_verify_rk_exists`. -/
def ctapVerifyRkExists (fuel : Nat) (lookupRk : ResidentKey) (id : CredentialId) : BoardM σ H Bool := do
  let count ← ctapOpenRkFile L (id.rpIdLookup.byte 0)
  if count ≤ 0 then closeAndReturn L false
  else verifyLoop P L id count.toNat fuel 0 lookupRk

/-! ## build_filtered_credential_list -/

/-- The checks on entry `cred` of the allow list. -/
def allowListQualifies (fuel : Nat) (lookupRk : ResidentKey) (rpIdHash : Bytes 32) (rpIdLookup : Bytes 16)
    (cred : CredentialDescriptor) : BoardM σ H Bool := do
  let w := (← get).world
  if !ctapCredentialBelongsToRp P.prims w.keys rpIdLookup rpIdHash cred then pure false
  else if !ctapCheckCredentialMetadata P.prims w.keys cred.id (w.ga.userVerified ≠ 0) true then pure false
  else if isRkOf P.prims w.keys cred.id then ctapVerifyRkExists P L fuel lookupRk cred.id
  else pure true

/-- The loop over the allow list: `credLen` and `count` behind it. -/
def allowListLoop (lookupRk : ResidentKey) (rpIdHash : Bytes 32) (rpIdLookup : Bytes 16) :
    Nat → Nat → Nat → Nat → BoardM σ H (Nat × Nat)
  | 0, _, _, _ => throw (.halt .loop)
  | fuel + 1, i, credLen, count =>
    if i < credLen then do
      let cred := (← get).world.ga.creds.nth i
      if ← allowListQualifies P L fuel lookupRk rpIdHash rpIdLookup cred then
        allowListLoop lookupRk rpIdHash rpIdLookup fuel (i + 1) (i + 1) (count + 1)
      else
        let creds := (← get).world.ga.creds
        onWorld (setCreds (creds.put i (invalidate (creds.nth i))))
        allowListLoop lookupRk rpIdHash rpIdLookup fuel (i + 1) credLen count
    else pure (credLen, count)

/-- The loop over the records of the RP's file, with `n` to go: `count` behind it. -/
def storedLoop (rpIdHash : Bytes 32) (rpIdLookup : Bytes 16) : Nat → Nat → ResidentKey → BoardM σ H Nat
  | 0, count, _ => pure count
  | n + 1, count, rk => do
    let rk ← ctapLoadNextRk L rk
    let w := (← get).world
    let f := w.filter rpIdHash rpIdLookup
    if !storedQualifies P.prims f rk then storedLoop rpIdHash rpIdLookup n count rk
    else if allowListMaxSize ≤ count then pure count
    else if !ctapVerifyMac P.prims w.keys rk.rkTag rk.macInput then storedLoop rpIdHash rpIdLookup n count rk
    else
      onWorld (setCreds (w.ga.creds.put count (storedDescriptor P.prims f rk)))
      storedLoop rpIdHash rpIdLookup n (count + 1) (rk.xcrypt P.prims w.keys)

/-- `build_filtered_credential_list`. -/
def buildFilteredCredentialList (fuel : Nat) (lookupRk rk : ResidentKey) (credLen : Nat)
    (rpIdHash : Bytes 32) (rpIdLookup : Bytes 16) : BoardM σ H Nat := do
  let (credLen, count) ← allowListLoop P L lookupRk rpIdHash rpIdLookup fuel 0 credLen 0
  if credLen = 0 then
    let nrRk ← ctapOpenRkFile L (rpIdLookup.byte 0)
    let nrRk := if nrRk < 0 then 0 else nrRk
    let count ← storedLoop P L rpIdHash rpIdLookup nrRk.toNat count rk
    let _ ← ctapCloseRkFile L
    onWorld (setCreds (sortPrefix P.qsort count (← get).world.ga.creds))
    pure count
  else
    onWorld (setCreds (sortPrefix P.qsort credLen (← get).world.ga.creds))
    pure count

/-! ## scan_rk -/

/-- `rk_mode_t`. -/
inductive RkMode
  | count
  | getNext
  deriving DecidableEq

/-- The loop of `scan_rk`: the result and `out_rk`. -/
def scanLoop (rpIdLookup : Bytes 16) (mode : RkMode) (nbrRk : Nat) :
    Nat → Nat → ResidentKey → BoardM σ H (Int × ResidentKey)
  | 0, _, _ => throw (.halt .loop)
  | fuel + 1, count, outRk => do
    let cm := (← get).world.cm
    if cm.rkIdx.toNat < nbrRk then
      onWorld (setCm { cm with rkIdx := cm.rkIdx + 1 })
      let outRk ← ctapLoadRk L cm.rkIdx outRk
      if !residentKeyIsValid outRk then scanLoop rpIdLookup mode nbrRk fuel count outRk
      else if rpIdLookup ≠ outRk.id.rpIdLookup then scanLoop rpIdLookup mode nbrRk fuel count outRk
      else if mode = .getNext then
        let _ ← ctapCloseRkFile L
        pure (0, outRk.xcrypt P.prims (← get).world.keys)
      else scanLoop rpIdLookup mode nbrRk fuel (count + 1) outRk
    else
      let _ ← ctapCloseRkFile L
      onWorld (setCm { cm with rkIdx := 0 })
      pure (if mode = .count then count else -1, outRk)

/-- `scan_rk`. -/
def scanRk (fuel : Nat) (rpIdLookup : Bytes 16) (mode : RkMode) (outRk : ResidentKey) :
    BoardM σ H (Int × ResidentKey) := do
  let nbrRk ← ctapOpenRkFile L (rpIdLookup.byte 0)
  if nbrRk < 0 then closeAndReturn L (-1, outRk)
  else scanLoop P L rpIdLookup mode nbrRk.toNat fuel 0 outRk

/-! ## scan_file_unique_rp and get_next_unique_rp -/

/-- The loop of `scan_file_unique_rp` with `n` records to go: the list of indices. -/
def uniqueLoop (nbrRk : Nat) : Nat → List (List UInt8) → List UInt8 → ResidentKey → BoardM σ H (List UInt8)
  | 0, _, found, _ => pure found
  | n + 1, seen, found, tmpRk => do
    let index := UInt8.ofNat (nbrRk - (n + 1))
    let tmpRk ← ctapLoadRk L index tmpRk
    if !residentKeyIsValid tmpRk then uniqueLoop nbrRk n seen found tmpRk
    else if seen.any (· = compareKey tmpRk) then uniqueLoop nbrRk n seen found tmpRk
    else if seen.length < maxUniqueRp then
      uniqueLoop nbrRk n (seen ++ [compareKey tmpRk]) (found ++ [index]) tmpRk
    else pure found

/-- `scan_file_unique_rp`: the list of indices, or `none` for a negative result. -/
def scanFileUniqueRp (tmpRk : ResidentKey) (fileIdx : UInt8) : BoardM σ H (Option (List UInt8)) := do
  let ret ← ctapOpenRkFile L (fileIdx <<< 4)
  if ret < 0 then closeAndReturn L none
  else if ctapMaxNumberOfRks.toNat < ret then closeAndReturn L none
  else
    let found ← uniqueLoop L ret.toNat ret.toNat [] [] tmpRk
    closeAndReturn L (some found)

/-- The loop of `scan_files_unique_rp` with `n` files to go: the number of RPs and the first list. -/
def filesLoop (tmpRk : ResidentKey) :
    Nat → Nat → Option (UInt8 × List UInt8) → BoardM σ H (Nat × Option (UInt8 × List UInt8))
  | 0, rpCount, first => pure (rpCount, first)
  | n + 1, rpCount, first => do
    let fileIdx := UInt8.ofNat (16 - (n + 1))
    match ← scanFileUniqueRp L tmpRk fileIdx with
    | some (index :: l) =>
      filesLoop tmpRk n (rpCount + (index :: l).length) (first.orElse fun _ => some (fileIdx, index :: l))
    | _ => filesLoop tmpRk n rpCount first

/-- `get_count_unique_relying_parties` with `scan_files_unique_rp`. -/
def getCountUniqueRelyingParties (tmpRk : ResidentKey) : BoardM σ H Nat := do
  let cm := { (← get).world.cm with
    rkIdx := 0
    fileIdx := 0
    lenListUniqueRps := 0 }
  let (rpCount, first) ← filesLoop L tmpRk 16 0 none
  onWorld (setCm (match first with
    | some (fileIdx, l) => { cm with
        fileIdx := fileIdx
        lenListUniqueRps := UInt8.ofNat l.length
        listUniqueRps := cm.listUniqueRps.patch 0 l }
    | none => cm))
  pure rpCount

/-- The `while` loop of `get_next_unique_rp`; the counter ends it after sixteen files. -/
def nextFileLoop (tmpRk : ResidentKey) : Nat → BoardM σ H Unit
  | 0 => pure ()
  | n + 1 => do
    let cm := (← get).world.cm
    if cm.fileIdx.toNat < 16 then
      match ← scanFileUniqueRp L tmpRk cm.fileIdx with
      | some (index :: l) => onWorld (setCm { cm with
          lenListUniqueRps := UInt8.ofNat (index :: l).length
          listUniqueRps := cm.listUniqueRps.patch 0 (index :: l) })
      | _ =>
        onWorld (setCm { cm with
          lenListUniqueRps := 0
          fileIdx := cm.fileIdx + 1 })
        nextFileLoop tmpRk n
    else pure ()

/-- The first part of `get_next_unique_rp`: on to the next file at the end of the list. -/
def endOfFile (tmpRk : ResidentKey) : BoardM σ H Unit := do
  let cm := (← get).world.cm
  if cm.lenListUniqueRps ≤ cm.rkIdx then
    onWorld (setCm { cm with
      fileIdx := cm.fileIdx + 1
      rkIdx := 0
      lenListUniqueRps := 0 })
    nextFileLoop L tmpRk 17
  else pure ()

/-- `get_next_unique_rp`. -/
def getNextUniqueRp (tmpRk outRk : ResidentKey) : BoardM σ H (Int × ResidentKey) := do
  endOfFile L tmpRk
  let cm := (← get).world.cm
  if cm.lenListUniqueRps = 0 then pure (-1, outRk)
  else
    let nbrRk ← ctapOpenRkFile L (cm.fileIdx <<< 4)
    if nbrRk ≤ 0 then closeAndReturn L (-1, outRk)
    else
      let outRk ← ctapLoadRk L (cm.listUniqueRps.byte cm.rkIdx.toNat) outRk
      let outRk := outRk.xcrypt P.prims (← get).world.keys
      onWorld (setCm { cm with rkIdx := cm.rkIdx + 1 })
      closeAndReturn L (0, outRk)

end Fs

/-! ## The invariant -/

namespace Board

variable {σ H : Type}

/-- `_f_rk` was closed whenever it was to be opened. -/
def OpensClosed (b : Board σ H) : Prop := ∀ already ∈ b.opens, already = false

/-- The state between two uses of `_f_rk`. -/
structure Idle (b : Board σ H) : Prop where
  closed : b.fRk.opened = false
  opens : b.OpensClosed

end Board

/-- `m` takes `_f_rk` closed and leaves it closed, on every way out; it does not open it twice, even
where it does not return. -/
def LeavesClosed {σ H α : Type} (m : BoardM σ H α) : Prop :=
  Triple Board.Idle m (fun _ => Board.Idle) Board.OpensClosed

/-- `m` closes `_f_rk`, open or not. -/
def Closes {σ H α : Type} (m : BoardM σ H α) : Prop :=
  Triple Board.OpensClosed m (fun _ => Board.Idle) Board.OpensClosed

/-- `m` works on `_f_rk` without opening it. -/
def Uses {σ H α : Type} (m : BoardM σ H α) : Prop :=
  Triple Board.OpensClosed m (fun _ => Board.OpensClosed) Board.OpensClosed

section Rules

variable {σ H α β : Type} {m : BoardM σ H α} {k : α → BoardM σ H β} {L : Littlefs σ H}

theorem leavesClosed_pure (a : α) : LeavesClosed (pure a : BoardM σ H α) := triple_pure fun _ h => h

theorem LeavesClosed.bind (hm : LeavesClosed m) (hk : ∀ a, LeavesClosed (k a)) : LeavesClosed (m >>= k) :=
  Triple.bind hm hk

theorem leavesClosed_throw (e : Stop) : LeavesClosed (throw e : BoardM σ H α) :=
  triple_throw fun _ h => h.opens

theorem Closes.leavesClosed (h : Closes m) : LeavesClosed m := Triple.mono h (fun _ h => h.opens) fun _ _ h => h

theorem uses_onRk (call : FsCall σ H α) : Uses (onRk call) := fun _ h => h

theorem onWorld_keeps (I : Board σ H → Prop) (hI : ∀ b w, I b → I { b with world := w })
    (hE : ∀ b, I b → b.OpensClosed) (c : CtapM α) : Triple I (onWorld c : BoardM σ H α) (fun _ => I)
      Board.OpensClosed := by
  intro b hb
  unfold Ends onWorld
  cases c b.world with
  | ok a w => exact hI b w hb
  | error e w => exact hE { b with world := w } (hI b w hb)

theorem leavesClosed_onWorld (c : CtapM α) : LeavesClosed (onWorld c : BoardM σ H α) :=
  onWorld_keeps _ (fun _ _ h => ⟨h.closed, h.opens⟩) (fun _ h => h.opens) c

theorem uses_onWorld (c : CtapM α) : Uses (onWorld c : BoardM σ H α) :=
  onWorld_keeps _ (fun _ _ h => h) (fun _ h => h) c

theorem closes_throw (e : Stop) : Closes (throw e : BoardM σ H α) := triple_throw fun _ h => h

theorem Uses.bind_closes (hm : Uses m) (hk : ∀ a, Closes (k a)) : Closes (m >>= k) := Triple.bind hm hk

theorem Uses.bind (hm : Uses m) (hk : ∀ a, Uses (k a)) : Uses (m >>= k) := Triple.bind hm hk

theorem Closes.bind (hm : Closes m) (hk : ∀ a, LeavesClosed (k a)) : Closes (m >>= k) := Triple.bind hm hk

/-- A function that opens the file first, and closes it behind whatever it does. -/
theorem leavesClosed_of_open {rpIdHash : UInt8} {k : Int → BoardM σ H β} (hk : ∀ ret, Closes (k ret)) :
    LeavesClosed (Fs.ctapOpenRkFile L rpIdHash >>= k) := by
  have hopen : Triple Board.Idle (Fs.ctapOpenRkFile L rpIdHash) (fun _ => Board.OpensClosed)
      Board.OpensClosed := by
    intro b hb
    have hopens : ({ b with opens := b.opens ++ [b.fRk.opened] } : Board σ H).OpensClosed := by
      intro already hmem
      rcases List.mem_append.mp hmem with hmem | hmem
      · exact hb.opens already hmem
      · rw [List.mem_singleton.mp hmem]
        exact hb.closed
    unfold Fs.ctapOpenRkFile
    rw [ends_bind, ends_modify]
    refine Uses.bind (uses_onRk _) (fun ret => ?_) _ hopens
    refine triple_ite (fun _ => triple_pure fun _ h => h) fun _ => ?_
    refine Uses.bind (uses_onRk _) fun ret => ?_
    exact triple_ite (fun _ => triple_pure fun _ h => h) fun _ => triple_pure fun _ h => h
  exact Triple.bind hopen hk

section Close

variable (hclose : ∀ h s, (L.fileClose h s).1 = 0)
include hclose

theorem closes_ctapCloseRkFile : Closes (Fs.ctapCloseRkFile L) :=
  fun b hb => ⟨opened_fsCloseFile L hclose b.fRk b.lfs, hb⟩

theorem closes_closeAndReturn (a : α) : Closes (Fs.closeAndReturn L a) :=
  (closes_ctapCloseRkFile hclose).bind fun _ => leavesClosed_pure a

end Close

end Rules

/-! ## Every function leaves the handle closed -/

namespace Fs

section LeavesClosed

variable {σ H : Type} {P : Platform} {L : Littlefs σ H}

theorem uses_ctapLoadNextRk {dst : ResidentKey} : Uses (ctapLoadNextRk L dst) :=
  (uses_onRk _).bind fun _ => triple_pure fun _ h => h

theorem uses_ctapLoadRk {index : UInt8} {dst : ResidentKey} : Uses (ctapLoadRk L index dst) :=
  (uses_onRk _).bind fun _ => triple_pure fun _ h => h

theorem uses_storedLoop {rpIdHash : Bytes 32} {rpIdLookup : Bytes 16} {n count : Nat} {rk : ResidentKey} :
    Uses (Fs.storedLoop P L rpIdHash rpIdLookup n count rk) := by
  induction n generalizing count rk with
  | zero => exact triple_pure fun _ h => h
  | succ n ih =>
    unfold Fs.storedLoop
    refine uses_ctapLoadNextRk.bind fun rk => triple_get_bind fun b => ?_
    refine triple_ite (fun _ => ih) fun _ => ?_
    refine triple_ite (fun _ => triple_pure fun _ h => h) fun _ => ?_
    refine triple_ite (fun _ => ih) fun _ => ?_
    exact (uses_onWorld _).bind fun _ => ih

theorem uses_uniqueLoop {nbrRk n : Nat} {seen : List (List UInt8)} {found : List UInt8}
    {tmpRk : ResidentKey} : Uses (uniqueLoop L nbrRk n seen found tmpRk) := by
  induction n generalizing seen found tmpRk with
  | zero => exact triple_pure fun _ h => h
  | succ n ih =>
    unfold uniqueLoop
    refine uses_ctapLoadRk.bind fun rk => ?_
    refine triple_ite (fun _ => ih) fun _ => ?_
    refine triple_ite (fun _ => ih) fun _ => ?_
    exact triple_ite (fun _ => ih) fun _ => triple_pure fun _ h => h

variable (hclose : ∀ h s, (L.fileClose h s).1 = 0)
include hclose

/-- The loop of `ctap_overwrite_rk`: closed where it returns, in use where it ends. -/
theorem overwriteLoop_closes {rk : ResidentKey} {count fuel : Nat} {i : UInt16} {readRk : ResidentKey} :
    Triple Board.OpensClosed (overwriteLoop L rk count fuel i readRk)
      (fun r b => if r = none then b.OpensClosed else b.Idle) Board.OpensClosed := by
  have hexit (ret : Int) : Triple Board.OpensClosed (closeAndReturn L (some ret) : BoardM σ H _)
      (fun r b => if r = none then b.OpensClosed else b.Idle) Board.OpensClosed := by
    intro b hb
    exact ⟨opened_fsCloseFile L hclose b.fRk b.lfs, hb⟩
  induction fuel generalizing i readRk with
  | zero => exact triple_throw fun _ h => h
  | succ fuel ih =>
    unfold overwriteLoop
    refine triple_ite (fun _ => ?_) fun _ => triple_pure fun _ h => h
    refine Triple.bind (uses_onRk _) fun r => ?_
    refine triple_ite (fun _ => hexit _) fun _ => ?_
    refine triple_ite (fun _ => ih) fun _ => ?_
    refine triple_ite (fun _ => ih) fun _ => ?_
    exact Triple.bind (uses_onRk _) fun ret => hexit _

theorem leavesClosed_ctapOverwriteRk {fuel : Nat} {readRk rk : ResidentKey} :
    LeavesClosed (Fs.ctapOverwriteRk P L fuel readRk rk) := by
  refine leavesClosed_of_open fun ret => ?_
  refine triple_ite (fun _ => closes_closeAndReturn hclose _) fun _ => ?_
  refine Triple.bind (overwriteLoop_closes hclose) fun r => ?_
  cases r with
  | some ret => exact triple_pure fun _ h => h
  | none =>
    refine Uses.bind_closes (uses_onRk _) fun ret => ?_
    refine triple_ite (fun _ => closes_closeAndReturn hclose _) fun _ => ?_
    refine (closes_ctapCloseRkFile hclose).bind fun _ => ?_
    exact (leavesClosed_onWorld _).bind fun _ => leavesClosed_pure _

/-- The moves of `ctap_delete_rk`: closed where it returns, in use where they end. -/
theorem moveLoop_closes {tempRks : Bytes 3330} {i processed remaining : Nat} :
    Triple Board.OpensClosed (moveLoop L tempRks i processed remaining)
      (fun r b => if r = true then b.OpensClosed else b.Idle) Board.OpensClosed := by
  have hexit : Triple Board.OpensClosed (closeAndReturn L false : BoardM σ H _)
      (fun r b => if r = true then b.OpensClosed else b.Idle) Board.OpensClosed := by
    intro b hb
    exact ⟨opened_fsCloseFile L hclose b.fRk b.lfs, hb⟩
  induction remaining using Nat.strong_induction_on generalizing processed with
  | h remaining ih =>
    unfold moveLoop
    refine triple_ite (fun hpos => ?_) fun _ => triple_pure fun _ h => h
    refine Triple.bind (uses_onRk _) fun r => ?_
    refine triple_ite (fun _ => hexit) fun _ => ?_
    refine Triple.bind (uses_onRk _) fun ret => ?_
    have hless : (remaining - if 10 < remaining then 10 else remaining) < remaining := by
      split <;> omega
    exact triple_ite (fun _ => hexit) fun _ => ih _ hless

theorem closes_deleteAt {tempRks : Bytes 3330} {count i : Nat} : Closes (deleteAt P L tempRks count i) := by
  refine Triple.bind (moveLoop_closes hclose) fun moved => ?_
  cases moved with
  | false => exact triple_pure fun _ h => h
  | true =>
    refine Uses.bind_closes (uses_onRk _) fun ret => ?_
    refine triple_ite (fun _ => closes_closeAndReturn hclose _) fun _ => ?_
    refine (closes_ctapCloseRkFile hclose).bind fun _ => ?_
    exact (leavesClosed_onWorld _).bind fun _ => leavesClosed_pure _

theorem closes_deleteLoop {tempRks : Bytes 3330} {id : CredentialId} {count n : Nat} {rk : ResidentKey} :
    Closes (deleteLoop P L tempRks id count n rk) := by
  induction n generalizing rk with
  | zero => exact closes_closeAndReturn hclose _
  | succ n ih =>
    unfold deleteLoop
    refine Uses.bind_closes (uses_onRk _) fun r => ?_
    refine triple_ite (fun _ => closes_closeAndReturn hclose _) fun _ => ?_
    refine triple_ite (fun _ => ih) fun _ => ?_
    exact triple_ite (fun _ => ih) fun _ => closes_deleteAt hclose

theorem leavesClosed_ctapDeleteRk {tempRks : Bytes 3330} {rk : ResidentKey} {id : CredentialId} :
    LeavesClosed (Fs.ctapDeleteRk P L tempRks rk id) := by
  refine leavesClosed_of_open fun ret => ?_
  exact triple_ite (fun _ => closes_closeAndReturn hclose _) fun _ => closes_deleteLoop hclose

theorem closes_verifyLoop {id : CredentialId} {count fuel : Nat} {i : UInt16} {lookupRk : ResidentKey} :
    Closes (verifyLoop P L id count fuel i lookupRk) := by
  induction fuel generalizing i lookupRk with
  | zero => exact closes_throw _
  | succ fuel ih =>
    unfold verifyLoop
    refine triple_ite (fun _ => ?_) fun _ => closes_closeAndReturn hclose _
    refine Uses.bind_closes uses_ctapLoadNextRk fun rk => triple_get_bind fun b => ?_
    refine triple_ite (fun _ => ih) fun _ => ?_
    refine triple_ite (fun _ => ih) fun _ => ?_
    exact triple_ite (fun _ => ih) fun _ => closes_closeAndReturn hclose _

theorem leavesClosed_ctapVerifyRkExists {fuel : Nat} {lookupRk : ResidentKey} {id : CredentialId} :
    LeavesClosed (Fs.ctapVerifyRkExists P L fuel lookupRk id) := by
  refine leavesClosed_of_open fun count => ?_
  exact triple_ite (fun _ => closes_closeAndReturn hclose _) fun _ => closes_verifyLoop hclose

theorem leavesClosed_allowListQualifies {fuel : Nat} {lookupRk : ResidentKey} {rpIdHash : Bytes 32}
    {rpIdLookup : Bytes 16} {cred : CredentialDescriptor} :
    LeavesClosed (Fs.allowListQualifies P L fuel lookupRk rpIdHash rpIdLookup cred) := by
  refine triple_get_bind fun b => ?_
  refine triple_ite (fun _ => leavesClosed_pure _) fun _ => ?_
  refine triple_ite (fun _ => leavesClosed_pure _) fun _ => ?_
  exact triple_ite (fun _ => leavesClosed_ctapVerifyRkExists hclose) fun _ => leavesClosed_pure _

theorem leavesClosed_allowListLoop {lookupRk : ResidentKey} {rpIdHash : Bytes 32} {rpIdLookup : Bytes 16}
    {fuel i credLen count : Nat} :
    LeavesClosed (Fs.allowListLoop P L lookupRk rpIdHash rpIdLookup fuel i credLen count) := by
  induction fuel generalizing i credLen count with
  | zero => exact leavesClosed_throw _
  | succ fuel ih =>
    unfold Fs.allowListLoop
    refine triple_ite (fun _ => triple_get_bind fun b => ?_) fun _ => leavesClosed_pure _
    refine (leavesClosed_allowListQualifies hclose).bind fun qualifies => ?_
    refine triple_ite (fun _ => ih) fun _ => triple_get_bind fun b => ?_
    exact (leavesClosed_onWorld _).bind fun _ => ih

theorem leavesClosed_buildFilteredCredentialList {fuel : Nat} {lookupRk rk : ResidentKey} {credLen : Nat}
    {rpIdHash : Bytes 32} {rpIdLookup : Bytes 16} :
    LeavesClosed (Fs.buildFilteredCredentialList P L fuel lookupRk rk credLen rpIdHash rpIdLookup) := by
  refine (leavesClosed_allowListLoop hclose).bind fun r => ?_
  refine triple_ite (fun _ => ?_) fun _ => ?_
  · refine leavesClosed_of_open fun nrRk => ?_
    refine Uses.bind_closes uses_storedLoop fun count => ?_
    refine (closes_ctapCloseRkFile hclose).bind fun _ => triple_get_bind fun b => ?_
    exact (leavesClosed_onWorld _).bind fun _ => leavesClosed_pure _
  · refine triple_get_bind fun b => ?_
    exact (leavesClosed_onWorld _).bind fun _ => leavesClosed_pure _

theorem closes_scanLoop {rpIdLookup : Bytes 16} {mode : RkMode} {nbrRk fuel count : Nat}
    {outRk : ResidentKey} : Closes (scanLoop P L rpIdLookup mode nbrRk fuel count outRk) := by
  induction fuel generalizing count outRk with
  | zero => exact closes_throw _
  | succ fuel ih =>
    unfold scanLoop
    refine triple_get_bind fun b => triple_ite (fun _ => ?_) fun _ => ?_
    · refine Uses.bind_closes (uses_onWorld _) fun _ => ?_
      refine Uses.bind_closes uses_ctapLoadRk fun rk => ?_
      refine triple_ite (fun _ => ih) fun _ => ?_
      refine triple_ite (fun _ => ih) fun _ => ?_
      refine triple_ite (fun _ => ?_) fun _ => ih
      exact (closes_ctapCloseRkFile hclose).bind fun _ => triple_get_bind fun b => leavesClosed_pure _
    · refine (closes_ctapCloseRkFile hclose).bind fun _ => ?_
      exact (leavesClosed_onWorld _).bind fun _ => leavesClosed_pure _

theorem leavesClosed_scanRk {fuel : Nat} {rpIdLookup : Bytes 16} {mode : RkMode} {outRk : ResidentKey} :
    LeavesClosed (scanRk P L fuel rpIdLookup mode outRk) := by
  refine leavesClosed_of_open fun nbrRk => ?_
  exact triple_ite (fun _ => closes_closeAndReturn hclose _) fun _ => closes_scanLoop hclose

theorem leavesClosed_scanFileUniqueRp {tmpRk : ResidentKey} {fileIdx : UInt8} :
    LeavesClosed (Fs.scanFileUniqueRp L tmpRk fileIdx) := by
  refine leavesClosed_of_open fun ret => ?_
  refine triple_ite (fun _ => closes_closeAndReturn hclose _) fun _ => ?_
  refine triple_ite (fun _ => closes_closeAndReturn hclose _) fun _ => ?_
  exact Uses.bind_closes uses_uniqueLoop fun found => closes_closeAndReturn hclose _

theorem leavesClosed_filesLoop {tmpRk : ResidentKey} {n rpCount : Nat} {first : Option (UInt8 × List UInt8)} :
    LeavesClosed (filesLoop L tmpRk n rpCount first) := by
  induction n generalizing rpCount first with
  | zero => exact leavesClosed_pure _
  | succ n ih =>
    unfold filesLoop
    refine (leavesClosed_scanFileUniqueRp hclose).bind fun found => ?_
    split
    · exact ih
    · exact ih

theorem leavesClosed_getCountUniqueRelyingParties {tmpRk : ResidentKey} :
    LeavesClosed (Fs.getCountUniqueRelyingParties L tmpRk) := by
  refine triple_get_bind fun b => ?_
  refine (leavesClosed_filesLoop hclose).bind fun r => ?_
  exact (leavesClosed_onWorld _).bind fun _ => leavesClosed_pure _

theorem leavesClosed_nextFileLoop {tmpRk : ResidentKey} {n : Nat} : LeavesClosed (nextFileLoop L tmpRk n) := by
  induction n with
  | zero => exact leavesClosed_pure _
  | succ n ih =>
    unfold nextFileLoop
    refine triple_get_bind fun b => triple_ite (fun _ => ?_) fun _ => leavesClosed_pure _
    refine (leavesClosed_scanFileUniqueRp hclose).bind fun found => ?_
    split
    · exact leavesClosed_onWorld _
    · exact (leavesClosed_onWorld _).bind fun _ => ih

theorem leavesClosed_getNextUniqueRp {tmpRk outRk : ResidentKey} :
    LeavesClosed (Fs.getNextUniqueRp P L tmpRk outRk) := by
  have hend : LeavesClosed (endOfFile L tmpRk) := by
    refine triple_get_bind fun b => triple_ite (fun _ => ?_) fun _ => leavesClosed_pure _
    exact (leavesClosed_onWorld _).bind fun _ => leavesClosed_nextFileLoop hclose
  refine hend.bind fun _ => triple_get_bind fun b => ?_
  refine triple_ite (fun _ => leavesClosed_pure _) fun _ => leavesClosed_of_open fun nbrRk => ?_
  refine triple_ite (fun _ => closes_closeAndReturn hclose _) fun _ => ?_
  refine Uses.bind_closes uses_ctapLoadRk fun rk => triple_get_bind fun b => ?_
  exact Uses.bind_closes (uses_onWorld _) fun _ => closes_closeAndReturn hclose _

end LeavesClosed

end Fs

/-! ## Commands -/

/-- The calls that a command makes to functions which use `_f_rk`, with what their arguments and their
uninitialised variables hold. -/
inductive RkCall
  | verifyExists (lookupRk : ResidentKey) (id : CredentialId)
  | overwrite (readRk rk : ResidentKey)
  | delete (tempRks : Bytes 3330) (rk : ResidentKey) (id : CredentialId)
  | filter (lookupRk rk : ResidentKey) (credLen : Nat) (rpIdHash : Bytes 32) (rpIdLookup : Bytes 16)
  | scan (rpIdLookup : Bytes 16) (mode : Fs.RkMode) (outRk : ResidentKey)
  | scanFile (tmpRk : ResidentKey) (fileIdx : UInt8)
  | countRps (tmpRk : ResidentKey)
  | nextRp (tmpRk outRk : ResidentKey)

section Commands

variable {σ H : Type} (P : Platform) (L : Littlefs σ H)

/-- A call, with a bound on the rounds of its loops. -/
def RkCall.run (fuel : Nat) : RkCall → BoardM σ H Unit
  | verifyExists lookupRk id => do let _ ← Fs.ctapVerifyRkExists P L fuel lookupRk id
  | overwrite readRk rk => do let _ ← Fs.ctapOverwriteRk P L fuel readRk rk
  | delete tempRks rk id => do let _ ← Fs.ctapDeleteRk P L tempRks rk id
  | filter lookupRk rk credLen rpIdHash rpIdLookup => do
    let _ ← Fs.buildFilteredCredentialList P L fuel lookupRk rk credLen rpIdHash rpIdLookup
  | scan rpIdLookup mode outRk => do let _ ← Fs.scanRk P L fuel rpIdLookup mode outRk
  | scanFile tmpRk fileIdx => do let _ ← Fs.scanFileUniqueRp L tmpRk fileIdx
  | countRps tmpRk => do let _ ← Fs.getCountUniqueRelyingParties L tmpRk
  | nextRp tmpRk outRk => do let _ ← Fs.getNextUniqueRp P L tmpRk outRk

/-- The states between two such calls, and so those between two commands: a command makes its calls in
any order, and between them it changes whatever it likes but `_f_rk`, which no other function can see.
The file system may be in any state at any time. -/
inductive RkReach : Board σ H → Prop
  | start (world : World) (lfs : σ) : RkReach { world := world, lfs := lfs, fRk := { file := L.zeroed } }
  | call {b b' : Board σ H} (fuel : Nat) (c : RkCall) (h : RkReach b) (hrun : c.run P L fuel b = .ok () b') :
    RkReach b'
  | other {b : Board σ H} (world : World) (lfs : σ) (h : RkReach b) :
    RkReach { b with world := world, lfs := lfs }

end Commands

section Reach

variable {σ H : Type} {P : Platform} {L : Littlefs σ H}

theorem leavesClosed_run (hclose : ∀ h s, (L.fileClose h s).1 = 0) (fuel : Nat) (c : RkCall) :
    LeavesClosed (c.run P L fuel) := by
  have hdrop {α : Type} {m : BoardM σ H α} (hm : LeavesClosed m) :
      LeavesClosed (do let _ ← m) := hm.bind fun _ => leavesClosed_pure _
  cases c with
  | verifyExists => exact hdrop (Fs.leavesClosed_ctapVerifyRkExists hclose)
  | overwrite => exact hdrop (Fs.leavesClosed_ctapOverwriteRk hclose)
  | delete => exact hdrop (Fs.leavesClosed_ctapDeleteRk hclose)
  | filter => exact hdrop (Fs.leavesClosed_buildFilteredCredentialList hclose)
  | scan => exact hdrop (Fs.leavesClosed_scanRk hclose)
  | scanFile => exact hdrop (Fs.leavesClosed_scanFileUniqueRp hclose)
  | countRps => exact hdrop (Fs.leavesClosed_getCountUniqueRelyingParties hclose)
  | nextRp => exact hdrop (Fs.leavesClosed_getNextUniqueRp hclose)

theorem RkReach.idle (hclose : ∀ h s, (L.fileClose h s).1 = 0) {b : Board σ H} (h : RkReach P L b) :
    b.Idle := by
  induction h with
  | start world lfs => exact ⟨rfl, fun _ hmem => absurd hmem List.not_mem_nil⟩
  | call fuel c _ hrun ih => exact (leavesClosed_run hclose fuel c _ ih).ok hrun
  | other world lfs _ ih => exact ⟨ih.closed, ih.opens⟩

end Reach

/-- **`_f_rk` is closed between commands**, whatever littlefs returned for the calls that opened,
measured, read, wrote and cut files before, as long as closing succeeds; and it was closed each time it
was opened, also in a call that does not return. -/
theorem fRk_closed_between_commands {σ H : Type} (P : Platform) (L : Littlefs σ H)
    (hclose : ∀ h s, (L.fileClose h s).1 = 0) (b : Board σ H) (h : RkReach P L b) :
    b.fRk.opened = false ∧ (∀ already ∈ b.opens, already = false) ∧
      ∀ fuel c e b', RkCall.run P L fuel c b = .error e b' → ∀ already ∈ b'.opens, already = false :=
  ⟨(h.idle hclose).closed, (h.idle hclose).opens,
    fun fuel c _ _ hrun => (leavesClosed_run hclose fuel c _ (h.idle hclose)).error hrun⟩

/-- A littlefs in which the size of a file cannot be read, and everything else succeeds. -/
def sizelessFs : Littlefs Files ByteHandle := { byteFs with fileSize := fun h s => (-5, h, s) }

/-- The device before its first command. -/
def newBoard : Board Files ByteHandle :=
  { world := simStart, lfs := fun _ => none, fRk := { file := sizelessFs.zeroed } }

/-- A registration that fails behind the open leaves the handle closed. -/
theorem fRk_closed_behind_failed_overwrite :
    ∃ b, RkCall.run simPlatform sizelessFs 1 (.overwrite {} {}) newBoard = .ok () b ∧
      b.fRk.opened = false :=
  ⟨_, rfl, (fRk_closed_between_commands simPlatform sizelessFs (fun _ _ => rfl) _
    (.call 1 (.overwrite {} {}) (.start simStart fun _ => none) rfl)).1⟩

end TkeyFido2
