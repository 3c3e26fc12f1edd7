import TkeyFido2.Fs.Littlefs
import TkeyFido2.Ctap.Credential

/-!
# The files of resident keys

The part of `device.c` that works on the files of resident keys, call by call: all of it goes
through the one handle `_f_rk`.  `Ctap.Device` says what these functions do when every call succeeds.
-/

namespace TkeyFido2

open Prog

/-! ## Records in memory -/

/-- `sizeof(CTAP_residentKey)`. -/
def residentKeySize : Nat := 333

namespace ResidentKey

/-- The bytes of a record in memory. -/
def toBytes (rk : ResidentKey) : List UInt8 := rk.macInput ++ rk.rkTag.toList

/-- The record that lies in memory. -/
def ofBytes (l : List UInt8) : ResidentKey where
  version := l.getD 0 0
  id := ⟨Bytes.ofList 57 (l.drop 1)⟩
  userRp := Bytes.ofList 227 (l.drop 58)
  userIdLookup := Bytes.ofList 16 (l.drop 285)
  rkNonce := Bytes.ofList 16 (l.drop 301)
  rkTag := Bytes.ofList 16 (l.drop 317)

theorem length_toBytes (rk : ResidentKey) : rk.toBytes.length = residentKeySize := by
  unfold toBytes macInput
  simp only [List.length_append, List.Vector.toList_length, List.length_singleton]
  rfl

theorem ofBytes_toBytes (rk : ResidentKey) : ofBytes rk.toBytes = rk := by
  have hfield {n : Nat} (pre rest : List UInt8) (b : Bytes n) {off : Nat} (hoff : pre.length = off)
      (h : rk.toBytes = pre ++ (b.toList ++ rest)) : Bytes.ofList n (rk.toBytes.drop off) = b := by
    rw [h, List.drop_left' hoff, Bytes.ofList_append]
  unfold ofBytes
  rw [hfield [rk.version] (rk.userRp.toList ++ rk.userIdLookup.toList ++ rk.rkNonce.toList ++ rk.rkTag.toList)
      rk.id.raw (by simp) (by simp [toBytes, macInput]),
    hfield ([rk.version] ++ rk.id.raw.toList) (rk.userIdLookup.toList ++ rk.rkNonce.toList ++ rk.rkTag.toList)
      rk.userRp (by simp) (by simp [toBytes, macInput]),
    hfield ([rk.version] ++ rk.id.raw.toList ++ rk.userRp.toList) (rk.rkNonce.toList ++ rk.rkTag.toList)
      rk.userIdLookup (by simp) (by simp [toBytes, macInput]),
    hfield ([rk.version] ++ rk.id.raw.toList ++ rk.userRp.toList ++ rk.userIdLookup.toList) rk.rkTag.toList
      rk.rkNonce (by simp) (by simp [toBytes, macInput]),
    hfield rk.macInput [] rk.rkTag (by simp [macInput]) (by simp [toBytes])]
  rfl

theorem toBytes_ofBytes {l : List UInt8} (h : l.length = residentKeySize) : (ofBytes l).toBytes = l := by
  have hfield (off n : Nat) (hle : off + n ≤ 333) :
      (Bytes.ofList n (l.drop off)).toList = (l.drop off).take n := by
    rw [Bytes.toList_ofList, List.take_append_of_le_length]
    rw [List.length_drop, h]
    exact Nat.le_sub_of_add_le' hle
  have hcut (off n : Nat) : (l.drop off).take n ++ l.drop (off + n) = l.drop off := by
    rw [← List.drop_drop, List.take_append_drop]
  have hhead : [l.getD 0 0] = (l.drop 0).take 1 := by
    obtain ⟨a, l', rfl⟩ := List.exists_cons_of_length_pos (l := l) (by rw [h]; decide)
    rfl
  have hlast : (l.drop 317).take 16 = l.drop 317 :=
    List.take_of_length_le (by rw [List.length_drop, h]; decide)
  unfold toBytes macInput ofBytes
  simp only [hfield 1 57 (by decide), hfield 58 227 (by decide),
    hfield 285 16 (by decide), hfield 301 16 (by decide),
    hfield 317 16 (by decide), hhead, List.append_assoc]
  rw [hlast, hcut 301, hcut 285, hcut 58, hcut 1, hcut 0, List.drop_zero]

/-- Records as a file holds them. -/
def format : ByteFile.RecordFormat ResidentKey where
  size := residentKeySize
  encode := toBytes
  decode := ofBytes
  length_encode := length_toBytes
  decode_encode := ofBytes_toBytes
  encode_decode _ := toBytes_ofBytes

/-- A record variable after bytes were read into it: a short read leaves the rest as it was. -/
def store (rk : ResidentKey) (data : List UInt8) : ResidentKey :=
  ofBytes (data.take residentKeySize ++ rk.toBytes.drop data.length)

theorem store_toBytes (rk r : ResidentKey) : rk.store r.toBytes = r := by
  unfold store
  rw [List.take_of_length_le (le_of_eq (length_toBytes r)),
    List.drop_eq_nil_of_le (by rw [length_toBytes, length_toBytes]), List.append_nil, ofBytes_toBytes]

end ResidentKey

/-! ## The device -/

/-- The globals, the file system and the handle `_f_rk`.  The files of records and the counter stand
in `lfs`; the fields of `world` for them are not used.  `opens` records for every call that opens
`_f_rk` whether it was open already. -/
structure Board (σ H : Type) where
  world : World
  lfs : σ
  fRk : FsFile H
  opens : List Bool := []

/-- A function of `device.c` or one that calls them. -/
abbrev BoardM (σ H : Type) := EStateM Stop (Board σ H)

section Board

variable {σ H α : Type} {b : Board σ H}

/-- A call of `fs.c` with `&_f_rk`. -/
def onRk (call : FsCall σ H α) : BoardM σ H α := modifyGet fun b =>
  let r := call b.fRk b.lfs
  (r.1, { b with fRk := r.2.1, lfs := r.2.2 })

/-- A function that uses no file of records. -/
def onWorld (m : CtapM α) : BoardM σ H α := fun b =>
  match m b.world with
  | .ok a w => .ok a { b with world := w }
  | .error e w => .error e { b with world := w }

theorem onRk_of_eq {call : FsCall σ H α} {a : α} {f : FsFile H} {s : σ} (h : call b.fRk b.lfs = (a, f, s)) :
    onRk call b = .ok a { b with fRk := f, lfs := s } := by
  show EStateM.Result.ok (call b.fRk b.lfs).1
    { b with fRk := (call b.fRk b.lfs).2.1, lfs := (call b.fRk b.lfs).2.2 } = _
  rw [h]

theorem onWorld_of_ok {m : CtapM α} {a : α} {w : World} (h : m b.world = .ok a w) :
    onWorld m b = .ok a { b with world := w } := by
  unfold onWorld
  rw [h]

end Board

namespace Fs

variable {σ H : Type} (P : Platform) (L : Littlefs σ H)

/-! ## Opening, closing, reading -/

/-- `ctap_open_rk_file` for a hash with this first byte. -/
def ctapOpenRkFile (rpIdHash : UInt8) : BoardM σ H Int := do
  modify fun b => { b with opens := b.opens ++ [b.fRk.opened] }
  let ret ← onRk (fsOpenFile L (.rk (rpidHashToFile rpIdHash)))
  if ret < 0 then pure (-1)
  else
    let ret ← onRk (fsFileSize L)
    if ret < 0 then pure (-1) else pure (ret.tdiv residentKeySize)

/-- `ctap_close_rk_file`. -/
def ctapCloseRkFile : BoardM σ H Int := onRk (fsCloseFile L)

/-- `ctap_load_next_rk`; the result of the read is ignored. -/
def ctapLoadNextRk (dst : ResidentKey) : BoardM σ H ResidentKey := do
  let r ← onRk (fsRead L residentKeySize)
  pure (dst.store r.2)

/-- `ctap_load_rk`; the result of the read is ignored. -/
def ctapLoadRk (index : UInt8) (dst : ResidentKey) : BoardM σ H ResidentKey := do
  let r ← onRk (fsReadAt L residentKeySize (index.toNat * residentKeySize))
  pure (dst.store r.2)

/-- The exit that most functions take: close the file and return. -/
def closeAndReturn {α : Type} (ret : α) : BoardM σ H α := do
  let _ ← ctapCloseRkFile L
  pure ret

/-! ## ctap_overwrite_rk -/

/-- The loop of `ctap_overwrite_rk` with the counter `i`; `none` where it ends without a return. -/
def overwriteLoop (rk : ResidentKey) (count : Nat) : Nat → UInt16 → ResidentKey → BoardM σ H (Option Int)
  | 0, _, _ => throw (.halt .loop)
  | fuel + 1, i, readRk =>
    if i.toNat < count then do
      let r ← onRk (fsRead L residentKeySize)
      if r.1 ≤ 0 then closeAndReturn L (some (-1))
      else
        let readRk := readRk.store r.2
        if readRk.id.rpIdLookup ≠ rk.id.rpIdLookup then overwriteLoop rk count fuel (i + 1) readRk
        else if readRk.userIdLookup ≠ rk.userIdLookup then overwriteLoop rk count fuel (i + 1) readRk
        else do
          let ret ← onRk (fsWriteAt L rk.toBytes (i.toNat * residentKeySize))
          closeAndReturn L (some (if ret ≤ 0 then -1 else 0))
    else pure none

/-- `ctap_overwrite_rk`; `readRk` is what the variable holds at first. -/
def ctapOverwriteRk (fuel : Nat) (readRk rk : ResidentKey) : BoardM σ H Int := do
  let ret ← ctapOpenRkFile L (rk.id.rpIdLookup.byte 0)
  if ret < 0 then closeAndReturn L (-1)
  else
    let count := ret.toNat
    match ← overwriteLoop L rk count fuel 0 readRk with
    | some ret => pure ret
    | none =>
      let ret ← onRk (fsWriteAt L rk.toBytes (count * residentKeySize))
      if ret ≤ 0 then closeAndReturn L (-1)
      else
        let _ ← ctapCloseRkFile L
        onWorld (ctapIncrementRkStore P)
        pure 0

/-! ## ctap_delete_rk -/

/-- The `while` loop of `ctap_delete_rk`: the records behind record `i` are moved down, at most ten
at a time.  `false` where it returns -1.  `tempRks` is what the buffer holds at first. -/
def moveLoop (tempRks : Bytes 3330) (i processed remaining : Nat) : BoardM σ H Bool :=
  if 0 < remaining then do
    let toRead := if 10 < remaining then 10 else remaining
    let r ← onRk (fsReadAt L (toRead * residentKeySize) ((i + 1 + processed) * residentKeySize))
    if r.1 ≤ 0 then closeAndReturn L false
    else
      let temp := tempRks.patch 0 r.2
      let ret ← onRk (fsWriteAt L (temp.toList.take r.1.toNat) ((i + processed) * residentKeySize))
      if ret ≤ 0 then closeAndReturn L false
      else moveLoop tempRks i (processed + toRead) (remaining - toRead)
  else pure true
termination_by remaining
decreasing_by split <;> omega

/-- `ctap_delete_rk` from the match of record `i` on. -/
def deleteAt (tempRks : Bytes 3330) (count i : Nat) : BoardM σ H Int := do
  if ← moveLoop L tempRks i 0 (count - (i + 1)) then
    let ret ← onRk (fsTruncateFile L ((count - 1) * residentKeySize))
    if ret < 0 then closeAndReturn L (-1)
    else
      let _ ← ctapCloseRkFile L
      onWorld (ctapDecrementRkStore P)
      pure 0
  else pure (-1)

/-- The loop of `ctap_delete_rk` with `n` records to go. -/
def deleteLoop (tempRks : Bytes 3330) (id : CredentialId) (count : Nat) : Nat → ResidentKey → BoardM σ H Int
  | 0, _ => closeAndReturn L (-1)
  | n + 1, rk => do
    let r ← onRk (fsRead L residentKeySize)
    if r.1 ≤ 0 then closeAndReturn L (-1)
    else
      let rk := rk.store r.2
      if id.rpIdLookup ≠ rk.id.rpIdLookup then deleteLoop tempRks id count n rk
      -- the tag is unique
      else if id.tag ≠ rk.id.tag then deleteLoop tempRks id count n rk
      else deleteAt P L tempRks count (count - (n + 1))

/-- `ctap_delete_rk`; `rk` and `tempRks` are what the variables hold at first. -/
def ctapDeleteRk (tempRks : Bytes 3330) (rk : ResidentKey) (id : CredentialId) : BoardM σ H Int := do
  let ret ← ctapOpenRkFile L (id.rpIdLookup.byte 0)
  if ret ≤ 0 then closeAndReturn L (-1)
  else deleteLoop P L tempRks id ret.toNat ret.toNat rk

end Fs

end TkeyFido2
