import TkeyFido2.Ctap.Simulator
import TkeyFido2.Ctap.StateRoundTrip
import TkeyFido2.Ctap.RpBinding
import TkeyFido2.Fs.ResidentKeys

/-!
# ctap_delete_rk removes one record

Over files that are byte arrays, `ctap_delete_rk` is removal from a list: the pieces of ten records
that it moves down close the gap, wherever the record stands and however many are behind it.
-/

namespace TkeyFido2

open Prog ByteFile

/-- The check of `ctap_delete_rk` on a record. -/
def CredentialId.Deletes (id : CredentialId) (rk : ResidentKey) : Prop :=
  id.rpIdLookup = rk.id.rpIdLookup ∧ id.tag = rk.id.tag

/-- The file that `ctap_delete_rk` opens. -/
def CredentialId.path (id : CredentialId) : Path := .rk (rkFile id.rpIdLookup)

/-- The world behind `ctap_decrement_rk_store`. -/
def World.decremented (P : Platform) (w : World) : World :=
  World.flushed P { w with state := { w.state with rkStored := w.state.rkStored - 1 } }

theorem ctapDecrementRkStore_eq (P : Platform) (w : World) :
    ctapDecrementRkStore P w = .ok () (w.decremented P) :=
  authenticatorWriteState_eq _

namespace Board

/-- The handle open on a file at a position. -/
def openedAt (b : Board Files ByteHandle) (p : Path) (pos : Nat) (s : Files) : Board Files ByteHandle :=
  { b with fRk := openAt p pos, lfs := s }

/-- The handle closed. -/
def closedAt (b : Board Files ByteHandle) (p : Path) (pos : Nat) (s : Files) : Board Files ByteHandle :=
  { b with fRk := ⟨⟨p, pos⟩, false⟩, lfs := s }

end Board

namespace Fs

variable {P : Platform} {b : Board Files ByteHandle} {s : Files} {p : Path} {rks : List ResidentKey}
  {id : CredentialId} {rk r : ResidentKey} {tempRks : Bytes 3330} {i n m count pos : Nat}

/-! ## Opening, closing, reading -/

theorem residentKeySize_pos : ¬ ((residentKeySize : Nat) : Int) ≤ 0 := by decide

theorem closeAndReturn_run {α : Type} {ret : α} :
    closeAndReturn byteFs ret (b.openedAt p pos s) = .ok ret (b.closedAt p pos s) := rfl

/-- Opening a file of records gives their number. -/
theorem ctapOpenRkFile_run {hash : UInt8} (hb : b.fRk.opened = false) (hp : p = .rk (rpidHashToFile hash))
    (hs : b.lfs.bytes p = ResidentKey.format.file rks) :
    ctapOpenRkFile byteFs hash b = .ok (rks.length : Int)
      (({ b with opens := b.opens ++ [false] } : Board Files ByteHandle).openedAt p 0
        (b.lfs.put p (ResidentKey.format.file rks))) := by
  have hopen : fsOpenFile byteFs p b.fRk b.lfs = (0, openAt p 0, b.lfs.put p (ResidentKey.format.file rks)) := by
    rw [show b.fRk = ⟨b.fRk.file, false⟩ by rw [← hb], byteFs_open, hs]
  have hsize : fsFileSize byteFs (openAt p 0) (b.lfs.put p (ResidentKey.format.file rks))
      = (((rks.length * residentKeySize : Nat) : Int), openAt p 0,
        b.lfs.put p (ResidentKey.format.file rks)) := by
    rw [byteFs_size, Files.bytes_put_self, ByteFile.RecordFormat.length_file]
    rfl
  have hdiv : ((rks.length * residentKeySize : Nat) : Int).tdiv residentKeySize = rks.length := by
    rw [Nat.cast_mul]
    exact Int.mul_tdiv_cancel _ (by decide)
  unfold ctapOpenRkFile
  rw [bind_of_ok (a := ⟨⟩) (modify_eq_ok.mpr rfl), hb, ← hp]
  refine (bind_of_ok (onRk_of_eq (b := { b with opens := b.opens ++ [false] }) hopen)).trans ?_
  rw [if_neg (lt_irrefl _)]
  refine (bind_of_ok (onRk_of_eq hsize)).trans ?_
  rw [if_neg (by omega), hdiv]
  rfl

theorem read_run (hs : s.bytes p = ResidentKey.format.file rks) (hi : rks[i]? = some r) :
    onRk (fsRead byteFs residentKeySize) (b.openedAt p (i * residentKeySize) s)
      = .ok ((residentKeySize : Nat), r.toBytes) (b.openedAt p ((i + 1) * residentKeySize) s) := by
  have hread : ByteFile.read (s.bytes p) (i * residentKeySize) residentKeySize = r.toBytes := by
    rw [hs]
    exact ResidentKey.format.read_record hi
  refine onRk_of_eq ?_
  show fsRead byteFs residentKeySize (openAt p (i * residentKeySize)) s = _
  rw [byteFs_read, hread, ResidentKey.length_toBytes, Nat.succ_mul]

theorem readAt_run (len off : Nat) : onRk (fsReadAt byteFs len off) (b.openedAt p pos s)
    = .ok (((ByteFile.read (s.bytes p) off len).length : Int), ByteFile.read (s.bytes p) off len)
      (b.openedAt p (off + (ByteFile.read (s.bytes p) off len).length) s) := rfl

theorem writeAt_run (buf : List UInt8) (off : Nat) : onRk (fsWriteAt byteFs buf off) (b.openedAt p pos s)
    = .ok (buf.length : Int) (b.openedAt p (off + buf.length) (s.put p (ByteFile.write (s.bytes p) off buf))) := rfl

theorem truncate_run (size : Nat) : onRk (fsTruncateFile byteFs size) (b.openedAt p pos s)
    = .ok 0 (b.openedAt p pos (s.put p (ByteFile.truncate (s.bytes p) size))) := rfl

/-! ## The search -/

/-- A record that is not the one looked for. -/
theorem deleteLoop_skip (hs : s.bytes p = ResidentKey.format.file rks) (hi : rks[i]? = some r)
    (hr : ¬ id.Deletes r) :
    deleteLoop P byteFs tempRks id count (n + 1) rk (b.openedAt p (i * residentKeySize) s)
      = deleteLoop P byteFs tempRks id count n r (b.openedAt p ((i + 1) * residentKeySize) s) := by
  rw [deleteLoop, bind_of_ok (read_run hs hi), if_neg residentKeySize_pos, ResidentKey.store_toBytes]
  by_cases hlookup : id.rpIdLookup = r.id.rpIdLookup
  · rw [if_neg (not_not_intro hlookup), if_pos fun htag => hr ⟨hlookup, htag⟩]
  · rw [if_pos hlookup]

/-- The record looked for. -/
theorem deleteLoop_match (hs : s.bytes p = ResidentKey.format.file rks) (hi : rks[i]? = some r)
    (hr : id.Deletes r) (hn : i + (n + 1) = count) :
    deleteLoop P byteFs tempRks id count (n + 1) rk (b.openedAt p (i * residentKeySize) s)
      = deleteAt P byteFs tempRks count i (b.openedAt p ((i + 1) * residentKeySize) s) := by
  rw [deleteLoop, bind_of_ok (read_run hs hi), if_neg residentKeySize_pos, ResidentKey.store_toBytes,
    if_neg (not_not_intro hr.1), if_neg (not_not_intro hr.2), ← hn, Nat.add_sub_cancel]

theorem deleteLoop_none (hs : s.bytes p = ResidentKey.format.file rks) (hin : i + n = rks.length)
    (hr : ∀ r ∈ rks.drop i, ¬ id.Deletes r) :
    deleteLoop P byteFs tempRks id rks.length n rk (b.openedAt p (i * residentKeySize) s)
      = .ok (-1) (b.closedAt p (rks.length * residentKeySize) s) := by
  induction n generalizing i rk with
  | zero =>
    obtain rfl : i = rks.length := hin
    exact closeAndReturn_run
  | succ n ih =>
    have hi : i < rks.length := by omega
    rw [List.drop_eq_getElem_cons hi] at hr
    obtain ⟨hhead, htail⟩ := List.forall_mem_cons.mp hr
    rw [deleteLoop_skip hs (List.getElem?_eq_getElem hi) hhead, ih (by omega) htail]

theorem deleteLoop_found (hs : s.bytes p = ResidentKey.format.file rks) (hin : i + n = rks.length)
    (him : i ≤ m) (hm : rks[m]? = some r) (hr : id.Deletes r)
    (hfirst : ∀ j < m, ∀ r', rks[j]? = some r' → ¬ id.Deletes r') :
    deleteLoop P byteFs tempRks id rks.length n rk (b.openedAt p (i * residentKeySize) s)
      = deleteAt P byteFs tempRks rks.length m (b.openedAt p ((m + 1) * residentKeySize) s) := by
  have hlt : m < rks.length := (List.getElem?_eq_some_iff.mp hm).1
  induction n generalizing i rk with
  | zero => omega
  | succ n ih =>
    rcases Nat.eq_or_lt_of_le him with rfl | him
    · exact deleteLoop_match hs hm hr hin
    · have hi : i < rks.length := by omega
      rw [deleteLoop_skip hs (List.getElem?_eq_getElem hi) (hfirst i him _ (List.getElem?_eq_getElem hi)),
        ih (by omega) him]

/-! ## Moving the records down -/

/-- One piece of at most ten records moved. -/
theorem moveLoop_step (b : Board Files ByteHandle) (tempRks : Bytes 3330) (pos : Nat) {f : List UInt8}
    {processed remaining toRead : Nat}
    (hs : s p = some (moved f (i * residentKeySize) residentKeySize (processed * residentKeySize)))
    (hf : f.length = (i + 1 + processed + remaining) * residentKeySize) (hpos : 0 < remaining)
    (hread : toRead = if 10 < remaining then 10 else remaining) :
    ∃ pos', moveLoop byteFs tempRks i processed remaining (b.openedAt p pos s)
      = moveLoop byteFs tempRks i (processed + toRead) (remaining - toRead) (b.openedAt p pos'
        (s.put p (moved f (i * residentKeySize) residentKeySize ((processed + toRead) * residentKeySize)))) := by
  have hle : toRead ≤ remaining ∧ toRead ≤ 10 ∧ 0 < toRead := by
    rw [hread]
    split <;> omega
  have hbytes : s.bytes p = moved f (i * residentKeySize) residentKeySize (processed * residentKeySize) := by
    unfold Files.bytes
    rw [hs, Option.getD_some]
  have hsize : residentKeySize = 333 := rfl
  have hpiece : ByteFile.read (s.bytes p) ((i + 1 + processed) * residentKeySize) (toRead * residentKeySize)
      = ByteFile.read f ((i + 1 + processed) * residentKeySize) (toRead * residentKeySize) := by
    rw [hbytes, show (i + 1 + processed) * residentKeySize
        = i * residentKeySize + residentKeySize + processed * residentKeySize by rw [hsize]; omega]
    exact read_moved (by rw [hf, hsize]; omega)
  have hlen : (ByteFile.read f ((i + 1 + processed) * residentKeySize) (toRead * residentKeySize)).length
      = toRead * residentKeySize := length_read (by rw [hf, hsize]; omega)
  have hwrite : ByteFile.write (s.bytes p) ((i + processed) * residentKeySize)
        (ByteFile.read f ((i + 1 + processed) * residentKeySize) (toRead * residentKeySize))
      = moved f (i * residentKeySize) residentKeySize ((processed + toRead) * residentKeySize) := by
    rw [hbytes, show (i + 1 + processed) * residentKeySize
        = i * residentKeySize + residentKeySize + processed * residentKeySize by rw [hsize]; omega,
      Nat.add_mul, Nat.add_mul]
    exact write_moved (by rw [hf, hsize]; omega)
  -- the buffer holds exactly what was read
  have htemp : (tempRks.patch 0
        (ByteFile.read f ((i + 1 + processed) * residentKeySize) (toRead * residentKeySize))).toList.take
          (toRead * residentKeySize)
      = ByteFile.read f ((i + 1 + processed) * residentKeySize) (toRead * residentKeySize) := by
    have htake := Bytes.take_patch tempRks 0 _ (by rw [hlen, hsize]; omega)
    rwa [Nat.zero_add, hlen, List.take_zero, List.nil_append] at htake
  refine ⟨(i + processed) * residentKeySize + toRead * residentKeySize, ?_⟩
  rw [moveLoop, if_pos hpos, ← hread, bind_of_ok (readAt_run _ _), hpiece, hlen,
    if_neg (by rw [hsize]; omega), Int.toNat_natCast, htemp, bind_of_ok (writeAt_run _ _), hlen, hwrite,
    if_neg (by rw [hsize]; omega)]

/-- All records behind record `i` moved. -/
theorem moveLoop_run (b : Board Files ByteHandle) (tempRks : Bytes 3330) (pos : Nat) {f : List UInt8}
    {processed remaining : Nat}
    (hs : s p = some (moved f (i * residentKeySize) residentKeySize (processed * residentKeySize)))
    (hf : f.length = (i + 1 + processed + remaining) * residentKeySize) :
    ∃ pos', moveLoop byteFs tempRks i processed remaining (b.openedAt p pos s) = .ok true (b.openedAt p pos'
      (s.put p (moved f (i * residentKeySize) residentKeySize ((processed + remaining) * residentKeySize)))) := by
  induction remaining using Nat.strong_induction_on generalizing processed s pos with
  | h remaining ih =>
    by_cases hpos : 0 < remaining
    · obtain ⟨toRead, hread⟩ : ∃ toRead, toRead = if 10 < remaining then 10 else remaining := ⟨_, rfl⟩
      have hle : toRead ≤ remaining ∧ 0 < toRead := by
        rw [hread]
        split <;> omega
      obtain ⟨pos₁, h₁⟩ := moveLoop_step b tempRks pos hs hf hpos hread
      have hmoved : (s.put p (moved f (i * residentKeySize) residentKeySize
          ((processed + toRead) * residentKeySize))) p = some (moved f (i * residentKeySize) residentKeySize
            ((processed + toRead) * residentKeySize)) := Function.update_self ..
      obtain ⟨pos₂, h₂⟩ := ih (remaining - toRead) (by omega) pos₁ hmoved (by rw [hf]; congr 1; omega)
      refine ⟨pos₂, ?_⟩
      rw [h₁, h₂, Files.put_put, show processed + toRead + (remaining - toRead) = processed + remaining by omega]
    · obtain rfl : remaining = 0 := by omega
      refine ⟨pos, ?_⟩
      rw [moveLoop, if_neg hpos, Nat.add_zero, Files.put_self hs]
      rfl

theorem deleteAt_run (hs : s p = some (ResidentKey.format.file rks)) (hm : m < rks.length) :
    ∃ pos', deleteAt P byteFs tempRks rks.length m (b.openedAt p pos s) = .ok 0
      { b.closedAt p pos' (s.put p (ResidentKey.format.file (rks.eraseIdx m))) with
        world := b.world.decremented P } := by
  have hlen : (ResidentKey.format.file rks).length = rks.length * residentKeySize :=
    ResidentKey.format.length_file rks
  have hcut : truncate (moved (ResidentKey.format.file rks) (m * residentKeySize) residentKeySize
        ((0 + (rks.length - (m + 1))) * residentKeySize)) ((rks.length - 1) * residentKeySize)
      = ResidentKey.format.file (rks.eraseIdx m) := by
    have hk : m * residentKeySize + (0 + (rks.length - (m + 1))) * residentKeySize
        = (rks.length - 1) * residentKeySize := by
      rw [← Nat.add_mul]
      congr 1
      omega
    rw [← hk, truncate_moved (by rw [hlen]; unfold residentKeySize; omega),
      ← ResidentKey.format.file_eraseIdx rks m, Nat.succ_mul]
    rfl
  have hstart : s p = some (moved (ResidentKey.format.file rks) (m * residentKeySize) residentKeySize
      (0 * residentKeySize)) := by
    rw [Nat.zero_mul, moved_zero, hs]
  have hsize : (ResidentKey.format.file rks).length
      = (m + 1 + 0 + (rks.length - (m + 1))) * residentKeySize := by
    rw [hlen]
    congr 1
    omega
  obtain ⟨pos', hmove⟩ := moveLoop_run b tempRks pos hstart hsize
  refine ⟨pos', ?_⟩
  unfold deleteAt
  rw [bind_of_ok hmove, if_pos rfl, bind_of_ok (truncate_run _), Files.bytes_put_self, hcut,
    if_neg (lt_irrefl _), Files.put_put]
  have hclose : ctapCloseRkFile byteFs
      (b.openedAt p pos' (s.put p (ResidentKey.format.file (rks.eraseIdx m))))
      = .ok 0 (b.closedAt p pos' (s.put p (ResidentKey.format.file (rks.eraseIdx m)))) := rfl
  refine (bind_of_ok hclose).trans ?_
  rw [bind_of_ok (onWorld_of_ok (ctapDecrementRkStore_eq P _))]
  rfl

/-! ## The whole function -/

theorem ctapDeleteRk_found (tempRks : Bytes 3330) (rk : ResidentKey) (hb : b.fRk.opened = false)
    (hs : b.lfs.bytes id.path = ResidentKey.format.file rks) (hm : rks[m]? = some r) (hr : id.Deletes r)
    (hfirst : ∀ j < m, ∀ r', rks[j]? = some r' → ¬ id.Deletes r') :
    ∃ b', Fs.ctapDeleteRk P byteFs tempRks rk id b = .ok 0 b' ∧
      b'.lfs = b.lfs.put id.path (ResidentKey.format.file (rks.eraseIdx m)) ∧
      b'.world = b.world.decremented P ∧ b'.fRk.opened = false := by
  have hlt : m < rks.length := (List.getElem?_eq_some_iff.mp hm).1
  have hopen := ctapOpenRkFile_run hb rfl hs
  have hput : (b.lfs.put id.path (ResidentKey.format.file rks)) id.path
      = some (ResidentKey.format.file rks) := Function.update_self ..
  have hbytes : (b.lfs.put id.path (ResidentKey.format.file rks)).bytes id.path
      = ResidentKey.format.file rks := Files.bytes_put_self
  obtain ⟨b₁, hb₁⟩ : ∃ b₁, b₁ = ({ b with opens := b.opens ++ [false] } : Board Files ByteHandle) := ⟨_, rfl⟩
  have hloop : deleteLoop P byteFs tempRks id rks.length rks.length rk (b₁.openedAt id.path (0 * residentKeySize) _)
      = _ := deleteLoop_found hbytes (Nat.zero_add _) (Nat.zero_le m) hm hr hfirst
  obtain ⟨pos, hdelete⟩ : ∃ pos, deleteAt P byteFs tempRks rks.length m
      (b₁.openedAt id.path ((m + 1) * residentKeySize) _) = _ := deleteAt_run hput hlt
  rw [← hb₁] at hopen
  rw [Nat.zero_mul] at hloop
  unfold Fs.ctapDeleteRk
  rw [bind_of_ok hopen, if_neg (by omega), Int.toNat_natCast]
  exact ⟨_, hloop.trans hdelete, Files.put_put, by rw [hb₁], rfl⟩

theorem ctapDeleteRk_none (tempRks : Bytes 3330) (rk : ResidentKey) (hb : b.fRk.opened = false)
    (hs : b.lfs.bytes id.path = ResidentKey.format.file rks) (hr : ∀ r ∈ rks, ¬ id.Deletes r) :
    ∃ b', Fs.ctapDeleteRk P byteFs tempRks rk id b = .ok (-1) b' ∧
      b'.lfs = b.lfs.put id.path (b.lfs.bytes id.path) ∧ b'.world = b.world ∧ b'.fRk.opened = false := by
  have hopen := ctapOpenRkFile_run hb rfl hs
  unfold Fs.ctapDeleteRk
  rw [bind_of_ok hopen, hs]
  by_cases hlen : (rks.length : Int) ≤ 0
  · rw [if_pos hlen]
    exact ⟨_, closeAndReturn_run, rfl, rfl, rfl⟩
  · have hbytes : (b.lfs.put id.path (ResidentKey.format.file rks)).bytes id.path
        = ResidentKey.format.file rks := Files.bytes_put_self
    obtain ⟨b₁, hb₁⟩ : ∃ b₁, b₁ = ({ b with opens := b.opens ++ [false] } : Board Files ByteHandle) := ⟨_, rfl⟩
    have hloop : deleteLoop P byteFs tempRks id rks.length rks.length rk (b₁.openedAt id.path (0 * residentKeySize) _)
        = _ := deleteLoop_none hbytes (Nat.zero_add _) hr
    rw [if_neg hlen, Int.toNat_natCast, ← hb₁]
    rw [Nat.zero_mul] at hloop
    exact ⟨_, hloop, rfl, by rw [hb₁]; rfl, rfl⟩

end Fs

/-- **`ctap_delete_rk` is removal from a list**, for a file with any number of records.  Where record
`i` is the first with the RP lookup and the tag of the credential ID, the file holds the same records
without it afterwards, every other file is as before, and `rk_stored` is one less, as it is then in
the file `state`.  Where there is none, the result is -1 and nothing changes; a file that did not exist is
there afterwards, without records. -/
theorem ctapDeleteRk_removes (P : Platform) (tempRks : Bytes 3330) (rk : ResidentKey) (id : CredentialId)
    (b : Board Files ByteHandle) (rks : List ResidentKey) (hclosed : b.fRk.opened = false)
    (hfile : b.lfs.bytes id.path = ResidentKey.format.file rks) :
    (∀ i r, rks[i]? = some r → id.Deletes r → (∀ j < i, ∀ r', rks[j]? = some r' → ¬ id.Deletes r') →
      ∃ b', Fs.ctapDeleteRk P byteFs tempRks rk id b = .ok 0 b' ∧
        b'.lfs.bytes id.path = ResidentKey.format.file (rks.eraseIdx i) ∧
        (∀ q, q ≠ id.path → b'.lfs q = b.lfs q) ∧
        b'.world = World.flushed P
          { b.world with state := { b.world.state with rkStored := b.world.state.rkStored - 1 } } ∧
        (0 < b.world.state.rkStored →
          b'.world.state.rkStored.toNat + 1 = b.world.state.rkStored.toNat)) ∧
    ((∀ r ∈ rks, ¬ id.Deletes r) →
      ∃ b', Fs.ctapDeleteRk P byteFs tempRks rk id b = .ok (-1) b' ∧
        (∀ q, b'.lfs.bytes q = b.lfs.bytes q) ∧ (b.lfs id.path ≠ none → b'.lfs = b.lfs) ∧
        b'.world = b.world) := by
  constructor
  · intro i r hi hr hfirst
    obtain ⟨b', hrun, hlfs, hworld, -⟩ := Fs.ctapDeleteRk_found tempRks rk hclosed hfile hi hr hfirst
    refine ⟨b', hrun, ?_, ?_, hworld, ?_⟩
    · rw [hlfs, Files.bytes_put_self]
    · intro q hq
      rw [hlfs]
      exact Function.update_of_ne hq _ _
    · intro hpos
      have hle : (1 : UInt16) ≤ b.world.state.rkStored := UInt16.le_iff_toNat_le.mpr (UInt16.lt_iff_toNat_lt.mp hpos)
      rw [hworld]
      show (b.world.state.rkStored - 1).toNat + 1 = _
      rw [UInt16.toNat_sub_of_le _ _ hle]
      exact Nat.sub_add_cancel (UInt16.le_iff_toNat_le.mp hle)
  · intro hr
    obtain ⟨b', hrun, hlfs, hworld, -⟩ := Fs.ctapDeleteRk_none tempRks rk hclosed hfile hr
    refine ⟨b', hrun, ?_, ?_, hworld⟩
    · intro q
      rw [hlfs]
      by_cases hq : q = id.path
      · rw [hq, Files.bytes_put_self]
      · rw [Files.bytes_put_of_ne hq]
    · intro hexists
      obtain ⟨l, hl⟩ := Option.ne_none_iff_exists'.mp hexists
      rw [hlfs, Files.put_self]
      rw [Files.bytes, hl, Option.getD_some]

/-- A record for the lookup MAC of zeroes with this tag. -/
def taggedRecord (tag : UInt8) : ResidentKey :=
  { id := .make 1 (Bytes.zero 16) (Bytes.zero 16) (Bytes.zero 4) 1 (Bytes.ofList 16 [tag]) }

/-- Thirteen records, of which the second goes: the eleven behind it are moved in two pieces. -/
theorem ctapDeleteRk_removes_second :
    ∃ b', Fs.ctapDeleteRk simPlatform byteFs (Bytes.zero 3330) {} (taggedRecord 2).id
        { world := simStart
          lfs := Function.update (fun _ => none) (taggedRecord 2).id.path
            (some (ResidentKey.format.file
              (taggedRecord 1 :: taggedRecord 2 :: List.replicate 11 (taggedRecord 3))))
          fRk := ⟨⟨.counter, 0⟩, false⟩ } = .ok 0 b' ∧
      b'.lfs.bytes (taggedRecord 2).id.path
        = ResidentKey.format.file (taggedRecord 1 :: List.replicate 11 (taggedRecord 3)) := by
  have htag (tag : UInt8) : (taggedRecord tag).id.tag = Bytes.ofList 16 [tag] := CredentialId.make_tag ..
  obtain ⟨hfound, -⟩ := ctapDeleteRk_removes simPlatform (Bytes.zero 3330) {} (taggedRecord 2).id
    { world := simStart
      lfs := Function.update (fun _ => none) (taggedRecord 2).id.path
        (some (ResidentKey.format.file
          (taggedRecord 1 :: taggedRecord 2 :: List.replicate 11 (taggedRecord 3))))
      fRk := ⟨⟨.counter, 0⟩, false⟩ }
    (taggedRecord 1 :: taggedRecord 2 :: List.replicate 11 (taggedRecord 3)) rfl
    Files.bytes_put_self
  obtain ⟨b', hrun, hfile, -⟩ := hfound 1 (taggedRecord 2) rfl ⟨rfl, rfl⟩ (by
    intro j hj r' hr'
    obtain rfl : j = 0 := by omega
    obtain rfl : taggedRecord 1 = r' := Option.some.inj hr'
    rintro ⟨-, heq⟩
    rw [htag, htag] at heq
    exact absurd heq (by decide))
  exact ⟨b', hrun, hfile⟩

/-! ## The model of the store -/

section Store

variable {P : Platform} {id : CredentialId} {l : List ResidentKey} {r : ResidentKey} {m : Nat}

/-- A list has a first record that goes, or none. -/
theorem exists_first_or_none (id : CredentialId) (l : List ResidentKey) :
    (∃ (m : Nat) (r : ResidentKey), l[m]? = some r ∧ id.Deletes r ∧
        ∀ j < m, ∀ r', l[j]? = some r' → ¬ id.Deletes r') ∨
      ∀ r ∈ l, ¬ id.Deletes r := by
  induction l with
  | nil => exact .inr fun r hr => absurd hr List.not_mem_nil
  | cons r l ih =>
    by_cases hr : id.Deletes r
    · exact .inl ⟨0, r, rfl, hr, fun j hj => absurd hj (Nat.not_lt_zero j)⟩
    · rcases ih with ⟨m, r₁, hm, hr₁, hfirst⟩ | hnone
      · refine .inl ⟨m + 1, r₁, hm, hr₁, fun j hj r' hr' => ?_⟩
        cases j with
        | zero =>
          obtain rfl := Option.some.inj hr'
          exact hr
        | succ j => exact hfirst j (by omega) r' hr'
      · exact .inr (List.forall_mem_cons.mpr ⟨hr, hnone⟩)

theorem deleteFirst_eq_eraseIdx (hm : l[m]? = some r) (hr : id.Deletes r)
    (hfirst : ∀ j < m, ∀ r', l[j]? = some r' → ¬ id.Deletes r') :
    deleteFirst id l = some (l.eraseIdx m) := by
  induction l generalizing m with
  | nil => exact absurd hm (by simp)
  | cons r₁ l ih =>
    cases m with
    | zero =>
      obtain rfl := Option.some.inj hm
      unfold CredentialId.Deletes at hr
      rw [deleteFirst, if_pos hr]
      rfl
    | succ m =>
      have hhead : ¬ (id.rpIdLookup = r₁.id.rpIdLookup ∧ id.tag = r₁.id.tag) :=
        hfirst 0 (Nat.succ_pos m) r₁ rfl
      rw [deleteFirst, if_neg hhead, ih hm fun j hj r' hr' => hfirst (j + 1) (by omega) r' hr']
      rfl

/-- The part of a world that the file system and the trace have no share in. -/
def World.core (w : World) : World := { w with rkFiles := fun _ => [], counter := 0, trace := [] }

/-- The files of the board hold the records of a world, and its globals are those of the world. -/
structure Board.Shows (b : Board Files ByteHandle) (w : World) : Prop where
  closed : b.fRk.opened = false
  rkFiles : ∀ n, b.lfs.bytes (.rk n) = ResidentKey.format.file (w.rkFiles n)
  core : b.world.core = w.core

theorem core_decremented {w w' : World} (h : w.core = w'.core) :
    (w.decremented P).core = (w'.decremented P).core := by
  have hcore : ∀ v : World, (v.decremented P).core = { v.core with
      state := { v.core.state with rkStored := v.core.state.rkStored - 1 }
      stateFile := stateFileOf P { v.core.state with rkStored := v.core.state.rkStored - 1 } } := fun _ => rfl
  rw [hcore, hcore, h]

theorem ctapDeleteRk_of_deleteFirst {w : World} {l : List ResidentKey}
    (h : deleteFirst id (w.rkFiles (rkFile id.rpIdLookup)) = some l) :
    ∃ trace, ctapDeleteRk P id w = .ok true (World.decremented P { w with
      rkFiles := Function.update w.rkFiles (rkFile id.rpIdLookup) l
      trace := trace }) := by
  refine ⟨w.trace ++ [.rkWritten (rkFile id.rpIdLookup) l]
    ++ [.rkChanged (.deleted (recordToDelete id (w.rkFiles (rkFile id.rpIdLookup))))], ?_⟩
  unfold ctapDeleteRk
  rw [Prog.get_bind, h]
  refine (Prog.bind_of_ok rfl).trans ?_
  rw [Prog.bind_of_ok (ctapDecrementRkStore_eq P _)]
  rfl

/-- `ctap_delete_rk` on the files is `ctap_delete_rk` on the lists of records. -/
theorem ctapDeleteRk_simulates {b : Board Files ByteHandle} {w : World} (h : b.Shows w)
    (tempRks : Bytes 3330) (rk : ResidentKey) :
    ∃ ret b' w', Fs.ctapDeleteRk P byteFs tempRks rk id b = .ok ret b' ∧
      ctapDeleteRk P id w = .ok (ret = 0) w' ∧ b'.Shows w' := by
  have hfile : b.lfs.bytes id.path = ResidentKey.format.file (w.rkFiles (rkFile id.rpIdLookup)) := h.rkFiles _
  rcases exists_first_or_none id (w.rkFiles (rkFile id.rpIdLookup)) with ⟨m, r, hm, hr, hfirst⟩ | hnone
  · obtain ⟨b', hrun, hlfs, hworld, hclosed⟩ := Fs.ctapDeleteRk_found (P := P) tempRks rk
      h.closed hfile hm hr hfirst
    obtain ⟨trace, hdelete⟩ := ctapDeleteRk_of_deleteFirst (P := P) (w := w)
      (deleteFirst_eq_eraseIdx hm hr hfirst)
    refine ⟨0, b', _, hrun, hdelete, hclosed, ?_, ?_⟩
    · intro n
      show b'.lfs.bytes (.rk n)
        = ResidentKey.format.file (Function.update w.rkFiles (rkFile id.rpIdLookup) _ n)
      rw [hlfs]
      by_cases hn : n = rkFile id.rpIdLookup
      · subst hn
        rw [Function.update_self]
        exact Files.bytes_put_self
      · have hpath : Path.rk n ≠ id.path := fun heq => hn (Path.rk.inj heq)
        rw [Function.update_of_ne hn, Files.bytes_put_of_ne hpath, h.rkFiles]
    · rw [hworld]
      exact core_decremented h.core
  · obtain ⟨b', hrun, hlfs, hworld, hclosed⟩ := Fs.ctapDeleteRk_none (P := P) tempRks rk
      h.closed hfile hnone
    refine ⟨-1, b', w, hrun, ?_, hclosed, ?_, by rw [hworld]; exact h.core⟩
    · unfold ctapDeleteRk
      rw [Prog.get_bind, deleteFirst_eq_none.mpr hnone]
      rfl
    · intro n
      rw [hlfs]
      by_cases hn : Path.rk n = id.path
      · rw [hn, Files.bytes_put_self, ← hn, h.rkFiles]
      · rw [Files.bytes_put_of_ne hn, h.rkFiles]

end Store

end TkeyFido2
