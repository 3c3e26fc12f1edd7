import TkeyFido2.Fs.DeleteRk

/-!
# The signature counter

`ctap_atomic_count` reads the counter from its file, adds to it and writes it back, and ignores most
of the results.  The calls on the file may fail here, as a list says.  While none of them fails, the
counters that relying parties see increase; a failed open or read makes the counter restart.
-/

namespace TkeyFido2

open Prog

/-! ## Calls that fail -/

/-- A file system, and for the next calls whether they fail. -/
structure Faulty (σ : Type) where
  inner : σ
  fails : List Bool := []

/-- A call that fails where the list says so; then it changes nothing. -/
def guarded {σ H α : Type} (failed : α) (call : H → σ → α × H × σ) : H → Faulty σ → α × H × Faulty σ :=
  fun h s =>
    if s.fails.headD false then (failed, h, { s with fails := s.fails.tail })
    else
      let r := call h s.inner
      (r.1, r.2.1, { inner := r.2.2, fails := s.fails.tail })

/-- `LFS_ERR_IO`. -/
def lfsErrIo : Int := -5

def faulty {σ H : Type} (L : Littlefs σ H) : Littlefs (Faulty σ) H where
  zeroed := L.zeroed
  fileOpencfg p := guarded lfsErrIo (L.fileOpencfg p)
  fileClose := guarded lfsErrIo L.fileClose
  fileSize := guarded lfsErrIo L.fileSize
  fileTruncate n := guarded lfsErrIo (L.fileTruncate n)
  fileSeek n := guarded lfsErrIo (L.fileSeek n)
  fileRead n := guarded (lfsErrIo, []) (L.fileRead n)
  fileWrite l := guarded lfsErrIo (L.fileWrite l)

/-! ## The functions -/

/-- A call of `fs.c` with a handle of the caller. -/
def onFile {σ H α : Type} (f : FsFile H) (call : FsCall σ H α) : BoardM σ H (α × FsFile H) :=
  modifyGet fun b =>
    let r := call f b.lfs
    ((r.1, r.2.1), { b with lfs := r.2.2 })

namespace Fs

variable {σ H : Type} (L : Littlefs σ H)

/-- `ctap_atomic_count` behind the read. -/
def addAndWrite (f : FsFile H) (lastc amount : UInt32) : BoardM σ H UInt32 := do
  let amount ← onWorld (countAmount amount)
  let lastc := lastc + amount
  let (_, f) ← onFile f (fsWriteAt L (le32 lastc) 0)
  let _ ← onFile f (fsCloseFile L)
  pure lastc

/-- `ctap_atomic_count`. -/
def ctapAtomicCount (amount : UInt32) : BoardM σ H UInt32 := do
  let (_, f) ← onFile { file := L.zeroed } (fsOpenFile L .counter)
  -- `lastc` is 0 before; a short read sets its first bytes
  let (r, f) ← onFile f (fsRead L 4)
  addAndWrite L f (if r.1 < 0 then 0 else ofLe32 (r.2.take 4)) amount

/-- `ctap_auth_data_update_count`: the count it puts into the header. -/
def ctapAuthDataUpdateCount : BoardM σ H UInt32 := do
  let count ← ctapAtomicCount L 0
  -- count 0 indicates an invalid token
  if count = 0 then ctapAtomicCount L 0 else pure count

end Fs

/-- The operations that report a counter. -/
inductive CountOp
  | makeCredential
  | getAssertion
  | getNextAssertion
  | u2fAuthenticate
  deriving DecidableEq

/-- How an operation gets the counter that it reports: in authData, or in the response to
U2F_AUTHENTICATE. -/
def CountOp.count {σ H : Type} (L : Littlefs σ H) : CountOp → BoardM σ H UInt32
  | u2fAuthenticate => Fs.ctapAtomicCount L 0
  | _ => Fs.ctapAuthDataUpdateCount L

/-! ## One count -/

/-- The counter in the file; bytes that are missing count as zeroes. -/
def Board.persisted (b : Board (Faulty Files) ByteHandle) : UInt32 := ofLe32 (b.lfs.inner.bytes .counter)

/-- The amount that `ctap_atomic_count` draws. -/
def World.drawnCount (w : World) : UInt32 :=
  ((streamBytes w.inputs.rng.byte w.rngPos 1).byte 0 &&& 0x0f).toUInt32 + 1

/-- The world after one byte was drawn. -/
def World.drawn (w : World) : World := { w with rngPos := w.rngPos + 1 }

theorem drawnCount_bounds (w : World) : 1 ≤ w.drawnCount.toNat ∧ w.drawnCount.toNat ≤ 16 := by
  have hle : ((streamBytes w.inputs.rng.byte w.rngPos 1).byte 0).toNat &&& 15 ≤ 15 := Nat.and_le_right
  unfold World.drawnCount
  rw [UInt32.toNat_add, UInt8.toNat_toUInt32, UInt8.toNat_and]
  simp only [UInt8.reduceToNat, UInt32.reduceToNat]
  omega

/-- No call of those to come fails. -/
def Faulty.Works {σ : Type} (s : Faulty σ) : Prop := ∀ failing ∈ s.fails, failing = false

section Works

variable {s : Faulty Files} {p : Path} {pos : Nat} {h : ByteHandle}

theorem Faulty.Works.head (hs : s.Works) : s.fails.headD false = false := by
  cases hf : s.fails with
  | nil => rfl
  | cons failing l => exact hs failing (by rw [hf]; exact List.mem_cons_self ..)

theorem Faulty.Works.tail (hs : s.Works) (inner : Files) :
    Faulty.Works { inner := inner, fails := s.fails.tail } :=
  fun failing hmem => hs failing (List.mem_of_mem_tail hmem)

theorem guarded_of_works {α : Type} (hs : s.Works) (failed : α)
    (call : ByteHandle → Files → α × ByteHandle × Files) :
    guarded failed call h s
      = ((call h s.inner).1, (call h s.inner).2.1, { inner := (call h s.inner).2.2, fails := s.fails.tail }) := by
  unfold guarded
  rw [hs.head]
  exact if_neg Bool.false_ne_true

theorem faulty_open (hs : s.Works) : ∃ s' : Faulty Files, s'.Works ∧ s'.inner = s.inner.put p (s.inner.bytes p) ∧
    fsOpenFile (faulty byteFs) p ⟨h, false⟩ s = (0, openAt p 0, s') := by
  refine ⟨_, hs.tail (s.inner.put p (s.inner.bytes p)), rfl, ?_⟩
  unfold fsOpenFile faulty
  rw [if_neg Bool.false_ne_true]
  simp only [guarded_of_works hs]
  rfl

theorem faulty_read (p : Path) (pos : Nat) (hs : s.Works) (n : Nat) : ∃ s' : Faulty Files, s'.Works ∧ s'.inner = s.inner ∧
    fsRead (faulty byteFs) n (openAt p pos) s
      = ((((ByteFile.read (s.inner.bytes p) pos n).length : Int), ByteFile.read (s.inner.bytes p) pos n),
        openAt p (pos + (ByteFile.read (s.inner.bytes p) pos n).length), s') := by
  refine ⟨_, hs.tail s.inner, rfl, ?_⟩
  unfold fsRead onOpen faulty openAt
  simp only [guarded_of_works hs, if_true]
  rfl

theorem faulty_writeAt (p : Path) (pos : Nat) (hs : s.Works) (buf : List UInt8) (off : Nat) : ∃ s' : Faulty Files, s'.Works ∧
    s'.inner = s.inner.put p (ByteFile.write (s.inner.bytes p) off buf) ∧
    fsWriteAt (faulty byteFs) buf off (openAt p pos) s
      = ((buf.length : Int), openAt p (off + buf.length), s') := by
  refine ⟨_, (hs.tail s.inner).tail (s.inner.put p (ByteFile.write (s.inner.bytes p) off buf)), rfl, ?_⟩
  unfold fsWriteAt onOpen faulty openAt
  simp only [guarded_of_works hs, guarded_of_works (hs.tail _), if_true]
  rfl

theorem faulty_close (p : Path) (pos : Nat) (hs : s.Works) : ∃ s' : Faulty Files, s'.Works ∧ s'.inner = s.inner ∧
    fsCloseFile (faulty byteFs) (openAt p pos) s = (0, ⟨⟨p, pos⟩, false⟩, s') := by
  refine ⟨_, hs.tail s.inner, rfl, ?_⟩
  unfold fsCloseFile faulty openAt
  simp only [guarded_of_works hs, if_true]
  rfl

end Works

theorem ofLe32_take (l : List UInt8) : ofLe32 (l.take 4) = ofLe32 l := by
  unfold ofLe32
  simp [List.getD_eq_getElem?_getD]

theorem ofLe32_write (l : List UInt8) (n : UInt32) : ofLe32 (ByteFile.write l 0 (le32 n)) = n := by
  rw [ByteFile.write_of_le (Nat.zero_le _), List.take_zero, List.nil_append, ofLe32_le32]

section Count

variable {b : Board (Faulty Files) ByteHandle}

theorem onFile_of_eq {σ H α : Type} {b : Board σ H} {f f' : FsFile H} {call : FsCall σ H α} {a : α} {s : σ}
    (h : call f b.lfs = (a, f', s)) : onFile f call b = .ok (a, f') { b with lfs := s } := by
  show EStateM.Result.ok ((call f b.lfs).1, (call f b.lfs).2.1) { b with lfs := (call f b.lfs).2.2 } = _
  rw [h]

theorem onWorld_countAmount {σ H : Type} (b : Board σ H) :
    onWorld (countAmount 0) b
      = .ok b.world.drawnCount { b with world := b.world.drawn } := rfl

/-- What a count leaves behind. -/
structure Counted (b : Board (Faulty Files) ByteHandle) (k : UInt32) (b' : Board (Faulty Files) ByteHandle) :
    Prop where
  persisted : b'.persisted = b.persisted + k
  works : b'.lfs.Works
  world : b'.world = b.world.drawn
  others : ∀ p, p ≠ .counter → b'.lfs.inner p = b.lfs.inner p
  fRk : b'.fRk = b.fRk

/-- The second half of a count, on an open file. -/
theorem addAndWrite_works (pos : Nat) (hs : b.lfs.Works) (lastc : UInt32) :
    ∃ b', Fs.addAndWrite (faulty byteFs) (openAt .counter pos) lastc 0 b
        = .ok (lastc + b.world.drawnCount) b' ∧
      b'.persisted = lastc + b.world.drawnCount ∧ b'.lfs.Works ∧
      b'.world = b.world.drawn ∧
      (∀ p, p ≠ .counter → b'.lfs.inner p = b.lfs.inner p) ∧ b'.fRk = b.fRk := by
  obtain ⟨s₁, hs₁, hin₁, hwrite⟩ := faulty_writeAt .counter pos hs
    (le32 (lastc + b.world.drawnCount)) 0
  obtain ⟨s₂, hs₂, hin₂, hclosed⟩ := faulty_close .counter
    (0 + (le32 (lastc + b.world.drawnCount)).length) hs₁
  refine ⟨{ b with world := b.world.drawn, lfs := s₂ }, ?_, ?_, hs₂, rfl, ?_, rfl⟩
  · unfold Fs.addAndWrite
    refine (bind_of_ok (onWorld_countAmount b)).trans ?_
    refine (bind_of_ok (onFile_of_eq (b := { b with world := b.world.drawn }) hwrite)).trans ?_
    exact (bind_of_ok (onFile_of_eq (b := { b with world := b.world.drawn, lfs := s₁ }) hclosed)).trans rfl
  · show ofLe32 (s₂.inner.bytes .counter) = _
    rw [hin₂, hin₁, Files.bytes_put_self, ofLe32_write]
  · intro p hp
    show s₂.inner p = _
    rw [hin₂, hin₁]
    exact Function.update_of_ne hp _ _

/-- A count in which no call fails. -/
theorem ctapAtomicCount_works (hs : b.lfs.Works) :
    ∃ b', Fs.ctapAtomicCount (faulty byteFs) 0 b = .ok (b.persisted + b.world.drawnCount) b' ∧
      Counted b b.world.drawnCount b' := by
  have hread : ofLe32 ((ByteFile.read (b.lfs.inner.bytes .counter) 0 4).take 4) = b.persisted := by
    unfold ByteFile.read
    rw [List.drop_zero, ofLe32_take, ofLe32_take]
    rfl
  obtain ⟨s₁, hs₁, hin₁, hopen⟩ := faulty_open (p := .counter) (h := (faulty byteFs).zeroed) hs
  obtain ⟨s₂, hs₂, hin₂, hread₂⟩ := faulty_read .counter 0 hs₁ 4
  rw [hin₁, Files.bytes_put_self] at hread₂
  obtain ⟨b', hrun, hpersisted, hworks, hworld, hothers, hfRk⟩ := addAndWrite_works
    (b := { b with lfs := s₂ }) (0 + (ByteFile.read (b.lfs.inner.bytes .counter) 0 4).length) hs₂
    b.persisted
  refine ⟨b', ?_, hpersisted, hworks, hworld, fun p hp => ?_, hfRk⟩
  · unfold Fs.ctapAtomicCount
    refine (bind_of_ok (onFile_of_eq hopen)).trans ?_
    refine (bind_of_ok (onFile_of_eq (b := { b with lfs := s₁ }) hread₂)).trans ?_
    dsimp only
    rw [if_neg (by omega), hread]
    exact hrun
  · rw [hothers p hp]
    show s₂.inner p = _
    rw [hin₂, hin₁]
    exact Function.update_of_ne hp _ _

/-- While no call fails, a count on the file is `ctap_atomic_count` on the counter of the world. -/
theorem ctapAtomicCount_simulates {w : World} (hs : b.lfs.Works) (hcore : b.world.core = w.core)
    (hcounter : b.persisted = w.counter) :
    ∃ count b' w', Fs.ctapAtomicCount (faulty byteFs) 0 b = .ok count b' ∧
      ctapAtomicCount 0 w = .ok count w' ∧ b'.lfs.Works ∧ b'.world.core = w'.core ∧
      b'.persisted = w'.counter := by
  obtain ⟨b', hrun, hcounted⟩ := ctapAtomicCount_works hs
  have hdrawn : b.world.drawnCount = w.drawnCount := by
    show b.world.core.drawnCount = w.core.drawnCount
    rw [hcore]
  have hworld : ctapAtomicCount 0 w = .ok (w.counter + w.drawnCount) { w.drawn with
      counter := w.counter + w.drawnCount
      trace := w.trace ++ [.counterWritten (w.counter + w.drawnCount)] } := rfl
  rw [hcounter, hdrawn] at hrun
  refine ⟨_, b', _, hrun, hworld, hcounted.works, ?_, ?_⟩
  · rw [hcounted.world]
    show b.world.core.drawn = w.core.drawn
    rw [hcore]
  · rw [hcounted.persisted, hcounter, hdrawn]

/-- What an operation does to the counter while no call fails: it adds at most twice sixteen. -/
theorem count_works (op : CountOp) (hs : b.lfs.Works) :
    ∃ b', op.count (faulty byteFs) b = .ok b'.persisted b' ∧ b'.lfs.Works ∧
      (op ≠ .u2fAuthenticate → b'.persisted ≠ 0) ∧
      ∃ k, 1 ≤ k ∧ k ≤ 32 ∧ b'.persisted.toNat = (b.persisted.toNat + k) % 2 ^ 32 := by
  obtain ⟨b₁, hrun, hcounted⟩ := ctapAtomicCount_works hs
  rw [← hcounted.persisted] at hrun
  have hk := drawnCount_bounds b.world
  have hnat : b₁.persisted.toNat = (b.persisted.toNat + b.world.drawnCount.toNat) % 2 ^ 32 := by
    rw [hcounted.persisted, UInt32.toNat_add]
  have hupdate : op ≠ .u2fAuthenticate → ∃ b', Fs.ctapAuthDataUpdateCount (faulty byteFs) b
      = .ok b'.persisted b' ∧ b'.lfs.Works ∧ (op ≠ .u2fAuthenticate → b'.persisted ≠ 0) ∧
      ∃ k, 1 ≤ k ∧ k ≤ 32 ∧ b'.persisted.toNat = (b.persisted.toNat + k) % 2 ^ 32 := by
    intro _
    unfold Fs.ctapAuthDataUpdateCount
    rw [bind_of_ok hrun]
    by_cases hzero : b₁.persisted = 0
    · obtain ⟨b₂, hrun₂, hcounted₂⟩ := ctapAtomicCount_works hcounted.works
      have hk₂ := drawnCount_bounds b₁.world
      have hnat₂ : b₂.persisted.toNat = b₁.world.drawnCount.toNat := by
        rw [hcounted₂.persisted, hzero, UInt32.zero_add]
      have hzero₁ : b₁.persisted.toNat = 0 := congrArg UInt32.toNat hzero
      rw [← hcounted₂.persisted] at hrun₂
      refine ⟨b₂, by rw [if_pos hzero, hrun₂], hcounted₂.works, fun _ hb₂ => ?_,
        b.world.drawnCount.toNat + b₁.world.drawnCount.toNat, by omega, by omega, by omega⟩
      have := congrArg UInt32.toNat hb₂
      rw [hnat₂] at this
      simp only [UInt32.reduceToNat] at this
      omega
    · exact ⟨b₁, by rw [if_neg hzero]; rfl, hcounted.works, fun _ => hzero, _, hk.1, by omega, hnat⟩
  cases op with
  | u2fAuthenticate =>
    exact ⟨b₁, hrun, hcounted.works, fun hop => absurd rfl hop, _, hk.1, by omega, hnat⟩
  | makeCredential => exact hupdate (by decide)
  | getAssertion => exact hupdate (by decide)
  | getNextAssertion => exact hupdate (by decide)

end Count

/-! ## Runs -/

/-- One operation of a run: which calls failed in it, the counter in the file before and behind it, and
what it reported. -/
structure CountEntry where
  op : CountOp
  fails : List Bool
  before : UInt32
  after : UInt32
  reported : UInt32

/-- The counter went past 2 ^ 32: it was at most 32 below, and is at most 32 above. -/
def CountEntry.Wraps (e : CountEntry) : Prop := 2 ^ 32 ≤ e.before.toNat + 32 ∧ e.after.toNat < 32

/-- Operations one after the other, each with its own failing calls.  Between them anything may change
but the file of the counter, which nothing else opens. -/
inductive CountRun : Board (Faulty Files) ByteHandle → List CountEntry → Board (Faulty Files) ByteHandle → Prop
  | nil (b) : CountRun b [] b
  | count {b b' b'' l c} (op : CountOp) (fails : List Bool)
    (hrun : op.count (faulty byteFs) { b with lfs := { b.lfs with fails := fails } } = .ok c b')
    (rest : CountRun b' l b'') : CountRun b (⟨op, fails, b.persisted, b'.persisted, c⟩ :: l) b''
  | other {b b'' l} (world : World) (files : Files) (fRk : FsFile ByteHandle)
    (hfile : files .counter = b.lfs.inner .counter)
    (rest : CountRun { b with world := world, lfs := { inner := files }, fRk := fRk } l b'') :
    CountRun b l b''

/-- What relying parties need: the counter in the file does not decrease unless it wraps, authData has
no 0, and as long as it does not wrap the reported counters increase. -/
structure CountersOk (start : UInt32) (l : List CountEntry) : Prop where
  persisted : ∀ e ∈ l, e.before ≤ e.after ∨ e.Wraps
  nonzero : ∀ e ∈ l, e.op ≠ .u2fAuthenticate → e.reported ≠ 0
  reported : (∀ e ∈ l, ¬ e.Wraps) →
    (l.map CountEntry.reported).Pairwise (· < ·) ∧ ∀ e ∈ l, start < e.reported

/-- **The counters increase while the file works.**  In every run of operations in which no call on the
file of the counter fails, whatever else happens between them, the counter in the file never decreases
unless it wraps, authData never has the counter 0, and as long as it does not wrap the reported counters
are strictly increasing. -/
theorem counters_increase_while_file_works (b b'' : Board (Faulty Files) ByteHandle) (l : List CountEntry)
    (h : CountRun b l b'') (hworks : ∀ e ∈ l, ∀ failing ∈ e.fails, failing = false) :
    CountersOk b.persisted l := by
  induction h with
  | nil b =>
    exact ⟨fun e he => absurd he List.not_mem_nil, fun e he => absurd he List.not_mem_nil,
      fun _ => ⟨List.Pairwise.nil, fun e he => absurd he List.not_mem_nil⟩⟩
  | @count b b' b'' l c op fails hrun rest ih =>
    obtain ⟨hhead, htail⟩ := List.forall_mem_cons.mp hworks
    obtain ⟨b₁, hrun₁, -, hne, k, hk, hk', hnat⟩ := count_works op
      (b := { b with lfs := { b.lfs with fails := fails } }) hhead
    obtain ⟨rfl, rfl⟩ := EStateM.Result.ok.inj (hrun₁.symm.trans hrun)
    have hbefore := b.persisted.toNat_lt
    have hstep : b.persisted.toNat + k < 2 ^ 32 ∧ b₁.persisted.toNat = b.persisted.toNat + k ∨
        2 ^ 32 ≤ b.persisted.toNat + 32 ∧ b₁.persisted.toNat < 32 := by
      have hnat' : b₁.persisted.toNat = (b.persisted.toNat + k) % 2 ^ 32 := hnat
      omega
    obtain ⟨hpersisted, hnonzero, hreported⟩ := ih htail
    refine ⟨List.forall_mem_cons.mpr ⟨?_, hpersisted⟩, List.forall_mem_cons.mpr ⟨hne, hnonzero⟩, ?_⟩
    · rcases hstep with ⟨-, hafter⟩ | hwraps
      · refine .inl (UInt32.le_iff_toNat_le.mpr ?_)
        show b.persisted.toNat ≤ b₁.persisted.toNat
        omega
      · exact .inr hwraps
    · intro hno
      obtain ⟨hhead, htail⟩ := List.forall_mem_cons.mp hno
      obtain ⟨hpair, habove⟩ := hreported htail
      have hlt : b.persisted < b₁.persisted := by
        rcases hstep with ⟨-, hafter⟩ | hwraps
        · exact UInt32.lt_iff_toNat_lt.mpr (by rw [hafter]; omega)
        · exact absurd hwraps hhead
      refine ⟨?_, List.forall_mem_cons.mpr ⟨hlt, fun e he => UInt32.lt_trans hlt (habove e he)⟩⟩
      rw [List.map_cons, List.pairwise_cons]
      refine ⟨fun n hn => ?_, hpair⟩
      obtain ⟨e, he, rfl⟩ := List.mem_map.mp hn
      exact habove e he
  | @other b b'' l world files fRk hfile rest ih =>
    have hsame : ({ b with world := world, lfs := { inner := files }, fRk := fRk } :
        Board (Faulty Files) ByteHandle).persisted = b.persisted := by
      show ofLe32 ((files .counter).getD []) = ofLe32 ((b.lfs.inner .counter).getD [])
      rw [hfile]
    rw [hsame] at ih
    exact ih hworks

/-- A device with the counter 1000 in its file. -/
def countedBoard : Board (Faulty Files) ByteHandle where
  world := simStart
  lfs := { inner := fun p => if p = .counter then some (le32 1000) else none }
  fRk := { file := byteFs.zeroed }

theorem countedBoard_persisted : countedBoard.persisted = 1000 := by
  have hfile : countedBoard.lfs.inner.bytes .counter = le32 1000 ++ [] := rfl
  unfold Board.persisted
  rw [hfile, ofLe32_le32]

theorem counters_increase_two_assertions :
    ∃ l b'', CountRun countedBoard l b'' ∧ l.length = 2 ∧ CountersOk countedBoard.persisted l := by
  have hnone : ∀ s : Files, Faulty.Works { inner := s, fails := [] } :=
    fun _ _ hmem => absurd hmem List.not_mem_nil
  obtain ⟨b₁, hrun₁, -⟩ := count_works .getAssertion (hnone countedBoard.lfs.inner)
    (b := { countedBoard with lfs := { countedBoard.lfs with fails := [] } })
  obtain ⟨b₂, hrun₂, -⟩ := count_works .u2fAuthenticate (hnone b₁.lfs.inner)
    (b := { b₁ with lfs := { b₁.lfs with fails := [] } })
  have hrun := CountRun.count .getAssertion [] hrun₁ (.count .u2fAuthenticate [] hrun₂ (.nil b₂))
  refine ⟨_, b₂, hrun, rfl, counters_increase_while_file_works countedBoard b₂ _ hrun ?_⟩
  intro e he failing hmem
  rcases List.mem_cons.mp he with rfl | he
  · exact absurd hmem List.not_mem_nil
  · rw [List.mem_singleton.mp he] at hmem
    exact absurd hmem List.not_mem_nil

/-- A failed open: the count that is reported starts at 0, and nothing is written. -/
theorem ctapAtomicCount_open_fails {b : Board (Faulty Files) ByteHandle} {l : List Bool}
    (h : b.lfs.fails = true :: l) :
    ∃ b', Fs.ctapAtomicCount (faulty byteFs) 0 b = .ok b.world.drawnCount b' ∧
      b'.lfs.inner = b.lfs.inner := by
  obtain ⟨world, ⟨inner, fails⟩, fRk, opens⟩ := b
  obtain rfl : fails = true :: l := h
  have hrun : ∃ b', Fs.ctapAtomicCount (faulty byteFs) 0
      { world := world, lfs := { inner := inner, fails := true :: l }, fRk := fRk, opens := opens }
        = .ok (0 + world.drawnCount) b' ∧ b'.lfs.inner = inner := ⟨_, rfl, rfl⟩
  rwa [UInt32.zero_add] at hrun

/-- A failed read: the counter restarts at 0, also in the file. -/
theorem ctapAtomicCount_read_fails {b : Board (Faulty Files) ByteHandle}
    (h : b.lfs.fails = [false, true]) :
    ∃ b', Fs.ctapAtomicCount (faulty byteFs) 0 b = .ok b.world.drawnCount b' ∧
      b'.persisted = b.world.drawnCount := by
  obtain ⟨s₁, hs₁⟩ : ∃ s₁ : Faulty Files, s₁ = { inner := b.lfs.inner.put .counter (b.lfs.inner.bytes .counter) } :=
    ⟨_, rfl⟩
  have hworks : s₁.Works := by
    rw [hs₁]
    exact fun _ hmem => absurd hmem List.not_mem_nil
  have hopen : fsOpenFile (faulty byteFs) .counter { file := (faulty byteFs).zeroed } b.lfs
      = (0, openAt .counter 0, { s₁ with fails := [true] }) := by
    rw [hs₁, show b.lfs = { inner := b.lfs.inner, fails := [false, true] } by rw [← h]]
    rfl
  have hread : fsRead (faulty byteFs) 4 (openAt .counter 0) { s₁ with fails := [true] }
      = ((lfsErrIo, []), openAt .counter 0, s₁) := by
    rw [hs₁]
    rfl
  obtain ⟨b', hrun, hpersisted, -⟩ := addAndWrite_works (b := { b with lfs := s₁ }) 0 hworks 0
  rw [UInt32.zero_add] at hrun hpersisted
  refine ⟨b', ?_, hpersisted⟩
  unfold Fs.ctapAtomicCount
  refine (bind_of_ok (onFile_of_eq hopen)).trans ?_
  refine (bind_of_ok (onFile_of_eq (b := { b with lfs := { s₁ with fails := [true] } }) hread)).trans ?_
  exact hrun

/-- The same for an operation that puts the counter into authData: the drawn amount is not 0. -/
theorem update_of_atomicCount {σ H : Type} {L : Littlefs σ H} {b b' : Board σ H}
    (h : Fs.ctapAtomicCount L 0 b = .ok b.world.drawnCount b') :
    CountOp.getAssertion.count L b = .ok b.world.drawnCount b' := by
  have hk := drawnCount_bounds b.world
  show Fs.ctapAuthDataUpdateCount L b = _
  unfold Fs.ctapAuthDataUpdateCount
  rw [bind_of_ok h, if_neg fun hzero => ?_]
  · rfl
  · have := congrArg UInt32.toNat hzero
    simp only [UInt32.reduceToNat] at this
    omega

/-- An operation that cannot open the file reports at most 16, whatever was reported before. -/
theorem not_countersOk_open {b : Board (Faulty Files) ByteHandle} (hlow : 16 ≤ b.persisted.toNat)
    (hhigh : b.persisted.toNat + 64 < 2 ^ 32) :
    ∃ l b'', CountRun b l b'' ∧ ¬ CountersOk b.persisted l ∧ l.map CountEntry.fails = [[], [true]] := by
  obtain ⟨b₁, hrun₁, -, -, k, hk, hk', hnat⟩ := count_works .getAssertion
    (b := { b with lfs := { b.lfs with fails := [] } }) fun _ hmem => absurd hmem List.not_mem_nil
  have hnat₁ : b₁.persisted.toNat = (b.persisted.toNat + k) % 2 ^ 32 := hnat
  obtain ⟨b₂, hrun₂, hinner⟩ := ctapAtomicCount_open_fails (l := [])
    (b := { b₁ with lfs := { b₁.lfs with fails := [true] } }) rfl
  refine ⟨_, b₂, .count .getAssertion [] hrun₁ (.count .getAssertion [true]
    (update_of_atomicCount hrun₂) (.nil b₂)), fun hok => ?_, rfl⟩
  have hk₂ : b₁.world.drawnCount.toNat ≤ 16 := (drawnCount_bounds b₁.world).2
  obtain ⟨hpair, -⟩ := hok.reported (by
    refine List.forall_mem_cons.mpr ⟨fun hwraps => ?_, List.forall_mem_singleton.mpr fun hwraps => ?_⟩
    · have hbefore : 2 ^ 32 ≤ b.persisted.toNat + 32 := hwraps.1
      omega
    · have hbefore : 2 ^ 32 ≤ b₁.persisted.toNat + 32 := hwraps.1
      omega)
  have hlt : b₁.persisted < b₁.world.drawnCount :=
    (List.pairwise_cons.mp hpair).1 _ (List.mem_cons_self ..)
  have hlt := UInt32.lt_iff_toNat_lt.mp hlt
  omega

/-- An operation that cannot read the file sets the counter in it to at most 16. -/
theorem not_countersOk_read {b : Board (Faulty Files) ByteHandle} (hlow : 16 < b.persisted.toNat)
    (hhigh : b.persisted.toNat + 64 < 2 ^ 32) :
    ∃ l b'', CountRun b l b'' ∧ ¬ CountersOk b.persisted l ∧ l.map CountEntry.fails = [[false, true]] := by
  obtain ⟨b₁, hrun₁, hpersisted⟩ := ctapAtomicCount_read_fails
    (b := { b with lfs := { b.lfs with fails := [false, true] } }) rfl
  refine ⟨_, b₁, .count .getAssertion [false, true] (update_of_atomicCount hrun₁) (.nil b₁),
    fun hok => ?_, rfl⟩
  have hk : b₁.persisted.toNat ≤ 16 := by
    rw [hpersisted]
    exact (drawnCount_bounds b.world).2
  have hstep : b.persisted ≤ b₁.persisted ∨
      (2 ^ 32 ≤ b.persisted.toNat + 32 ∧ b₁.persisted.toNat < 32) :=
    hok.persisted _ (List.mem_singleton_self _)
  rcases hstep with hle | ⟨hbefore, -⟩
  · have hle := UInt32.le_iff_toNat_le.mp hle
    omega
  · omega

/-- Two runs from the counter 1000 that do not wrap: in one the second operation cannot open the file,
in the other an operation cannot read it. -/
theorem counters_restart_after_failed_calls :
    (∃ l b'', CountRun countedBoard l b'' ∧ ¬ CountersOk countedBoard.persisted l ∧
      l.map CountEntry.fails = [[], [true]]) ∧
    ∃ l b'', CountRun countedBoard l b'' ∧ ¬ CountersOk countedBoard.persisted l ∧
      l.map CountEntry.fails = [[false, true]] := by
  have hstart : countedBoard.persisted.toNat = 1000 := by
    rw [countedBoard_persisted]
    rfl
  exact ⟨not_countersOk_open (by omega) (by omega), not_countersOk_read (by omega) (by omega)⟩

end TkeyFido2
