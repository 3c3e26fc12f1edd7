import TkeyFido2.Lib.ByteFile
import TkeyFido2.Ctap.Types

/-!
# Files through a handle

`fs.c` opens a file into an `fs_file_t` and works on it through littlefs.  littlefs itself is a
parameter: what its calls return and change may be anything, so that a call may fail at any time.
`byteFs` is the instance in which a file is a byte array and every call succeeds.
-/

namespace TkeyFido2

/-- The files that `device.c` opens through a handle; all are opened with `LFS_O_RDWR | LFS_O_CREAT`. -/
inductive Path
  | counter
  | rk (n : Fin 16)
  deriving DecidableEq

/-- The calls of littlefs that `fs.c` makes on a file.  Each gives the number that the C function
returns, and what it leaves in the file object `H` and in the file system `σ`; a read also gives the
bytes that it stores. -/
structure Littlefs (σ H : Type) where
  /-- A `lfs_file_t` of zeroes. -/
  zeroed : H
  fileOpencfg : Path → H → σ → Int × H × σ
  fileClose : H → σ → Int × H × σ
  fileSize : H → σ → Int × H × σ
  fileTruncate : Nat → H → σ → Int × H × σ
  fileSeek : Nat → H → σ → Int × H × σ
  fileRead : Nat → H → σ → (Int × List UInt8) × H × σ
  fileWrite : List UInt8 → H → σ → Int × H × σ

/-- `fs_file_t`. -/
structure FsFile (H : Type) where
  file : H
  opened : Bool := false

/-! ## fs.c -/

section Fs

variable {σ H α : Type} (L : Littlefs σ H)

/-- A function of `fs.c` on a handle. -/
abbrev FsCall (σ H α : Type) := FsFile H → σ → α × FsFile H × σ

/-- A call of littlefs on a file that must be open. -/
def onOpen (refused : α) (call : H → σ → α × H × σ) : FsCall σ H α := fun f s =>
  if f.opened then
    let r := call f.file s
    (r.1, { f with file := r.2.1 }, r.2.2)
  else (refused, f, s)

/-- `fs_open_file`. -/
def fsOpenFile (name : Path) : FsCall σ H Int := fun f s =>
  if f.opened then (-1, f, s)
  else
    let r := L.fileOpencfg name f.file s
    (r.1, { file := r.2.1, opened := r.1 = 0 }, r.2.2)

/-- `fs_close_file`. -/
def fsCloseFile : FsCall σ H Int := fun f s =>
  if f.opened then
    let r := L.fileClose f.file s
    (r.1, { file := r.2.1, opened := r.1 ≠ 0 }, r.2.2)
  else (-1, f, s)

def fsFileSize : FsCall σ H Int := onOpen (-1) L.fileSize

def fsTruncateFile (size : Nat) : FsCall σ H Int := onOpen (-1) (L.fileTruncate size)

def fsRead (len : Nat) : FsCall σ H (Int × List UInt8) := onOpen (-1, []) (L.fileRead len)

/-- `fs_read_at`; the result of the seek is ignored. -/
def fsReadAt (len offset : Nat) : FsCall σ H (Int × List UInt8) := onOpen (-1, []) fun h s =>
  let r := L.fileSeek offset h s
  L.fileRead len r.2.1 r.2.2

/-- `fs_write_at`; the result of the seek is ignored. -/
def fsWriteAt (buf : List UInt8) (offset : Nat) : FsCall σ H Int := onOpen (-1) fun h s =>
  let r := L.fileSeek offset h s
  L.fileWrite buf r.2.1 r.2.2

/-- A function of `fs.c` that leaves an open file open and a closed one closed. -/
def KeepsOpened (call : FsCall σ H α) : Prop := ∀ f s, (call f s).2.1.opened = f.opened

theorem keepsOpened_onOpen (refused : α) (call : H → σ → α × H × σ) :
    KeepsOpened (onOpen refused call) := by
  intro f s
  unfold onOpen
  split
  · rfl
  · rfl

theorem keepsOpened_fileSize : KeepsOpened (fsFileSize L) := keepsOpened_onOpen _ _

theorem keepsOpened_truncate (size : Nat) : KeepsOpened (fsTruncateFile L size) := keepsOpened_onOpen _ _

theorem keepsOpened_read (len : Nat) : KeepsOpened (fsRead L len) := keepsOpened_onOpen _ _

theorem keepsOpened_readAt (len offset : Nat) : KeepsOpened (fsReadAt L len offset) :=
  keepsOpened_onOpen _ _

theorem keepsOpened_writeAt (buf : List UInt8) (offset : Nat) : KeepsOpened (fsWriteAt L buf offset) :=
  keepsOpened_onOpen _ _

/-- A file that was closed is opened exactly where littlefs returns 0. -/
theorem opened_fsOpenFile {name : Path} {f : FsFile H} {s : σ} (h : f.opened = false) :
    (fsOpenFile L name f s).2.1.opened = decide ((fsOpenFile L name f s).1 = 0) := by
  unfold fsOpenFile
  rw [if_neg (by rw [h]; exact Bool.false_ne_true)]

/-- Where closing succeeds, the file is closed behind it. -/
theorem opened_fsCloseFile (hclose : ∀ h s, (L.fileClose h s).1 = 0) (f : FsFile H) (s : σ) :
    (fsCloseFile L f s).2.1.opened = false := by
  unfold fsCloseFile
  split
  · exact decide_eq_false fun h => h (hclose f.file s)
  case isFalse h => exact Bool.eq_false_of_not_eq_true h

end Fs

/-! ## Byte arrays -/

/-- The files by name; `none` is a file that does not exist. -/
abbrev Files := Path → Option (List UInt8)

/-- The bytes of a file. -/
def Files.bytes (s : Files) (p : Path) : List UInt8 := (s p).getD []

/-- A file replaced. -/
def Files.put (s : Files) (p : Path) (l : List UInt8) : Files := Function.update s p (some l)

/-- The file object of `byteFs`. -/
structure ByteHandle where
  path : Path
  pos : Nat
  deriving DecidableEq

/-- Every call succeeds, on files that are byte arrays. -/
def byteFs : Littlefs Files ByteHandle where
  zeroed := ⟨.counter, 0⟩
  fileOpencfg p _ s := (0, ⟨p, 0⟩, s.put p (s.bytes p))
  fileClose h s := (0, h, s)
  fileSize h s := (((s.bytes h.path).length : Int), h, s)
  fileTruncate n h s := (0, h, s.put h.path (ByteFile.truncate (s.bytes h.path) n))
  fileSeek n h s := ((n : Int), { h with pos := n }, s)
  fileRead n h s :=
    let l := ByteFile.read (s.bytes h.path) h.pos n
    (((l.length : Int), l), { h with pos := h.pos + l.length }, s)
  fileWrite src h s :=
    ((src.length : Int), { h with pos := h.pos + src.length },
      s.put h.path (ByteFile.write (s.bytes h.path) h.pos src))

namespace Files

variable {s : Files} {p q : Path} {l l' : List UInt8}

@[simp] theorem bytes_put_self : (s.put p l).bytes p = l := by
  unfold bytes put
  rw [Function.update_self, Option.getD_some]

theorem bytes_put_of_ne (h : q ≠ p) : (s.put p l).bytes q = s.bytes q := by
  unfold bytes put
  rw [Function.update_of_ne h]

@[simp] theorem put_put : (s.put p l).put p l' = s.put p l' := Function.update_idem _ _ _

/-- Putting back what a file holds changes nothing. -/
theorem put_self (h : s p = some l) : s.put p l = s := by
  unfold put
  rw [← h, Function.update_eq_self]

end Files

/-- An open handle on a file at a position. -/
def openAt (p : Path) (pos : Nat) : FsFile ByteHandle := ⟨⟨p, pos⟩, true⟩

section ByteFs

variable {s : Files} {p : Path} {pos : Nat} {h : ByteHandle}

@[simp] theorem byteFs_open : fsOpenFile byteFs p ⟨h, false⟩ s = (0, openAt p 0, s.put p (s.bytes p)) := rfl

@[simp] theorem byteFs_close : fsCloseFile byteFs (openAt p pos) s = (0, ⟨⟨p, pos⟩, false⟩, s) := rfl

@[simp] theorem byteFs_size : fsFileSize byteFs (openAt p pos) s
    = (((s.bytes p).length : Int), openAt p pos, s) := rfl

@[simp] theorem byteFs_truncate (n : Nat) : fsTruncateFile byteFs n (openAt p pos) s
    = (0, openAt p pos, s.put p (ByteFile.truncate (s.bytes p) n)) := rfl

@[simp] theorem byteFs_read (n : Nat) : fsRead byteFs n (openAt p pos) s
    = ((((ByteFile.read (s.bytes p) pos n).length : Int), ByteFile.read (s.bytes p) pos n),
      openAt p (pos + (ByteFile.read (s.bytes p) pos n).length), s) := rfl

@[simp] theorem byteFs_readAt (n off : Nat) : fsReadAt byteFs n off (openAt p pos) s
    = ((((ByteFile.read (s.bytes p) off n).length : Int), ByteFile.read (s.bytes p) off n),
      openAt p (off + (ByteFile.read (s.bytes p) off n).length), s) := rfl

@[simp] theorem byteFs_writeAt (buf : List UInt8) (off : Nat) : fsWriteAt byteFs buf off (openAt p pos) s
    = ((buf.length : Int), openAt p (off + buf.length), s.put p (ByteFile.write (s.bytes p) off buf)) := rfl

end ByteFs

end TkeyFido2
