import Mathlib.Tactic.Common

/-!
# Files as byte lists

A file is the list of its bytes; it is read, written and cut at positions.  `moved` is the state of
a copy that closes a gap piece by piece, and `RecordFormat` describes a file of records of one size.
-/

namespace ByteFile

/-- Up to `n` bytes from `pos` on. -/
def read (f : List UInt8) (pos n : Nat) : List UInt8 := (f.drop pos).take n

/-- Bytes written from `pos` on; what lies between the end of the file and `pos` becomes zero. -/
def write (f : List UInt8) (pos : Nat) (src : List UInt8) : List UInt8 :=
  f.take pos ++ List.replicate (pos - f.length) 0 ++ src ++ f.drop (pos + src.length)

/-- The file cut, or filled up with zeroes, to `n` bytes. -/
def truncate (f : List UInt8) (n : Nat) : List UInt8 := f.take n ++ List.replicate (n - f.length) 0

variable {f : List UInt8}

theorem length_read {pos n : Nat} (h : pos + n ≤ f.length) : (read f pos n).length = n := by
  unfold read
  rw [List.length_take, List.length_drop]
  omega

theorem write_of_le {pos : Nat} {src : List UInt8} (h : pos ≤ f.length) :
    write f pos src = f.take pos ++ (src ++ f.drop (pos + src.length)) := by
  unfold write
  rw [Nat.sub_eq_zero_of_le h, List.replicate_zero, List.append_nil, List.append_assoc]

theorem truncate_of_le {n : Nat} (h : n ≤ f.length) : truncate f n = f.take n := by
  unfold truncate
  rw [Nat.sub_eq_zero_of_le h, List.replicate_zero, List.append_nil]

/-! ## Closing a gap -/

/-- `gap` bytes at `pos` are being removed: the first `k` bytes behind them have been moved down, and
everything from `pos + k` on stands as it was. -/
def moved (f : List UInt8) (pos gap k : Nat) : List UInt8 :=
  f.take pos ++ (read f (pos + gap) k ++ f.drop (pos + k))

@[simp] theorem moved_zero (pos gap : Nat) : moved f pos gap 0 = f := by
  unfold moved read
  rw [List.take_zero, List.nil_append, Nat.add_zero, List.take_append_drop]

variable {pos gap k c : Nat}

theorem length_moved (h : pos + gap + k ≤ f.length) : (moved f pos gap k).length = f.length := by
  unfold moved
  rw [List.length_append, List.length_append, length_read h, List.length_take, List.length_drop]
  omega

/-- Behind what has been moved, the file is unchanged. -/
theorem drop_moved (h : pos + gap + k ≤ f.length) (i : Nat) :
    (moved f pos gap k).drop (pos + k + i) = f.drop (pos + k + i) := by
  have htake : (f.take pos).length = pos := by
    rw [List.length_take]
    omega
  unfold moved
  rw [← List.append_assoc, List.drop_append, List.drop_eq_nil_of_le, List.nil_append, List.drop_drop]
  · congr 1
    rw [List.length_append, length_read h, htake]
    omega
  · rw [List.length_append, length_read h, htake]
    omega

/-- The next piece has not been written to yet. -/
theorem read_moved (h : pos + gap + k ≤ f.length) :
    read (moved f pos gap k) (pos + gap + k) c = read f (pos + gap + k) c := by
  unfold read
  rw [show pos + gap + k = pos + k + gap by omega, drop_moved (by omega)]

theorem take_moved (h : pos + gap + k ≤ f.length) :
    (moved f pos gap k).take (pos + k) = f.take pos ++ read f (pos + gap) k := by
  unfold moved
  rw [← List.append_assoc, List.take_left']
  rw [List.length_append, length_read h, List.length_take]
  omega

theorem read_add (i k c : Nat) : read f i (k + c) = read f i k ++ read f (i + k) c := by
  unfold read
  rw [List.take_add, List.drop_drop]

/-- One piece moved. -/
theorem write_moved (h : pos + gap + (k + c) ≤ f.length) :
    write (moved f pos gap k) (pos + k) (read f (pos + gap + k) c) = moved f pos gap (k + c) := by
  have hlen : (read f (pos + gap + k) c).length = c := length_read (by omega)
  rw [write_of_le (by rw [length_moved (by omega)]; omega), hlen, drop_moved (by omega),
    take_moved (by omega)]
  unfold moved
  rw [read_add, List.append_assoc, List.append_assoc, Nat.add_assoc pos k c]

/-- All pieces moved and the file cut: the gap is gone. -/
theorem truncate_moved (h : pos + gap + k = f.length) :
    truncate (moved f pos gap k) (pos + k) = f.take pos ++ f.drop (pos + gap) := by
  have hrest : read f (pos + gap) k = f.drop (pos + gap) :=
    List.take_of_length_le (by rw [List.length_drop]; omega)
  rw [truncate_of_le (by rw [length_moved (by omega)]; omega), take_moved (by omega), hrest]

/-! ## Files of records -/

/-- Records of one size. -/
structure RecordFormat (ρ : Type) where
  size : Nat
  encode : ρ → List UInt8
  decode : List UInt8 → ρ
  length_encode : ∀ r, (encode r).length = size
  decode_encode : ∀ r, decode (encode r) = r
  encode_decode : ∀ l, l.length = size → encode (decode l) = l

namespace RecordFormat

variable {ρ : Type} (F : RecordFormat ρ)

/-- The file with the given records. -/
def file (rs : List ρ) : List UInt8 := rs.flatMap F.encode

@[simp] theorem file_nil : F.file [] = [] := rfl

@[simp] theorem file_cons (r : ρ) (rs : List ρ) : F.file (r :: rs) = F.encode r ++ F.file rs := rfl

@[simp] theorem file_append (rs rs' : List ρ) : F.file (rs ++ rs') = F.file rs ++ F.file rs' :=
  List.flatMap_append

@[simp] theorem length_file (rs : List ρ) : (F.file rs).length = rs.length * F.size := by
  induction rs with
  | nil => simp
  | cons r rs ih =>
    rw [file_cons, List.length_append, F.length_encode, ih, List.length_cons, Nat.succ_mul]
    omega

/-- Every file of the size of `k` records is a file of `k` records. -/
theorem exists_file (k : Nat) (f : List UInt8) (h : f.length = k * F.size) :
    ∃ rs : List ρ, rs.length = k ∧ F.file rs = f := by
  induction k generalizing f with
  | zero =>
    refine ⟨[], rfl, ?_⟩
    rw [file_nil, eq_comm, ← List.length_eq_zero_iff, h, Nat.zero_mul]
  | succ k ih =>
    rw [Nat.succ_mul] at h
    obtain ⟨rs, hrs, hfile⟩ := ih (f.drop F.size) (by rw [List.length_drop]; omega)
    refine ⟨F.decode (f.take F.size) :: rs, by rw [List.length_cons, hrs], ?_⟩
    rw [file_cons, hfile, F.encode_decode _ (by rw [List.length_take]; omega), List.take_append_drop]

theorem take_file (rs : List ρ) (i : Nat) : (F.file rs).take (i * F.size) = F.file (rs.take i) := by
  induction rs generalizing i with
  | nil => simp
  | cons r rs ih =>
    cases i with
    | zero => simp
    | succ i =>
      rw [List.take_succ_cons, file_cons, file_cons, Nat.succ_mul, Nat.add_comm, List.take_append,
        F.length_encode, Nat.add_sub_cancel_left, ih,
        List.take_of_length_le (by rw [F.length_encode]; omega)]

theorem drop_file (rs : List ρ) (i : Nat) : (F.file rs).drop (i * F.size) = F.file (rs.drop i) := by
  have hsplit : F.file (rs.take i) ++ (F.file rs).drop (i * F.size) = F.file (rs.take i) ++ F.file (rs.drop i) := by
    rw [← F.take_file, List.take_append_drop, F.take_file, ← F.file_append, List.take_append_drop]
  exact List.append_cancel_left hsplit

/-- Reading one record. -/
theorem read_record {rs : List ρ} {i : Nat} {r : ρ} (h : rs[i]? = some r) :
    read (F.file rs) (i * F.size) F.size = F.encode r := by
  obtain ⟨hi, rfl⟩ := List.getElem?_eq_some_iff.mp h
  unfold read
  rw [F.drop_file, List.drop_eq_getElem_cons hi, file_cons, List.take_left' (F.length_encode _)]

/-- The file without one record. -/
theorem file_eraseIdx (rs : List ρ) (i : Nat) :
    (F.file rs).take (i * F.size) ++ (F.file rs).drop ((i + 1) * F.size) = F.file (rs.eraseIdx i) := by
  rw [F.take_file, F.drop_file, ← F.file_append, List.eraseIdx_eq_take_drop_succ]

end RecordFormat

end ByteFile
