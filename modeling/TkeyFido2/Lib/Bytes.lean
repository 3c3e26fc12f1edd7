import Mathlib.Data.Vector.Basic
import Mathlib.Tactic.Common

/-!
# Byte buffers

A C byte array of known size is a list that carries its length, and `memcpy`, `memset` and
sub-array reads are total functions on it.  Integers cross into bytes in the two fixed orders used
on the wire and in memory.
-/

/-- A byte array of `n` bytes. -/
abbrev Bytes (n : Nat) := List.Vector UInt8 n

namespace Bytes

variable {n m : Nat}

/-- The array that holds `l`, cut or padded with zeroes to `n` bytes. -/
def ofList (n : Nat) (l : List UInt8) : Bytes n :=
  ⟨(l ++ List.replicate n 0).take n, by simp⟩

/-- `memset(b, 0, n)`. -/
def zero (n : Nat) : Bytes n := ⟨List.replicate n 0, by simp⟩

/-- `memcpy(b + off, src, len)`: bytes that would fall behind the array are dropped. -/
def patch (b : Bytes n) (off : Nat) (src : List UInt8) : Bytes n :=
  ⟨(b.toList.take off ++ src ++ b.toList.drop (off + src.length)).take n, by
    have h := b.toList_length
    simp only [List.length_take, List.length_append, List.length_drop, h]
    omega⟩

/-- The `m` bytes from `off` on. -/
def slice (b : Bytes n) (off m : Nat) : Bytes m := ofList m (b.toList.drop off)

/-- The byte at `i`. -/
def byte (b : Bytes n) (i : Nat) : UInt8 := b.toList.getD i 0

/-- Two arrays one after the other. -/
def append (a : Bytes n) (b : Bytes m) : Bytes (n + m) :=
  ⟨a.toList ++ b.toList, by simp⟩

instance : Inhabited (Bytes n) := ⟨zero n⟩

theorem ext_toList {a b : Bytes n} (h : a.toList = b.toList) : a = b := Subtype.ext h

@[simp] theorem toList_zero : (zero n).toList = List.replicate n 0 := rfl

theorem toList_ofList (l : List UInt8) :
    (ofList n l).toList = (l ++ List.replicate n 0).take n := rfl

@[simp] theorem toList_ofList_of_length {l : List UInt8} (h : l.length = n) :
    (ofList n l).toList = l := by
  rw [toList_ofList, List.take_append_of_le_length (by omega), List.take_of_length_le (by omega)]

theorem toList_ofList_of_le {l : List UInt8} (h : l.length ≤ n) :
    (ofList n l).toList = l ++ List.replicate (n - l.length) 0 := by
  rw [toList_ofList, List.take_append, List.take_of_length_le h, List.take_replicate,
    Nat.min_eq_left (Nat.sub_le _ _)]

@[simp] theorem ofList_toList (b : Bytes n) : ofList n b.toList = b :=
  ext_toList (toList_ofList_of_length b.toList_length)

theorem ofList_append (b : Bytes n) (rest : List UInt8) : ofList n (b.toList ++ rest) = b := by
  refine ext_toList ?_
  rw [toList_ofList, List.append_assoc, List.take_left' b.toList_length]

/-- A field that starts behind `pre`. -/
theorem slice_of_append {b : Bytes n} (pre rest : List UInt8) {f : Bytes m} {off : Nat}
    (h : b.toList = pre ++ (f.toList ++ rest)) (hoff : pre.length = off) : b.slice off m = f := by
  unfold slice
  rw [h, List.drop_left' hoff, ofList_append]

@[simp] theorem toList_append (a : Bytes n) (b : Bytes m) :
    (append a b).toList = a.toList ++ b.toList := rfl

theorem toList_patch_of_le (b : Bytes n) (off : Nat) (src : List UInt8)
    (h : off + src.length ≤ n) :
    (b.patch off src).toList
      = b.toList.take off ++ src ++ b.toList.drop (off + src.length) := by
  have hb := b.toList_length
  refine List.take_of_length_le ?_
  simp only [List.length_append, List.length_take, List.length_drop, hb]
  omega

/-- What stands before the end of the copied bytes. -/
theorem take_patch (b : Bytes n) (off : Nat) (src : List UInt8) (h : off + src.length ≤ n) :
    (b.patch off src).toList.take (off + src.length) = b.toList.take off ++ src := by
  have hb := b.toList_length
  rw [toList_patch_of_le b off src h, List.take_append_of_le_length]
  · refine List.take_of_length_le ?_
    simp only [List.length_append, List.length_take, hb]
    omega
  · simp only [List.length_append, List.length_take, hb]
    omega

theorem take_patch_of_le (b : Bytes n) (off : Nat) (src : List UInt8) (k : Nat) (hk : k ≤ off)
    (h : off + src.length ≤ n) :
    (b.patch off src).toList.take k = b.toList.take k := by
  have hb := b.toList_length
  rw [toList_patch_of_le b off src h, List.append_assoc, List.take_append_of_le_length]
  · rw [List.take_take, min_eq_left hk]
  · simp only [List.length_take, hb]
    omega

@[simp] theorem patch_nil (b : Bytes n) (off : Nat) : b.patch off [] = b := by
  have hb := b.toList_length
  refine ext_toList ?_
  show (b.toList.take off ++ [] ++ b.toList.drop (off + 0)).take n = b.toList
  rw [List.append_nil, Nat.add_zero, List.take_append_drop, List.take_of_length_le (by omega)]

/-- Copying to the start a second time changes nothing. -/
theorem patch_patch (b : Bytes n) (src : List UInt8) : (b.patch 0 src).patch 0 src = b.patch 0 src := by
  have hpatch : ∀ c : Bytes n, (c.patch 0 src).toList = (src ++ c.toList.drop src.length).take n := by
    intro c
    show ([] ++ src ++ c.toList.drop (0 + src.length)).take n = _
    rw [List.nil_append, Nat.zero_add]
  refine Bytes.ext_toList ?_
  rw [hpatch, hpatch, List.drop_take, List.drop_left, List.take_append, List.take_append, List.take_take,
    Nat.min_self]

theorem toList_slice_of_le (b : Bytes n) {off : Nat} (h : off + m ≤ n) :
    (b.slice off m).toList = (b.toList.drop off).take m := by
  have hb := b.toList_length
  unfold slice
  rw [toList_ofList, List.take_append_of_le_length (by rw [List.length_drop]; omega)]

/-- A byte is a field of length one. -/
theorem byte_eq_slice (b : Bytes n) {i : Nat} (h : i < n) : b.byte i = (b.slice i 1).byte 0 := by
  unfold byte
  rw [toList_slice_of_le b h]
  simp [List.getD_eq_getElem?_getD]

/-- A field that was just written. -/
theorem slice_patch_self (b : Bytes n) {off : Nat} (src : Bytes m) (h : off + m ≤ n) :
    (b.patch off src.toList).slice off m = src := by
  have hb := b.toList_length
  refine slice_of_append (b.toList.take off) (b.toList.drop (off + m)) ?_ ?_
  · rw [toList_patch_of_le b off _ (by rwa [src.toList_length]), src.toList_length, List.append_assoc]
  · rw [List.length_take]
    omega

/-- A field before the one that was written. -/
theorem slice_patch_of_le (b : Bytes n) {off off' : Nat} (src : List UInt8) (hle : off' + m ≤ off)
    (h : off + src.length ≤ n) : (b.patch off src).slice off' m = b.slice off' m := by
  refine ext_toList ?_
  rw [toList_slice_of_le _ (by omega), toList_slice_of_le _ (by omega), List.take_drop, List.take_drop,
    take_patch_of_le b off src _ hle h]

/-- A field behind the one that was written. -/
theorem slice_patch_of_ge (b : Bytes n) {off off' : Nat} (src : List UInt8) (hle : off + src.length ≤ off')
    (h : off' + m ≤ n) : (b.patch off src).slice off' m = b.slice off' m := by
  have hb := b.toList_length
  refine ext_toList ?_
  rw [toList_slice_of_le _ h, toList_slice_of_le _ h, toList_patch_of_le _ _ _ (by omega), List.drop_append,
    List.drop_eq_nil_of_le (by rw [List.length_append, List.length_take]; omega), List.nil_append,
    List.drop_drop, List.length_append, List.length_take]
  congr 2
  omega

/-- Writing inside a field. -/
theorem slice_patch_inside (b : Bytes n) {off : Nat} (k : Nat) (src : List UInt8) (hk : k + src.length ≤ m)
    (h : off + m ≤ n) : (b.patch (off + k) src).slice off m = (b.slice off m).patch k src := by
  have hb := b.toList_length
  refine slice_of_append (b.toList.take off) (b.toList.drop (off + m)) ?_ (by rw [List.length_take]; omega)
  have hfront : b.toList.take (off + k) = b.toList.take off ++ ((b.toList.drop off).take m).take k := by
    rw [List.take_add, List.take_take, min_eq_left (by omega)]
  have hback : b.toList.drop (off + k + src.length)
      = ((b.toList.drop off).take m).drop (k + src.length) ++ b.toList.drop (off + m) := by
    have hsplit : (b.toList.drop off).take m ++ b.toList.drop (off + m) = b.toList.drop off := by
      rw [← List.drop_drop, List.take_append_drop]
    rw [← List.drop_append_of_le_length (by rw [List.length_take, List.length_drop]; omega), hsplit,
      List.drop_drop, Nat.add_assoc]
  rw [toList_patch_of_le _ _ _ (by omega), toList_patch_of_le _ _ _ hk, toList_slice_of_le _ h, hfront, hback]
  simp only [List.append_assoc]

/-- Writing a field back changes nothing. -/
theorem patch_slice_self (b : Bytes n) {off : Nat} (h : off + m ≤ n) :
    b.patch off (b.slice off m).toList = b := by
  refine ext_toList ?_
  rw [toList_patch_of_le b off _ (by rwa [List.Vector.toList_length]), List.Vector.toList_length,
    toList_slice_of_le b h, List.append_assoc, ← List.drop_drop, List.take_append_drop,
    List.take_append_drop]

theorem byte_eq_of_take_eq {a b : Bytes n} {k i : Nat} (h : a.toList.take k = b.toList.take k) (hi : i < k) :
    a.byte i = b.byte i := by
  have hget := congrArg (fun l : List UInt8 => l[i]?) h
  simp only [List.getElem?_take, hi, if_true] at hget
  simp only [byte, List.getD_eq_getElem?_getD, hget]

theorem slice_eq_of_take_eq {a b : Bytes n} {k off : Nat} (h : a.toList.take k = b.toList.take k)
    (hk : off + m ≤ k) (hn : off + m ≤ n) : a.slice off m = b.slice off m := by
  have hm : a.toList.take (off + m) = b.toList.take (off + m) := by
    have ht := congrArg (List.take (off + m)) h
    rwa [List.take_take, List.take_take, min_eq_left hk] at ht
  refine ext_toList ?_
  rw [toList_slice_of_le _ hn, toList_slice_of_le _ hn, List.take_drop, List.take_drop, hm]

/-- Writing `j` bytes behind what a zeroed buffer holds. -/
theorem patch_ofList (pre src : List UInt8) (j : Nat) {off : Nat} (hoff : off = pre.length + j)
    (h : off + src.length ≤ n) :
    (ofList n pre).patch off src = ofList n (pre ++ (List.replicate j 0 ++ src)) := by
  subst hoff
  refine ext_toList ?_
  rw [toList_patch_of_le _ _ _ h, toList_ofList_of_le (by omega), toList_ofList_of_le (by simp; omega)]
  simp only [List.take_append, List.drop_append, List.length_append, List.length_replicate,
    List.take_replicate, List.drop_replicate, List.append_assoc]
  rw [List.take_of_length_le (by omega), List.drop_eq_nil_of_le (by omega), List.nil_append]
  congr 2
  · congr 1
    omega
  · congr 2
    omega

/-- A zero written behind what a zeroed buffer holds. -/
theorem patch_ofList_zero (pre : List UInt8) {off : Nat} (hoff : pre.length ≤ off) (h : off < n) :
    (ofList n pre).patch off [0] = ofList n pre := by
  rw [patch_ofList pre [0] (off - pre.length) (by omega) h, ← List.replicate_succ']
  refine ext_toList ?_
  rw [toList_ofList_of_le (by simp; omega), toList_ofList_of_le (by omega), List.append_assoc,
    List.replicate_append_replicate, List.length_append, List.length_replicate]
  congr 2
  omega

end Bytes

/-! ## Integers as bytes -/

/-- A 32-bit integer as little-endian bytes, as it lies in memory. -/
def le32 (x : UInt32) : List UInt8 :=
  [UInt8.ofNat x.toNat, UInt8.ofNat (x.toNat / 256), UInt8.ofNat (x.toNat / 65536),
    UInt8.ofNat (x.toNat / 16777216)]

/-- The little-endian integer of the first four bytes of a buffer. -/
def ofLe32 (l : List UInt8) : UInt32 :=
  UInt32.ofNat ((l.getD 0 0).toNat + 256 * (l.getD 1 0).toNat + 65536 * (l.getD 2 0).toNat
    + 16777216 * (l.getD 3 0).toNat)

/-- A 32-bit integer as big-endian bytes. -/
def be32 (x : UInt32) : List UInt8 := (le32 x).reverse

/-- A 16-bit integer as big-endian bytes. -/
def be16 (x : UInt16) : List UInt8 := [UInt8.ofNat (x.toNat / 256), UInt8.ofNat x.toNat]

@[simp] theorem length_le32 (x : UInt32) : (le32 x).length = 4 := rfl

@[simp] theorem length_be32 (x : UInt32) : (be32 x).length = 4 := rfl

@[simp] theorem length_be16 (x : UInt16) : (be16 x).length = 2 := rfl

@[simp] theorem ofLe32_le32 (x : UInt32) (l : List UInt8) : ofLe32 (le32 x ++ l) = x := by
  have hx := x.toNat_lt
  apply UInt32.toNat_inj.mp
  simp only [ofLe32, le32, List.cons_append, List.getD_cons_zero, List.getD_cons_succ,
    UInt8.toNat_ofNat', UInt32.toNat_ofNat']
  omega
