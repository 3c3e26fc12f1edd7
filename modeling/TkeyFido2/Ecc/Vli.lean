import TkeyFido2.Lib.Limbs
import TkeyFido2.Lib.Bytes
import Mathlib.Data.Nat.Bitwise
import Mathlib.Data.Vector.Basic
import Mathlib.Tactic.LinearCombination

/-!
# The integers of micro-ecc

The functions `uECC_vli_...` on words of 32 bits.
-/

namespace TkeyFido2.Ecc

open Limbs

/-- An integer of `n` words. -/
abbrev Vli (n : Nat) := List.Vector UInt32 n

namespace Vli

variable {n : Nat}

/-- The number that an integer stands for. -/
def nat (v : Vli n) : Nat := value v.toList

theorem nat_lt (v : Vli n) : v.nat < (2 ^ 32) ^ n := by
  have h := value_lt v.toList
  rwa [v.toList_length] at h

theorem nat_inj {u v : Vli n} (h : u.nat = v.nat) : u = v :=
  List.Vector.eq _ _ (value_inj (by simp) h)

end Vli

/-! ## Addition and subtraction -/

/-- The loop of `uECC_vli_add`: the sum and the carry. -/
def vliAddLoop : List UInt32 → List UInt32 → UInt32 → List UInt32 × UInt32
  | left :: ls, right :: rs, carry =>
    let sum := left + right + carry
    let carry := if sum ≠ left then (if sum < left then 1 else 0) else carry
    let rest := vliAddLoop ls rs carry
    (sum :: rest.1, rest.2)
  | _, _, carry => ([], carry)

/-- The loop of `uECC_vli_sub`: the difference and the borrow. -/
def vliSubLoop : List UInt32 → List UInt32 → UInt32 → List UInt32 × UInt32
  | left :: ls, right :: rs, borrow =>
    let diff := left - right - borrow
    let borrow := if diff ≠ left then (if diff > left then 1 else 0) else borrow
    let rest := vliSubLoop ls rs borrow
    (diff :: rest.1, rest.2)
  | _, _, borrow => ([], borrow)

section Loops

variable {ls rs : List UInt32} {left right carry : UInt32}

theorem addWord_spec (hc : carry.toNat ≤ 1) {sum carry' : UInt32} (hsum : sum = left + right + carry)
    (hcarry : carry' = if sum ≠ left then (if sum < left then 1 else 0) else carry) :
    sum.toNat + 2 ^ 32 * carry'.toNat = left.toNat + right.toNat + carry.toNat ∧ carry'.toNat ≤ 1 := by
  have hl := left.toNat_lt
  have hr := right.toNat_lt
  have hsum' : sum.toNat = (left.toNat + right.toNat + carry.toNat) % 2 ^ 32 := by
    rw [hsum, UInt32.toNat_add, UInt32.toNat_add, Nat.mod_add_mod]
  clear hsum
  subst hcarry
  have hne : sum ≠ left ↔ sum.toNat ≠ left.toNat := by rw [Ne, Ne, UInt32.toNat_inj]
  by_cases h : sum.toNat = left.toNat
  · rw [if_neg (by rw [hne]; omega)]
    omega
  · rw [if_pos (hne.mpr h)]
    by_cases h' : sum.toNat < left.toNat
    · rw [if_pos (UInt32.lt_iff_toNat_lt.mpr h')]
      simp only [UInt32.toNat_one]
      omega
    · rw [if_neg (by rwa [UInt32.lt_iff_toNat_lt])]
      simp only [UInt32.toNat_zero]
      omega

theorem subWord_spec {borrow : UInt32} (hb : borrow.toNat ≤ 1) {diff borrow' : UInt32}
    (hdiff : diff = left - right - borrow)
    (hborrow : borrow' = if diff ≠ left then (if diff > left then 1 else 0) else borrow) :
    diff.toNat + right.toNat + borrow.toNat = left.toNat + 2 ^ 32 * borrow'.toNat ∧ borrow'.toNat ≤ 1 := by
  have hl := left.toNat_lt
  have hr := right.toNat_lt
  have hdiff' : diff.toNat = (left.toNat + 2 ^ 33 - right.toNat - borrow.toNat) % 2 ^ 32 := by
    rw [hdiff, UInt32.toNat_sub, UInt32.toNat_sub]
    omega
  clear hdiff
  subst hborrow
  have hne : diff ≠ left ↔ diff.toNat ≠ left.toNat := by rw [Ne, Ne, UInt32.toNat_inj]
  by_cases h : diff.toNat = left.toNat
  · rw [if_neg (by rw [hne]; omega)]
    omega
  · rw [if_pos (hne.mpr h)]
    by_cases h' : left.toNat < diff.toNat
    · rw [if_pos (UInt32.lt_iff_toNat_lt.mpr h')]
      simp only [UInt32.toNat_one]
      omega
    · rw [if_neg (by rwa [gt_iff_lt, UInt32.lt_iff_toNat_lt])]
      simp only [UInt32.toNat_zero]
      omega

theorem vliAddLoop_spec (hlen : ls.length = rs.length) (hc : carry.toNat ≤ 1) :
    (vliAddLoop ls rs carry).1.length = ls.length ∧ (vliAddLoop ls rs carry).2.toNat ≤ 1 ∧
      value (vliAddLoop ls rs carry).1 + (2 ^ 32) ^ ls.length * (vliAddLoop ls rs carry).2.toNat
        = value ls + value rs + carry.toNat := by
  induction ls generalizing rs carry with
  | nil =>
    obtain rfl := List.length_eq_zero_iff.mp hlen.symm
    simp [vliAddLoop, hc]
  | cons left ls ih =>
    obtain ⟨right, rs, rfl⟩ := List.exists_cons_of_length_eq_add_one hlen.symm
    obtain ⟨hword, hcarry⟩ := @addWord_spec left right carry hc _ _ rfl rfl
    obtain ⟨hlen', hle, hvalue⟩ := ih (Nat.succ.inj hlen) hcarry
    unfold vliAddLoop
    dsimp only
    generalize vliAddLoop ls rs _ = rest at hlen' hle hvalue ⊢
    refine ⟨by rw [List.length_cons, List.length_cons, hlen'], hle, ?_⟩
    simp only [value_cons, List.length_cons, pow_succ] at hword ⊢
    linear_combination hword + 2 ^ 32 * hvalue

theorem vliSubLoop_spec {borrow : UInt32} (hlen : ls.length = rs.length) (hb : borrow.toNat ≤ 1) :
    (vliSubLoop ls rs borrow).1.length = ls.length ∧ (vliSubLoop ls rs borrow).2.toNat ≤ 1 ∧
      value (vliSubLoop ls rs borrow).1 + value rs + borrow.toNat
        = value ls + (2 ^ 32) ^ ls.length * (vliSubLoop ls rs borrow).2.toNat := by
  induction ls generalizing rs borrow with
  | nil =>
    obtain rfl := List.length_eq_zero_iff.mp hlen.symm
    simp [vliSubLoop, hb]
  | cons left ls ih =>
    obtain ⟨right, rs, rfl⟩ := List.exists_cons_of_length_eq_add_one hlen.symm
    obtain ⟨hword, hborrow⟩ := @subWord_spec left right borrow hb _ _ rfl rfl
    obtain ⟨hlen', hle, hvalue⟩ := ih (Nat.succ.inj hlen) hborrow
    unfold vliSubLoop
    dsimp only
    generalize vliSubLoop ls rs _ = rest at hlen' hle hvalue ⊢
    refine ⟨by rw [List.length_cons, List.length_cons, hlen'], hle, ?_⟩
    simp only [value_cons, List.length_cons, pow_succ] at hword ⊢
    linear_combination hword + 2 ^ 32 * hvalue

end Loops

section Sums

variable {n : Nat}

/-- `uECC_vli_add`. -/
def vliAdd (left right : Vli n) : Vli n × UInt32 :=
  (⟨(vliAddLoop left.toList right.toList 0).1,
    (vliAddLoop_spec (by simp) (by decide)).1.trans left.toList_length⟩, (vliAddLoop left.toList right.toList 0).2)

/-- `uECC_vli_sub`. -/
def vliSub (left right : Vli n) : Vli n × UInt32 :=
  (⟨(vliSubLoop left.toList right.toList 0).1,
    (vliSubLoop_spec (by simp) (by decide)).1.trans left.toList_length⟩, (vliSubLoop left.toList right.toList 0).2)

theorem vliAdd_nat (left right : Vli n) :
    (vliAdd left right).1.nat + (2 ^ 32) ^ n * (vliAdd left right).2.toNat = left.nat + right.nat := by
  obtain ⟨-, -, h⟩ := @vliAddLoop_spec left.toList right.toList 0 (by simp) (by decide)
  rwa [left.toList_length, UInt32.toNat_zero, Nat.add_zero] at h

theorem vliAdd_carry (left right : Vli n) : (vliAdd left right).2.toNat ≤ 1 :=
  (vliAddLoop_spec (by simp) (by decide)).2.1

theorem vliSub_nat (left right : Vli n) :
    (vliSub left right).1.nat + right.nat = left.nat + (2 ^ 32) ^ n * (vliSub left right).2.toNat := by
  obtain ⟨-, -, h⟩ := @vliSubLoop_spec left.toList right.toList 0 (by simp) (by decide)
  rwa [left.toList_length, UInt32.toNat_zero, Nat.add_zero] at h

theorem vliSub_borrow (left right : Vli n) : (vliSub left right).2.toNat ≤ 1 :=
  (vliSubLoop_spec (by simp) (by decide)).2.1

end Sums

/-! ## Shifts, bits and comparisons -/

/-- The loop of `uECC_vli_rshift1`, which starts at the highest word: the words and the carry for the next
lower word. -/
def vliRshift1Loop : List UInt32 → List UInt32 × UInt32
  | [] => ([], 0)
  | temp :: vli =>
    let higher := vliRshift1Loop vli
    ((temp >>> 1 ||| higher.2) :: higher.1, temp <<< 31)

theorem vliRshift1Loop_spec (l : List UInt32) :
    (vliRshift1Loop l).1.length = l.length ∧ (vliRshift1Loop l).2.toNat = 2 ^ 31 * (value l % 2) ∧
      value (vliRshift1Loop l).1 = value l / 2 := by
  induction l with
  | nil => exact ⟨rfl, rfl, rfl⟩
  | cons temp vli ih =>
    obtain ⟨hlen, hcarry, hvalue⟩ := ih
    have htemp := temp.toNat_lt
    have hor : (temp >>> 1 ||| (vliRshift1Loop vli).2).toNat = 2 ^ 31 * (value vli % 2) + temp.toNat / 2 := by
      have hlow : temp.toNat / 2 < 2 ^ 31 := by omega
      have hshift : (temp >>> 1).toNat = temp.toNat / 2 := by
        simp [UInt32.toNat_shiftRight, Nat.shiftRight_eq_div_pow]
      rw [UInt32.toNat_or, hshift, hcarry, Nat.or_comm, ← Nat.two_pow_add_eq_or_of_lt hlow]
    have hleft : (temp <<< 31).toNat = 2 ^ 31 * (temp.toNat % 2) := by
      have h : (temp <<< 31).toNat = temp.toNat * 2 ^ 31 % 2 ^ 32 := by
        simp [UInt32.toNat_shiftLeft, Nat.shiftLeft_eq]
      omega
    unfold vliRshift1Loop
    dsimp only
    refine ⟨by rw [List.length_cons, List.length_cons, hlen], ?_, ?_⟩
    · rw [hleft, value_cons]
      omega
    · rw [value_cons, value_cons, hor, hvalue]
      omega

section Bits

variable {n : Nat}

/-- `uECC_vli_rshift1`. -/
def vliRshift1 (vli : Vli n) : Vli n :=
  ⟨(vliRshift1Loop vli.toList).1, (vliRshift1Loop_spec _).1.trans vli.toList_length⟩

@[simp] theorem vliRshift1_nat (vli : Vli n) : (vliRshift1 vli).nat = vli.nat / 2 :=
  (vliRshift1Loop_spec _).2.2

/-- `uECC_vli_isZero`. -/
def vliIsZero (vli : Vli n) : Bool := vli.toList.foldl (· ||| ·) 0 == 0

theorem foldl_or_eq_zero (l : List UInt32) (bits : UInt32) :
    l.foldl (· ||| ·) bits = 0 ↔ bits = 0 ∧ ∀ w ∈ l, w = 0 := by
  induction l generalizing bits with
  | nil => simp
  | cons w l ih => rw [List.foldl_cons, ih, UInt32.or_eq_zero_iff, List.forall_mem_cons, and_assoc]

theorem vliIsZero_iff {vli : Vli n} : vliIsZero vli = true ↔ vli.nat = 0 := by
  unfold vliIsZero Vli.nat
  rw [beq_iff_eq, foldl_or_eq_zero, value_eq_zero]
  simp

/-- `uECC_vli_testBit`. -/
def vliTestBit (vli : Vli n) (bit : Nat) : Bool :=
  vli.toList.getD (bit >>> 5) 0 &&& (1 <<< UInt32.ofNat (bit &&& 31)) ≠ 0

theorem vliTestBit_eq (vli : Vli n) (bit : Nat) : vliTestBit vli bit = vli.nat.testBit bit := by
  have hword : bit >>> 5 = bit / 32 := Nat.shiftRight_eq_div_pow bit 5
  have hbit : bit &&& 31 = bit % 32 := Nat.and_two_pow_sub_one_eq_mod bit 5
  have hlt : bit % 32 < 32 := Nat.mod_lt _ (by decide)
  have hmask : ((1 : UInt32) <<< UInt32.ofNat (bit % 32)).toNat = 2 ^ (bit % 32) := by
    rw [UInt32.toNat_shiftLeft, UInt32.toNat_ofNat', Nat.mod_eq_of_lt (by omega : bit % 32 < 2 ^ 32),
      Nat.mod_eq_of_lt hlt, UInt32.toNat_one, Nat.one_shiftLeft,
      Nat.mod_eq_of_lt (Nat.pow_lt_pow_right (by decide) hlt)]
  unfold vliTestBit Vli.nat
  rw [testBit_value, hword, hbit, Bool.eq_iff_iff, decide_eq_true_iff, Ne, ← UInt32.toNat_inj, UInt32.toNat_and,
    hmask, Nat.and_two_pow]
  cases (vli.toList.getD (bit / 32) 0).toNat.testBit (bit % 32) with
  | false => simp
  | true => simp

/-- `uECC_vli_cmp_unsafe`: the sign of the difference.  Higher words decide first. -/
def vliCmpUnsafeLoop : List UInt32 → List UInt32 → Int
  | left :: ls, right :: rs =>
    let higher := vliCmpUnsafeLoop ls rs
    if higher ≠ 0 then higher else if left > right then 1 else if left < right then -1 else 0
  | _, _ => 0

def vliCmpUnsafe (left right : Vli n) : Int := vliCmpUnsafeLoop left.toList right.toList

theorem vliCmpUnsafeLoop_eq {ls rs : List UInt32} (hlen : ls.length = rs.length) :
    vliCmpUnsafeLoop ls rs = ((value ls : Int) - value rs).sign := by
  induction ls generalizing rs with
  | nil =>
    obtain rfl := List.length_eq_zero_iff.mp hlen.symm
    rfl
  | cons left ls ih =>
    obtain ⟨right, rs, rfl⟩ := List.exists_cons_of_length_eq_add_one hlen.symm
    have hl := left.toNat_lt
    have hr := right.toNat_lt
    unfold vliCmpUnsafeLoop
    rw [ih (Nat.succ.inj hlen)]
    simp only [value_cons, gt_iff_lt, UInt32.lt_iff_toNat_lt]
    rcases lt_trichotomy (value ls) (value rs) with h | h | h
    · rw [Int.sign_eq_neg_one_of_neg (by omega), Int.sign_eq_neg_one_of_neg (by push_cast; omega)]
      rfl
    · rw [h, sub_self, Int.sign_zero, if_neg (by simp)]
      split_ifs with hgt hlt
      · rw [Int.sign_eq_one_of_pos (by push_cast; omega)]
      · rw [Int.sign_eq_neg_one_of_neg (by push_cast; omega)]
      · rw [Int.sign_eq_zero_iff_zero.mpr (by push_cast; omega)]
    · rw [Int.sign_eq_one_of_pos (by omega), Int.sign_eq_one_of_pos (by push_cast; omega)]
      rfl

theorem vliCmpUnsafe_eq (left right : Vli n) : vliCmpUnsafe left right = ((left.nat : Int) - right.nat).sign :=
  vliCmpUnsafeLoop_eq (by simp)

/-- `uECC_vli_cmp`. -/
def vliCmp (left right : Vli n) : Int :=
  let r := vliSub left right
  let neg : Int := if r.2 ≠ 0 then 1 else 0
  let equal : Int := if vliIsZero r.1 then 1 else 0
  (if equal = 0 then 1 else 0) - 2 * neg

theorem vliCmp_eq (left right : Vli n) : vliCmp left right = ((left.nat : Int) - right.nat).sign := by
  have hnat := vliSub_nat left right
  have hle := vliSub_borrow left right
  have hlt := (vliSub left right).1.nat_lt
  have hleft := left.nat_lt
  have hright := right.nat_lt
  have hzero := @vliIsZero_iff n (vliSub left right).1
  have hborrow : (vliSub left right).2 ≠ 0 ↔ (vliSub left right).2.toNat = 1 := by
    rw [Ne, ← UInt32.toNat_inj, UInt32.toNat_zero]
    omega
  unfold vliCmp
  dsimp only
  generalize (2 ^ 32) ^ n = m at hnat hlt hleft hright
  by_cases hb : (vliSub left right).2.toNat = 1
  · rw [hb, Nat.mul_one] at hnat
    have hne : ¬ vliIsZero (vliSub left right).1 = true := by
      rw [hzero]
      omega
    rw [if_pos (hborrow.mpr hb), if_neg hne, Int.sign_eq_neg_one_of_neg (by omega)]
    rfl
  · have hb' : (vliSub left right).2.toNat = 0 := by omega
    rw [hb', Nat.mul_zero, Nat.add_zero] at hnat
    rw [if_neg (mt hborrow.mp hb)]
    by_cases heq : vliIsZero (vliSub left right).1 = true
    · rw [if_pos heq, Int.sign_eq_zero_iff_zero.mpr (by rw [hzero] at heq; omega)]
      rfl
    · rw [if_neg heq, Int.sign_eq_one_of_pos (by rw [hzero] at heq; omega)]
      rfl

end Bits

/-! ## Multiplication -/

/-- The words `r0`, `r1` and `r2` of `uECC_vli_mult`. -/
structure Acc where
  r0 : UInt32 := 0
  r1 : UInt32 := 0
  r2 : UInt32 := 0

def Acc.nat (r : Acc) : Nat := value [r.r0, r.r1, r.r2]

/-- `muladd`. -/
def muladd (a b : UInt32) (r : Acc) : Acc :=
  let p := a.toUInt64 * b.toUInt64
  let r01 := r.r1.toUInt64 <<< 32 ||| r.r0.toUInt64
  let r01 := r01 + p
  { r0 := r01.toUInt32, r1 := (r01 >>> 32).toUInt32, r2 := r.r2 + (if r01 < p then 1 else 0) }

theorem muladd_nat {a b : UInt32} {r : Acc} (h : r.nat + a.toNat * b.toNat < (2 ^ 32) ^ 3) :
    (muladd a b r).nat = r.nat + a.toNat * b.toNat := by
  have h0 := r.r0.toNat_lt
  have h1 := r.r1.toNat_lt
  have hp : (a.toUInt64 * b.toUInt64).toNat = a.toNat * b.toNat := by
    have hlt : a.toNat * b.toNat < 2 ^ 64 :=
      (Nat.mul_lt_mul'' a.toNat_lt b.toNat_lt).trans_le (by decide)
    rw [UInt64.toNat_mul, UInt32.toNat_toUInt64, UInt32.toNat_toUInt64, Nat.mod_eq_of_lt hlt]
  have hr : (r.r1.toUInt64 <<< 32 ||| r.r0.toUInt64).toNat = 2 ^ 32 * r.r1.toNat + r.r0.toNat := by
    have hshift : (r.r1.toUInt64 <<< 32).toNat = 2 ^ 32 * r.r1.toNat := by
      simp [UInt64.toNat_shiftLeft, Nat.shiftLeft_eq]
      omega
    rw [UInt64.toNat_or, hshift, UInt32.toNat_toUInt64, ← Nat.two_pow_add_eq_or_of_lt h0]
  have hnat : r.nat = r.r0.toNat + 2 ^ 32 * r.r1.toNat + 2 ^ 64 * r.r2.toNat := by
    unfold Acc.nat
    simp only [value_cons, value_nil]
    ring
  have hsum : (r.r1.toUInt64 <<< 32 ||| r.r0.toUInt64).toNat + (a.toUInt64 * b.toUInt64).toNat
      = 2 ^ 32 * r.r1.toNat + r.r0.toNat + a.toNat * b.toNat := by rw [hr, hp]
  unfold muladd Acc.nat
  dsimp only
  simp only [value_cons, value_nil]
  generalize a.toUInt64 * b.toUInt64 = p at hp hsum ⊢
  generalize r.r1.toUInt64 <<< 32 ||| r.r0.toUInt64 = r01 at hr hsum ⊢
  have hadd : (r01 + p).toNat = (r01.toNat + p.toNat) % 2 ^ 64 := UInt64.toNat_add ..
  have hlt : r01 + p < p ↔ (r01 + p).toNat < p.toNat := UInt64.lt_iff_toNat_lt
  have hr01 := r01.toNat_lt
  have hp' := p.toNat_lt
  have hhigh : ((r01 + p) >>> 32).toUInt32.toNat = (r01 + p).toNat / 2 ^ 32 := by
    simp [Nat.shiftRight_eq_div_pow]
    omega
  have hlow : (r01 + p).toUInt32.toNat = (r01 + p).toNat % 2 ^ 32 := by simp
  have hr2 := r.r2.toNat_lt
  rw [hhigh, hlow, UInt32.toNat_add]
  have hcube : ((2 : Nat) ^ 32) ^ 3 = 2 ^ 96 := by decide
  rw [hcube] at h
  by_cases hc : r01 + p < p
  · rw [if_pos hc, UInt32.toNat_one]
    rw [hlt] at hc
    omega
  · rw [if_neg hc, UInt32.toNat_zero]
    rw [hlt] at hc
    omega

/-- The indices of the inner loop for word `k`. -/
def columnRange (numWords k : Nat) : List Nat :=
  if k < numWords then List.range' 0 (k + 1) else List.range' (k + 1 - numWords) (2 * numWords - 1 - k)

/-- The inner loop for word `k`. -/
def multColumn (numWords : Nat) (left right : List UInt32) (k : Nat) (r : Acc) : Acc :=
  (columnRange numWords k).foldl (fun r i => muladd (left.getD i 0) (right.getD (k - i) 0) r) r

/-- The loops of `uECC_vli_mult` for the words `ks`, and the last word. -/
def vliMultLoop (numWords : Nat) (left right : List UInt32) : List Nat → Acc → List UInt32
  | [], r => [r.r0]
  | k :: ks, r =>
    let r := multColumn numWords left right k r
    r.r0 :: vliMultLoop numWords left right ks ⟨r.r1, r.r2, 0⟩

section Mult

variable {numWords k m : Nat} {left right : List UInt32} {r : Acc}

theorem foldl_muladd_nat {f g : Nat → UInt32} {is : List Nat}
    (h : r.nat + (is.map fun i => (f i).toNat * (g i).toNat).sum < (2 ^ 32) ^ 3) :
    (is.foldl (fun r i => muladd (f i) (g i) r) r).nat = r.nat + (is.map fun i => (f i).toNat * (g i).toNat).sum := by
  induction is generalizing r with
  | nil => rfl
  | cons i is ih =>
    rw [List.map_cons, List.sum_cons] at h ⊢
    have hfirst : (muladd (f i) (g i) r).nat = r.nat + (f i).toNat * (g i).toNat := muladd_nat (by omega)
    rw [List.foldl_cons, ih (by omega), hfirst]
    omega

theorem sum_columnRange (hk : k < 2 * numWords - 1) :
    ((columnRange numWords k).map fun i => (left.getD i 0).toNat * (right.getD (k - i) 0).toNat).sum
      = column numWords left right k := by
  have hrange : columnRange numWords k
      = List.range' (k + 1 - numWords) (min (k + 1) numWords - (k + 1 - numWords)) := by
    unfold columnRange
    split_ifs with h
    · rw [Nat.sub_eq_zero_of_le (by omega), Nat.min_eq_left (by omega), Nat.sub_zero]
    · rw [Nat.min_eq_right (by omega)]
      congr 1
      omega
  rw [hrange]
  rfl

theorem multColumn_nat (hk : k < 2 * numWords - 1) (hr : r.nat ≤ numWords * 2 ^ 32) (hn : numWords < 2 ^ 32) :
    (multColumn numWords left right k r).nat = r.nat + column numWords left right k ∧
      (multColumn numWords left right k r).nat ≤ numWords * 2 ^ 64 := by
  have hle := column_le numWords left right k
  have hbound : r.nat + column numWords left right k ≤ numWords * 2 ^ 64 := by
    have : (2 ^ 32 - 1) ^ 2 + 2 ^ 32 ≤ 2 ^ 64 := by decide
    nlinarith
  have hnat : (multColumn numWords left right k r).nat = r.nat + column numWords left right k := by
    unfold multColumn
    rw [foldl_muladd_nat, sum_columnRange hk]
    rw [sum_columnRange hk]
    refine hbound.trans_lt ?_
    have : ((2 : Nat) ^ 32) ^ 3 = 2 ^ 32 * 2 ^ 64 := by decide
    rw [this]
    exact Nat.mul_lt_mul_of_pos_right hn (by decide)
  exact ⟨hnat, hnat ▸ hbound⟩

theorem length_vliMultLoop (ks : List Nat) (r : Acc) :
    (vliMultLoop numWords left right ks r).length = ks.length + 1 := by
  induction ks generalizing r with
  | nil => rfl
  | cons k ks ih =>
    unfold vliMultLoop
    rw [List.length_cons, ih, List.length_cons]

/-- The words from `k` on, up to a multiple of the radix's power behind them. -/
theorem vliMultLoop_spec (hkm : k + m = 2 * numWords - 1) (hr : r.nat ≤ numWords * 2 ^ 32) (hn : numWords < 2 ^ 32) :
    ∃ c, value (vliMultLoop numWords left right (List.range' k m) r) + (2 ^ 32) ^ (m + 1) * c
      = r.nat + ∑ j ∈ Finset.range m, column numWords left right (k + j) * (2 ^ 32) ^ j := by
  induction m generalizing k r with
  | zero =>
    refine ⟨value [r.r1, r.r2], ?_⟩
    simp only [List.range'_zero, vliMultLoop, Acc.nat, value_cons, value_nil, Finset.range_zero, Finset.sum_empty]
    ring
  | succ m ih =>
    obtain ⟨hnat, hle⟩ := @multColumn_nat numWords k left right r (by omega) hr hn
    rw [List.range'_succ, vliMultLoop]
    generalize multColumn numWords left right k r = r' at hnat hle ⊢
    have hshift : r'.nat = r'.r0.toNat + 2 ^ 32 * (Acc.mk r'.r1 r'.r2 0).nat := by
      unfold Acc.nat
      simp only [value_cons, value_nil, UInt32.toNat_zero, Nat.mul_zero, Nat.add_zero]
    obtain ⟨c, hc⟩ := @ih (k + 1) ⟨r'.r1, r'.r2, 0⟩ (by omega) (by omega)
    refine ⟨c, ?_⟩
    rw [value_cons, Finset.sum_range_succ', Nat.add_zero, pow_zero, Nat.mul_one]
    have hrest : ∑ j ∈ Finset.range m, column numWords left right (k + (j + 1)) * (2 ^ 32) ^ (j + 1)
        = 2 ^ 32 * ∑ j ∈ Finset.range m, column numWords left right (k + 1 + j) * (2 ^ 32) ^ j := by
      rw [Finset.mul_sum]
      refine Finset.sum_congr rfl fun j _ => ?_
      rw [pow_succ, Nat.add_right_comm, Nat.add_assoc]
      ring
    rw [hrest]
    linear_combination 2 ^ 32 * hc + hnat - hshift

end Mult

/-- `uECC_vli_mult`. -/
def vliMult {n : Nat} (left right : Vli n) : Vli (2 * n - 1 + 1) :=
  ⟨vliMultLoop n left.toList right.toList (List.range (2 * n - 1)) {}, by rw [length_vliMultLoop, List.length_range]⟩

theorem vliMult_nat {n : Nat} (hpos : 0 < n) (hn : n < 2 ^ 32) (left right : Vli n) :
    (vliMult left right).nat = left.nat * right.nat := by
  obtain ⟨c, hc⟩ := @vliMultLoop_spec n 0 (2 * n - 1) left.toList right.toList {} (by omega) (by simp [Acc.nat]) hn
  have hempty : Acc.nat {} = 0 := rfl
  have hlen : 2 * n - 1 + 1 = 2 * n := by omega
  have hresult : (vliMult left right).nat + (2 ^ 32) ^ (2 * n - 1 + 1) * c = left.nat * right.nat := by
    unfold vliMult Vli.nat
    rw [← sum_column left.toList_length right.toList_length, ← List.range_eq_range'] at *
    simpa [hempty] using hc
  have hproduct : left.nat * right.nat < (2 ^ 32) ^ (2 * n - 1 + 1) := by
    rw [hlen, two_mul, pow_add]
    exact Nat.mul_lt_mul'' left.nat_lt right.nat_lt
  have hc0 : c = 0 := by
    by_contra hne
    have : (2 ^ 32) ^ (2 * n - 1 + 1) * 1 ≤ (2 ^ 32) ^ (2 * n - 1 + 1) * c :=
      Nat.mul_le_mul_left _ (Nat.one_le_iff_ne_zero.mpr hne)
    omega
  rwa [hc0, Nat.mul_zero, Nat.add_zero] at hresult

end TkeyFido2.Ecc
