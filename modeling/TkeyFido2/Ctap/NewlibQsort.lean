import TkeyFido2.Ctap.Crypto
import TkeyFido2.Lib.Segments

/-!
# qsort

`newlib/libc/search/qsort.c`, the sorting function that `build_filtered_credential_list` calls: the
algorithm of Bentley and McIlroy with a stack of its own.  A pointer into the array is the number of the
element that it points to, and a swap exchanges two elements.
-/

namespace TkeyFido2.Newlib

open Segments

/-! ## The code -/

section Code

variable {α : Type} (cmp : α → α → Int)

/-- `med3`. -/
def med3 (m : Cells α) (a b c : Nat) : Nat :=
  if cmp (m a) (m b) < 0 then
    if cmp (m b) (m c) < 0 then b else if cmp (m a) (m c) < 0 then c else a
  else if 0 < cmp (m b) (m c) then b else if cmp (m a) (m c) < 0 then a else c

/-- The inner loop of an insertion sort, with `pl` at `a + k`. -/
def insertDown (a : Nat) : Nat → Cells α → Cells α
  | 0, m => m
  | k + 1, m => if 0 < cmp (m (a + k)) (m (a + k + 1)) then insertDown a k (swap m (a + k + 1) (a + k)) else m

/-- An insertion sort of `n` elements from `a` on. -/
def insertionSort (a n : Nat) (m : Cells α) : Cells α :=
  (List.range' 1 (n - 1)).foldl (fun m k => insertDown cmp a k m) m

/-- The element that becomes the pivot. -/
def pivot (m : Cells α) (a n : Nat) : Nat :=
  let pm := a + n / 2
  if 7 < n then
    let pl := a
    let pn := a + (n - 1)
    if 40 < n then
      let d := n / 8
      med3 cmp m (med3 cmp m pl (pl + d) (pl + 2 * d)) (med3 cmp m (pm - d) pm (pm + d))
        (med3 cmp m (pn - 2 * d) (pn - d) pn)
    else med3 cmp m pl pm pn
  else pm

/-- The variables of the partitioning loop. -/
structure Partition (α : Type) where
  m : Cells α
  pa : Nat
  pb : Nat
  pc : Nat
  pd : Nat
  swapCnt : Bool

/-- Scan from left to right; the first argument bounds the number of elements that are left. -/
def scanLeft (a : Nat) : Nat → Partition α → Partition α
  | 0, s => s
  | k + 1, s =>
    if s.pb ≤ s.pc ∧ cmp (s.m s.pb) (s.m a) ≤ 0 then
      if cmp (s.m s.pb) (s.m a) = 0 then
        scanLeft a k { s with m := swap s.m s.pa s.pb, pa := s.pa + 1, pb := s.pb + 1, swapCnt := true }
      else scanLeft a k { s with pb := s.pb + 1 }
    else s

/-- Scan from right to left. -/
def scanRight (a : Nat) : Nat → Partition α → Partition α
  | 0, s => s
  | k + 1, s =>
    if s.pb ≤ s.pc ∧ 0 ≤ cmp (s.m s.pc) (s.m a) then
      if cmp (s.m s.pc) (s.m a) = 0 then
        scanRight a k { s with m := swap s.m s.pc s.pd, pc := s.pc - 1, pd := s.pd - 1, swapCnt := true }
      else scanRight a k { s with pc := s.pc - 1 }
    else s

/-- The elements between the two scans. -/
def Partition.unseen (s : Partition α) : Nat := s.pc + 1 - s.pb

/-- Both scans. -/
def scan (a : Nat) (s : Partition α) : Partition α :=
  let s := scanLeft cmp a s.unseen s
  scanRight cmp a s.unseen s

/-- The `for` loop of the partition. -/
def partitionLoop (a : Nat) : Nat → Partition α → Partition α
  | 0, s => s
  | k + 1, s =>
    let s := scan cmp a s
    if s.pc < s.pb then s
    else partitionLoop a k { s with m := swap s.m s.pb s.pc, swapCnt := true, pb := s.pb + 1, pc := s.pc - 1 }

/-- `vecswap` of `r` elements. -/
def vecswap (p q : Nat) : Nat → Cells α → Cells α
  | 0, m => m
  | r + 1, m => swap (vecswap p q r m) (p + r) (q + r)

/-- What one round of `loop` leaves: a sorted segment, or a part on its left and one on its right that have
to be sorted. -/
inductive Round (α : Type)
  | sorted (m : Cells α)
  | split (m : Cells α) (d r : Nat)

/-- A round of `loop`. -/
def round (a n : Nat) (m : Cells α) : Round α :=
  if n < 7 then .sorted (insertionSort cmp a n m)
  else
    let m := swap m a (pivot cmp m a n)
    let s := partitionLoop cmp a n
      { m, pa := a + 1, pb := a + 1, pc := a + (n - 1), pd := a + (n - 1), swapCnt := false }
    if s.swapCnt = false then .sorted (insertionSort cmp a n s.m)
    else
      let pn := a + n
      let r := min (s.pa - a) (s.pb - s.pa)
      let m := vecswap a (s.pb - r) r s.m
      let r := min (s.pd - s.pc) (pn - s.pd - 1)
      let m := vecswap s.pb (pn - r) r m
      .split m (s.pb - s.pa) (s.pd - s.pc)

/-- `PARAMETER_STACK_LEVELS`. -/
def parameterStackLevels : Nat := 8

/-- The parts of a split, by their size. -/
def largerPart (a n d r : Nat) : Segment := if d < r then (a + n - r, r) else (a, d)
def smallerPart (a n d r : Nat) : Segment := if d < r then (a, d) else (a + n - r, r)

/-- `qsort` from a round on, with the rounds that may follow and the calls of itself that may be nested.  The
first segment is the one at `a` of length `n`, the others are on `parameter_stack`.  Without rounds or calls
left there is no result. -/
def qsortLoop : Nat → Nat → List Segment → Cells α → Option (Cells α)
  | _, _, [], m => some m
  | 0, _, _ :: _, _ => none
  | rounds + 1, calls, (a, n) :: stack, m =>
    match round cmp a n m with
    | .sorted m => qsortLoop rounds calls stack m
    | .split m d r =>
      let larger := largerPart a n d r
      let smaller := smallerPart a n d r
      if 1 < smaller.2 then
        if stack.length < parameterStackLevels then qsortLoop rounds calls (smaller :: larger :: stack) m
        else
          match calls with
          | 0 => none
          | nested + 1 => do
            let m ← qsortLoop rounds nested [smaller] m
            if 1 < larger.2 then qsortLoop rounds calls (larger :: stack) m else qsortLoop rounds calls stack m
      else if 1 < larger.2 then qsortLoop rounds calls (larger :: stack) m
      else qsortLoop rounds calls stack m

/-- `qsort` of an array. -/
def qsort (calls : Nat) : List α → Option (List α)
  | [] => some []
  | x :: l =>
    let n := (x :: l).length
    (qsortLoop cmp n calls [(0, n)] ⟨fun i => (x :: l).getD i x⟩).map fun m => (List.range n).map m.get

end Code

/-! ## Comparison functions -/

/-- A comparison function as the C standard wants it. -/
structure Comparator (α : Type) where
  cmp : α → α → Int
  swap : ∀ x y, cmp x y < 0 ↔ 0 < cmp y x
  trans : ∀ x y z, cmp x y ≤ 0 → cmp y z ≤ 0 → cmp x z ≤ 0

namespace Comparator

variable {α : Type} (C : Comparator α)

/-- Not behind. -/
def le (x y : α) : Prop := C.cmp x y ≤ 0

theorem le_of_pos {x y : α} (h : 0 < C.cmp x y) : C.le y x := ((C.swap y x).mpr h).le

theorem le_of_nonneg {x y : α} (h : 0 ≤ C.cmp x y) : C.le y x := by
  by_contra hno
  have hpos : 0 < C.cmp y x := not_le.mp hno
  exact absurd ((C.swap x y).mpr hpos) (not_lt.mpr h)

end Comparator

/-! ## Insertion sort -/

section InsertionSort

variable {α : Type} {C : Comparator α} {m : Cells α} {a n k : Nat}

theorem insertDown_spec (h : SortedOn C.le a (a + k) m) :
    Rearranged a (a + k + 1) m (insertDown C.cmp a k m) ∧
      SortedOn C.le a (a + k + 1) (insertDown C.cmp a k m) := by
  induction k generalizing m with
  | zero => exact ⟨.refl m, fun i j _ _ _ => by omega⟩
  | succ k ih =>
    have hone {m : Cells α} : SortedOn C.le (a + k + 1) (a + (k + 1) + 1) m := fun i j _ _ _ => by omega
    unfold insertDown
    by_cases hpos : 0 < C.cmp (m (a + k)) (m (a + k + 1))
    · rw [if_pos hpos]
      let m₁ := Segments.swap m (a + k + 1) (a + k)
      have hlower : ∀ i, a ≤ i → i < a + k → m₁ i = m i := fun i _ hi => swap_of_ne (by omega) (by omega)
      have hfront : SortedOn C.le a (a + k) m :=
        fun i j hi hij hj => h i j hi hij (by omega)
      obtain ⟨hmoved, hsorted⟩ := ih (hfront.congr hlower)
      have hfirst : Rearranged a (a + (k + 1) + 1) m m₁ := .swap (by omega) (by omega)
      refine ⟨hfirst.trans (hmoved.mono le_rfl (by omega)), ?_⟩
      -- the larger element stays at the end
      have hlast : insertDown C.cmp a k m₁ (a + k + 1) = m (a + k) :=
        (hmoved.outside (.inr le_rfl)).trans swap_left
      have hbelow : ∀ i, a ≤ i → i < a + k + 1 → C.le (m₁ i) (m (a + k)) := by
        intro i hi hik
        by_cases heq : i = a + k
        · have hnew : m₁ i = m (a + k + 1) := by
            rw [heq]
            exact swap_right
          rw [hnew]
          exact C.le_of_pos hpos
        · rw [hlower i hi (by omega)]
          exact h i (a + k) hi (by omega) (by omega)
      refine hsorted.append (a + k + 1) hone fun i j hi hik hj hjk => ?_
      obtain rfl : j = a + k + 1 := by omega
      rw [hlast]
      exact hmoved.all (p := fun x => C.le x (m (a + k))) hbelow i hi hik
    · rw [if_neg hpos]
      have hlast : C.le (m (a + k)) (m (a + k + 1)) := not_lt.mp hpos
      refine ⟨.refl m, h.append (a + (k + 1)) hone fun i j hi hik hj hjk => ?_⟩
      obtain rfl : j = a + k + 1 := by omega
      by_cases heq : i = a + k
      · rw [heq]
        exact hlast
      · exact C.trans _ _ _ (h i (a + k) hi (by omega) (by omega)) hlast

theorem foldl_insertDown_spec (j : Nat) (h : SortedOn C.le a (a + k) m) :
    Rearranged a (a + k + j) m ((List.range' k j).foldl (fun m k => insertDown C.cmp a k m) m) ∧
      SortedOn C.le a (a + k + j) ((List.range' k j).foldl (fun m k => insertDown C.cmp a k m) m) := by
  induction j generalizing k m with
  | zero => exact ⟨.refl m, h⟩
  | succ j ih =>
    rw [List.range'_succ, List.foldl_cons]
    obtain ⟨hmoved, hsorted⟩ := insertDown_spec h
    obtain ⟨hmoved', hsorted'⟩ := ih (k := k + 1) hsorted
    have hlen : a + (k + 1) + j = a + k + (j + 1) := by omega
    rw [hlen] at hmoved' hsorted'
    exact ⟨(hmoved.mono le_rfl (by omega)).trans hmoved', hsorted'⟩

theorem insertionSort_spec :
    Rearranged a (a + n) m (insertionSort C.cmp a n m) ∧
      SortedOn C.le a (a + n) (insertionSort C.cmp a n m) := by
  unfold insertionSort
  rcases Nat.eq_zero_or_pos n with rfl | hpos
  · exact ⟨.refl m, fun i j _ _ _ => by omega⟩
  · have hone : SortedOn C.le a (a + 1) m := fun i j _ _ _ => by omega
    have hspec := foldl_insertDown_spec (n - 1) hone
    have hlen : a + 1 + (n - 1) = a + n := by omega
    rwa [hlen] at hspec

end InsertionSort

/-! ## The partition -/

section Pivot

variable {α : Type} {cmp : α → α → Int} {m : Cells α} {a n : Nat}

theorem med3_cases (b c : Nat) : med3 cmp m a b c = a ∨ med3 cmp m a b c = b ∨ med3 cmp m a b c = c := by
  unfold med3
  split_ifs <;> simp

theorem pivot_mem (hn : 7 ≤ n) : a ≤ pivot cmp m a n ∧ pivot cmp m a n < a + n := by
  have hmed {x y z : Nat} (hx : a ≤ x ∧ x < a + n) (hy : a ≤ y ∧ y < a + n) (hz : a ≤ z ∧ z < a + n) :
      a ≤ med3 cmp m x y z ∧ med3 cmp m x y z < a + n := by
    have hcases : med3 cmp m x y z = x ∨ med3 cmp m x y z = y ∨ med3 cmp m x y z = z := med3_cases y z
    rcases hcases with h | h | h <;> rw [h] <;> assumption
  unfold pivot
  dsimp only
  split_ifs with hseven hforty
  · exact hmed (hmed (by omega) (by omega) (by omega)) (hmed (by omega) (by omega) (by omega))
      (hmed (by omega) (by omega) (by omega))
  · exact hmed (by omega) (by omega) (by omega)
  · omega

end Pivot

/-- The four ranges around the elements that have not been seen: equal to the pivot `v`, before it, behind it,
and equal to it again. -/
structure Partition.Ranges {α : Type} (C : Comparator α) (a n : Nat) (m : Cells α) (v : α) (s : Partition α) :
    Prop where
  moved : Rearranged a (a + n) m s.m
  pivot : s.m a = v
  order : a < s.pa ∧ s.pa ≤ s.pb ∧ s.pb ≤ s.pc + 1 ∧ s.pc ≤ s.pd ∧ s.pd < a + n
  leftEqual : ∀ i, a < i → i < s.pa → C.cmp (s.m i) v = 0
  left : ∀ i, s.pa ≤ i → i < s.pb → C.cmp (s.m i) v < 0
  right : ∀ i, s.pc < i → i ≤ s.pd → 0 < C.cmp (s.m i) v
  rightEqual : ∀ i, s.pd < i → i < a + n → C.cmp (s.m i) v = 0

section Partition

variable {α : Type} {C : Comparator α} {a n k : Nat} {m : Cells α} {v : α} {s : Partition α}

theorem Partition.ranges_start {m₁ : Cells α} (hn : 7 ≤ n) (hmoved : Rearranged a (a + n) m m₁) :
    Partition.Ranges C a n m (m₁ a)
      { m := m₁, pa := a + 1, pb := a + 1, pc := a + (n - 1), pd := a + (n - 1), swapCnt := false } := by
  constructor
  case moved => exact hmoved
  case pivot => rfl
  case order =>
    dsimp only
    omega
  all_goals
    intro i hi hi'
    dsimp only at hi hi'
    omega

/-- An element equal to the pivot goes to the left end. -/
theorem Partition.Ranges.equalLeft (h : s.Ranges C a n m v) (hle : s.pb ≤ s.pc) (heq : C.cmp (s.m s.pb) v = 0) :
    Partition.Ranges C a n m v
      { s with m := swap s.m s.pa s.pb, pa := s.pa + 1, pb := s.pb + 1, swapCnt := true } := by
  obtain ⟨hmoved, hpivot, ⟨h₁, h₂, h₃, h₄, h₅⟩, hleftEqual, hleft, hright, hrightEqual⟩ := h
  refine ⟨hmoved.trans (.swap (by omega) (by omega)), ?_, ?_, ?_, ?_, ?_, ?_⟩
  all_goals
    dsimp only
    grind [swap_left, swap_right, swap_of_ne]

/-- An element before the pivot stays. -/
theorem Partition.Ranges.before (h : s.Ranges C a n m v) (hle : s.pb ≤ s.pc) (hlt : C.cmp (s.m s.pb) v < 0) :
    Partition.Ranges C a n m v { s with pb := s.pb + 1 } := by
  obtain ⟨hmoved, hpivot, ⟨h₁, h₂, h₃, h₄, h₅⟩, hleftEqual, hleft, hright, hrightEqual⟩ := h
  refine ⟨hmoved, hpivot, ?_, hleftEqual, ?_, hright, hrightEqual⟩
  all_goals
    dsimp only
    grind

/-- An element equal to the pivot goes to the right end. -/
theorem Partition.Ranges.equalRight (h : s.Ranges C a n m v) (hle : s.pb ≤ s.pc)
    (heq : C.cmp (s.m s.pc) v = 0) : Partition.Ranges C a n m v
      { s with m := swap s.m s.pc s.pd, pc := s.pc - 1, pd := s.pd - 1, swapCnt := true } := by
  obtain ⟨hmoved, hpivot, ⟨h₁, h₂, h₃, h₄, h₅⟩, hleftEqual, hleft, hright, hrightEqual⟩ := h
  refine ⟨hmoved.trans (.swap (by omega) (by omega)), ?_, ?_, ?_, ?_, ?_, ?_⟩
  all_goals
    dsimp only
    grind [swap_left, swap_right, swap_of_ne]

/-- An element behind the pivot stays. -/
theorem Partition.Ranges.behind (h : s.Ranges C a n m v) (hle : s.pb ≤ s.pc) (hpos : 0 < C.cmp (s.m s.pc) v) :
    Partition.Ranges C a n m v { s with pc := s.pc - 1 } := by
  obtain ⟨hmoved, hpivot, ⟨h₁, h₂, h₃, h₄, h₅⟩, hleftEqual, hleft, hright, hrightEqual⟩ := h
  refine ⟨hmoved, hpivot, ?_, hleftEqual, hleft, ?_, hrightEqual⟩
  all_goals
    dsimp only
    grind

/-- The two elements at which the scans stopped change places. -/
theorem Partition.Ranges.exchange (h : s.Ranges C a n m v) (hlt : s.pb < s.pc) (hpos : 0 < C.cmp (s.m s.pb) v)
    (hneg : C.cmp (s.m s.pc) v < 0) : Partition.Ranges C a n m v
      { s with m := swap s.m s.pb s.pc, swapCnt := true, pb := s.pb + 1, pc := s.pc - 1 } := by
  obtain ⟨hmoved, hpivot, ⟨h₁, h₂, h₃, h₄, h₅⟩, hleftEqual, hleft, hright, hrightEqual⟩ := h
  refine ⟨hmoved.trans (.swap (by omega) (by omega)), ?_, ?_, ?_, ?_, ?_, ?_⟩
  all_goals
    dsimp only
    grind [swap_left, swap_right, swap_of_ne]

/-- The scan from the left has ended. -/
def Partition.LeftStopped (C : Comparator α) (v : α) (s : Partition α) : Prop :=
  s.pc < s.pb ∨ 0 < C.cmp (s.m s.pb) v

/-- The scan from the right has ended. -/
def Partition.RightStopped (C : Comparator α) (v : α) (s : Partition α) : Prop :=
  s.pc < s.pb ∨ C.cmp (s.m s.pc) v < 0

theorem scanLeft_spec (h : s.Ranges C a n m v) (hk : s.unseen ≤ k) :
    (scanLeft C.cmp a k s).Ranges C a n m v ∧ (scanLeft C.cmp a k s).LeftStopped C v ∧
      (scanLeft C.cmp a k s).unseen ≤ s.unseen := by
  induction k generalizing s with
  | zero =>
    unfold Partition.unseen at hk
    exact ⟨h, .inl (show s.pc < s.pb by omega), le_rfl⟩
  | succ k ih =>
    unfold scanLeft
    rw [h.pivot]
    by_cases hstep : s.pb ≤ s.pc ∧ C.cmp (s.m s.pb) v ≤ 0
    · obtain ⟨hle, hcmp⟩ := hstep
      rw [if_pos ⟨hle, hcmp⟩]
      unfold Partition.unseen at hk
      by_cases heq : C.cmp (s.m s.pb) v = 0
      · rw [if_pos heq]
        obtain ⟨hranges, hstop, hunseen⟩ := ih (h.equalLeft hle heq)
          (by unfold Partition.unseen; dsimp only; omega)
        exact ⟨hranges, hstop, hunseen.trans (by unfold Partition.unseen; dsimp only; omega)⟩
      · rw [if_neg heq]
        obtain ⟨hranges, hstop, hunseen⟩ := ih (h.before hle (by omega))
          (by unfold Partition.unseen; dsimp only; omega)
        exact ⟨hranges, hstop, hunseen.trans (by unfold Partition.unseen; dsimp only; omega)⟩
    · rw [if_neg hstep]
      refine ⟨h, ?_, le_rfl⟩
      unfold Partition.LeftStopped
      omega

theorem scanRight_spec (h : s.Ranges C a n m v) (hstop : s.LeftStopped C v) (hk : s.unseen ≤ k) :
    (scanRight C.cmp a k s).Ranges C a n m v ∧ (scanRight C.cmp a k s).LeftStopped C v ∧
      (scanRight C.cmp a k s).RightStopped C v ∧ (scanRight C.cmp a k s).unseen ≤ s.unseen := by
  induction k generalizing s with
  | zero =>
    unfold Partition.unseen at hk
    exact ⟨h, hstop, .inl (show s.pc < s.pb by omega), le_rfl⟩
  | succ k ih =>
    unfold scanRight
    rw [h.pivot]
    by_cases hstep : s.pb ≤ s.pc ∧ 0 ≤ C.cmp (s.m s.pc) v
    · obtain ⟨hle, hcmp⟩ := hstep
      rw [if_pos ⟨hle, hcmp⟩]
      unfold Partition.unseen at hk
      have hstopped : 0 < C.cmp (s.m s.pb) v := hstop.resolve_left (by omega)
      obtain ⟨h₁, h₂, -, h₄, -⟩ := h.order
      by_cases heq : C.cmp (s.m s.pc) v = 0
      · rw [if_pos heq]
        have hne : s.pb ≠ s.pc := by
          intro hsame
          rw [hsame] at hstopped
          omega
        have hkept : swap s.m s.pc s.pd s.pb = s.m s.pb := swap_of_ne (by omega) (by omega)
        obtain ⟨hranges, hleft, hright, hunseen⟩ := ih (h.equalRight hle heq)
          (.inr (by rw [hkept]; exact hstopped)) (by unfold Partition.unseen; dsimp only; omega)
        exact ⟨hranges, hleft, hright, hunseen.trans (by unfold Partition.unseen; dsimp only; omega)⟩
      · rw [if_neg heq]
        obtain ⟨hranges, hleft, hright, hunseen⟩ := ih (h.behind hle (by omega)) (.inr hstopped)
          (by unfold Partition.unseen; dsimp only; omega)
        exact ⟨hranges, hleft, hright, hunseen.trans (by unfold Partition.unseen; dsimp only; omega)⟩
    · rw [if_neg hstep]
      refine ⟨h, hstop, ?_, le_rfl⟩
      unfold Partition.RightStopped
      omega

theorem partitionLoop_spec (h : s.Ranges C a n m v) (hk : s.unseen < k) :
    (partitionLoop C.cmp a k s).Ranges C a n m v ∧
      (partitionLoop C.cmp a k s).pb = (partitionLoop C.cmp a k s).pc + 1 := by
  induction k generalizing s with
  | zero => omega
  | succ k ih =>
    unfold partitionLoop
    dsimp only
    obtain ⟨hleft, hstop, hunseen⟩ := scanLeft_spec h le_rfl
    obtain ⟨hscan, hstop', hstop'', hunseen'⟩ := scanRight_spec hleft hstop le_rfl
    change (scan C.cmp a s).Ranges C a n m v at hscan
    change (scan C.cmp a s).LeftStopped C v at hstop'
    change (scan C.cmp a s).RightStopped C v at hstop''
    change (scan C.cmp a s).unseen ≤ _ at hunseen'
    generalize scan C.cmp a s = t at *
    by_cases hend : t.pc < t.pb
    · rw [if_pos hend]
      have := hscan.order.2.2.1
      exact ⟨hscan, by omega⟩
    · rw [if_neg hend]
      have hpos : 0 < C.cmp (t.m t.pb) v := hstop'.resolve_left hend
      have hneg : C.cmp (t.m t.pc) v < 0 := hstop''.resolve_left hend
      have hne : t.pb ≠ t.pc := by
        intro hsame
        rw [hsame] at hpos
        omega
      refine ih (hscan.exchange (by omega) hpos hneg) ?_
      unfold Partition.unseen at *
      dsimp only
      omega

end Partition

/-! ## The vector swaps -/

section Vecswap

variable {α : Type} {m : Cells α} {p q r x y z : Nat}

theorem vecswap_apply (hdisjoint : p + r ≤ q) (i : Nat) : vecswap p q r m i =
    if p ≤ i ∧ i < p + r then m (q + (i - p)) else if q ≤ i ∧ i < q + r then m (p + (i - q)) else m i := by
  induction r generalizing i with
  | zero => rw [if_neg (by omega), if_neg (by omega)]; rfl
  | succ r ih =>
    have hbelow : p + r ≤ q := by omega
    unfold vecswap
    by_cases hp : i = p + r
    · rw [hp, swap_left, ih hbelow, if_neg (by omega), if_neg (by omega), if_pos (by omega)]
      congr 1
      omega
    by_cases hq : i = q + r
    · rw [hq, swap_right, ih hbelow, if_neg (by omega), if_neg (by omega), if_neg (by omega), if_pos (by omega)]
      congr 1
      omega
    rw [swap_of_ne hp hq, ih hbelow]
    have hp' : (p ≤ i ∧ i < p + r) ↔ (p ≤ i ∧ i < p + (r + 1)) := by omega
    have hq' : (q ≤ i ∧ i < q + r) ↔ (q ≤ i ∧ i < q + (r + 1)) := by omega
    simp only [hp', hq']

theorem vecswap_rearranged {lo hi : Nat} (hp : lo ≤ p ∧ p + r ≤ hi) (hq : lo ≤ q ∧ q + r ≤ hi) :
    Rearranged lo hi m (vecswap p q r m) := by
  induction r with
  | zero => exact .refl m
  | succ r ih => exact (ih (by omega) (by omega)).trans (.swap (by omega) (by omega))

/-- Two blocks change places, up to their order within. -/
theorem vecswap_blocks {X Y : α → Prop} (hxy : x ≤ y) (hyz : y ≤ z) (hX : ∀ i, x ≤ i → i < y → X (m i))
    (hY : ∀ i, y ≤ i → i < z → Y (m i)) (hr : r = min (y - x) (z - y)) :
    (∀ i, x ≤ i → i < x + (z - y) → Y (vecswap x (z - r) r m i)) ∧
      ∀ i, x + (z - y) ≤ i → i < z → X (vecswap x (z - r) r m i) := by
  have happly := vecswap_apply (m := m) (p := x) (q := z - r) (r := r) (by omega)
  constructor
  · intro i hi hi'
    rw [happly]
    by_cases hfirst : i < x + r
    · rw [if_pos ⟨hi, hfirst⟩]
      exact hY _ (by omega) (by omega)
    · rw [if_neg (by omega), if_neg (by omega)]
      exact hY i (by omega) (by omega)
  · intro i hi hi'
    rw [happly, if_neg (by omega)]
    by_cases hlast : z - r ≤ i
    · rw [if_pos (by omega)]
      exact hX _ (by omega) (by omega)
    · rw [if_neg (by omega)]
      exact hX i (by omega) (by omega)

end Vecswap

/-! ## A round -/

section Round

variable {α : Type} {C : Comparator α} {a n : Nat} {m : Cells α}

theorem Comparator.cmp_self (x : α) : C.cmp x x = 0 := by
  have := C.swap x x
  omega

/-- What a round leaves. -/
inductive RoundOk (C : Comparator α) (a n : Nat) (m : Cells α) : Round α → Prop
  | sorted {m' : Cells α} (hmoved : Rearranged a (a + n) m m') (hsorted : SortedOn C.le a (a + n) m') :
      RoundOk C a n m (.sorted m')
  | split {m' : Cells α} {d r : Nat} (v : α) (hmoved : Rearranged a (a + n) m m') (hsize : d + r < n)
      (hleft : ∀ i, a ≤ i → i < a + d → C.cmp (m' i) v < 0)
      (hmiddle : ∀ i, a + d ≤ i → i < a + n - r → C.cmp (m' i) v = 0)
      (hright : ∀ i, a + n - r ≤ i → i < a + n → 0 < C.cmp (m' i) v) : RoundOk C a n m (.split m' d r)

theorem round_spec : RoundOk C a n m (round C.cmp a n m) := by
  unfold round
  by_cases hn : n < 7
  · rw [if_pos hn]
    exact .sorted insertionSort_spec.1 insertionSort_spec.2
  rw [if_neg hn]
  dsimp only
  let m₁ := swap m a (pivot C.cmp m a n)
  have hm₁ : Rearranged a (a + n) m m₁ := .swap (by omega) (pivot_mem (by omega))
  let s₀ : Partition α :=
    { m := m₁, pa := a + 1, pb := a + 1, pc := a + (n - 1), pd := a + (n - 1), swapCnt := false }
  have hs₀ : s₀.Ranges C a n m (m₁ a) := Partition.ranges_start (by omega) hm₁
  obtain ⟨hs, hmet⟩ := partitionLoop_spec hs₀ (show a + (n - 1) + 1 - (a + 1) < n by omega)
  change RoundOk C a n m (if (partitionLoop C.cmp a n s₀).swapCnt = false then _ else _)
  generalize partitionLoop C.cmp a n s₀ = s at hs hmet ⊢
  split
  · have hsort := insertionSort_spec (C := C) (m := s.m) (a := a) (n := n)
    exact .sorted (hs.moved.trans hsort.1) hsort.2
  obtain ⟨hmoved, hpivot, ⟨h₁, h₂, h₃, h₄, h₅⟩, hleftEqual, hleft, hright, hrightEqual⟩ := hs
  have hequal : ∀ i, a ≤ i → i < s.pa → C.cmp (s.m i) (m₁ a) = 0 := by
    intro i hi hi'
    rcases Nat.eq_or_lt_of_le hi with rfl | hlt
    · rw [hpivot]
      exact C.cmp_self _
    · exact hleftEqual i hlt hi'
  let r := min (s.pa - a) (s.pb - s.pa)
  let r' := min (s.pd - s.pc) (a + n - s.pd - 1)
  let m₂ := vecswap a (s.pb - r) r s.m
  have hm₂ := vecswap_blocks (X := fun x => C.cmp x (m₁ a) = 0) (Y := fun x => C.cmp x (m₁ a) < 0) h₁.le h₂
    hequal hleft (r := r) rfl
  have hsame : ∀ i, s.pb ≤ i → m₂ i = s.m i := by
    intro i hi
    rw [vecswap_apply (by omega), if_neg (by omega), if_neg (by omega)]
  have hm₃ := vecswap_blocks (m := m₂) (X := fun x => 0 < C.cmp x (m₁ a)) (Y := fun x => C.cmp x (m₁ a) = 0)
    (x := s.pb) (y := s.pd + 1) (z := a + n) (r := r') (by omega) (by omega)
    (fun i hi hi' => by rw [hsame i hi]; exact hright i (by omega) (by omega))
    (fun i hi hi' => by rw [hsame i (by omega)]; exact hrightEqual i (by omega) hi') (by omega)
  have hkept : ∀ i, i < s.pb → vecswap s.pb (a + n - r') r' m₂ i = m₂ i := by
    intro i hi
    rw [vecswap_apply (by omega), if_neg (by omega), if_neg (by omega)]
  refine .split (m₁ a) ((hmoved.trans (vecswap_rearranged (by omega) (by omega))).trans
    (vecswap_rearranged (by omega) (by omega))) (by omega) (fun i hi hi' => ?_) (fun i hi hi' => ?_)
    fun i hi hi' => ?_
  · rw [hkept i (by omega)]
    exact hm₂.1 i hi hi'
  · by_cases hpb : i < s.pb
    · rw [hkept i hpb]
      exact hm₂.2 i hi hpb
    · exact hm₃.1 i (by omega) (by omega)
  · exact hm₃.2 i (by omega) hi'

end Round

/-! ## All rounds -/

section Loop

variable {α : Type} {C : Comparator α} {a n d r calls rounds : Nat} {m m₁ m₂ m₃ m' : Cells α} {v : α}
  {stack : List Segment}

/-- What is before, at and behind a pivot is sorted if the two outer parts are. -/
theorem sortedOn_of_parts (hsize : d + r < n) (hleft : ∀ i, a ≤ i → i < a + d → C.cmp (m i) v < 0)
    (hmiddle : ∀ i, a + d ≤ i → i < a + n - r → C.cmp (m i) v = 0)
    (hright : ∀ i, a + n - r ≤ i → i < a + n → 0 < C.cmp (m i) v) (hfirst : SortedOn C.le a (a + d) m)
    (hlast : SortedOn C.le (a + n - r) (a + n) m) : SortedOn C.le a (a + n) m := by
  have hupto : ∀ i, a ≤ i → i < a + n - r → C.le (m i) v := by
    intro i hi hi'
    by_cases hd : i < a + d
    · exact (hleft i hi hd).le
    · exact (hmiddle i (by omega) hi').le
  have hfrom : ∀ i, a + d ≤ i → i < a + n → C.le v (m i) := by
    intro i hi hi'
    refine C.le_of_nonneg ?_
    by_cases hr : i < a + n - r
    · exact (hmiddle i hi hr).ge
    · exact (hright i (by omega) hi').le
  have hcross : ∀ i j, a ≤ i → i < a + n - r → a + d ≤ j → j < a + n → C.le (m i) (m j) :=
    fun i j hi hi' hj hj' => C.trans _ _ _ (hupto i hi hi') (hfrom j hj hj')
  refine SortedOn.append (a + n - r) (SortedOn.append (a + d) hfirst ?_ ?_) hlast ?_
  · exact fun i j hi hij hj => hcross i j (by omega) (by omega) (by omega) (by omega)
  · exact fun i j hi hi' hj hj' => hcross i j hi (by omega) hj (by omega)
  · exact fun i j hi hi' hj hj' => hcross i j hi hi' (by omega) hj'

/-- The two parts of a split may be sorted in either order. -/
theorem sortsAll_of_split (h : RoundOk C a n m (.split m₁ d r)) {first second : Segment}
    (hparts : first = (a, d) ∧ second = (a + n - r, r) ∨ first = (a + n - r, r) ∧ second = (a, d))
    (hrest : SortsAll C.le (first :: second :: stack) m₁ m') : SortsAll C.le ((a, n) :: stack) m m' := by
  cases h with
  | split v hmoved hsize hleft hmiddle hright =>
    have hend : a + n - r + r = a + n := by omega
    rcases hparts with ⟨rfl, rfl⟩ | ⟨rfl, rfl⟩
    · obtain ⟨m₂, hmoved₂, hsorted₂, m₃, hmoved₃, hsorted₃, hstack⟩ := hrest
      rw [hend] at hmoved₃ hsorted₃
      have hkept₂ : ∀ i, a + d ≤ i → m₂ i = m₁ i := fun i hi => hmoved₂.outside (.inr hi)
      have hkept₃ : ∀ i, i < a + n - r → m₃ i = m₂ i := fun i hi => hmoved₃.outside (.inl hi)
      refine ⟨m₃, (hmoved.trans (hmoved₂.mono le_rfl (by omega))).trans (hmoved₃.mono (by omega) le_rfl), ?_,
        hstack⟩
      refine sortedOn_of_parts hsize (v := v) (fun i hi hi' => ?_) (fun i hi hi' => ?_) ?_ ?_ hsorted₃
      · rw [hkept₃ i (by omega)]
        exact hmoved₂.all (p := fun x => C.cmp x v < 0) hleft i hi hi'
      · rw [hkept₃ i hi', hkept₂ i hi]
        exact hmiddle i hi hi'
      · refine hmoved₃.all (p := fun x => 0 < C.cmp x v) fun i hi hi' => ?_
        rw [hkept₂ i (by omega)]
        exact hright i hi hi'
      · exact hsorted₂.congr fun i hi hi' => hkept₃ i (by omega)
    · obtain ⟨m₂, hmoved₂, hsorted₂, m₃, hmoved₃, hsorted₃, hstack⟩ := hrest
      rw [hend] at hmoved₂ hsorted₂
      have hkept₂ : ∀ i, i < a + n - r → m₂ i = m₁ i := fun i hi => hmoved₂.outside (.inl hi)
      have hkept₃ : ∀ i, a + d ≤ i → m₃ i = m₂ i := fun i hi => hmoved₃.outside (.inr hi)
      refine ⟨m₃, (hmoved.trans (hmoved₂.mono (by omega) le_rfl)).trans (hmoved₃.mono le_rfl (by omega)), ?_,
        hstack⟩
      refine sortedOn_of_parts hsize (v := v) ?_ (fun i hi hi' => ?_) (fun i hi hi' => ?_) hsorted₃ ?_
      · refine hmoved₃.all (p := fun x => C.cmp x v < 0) fun i hi hi' => ?_
        rw [hkept₂ i (by omega)]
        exact hleft i hi hi'
      · rw [hkept₃ i hi, hkept₂ i hi']
        exact hmiddle i hi hi'
      · rw [hkept₃ i (by omega)]
        exact hmoved₂.all (p := fun x => 0 < C.cmp x v) hright i hi hi'
      · exact hsorted₂.congr fun i hi hi' => hkept₃ i (by omega)

theorem parts_cases (a n d r : Nat) :
    (smallerPart a n d r = (a, d) ∧ largerPart a n d r = (a + n - r, r) ∨
      smallerPart a n d r = (a + n - r, r) ∧ largerPart a n d r = (a, d)) ∧
    (smallerPart a n d r).2 ≤ (largerPart a n d r).2 ∧
      (smallerPart a n d r).2 + (largerPart a n d r).2 = d + r := by
  unfold smallerPart largerPart
  by_cases h : d < r
  · simp only [if_pos h]
    exact ⟨.inl ⟨trivial, trivial⟩, h.le, trivial⟩
  · simp only [if_neg h]
    exact ⟨.inr ⟨trivial, trivial⟩, Nat.not_lt.mp h, Nat.add_comm ..⟩

/-- The rounds that segments may need. -/
def cost : List Segment → Nat
  | [] => 0
  | (_, n) :: rest => max n 1 + cost rest

/-- A segment is at most half as long as the one below it on the stack, so that `calls` nested calls are
enough. -/
def Fits (calls : Nat) : List Segment → Prop
  | [] => True
  | (_, n) :: rest => n * 2 ^ rest.length < 2 ^ (9 * (calls + 1)) ∧ Fits calls rest

@[simp] theorem cost_nil : cost [] = 0 := rfl

@[simp] theorem cost_cons : cost ((a, n) :: stack) = max n 1 + cost stack := rfl

/-- The loop ends, within the stack and the calls that it has, and sorts all segments. -/
theorem qsortLoop_spec (calls : Nat) (segments : List Segment) (m : Cells α) (hrounds : cost segments ≤ rounds)
    (hfits : Fits calls segments) (hlen : segments.length ≤ parameterStackLevels + 1) :
    ∃ m', qsortLoop C.cmp rounds calls segments m = some m' ∧ SortsAll C.le segments m m' := by
  induction rounds generalizing calls segments m with
  | zero =>
    cases segments with
    | nil => exact ⟨m, by unfold qsortLoop; rfl, rfl⟩
    | cons s stack =>
      rw [cost_cons] at hrounds
      omega
  | succ rounds ih =>
    cases segments with
    | nil => exact ⟨m, by unfold qsortLoop; rfl, rfl⟩
    | cons s stack =>
      obtain ⟨a, n⟩ := s
      rw [cost_cons] at hrounds
      obtain ⟨hhere, hbelow⟩ := hfits
      have hlen' : stack.length ≤ parameterStackLevels := Nat.le_of_succ_le_succ hlen
      have hround := round_spec (C := C) (a := a) (n := n) (m := m)
      unfold qsortLoop
      cases hr : round C.cmp a n m with
      | sorted m₁ =>
        rw [hr] at hround
        cases hround with
        | sorted hmoved hsorted =>
          obtain ⟨m', hrun, hrest⟩ := ih calls stack m₁ (by omega) hbelow (by omega)
          exact ⟨m', hrun, m₁, hmoved, hsorted, hrest⟩
      | split m₁ d r =>
        rw [hr] at hround
        have hsize : d + r < n := by
          cases hround with
          | split v hmoved hsize => exact hsize
        dsimp only
        obtain ⟨hparts, hle, hsum⟩ := parts_cases a n d r
        generalize smallerPart a n d r = smaller at hparts hle hsum ⊢
        generalize largerPart a n d r = larger at hparts hle hsum ⊢
        obtain ⟨p, k⟩ := smaller
        obtain ⟨q, l⟩ := larger
        dsimp only at hle hsum ⊢
        have hsplit {m' : Cells α} (h : SortsAll C.le ((p, k) :: (q, l) :: stack) m₁ m') :
            SortsAll C.le ((a, n) :: stack) m m' := sortsAll_of_split hround hparts h
        have hlarger : Fits calls ((q, l) :: stack) :=
          ⟨lt_of_le_of_lt (Nat.mul_le_mul_right _ (by omega)) hhere, hbelow⟩
        by_cases hk : 1 < k
        · rw [if_pos hk]
          have hhalf : k * 2 ^ (stack.length + 1) ≤ n * 2 ^ stack.length := by
            rw [Nat.pow_succ, Nat.mul_comm (2 ^ stack.length) 2, ← Nat.mul_assoc]
            exact Nat.mul_le_mul_right _ (by omega)
          by_cases hroom : stack.length < parameterStackLevels
          · rw [if_pos hroom]
            obtain ⟨m', hrun, hrest⟩ := ih calls ((p, k) :: (q, l) :: stack) m₁
              (by rw [cost_cons, cost_cons]; omega) ⟨lt_of_le_of_lt hhalf hhere, hlarger⟩
              (Nat.succ_le_succ hroom)
            exact ⟨m', hrun, hsplit hrest⟩
          rw [if_neg hroom]
          have hfull : stack.length = 8 := Nat.le_antisymm hlen' (Nat.not_lt.mp hroom)
          rw [hfull] at hhere hhalf
          cases calls with
          | zero => omega
          | succ nested =>
            have hnested : k * 2 ^ 0 < 2 ^ (9 * (nested + 1)) := by
              have hpow : 2 ^ (9 * (nested + 1 + 1)) = 2 ^ (9 * (nested + 1)) * 2 ^ 9 := by
                rw [← Nat.pow_add]
                congr 1
              rw [hpow] at hhere
              have := lt_of_le_of_lt hhalf hhere
              rw [Nat.pow_zero, Nat.mul_one]
              exact Nat.lt_of_mul_lt_mul_right this
            obtain ⟨m₂, hrun, m₂', hmoved₂, hsorted₂, heq⟩ := ih nested [(p, k)] m₁
              (by rw [cost_cons, cost_nil]; omega) ⟨hnested, trivial⟩ (Nat.succ_le_succ (Nat.zero_le _))
            obtain rfl : m₂ = m₂' := heq
            obtain ⟨m', hrun', hrest⟩ := ih (nested + 1) ((q, l) :: stack) m₂
              (by rw [cost_cons]; omega) hlarger hlen
            refine ⟨m', ?_, hsplit ⟨m₂, hmoved₂, hsorted₂, hrest⟩⟩
            dsimp only
            rw [hrun]
            exact (if_pos (by omega)).trans hrun'
        · rw [if_neg hk]
          by_cases hl : 1 < l
          · rw [if_pos hl]
            obtain ⟨m', hrun, hrest⟩ := ih calls ((q, l) :: stack) m₁
              (by rw [cost_cons]; omega) hlarger hlen
            exact ⟨m', hrun, hsplit (sortsAll_of_le_one (by omega) hrest)⟩
          · rw [if_neg hl]
            obtain ⟨m', hrun, hrest⟩ := ih calls stack m₁ (by omega) hbelow (by omega)
            exact ⟨m', hrun, hsplit (sortsAll_of_le_one (by omega) (sortsAll_of_le_one (by omega) hrest))⟩

end Loop

theorem map_getD_range {α : Type} (l : List α) (x : α) :
    (List.range l.length).map (fun i => l.getD i x) = l := by
  refine List.ext_getElem (by simp) fun i h₁ h₂ => ?_
  simp [List.getD_eq_getElem?_getD, List.getElem?_eq_getElem h₂]

/-- **qsort sorts.**  For every comparison function and every array it returns, with at most one nested call of
itself for each nine doublings of the length, and leaves the elements in order. -/
theorem qsort_sorts {α : Type} (C : Comparator α) (l : List α) :
    ∃ l', qsort C.cmp (l.length.log2 / 9) l = some l' ∧ l'.Perm l ∧ l'.Pairwise C.le := by
  cases l with
  | nil => exact ⟨[], rfl, .refl _, .nil⟩
  | cons x l =>
    have hfits : Fits ((x :: l).length.log2 / 9) [(0, (x :: l).length)] := by
      refine ⟨?_, trivial⟩
      rw [List.length_nil, Nat.pow_zero, Nat.mul_one]
      exact lt_of_lt_of_le Nat.lt_log2_self (Nat.pow_le_pow_right (by decide) (by omega))
    have hcost : cost [(0, (x :: l).length)] ≤ (x :: l).length := by simp
    obtain ⟨m', hrun, m₁, hmoved, hsorted, rfl⟩ := qsortLoop_spec (C := C) _ _
      ⟨fun i => (x :: l).getD i x⟩ hcost hfits (Nat.succ_le_succ (Nat.zero_le _))
    rw [Nat.zero_add] at hmoved hsorted
    refine ⟨(List.range (x :: l).length).map m'.get, ?_, ?_, hsorted.pairwise⟩
    · exact congrArg (Option.map fun m : Cells α => (List.range (x :: l).length).map m.get) hrun
    · have hperm := hmoved.perm
      rwa [map_getD_range] at hperm

/-! ## Credentials -/

/-- `cred_cmp_func`. -/
def credCmpFunc (a b : CredentialDescriptor) : Int :=
  if a.id.count < b.id.count then 1 else if b.id.count < a.id.count then -1 else 0

/-- `cred_cmp_func` is a comparison function, with larger counts first. -/
def credComparator : Comparator CredentialDescriptor where
  cmp := credCmpFunc
  swap a b := by
    unfold credCmpFunc
    grind
  trans a b c := by
    unfold credCmpFunc
    grind

theorem credComparator_le (a b : CredentialDescriptor) : credComparator.le a b ↔ credCmpLe a b := by
  unfold Comparator.le credComparator credCmpFunc credCmpLe
  grind

/-- The `qsort` of the device. -/
def newlibQsort : Qsort where
  sort l := (qsort credCmpFunc (l.length.log2 / 9) l).getD l
  perm l := by
    obtain ⟨l', hsort, hperm, -⟩ := qsort_sorts credComparator l
    change qsort credCmpFunc _ l = some l' at hsort
    rw [hsort]
    exact hperm
  sorted l := by
    obtain ⟨l', hsort, -, hsorted⟩ := qsort_sorts credComparator l
    change qsort credCmpFunc _ l = some l' at hsort
    rw [hsort]
    exact hsorted.imp fun h => (credComparator_le _ _).mp h

end TkeyFido2.Newlib
