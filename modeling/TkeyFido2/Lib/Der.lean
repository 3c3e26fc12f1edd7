import Mathlib.Data.Nat.Digits.Lemmas
import Mathlib.Tactic.Common
import Mathlib.Tactic.Ring
import Mathlib.Tactic.Linarith

/-!
# Integers in DER

An element is a tag, a length and its content; content of fewer than 128 bytes has the length in a single
byte, and DER allows no other form for it.  The content of an INTEGER is a number in two's complement with no
more bytes than it needs.  Readers are strict: what they accept is the encoding of what they return, so that
a value has one encoding.
-/

namespace Der

/-! ## Big-endian numbers -/

/-- The unsigned number with these bytes. -/
def unsigned (l : List UInt8) : Nat := Nat.ofDigits 256 (l.map UInt8.toNat).reverse

@[simp] theorem unsigned_nil : unsigned [] = 0 := rfl

theorem unsigned_cons (b : UInt8) (l : List UInt8) :
    unsigned (b :: l) = unsigned l + 256 ^ l.length * b.toNat := by
  unfold unsigned
  rw [List.map_cons, Nat.ofDigits_reverse_cons, List.length_map]

private theorem digits_lt (l : List UInt8) : ∀ d ∈ (l.map UInt8.toNat).reverse, d < 256 := by
  intro d hd
  obtain ⟨b, -, rfl⟩ := List.mem_map.mp (List.mem_reverse.mp hd)
  exact b.toNat_lt

theorem unsigned_lt (l : List UInt8) : unsigned l < 256 ^ l.length := by
  have h := Nat.ofDigits_lt_base_pow_length (b := 256) (by omega) (digits_lt l)
  rwa [List.length_reverse, List.length_map] at h

theorem unsigned_injective {l l' : List UInt8} (hlen : l.length = l'.length)
    (h : unsigned l = unsigned l') : l = l' := by
  have hdigits := Nat.ofDigits_inj_of_len_eq (b := 256) (by omega)
    (by simp only [List.length_reverse, List.length_map, hlen]) (digits_lt l) (digits_lt l') h
  exact List.map_injective_iff.mpr (fun _ _ => UInt8.toNat_inj.mp) (List.reverse_injective hdigits)

/-- Leading zeroes do not count. -/
theorem unsigned_dropWhile (l : List UInt8) : unsigned (l.dropWhile (· = 0)) = unsigned l := by
  induction l with
  | nil => rfl
  | cons b l ih =>
    by_cases hb : b = 0
    · subst hb
      rw [List.dropWhile_cons_of_pos (by simp), ih, unsigned_cons]
      simp
    · rw [List.dropWhile_cons_of_neg (by simpa using hb)]

/-- The first byte in which two numbers of one length differ decides. -/
theorem unsigned_cons_lt {a b : UInt8} {as bs : List UInt8} (hlen : as.length = bs.length) :
    unsigned (a :: as) < unsigned (b :: bs) ↔ a < b ∨ a = b ∧ unsigned as < unsigned bs := by
  have has := unsigned_lt as
  have hbs := unsigned_lt bs
  rw [unsigned_cons, unsigned_cons, UInt8.lt_iff_toNat_lt, ← UInt8.toNat_inj]
  rw [hlen] at has ⊢
  rcases Nat.lt_trichotomy a.toNat b.toNat with hlt | heq | hgt
  · have hle : 256 ^ bs.length * (a.toNat + 1) ≤ 256 ^ bs.length * b.toNat := Nat.mul_le_mul_left _ hlt
    rw [Nat.mul_succ] at hle
    exact ⟨fun _ => .inl hlt, fun _ => by omega⟩
  · rw [heq, Nat.add_lt_add_iff_right]
    simp
  · have hle : 256 ^ bs.length * (b.toNat + 1) ≤ 256 ^ bs.length * a.toNat := Nat.mul_le_mul_left _ hgt
    rw [Nat.mul_succ] at hle
    exact ⟨fun h => absurd h (by omega), fun h => absurd h (by omega)⟩

theorem unsigned_eq_zero {l : List UInt8} : unsigned l = 0 ↔ ∀ b ∈ l, b = 0 := by
  induction l with
  | nil => simp
  | cons b l ih =>
    have hpos : 256 ^ l.length ≠ 0 := (Nat.pow_pos (by decide)).ne'
    rw [unsigned_cons, Nat.add_eq_zero_iff, ih, Nat.mul_eq_zero, or_iff_right hpos, List.forall_mem_cons,
      ← UInt8.toNat_inj, UInt8.toNat_zero, and_comm]

/-! ## The content of an INTEGER -/

/-- The number with this content. -/
def value (c : List UInt8) : Int :=
  if 0x80 ≤ c.headD 0 then (unsigned c : Int) - 256 ^ c.length else unsigned c

/-- Content without a superfluous byte: the first nine bits are not all equal. -/
def Minimal : List UInt8 → Prop
  | [] => False
  | [_] => True
  | a :: b :: _ => ¬ (a = 0 ∧ b < 0x80) ∧ ¬ (a = 0xff ∧ 0x80 ≤ b)

instance : DecidablePred Minimal
  | [] => inferInstanceAs (Decidable False)
  | [_] => inferInstanceAs (Decidable True)
  | _ :: _ :: _ => inferInstanceAs (Decidable (_ ∧ _))

theorem Minimal.exists_cons {c : List UInt8} (h : Minimal c) : ∃ a l, c = a :: l := by
  cases c with
  | nil => exact h.elim
  | cons a l => exact ⟨a, l, rfl⟩

theorem value_nonneg_iff {c : List UInt8} : 0 ≤ value c ↔ c.headD 0 < 0x80 := by
  unfold value
  have hlt : (unsigned c : Int) < 256 ^ c.length := by exact_mod_cast unsigned_lt c
  by_cases h : 0x80 ≤ c.headD 0
  · rw [if_pos h]
    constructor
    · intro h0
      omega
    · intro h0
      exact absurd h0 (UInt8.not_lt.mpr h)
  · rw [if_neg h]
    exact ⟨fun _ => UInt8.not_le.mp h, fun _ => Int.natCast_nonneg _⟩

/-- `n + 1` bytes hold numbers of `8 n + 7` bits and a sign. -/
theorem value_bounds (a : UInt8) (l : List UInt8) :
    -(128 * 256 ^ l.length : Int) ≤ value (a :: l) ∧ value (a :: l) < 128 * 256 ^ l.length := by
  have hl : (unsigned l : Int) < 256 ^ l.length := by exact_mod_cast unsigned_lt l
  have hl0 : (0 : Int) ≤ unsigned l := Int.natCast_nonneg _
  have ha : a.toNat < 256 := a.toNat_lt
  have hpow : (0 : Int) < 256 ^ l.length := by positivity
  have hu : (unsigned (a :: l) : Int) = unsigned l + 256 ^ l.length * a.toNat := by
    rw [unsigned_cons]
    push_cast
    ring
  unfold value
  rw [List.headD_cons, List.length_cons, pow_succ, hu]
  by_cases h : 0x80 ≤ a
  · have ha' : (128 : Int) ≤ a.toNat := by exact_mod_cast UInt8.le_iff_toNat_le.mp h
    rw [if_pos h]
    constructor
    · nlinarith
    · nlinarith
  · have ha' : (a.toNat : Int) ≤ 127 := by
      have := UInt8.lt_iff_toNat_lt.mp (UInt8.not_le.mp h)
      have h128 : (0x80 : UInt8).toNat = 128 := rfl
      omega
    rw [if_neg h]
    constructor
    · nlinarith
    · nlinarith

/-- A number with minimal content of two bytes or more does not fit into one byte less. -/
theorem Minimal.value_large {a b : UInt8} {l : List UInt8} (h : Minimal (a :: b :: l)) :
    128 * 256 ^ l.length ≤ value (a :: b :: l) ∨ value (a :: b :: l) < -(128 * 256 ^ l.length : Int) := by
  obtain ⟨h0, h1⟩ := h
  have hl : (unsigned l : Int) < 256 ^ l.length := by exact_mod_cast unsigned_lt l
  have hl0 : (0 : Int) ≤ unsigned l := Int.natCast_nonneg _
  have ha : a.toNat < 256 := a.toNat_lt
  have hb : b.toNat < 256 := b.toNat_lt
  have hb0 : (0 : Int) ≤ b.toNat := Int.natCast_nonneg _
  have hpow : (0 : Int) < 256 ^ l.length := by positivity
  have hu : (unsigned (a :: b :: l) : Int)
      = unsigned l + 256 ^ l.length * b.toNat + 256 ^ l.length * 256 * a.toNat := by
    rw [unsigned_cons, unsigned_cons, List.length_cons]
    push_cast
    ring
  unfold value
  rw [List.headD_cons, List.length_cons, List.length_cons, hu]
  have h128 : (0x80 : UInt8).toNat = 128 := rfl
  by_cases h : 0x80 ≤ a
  · right
    rw [if_pos h, pow_succ, pow_succ]
    by_cases hff : a = 0xff
    · have hb' : (b.toNat : Int) ≤ 127 := by
        have := UInt8.lt_iff_toNat_lt.mp (UInt8.not_le.mp fun hb => h1 ⟨hff, hb⟩)
        omega
      have haff : (a.toNat : Int) = 255 := by
        rw [hff]
        rfl
      rw [haff]
      nlinarith
    · have haff : (a.toNat : Int) ≤ 254 := by
        have : a.toNat ≠ 255 := fun h => hff (UInt8.toNat_inj.mp h)
        omega
      nlinarith
  · left
    rw [if_neg h]
    by_cases hzero : a = 0
    · have hb' : (128 : Int) ≤ b.toNat := by
        have := UInt8.le_iff_toNat_le.mp (UInt8.not_lt.mp fun hb => h0 ⟨hzero, hb⟩)
        omega
      have ha0 : (a.toNat : Int) = 0 := by
        rw [hzero]
        rfl
      rw [ha0]
      nlinarith
    · have ha0 : (1 : Int) ≤ a.toNat := by
        have : a.toNat ≠ 0 := fun h => hzero (UInt8.toNat_inj.mp h)
        omega
      nlinarith

/-- The number decides how many bytes minimal content has. -/
theorem Minimal.length_le {c d : List UInt8} (hc : Minimal c) (hd : Minimal d) (h : value c = value d) :
    d.length ≤ c.length := by
  obtain ⟨a, l, rfl⟩ := hc.exists_cons
  match d, hd with
  | [_], _ => simp
  | b :: b' :: m, hd =>
    by_contra hlen
    have hle : l.length ≤ m.length := by
      simp only [List.length_cons, not_le] at hlen
      omega
    have hpow : (256 : Int) ^ l.length ≤ 256 ^ m.length := pow_le_pow_right₀ (by norm_num) hle
    have hsmall := value_bounds a l
    rcases hd.value_large with hlarge | hlarge
    · omega
    · omega

/-- A number has one minimal content. -/
theorem Minimal.eq {c d : List UInt8} (hc : Minimal c) (hd : Minimal d) (h : value c = value d) : c = d := by
  have hlen : c.length = d.length := le_antisymm (hd.length_le hc h.symm) (hc.length_le hd h)
  have hsign : 0x80 ≤ c.headD 0 ↔ 0x80 ≤ d.headD 0 := by
    rw [← UInt8.not_lt, ← UInt8.not_lt, ← value_nonneg_iff, ← value_nonneg_iff, h]
  refine unsigned_injective hlen ?_
  unfold value at h
  rw [hlen] at h
  by_cases hneg : 0x80 ≤ d.headD 0
  · rw [if_pos hneg, if_pos (hsign.mpr hneg)] at h
    omega
  · rw [if_neg hneg, if_neg fun hc => hneg (hsign.mp hc)] at h
    omega

/-! ## Natural numbers -/

/-- The content for an unsigned number: no leading zeroes, but one where the first bit would be a sign. -/
def natContent (l : List UInt8) : List UInt8 :=
  match l.dropWhile (· = 0) with
  | [] => [0]
  | b :: m => if 0x80 ≤ b then 0 :: b :: m else b :: m

theorem value_natContent (l : List UInt8) : value (natContent l) = unsigned l := by
  rw [← unsigned_dropWhile l]
  unfold natContent
  cases l.dropWhile (· = 0) with
  | nil => rfl
  | cons b m =>
    dsimp only
    by_cases hb : 0x80 ≤ b
    · rw [if_pos hb, value, if_neg (by simp), unsigned_cons]
      simp
    · rw [if_neg hb, value, if_neg (by simpa using hb)]

theorem minimal_natContent (l : List UInt8) : Minimal (natContent l) := by
  unfold natContent
  cases hl : l.dropWhile (· = 0) with
  | nil => exact trivial
  | cons b m =>
    have hb0 : b ≠ 0 := by
      have h := List.head?_dropWhile_not (fun b : UInt8 => decide (b = 0)) l
      rw [hl] at h
      simpa using h
    dsimp only
    by_cases hb : 0x80 ≤ b
    · rw [if_pos hb]
      exact ⟨fun h => absurd h.2 (UInt8.not_lt.mpr hb), fun h => absurd h.1 (by simp)⟩
    · rw [if_neg hb]
      cases m with
      | nil => exact trivial
      | cons b' m => exact ⟨fun h => hb0 h.1, fun h => hb (by rw [h.1]; simp)⟩

/-! ## Elements -/

/-- An element with content of fewer than 128 bytes. -/
def element (tag : UInt8) (c : List UInt8) : List UInt8 := tag :: UInt8.ofNat c.length :: c

@[simp] theorem length_element (tag : UInt8) (c : List UInt8) : (element tag c).length = c.length + 2 := rfl

/-- Read an element with this tag: its content, and what follows. -/
def readElement (tag : UInt8) : List UInt8 → Option (List UInt8 × List UInt8)
  | t :: len :: l =>
    if t = tag ∧ len.toNat < 128 ∧ len.toNat ≤ l.length then some (l.take len.toNat, l.drop len.toNat)
    else none
  | _ => none

/-- Read an INTEGER. -/
def readInteger (l : List UInt8) : Option (Int × List UInt8) :=
  (readElement 0x02 l).bind fun x => if Minimal x.1 then some (value x.1, x.2) else none

/-- Read `SEQUENCE { INTEGER, INTEGER }` with nothing behind it. -/
def readPair (l : List UInt8) : Option (Int × Int) :=
  (readElement 0x30 l).bind fun seq =>
    (readInteger seq.1).bind fun a =>
      (readInteger a.2).bind fun b =>
        if b.2 = [] ∧ seq.2 = [] then some (a.1, b.1) else none

/-- `SEQUENCE { INTEGER, INTEGER }` with these contents. -/
def pair (a b : List UInt8) : List UInt8 := element 0x30 (element 0x02 a ++ element 0x02 b)

theorem readElement_element (tag : UInt8) {c : List UInt8} (hc : c.length < 128) (rest : List UInt8) :
    readElement tag (element tag c ++ rest) = some (c, rest) := by
  have hlen : (UInt8.ofNat c.length).toNat = c.length := by
    rw [UInt8.toNat_ofNat']
    omega
  have htake : (c ++ rest).take (UInt8.ofNat c.length).toNat = c := by rw [hlen, List.take_left]
  have hdrop : (c ++ rest).drop (UInt8.ofNat c.length).toNat = rest := by rw [hlen, List.drop_left]
  show (if tag = tag ∧ (UInt8.ofNat c.length).toNat < 128 ∧ (UInt8.ofNat c.length).toNat ≤ (c ++ rest).length
    then some ((c ++ rest).take _, (c ++ rest).drop _) else none) = _
  rw [if_pos ⟨rfl, by rwa [hlen], by simp [hlen]⟩, htake, hdrop]

theorem readElement_exact {tag : UInt8} {l c rest : List UInt8} (h : readElement tag l = some (c, rest)) :
    l = element tag c ++ rest ∧ c.length < 128 := by
  unfold readElement at h
  split at h
  · rename_i t len l
    split at h
    · rename_i hif
      obtain ⟨rfl, hlt, hle⟩ := hif
      obtain ⟨rfl, rfl⟩ := Prod.mk.inj (Option.some.inj h)
      have hlen : (l.take len.toNat).length = len.toNat := by
        rw [List.length_take]
        omega
      refine ⟨?_, by omega⟩
      show t :: len :: l = t :: UInt8.ofNat (l.take len.toNat).length :: (l.take len.toNat ++ l.drop len.toNat)
      rw [hlen, List.take_append_drop, UInt8.ofNat_toNat]
    · exact absurd h (by simp)
  · exact absurd h (by simp)

theorem readInteger_element {c : List UInt8} (hc : c.length < 128) (hmin : Minimal c) (rest : List UInt8) :
    readInteger (element 0x02 c ++ rest) = some (value c, rest) := by
  unfold readInteger
  rw [readElement_element 0x02 hc, Option.bind_some, if_pos hmin]

theorem readInteger_exact {l rest : List UInt8} {v : Int} (h : readInteger l = some (v, rest)) :
    ∃ c, Minimal c ∧ value c = v ∧ l = element 0x02 c ++ rest := by
  obtain ⟨⟨c, rest'⟩, hread, h⟩ := Option.bind_eq_some_iff.mp h
  by_cases hmin : Minimal c
  · rw [if_pos hmin] at h
    obtain ⟨rfl, rfl⟩ := Prod.mk.inj (Option.some.inj h)
    exact ⟨c, hmin, rfl, (readElement_exact hread).1⟩
  · rw [if_neg hmin] at h
    exact absurd h (by simp)

theorem readPair_pair {a b : List UInt8} (hlen : a.length + b.length < 124) (ha : Minimal a)
    (hb : Minimal b) : readPair (pair a b) = some (value a, value b) := by
  have hshort : (element 0x02 a ++ element 0x02 b).length < 128 := by
    simp only [List.length_append, length_element]
    omega
  have hseq := readElement_element 0x30 hshort []
  have hint := readInteger_element (show b.length < 128 by omega) hb []
  rw [List.append_nil] at hseq hint
  unfold readPair pair
  rw [hseq, Option.bind_some, readInteger_element (by omega) ha, Option.bind_some, hint, Option.bind_some,
    if_pos ⟨rfl, rfl⟩]

theorem readPair_exact {l : List UInt8} {x y : Int} (h : readPair l = some (x, y)) :
    ∃ a b, Minimal a ∧ Minimal b ∧ value a = x ∧ value b = y ∧ l = pair a b := by
  obtain ⟨⟨seq, rest⟩, hseq, h⟩ := Option.bind_eq_some_iff.mp h
  obtain ⟨⟨v, rest₁⟩, hv, h⟩ := Option.bind_eq_some_iff.mp h
  obtain ⟨⟨v', rest₂⟩, hv', h⟩ := Option.bind_eq_some_iff.mp h
  by_cases hrest : rest₂ = [] ∧ rest = []
  · rw [if_pos hrest] at h
    obtain ⟨rfl, rfl⟩ := Prod.mk.inj (Option.some.inj h)
    obtain ⟨rfl, rfl⟩ := hrest
    obtain ⟨a, ha, hva, hl⟩ := readInteger_exact hv
    obtain ⟨b, hb, hvb, hl'⟩ := readInteger_exact hv'
    refine ⟨a, b, ha, hb, hva, hvb, ?_⟩
    have hlseq : seq = element 0x02 a ++ element 0x02 b := by
      rw [show seq = element 0x02 a ++ rest₁ from hl, show rest₁ = element 0x02 b ++ [] from hl', List.append_nil]
    rw [(readElement_exact hseq).1, List.append_nil, hlseq, pair]
  · rw [if_neg hrest] at h
    exact absurd h (by simp)

/-- A pair of numbers has one encoding. -/
theorem readPair_injective {l l' : List UInt8} {x y : Int} (h : readPair l = some (x, y))
    (h' : readPair l' = some (x, y)) : l = l' := by
  obtain ⟨a, b, ha, hb, hx, hy, rfl⟩ := readPair_exact h
  obtain ⟨a', b', ha', hb', hx', hy', rfl⟩ := readPair_exact h'
  rw [ha.eq ha' (hx.trans hx'.symm), hb.eq hb' (hy.trans hy'.symm)]

end Der
