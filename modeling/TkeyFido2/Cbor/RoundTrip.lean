import TkeyFido2.Cbor.Encoder

/-!
# Reading back what the encoder wrote

A flat container is a list of items, each an integer or a byte string.  The encoder appends their
encodings and an iterator over the result moves through the same list.
-/

namespace TkeyFido2.Cbor

open Encoder

/-! ## Numbers -/

theorem beNat_concat (l : List UInt8) (b : UInt8) : beNat (l ++ [b]) = beNat l * 256 + b.toNat := by
  simp [beNat]

@[simp] theorem length_beBytes (v n : Nat) : (beBytes v n).length = n := by
  induction n generalizing v with
  | zero => rfl
  | succ n ih => simp [beBytes, ih]

theorem beNat_beBytes {v n : Nat} (h : v < 256 ^ n) : beNat (beBytes v n) = v := by
  induction n generalizing v with
  | zero => simpa [beBytes, beNat, eq_comm] using h
  | succ n ih =>
    have hv : v / 256 < 256 ^ n := Nat.div_lt_of_lt_mul (by rwa [Nat.pow_succ'] at h)
    rw [beBytes, beNat_concat, ih hv, UInt8.toNat_ofNat']
    omega

/-- Descriptor byte and argument of a number. -/
theorem numberBytes_cases {v : Nat} (hv : v < 2 ^ 64) (major : Nat) :
    (v < 24 ∧ numberBytes v major = [UInt8.ofNat (32 * major + v)]) ∨
    ∃ d args, 24 ≤ d ∧ d ≤ 27 ∧ numberBytes v major = UInt8.ofNat (32 * major + d) :: args ∧
      args.length = 2 ^ (d - 24) ∧ beNat args = v := by
  unfold numberBytes
  by_cases h₀ : v < 24
  · exact .inl ⟨h₀, if_pos h₀⟩
  refine .inr ?_
  rw [if_neg h₀]
  by_cases h₁ : v ≤ 0xff
  · exact ⟨24, _, by decide, by decide, if_pos h₁, by simp, beNat_beBytes (by omega)⟩
  rw [if_neg h₁]
  by_cases h₂ : v ≤ 0xffff
  · exact ⟨25, _, by decide, by decide, if_pos h₂, by simp, beNat_beBytes (by omega)⟩
  rw [if_neg h₂]
  by_cases h₃ : v ≤ 0xffffffff
  · exact ⟨26, _, by decide, by decide, if_pos h₃, by simp, beNat_beBytes (by omega)⟩
  · exact ⟨27, _, by decide, by decide, if_neg h₃, by simp, beNat_beBytes (by omega)⟩

theorem smallValue_header {major d : Nat} (hd : d < 32) :
    smallValue (UInt8.ofNat (32 * major + d)) = d := by
  rw [smallValue, UInt8.toNat_ofNat']
  omega

theorem majorType_header {major d : Nat} (hm : major < 8) (hd : d < 32) :
    majorType (UInt8.ofNat (32 * major + d)) = major := by
  rw [majorType, UInt8.toNat_ofNat']
  omega

theorem extractNumber_numberBytes {v major : Nat} (hv : v < 2 ^ 64) (tl : List UInt8) :
    extractNumber (numberBytes v major ++ tl) = .ok (v, tl) := by
  rcases numberBytes_cases hv major with ⟨h, hb⟩ | ⟨d, args, h₁, h₂, hb, hlen, harg⟩
  · rw [hb, List.singleton_append, extractNumber, smallValue_header (by omega), if_pos h]
  · rw [hb, List.cons_append, extractNumber, smallValue_header (by omega), if_neg (by omega),
      if_neg (by omega)]
    simp only [List.length_append, hlen]
    rw [if_neg (by omega), ← hlen, List.take_left, List.drop_left, harg]

/-! ## Items -/

/-- The read position is at a number of some major type, already looked at. -/
structure CborValue.Reads (it : CborValue) (major v : Nat) (tl : List UInt8) : Prop where
  rest : it.rest = numberBytes v major ++ tl
  type : it.type = typeOfMajor major
  value : it.extractInt64 = v
  negative : it.negative = decide (major = 1)
  unknownLength : it.unknownLength = false
  iterating : it.iterating = false

/-- The argument is kept in the item or left in the input. -/
theorem decodeSmall_value (it : CborValue) {d v : Nat} {b : UInt8} {args tl : List UInt8}
    (h₁ : 24 ≤ d) (h₂ : d ≤ 27) (hlen : args.length = 2 ^ (d - 24)) (harg : beNat args = v)
    (hit : it.rest = b :: (args ++ tl)) (hb : smallValue b = d) (hl : it.tooLarge = false) :
    ∃ it', preparseValue.decodeSmall it d (args ++ tl) = .ok it' ∧ it'.extractInt64 = v ∧
      it' = { it with extra := it'.extra, tooLarge := it'.tooLarge } := by
  have htake : (args ++ tl).take (2 ^ (d - 24)) = args := by rw [← hlen, List.take_left]
  have hval : beNat ((args ++ tl).take (2 ^ (d - 24))) = v := (congrArg beNat htake).trans harg
  unfold preparseValue.decodeSmall
  rw [if_neg (by omega)]
  by_cases hd24 : d = 24
  · subst hd24
    refine ⟨_, if_pos rfl, ?_, rfl⟩
    simp only [CborValue.extractInt64, hl]
    exact hval
  rw [if_neg hd24]
  by_cases hd25 : d = 25
  · subst hd25
    refine ⟨_, if_pos rfl, ?_, rfl⟩
    simp only [CborValue.extractInt64, hl]
    exact hval
  refine ⟨_, if_neg hd25, ?_, rfl⟩
  simp only [CborValue.extractInt64, if_true, hit, hb]
  by_cases hd26 : d = 26
  · subst hd26
    rw [if_pos rfl]
    exact hval
  · obtain rfl : d = 27 := by omega
    rw [if_neg hd26]
    exact hval

theorem preparseValue_reads {it : CborValue} {major v : Nat} {tl : List UInt8} (hv : v < 2 ^ 64)
    (hm : major < 6) (hit : it.rest = numberBytes v major ++ tl) :
    ∃ it', preparseValue it = .ok it' ∧ it'.remaining = it.remaining ∧ it'.Reads major v tl := by
  have hm7 : major ≠ 7 := by omega
  rcases numberBytes_cases hv major with ⟨h, hb⟩ | ⟨d, args, h₁, h₂, hb, hlen, harg⟩
  · have hit' := hit
    rw [hb, List.singleton_append] at hit'
    unfold preparseValue
    rw [hit']
    simp only [smallValue_header (show v < 32 by omega),
      majorType_header (show major < 8 by omega) (show v < 32 by omega)]
    rw [if_neg (by omega), if_neg (by simp [h])]
    by_cases hm1 : major = 1
    · rw [if_pos hm1, preparseValue.decodeSmall, if_pos h]
      exact ⟨_, rfl, rfl, by simp [hb], rfl, rfl, by simp [hm1], rfl, rfl⟩
    · rw [if_neg hm1, if_neg hm7, preparseValue.decodeSmall, if_pos h]
      exact ⟨_, rfl, rfl, by simp [hb], rfl, rfl, by simp [hm1], rfl, rfl⟩
  · have hit' := hit
    rw [hb, List.cons_append] at hit'
    have hsmall : smallValue (UInt8.ofNat (32 * major + d)) = d := smallValue_header (by omega)
    unfold preparseValue
    rw [hit']
    simp only [hsmall, majorType_header (show major < 8 by omega) (show d < 32 by omega)]
    rw [if_neg (by omega), if_neg (by simp [show ¬ d < 24 by omega, hlen])]
    let item (neg : Bool) : CborValue :=
      { rest := UInt8.ofNat (32 * major + d) :: (args ++ tl), remaining := it.remaining,
        type := typeOfMajor major, extra := d, negative := neg }
    by_cases hm1 : major = 1
    · rw [if_pos hm1]
      obtain ⟨it', hok, hval, heq⟩ := decodeSmall_value (item true) h₁ h₂ hlen harg rfl hsmall rfl
      refine ⟨it', hok, ?_, ?_, ?_, hval, ?_, ?_, ?_⟩
      all_goals rw [heq]
      · exact hit'.symm.trans hit
      · simp [item, hm1]
    · rw [if_neg hm1, if_neg hm7]
      obtain ⟨it', hok, hval, heq⟩ := decodeSmall_value (item false) h₁ h₂ hlen harg rfl hsmall rfl
      refine ⟨it', hok, ?_, ?_, ?_, hval, ?_, ?_, ?_⟩
      all_goals rw [heq]
      · exact hit'.symm.trans hit
      · simp [item, hm1]

/-! ## Lists of items -/

/-- The items of a flat container. -/
inductive Item
  | int (v : Int)
  | bytes (l : List UInt8)

namespace Item

def major : Item → Nat
  | int v => if 0 ≤ v then 0 else 1
  | bytes _ => 2

/-- The number in the head of an item. -/
def arg : Item → Nat
  | int v => if 0 ≤ v then v.toNat else (-v - 1).toNat
  | bytes l => l.length

def payload : Item → List UInt8
  | int _ => []
  | bytes l => l

/-- The encoding. -/
def enc (i : Item) : List UInt8 := numberBytes i.arg i.major ++ i.payload

/-- Within the range of the accessors. -/
def Small : Item → Prop
  | int v => -2 ^ 63 ≤ v ∧ v < 2 ^ 63
  | bytes l => l.length < 2 ^ 32

theorem Small.arg_lt {i : Item} (h : i.Small) : i.arg < 2 ^ 63 := by
  cases i with
  | int v =>
    simp only [Small] at h
    simp only [arg]
    split <;> omega
  | bytes l => exact lt_trans (show l.length < 2 ^ 32 from h) (by decide)

theorem major_lt (i : Item) : i.major < 3 := by
  cases i with
  | int v => simp only [major]; split <;> decide
  | bytes l => simp [major]

end Item

theorem numberBytes_pos (v major : Nat) : 0 < (numberBytes v major).length := by
  unfold numberBytes
  simp only
  split
  · simp
  split
  · simp
  split
  · simp
  split <;> simp

theorem length_le_flatMap_enc (items : List Item) :
    items.length ≤ (items.flatMap Item.enc).length := by
  induction items with
  | nil => simp
  | cons i items ih =>
    have hi := numberBytes_pos i.arg i.major
    rw [List.flatMap_cons, List.length_append, List.length_cons, Item.enc, List.length_append]
    omega

/-- An iterator before the items of a container that ends with the input. -/
structure CborValue.Iterates (it : CborValue) (items : List Item) : Prop where
  remaining : it.remaining = UInt32.ofNat items.length
  few : items.length < 2 ^ 31
  small : ∀ i ∈ items, i.Small
  rest : it.rest = items.flatMap Item.enc
  head : ∀ i ∈ items.head?, it.Reads i.major i.arg (i.payload ++ (items.drop 1).flatMap Item.enc)

section Iterates

variable {it : CborValue} {i : Item} {items : List Item}

theorem toUInt32_ne_max {n : Nat} (h : n < 2 ^ 31) : UInt32.ofNat n ≠ uint32Max := by
  intro e
  have := congrArg UInt32.toNat e
  rw [UInt32.toNat_ofNat', show uint32Max.toNat = 2 ^ 32 - 1 from rfl] at this
  omega

theorem toUInt32_eq_zero {n : Nat} (h : n < 2 ^ 31) : UInt32.ofNat n = 0 ↔ n = 0 := by
  rw [← UInt32.toNat_inj, UInt32.toNat_ofNat']
  show n % 2 ^ 32 = 0 ↔ n = 0
  omega

theorem CborValue.Iterates.atEnd (h : it.Iterates items) : it.atEnd = true ↔ items = [] := by
  rw [CborValue.atEnd, decide_eq_true_iff, h.remaining, toUInt32_eq_zero h.few, List.length_eq_zero_iff]

theorem preparseValue_iterates (hrem : it.remaining = UInt32.ofNat (i :: items).length)
    (hfew : (i :: items).length < 2 ^ 31) (hsmall : ∀ j ∈ i :: items, j.Small)
    (hrest : it.rest = (i :: items).flatMap Item.enc) :
    ∃ it', preparseValue it = .ok it' ∧ it'.Iterates (i :: items) := by
  have hi := hsmall i (List.mem_cons_self ..)
  have hrest' : it.rest = numberBytes i.arg i.major ++ (i.payload ++ items.flatMap Item.enc) := by
    rw [hrest, List.flatMap_cons, Item.enc, List.append_assoc]
  obtain ⟨it', hok, hrem', hreads⟩ := preparseValue_reads (lt_trans hi.arg_lt (by decide))
    (lt_trans i.major_lt (by decide)) hrest'
  refine ⟨it', hok, hrem'.trans hrem, hfew, hsmall, ?_, ?_⟩
  · rw [hreads.rest, ← hrest', hrest]
  · intro j hj
    obtain rfl : i = j := by simpa using hj
    simpa using hreads

theorem preparseNextValueNodecrement_iterates (hrem : it.remaining = UInt32.ofNat (i :: items).length)
    (hfew : (i :: items).length < 2 ^ 31) (hsmall : ∀ j ∈ i :: items, j.Small)
    (hrest : it.rest = (i :: items).flatMap Item.enc) :
    ∃ it', preparseNextValueNodecrement it = .ok it' ∧ it'.Iterates (i :: items) := by
  have hne : it.remaining ≠ uint32Max := hrem ▸ toUInt32_ne_max hfew
  have heq : preparseNextValueNodecrement it = preparseValue it := by
    unfold preparseNextValueNodecrement
    split
    · rw [if_neg fun h => hne h.1]
    · rfl
  rw [heq]
  exact preparseValue_iterates hrem hfew hsmall hrest

/-- To the next item of the list. -/
theorem preparseNextValue_iterates (hrem : it.remaining = UInt32.ofNat (items.length + 1))
    (htype : it.type ≠ .tag) (hfew : items.length + 1 < 2 ^ 31) (hsmall : ∀ j ∈ items, j.Small)
    (hrest : it.rest = items.flatMap Item.enc) :
    ∃ it', preparseNextValue it = .ok it' ∧ it'.Iterates items := by
  have hne : it.remaining ≠ uint32Max := hrem ▸ toUInt32_ne_max hfew
  have hdec : it.remaining - 1 = UInt32.ofNat items.length := by
    rw [hrem, UInt32.ofNat_add]
    exact UInt32.add_sub_cancel _ _
  unfold preparseNextValue
  rw [if_pos ⟨hne, htype⟩]
  simp only [hdec]
  cases items with
  | nil =>
    refine ⟨_, rfl, hdec ▸ rfl, by decide, by simp, hrest, by simp⟩
  | cons i items =>
    rw [if_neg fun h => absurd ((toUInt32_eq_zero (by omega)).mp h) (by simp)]
    exact preparseNextValueNodecrement_iterates rfl (by omega) hsmall hrest

theorem CborValue.Iterates.reads (h : it.Iterates (i :: items)) :
    it.Reads i.major i.arg (i.payload ++ items.flatMap Item.enc) := h.head i rfl

theorem typeOfMajor_int (v : Int) : typeOfMajor (Item.int v).major = .integer := by
  simp only [Item.major]
  split <;> rfl

/-- Behind an integer. -/
theorem CborValue.Iterates.advanceInternal {v : Int} (h : it.Iterates (.int v :: items)) :
    ∃ it', advanceInternal it = .ok it' ∧ it'.Iterates items := by
  have hr := h.reads
  have harg := (h.small _ (List.mem_cons_self ..)).arg_lt
  unfold Cbor.advanceInternal
  rw [hr.rest, extractNumber_numberBytes (lt_trans harg (by decide))]
  refine preparseNextValue_iterates h.remaining ?_ h.few
    (fun j hj => h.small j (List.mem_cons_of_mem _ hj)) rfl
  rw [hr.type, typeOfMajor_int]
  decide

theorem numberBytes_head {l : List UInt8} (tl : List UInt8) (hl : l.length < 2 ^ 32) :
    ∃ b tl', numberBytes l.length 2 ++ tl = b :: tl' ∧ b ≠ breakByte ∧
      typeOfMajor (majorType b) = .byteString := by
  have hbreak {b : UInt8} (h : majorType b = 2) : b ≠ breakByte := by
    rintro rfl
    exact absurd h (by decide)
  rcases numberBytes_cases (lt_trans hl (by decide)) 2 with ⟨h, hb⟩ | ⟨d, args, -, h₂, hb, -⟩
  · have hm : majorType (UInt8.ofNat (32 * 2 + l.length)) = 2 :=
      majorType_header (by decide) (by omega)
    exact ⟨_, _, by rw [hb, List.singleton_append], hbreak hm, by rw [hm]; rfl⟩
  · have hm : majorType (UInt8.ofNat (32 * 2 + d)) = 2 := majorType_header (by decide) (by omega)
    exact ⟨_, _, by rw [hb, List.cons_append], hbreak hm, by rw [hm]; rfl⟩

/-- The only chunk of a byte string. -/
theorem CborValue.Iterates.getStringChunk {l : List UInt8} (h : it.Iterates (.bytes l :: items)) :
    getStringChunk it
      = .ok (some l, { it with rest := items.flatMap Item.enc, iterating := true }) := by
  have hr := h.reads
  have hl : l.length < 2 ^ 32 := h.small _ (List.mem_cons_self ..)
  obtain ⟨b, tl, hb, hbreak, htype⟩ := numberBytes_head (l ++ items.flatMap Item.enc) hl
  have hrest : it.rest = b :: tl := hr.rest.trans hb
  have hnum : extractLength (b :: tl) = .ok (l.length, l ++ items.flatMap Item.enc) := by
    unfold extractLength
    rw [← hb, extractNumber_numberBytes (lt_trans hl (by decide))]
    exact if_neg (by omega)
  have htake : (l ++ items.flatMap Item.enc).take l.length = l := List.take_left
  have hdrop : (l ++ items.flatMap Item.enc).drop l.length = items.flatMap Item.enc := List.drop_left
  unfold Cbor.getStringChunk
  simp only [hr.iterating, hr.unknownLength, Bool.false_eq_true, false_and, if_false,
    Bool.not_false, and_false, hrest, if_neg hbreak, htype, hr.type]
  rw [show typeOfMajor (Item.bytes l).major = .byteString from rfl, if_pos rfl, hnum]
  show (if _ then _ else _) = _
  rw [if_neg (by simp), htake, hdrop]

/-- A byte string is read to its end in one piece. -/
theorem CborValue.Iterates.stringChunks {l : List UInt8} (h : it.Iterates (.bytes l :: items)) :
    ∃ it', stringChunks it = ([l], .ok it') ∧ it'.Iterates items := by
  have hr := h.reads
  let behind : CborValue := { it with rest := items.flatMap Item.enc, iterating := true }
  obtain ⟨it', hok, hit'⟩ := preparseNextValue_iterates (show behind.remaining = _ from h.remaining)
    (by simp [behind, hr.type, Item.major, typeOfMajor]) h.few (fun j hj => h.small j (List.mem_cons_of_mem _ hj)) rfl
  refine ⟨it', ?_, hit'⟩
  have hlast : Cbor.getStringChunk { it with rest := items.flatMap Item.enc, iterating := true }
      = .ok (none, it') := by
    unfold Cbor.getStringChunk
    rw [if_pos (by simp [hr.unknownLength]), getStringChunk.lastChunk, hok]
    rfl
  unfold Cbor.stringChunks
  rw [if_pos (by simp [CborValue.isString, hr.type, Item.major, typeOfMajor])]
  simp only [stringChunksAux, h.getStringChunk, hlast]

theorem advanceRecursive_fixed (n : Nat) (h : isFixedType it.type = true) :
    advanceRecursive n it = Cbor.advanceInternal it := by
  cases n <;> simp [advanceRecursive, h]

theorem advanceRecursive_string (n : Nat) (h : it.isString = true) :
    advanceRecursive n it = (Cbor.stringChunks it).2 := by
  have htype : it.type = .byteString ∨ it.type = .textString := by simpa [CborValue.isString] using h
  have hfixed : isFixedType it.type = false := by rcases htype with h | h <;> rw [h] <;> rfl
  have hcont : it.isContainer = false := by
    rcases htype with h | h <;> simp [CborValue.isContainer, h]
  cases n <;> simp [advanceRecursive, hfixed, hcont]

/-- `cbor_value_advance` goes to the next item. -/
theorem CborValue.Iterates.advance (h : it.Iterates (i :: items)) :
    ∃ it', advance it = .ok it' ∧ it'.Iterates items := by
  have hr := h.reads
  have hend : it.atEnd = false := by
    simpa using mt h.atEnd.mp (List.cons_ne_nil i items)
  have hadv (htype : it.type ≠ .invalid) :
      Cbor.advance it = advanceRecursive cborParserMaxRecursions it := by
    simp [Cbor.advance, cborAssert, htype, hend]
    rfl
  cases i with
  | int v =>
    have htype : it.type = .integer := hr.type.trans (typeOfMajor_int v)
    obtain ⟨it', hok, hit'⟩ := h.advanceInternal
    refine ⟨it', ?_, hit'⟩
    rw [hadv (by rw [htype]; decide), advanceRecursive_fixed _ (by rw [htype]; decide), hok]
  | bytes l =>
    have htype : it.type = .byteString := hr.type
    obtain ⟨it', hok, hit'⟩ := h.stringChunks
    refine ⟨it', ?_, hit'⟩
    rw [hadv (by rw [htype]; decide), advanceRecursive_string _ (by simp [CborValue.isString, htype]), hok]

/-! ## Values -/

theorem CborValue.Iterates.getUint64 {v : Nat} (h : it.Iterates (.int v :: items)) :
    it.getUint64 = .ok v := by
  have hr := h.reads
  have htype : it.type = .integer := hr.type.trans (typeOfMajor_int v)
  have hneg : it.negative = false := by simpa [Item.major] using hr.negative
  have hval : it.extractInt64 = v := by simpa [Item.arg] using hr.value
  simp only [CborValue.getUint64, cborAssert, htype, hneg, hval, and_self, if_true]
  rfl

theorem CborValue.Iterates.getInt64 {v : Int} (h : it.Iterates (.int v :: items)) :
    it.getInt64 = .ok v := by
  have hr := h.reads
  have htype : it.type = .integer := hr.type.trans (typeOfMajor_int v)
  have hsmall : -2 ^ 63 ≤ v ∧ v < 2 ^ 63 := h.small _ (List.mem_cons_self ..)
  have hmod (n : Nat) (hn : n < 2 ^ 63) : Int.bmod n (2 ^ 64) = n := by
    rw [Int.bmod_eq_of_le] <;> omega
  have harg := (h.small _ (List.mem_cons_self ..)).arg_lt
  simp only [CborValue.getInt64, cborAssert, htype, if_true, hr.value, hr.negative, hmod _ harg]
  by_cases hv : 0 ≤ v
  · simp [Item.major, Item.arg, hv, bind, Except.bind, pure, Except.pure]
  · simp [Item.major, Item.arg, hv, bind, Except.bind, pure, Except.pure]
    rw [Int.bmod_eq_of_le] <;> omega

/-- A byte string of the size of its buffer is copied whole. -/
theorem CborValue.Iterates.copyByteString {l : List UInt8} (h : it.Iterates (.bytes l :: items)) :
    ∃ it', Cbor.copyByteString it l.length = ⟨l, .ok (l.length, it')⟩ := by
  obtain ⟨it', hok, -⟩ := h.stringChunks
  refine ⟨it', ?_⟩
  have hfit : fitChunks l.length [l] = (l, true) := by simp [fitChunks]
  unfold Cbor.copyByteString copyString
  rw [if_pos (show it.type = .byteString from h.reads.type), hok]
  simp [hfit]

/-- Into a map that fills the input. -/
theorem parse_flat_map {n : Nat} (items : List Item) (hlen : items.length = 2 * n) (hn : 0 < n) (hfew : n < 2 ^ 30)
    (hsmall : ∀ j ∈ items, j.Small) :
    ∃ it map, cborParserInit (numberBytes n 5 ++ items.flatMap Item.enc) = .ok it ∧
      it.type = .map ∧ enterContainer it = .ok map ∧ map.Iterates items := by
  obtain ⟨it, hok, -, hr⟩ := preparseValue_reads (v := n) (by omega) (by decide)
    (show ({ rest := numberBytes n 5 ++ items.flatMap Item.enc, remaining := 1 } : CborValue).rest
      = numberBytes n 5 ++ _ from rfl)
  have htype : it.type = .map := hr.type
  have hnum : extractNumber it.rest = .ok (n, items.flatMap Item.enc) := by
    rw [hr.rest, extractNumber_numberBytes (by omega)]
  obtain ⟨i, rest, rfl⟩ : ∃ i rest, items = i :: rest := by
    cases items with
    | nil => simp at hlen; omega
    | cons i rest => exact ⟨i, rest, rfl⟩
  let inside : CborValue :=
    { it with rest := (i :: rest).flatMap Item.enc, remaining := UInt32.ofNat (2 * n) }
  obtain ⟨map, hmap, hit⟩ := preparseNextValueNodecrement_iterates
    (show inside.remaining = _ by rw [hlen]) (by omega) hsmall rfl
  refine ⟨it, map, hok, htype, ?_, hit⟩
  unfold enterContainer
  simp only [cborAssert, CborValue.isContainer, htype, or_true, decide_true, if_true,
    hr.unknownLength, Bool.false_eq_true, if_false, hnum]
  show (if _ then _ else _) = _
  rw [if_neg (by omega), if_neg (by omega), if_neg (by omega)]
  rw [← htype, ← hr.unknownLength]
  exact hmap

end Iterates

/-! ## Encoding -/

/-- Encode one item. -/
def Encoder.item (e : Encoder) : Item → EncM Encoder
  | .int v => e.int v
  | .bytes l => e.byteString l

theorem Encoder.append_eq {e : Encoder} {data : List UInt8} (h : data.length ≤ e.room) :
    e.append data = .ok { e with out := e.out ++ data, room := e.room - data.length } := by
  unfold Encoder.append
  exact if_neg (by omega)

theorem Encoder.item_eq {e : Encoder} {i : Item} (h : i.enc.length ≤ e.room) :
    e.item i = .ok { out := e.out ++ i.enc, room := e.room - i.enc.length,
                     remaining := e.remaining - 1 } := by
  have hlen : i.enc.length = (numberBytes i.arg i.major).length + i.payload.length :=
    List.length_append
  cases i with
  | int v =>
    have henc : (Item.int v).enc = numberBytes (Item.int v).arg (Item.int v).major :=
      List.append_nil _
    rw [henc] at h ⊢
    have hnum : e.int v = e.number (Item.int v).arg (Item.int v).major := by
      by_cases hv : 0 ≤ v <;> simp [Encoder.int, Item.arg, Item.major, hv]
    rw [Encoder.item, hnum, Encoder.number]
    exact Encoder.append_eq h
  | bytes l =>
    have hnum : e.number l.length 2 = .ok _ := Encoder.append_eq (by
      show (numberBytes (Item.bytes l).arg (Item.bytes l).major).length ≤ e.room
      omega)
    rw [Encoder.item, Encoder.byteString, Encoder.string, hnum]
    show Encoder.append _ l = _
    rw [Encoder.append_eq]
    · simp only [Item.enc, Item.arg, Item.major, Item.payload, List.append_assoc, List.length_append,
        Nat.sub_sub]
    · show l.length ≤ e.room - (numberBytes (Item.bytes l).arg (Item.bytes l).major).length
      have hp : (Item.bytes l).payload.length = l.length := rfl
      omega

theorem Encoder.foldlM_item_eq {items : List Item} {e : Encoder}
    (h : (items.flatMap Item.enc).length ≤ e.room) :
    items.foldlM Encoder.item e = .ok { out := e.out ++ items.flatMap Item.enc,
                                        room := e.room - (items.flatMap Item.enc).length,
                                        remaining := e.remaining - items.length } := by
  induction items generalizing e with
  | nil => simp; rfl
  | cons i items ih =>
    rw [List.flatMap_cons, List.length_append] at h
    rw [List.foldlM_cons, Encoder.item_eq (by omega)]
    show List.foldlM Encoder.item _ items = _
    rw [ih (by show _ ≤ e.room - i.enc.length; omega)]
    simp only [List.flatMap_cons, List.append_assoc, List.length_append, List.length_cons, Nat.sub_sub,
      Nat.add_comm]

theorem length_numberBytes_le (v major : Nat) : (numberBytes v major).length ≤ 9 := by
  unfold numberBytes
  simp only
  split
  · simp
  split
  · simp
  split
  · simp
  split <;> simp

theorem length_numberBytes_small {v : Nat} (h : v < 256) (major : Nat) :
    (numberBytes v major).length ≤ 2 := by
  unfold numberBytes
  simp only
  split
  · simp
  · rw [if_pos (by omega)]
    simp

end TkeyFido2.Cbor
