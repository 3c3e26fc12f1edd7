import TkeyFido2.Lib.BlockModes
import TkeyFido2.Lib.BlockSource
import TkeyFido2.Lib.Der
import TkeyFido2.Ctap.RpBinding

/-!
# The AES of the device

`aes.c` with the key length 256, as `crypto.c` uses it: CBC for what a platform sends under a shared secret,
CTR for what the device stores.  The cipher is a bijection of blocks under any round keys, so both modes undo
themselves, whatever a context was used for before.
-/

namespace TkeyFido2

namespace Aes

/-! ## Tables -/

def sbox : List UInt8 :=
  [0x63, 0x7c, 0x77, 0x7b, 0xf2, 0x6b, 0x6f, 0xc5, 0x30, 0x01, 0x67, 0x2b, 0xfe, 0xd7, 0xab, 0x76,
   0xca, 0x82, 0xc9, 0x7d, 0xfa, 0x59, 0x47, 0xf0, 0xad, 0xd4, 0xa2, 0xaf, 0x9c, 0xa4, 0x72, 0xc0,
   0xb7, 0xfd, 0x93, 0x26, 0x36, 0x3f, 0xf7, 0xcc, 0x34, 0xa5, 0xe5, 0xf1, 0x71, 0xd8, 0x31, 0x15,
   0x04, 0xc7, 0x23, 0xc3, 0x18, 0x96, 0x05, 0x9a, 0x07, 0x12, 0x80, 0xe2, 0xeb, 0x27, 0xb2, 0x75,
   0x09, 0x83, 0x2c, 0x1a, 0x1b, 0x6e, 0x5a, 0xa0, 0x52, 0x3b, 0xd6, 0xb3, 0x29, 0xe3, 0x2f, 0x84,
   0x53, 0xd1, 0x00, 0xed, 0x20, 0xfc, 0xb1, 0x5b, 0x6a, 0xcb, 0xbe, 0x39, 0x4a, 0x4c, 0x58, 0xcf,
   0xd0, 0xef, 0xaa, 0xfb, 0x43, 0x4d, 0x33, 0x85, 0x45, 0xf9, 0x02, 0x7f, 0x50, 0x3c, 0x9f, 0xa8,
   0x51, 0xa3, 0x40, 0x8f, 0x92, 0x9d, 0x38, 0xf5, 0xbc, 0xb6, 0xda, 0x21, 0x10, 0xff, 0xf3, 0xd2,
   0xcd, 0x0c, 0x13, 0xec, 0x5f, 0x97, 0x44, 0x17, 0xc4, 0xa7, 0x7e, 0x3d, 0x64, 0x5d, 0x19, 0x73,
   0x60, 0x81, 0x4f, 0xdc, 0x22, 0x2a, 0x90, 0x88, 0x46, 0xee, 0xb8, 0x14, 0xde, 0x5e, 0x0b, 0xdb,
   0xe0, 0x32, 0x3a, 0x0a, 0x49, 0x06, 0x24, 0x5c, 0xc2, 0xd3, 0xac, 0x62, 0x91, 0x95, 0xe4, 0x79,
   0xe7, 0xc8, 0x37, 0x6d, 0x8d, 0xd5, 0x4e, 0xa9, 0x6c, 0x56, 0xf4, 0xea, 0x65, 0x7a, 0xae, 0x08,
   0xba, 0x78, 0x25, 0x2e, 0x1c, 0xa6, 0xb4, 0xc6, 0xe8, 0xdd, 0x74, 0x1f, 0x4b, 0xbd, 0x8b, 0x8a,
   0x70, 0x3e, 0xb5, 0x66, 0x48, 0x03, 0xf6, 0x0e, 0x61, 0x35, 0x57, 0xb9, 0x86, 0xc1, 0x1d, 0x9e,
   0xe1, 0xf8, 0x98, 0x11, 0x69, 0xd9, 0x8e, 0x94, 0x9b, 0x1e, 0x87, 0xe9, 0xce, 0x55, 0x28, 0xdf,
   0x8c, 0xa1, 0x89, 0x0d, 0xbf, 0xe6, 0x42, 0x68, 0x41, 0x99, 0x2d, 0x0f, 0xb0, 0x54, 0xbb, 0x16]

def rsbox : List UInt8 :=
  [0x52, 0x09, 0x6a, 0xd5, 0x30, 0x36, 0xa5, 0x38, 0xbf, 0x40, 0xa3, 0x9e, 0x81, 0xf3, 0xd7, 0xfb,
   0x7c, 0xe3, 0x39, 0x82, 0x9b, 0x2f, 0xff, 0x87, 0x34, 0x8e, 0x43, 0x44, 0xc4, 0xde, 0xe9, 0xcb,
   0x54, 0x7b, 0x94, 0x32, 0xa6, 0xc2, 0x23, 0x3d, 0xee, 0x4c, 0x95, 0x0b, 0x42, 0xfa, 0xc3, 0x4e,
   0x08, 0x2e, 0xa1, 0x66, 0x28, 0xd9, 0x24, 0xb2, 0x76, 0x5b, 0xa2, 0x49, 0x6d, 0x8b, 0xd1, 0x25,
   0x72, 0xf8, 0xf6, 0x64, 0x86, 0x68, 0x98, 0x16, 0xd4, 0xa4, 0x5c, 0xcc, 0x5d, 0x65, 0xb6, 0x92,
   0x6c, 0x70, 0x48, 0x50, 0xfd, 0xed, 0xb9, 0xda, 0x5e, 0x15, 0x46, 0x57, 0xa7, 0x8d, 0x9d, 0x84,
   0x90, 0xd8, 0xab, 0x00, 0x8c, 0xbc, 0xd3, 0x0a, 0xf7, 0xe4, 0x58, 0x05, 0xb8, 0xb3, 0x45, 0x06,
   0xd0, 0x2c, 0x1e, 0x8f, 0xca, 0x3f, 0x0f, 0x02, 0xc1, 0xaf, 0xbd, 0x03, 0x01, 0x13, 0x8a, 0x6b,
   0x3a, 0x91, 0x11, 0x41, 0x4f, 0x67, 0xdc, 0xea, 0x97, 0xf2, 0xcf, 0xce, 0xf0, 0xb4, 0xe6, 0x73,
   0x96, 0xac, 0x74, 0x22, 0xe7, 0xad, 0x35, 0x85, 0xe2, 0xf9, 0x37, 0xe8, 0x1c, 0x75, 0xdf, 0x6e,
   0x47, 0xf1, 0x1a, 0x71, 0x1d, 0x29, 0xc5, 0x89, 0x6f, 0xb7, 0x62, 0x0e, 0xaa, 0x18, 0xbe, 0x1b,
   0xfc, 0x56, 0x3e, 0x4b, 0xc6, 0xd2, 0x79, 0x20, 0x9a, 0xdb, 0xc0, 0xfe, 0x78, 0xcd, 0x5a, 0xf4,
   0x1f, 0xdd, 0xa8, 0x33, 0x88, 0x07, 0xc7, 0x31, 0xb1, 0x12, 0x10, 0x59, 0x27, 0x80, 0xec, 0x5f,
   0x60, 0x51, 0x7f, 0xa9, 0x19, 0xb5, 0x4a, 0x0d, 0x2d, 0xe5, 0x7a, 0x9f, 0x93, 0xc9, 0x9c, 0xef,
   0xa0, 0xe0, 0x3b, 0x4d, 0xae, 0x2a, 0xf5, 0xb0, 0xc8, 0xeb, 0xbb, 0x3c, 0x83, 0x53, 0x99, 0x61,
   0x17, 0x2b, 0x04, 0x7e, 0xba, 0x77, 0xd6, 0x26, 0xe1, 0x69, 0x14, 0x63, 0x55, 0x21, 0x0c, 0x7d]

def rcon : List UInt8 := [0x8d, 0x01, 0x02, 0x04, 0x08, 0x10, 0x20, 0x40, 0x80, 0x1b, 0x36]

def getSBoxValue (num : UInt8) : UInt8 := sbox.getD num.toNat 0
def getSBoxInvert (num : UInt8) : UInt8 := rsbox.getD num.toNat 0

/-- The number of columns of a key. -/
def nk : Nat := 8

/-- The number of rounds. -/
def nr : Nat := 14

/-! ## The state -/

/-- Four bytes: `(*state)[i]`, or a word of the key schedule. -/
@[ext] structure Column where
  r0 : UInt8
  r1 : UInt8
  r2 : UInt8
  r3 : UInt8
  deriving DecidableEq

namespace Column

def zero : Column := ⟨0, 0, 0, 0⟩

def xor (a b : Column) : Column := ⟨a.r0 ^^^ b.r0, a.r1 ^^^ b.r1, a.r2 ^^^ b.r2, a.r3 ^^^ b.r3⟩

def map (f : UInt8 → UInt8) (a : Column) : Column := ⟨f a.r0, f a.r1, f a.r2, f a.r3⟩

end Column

/-- `state_t`. -/
@[ext] structure State where
  c0 : Column
  c1 : Column
  c2 : Column
  c3 : Column
  deriving DecidableEq

namespace State

def map (f : Column → Column) (s : State) : State := ⟨f s.c0, f s.c1, f s.c2, f s.c3⟩

/-- The state that lies in a buffer of 16 bytes. -/
def ofBytes (b : Bytes 16) : State :=
  ⟨⟨b.byte 0, b.byte 1, b.byte 2, b.byte 3⟩, ⟨b.byte 4, b.byte 5, b.byte 6, b.byte 7⟩,
    ⟨b.byte 8, b.byte 9, b.byte 10, b.byte 11⟩, ⟨b.byte 12, b.byte 13, b.byte 14, b.byte 15⟩⟩

def toBytes (s : State) : Bytes 16 :=
  ⟨[s.c0.r0, s.c0.r1, s.c0.r2, s.c0.r3, s.c1.r0, s.c1.r1, s.c1.r2, s.c1.r3,
    s.c2.r0, s.c2.r1, s.c2.r2, s.c2.r3, s.c3.r0, s.c3.r1, s.c3.r2, s.c3.r3], rfl⟩

end State

/-! ## Round keys -/

/-- The columns of the key schedule, `Nb (Nr + 1)` of them. -/
abbrev RoundKey := List Column

def RoundKey.column (rk : RoundKey) (i : Nat) : Column := rk.getD i .zero

/-- What `KeyExpansion` adds to the column that lies `Nk` columns back, from the column before. -/
def expansionTemp (i : Nat) (c : Column) : Column :=
  if i % nk = 0 then
    let c : Column := ⟨getSBoxValue c.r1, getSBoxValue c.r2, getSBoxValue c.r3, getSBoxValue c.r0⟩
    { c with r0 := c.r0 ^^^ rcon.getD (i / nk) 0 }
  else if i % nk = 4 then c.map getSBoxValue
  else c

def expansionStep (rk : RoundKey) (i : Nat) : RoundKey :=
  rk ++ [(rk.column (i - nk)).xor (expansionTemp i (rk.column (i - 1)))]

def keyExpansion (key : Bytes 32) : RoundKey :=
  (List.range' nk (4 * (nr + 1) - nk)).foldl expansionStep <| (List.range nk).map fun i =>
    ⟨key.byte (4 * i), key.byte (4 * i + 1), key.byte (4 * i + 2), key.byte (4 * i + 3)⟩

def addRoundKey (round : Nat) (s : State) (rk : RoundKey) : State :=
  ⟨s.c0.xor (rk.column (4 * round)), s.c1.xor (rk.column (4 * round + 1)),
    s.c2.xor (rk.column (4 * round + 2)), s.c3.xor (rk.column (4 * round + 3))⟩

/-! ## Rounds -/

def subBytes (s : State) : State := s.map (Column.map getSBoxValue)
def invSubBytes (s : State) : State := s.map (Column.map getSBoxInvert)

def shiftRows (s : State) : State :=
  ⟨⟨s.c0.r0, s.c1.r1, s.c2.r2, s.c3.r3⟩, ⟨s.c1.r0, s.c2.r1, s.c3.r2, s.c0.r3⟩,
    ⟨s.c2.r0, s.c3.r1, s.c0.r2, s.c1.r3⟩, ⟨s.c3.r0, s.c0.r1, s.c1.r2, s.c2.r3⟩⟩

def invShiftRows (s : State) : State :=
  ⟨⟨s.c0.r0, s.c3.r1, s.c2.r2, s.c1.r3⟩, ⟨s.c1.r0, s.c0.r1, s.c3.r2, s.c2.r3⟩,
    ⟨s.c2.r0, s.c1.r1, s.c0.r2, s.c3.r3⟩, ⟨s.c3.r0, s.c2.r1, s.c1.r2, s.c0.r3⟩⟩

def xtime (x : UInt8) : UInt8 := (x <<< 1) ^^^ (((x >>> 7) &&& 1) * 0x1b)

/-- One pass of the loop of `MixColumns`. -/
def mixColumn (s : Column) : Column :=
  let tmp := s.r0 ^^^ s.r1 ^^^ s.r2 ^^^ s.r3
  ⟨s.r0 ^^^ (xtime (s.r0 ^^^ s.r1) ^^^ tmp), s.r1 ^^^ (xtime (s.r1 ^^^ s.r2) ^^^ tmp),
    s.r2 ^^^ (xtime (s.r2 ^^^ s.r3) ^^^ tmp), s.r3 ^^^ (xtime (s.r3 ^^^ s.r0) ^^^ tmp)⟩

def mixColumns (s : State) : State := s.map mixColumn

def bit (y k : UInt8) : UInt8 := (y >>> k) &&& 1

/-- `Multiply`: the factors have five bits at most. -/
def multiply (x y : UInt8) : UInt8 :=
  (bit y 0 * x) ^^^ (bit y 1 * xtime x) ^^^ (bit y 2 * xtime (xtime x)) ^^^
    (bit y 3 * xtime (xtime (xtime x))) ^^^ (bit y 4 * xtime (xtime (xtime (xtime x))))

/-- One pass of the loop of `InvMixColumns`. -/
def invMixColumn (s : Column) : Column :=
  ⟨multiply s.r0 0x0e ^^^ multiply s.r1 0x0b ^^^ multiply s.r2 0x0d ^^^ multiply s.r3 0x09,
    multiply s.r0 0x09 ^^^ multiply s.r1 0x0e ^^^ multiply s.r2 0x0b ^^^ multiply s.r3 0x0d,
    multiply s.r0 0x0d ^^^ multiply s.r1 0x09 ^^^ multiply s.r2 0x0e ^^^ multiply s.r3 0x0b,
    multiply s.r0 0x0b ^^^ multiply s.r1 0x0d ^^^ multiply s.r2 0x09 ^^^ multiply s.r3 0x0e⟩

def invMixColumns (s : State) : State := s.map invMixColumn

/-! ## The cipher -/

def cipherRound (rk : RoundKey) (s : State) (round : Nat) : State :=
  addRoundKey round (mixColumns (shiftRows (subBytes s))) rk

def cipher (rk : RoundKey) (s : State) : State :=
  addRoundKey nr (shiftRows (subBytes
    ((List.range' 1 (nr - 1)).foldl (cipherRound rk) (addRoundKey 0 s rk)))) rk

def invCipherRound (rk : RoundKey) (s : State) (round : Nat) : State :=
  invMixColumns (addRoundKey round (invSubBytes (invShiftRows s)) rk)

/-- The rounds count down. -/
def invCipher (rk : RoundKey) (s : State) : State :=
  addRoundKey 0 (invSubBytes (invShiftRows
    ((List.range' 1 (nr - 1)).reverse.foldl (invCipherRound rk) (addRoundKey nr s rk)))) rk

end Aes

namespace Aes

/-! ## The inverse -/

/-- A test of every byte. -/
theorem forall_byte {p : UInt8 → Bool} (h : (List.range 256).all (fun n => p (UInt8.ofNat n)) = true)
    (x : UInt8) : p x = true := by
  have hx := List.all_eq_true.mp h x.toNat (List.mem_range.mpr x.toNat_lt)
  rwa [UInt8.ofNat_toNat] at hx

theorem getSBoxInvert_getSBoxValue (x : UInt8) : getSBoxInvert (getSBoxValue x) = x := by
  have htable : sbox.map getSBoxInvert = (List.range 256).map UInt8.ofNat := by decide +kernel
  have hlen : sbox.length = 256 := by decide +kernel
  have hlt : x.toNat < sbox.length := hlen ▸ x.toNat_lt
  have hget := congrArg (fun l : List UInt8 => l[x.toNat]?) htable
  simp only [List.getElem?_map, List.getElem?_eq_getElem hlt, List.getElem?_range x.toNat_lt, Option.map_some,
    UInt8.ofNat_toNat, Option.some.injEq] at hget
  rwa [getSBoxValue, List.getD_eq_getElem?_getD, List.getElem?_eq_getElem hlt, Option.getD_some]

instance finiteUInt8 : Finite UInt8 :=
  Finite.of_injective (fun x : UInt8 => x.toFin) fun _ _ h => UInt8.toFin_inj.mp h

theorem getSBoxValue_getSBoxInvert (x : UInt8) : getSBoxValue (getSBoxInvert x) = x := by
  have hinj : Function.Injective getSBoxValue := Function.LeftInverse.injective getSBoxInvert_getSBoxValue
  obtain ⟨y, rfl⟩ := Finite.surjective_of_injective hinj x
  rw [getSBoxInvert_getSBoxValue]

/-! Both column maps are linear, so it is enough that they are inverse on columns with one bit. -/

def singleBits : List UInt8 := [1, 2, 4, 8, 16, 32, 64, 128]

/-- The bits of a byte, put together again. -/
def sumOfBits (x : UInt8) : UInt8 := singleBits.foldl (fun y b => y ^^^ (if x &&& b = 0 then 0 else b)) 0

theorem sumOfBits_eq (x : UInt8) : sumOfBits x = x := by
  have h : (List.range 256).all (fun n => sumOfBits (UInt8.ofNat n) = UInt8.ofNat n) = true := by
    decide +kernel
  exact of_decide_eq_true (forall_byte (p := fun x => sumOfBits x = x) h x)

/-- What is closed under xor and holds of the bytes with at most one bit holds of every byte. -/
theorem byte_of_bits {p : UInt8 → Prop} (hxor : ∀ a b, p a → p b → p (a ^^^ b)) (hzero : p 0)
    (hbits : ∀ b ∈ singleBits, p b) (x : UInt8) : p x := by
  have hfold (l : List UInt8) (hl : ∀ b ∈ l, p b) (y : UInt8) (hy : p y) :
      p (l.foldl (fun y b => y ^^^ (if x &&& b = 0 then 0 else b)) y) := by
    induction l generalizing y with
    | nil => exact hy
    | cons b l ih =>
      refine ih (fun c hc => hl c (List.mem_cons_of_mem _ hc)) _ (hxor _ _ hy ?_)
      split
      · exact hzero
      · exact hl b List.mem_cons_self
  rw [← sumOfBits_eq x]
  exact hfold singleBits hbits 0 hzero

theorem lowBit_cases (x : UInt8) : x &&& 1 = 0 ∨ x &&& 1 = 1 := by
  have h : ((List.range 256).all fun n => UInt8.ofNat n &&& 1 = 0 ∨ UInt8.ofNat n &&& 1 = 1) = true := by
    decide +kernel
  exact of_decide_eq_true (forall_byte (p := fun x => x &&& 1 = 0 ∨ x &&& 1 = 1) h x)

theorem lowBit_mul_xor (c a b : UInt8) : (c &&& 1) * (a ^^^ b) = ((c &&& 1) * a) ^^^ ((c &&& 1) * b) := by
  rcases lowBit_cases c with h | h
  · simp [h]
  · simp [h]

theorem lowBit_xor_mul (a b m : UInt8) : ((a ^^^ b) &&& 1) * m = ((a &&& 1) * m) ^^^ ((b &&& 1) * m) := by
  have hxor : (a ^^^ b) &&& 1 = (a &&& 1) ^^^ (b &&& 1) := by
    refine UInt8.toBitVec_inj.1 (BitVec.eq_of_getLsbD_eq fun i _ => ?_)
    simp [Bool.and_xor_distrib_right]
  rw [hxor]
  rcases lowBit_cases a with ha | ha
  · simp [ha]
  · rcases lowBit_cases b with hb | hb
    · simp [ha, hb]
    · simp [ha, hb]

theorem xtime_xor (a b : UInt8) : xtime (a ^^^ b) = xtime a ^^^ xtime b := by
  unfold xtime
  rw [UInt8.shiftLeft_xor, UInt8.shiftRight_xor, lowBit_xor_mul]
  ac_rfl

theorem multiply_xor (a b y : UInt8) : multiply (a ^^^ b) y = multiply a y ^^^ multiply b y := by
  simp only [multiply, bit, xtime_xor, lowBit_mul_xor]
  ac_rfl

theorem mixColumn_xor (a b : Column) : mixColumn (a.xor b) = (mixColumn a).xor (mixColumn b) := by
  ext
  all_goals
    simp only [mixColumn, Column.xor, xtime_xor]
    ac_rfl

theorem invMixColumn_xor (a b : Column) : invMixColumn (a.xor b) = (invMixColumn a).xor (invMixColumn b) := by
  ext
  all_goals
    simp only [invMixColumn, Column.xor, multiply_xor]
    ac_rfl

theorem Column.eq_units (c : Column) :
    c = ((Column.xor ⟨c.r0, 0, 0, 0⟩ ⟨0, c.r1, 0, 0⟩).xor ⟨0, 0, c.r2, 0⟩).xor ⟨0, 0, 0, c.r3⟩ := by
  ext
  all_goals simp [Column.xor]

/-- The map keeps the columns that have this byte and three zeroes. -/
def KeepsUnits (f : Column → Column) (x : UInt8) : Prop :=
  f ⟨x, 0, 0, 0⟩ = ⟨x, 0, 0, 0⟩ ∧ f ⟨0, x, 0, 0⟩ = ⟨0, x, 0, 0⟩ ∧ f ⟨0, 0, x, 0⟩ = ⟨0, 0, x, 0⟩ ∧
    f ⟨0, 0, 0, x⟩ = ⟨0, 0, 0, x⟩

instance (f : Column → Column) (x : UInt8) : Decidable (KeepsUnits f x) :=
  inferInstanceAs (Decidable (_ ∧ _ ∧ _ ∧ _))

/-- A linear map that keeps the columns with one bit keeps all. -/
theorem eq_self_of_keepsUnits {f : Column → Column} (hxor : ∀ a b, f (a.xor b) = (f a).xor (f b))
    (hzero : KeepsUnits f 0) (hbits : ∀ b ∈ singleBits, KeepsUnits f b) (c : Column) : f c = c := by
  have hkeeps (x : UInt8) : KeepsUnits f x := by
    refine byte_of_bits (fun a b ha hb => ?_) hzero hbits x
    have hsum : (⟨a ^^^ b, 0, 0, 0⟩ : Column) = Column.xor ⟨a, 0, 0, 0⟩ ⟨b, 0, 0, 0⟩ ∧
        (⟨0, a ^^^ b, 0, 0⟩ : Column) = Column.xor ⟨0, a, 0, 0⟩ ⟨0, b, 0, 0⟩ ∧
        (⟨0, 0, a ^^^ b, 0⟩ : Column) = Column.xor ⟨0, 0, a, 0⟩ ⟨0, 0, b, 0⟩ ∧
        (⟨0, 0, 0, a ^^^ b⟩ : Column) = Column.xor ⟨0, 0, 0, a⟩ ⟨0, 0, 0, b⟩ := by
      simp [Column.xor]
    obtain ⟨h₀, h₁, h₂, h₃⟩ := hsum
    unfold KeepsUnits
    rw [h₀, h₁, h₂, h₃, hxor, hxor, hxor, hxor, ha.1, hb.1, ha.2.1, hb.2.1, ha.2.2.1, hb.2.2.1, ha.2.2.2,
      hb.2.2.2]
    exact ⟨rfl, rfl, rfl, rfl⟩
  rw [c.eq_units]
  simp only [hxor]
  rw [(hkeeps c.r0).1, (hkeeps c.r1).2.1, (hkeeps c.r2).2.2.1, (hkeeps c.r3).2.2.2]

theorem invMixColumn_mixColumn (c : Column) : invMixColumn (mixColumn c) = c :=
  eq_self_of_keepsUnits (f := fun c => invMixColumn (mixColumn c))
    (fun a b => by rw [mixColumn_xor, invMixColumn_xor]) (by decide +kernel) (by decide +kernel) c

theorem mixColumn_invMixColumn (c : Column) : mixColumn (invMixColumn c) = c :=
  eq_self_of_keepsUnits (f := fun c => mixColumn (invMixColumn c))
    (fun a b => by rw [invMixColumn_xor, mixColumn_xor]) (by decide +kernel) (by decide +kernel) c

section Steps

variable (s : State) (rk : RoundKey) (round : Nat)

@[simp] theorem invShiftRows_shiftRows : invShiftRows (shiftRows s) = s := rfl
@[simp] theorem shiftRows_invShiftRows : shiftRows (invShiftRows s) = s := rfl

@[simp] theorem invSubBytes_subBytes : invSubBytes (subBytes s) = s := by
  simp only [invSubBytes, subBytes, State.map, Column.map, getSBoxInvert_getSBoxValue]

@[simp] theorem subBytes_invSubBytes : subBytes (invSubBytes s) = s := by
  simp only [invSubBytes, subBytes, State.map, Column.map, getSBoxValue_getSBoxInvert]

@[simp] theorem invMixColumns_mixColumns : invMixColumns (mixColumns s) = s := by
  simp only [invMixColumns, mixColumns, State.map, invMixColumn_mixColumn]

@[simp] theorem mixColumns_invMixColumns : mixColumns (invMixColumns s) = s := by
  simp only [invMixColumns, mixColumns, State.map, mixColumn_invMixColumn]

@[simp] theorem addRoundKey_addRoundKey : addRoundKey round (addRoundKey round s rk) rk = s := by
  simp only [addRoundKey, Column.xor, UInt8.xor_assoc, UInt8.xor_self, UInt8.xor_zero]

end Steps

/-- The inverse cipher undoes the cipher under any round keys. -/
theorem invCipher_cipher (rk : RoundKey) : Function.LeftInverse (invCipher rk) (cipher rk) := by
  intro s
  have hround (r : Nat) (z : State) :
      invCipherRound rk (shiftRows (subBytes (cipherRound rk z r))) r = shiftRows (subBytes z) := by
    simp [invCipherRound, cipherRound]
  have hrounds := BlockModes.foldl_reverse_undoes (fun z => shiftRows (subBytes z))
    (fun z r => hround z r) (List.range' 1 (nr - 1)) (addRoundKey 0 s rk)
  unfold invCipher cipher
  rw [addRoundKey_addRoundKey, hrounds]
  simp

theorem cipher_invCipher (rk : RoundKey) : Function.LeftInverse (cipher rk) (invCipher rk) := by
  intro s
  have hround (r : Nat) (z : State) :
      cipherRound rk (invSubBytes (invShiftRows (invCipherRound rk z r))) r
        = invSubBytes (invShiftRows z) := by
    simp [invCipherRound, cipherRound]
  have hrounds := BlockModes.foldl_reverse_undoes (fun z => invSubBytes (invShiftRows z))
    (fun z r => hround z r) (List.range' 1 (nr - 1)).reverse (addRoundKey nr s rk)
  rw [List.reverse_reverse] at hrounds
  unfold invCipher cipher
  rw [addRoundKey_addRoundKey, hrounds]
  simp

/-! ## Blocks -/

theorem State.ofBytes_toBytes (s : State) : State.ofBytes s.toBytes = s := rfl

theorem State.toBytes_ofBytes (b : Bytes 16) : (State.ofBytes b).toBytes = b := by
  have hlen : b.toList.length = 16 := b.toList_length
  refine Bytes.ext_toList (List.ext_getElem hlen.symm fun i h₁ h₂ => ?_)
  have hbyte (i : Nat) (hi : i < b.toList.length) : b.byte i = b.toList[i] := by
    rw [Bytes.byte, List.getD_eq_getElem?_getD, List.getElem?_eq_getElem hi, Option.getD_some]
  have hi : i < 16 := h₁
  interval_cases i
  all_goals exact hbyte _ h₂

/-- `Cipher` on a buffer of 16 bytes. -/
def cipherBlock (rk : RoundKey) (b : Bytes 16) : Bytes 16 := (cipher rk (State.ofBytes b)).toBytes

def invCipherBlock (rk : RoundKey) (b : Bytes 16) : Bytes 16 := (invCipher rk (State.ofBytes b)).toBytes

theorem invCipherBlock_cipherBlock (rk : RoundKey) :
    Function.LeftInverse (invCipherBlock rk) (cipherBlock rk) := by
  intro b
  rw [invCipherBlock, cipherBlock, State.ofBytes_toBytes, invCipher_cipher, State.toBytes_ofBytes]

theorem cipherBlock_invCipherBlock (rk : RoundKey) :
    Function.LeftInverse (cipherBlock rk) (invCipherBlock rk) := by
  intro b
  rw [invCipherBlock, cipherBlock, State.ofBytes_toBytes, cipher_invCipher, State.toBytes_ofBytes]

end Aes

open Aes

/-! ## Contexts -/

/-- `AES_ctx`. -/
structure AesCtx where
  roundKey : RoundKey
  iv : Bytes 16

/-- `AES_init_ctx_iv`. -/
def aesInitCtxIv (key : Bytes 32) (iv : Bytes 16) : AesCtx := ⟨keyExpansion key, iv⟩

/-- The block of the standard's example for AES-256. -/
example : cipherBlock (keyExpansion (Bytes.ofList 32 ((List.range 32).map UInt8.ofNat)))
    (Bytes.ofList 16 ((List.range 16).map fun i => UInt8.ofNat (0x11 * i)))
    = Bytes.ofList 16
      [0x8e, 0xa2, 0xb7, 0xca, 0x51, 0x67, 0x45, 0xbf, 0xea, 0xfc, 0x49, 0x90, 0x4b, 0x49, 0x60, 0x89] := by
  decide +kernel

/-! ## CBC -/

def xorWithIv (buf iv : Bytes 16) : Bytes 16 := ⟨List.zipWith (· ^^^ ·) buf.toList iv.toList, by simp⟩

theorem xorWithIv_xorWithIv (buf iv : Bytes 16) : xorWithIv (xorWithIv buf iv) iv = buf := by
  refine Bytes.ext_toList (List.ext_getElem (by simp [xorWithIv]) fun i h₁ h₂ => ?_)
  simp [xorWithIv, UInt8.xor_assoc]

/-- The loop of `AES_CBC_encrypt_buffer` over so many blocks, with `Iv`. -/
def cbcEncryptLoop (rk : RoundKey) : Nat → Bytes 16 → List UInt8 → List UInt8 × Bytes 16
  | 0, iv, buf => (buf, iv)
  | n + 1, iv, buf =>
    let block := cipherBlock rk (xorWithIv (Bytes.ofList 16 (buf.take 16)) iv)
    let rest := cbcEncryptLoop rk n block (buf.drop 16)
    (block.toList ++ rest.1, rest.2)

/-- The loop of `AES_CBC_decrypt_buffer`. -/
def cbcDecryptLoop (rk : RoundKey) : Nat → Bytes 16 → List UInt8 → List UInt8 × Bytes 16
  | 0, iv, buf => (buf, iv)
  | n + 1, iv, buf =>
    let storeNextIv := Bytes.ofList 16 (buf.take 16)
    let rest := cbcDecryptLoop rk n storeNextIv (buf.drop 16)
    ((xorWithIv (invCipherBlock rk storeNextIv) iv).toList ++ rest.1, rest.2)

/-- `AES_CBC_encrypt_buffer` of a buffer that is a whole number of blocks. -/
def aesCbcEncryptBuffer (ctx : AesCtx) (buf : List UInt8) : List UInt8 × AesCtx :=
  let r := cbcEncryptLoop ctx.roundKey ((buf.length + 15) / 16) ctx.iv buf
  (r.1, { ctx with iv := r.2 })

/-- `AES_CBC_decrypt_buffer`, likewise. -/
def aesCbcDecryptBuffer (ctx : AesCtx) (buf : List UInt8) : List UInt8 × AesCtx :=
  let r := cbcDecryptLoop ctx.roundKey ((buf.length + 15) / 16) ctx.iv buf
  (r.1, { ctx with iv := r.2 })

section Cbc

variable {rk : RoundKey} {iv : Bytes 16} {bs : List (Bytes 16)} {buf : List UInt8}

/-- The bytes of blocks. -/
def blockBytes (bs : List (Bytes 16)) : List UInt8 := bs.flatMap (·.toList)

theorem blockBytes_cons (b : Bytes 16) (bs : List (Bytes 16)) :
    blockBytes (b :: bs) = b.toList ++ blockBytes bs := rfl

@[simp] theorem length_blockBytes (bs : List (Bytes 16)) : (blockBytes bs).length = 16 * bs.length := by
  induction bs with
  | nil => rfl
  | cons b bs ih => rw [blockBytes_cons, List.length_append, ih, b.toList_length, List.length_cons]; omega

/-- A whole number of blocks. -/
theorem exists_blockBytes (h : 16 ∣ buf.length) : ∃ bs, buf = blockBytes bs := by
  obtain ⟨n, hn⟩ := h
  induction n generalizing buf with
  | zero => exact ⟨[], List.length_eq_zero_iff.mp hn⟩
  | succ n ih =>
    have hdrop : (buf.drop 16).length = 16 * n := by rw [List.length_drop]; omega
    obtain ⟨bs, hbs⟩ := ih hdrop
    refine ⟨Bytes.ofList 16 (buf.take 16) :: bs, ?_⟩
    rw [blockBytes_cons, Bytes.toList_ofList_of_length (by rw [List.length_take]; omega), ← hbs,
      List.take_append_drop]

theorem take_blockBytes_cons (b : Bytes 16) (bs : List (Bytes 16)) :
    Bytes.ofList 16 ((blockBytes (b :: bs)).take 16) = b ∧
      (blockBytes (b :: bs)).drop 16 = blockBytes bs := by
  rw [blockBytes_cons, List.take_left' b.toList_length, List.drop_left' b.toList_length, Bytes.ofList_toList]
  exact ⟨rfl, rfl⟩

theorem cbcEncryptLoop_eq : cbcEncryptLoop rk bs.length iv (blockBytes bs)
    = (blockBytes (BlockModes.cbcEncrypt xorWithIv (cipherBlock rk) iv bs).1,
      (BlockModes.cbcEncrypt xorWithIv (cipherBlock rk) iv bs).2) := by
  induction bs generalizing iv with
  | nil => rfl
  | cons b bs ih =>
    obtain ⟨hhead, htail⟩ := take_blockBytes_cons b bs
    simp only [List.length_cons, cbcEncryptLoop, hhead, htail, ih]
    rfl

theorem cbcDecryptLoop_eq : cbcDecryptLoop rk bs.length iv (blockBytes bs)
    = (blockBytes (BlockModes.cbcDecrypt xorWithIv (invCipherBlock rk) iv bs).1,
      (BlockModes.cbcDecrypt xorWithIv (invCipherBlock rk) iv bs).2) := by
  induction bs generalizing iv with
  | nil => rfl
  | cons b bs ih =>
    obtain ⟨hhead, htail⟩ := take_blockBytes_cons b bs
    simp only [List.length_cons, cbcDecryptLoop, hhead, htail, ih]
    rfl

theorem aesCbcEncryptBuffer_blocks (ctx : AesCtx) (bs : List (Bytes 16)) :
    aesCbcEncryptBuffer ctx (blockBytes bs)
    = (blockBytes (BlockModes.cbcEncrypt xorWithIv (cipherBlock ctx.roundKey) ctx.iv bs).1,
      { ctx with iv := (BlockModes.cbcEncrypt xorWithIv (cipherBlock ctx.roundKey) ctx.iv bs).2 }) := by
  have hcount : ((blockBytes bs).length + 15) / 16 = bs.length := by rw [length_blockBytes]; omega
  unfold aesCbcEncryptBuffer
  rw [hcount, cbcEncryptLoop_eq]

theorem aesCbcDecryptBuffer_blocks (ctx : AesCtx) (bs : List (Bytes 16)) :
    aesCbcDecryptBuffer ctx (blockBytes bs)
    = (blockBytes (BlockModes.cbcDecrypt xorWithIv (invCipherBlock ctx.roundKey) ctx.iv bs).1,
      { ctx with iv := (BlockModes.cbcDecrypt xorWithIv (invCipherBlock ctx.roundKey) ctx.iv bs).2 }) := by
  have hcount : ((blockBytes bs).length + 15) / 16 = bs.length := by rw [length_blockBytes]; omega
  unfold aesCbcDecryptBuffer
  rw [hcount, cbcDecryptLoop_eq]

/-- Decryption restores a buffer, and leaves the context as encryption left it. -/
theorem aesCbcDecryptBuffer_aesCbcEncryptBuffer (ctx : AesCtx) (h : 16 ∣ buf.length) :
    aesCbcDecryptBuffer ctx (aesCbcEncryptBuffer ctx buf).1 = (buf, (aesCbcEncryptBuffer ctx buf).2) := by
  obtain ⟨bs, rfl⟩ := exists_blockBytes h
  rw [aesCbcEncryptBuffer_blocks, aesCbcDecryptBuffer_blocks,
    BlockModes.cbcDecrypt_cbcEncrypt xorWithIv_xorWithIv (invCipherBlock_cipherBlock _)]

theorem aesCbcEncryptBuffer_aesCbcDecryptBuffer (ctx : AesCtx) (h : 16 ∣ buf.length) :
    aesCbcEncryptBuffer ctx (aesCbcDecryptBuffer ctx buf).1 = (buf, (aesCbcDecryptBuffer ctx buf).2) := by
  obtain ⟨bs, rfl⟩ := exists_blockBytes h
  rw [aesCbcDecryptBuffer_blocks, aesCbcEncryptBuffer_blocks,
    BlockModes.cbcEncrypt_cbcDecrypt xorWithIv_xorWithIv (cipherBlock_invCipherBlock _)]

theorem length_aesCbcEncryptBuffer (ctx : AesCtx) (h : 16 ∣ buf.length) :
    (aesCbcEncryptBuffer ctx buf).1.length = buf.length := by
  obtain ⟨bs, rfl⟩ := exists_blockBytes h
  rw [aesCbcEncryptBuffer_blocks, length_blockBytes, length_blockBytes, BlockModes.length_cbcEncrypt]

theorem length_aesCbcDecryptBuffer (ctx : AesCtx) (h : 16 ∣ buf.length) :
    (aesCbcDecryptBuffer ctx buf).1.length = buf.length := by
  obtain ⟨bs, rfl⟩ := exists_blockBytes h
  rw [aesCbcDecryptBuffer_blocks, length_blockBytes, length_blockBytes, BlockModes.length_cbcDecrypt]

end Cbc

/-! ## CTR -/

/-- The loop that increments `Iv`: from this many bytes on downwards. -/
def incrementIv (iv : Bytes 16) : Nat → Bytes 16
  | 0 => iv
  | bi + 1 =>
    if iv.byte bi = 255 then incrementIv (iv.patch bi [0]) bi
    else iv.patch bi [iv.byte bi + 1]

/-- What the loop of `AES_CTR_xcrypt_buffer` carries. -/
structure CtrState where
  iv : Bytes 16
  buffer : Bytes 16
  bi : Nat

def ctrByte (rk : RoundKey) (s : CtrState) (b : UInt8) : UInt8 × CtrState :=
  let s := if s.bi = 16 then { iv := incrementIv s.iv 16, buffer := cipherBlock rk s.iv, bi := 0 } else s
  (b ^^^ s.buffer.byte s.bi, { s with bi := s.bi + 1 })

def ctrLoop (rk : RoundKey) : CtrState → List UInt8 → List UInt8 × CtrState
  | s, [] => ([], s)
  | s, b :: bs =>
    let rest := ctrLoop rk (ctrByte rk s b).2 bs
    ((ctrByte rk s b).1 :: rest.1, rest.2)

/-- `AES_CTR_xcrypt_buffer`.  The loop writes the block of the keystream before it reads it. -/
def aesCtrXcryptBuffer (ctx : AesCtx) (buf : List UInt8) : List UInt8 × AesCtx :=
  let r := ctrLoop ctx.roundKey ⟨ctx.iv, Bytes.zero 16, 16⟩ buf
  (r.1, { ctx with iv := r.2.iv })

section Ctr

open BlockSource (item)

variable {rk : RoundKey} {iv : Bytes 16} {s : CtrState} {p : Nat}

def nextIv (iv : Bytes 16) : Bytes 16 := incrementIv iv 16

/-- The byte of the keystream at a position. -/
def keystream (rk : RoundKey) (iv : Bytes 16) (p : Nat) : UInt8 :=
  item nextIv (fun iv i => (cipherBlock rk iv).byte i) 16 iv p

/-- The state of the loop in front of the byte at position `p`. -/
structure CtrState.At (rk : RoundKey) (start : Bytes 16) (p : Nat) (s : CtrState) : Prop where
  iv : s.iv = nextIv^[(p + 15) / 16] start
  full : p % 16 = 0 → s.bi = 16
  partly : p % 16 ≠ 0 → s.bi = p % 16 ∧ s.buffer = cipherBlock rk (nextIv^[p / 16] start)

theorem ctrByte_at (h : s.At rk iv p) (b : UInt8) :
    (ctrByte rk s b).1 = b ^^^ keystream rk iv p ∧ (ctrByte rk s b).2.At rk iv (p + 1) := by
  unfold ctrByte keystream item
  by_cases hp : p % 16 = 0
  · have hcount : (p + 15) / 16 = p / 16 := by omega
    have hiv := h.iv
    rw [hcount] at hiv
    rw [if_pos (h.full hp)]
    refine ⟨by rw [hp, hiv], ⟨?_, fun h' => by omega, fun _ => ⟨by simp only; omega, ?_⟩⟩⟩
    · show nextIv s.iv = _
      rw [hiv, ← Function.iterate_succ_apply' nextIv, show (p + 1 + 15) / 16 = p / 16 + 1 by omega]
    · show cipherBlock rk s.iv = _
      rw [hiv, show (p + 1) / 16 = p / 16 by omega]
  · obtain ⟨hbi, hbuffer⟩ := h.partly hp
    rw [if_neg (by omega)]
    refine ⟨by simp only [hbi, hbuffer],
      ⟨?_, fun _ => by simp only; omega, fun _ => ⟨by simp only; omega, ?_⟩⟩⟩
    · show s.iv = _
      rw [h.iv, show (p + 1 + 15) / 16 = (p + 15) / 16 by omega]
    · show s.buffer = _
      rw [hbuffer, show (p + 1) / 16 = p / 16 by omega]

theorem ctrLoop_at (h : s.At rk iv p) (buf : List UInt8) :
    (ctrLoop rk s buf).1 = BlockModes.masked (· ^^^ ·) (fun i => keystream rk iv (p + i)) buf ∧
      (ctrLoop rk s buf).2.At rk iv (p + buf.length) := by
  induction buf generalizing s p with
  | nil => exact ⟨rfl, h⟩
  | cons b buf ih =>
    obtain ⟨hbyte, hnext⟩ := ctrByte_at h b
    obtain ⟨hrest, hend⟩ := ih hnext
    constructor
    · show (ctrByte rk s b).1 :: (ctrLoop rk (ctrByte rk s b).2 buf).1 = _
      rw [hbyte, hrest, BlockModes.masked_cons]
      simp only [Nat.add_zero, Nat.add_assoc, Nat.add_comm 1]
    · rw [List.length_cons, Nat.add_comm buf.length 1, ← Nat.add_assoc]
      exact hend

/-- A buffer is mixed with the keystream of the context. -/
theorem aesCtrXcryptBuffer_eq (ctx : AesCtx) (buf : List UInt8) : aesCtrXcryptBuffer ctx buf
    = (BlockModes.masked (· ^^^ ·) (keystream ctx.roundKey ctx.iv) buf,
      { ctx with iv := nextIv^[(buf.length + 15) / 16] ctx.iv }) := by
  have hstart : CtrState.At ctx.roundKey ctx.iv 0 ⟨ctx.iv, Bytes.zero 16, 16⟩ :=
    ⟨rfl, fun _ => rfl, fun h => absurd rfl h⟩
  obtain ⟨hbytes, hend⟩ := ctrLoop_at hstart buf
  unfold aesCtrXcryptBuffer
  simp only [hbytes, hend.iv, Nat.zero_add]

theorem aesCtrXcryptBuffer_undoes (ctx : AesCtx) (buf : List UInt8) :
    (aesCtrXcryptBuffer ctx (aesCtrXcryptBuffer ctx buf).1).1 = buf := by
  rw [aesCtrXcryptBuffer_eq, aesCtrXcryptBuffer_eq]
  exact BlockModes.masked_masked (fun a k => by rw [UInt8.xor_assoc, UInt8.xor_self, UInt8.xor_zero]) buf

/-! ### Counters -/

open Der (unsigned)

theorem unsigned_append (l r : List UInt8) :
    unsigned (l ++ r) = unsigned l * 256 ^ r.length + unsigned r := by
  unfold unsigned
  rw [List.map_append, List.reverse_append, Nat.ofDigits_append, List.length_reverse, List.length_map]
  ring

/-- One digit is replaced. -/
theorem unsigned_patch (b : Bytes 16) {i : Nat} (hi : i < 16) (x : UInt8) :
    unsigned (b.patch i [x]).toList + (b.byte i).toNat * 256 ^ (15 - i)
      = unsigned b.toList + x.toNat * 256 ^ (15 - i) := by
  have hlen := b.toList_length
  have hlt : i < b.toList.length := by omega
  have hbyte : b.byte i = b.toList[i] := by
    rw [Bytes.byte, List.getD_eq_getElem?_getD, List.getElem?_eq_getElem hlt, Option.getD_some]
  have hrest : (b.toList.drop (i + 1)).length = 15 - i := by rw [List.length_drop]; omega
  have hsplit : b.toList = b.toList.take i ++ (b.byte i :: b.toList.drop (i + 1)) := by
    rw [hbyte, ← List.drop_eq_getElem_cons hlt, List.take_append_drop]
  rw [Bytes.toList_patch_of_le b i [x] hi, List.append_assoc, List.singleton_append, List.length_singleton]
  conv_rhs => rw [hsplit]
  rw [unsigned_append, unsigned_append, Der.unsigned_cons, Der.unsigned_cons, List.length_cons,
    List.length_cons, hrest]
  ring

/-- The loop adds one where it starts. -/
theorem unsigned_incrementIv (iv : Bytes 16) {n : Nat} (hn : n ≤ 16) :
    unsigned (incrementIv iv n).toList % 2 ^ 128 = (unsigned iv.toList + 256 ^ (16 - n)) % 2 ^ 128 := by
  induction n generalizing iv with
  | zero =>
    show _ = (_ + 256 ^ 16) % 2 ^ 128
    rw [show (256 : Nat) ^ 16 = 2 ^ 128 by norm_num, Nat.add_mod_right]
    rfl
  | succ i ih =>
    have hi : i < 16 := hn
    have hpow : 256 ^ (16 - i) = 256 * 256 ^ (15 - i) := by
      rw [← pow_succ', show 15 - i + 1 = 16 - i by omega]
    rw [show 16 - (i + 1) = 15 - i by omega, incrementIv]
    by_cases hfull : iv.byte i = 255
    · have hpatch := unsigned_patch iv hi 0
      have h255 : (255 : UInt8).toNat = 255 := rfl
      have h0 : (0 : UInt8).toNat = 0 := rfl
      rw [hfull, h255, h0] at hpatch
      rw [if_pos hfull, ih _ hi.le, hpow]
      congr 1
      omega
    · have hpatch := unsigned_patch iv hi (iv.byte i + 1)
      have hne : (iv.byte i).toNat ≠ 255 := fun h => hfull (UInt8.toNat_inj.mp h)
      have hlt := (iv.byte i).toNat_lt
      have hadd : (iv.byte i + 1).toNat = (iv.byte i).toNat + 1 := by
        rw [UInt8.toNat_add]
        exact Nat.mod_eq_of_lt (by show (iv.byte i).toNat + 1 < 2 ^ 8; omega)
      rw [hadd, Nat.add_mul] at hpatch
      rw [if_neg hfull]
      congr 1
      omega

/-- The counter is a big-endian number of 128 bits. -/
theorem unsigned_nextIv (iv : Bytes 16) :
    unsigned (nextIv iv).toList = (unsigned iv.toList + 1) % 2 ^ 128 := by
  have hlt : unsigned (nextIv iv).toList < 2 ^ 128 := by
    have h := Der.unsigned_lt (nextIv iv).toList
    rw [(nextIv iv).toList_length] at h
    exact h.trans_eq (by norm_num)
  rw [← Nat.mod_eq_of_lt hlt]
  exact unsigned_incrementIv iv le_rfl

theorem unsigned_iterate_nextIv (iv : Bytes 16) (k : Nat) :
    unsigned (nextIv^[k] iv).toList = (unsigned iv.toList + k) % 2 ^ 128 := by
  induction k with
  | zero =>
    have h := Der.unsigned_lt iv.toList
    rw [iv.toList_length] at h
    exact (Nat.mod_eq_of_lt (h.trans_eq (by norm_num))).symm
  | succ k ih => rw [Function.iterate_succ_apply', unsigned_nextIv, ih, Nat.mod_add_mod, Nat.add_assoc]

/-- **Counter mode.**  Every buffer, of any length and behind any earlier use of the context, is mixed with
the encrypted counters in turn; the counter goes on with the next block. -/
theorem aesCtr_masks (ctx : AesCtx) (buf : List UInt8) : ∃ counter : Nat → Bytes 16,
    (∀ k, unsigned (counter k).toList = (unsigned ctx.iv.toList + k) % 2 ^ 128) ∧
    (aesCtrXcryptBuffer ctx buf).1
      = buf.mapIdx (fun i b => b ^^^ (cipherBlock ctx.roundKey (counter (i / 16))).byte (i % 16)) ∧
    (aesCtrXcryptBuffer ctx buf).2 = { ctx with iv := counter ((buf.length + 15) / 16) } := by
  refine ⟨fun k => nextIv^[k] ctx.iv, unsigned_iterate_nextIv ctx.iv, ?_, ?_⟩
  · rw [aesCtrXcryptBuffer_eq]
    rfl
  · rw [aesCtrXcryptBuffer_eq]

end Ctr

/-! ## The ciphers of the model -/

/-- AES in CBC mode undoes itself on whole blocks. -/
def Primitives.CbcUndoes (C : Primitives) : Prop :=
  ∀ (k : Bytes 32) (iv : Bytes 16) (n : Nat) (b : Bytes n), 16 ∣ n →
    C.aesCbcDecrypt k iv (C.aesCbcEncrypt k iv b) = b ∧ C.aesCbcEncrypt k iv (C.aesCbcDecrypt k iv b) = b

/-- The primitives with `aes.c` for their ciphers. -/
def Primitives.withAes (C : Primitives) : Primitives := { C with
  aesCtr := fun key iv {n} b => Bytes.ofList n (aesCtrXcryptBuffer (aesInitCtxIv key iv) b.toList).1
  aesCbcEncrypt := fun key iv {n} b => Bytes.ofList n (aesCbcEncryptBuffer (aesInitCtxIv key iv) b.toList).1
  aesCbcDecrypt := fun key iv {n} b => Bytes.ofList n (aesCbcDecryptBuffer (aesInitCtxIv key iv) b.toList).1 }

theorem withAes_ctrUndoes (C : Primitives) : C.withAes.CtrUndoes := by
  intro k iv n b
  have hlen : (aesCtrXcryptBuffer (aesInitCtxIv k iv) b.toList).1.length = n := by
    rw [aesCtrXcryptBuffer_eq, BlockModes.length_masked, b.toList_length]
  show Bytes.ofList n (aesCtrXcryptBuffer _ (Bytes.ofList n (aesCtrXcryptBuffer _ b.toList).1).toList).1 = b
  rw [Bytes.toList_ofList_of_length hlen, aesCtrXcryptBuffer_undoes, Bytes.ofList_toList]

theorem withAes_cbcUndoes (C : Primitives) : C.withAes.CbcUndoes := by
  intro k iv n b hn
  have hb : 16 ∣ b.toList.length := by rwa [b.toList_length]
  have henc : (aesCbcEncryptBuffer (aesInitCtxIv k iv) b.toList).1.length = n := by
    rw [length_aesCbcEncryptBuffer _ hb, b.toList_length]
  have hdec : (aesCbcDecryptBuffer (aesInitCtxIv k iv) b.toList).1.length = n := by
    rw [length_aesCbcDecryptBuffer _ hb, b.toList_length]
  constructor
  · show Bytes.ofList n
      (aesCbcDecryptBuffer _ (Bytes.ofList n (aesCbcEncryptBuffer _ b.toList).1).toList).1 = b
    rw [Bytes.toList_ofList_of_length henc, aesCbcDecryptBuffer_aesCbcEncryptBuffer _ hb, Bytes.ofList_toList]
  · show Bytes.ofList n
      (aesCbcEncryptBuffer _ (Bytes.ofList n (aesCbcDecryptBuffer _ b.toList).1).toList).1 = b
    rw [Bytes.toList_ofList_of_length hdec, aesCbcEncryptBuffer_aesCbcDecryptBuffer _ hb, Bytes.ofList_toList]

/-- **The cipher undoes itself.**  With `aes.c` the ciphers are what the model takes them for. -/
theorem aes_undoes (C : Primitives) : C.withAes.CtrUndoes ∧ C.withAes.CbcUndoes :=
  ⟨withAes_ctrUndoes C, withAes_cbcUndoes C⟩

end TkeyFido2
