import TkeyFido2.Lib.Memory

/-!
# Command APDUs

`apdu_decode` of `apdu.c`, against the command bodies of ISO 7816-4.  The cases are recognised one
after the other by the length alone, a later match overwrites an earlier one, and for the extended
forms the length is compared with the two bytes behind the zero before any case is looked at.
-/

namespace TkeyFido2

open Memory

/-! ## The decoder -/

def swWrongLength : UInt16 := 0x6700
def swCondUseNotSatisfied : UInt16 := 0x6985

/-- `APDU_STRUCT`; the pointer `data` as an offset into the message. -/
structure ApduStruct where
  cla : UInt8
  ins : UInt8
  p1 : UInt8
  p2 : UInt8
  lc : Nat := 0
  data : Option Nat := none
  le : Nat := 0
  extendedApdu : Bool := false
  caseType : UInt8 := 0x00
deriving DecidableEq

namespace ApduStruct

variable (data : Nat → UInt8) (len : Nat)

/-- The header, with the chaining bit masked. -/
def ofHeader : ApduStruct := ⟨data 0 &&& 0xef, data 1, data 2, data 3, 0, none, 0, false, 0x00⟩

def b0 : Nat := (data 4).toNat

/-- `extlen`. -/
def extlen : Nat := (data 5).toNat * 256 + (data 6).toNat

/-- The two bytes at `i`, where zero means the largest length. -/
def leAt (i : Nat) : Nat :=
  if (data i).toNat * 256 + (data (i + 1)).toNat = 0 then 0x10000
  else (data i).toNat * 256 + (data (i + 1)).toNat

/-- A single byte, where zero means 256. -/
def shortLe (b : Nat) : Nat := if b = 0 then 0x100 else b

/-- Cases 1, 2S, 3S and 4S. -/
def decodeShort (apdu : ApduStruct) : ApduStruct :=
  let apdu := if len = 4 then { apdu with caseType := 0x01 } else apdu
  let apdu := if len = 5 then { apdu with caseType := 0x02, le := shortLe (b0 data) } else apdu
  let apdu := if len = 5 + b0 data ∧ b0 data ≠ 0 then { apdu with caseType := 0x03, lc := b0 data } else apdu
  if len = 5 + b0 data + 1 ∧ b0 data ≠ 0 then
    { apdu with caseType := 0x04, lc := b0 data, le := shortLe (data (len - 1)).toNat }
  else apdu

/-- Cases 2E, 3E and both forms of 4E. -/
def decodeExtended (apdu : ApduStruct) : ApduStruct :=
  let apdu :=
    if len = 7 then { apdu with caseType := 0x12, extendedApdu := true, le := leAt data 5 } else apdu
  let apdu :=
    if len = 7 + extlen data then { apdu with caseType := 0x13, extendedApdu := true, lc := extlen data }
    else apdu
  let apdu :=
    if len = 7 + extlen data + 2 then
      { apdu with caseType := 0x14, extendedApdu := true, lc := extlen data, le := leAt data (len - 2) }
    else apdu
  if len = 7 + extlen data + 3 ∧ data (len - 3) = 0 then
    { apdu with caseType := 0x24, extendedApdu := true, lc := extlen data, le := leAt data (len - 2) }
  else apdu

/-- The end of `apdu_decode`: the case must be known, and the data stands behind the header. -/
def finish (apdu : ApduStruct) : UInt16 × ApduStruct :=
  if apdu.caseType = 0 then (swCondUseNotSatisfied, apdu)
  else if apdu.lc ≠ 0 then (0, { apdu with data := some (if apdu.extendedApdu then 7 else 5) })
  else (0, apdu)

end ApduStruct

open ApduStruct

/-- `apdu_decode`: the return value and the filled structure.  The header is read whatever `len` is. -/
def apduDecode (data : Nat → UInt8) (len : Nat) : UInt16 × ApduStruct :=
  let apdu := decodeShort data len (ofHeader data)
  if 7 ≤ len ∧ b0 data = 0 then
    if len - 7 < extlen data then (swWrongLength, apdu) else (decodeExtended data len apdu).finish
  else if 5 < len ∧ len - 5 < b0 data then (swWrongLength, apdu)
  else apdu.finish

/-! ## Command bodies -/

/-- An expected length from one to `max`, which is encoded as zero. -/
abbrev ExpectedLength (max : Nat) := { n : Nat // 0 < n ∧ n ≤ max }

/-- Command data, never empty. -/
abbrev CommandData (max : Nat) := { d : List UInt8 // 0 < d.length ∧ d.length ≤ max }

structure CommandHeader where
  cla : UInt8
  ins : UInt8
  p1 : UInt8
  p2 : UInt8

/-- The command bodies, in the short and in the extended form. -/
inductive CommandBody where
  | case1
  | case2S (le : ExpectedLength 0x100)
  | case3S (data : CommandData 0xff)
  | case4S (data : CommandData 0xff) (le : ExpectedLength 0x100)
  | case2E (le : ExpectedLength 0x10000)
  | case3E (data : CommandData 0xffff)
  | case4E (data : CommandData 0xffff) (le : ExpectedLength 0x10000)

namespace CommandBody

/-- A number in one byte. -/
def short (n : Nat) : List UInt8 := [UInt8.ofNat n]

/-- A number in two bytes, the high one first. -/
def twoBytes (n : Nat) : List UInt8 := [UInt8.ofNat (n / 256), UInt8.ofNat n]

def encode : CommandBody → List UInt8
  | case1 => []
  | case2S le => short le.1
  | case3S d => short d.1.length ++ d.1
  | case4S d le => short d.1.length ++ d.1 ++ short le.1
  | case2E le => 0 :: twoBytes le.1
  | case3E d => 0 :: twoBytes d.1.length ++ d.1
  | case4E d le => 0 :: twoBytes d.1.length ++ d.1 ++ twoBytes le.1

def caseType : CommandBody → UInt8
  | case1 => 0x01
  | case2S _ => 0x02
  | case3S _ => 0x03
  | case4S _ _ => 0x04
  | case2E _ => 0x12
  | case3E _ => 0x13
  | case4E _ _ => 0x14

def extended : CommandBody → Bool
  | case2E _ | case3E _ | case4E _ _ => true
  | _ => false

def lc : CommandBody → Nat
  | case3S d | case4S d _ => d.1.length
  | case3E d | case4E d _ => d.1.length
  | _ => 0

def le : CommandBody → Nat
  | case2S le | case4S _ le => le.1
  | case2E le | case4E _ le => le.1
  | _ => 0

/-- The command data stands behind a length of one or of three bytes. -/
def position : CommandBody → Option Nat
  | case3S _ | case4S _ _ => some 5
  | case3E _ | case4E _ _ => some 7
  | _ => none

/-- The command data. -/
def commandData : CommandBody → List UInt8
  | case3S d | case4S d _ => d.1
  | case3E d | case4E d _ => d.1
  | _ => []

/-- An extended body without data. -/
def IsCase2E : CommandBody → Prop
  | case2E _ => True
  | _ => False

end CommandBody

/-- A command as it is sent. -/
def encodeCommand (h : CommandHeader) (body : CommandBody) : List UInt8 :=
  [h.cla, h.ins, h.p1, h.p2] ++ body.encode

/-- What the command says, the class byte without the chaining bit. -/
def commandApdu (h : CommandHeader) (body : CommandBody) : ApduStruct :=
  ⟨h.cla &&& 0xef, h.ins, h.p1, h.p2, body.lc, body.position, body.le, body.extended, body.caseType⟩

/-- The bytes of a command decode to that command, whatever stands behind them. -/
def DecodesBack (h : CommandHeader) (body : CommandBody) : Prop :=
  ∀ data : Nat → UInt8, Holds data 0 (encodeCommand h body) →
    apduDecode data (encodeCommand h body).length = (0, commandApdu h body) ∧
      ∀ off, body.position = some off → Holds data off body.commandData

/-- There is no data, or it stands inside the `len` bytes. -/
def ApduStruct.DataInside (apdu : ApduStruct) (len : Nat) : Prop :=
  (apdu.data = none ∧ apdu.lc = 0) ∨ ∃ off, apdu.data = some off ∧ off + apdu.lc ≤ len

/-! ## Lengths in one and in two bytes -/

theorem shortLe_short {n : Nat} (hpos : 0 < n) (hmax : n ≤ 0x100) : shortLe (UInt8.ofNat n).toNat = n := by
  rw [UInt8.toNat_ofNat']
  unfold shortLe
  split <;> omega

theorem toNat_short {n : Nat} (h : n ≤ 0xff) : (UInt8.ofNat n).toNat = n := by
  rw [UInt8.toNat_ofNat']
  omega

theorem toNat_twoBytes (n : Nat) :
    (UInt8.ofNat (n / 256)).toNat * 256 + (UInt8.ofNat n).toNat = n % 65536 := by
  rw [UInt8.toNat_ofNat', UInt8.toNat_ofNat']
  omega

theorem extlen_of_holds {data : Nat → UInt8} {n : Nat} (h : Holds data 5 (CommandBody.twoBytes n)) :
    extlen data = n % 65536 := by
  obtain ⟨h5, h6, -⟩ := h
  rw [extlen, h5, h6, toNat_twoBytes]

theorem leAt_of_holds {data : Nat → UInt8} {i n : Nat} (hpos : 0 < n) (hmax : n ≤ 0x10000)
    (h : Holds data i (CommandBody.twoBytes n)) : leAt data i = n := by
  obtain ⟨hhi, hlo, -⟩ := h
  rw [leAt, hhi, hlo, toNat_twoBytes]
  split <;> omega

/-! ## The short forms -/

theorem finish_of_data {apdu : ApduStruct} (hcase : apdu.caseType ≠ 0) (hlc : apdu.lc ≠ 0) :
    apdu.finish = (0, { apdu with data := some (if apdu.extendedApdu then 7 else 5) }) := by
  unfold finish
  rw [if_neg hcase, if_pos hlc]

section Short

variable {data : Nat → UInt8} {len : Nat}

/-- Without an extended length the cascade decides, unless the data is cut. -/
theorem apduDecode_of_short (hext : ¬ (7 ≤ len ∧ b0 data = 0)) (hlen : ¬ (5 < len ∧ len - 5 < b0 data)) :
    apduDecode data len = (decodeShort data len (ofHeader data)).finish := by
  unfold apduDecode
  rw [if_neg hext, if_neg hlen]

theorem apduDecode_case1 : apduDecode data 4 = (0, { ofHeader data with caseType := 0x01 }) := by
  rw [apduDecode_of_short (by omega) (by omega)]
  simp only [decodeShort, if_pos, if_neg (show ¬ (4 = 5) by omega),
    if_neg (show ¬ (4 = 5 + b0 data ∧ b0 data ≠ 0) by omega),
    if_neg (show ¬ (4 = 5 + b0 data + 1 ∧ b0 data ≠ 0) by omega)]
  rfl

theorem apduDecode_case2S :
    apduDecode data 5 = (0, { ofHeader data with caseType := 0x02, le := shortLe (b0 data) }) := by
  rw [apduDecode_of_short (by omega) (by omega)]
  simp only [decodeShort, if_pos, if_neg (show ¬ (5 = 4) by omega),
    if_neg (show ¬ (5 = 5 + b0 data ∧ b0 data ≠ 0) by omega),
    if_neg (show ¬ (5 = 5 + b0 data + 1 ∧ b0 data ≠ 0) by omega)]
  rfl

theorem apduDecode_case3S (hb : b0 data ≠ 0) :
    apduDecode data (5 + b0 data)
      = (0, { ofHeader data with caseType := 0x03, lc := b0 data, data := some 5 }) := by
  rw [apduDecode_of_short (by omega) (by omega)]
  simp only [decodeShort, if_neg (show ¬ (5 + b0 data = 4) by omega),
    if_neg (show ¬ (5 + b0 data = 5) by omega), true_and, if_pos hb,
    if_neg (show ¬ (5 + b0 data = 5 + b0 data + 1 ∧ b0 data ≠ 0) by omega)]
  exact finish_of_data (show (0x03 : UInt8) ≠ 0 by decide) hb

theorem apduDecode_case4S (hb : b0 data ≠ 0) :
    apduDecode data (5 + b0 data + 1)
      = (0, { ofHeader data with
          caseType := 0x04, lc := b0 data, le := shortLe (data (5 + b0 data)).toNat, data := some 5 }) := by
  rw [apduDecode_of_short (by omega) (by omega)]
  simp only [decodeShort, if_neg (show ¬ (5 + b0 data + 1 = 4) by omega),
    if_neg (show ¬ (5 + b0 data + 1 = 5) by omega), true_and, if_pos hb,
    if_neg (show ¬ (5 + b0 data + 1 = 5 + b0 data ∧ b0 data ≠ 0) by omega)]
  exact finish_of_data (show (0x04 : UInt8) ≠ 0 by decide) hb

end Short

/-! ## The extended forms -/

section Extended

variable {data : Nat → UInt8} {len : Nat}

/-- Behind the zero the short cases leave nothing. -/
theorem decodeShort_of_zero (hlen : 7 ≤ len) (hb : b0 data = 0) (apdu : ApduStruct) :
    decodeShort data len apdu = apdu := by
  simp only [decodeShort, if_neg (show ¬ (len = 4) by omega), if_neg (show ¬ (len = 5) by omega),
    if_neg (show ¬ (len = 5 + b0 data ∧ b0 data ≠ 0) by omega),
    if_neg (show ¬ (len = 5 + b0 data + 1 ∧ b0 data ≠ 0) by omega)]

theorem apduDecode_of_extended (hlen : 7 ≤ len) (hb : b0 data = 0) (hext : extlen data ≤ len - 7) :
    apduDecode data len = (decodeExtended data len (ofHeader data)).finish := by
  unfold apduDecode
  rw [if_pos ⟨hlen, hb⟩, if_neg (by omega), decodeShort_of_zero hlen hb]

theorem apduDecode_case3E (hb : b0 data = 0) (hext : extlen data ≠ 0) :
    apduDecode data (7 + extlen data)
      = (0, { ofHeader data with
          caseType := 0x13, extendedApdu := true, lc := extlen data, data := some 7 }) := by
  rw [apduDecode_of_extended (by omega) hb (by omega)]
  simp only [decodeExtended, if_neg (show ¬ (7 + extlen data = 7) by omega), if_pos,
    if_neg (show ¬ (7 + extlen data = 7 + extlen data + 2) by omega),
    if_neg (show ¬ (7 + extlen data = 7 + extlen data + 3 ∧ data (7 + extlen data - 3) = 0) by omega)]
  exact finish_of_data (show (0x13 : UInt8) ≠ 0 by decide) hext

theorem apduDecode_case4E (hb : b0 data = 0) (hext : extlen data ≠ 0) :
    apduDecode data (7 + extlen data + 2)
      = (0, { ofHeader data with
          caseType := 0x14, extendedApdu := true, lc := extlen data, le := leAt data (7 + extlen data),
          data := some 7 }) := by
  rw [apduDecode_of_extended (by omega) hb (by omega)]
  simp only [decodeExtended, if_neg (show ¬ (7 + extlen data + 2 = 7) by omega), if_pos,
    if_neg (show ¬ (7 + extlen data + 2 = 7 + extlen data) by omega),
    if_neg (show ¬ (7 + extlen data + 2 = 7 + extlen data + 3 ∧ data (7 + extlen data + 2 - 3) = 0) by omega)]
  exact finish_of_data (show (0x14 : UInt8) ≠ 0 by decide) hext

/-- Seven bytes with a length that is not zero: the length is taken for that of missing data. -/
theorem apduDecode_case2E (hb : b0 data = 0) (hext : extlen data ≠ 0) :
    (apduDecode data 7).1 = swWrongLength := by
  unfold apduDecode
  rw [if_pos ⟨Nat.le_refl 7, hb⟩, if_pos (by omega)]

/-- Seven bytes with a zero length: case 3E without data comes after 2E. -/
theorem apduDecode_case2E_zero (hb : b0 data = 0) (hext : extlen data = 0) :
    (apduDecode data 7).2.caseType = 0x13 := by
  rw [apduDecode_of_extended (Nat.le_refl 7) hb (by omega)]
  simp only [decodeExtended, if_pos (show 7 = 7 + extlen data by omega), if_pos,
    if_neg (show ¬ (7 = 7 + extlen data + 2) by omega),
    if_neg (show ¬ (7 = 7 + extlen data + 3 ∧ data (7 - 3) = 0) by omega)]
  unfold finish
  rw [if_neg (show ¬ ((0x13 : UInt8) = 0) by decide), if_neg (fun h => h hext)]

end Extended

/-! ## Decoding undoes encoding -/

section Undo

variable {h : CommandHeader} {data : Nat → UInt8}

theorem ofHeader_of_holds {body : CommandBody} (hdata : Holds data 0 (encodeCommand h body)) :
    ofHeader data = ⟨h.cla &&& 0xef, h.ins, h.p1, h.p2, 0, none, 0, false, 0x00⟩ := by
  obtain ⟨⟨hcla, hins, hp1, hp2, -⟩, -⟩ := holds_append.mp hdata
  rw [ofHeader, hcla, hins, hp1, hp2]

theorem body_of_holds {body : CommandBody} (hdata : Holds data 0 (encodeCommand h body)) :
    Holds data 4 body.encode :=
  (holds_append.mp hdata).2

theorem case1_decodesBack : DecodesBack h .case1 := by
  intro data hdata
  refine ⟨?_, fun off hoff => by cases hoff⟩
  rw [show (encodeCommand h .case1).length = 4 from rfl, apduDecode_case1, ofHeader_of_holds hdata]
  rfl

theorem case2S_decodesBack (le : ExpectedLength 0x100) : DecodesBack h (.case2S le) := by
  intro data hdata
  refine ⟨?_, fun off hoff => by cases hoff⟩
  obtain ⟨hb, -⟩ := body_of_holds hdata
  rw [show (encodeCommand h (.case2S le)).length = 5 from rfl, apduDecode_case2S, ofHeader_of_holds hdata, b0,
    hb, shortLe_short le.2.1 le.2.2]
  rfl

theorem case3S_decodesBack (d : CommandData 0xff) : DecodesBack h (.case3S d) := by
  intro data hdata
  obtain ⟨⟨hb, -⟩, hd⟩ := holds_append.mp (body_of_holds hdata)
  have hb0 : b0 data = d.1.length := by rw [b0, hb, toNat_short d.2.2]
  refine ⟨?_, fun off hoff => ?_⟩
  · have hlen : (encodeCommand h (.case3S d)).length = 5 + b0 data := by
      rw [hb0, encodeCommand, CommandBody.encode, List.length_append, List.length_append]
      simp only [CommandBody.short, List.length_cons, List.length_nil]
      omega
    have hpos : b0 data ≠ 0 := by
      have := d.2.1
      omega
    rw [hlen, apduDecode_case3S hpos, ofHeader_of_holds hdata, hb0]
    rfl
  · obtain rfl := Option.some.inj hoff
    exact hd

theorem case4S_decodesBack (d : CommandData 0xff) (le : ExpectedLength 0x100) :
    DecodesBack h (.case4S d le) := by
  intro data hdata
  obtain ⟨hbd, hle, -⟩ := holds_append.mp (body_of_holds hdata)
  obtain ⟨⟨hb, -⟩, hd⟩ := holds_append.mp hbd
  have hb0 : b0 data = d.1.length := by rw [b0, hb, toNat_short d.2.2]
  have hlast : data (5 + b0 data) = UInt8.ofNat le.1 := by
    rw [← hle, hb0, List.length_append]
    simp only [CommandBody.short, List.length_cons, List.length_nil]
    congr 1
    omega
  refine ⟨?_, fun off hoff => ?_⟩
  · have hlen : (encodeCommand h (.case4S d le)).length = 5 + b0 data + 1 := by
      rw [hb0, encodeCommand, CommandBody.encode, List.length_append, List.length_append, List.length_append]
      simp only [CommandBody.short, List.length_cons, List.length_nil]
      omega
    have hpos : b0 data ≠ 0 := by
      have := d.2.1
      omega
    rw [hlen, apduDecode_case4S hpos, ofHeader_of_holds hdata, hlast, shortLe_short le.2.1 le.2.2, hb0]
    rfl
  · obtain rfl := Option.some.inj hoff
    exact hd

/-- A body that starts with a zero and two bytes of length. -/
theorem extended_of_holds {n : Nat} {rest : List UInt8}
    (hbody : Holds data 4 (0 :: CommandBody.twoBytes n ++ rest)) :
    b0 data = 0 ∧ extlen data = n % 65536 ∧ Holds data 7 rest := by
  obtain ⟨⟨hb, hlc⟩, hrest⟩ := holds_append.mp hbody
  exact ⟨by rw [b0, hb]; rfl, extlen_of_holds hlc, hrest⟩

theorem case3E_decodesBack (d : CommandData 0xffff) : DecodesBack h (.case3E d) := by
  intro data hdata
  obtain ⟨hb, hext, hd⟩ := extended_of_holds (body_of_holds hdata)
  have hlc : extlen data = d.1.length := by
    have := d.2.2
    omega
  refine ⟨?_, fun off hoff => ?_⟩
  · have hlen : (encodeCommand h (.case3E d)).length = 7 + extlen data := by
      rw [hlc, encodeCommand, CommandBody.encode, List.length_append, List.length_append]
      simp only [CommandBody.twoBytes, List.length_cons, List.length_nil]
      omega
    have hpos : extlen data ≠ 0 := by
      have := d.2.1
      omega
    rw [hlen, apduDecode_case3E hb hpos, ofHeader_of_holds hdata, hlc]
    rfl
  · obtain rfl := Option.some.inj hoff
    exact hd

theorem case4E_decodesBack (d : CommandData 0xffff) (le : ExpectedLength 0x10000) :
    DecodesBack h (.case4E d le) := by
  intro data hdata
  obtain ⟨hbd, hle⟩ := holds_append.mp (body_of_holds hdata)
  obtain ⟨hb, hext, hd⟩ := extended_of_holds hbd
  have hlc : extlen data = d.1.length := by
    have := d.2.2
    omega
  refine ⟨?_, fun off hoff => ?_⟩
  · have hlen : (encodeCommand h (.case4E d le)).length = 7 + extlen data + 2 := by
      rw [hlc, encodeCommand, CommandBody.encode, List.length_append, List.length_append, List.length_append]
      simp only [CommandBody.twoBytes, List.length_cons, List.length_nil]
      omega
    have hlast : Holds data (7 + extlen data) (CommandBody.twoBytes le.1) := by
      have hat : 4 + (0 :: CommandBody.twoBytes d.1.length ++ d.1).length = 7 + extlen data := by
        rw [hlc, List.length_append]
        simp only [CommandBody.twoBytes, List.length_cons, List.length_nil]
        omega
      rwa [hat] at hle
    have hpos : extlen data ≠ 0 := by
      have := d.2.1
      omega
    rw [hlen, apduDecode_case4E hb hpos, ofHeader_of_holds hdata, leAt_of_holds le.2.1 le.2.2 hlast, hlc]
    rfl
  · obtain rfl := Option.some.inj hoff
    exact hd

/-- Case 2E: a length is refused or, as zero, read as case 3E. -/
theorem case2E_not_decodesBack (le : ExpectedLength 0x10000) : ¬ DecodesBack h (.case2E le) := by
  intro hback
  have hdata : Holds (memoryOf (encodeCommand h (.case2E le))) 0 (encodeCommand h (.case2E le)) :=
    ⟨rfl, rfl, rfl, rfl, rfl, rfl, rfl, trivial⟩
  have hres := (hback _ hdata).1
  obtain ⟨hb, hext, -⟩ := extended_of_holds
    (show Holds _ 4 (0 :: CommandBody.twoBytes le.1 ++ []) from body_of_holds hdata)
  rw [show (encodeCommand h (.case2E le)).length = 7 from rfl] at hres
  by_cases hzero : extlen (memoryOf (encodeCommand h (.case2E le))) = 0
  · have htype := apduDecode_case2E_zero hb hzero
    rw [hres] at htype
    exact absurd htype (show ¬ ((0x12 : UInt8) = 0x13) by decide)
  · have hword := apduDecode_case2E hb hzero
    rw [hres] at hword
    exact absurd hword (show ¬ ((0 : UInt16) = swWrongLength) by decide)

theorem decodesBack_iff (h : CommandHeader) (body : CommandBody) : DecodesBack h body ↔ ¬ body.IsCase2E := by
  cases body with
  | case1 => exact iff_of_true case1_decodesBack not_false
  | case2S le => exact iff_of_true (case2S_decodesBack le) not_false
  | case3S d => exact iff_of_true (case3S_decodesBack d) not_false
  | case4S d le => exact iff_of_true (case4S_decodesBack d le) not_false
  | case2E le => exact iff_of_false (case2E_not_decodesBack le) (not_not_intro trivial)
  | case3E d => exact iff_of_true (case3E_decodesBack d) not_false
  | case4E d le => exact iff_of_true (case4E_decodesBack d le) not_false

end Undo

/-! ## The data range -/

section Range

variable {data : Nat → UInt8} {len : Nat}

/-- What the cascades keep: the data, behind the header, ends inside the message. -/
def ApduStruct.LcInside (apdu : ApduStruct) (len : Nat) : Prop :=
  apdu.data = none ∧
    (apdu.lc = 0 ∨ 7 + apdu.lc ≤ len ∨ (apdu.extendedApdu = false ∧ 5 + apdu.lc ≤ len))

theorem lcInside_decodeShort {apdu : ApduStruct} (hdata : apdu.data = none) (hlc : apdu.lc = 0)
    (hext : apdu.extendedApdu = false) : (decodeShort data len apdu).LcInside len := by
  unfold decodeShort
  refine ⟨by split_ifs <;> exact hdata, ?_⟩
  split_ifs <;> simp only [hlc, hext, true_and, true_or] <;> omega

theorem lcInside_decodeExtended {apdu : ApduStruct} (hdata : apdu.data = none) (hlc : apdu.lc = 0) :
    (decodeExtended data len apdu).LcInside len := by
  unfold decodeExtended
  refine ⟨by split_ifs <;> exact hdata, ?_⟩
  split_ifs <;> simp only [hlc, true_or] <;> omega

theorem dataInside_finish {apdu : ApduStruct} (h : apdu.LcInside len) (hok : apdu.finish.1 = 0) :
    apdu.finish.2.DataInside len := by
  obtain ⟨hdata, hlc⟩ := h
  unfold finish at hok ⊢
  by_cases hcase : apdu.caseType = 0
  · rw [if_pos hcase] at hok
    exact absurd hok (show ¬ (swCondUseNotSatisfied = 0) by decide)
  · rw [if_neg hcase]
    by_cases hzero : apdu.lc = 0
    · rw [if_neg (fun h => h hzero)]
      exact Or.inl ⟨hdata, hzero⟩
    · rw [if_pos hzero]
      refine Or.inr ⟨if apdu.extendedApdu then 7 else 5, rfl, ?_⟩
      show (if apdu.extendedApdu then 7 else 5) + apdu.lc ≤ len
      cases hext : apdu.extendedApdu with
      | true =>
        rw [hext] at hlc
        rcases hlc with hlc | hlc | ⟨hfalse, -⟩
        · exact absurd hlc hzero
        · exact hlc
        · cases hfalse
      | false =>
        rw [if_neg Bool.false_ne_true]
        omega

/-- Where decoding succeeds, the data stands inside the message. -/
theorem dataInside_of_success (data : Nat → UInt8) (len : Nat) (hok : (apduDecode data len).1 = 0) :
    (apduDecode data len).2.DataInside len := by
  unfold apduDecode at hok ⊢
  by_cases hext : 7 ≤ len ∧ b0 data = 0
  · simp only [if_pos hext] at hok ⊢
    by_cases hlen : len - 7 < extlen data
    · rw [if_pos hlen] at hok
      exact absurd hok (show ¬ (swWrongLength = 0) by decide)
    · rw [if_neg hlen, decodeShort_of_zero hext.1 hext.2] at hok ⊢
      exact dataInside_finish (lcInside_decodeExtended rfl rfl) hok
  · simp only [if_neg hext] at hok ⊢
    by_cases hlen : 5 < len ∧ len - 5 < b0 data
    · rw [if_pos hlen] at hok
      exact absurd hok (show ¬ (swWrongLength = 0) by decide)
    · rw [if_neg hlen] at hok ⊢
      exact dataInside_finish (lcInside_decodeShort rfl rfl rfl) hok

end Range

/-- `apdu_decode` undoes the encoding of every body but case 2E, and where it succeeds on any bytes the
data it points to stands inside them. -/
theorem apduDecode_undoes_iff (h : CommandHeader) (body : CommandBody) :
    (DecodesBack h body ↔ ¬ body.IsCase2E) ∧ ∀ (data : Nat → UInt8) (len : Nat),
      (apduDecode data len).1 = 0 → (apduDecode data len).2.DataInside len :=
  ⟨decodesBack_iff h body, dataInside_of_success⟩

/-- A chained command with a single byte of data in the extended form. -/
theorem apduDecode_undoes_iff_case3E :
    DecodesBack ⟨0x10, 0x03, 0, 0⟩ (.case3E ⟨[7], by decide, by decide⟩) :=
  (apduDecode_undoes_iff ⟨0x10, 0x03, 0, 0⟩ (.case3E ⟨[7], by decide, by decide⟩)).1.mpr not_false

/-- One expected byte, in the extended form, is refused. -/
theorem case2E_of_one_refused :
    ∃ (h : CommandHeader) (le : ExpectedLength 0x10000),
      encodeCommand h (.case2E le) = [0x00, 0x01, 0x00, 0x00, 0x00, 0x00, 0x01] ∧
        (apduDecode (memoryOf (encodeCommand h (.case2E le))) 7).1 = swWrongLength ∧
        ¬ DecodesBack h (.case2E le) := by
  refine ⟨⟨0x00, 0x01, 0x00, 0x00⟩, ⟨1, by decide, by decide⟩, by decide, by decide, fun hback => ?_⟩
  have hres := (hback (memoryOf [0x00, 0x01, 0x00, 0x00, 0x00, 0x00, 0x01])
    ⟨rfl, rfl, rfl, rfl, rfl, rfl, rfl, trivial⟩).1
  exact absurd (congrArg Prod.fst hres) (by decide)

end TkeyFido2
