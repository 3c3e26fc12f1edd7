import TkeyFido2.Cbor.RoundTrip

/-!
# What encoder calls write

A call appends its bytes where the buffer has room for them, and reports an overflow otherwise.  `Appends`
is closed under sequences and containers, so that the bytes of a whole structure are found from its shape,
and with them the exact condition under which it fits.
-/

namespace TkeyFido2.Cbor.Encoder

/-- The encoder behind `n` more items with the bytes `d`. -/
def put (e : Encoder) (n : Nat) (d : List UInt8) : Encoder :=
  { out := e.out ++ d, room := e.room - d.length, remaining := e.remaining - n }

/-- `call` writes `n` items with the bytes `d`, if they fit. -/
def Appends (n : Nat) (d : List UInt8) (call : Encoder → EncM Encoder) : Prop :=
  ∀ e, call e = if e.room < d.length then .error .outOfMemory else .ok (e.put n d)

section Rules

variable {n m : Nat} {d d' : List UInt8} {f g : Encoder → EncM Encoder}

theorem put_put (e : Encoder) : (e.put n d).put m d' = e.put (n + m) (d ++ d') := by
  simp only [put, List.append_assoc, List.length_append, Nat.sub_add_eq]

theorem Appends.eq_ok (h : Appends n d f) {e : Encoder} (hroom : d.length ≤ e.room) : f e = .ok (e.put n d) := by
  rw [h e, if_neg (Nat.not_lt.mpr hroom)]

theorem Appends.eq_error (h : Appends n d f) {e : Encoder} (hroom : e.room < d.length) :
    f e = .error .outOfMemory := by
  rw [h e, if_pos hroom]

theorem Appends.of_ok (h : Appends n d f) {e e' : Encoder} (he : f e = .ok e') :
    d.length ≤ e.room ∧ e' = e.put n d := by
  by_cases hroom : e.room < d.length
  · rw [h.eq_error hroom] at he
    exact absurd he (by simp)
  · have hle := Nat.not_lt.mp hroom
    rw [h.eq_ok hle] at he
    exact ⟨hle, (Except.ok.inj he).symm⟩

theorem Appends.congr (h : Appends n d f) (hfg : ∀ e, f e = g e) : Appends n d g :=
  fun e => (hfg e).symm.trans (h e)

theorem appends_nothing : Appends 0 [] fun e => .ok e := by
  intro e
  rw [if_neg (by simp)]
  simp [put]

/-- One call after the other. -/
theorem Appends.andThen (hf : Appends n d f) (hg : Appends m d' g) :
    Appends (n + m) (d ++ d') fun e => f e >>= g := by
  intro e
  show (f e >>= g) = _
  rw [List.length_append]
  by_cases hd : e.room < d.length
  · rw [hf.eq_error hd, if_pos (by omega)]
    rfl
  · rw [hf.eq_ok (by omega)]
    show g (e.put n d) = _
    rw [hg, put_put]
    have hroom : (e.put n d).room = e.room - d.length := rfl
    by_cases hd' : e.room < d.length + d'.length
    · rw [if_pos (by omega), if_pos hd']
    · rw [if_neg (by omega), if_neg hd']

theorem appends_bytes : Appends 0 d (·.append d) := fun _ => rfl

theorem appends_number {v k : Nat} : Appends 1 (numberBytes v k) (·.number v k) := fun _ => rfl

theorem appends_uint {v : Nat} : Appends 1 (numberBytes v 0) (·.uint v) := appends_number

/-- The bytes of `cbor_encode_int`. -/
def intBytes (v : Int) : List UInt8 :=
  if 0 ≤ v then numberBytes v.toNat 0 else numberBytes (-v - 1).toNat 1

theorem appends_int {v : Int} : Appends 1 (intBytes v) (·.int v) := by
  intro e
  unfold intBytes int
  split
  · exact appends_number e
  · exact appends_number e

theorem appends_boolean {b : Bool} : Appends 1 [if b then 0xf5 else 0xf4] (·.boolean b) := by
  intro e
  cases b with
  | true => exact appends_number e
  | false => exact appends_number e

theorem appends_byteString {s : List UInt8} : Appends 1 (numberBytes s.length 2 ++ s) (·.byteString s) :=
  appends_number.andThen appends_bytes

theorem appends_textString {s : List UInt8} : Appends 1 (numberBytes s.length 3 ++ s) (·.textString s) :=
  appends_number.andThen appends_bytes

/-! ## Containers -/

/-- A container around `k` items. -/
theorem Appends.container {create : Encoder → EncM Encoder} {head : List UInt8} {k : Nat}
    (hcreate : ∀ e, create e = { e with remaining := k + 1 }.append head) (hitems : Appends k d f) :
    Appends 1 (head ++ d) fun e => create e >>= fun inner => f inner >>= e.close := by
  intro e
  have hhead : create e = if e.room < head.length then .error .outOfMemory
      else .ok ({ e with remaining := k + 1 }.put 0 head) := (hcreate e).trans (appends_bytes _)
  show (create e >>= fun inner => f inner >>= e.close) = _
  rw [List.length_append, hhead]
  by_cases hfit : e.room < head.length
  · rw [if_pos hfit, if_pos (by omega)]
    rfl
  rw [if_neg hfit]
  show (f ({ e with remaining := k + 1 }.put 0 head) >>= e.close) = _
  rw [hitems, put_put]
  have hroom : ({ e with remaining := k + 1 }.put 0 head).room = e.room - head.length := rfl
  by_cases hd : e.room < head.length + d.length
  · rw [if_pos (by omega), if_pos hd]
    rfl
  · rw [if_neg (by omega), if_neg hd]
    show e.close ({ e with remaining := k + 1 }.put (0 + k) (head ++ d)) = _
    have hone : ({ e with remaining := k + 1 }.put (0 + k) (head ++ d)).remaining = 1 := by
      show k + 1 - (0 + k) = 1
      omega
    unfold close
    rw [if_neg (not_not_intro hone)]
    rfl

theorem Appends.map {k : Nat} (hitems : Appends (2 * k) d f) :
    Appends 1 (numberBytes k 5 ++ d) fun e => e.createMap k >>= fun inner => f inner >>= e.close :=
  Appends.container (fun _ => rfl) hitems

theorem Appends.array {k : Nat} (hitems : Appends k d f) :
    Appends 1 (numberBytes k 4 ++ d) fun e => e.createArray k >>= fun inner => f inner >>= e.close :=
  Appends.container (fun _ => rfl) hitems

end Rules

/-! ## Sizes -/

theorem length_numberBytes (v k : Nat) :
    (numberBytes v k).length
      = if v < 24 then 1 else if v ≤ 0xff then 2 else if v ≤ 0xffff then 3
        else if v ≤ 0xffffffff then 5 else 9 := by
  unfold numberBytes
  dsimp only
  split_ifs <;> simp

end TkeyFido2.Cbor.Encoder
