import TkeyFido2.Cbor.RoundTrip
import TkeyFido2.Lib.Prog

/-!
# The members of a map

An iterator that moves through a map meets its keys and values in turn, and leaves at least one byte
behind with each item.
-/

namespace TkeyFido2.Cbor

open Prog

/-! ## Progress -/

theorem cborAssert_eq_ok {c : Prop} [Decidable c] {u : Unit} : cborAssert c = .ok u ↔ c := by
  unfold cborAssert
  by_cases h : c <;> simp [h]

theorem fail_ne_ok {α : Type} {e : CborError} {a : α} : (fail e : CborM α) ≠ .ok a := nofun

/-- No string is being read, or there is no item. -/
def CborValue.Fresh (it : CborValue) : Prop := it.iterating = false ∨ it.type = .invalid

section Progress

variable {it it' : CborValue}

theorem preparseValue_ok (h : preparseValue it = .ok it') :
    it'.rest = it.rest ∧ it'.iterating = false := by
  have hsmall {v w : CborValue} {d : Nat} {tl : List UInt8}
      (hv : preparseValue.decodeSmall v d tl = .ok w) : w.rest = v.rest ∧ w.iterating = v.iterating := by
    unfold preparseValue.decodeSmall at hv
    split_ifs at hv <;> obtain rfl := Except.ok.inj hv <;> exact ⟨rfl, rfl⟩
  unfold preparseValue at h
  split at h
  · exact absurd h fail_ne_ok
  rename_i b tl hrest
  simp only at h
  generalize (if smallValue b < 24 then 0 else 2 ^ (smallValue b - 24)) = bytesNeeded at h
  split_ifs at h
  all_goals try exact absurd h fail_ne_ok
  · obtain rfl := Except.ok.inj h
    exact ⟨rfl, rfl⟩
  · exact hsmall h
  · unfold preparseSimple at h
    split at h
    all_goals try (obtain rfl := Except.ok.inj h; exact ⟨rfl, rfl⟩)
    split_ifs at h
    · exact absurd h fail_ne_ok
    · obtain rfl := Except.ok.inj h
      exact ⟨rfl, rfl⟩
  · exact hsmall h

theorem preparseNextValueNodecrement_ne_nil (h : preparseNextValueNodecrement it = .ok it') :
    it.rest ≠ [] := by
  intro hnil
  have heq : preparseNextValueNodecrement it = fail .unexpectedEOF := by
    simp only [preparseNextValueNodecrement, preparseValue, hnil]
  exact fail_ne_ok (heq.symm.trans h)

theorem preparseNextValueNodecrement_ok (h : preparseNextValueNodecrement it = .ok it') :
    it'.rest.length ≤ it.rest.length ∧ it'.Fresh := by
  have hvalue (h : preparseValue it = .ok it') : it'.rest.length ≤ it.rest.length ∧ it'.Fresh := by
    obtain ⟨hrest, hiter⟩ := preparseValue_ok h
    exact ⟨by rw [hrest], .inl hiter⟩
  unfold preparseNextValueNodecrement at h
  split at h
  · rename_i b tl hrest
    split_ifs at h
    · obtain rfl := Except.ok.inj h
      exact ⟨by rw [hrest]; simp, .inr rfl⟩
    · exact hvalue h
  · exact hvalue h

theorem preparseNextValue_ok (h : preparseNextValue it = .ok it') :
    it'.rest.length ≤ it.rest.length ∧ it'.Fresh := by
  unfold preparseNextValue at h
  split_ifs at h
  · simp only at h
    split_ifs at h
    · obtain rfl := Except.ok.inj h
      exact ⟨le_rfl, .inr rfl⟩
    · have hnext := preparseNextValueNodecrement_ok h
      exact hnext
  · exact preparseNextValueNodecrement_ok h

theorem extractNumber_ok {l rest : List UInt8} {v : Nat} (h : extractNumber l = .ok (v, rest)) :
    rest.length < l.length := by
  unfold extractNumber at h
  split at h
  · exact absurd h fail_ne_ok
  rename_i b tl
  simp only at h
  split_ifs at h
  all_goals try exact absurd h fail_ne_ok
  · obtain ⟨-, rfl⟩ := Prod.mk.inj (Except.ok.inj h)
    exact Nat.lt_succ_self _
  · obtain ⟨-, rfl⟩ := Prod.mk.inj (Except.ok.inj h)
    rw [List.length_drop, List.length_cons]
    exact Nat.lt_succ_of_le (Nat.sub_le ..)

theorem extractLength_ok {l rest : List UInt8} {v : Nat} (h : extractLength l = .ok (v, rest)) :
    rest.length < l.length := by
  unfold extractLength at h
  obtain ⟨⟨v', rest'⟩, hnum, h⟩ := except_bind_eq_ok.mp h
  simp only at h
  split_ifs at h
  · exact absurd h fail_ne_ok
  · obtain ⟨-, rfl⟩ := Prod.mk.inj (Except.ok.inj h)
    exact extractNumber_ok hnum

/-- An item of fixed size. -/
theorem advanceInternal_ok (h : advanceInternal it = .ok it') :
    it'.rest.length < it.rest.length ∧ it'.Fresh := by
  unfold advanceInternal at h
  split at h
  · cases h
  rename_i v rest hnum
  obtain ⟨hle, hfresh⟩ := preparseNextValue_ok h
  exact ⟨hle.trans_lt (extractNumber_ok hnum), hfresh⟩

/-- A chunk of a string; the first one has a head. -/
theorem getStringChunk_ok {chunk : Option (List UInt8)} (h : getStringChunk it = .ok (chunk, it')) :
    it'.rest.length ≤ it.rest.length ∧ (it.iterating = false → it'.rest.length < it.rest.length) ∧
      (chunk = none → it'.Fresh) := by
  have hlast {v w : CborValue} {c : Option (List UInt8)} (h : getStringChunk.lastChunk v = .ok (c, w)) :
      w.rest.length ≤ v.rest.length ∧ w.Fresh := by
    unfold getStringChunk.lastChunk at h
    obtain ⟨next, hnext, h⟩ := except_bind_eq_ok.mp h
    obtain ⟨-, rfl⟩ := Prod.mk.inj (except_pure_eq_ok.mp h)
    exact preparseNextValue_ok hnext
  unfold getStringChunk at h
  by_cases hdone : it.iterating = true ∧ (!it.unknownLength) = true
  · rw [if_pos hdone] at h
    obtain ⟨hle, hfresh⟩ := hlast h
    exact ⟨hle, fun hit => by simp [hit] at hdone, fun _ => hfresh⟩
  rw [if_neg hdone] at h
  simp only at h
  generalize hv : (if (!it.iterating) = true ∧ it.unknownLength = true then
    { it with rest := it.rest.drop 1, iterating := true } else it) = v at h
  have hle : v.rest.length ≤ it.rest.length := by
    rw [← hv]
    split_ifs
    · rw [List.length_drop]
      exact Nat.sub_le ..
    · exact le_rfl
  suffices hlt : it'.rest.length < v.rest.length ∧ (chunk = none → it'.Fresh) from
    ⟨(hlt.1.trans_le hle).le, fun _ => hlt.1.trans_le hle, hlt.2⟩
  split at h
  · exact absurd h fail_ne_ok
  rename_i b tl hrest
  split_ifs at h
  · obtain ⟨hle, hfresh⟩ := hlast h
    exact ⟨by rw [hrest]; exact Nat.lt_succ_of_le hle, fun _ => hfresh⟩
  · obtain ⟨⟨len, rest⟩, hlen, h⟩ := except_bind_eq_ok.mp h
    simp only at h
    split_ifs at h
    · exact absurd h fail_ne_ok
    · obtain ⟨rfl, rfl⟩ := Prod.mk.inj (Except.ok.inj h)
      refine ⟨lt_of_le_of_lt ?_ (extractLength_ok hlen), nofun⟩
      rw [List.length_drop]
      exact Nat.sub_le ..
  · exact absurd h fail_ne_ok

theorem stringChunksAux_ok {fuel : Nat} (h : (stringChunksAux fuel it).2 = .ok it') :
    it'.rest.length ≤ it.rest.length ∧ (it.iterating = false → it'.rest.length < it.rest.length) ∧
      it'.Fresh := by
  induction fuel generalizing it with
  | zero => cases h
  | succ fuel ih =>
    unfold stringChunksAux at h
    split at h
    · cases h
    · rename_i next hnext
      obtain rfl := Except.ok.inj h
      obtain ⟨hle, hlt, hfresh⟩ := getStringChunk_ok hnext
      exact ⟨hle, hlt, hfresh rfl⟩
    · rename_i chunk next hnext
      obtain ⟨hle, hlt, -⟩ := getStringChunk_ok hnext
      obtain ⟨hle', -, hfresh⟩ := ih h
      exact ⟨hle'.trans hle, fun hit => hle'.trans_lt (hlt hit), hfresh⟩

theorem stringChunks_ok (h : (stringChunks it).2 = .ok it') :
    it'.rest.length ≤ it.rest.length ∧ (it.iterating = false → it'.rest.length < it.rest.length) ∧
      it'.Fresh := by
  unfold stringChunks at h
  split_ifs at h
  exact stringChunksAux_ok h

/-- The head of a container lies behind. -/
theorem enterContainer_ok (h : enterContainer it = .ok it') :
    it'.rest.length < it.rest.length ∧ it'.Fresh := by
  unfold enterContainer at h
  obtain ⟨-, -, h⟩ := except_bind_eq_ok.mp h
  by_cases hu : it.unknownLength = true
  · rw [if_pos hu] at h
    obtain ⟨hle, hfresh⟩ := preparseNextValueNodecrement_ok h
    have hpos : 0 < (it.rest.drop 1).length :=
      List.length_pos_iff.mpr (preparseNextValueNodecrement_ne_nil h)
    refine ⟨lt_of_le_of_lt hle ?_, hfresh⟩
    show (it.rest.drop 1).length < _
    rw [List.length_drop] at hpos ⊢
    omega
  rw [if_neg hu] at h
  split at h
  · cases h
  rename_i len rest hnum
  have hlt := extractNumber_ok hnum
  simp only at h
  generalize UInt32.ofNat _ = remaining at h
  split_ifs at h
  all_goals try exact absurd h fail_ne_ok
  · obtain rfl := Except.ok.inj h
    exact ⟨hlt, .inr rfl⟩
  · obtain ⟨hle, hfresh⟩ := preparseNextValueNodecrement_ok h
    exact ⟨lt_of_le_of_lt hle hlt, hfresh⟩

theorem leaveContainer_ok {inside : CborValue} (h : leaveContainer it inside = .ok it') :
    it'.rest.length ≤ inside.rest.length ∧ it'.Fresh := by
  unfold leaveContainer at h
  obtain ⟨-, -, h⟩ := except_bind_eq_ok.mp h
  obtain ⟨-, -, h⟩ := except_bind_eq_ok.mp h
  have hnext := preparseNextValue_ok h
  exact hnext

theorem untilEnd_ok {body : CborValue → CborM CborValue} {fuel : Nat}
    (hbody : ∀ v v', body v = .ok v' → v'.rest.length ≤ v.rest.length)
    (h : untilEnd body fuel it = .ok it') : it'.rest.length ≤ it.rest.length := by
  induction fuel generalizing it with
  | zero => cases h
  | succ fuel ih =>
    unfold untilEnd at h
    split_ifs at h
    · obtain rfl := Except.ok.inj h
      exact le_rfl
    · obtain ⟨v, hv, h⟩ := except_bind_eq_ok.mp h
      exact (ih h).trans (hbody _ _ hv)

theorem advanceRecursive_ok {n : Nat} (h : advanceRecursive n it = .ok it') :
    it'.rest.length ≤ it.rest.length ∧ (it.iterating = false → it'.rest.length < it.rest.length) ∧
      it'.Fresh := by
  induction n generalizing it it' with
  | zero =>
    unfold advanceRecursive at h
    split_ifs at h
    · obtain ⟨hlt, hfresh⟩ := advanceInternal_ok h
      exact ⟨hlt.le, fun _ => hlt, hfresh⟩
    · exact stringChunks_ok h
    · exact absurd h fail_ne_ok
  | succ n ih =>
    unfold advanceRecursive at h
    split_ifs at h
    · obtain ⟨hlt, hfresh⟩ := advanceInternal_ok h
      exact ⟨hlt.le, fun _ => hlt, hfresh⟩
    · exact stringChunks_ok h
    · obtain ⟨first, hfirst, h⟩ := except_bind_eq_ok.mp h
      obtain ⟨last, hlast, h⟩ := except_bind_eq_ok.mp h
      obtain ⟨hlt, -⟩ := enterContainer_ok hfirst
      have hinside := untilEnd_ok (fun v v' hv => (ih hv).1) hlast
      obtain ⟨hle, hfresh⟩ := leaveContainer_ok h
      have hall := (hle.trans hinside).trans_lt hlt
      exact ⟨hall.le, fun _ => hall, hfresh⟩

/-- An item takes at least a byte. -/
theorem advance_ok (h : advance it = .ok it') (hit : it.Fresh) :
    it'.rest.length < it.rest.length ∧ it'.Fresh := by
  unfold advance at h
  obtain ⟨_, hvalid, h⟩ := except_bind_eq_ok.mp h
  split_ifs at h
  · exact absurd h fail_ne_ok
  obtain ⟨-, hlt, hfresh⟩ := advanceRecursive_ok h
  exact ⟨hlt (hit.resolve_right (cborAssert_eq_ok.mp hvalid)), hfresh⟩

end Progress

/-! ## Members -/

/-- The keys and values that an iterator meets up to the end of its map. -/
inductive CborValue.Members : CborValue → List (CborValue × CborValue) → Prop
  | nil {it : CborValue} (h : it.atEnd = true) : it.Members []
  | cons {k x it : CborValue} {l : List (CborValue × CborValue)} (hk : k.atEnd = false)
      (hx : advance k = .ok x) (hx' : x.atEnd = false) (hit : advance x = .ok it) (hl : it.Members l) :
      k.Members ((k, x) :: l)

theorem CborValue.Members.unique {it : CborValue} {l l' : List (CborValue × CborValue)}
    (h : it.Members l) (h' : it.Members l') : l = l' := by
  induction h generalizing l' with
  | nil hend =>
    cases h' with
    | nil _ => rfl
    | cons hk _ _ _ _ => exact absurd hend (by simp [hk])
  | cons hk hx _ hit _ ih =>
    cases h' with
    | nil hend => exact absurd hend (by simp [hk])
    | cons _ hx₂ _ hit₂ hl =>
      obtain rfl := Except.ok.inj (hx.symm.trans hx₂)
      obtain rfl := Except.ok.inj (hit.symm.trans hit₂)
      rw [ih hl]

/-- The members fit into the input. -/
theorem CborValue.Members.length_le {it : CborValue} {l : List (CborValue × CborValue)}
    (h : it.Members l) (hit : it.Fresh) : l.length ≤ it.rest.length := by
  induction h with
  | nil _ => exact Nat.zero_le _
  | cons _ hx _ hnext _ ih =>
    obtain ⟨hlt, hfresh⟩ := advance_ok hx hit
    obtain ⟨hlt', hfresh'⟩ := advance_ok hnext hfresh
    have hle := ih hfresh'
    rw [List.length_cons]
    omega

/-- A member of a flat map with a number as key, at its place in the input. -/
def AtMember (m : CborValue × CborValue) (p : Nat × Item) : Prop :=
  m.1.getUint64 = .ok p.1 ∧ ∃ items, m.2.Iterates (p.2 :: items)

/-- The members of a flat map with numbers as keys. -/
theorem CborValue.Iterates.members {it : CborValue} {l : List (Nat × Item)}
    (h : it.Iterates (l.flatMap fun p => [.int p.1, p.2])) :
    ∃ members, it.Members members ∧ (members.map fun m => m.1.getUint64) = l.map (fun p => .ok p.1) ∧
      (∀ m ∈ members, ∃ p ∈ l, AtMember m p) ∧ ∀ p ∈ l, ∃ m ∈ members, AtMember m p := by
  induction l generalizing it with
  | nil => exact ⟨[], .nil (h.atEnd.mpr rfl), rfl, by simp, by simp⟩
  | cons p l ih =>
    have hit : it.Iterates (.int p.1 :: p.2 :: l.flatMap fun p => [.int p.1, p.2]) := h
    obtain ⟨x, hx, hx'⟩ := hit.advance
    obtain ⟨next, hnext, hnext'⟩ := hx'.advance
    obtain ⟨members, hmembers, hkeys, hall, hall'⟩ := ih hnext'
    have hend {v : CborValue} {i : Item} {items : List Item} (hv : v.Iterates (i :: items)) :
        v.atEnd = false := by simpa using mt hv.atEnd.mp (List.cons_ne_nil i items)
    have hfirst : AtMember (it, x) p := ⟨hit.getUint64, _, hx'⟩
    refine ⟨(it, x) :: members, .cons (hend hit) hx (hend hx') hnext hmembers, ?_, ?_, ?_⟩
    · rw [List.map_cons, List.map_cons, hkeys, hfirst.1]
    · rintro m (_ | ⟨_, hm⟩)
      · exact ⟨p, List.mem_cons_self .., hfirst⟩
      · obtain ⟨q, hq, hat⟩ := hall m hm
        exact ⟨q, List.mem_cons_of_mem _ hq, hat⟩
    · rintro q (_ | ⟨_, hq⟩)
      · exact ⟨_, List.mem_cons_self .., hfirst⟩
      · obtain ⟨m, hm, hat⟩ := hall' q hq
        exact ⟨m, List.mem_cons_of_mem _ hm, hat⟩

end TkeyFido2.Cbor
