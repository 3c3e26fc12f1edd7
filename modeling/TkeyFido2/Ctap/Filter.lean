import TkeyFido2.Ctap.Assertion
import TkeyFido2.Ctap.Store

/-!
# The filtered list

`build_filtered_credential_list`.  The first entry of the allow list that qualifies ends the loop: it
moves the bound of the loop right behind itself.  The entries in front of it are invalidated by setting
their count to zero, and what ends up first is decided by sorting.
-/

namespace TkeyFido2

open Cbor Prog

/-! ## The array -/

section Array

variable {creds creds' : Creds} {c : CredentialDescriptor} {i j n : Nat}

theorem nth_eq_getElem (hi : i < creds.toList.length) : creds.nth i = creds.toList[i] := by
  unfold Creds.nth
  rw [List.getD_eq_getElem?_getD, List.getElem?_eq_getElem hi, Option.getD_some]

theorem Creds.ext_nth (h : ∀ i < 20, creds.nth i = creds'.nth i) : creds = creds' := by
  have hlen : creds.toList.length = 20 := creds.toList_length
  have hlen' : creds'.toList.length = 20 := creds'.toList_length
  refine List.Vector.toList_injective (List.ext_getElem (by omega) fun i hi hi' => ?_)
  have hnth := h i (by omega)
  rwa [nth_eq_getElem hi, nth_eq_getElem hi'] at hnth

theorem nth_put (hi : i < 20) : (creds.put i c).nth j = if j = i then c else creds.nth j := by
  by_cases hj : j = i
  · rw [if_pos hj, hj]
    unfold Creds.nth Creds.put
    simp only [List.Vector.toList]
    have hlen : i < creds.1.length := by rw [creds.2]; exact hi
    rw [List.getD_eq_getElem?_getD, List.getElem?_set_self hlen, Option.getD_some]
  · rw [if_neg hj, nth_put_of_ne hj]

theorem nth_mem_take (hi : i < n) (hn : n ≤ 20) : creds.nth i ∈ creds.toList.take n :=
  List.mem_of_getElem? (getElem?_take_nth hi hn)

theorem mem_take_nth (h : c ∈ creds.toList.take n) : ∃ i < n, i < 20 ∧ creds.nth i = c := by
  obtain ⟨i, hi, rfl⟩ := List.getElem_of_mem h
  rw [List.length_take, creds.toList_length] at hi
  refine ⟨i, by omega, by omega, ?_⟩
  rw [List.getElem_take, nth_eq_getElem]

/-- The first `n` entries invalidated. -/
def Creds.invalidateBelow (creds : Creds) (n : Nat) : Creds :=
  ⟨(List.range 20).map fun i => if i < n then invalidate (creds.nth i) else creds.nth i, by simp⟩

theorem nth_invalidateBelow (hi : i < 20) :
    (creds.invalidateBelow n).nth i = if i < n then invalidate (creds.nth i) else creds.nth i := by
  show ((List.range 20).map fun i => if i < n then invalidate (creds.nth i) else creds.nth i).getD i {} = _
  rw [List.getD_eq_getElem?_getD, List.getElem?_map, List.getElem?_range hi]
  rfl

theorem invalidateBelow_zero : creds.invalidateBelow 0 = creds := by
  refine Creds.ext_nth fun i hi => ?_
  rw [nth_invalidateBelow hi, if_neg (Nat.not_lt_zero i)]

theorem put_invalidateBelow (hi : i < 20) :
    (creds.invalidateBelow i).put i (invalidate (creds.nth i)) = creds.invalidateBelow (i + 1) := by
  refine Creds.ext_nth fun j hj => ?_
  rw [nth_put hi, nth_invalidateBelow hj, nth_invalidateBelow hj]
  by_cases hji : j = i
  · rw [if_pos hji, if_pos (by omega), hji]
  · rw [if_neg hji]
    by_cases hlt : j < i
    · rw [if_pos hlt, if_pos (by omega)]
    · rw [if_neg hlt, if_neg (by omega)]

theorem count_invalidate : (invalidate c).id.count = 0 := by
  unfold invalidate CredentialId.setCount CredentialId.count
  have h := Bytes.toList_patch_of_le c.id.raw 37 (le32 0) (by simp)
  rw [h, List.append_assoc, List.drop_left' (by simp), ofLe32_le32]

theorem take_sortPrefix {q : Qsort} :
    (sortPrefix q n creds).toList.take n = q.sort (creds.toList.take n) := by
  have hlen : (q.sort (creds.toList.take n)).length ≤ n := by
    rw [(q.perm _).length_eq]
    exact List.length_take_le ..
  show (q.sort (creds.toList.take n) ++ creds.toList.drop n).take n = _
  by_cases hn : n ≤ 20
  · refine List.take_left' ?_
    rw [(q.perm _).length_eq, List.length_take, creds.toList_length]
    omega
  · rw [List.drop_eq_nil_of_le (by rw [creds.toList_length]; omega), List.append_nil,
      List.take_of_length_le hlen]

/-- `qsort` of the first entries leaves the same entries there. -/
theorem mem_take_sortPrefix {q : Qsort} :
    c ∈ (sortPrefix q n creds).toList.take n ↔ c ∈ creds.toList.take n := by
  rw [take_sortPrefix]
  exact (q.perm _).mem_iff

/-- An entry behind invalidated ones is sorted to the front, unless its own count is zero too. -/
theorem nth_zero_sortPrefix {q : Qsort} (hn : n < 20) (hcount : n = 0 ∨ (creds.nth n).id.count ≠ 0) :
    (sortPrefix q (n + 1) (creds.invalidateBelow n)).nth 0 = creds.nth n := by
  have hsorted := @take_sortPrefix (creds.invalidateBelow n) (n + 1) q
  have hfirst : (sortPrefix q (n + 1) (creds.invalidateBelow n)).nth 0 ∈
      (creds.invalidateBelow n).toList.take (n + 1) :=
    mem_take_sortPrefix.mp (nth_mem_take (Nat.succ_pos n) hn)
  have hself : (creds.invalidateBelow n).nth n = creds.nth n := by
    rw [nth_invalidateBelow hn, if_neg (Nat.lt_irrefl n)]
  have hlast : creds.nth n ∈ (sortPrefix q (n + 1) (creds.invalidateBelow n)).toList.take (n + 1) := by
    rw [mem_take_sortPrefix, ← hself]
    exact nth_mem_take (Nat.lt_succ_self n) hn
  obtain ⟨i, hi, h20, hnth⟩ := mem_take_nth hfirst
  by_cases hin : i = n
  · rw [← hnth, hin, hself]
  · -- an invalidated entry in front has a count of zero, and nothing behind it has more
    have hzero : ((sortPrefix q (n + 1) (creds.invalidateBelow n)).nth 0).id.count = 0 := by
      rw [← hnth, nth_invalidateBelow h20, if_pos (by omega)]
      exact count_invalidate
    obtain ⟨k, hk, -, hkn⟩ := mem_take_nth hlast
    rcases Nat.eq_zero_or_pos k with rfl | hpos
    · exact hkn
    · have hpair := q.sorted ((creds.invalidateBelow n).toList.take (n + 1))
      rw [← hsorted, List.pairwise_iff_getElem] at hpair
      have hlen : ((sortPrefix q (n + 1) (creds.invalidateBelow n)).toList.take (n + 1)).length = n + 1 := by
        rw [List.length_take, List.Vector.toList_length]
        omega
      have hle := hpair 0 k (by omega) (by omega) hpos
      rw [List.getElem_take, List.getElem_take, ← nth_eq_getElem, ← nth_eq_getElem, hkn] at hle
      unfold credCmpLe at hle
      rw [hzero] at hle
      rcases hcount with rfl | hne
      · omega
      · exact absurd (UInt32.le_antisymm hle UInt32.zero_le) hne


end Array

/-! ## The allow list -/

section AllowList

variable {C : Primitives} {f : Filter} {creds : Creds} {credLen : Nat}

/-- The credProtect check on an entry of an allow list. -/
theorem checkCredentialMetadata_listed {k : SessionKeys} {id : CredentialId} {verified : Bool} :
    ctapCheckCredentialMetadata C k id verified true = true ↔ credProtectOf C k id ≠ 3 ∨ verified = true := by
  unfold ctapCheckCredentialMetadata
  have hthree : credProtectOf C k id = 3 ↔ (credProtectOf C k id).toNat = 3 := UInt8.toNat_inj.symm
  split
  · rename_i h
    simp [hthree, h]
  · rename_i h
    simp [hthree, h]
  · rename_i h₂ h₃
    exact ⟨fun _ => .inl fun h => h₃ (hthree.mp h), fun _ => rfl⟩

theorem allowListQualifies_iff {cred : CredentialDescriptor} :
    allowListQualifies C f cred = true ↔
      ctapCredentialBelongsToRp C f.keys f.rpIdLookup f.rpIdHash cred = true ∧
      (credProtectOf C f.keys cred.id ≠ 3 ∨ f.userVerified = true) ∧
      (isRkOf C f.keys cred.id = false ∨ ctapVerifyRkExists C f.keys f.rkFiles cred.id = true) := by
  unfold allowListQualifies
  rw [Bool.and_eq_true, Bool.and_eq_true, checkCredentialMetadata_listed, Bool.or_eq_true, Bool.not_eq_true', and_assoc]

/-- The entry at `n` is the first one that qualifies. -/
def FirstQualifying (C : Primitives) (f : Filter) (creds : Creds) (n : Nat) : Prop :=
  allowListQualifies C f (creds.nth n) = true ∧ ∀ j < n, allowListQualifies C f (creds.nth j) = false

theorem allowListLoop_from {fuel i : Nat} (hlen : credLen ≤ 20) (hfuel : credLen < i + fuel) (hi : i ≤ credLen)
    (hbefore : ∀ j < i, allowListQualifies C f (creds.nth j) = false) :
    (∃ n < credLen, FirstQualifying C f creds n ∧
      allowListLoop C f fuel i credLen 0 (creds.invalidateBelow i) = (creds.invalidateBelow n, n + 1, 1)) ∨
    ((∀ j < credLen, allowListQualifies C f (creds.nth j) = false) ∧
      allowListLoop C f fuel i credLen 0 (creds.invalidateBelow i)
        = (creds.invalidateBelow credLen, credLen, 0)) := by
  induction fuel generalizing i with
  | zero => omega
  | succ fuel ih =>
    unfold allowListLoop
    by_cases hlt : i < credLen
    · have hnth : (creds.invalidateBelow i).nth i = creds.nth i := by
        rw [nth_invalidateBelow (by omega), if_neg (Nat.lt_irrefl i)]
      rw [if_pos hlt, hnth]
      cases hq : allowListQualifies C f (creds.nth i) with
      | true =>
        refine .inl ⟨i, hlt, ⟨hq, hbefore⟩, ?_⟩
        rw [if_pos rfl]
        -- the bound is now right behind the entry
        cases fuel with
        | zero => rfl
        | succ fuel =>
          unfold allowListLoop
          rw [if_neg (Nat.lt_irrefl _)]
      | false =>
        rw [if_neg (by simp), put_invalidateBelow (by omega)]
        refine ih (by omega) hlt fun j hj => ?_
        rcases Nat.lt_succ_iff_lt_or_eq.mp hj with hj | rfl
        · exact hbefore j hj
        · exact hq
    · obtain rfl : i = credLen := by omega
      exact .inr ⟨hbefore, if_neg hlt⟩

/-- The loop over the allow list. -/
theorem allowListLoop_spec (hlen : credLen ≤ 20) :
    (∃ n < credLen, FirstQualifying C f creds n ∧
      allowListLoop C f (credLen + 1) 0 credLen 0 creds = (creds.invalidateBelow n, n + 1, 1)) ∨
    ((∀ j < credLen, allowListQualifies C f (creds.nth j) = false) ∧
      allowListLoop C f (credLen + 1) 0 credLen 0 creds = (creds.invalidateBelow credLen, credLen, 0)) := by
  have h := @allowListLoop_from C f creds credLen (credLen + 1) 0 hlen (by omega) (Nat.zero_le _)
    fun j hj => absurd hj (Nat.not_lt_zero j)
  rwa [invalidateBelow_zero] at h

end AllowList

/-! ## Stored records -/

section Stored

variable {C : Primitives} {f : Filter} {creds : Creds}

/-- A record that is put into the array: all checks and its own MAC pass. -/
def storedPasses (C : Primitives) (f : Filter) (rk : ResidentKey) : Bool :=
  storedQualifies C f rk && ctapVerifyMac C f.keys rk.rkTag rk.macInput

theorem take_put {c : CredentialDescriptor} {n : Nat} (hn : n < 20) :
    (creds.put n c).toList.take (n + 1) = creds.toList.take n ++ [c] := by
  have hlen : n < creds.toList.length := by rw [creds.toList_length]; exact hn
  show (creds.toList.set n c).take (n + 1) = _
  rw [List.take_add_one, List.getElem?_set_self hlen, List.take_set_of_le le_rfl]
  rfl

/-- The loop over the stored records: those that pass, in the order of the file, up to twenty. -/
theorem storedLoop_spec (l : List ResidentKey) {count : Nat} (hcount : count ≤ 20) :
    (storedLoop C f l count creds).2 = count + ((l.filter (storedPasses C f)).take (20 - count)).length ∧
      (storedLoop C f l count creds).1.toList.take (storedLoop C f l count creds).2
        = creds.toList.take count
          ++ ((l.filter (storedPasses C f)).take (20 - count)).map (storedDescriptor C f) := by
  induction l generalizing count creds with
  | nil => simp [storedLoop]
  | cons rk l ih =>
    unfold storedLoop
    cases hq : storedQualifies C f rk with
    | false =>
      have hpass : storedPasses C f rk = false := by simp [storedPasses, hq]
      rw [List.filter_cons_of_neg (by simp [hpass]), if_pos Bool.not_false]
      exact ih hcount
    | true =>
      rw [if_neg (by simp)]
      by_cases hfull : allowListMaxSize ≤ count
      · have h20 : 20 - count = 0 := by
          have : allowListMaxSize = 20 := rfl
          omega
        rw [if_pos hfull, h20]
        simp
      · have hlt : count < 20 := not_le.mp hfull
        rw [if_neg hfull]
        cases hm : ctapVerifyMac C f.keys rk.rkTag rk.macInput with
        | false =>
          have hpass : storedPasses C f rk = false := by simp [storedPasses, hm]
          rw [List.filter_cons_of_neg (by simp [hpass]), if_pos Bool.not_false]
          exact ih hcount
        | true =>
          have hpass : storedPasses C f rk = true := by simp [storedPasses, hq, hm]
          obtain ⟨hnum, htake⟩ := @ih (creds.put count (storedDescriptor C f rk)) (count + 1) hlt
          rw [List.filter_cons_of_pos hpass, if_neg (by simp),
            show 20 - count = (20 - (count + 1)) + 1 by omega, List.take_succ_cons, List.length_cons]
          refine ⟨by rw [hnum]; omega, ?_⟩
          rw [htake, take_put hlt, List.append_assoc]
          rfl

end Stored

/-! ## The list -/

section List

variable {P : Platform} {f : Filter} {creds : Creds} {credLen : Nat}

/-- The ways `build_filtered_credential_list` can end. -/
inductive Filtered (P : Platform) (f : Filter) (credLen : Nat) (creds : Creds) : Creds × Nat → Prop
  /-- An entry of the allow list qualifies. -/
  | named (n : Nat) (hn : n < credLen) (first : FirstQualifying P.prims f creds n) :
      Filtered P f credLen creds (sortPrefix P.qsort (n + 1) (creds.invalidateBelow n), 1)
  /-- None does. -/
  | refused (hne : credLen ≠ 0) (none : ∀ j < credLen, allowListQualifies P.prims f (creds.nth j) = false)
      (creds' : Creds) : Filtered P f credLen creds (creds', 0)
  /-- There is no entry: the records of the RP's file that pass. -/
  | stored (hzero : credLen = 0) (creds' : Creds) (hcreds : creds'.toList.take
        (((f.rkFiles (rkFile f.rpIdLookup)).filter (storedPasses P.prims f)).take 20).length
          = (((f.rkFiles (rkFile f.rpIdLookup)).filter (storedPasses P.prims f)).take 20).map
            (storedDescriptor P.prims f)) :
      Filtered P f credLen creds (sortPrefix P.qsort
        (((f.rkFiles (rkFile f.rpIdLookup)).filter (storedPasses P.prims f)).take 20).length creds',
        (((f.rkFiles (rkFile f.rpIdLookup)).filter (storedPasses P.prims f)).take 20).length)

theorem filterCredentials_cases (hlen : credLen ≤ 20) :
    Filtered P f credLen creds (filterCredentials P f credLen creds) := by
  unfold filterCredentials
  rcases @allowListLoop_spec P.prims f creds credLen hlen with ⟨n, hn, hfirst, hloop⟩ | ⟨hnone, hloop⟩
  · rw [hloop]
    dsimp only
    rw [if_neg (Nat.succ_ne_zero n)]
    exact .named n hn hfirst
  · rw [hloop]
    dsimp only
    by_cases hzero : credLen = 0
    · rw [if_pos hzero]
      obtain ⟨hcount, htake⟩ := @storedLoop_spec P.prims f (creds.invalidateBelow credLen)
        (f.rkFiles (rkFile f.rpIdLookup)) 0 (Nat.zero_le _)
      rw [Nat.sub_zero, Nat.zero_add] at hcount
      rw [hcount, List.take_zero, List.nil_append, Nat.sub_zero] at htake
      rw [hcount]
      exact .stored hzero _ htake
    · rw [if_neg hzero]
      exact .refused hzero hnone _

/-- An entry of the list was invalidated, qualifies as it was sent, or is a stored record. -/
theorem Filtered.mem {r : Creds × Nat} (h : Filtered P f credLen creds r) {c : CredentialDescriptor}
    (hc : c ∈ r.1.toList.take r.2) :
    c.id.count = 0 ∨ allowListQualifies P.prims f c = true ∨
      ∃ rk ∈ f.rkFiles (rkFile f.rpIdLookup), storedPasses P.prims f rk = true ∧ c = storedDescriptor P.prims f rk := by
  cases h with
  | named n hn first =>
    have hc' : c ∈ (sortPrefix P.qsort (n + 1) (creds.invalidateBelow n)).toList.take (n + 1) :=
      List.take_subset_take_left _ (by omega) hc
    obtain ⟨i, hi, h20, rfl⟩ := mem_take_nth (mem_take_sortPrefix.mp hc')
    rw [nth_invalidateBelow h20]
    by_cases hin : i < n
    · rw [if_pos hin]
      exact .inl count_invalidate
    · obtain rfl : i = n := by omega
      rw [if_neg hin]
      exact .inr (.inl first.1)
  | refused hne hnone creds' => simp at hc
  | stored hzero creds' hcreds =>
    rw [mem_take_sortPrefix, hcreds] at hc
    obtain ⟨rk, hrk, rfl⟩ := List.mem_map.mp hc
    obtain ⟨hmem, hpass⟩ := List.mem_filter.mp (List.mem_of_mem_take hrk)
    exact .inr (.inr ⟨rk, hmem, hpass, rfl⟩)

end List

/-! ## Parsed requests -/

theorem allowListItems_le {n i : Nat} {arr : CborValue} (hi : i ≤ 20) :
    Yields (fun m => m ≤ 20) (allowListItems n i arr) := by
  induction n generalizing i arr with
  | zero => exact yields_pure hi
  | succ n ih =>
    unfold allowListItems
    intro w m w' h
    obtain ⟨hlt, h⟩ := failIf_bind_eq_ok.mp h
    rw [bind_eq_ok] at h
    obtain ⟨⟨⟩, w₁, -, h⟩ := h
    rw [bind_eq_ok] at h
    obtain ⟨arr', w₂, -, h⟩ := h
    exact ih (not_le.mp hlt) _ _ _ h

theorem getAssertionMember_credLen {GA GA' : GetAssertion} {key : Int} {it : CborValue}
    (h : getAssertionMember GA key it = .ok GA') : GA'.credLen = GA.credLen := by
  unfold getAssertionMember at h
  split_ifs at h
  case neg => exact congrArg GetAssertion.credLen (except_pure_eq_ok.mp h)
  all_goals
    obtain ⟨a, -, h⟩ := except_bind_eq_ok.mp h
    obtain rfl := except_pure_eq_ok.mp h
    rfl

theorem getAssertionStep_le {GA : GetAssertion} {key : Int} {it : CborValue} (hGA : GA.credLen ≤ 20) :
    Yields (fun GA' => GA'.credLen ≤ 20) (getAssertionStep GA key it) := by
  intro w GA' w' h
  unfold getAssertionStep at h
  rcases ite_eq_ok.mp h with ⟨-, h⟩ | ⟨-, h⟩
  · rw [bind_eq_ok] at h
    obtain ⟨n, w₁, hitems, h⟩ := h
    obtain ⟨rfl, -⟩ := pure_eq_ok.mp h
    have hyields : Yields (fun m => m ≤ 20) (parseAllowListCredentials it) :=
      yields_bind fun _ => yields_bind fun _ => yields_bind fun _ => allowListItems_le (Nat.zero_le _)
    exact hyields _ _ _ hitems
  · rw [getAssertionMember_credLen (ctapCheck_eq_ok.mp h).1]
    exact hGA

theorem getAssertionMembers_le {n : Nat} {s : CtapStatus} {GA : GetAssertion} {it : CborValue}
    (hGA : GA.credLen ≤ 20) : Yields (fun GA' => GA'.credLen ≤ 20) (getAssertionMembers n s GA it) := by
  induction n generalizing s GA it with
  | zero => exact yields_pure hGA
  | succ n ih =>
    unfold getAssertionMembers
    refine yields_bind fun ⟨key, it⟩ => (getAssertionStep_le hGA).bind fun GA' hGA' => ?_
    exact yields_bind fun _ => yields_bind fun _ => ih hGA'

/-- An allow list has at most twenty entries. -/
theorem parseGetAssertionRequest_le {request : List UInt8} :
    Yields (fun GA => GA.credLen ≤ 20) (parseGetAssertionRequest request) :=
  yields_bind fun _ => yields_bind fun _ => yields_bind fun _ => getAssertionMembers_le (Nat.zero_le _)

/-! ## Requests -/

section Run

variable {P : Platform} {request : List UInt8} {w w' : World}

/-- The user verification that a request with a pinUvAuthParam records. -/
def GetAssertion.uvFlag (GA : GetAssertion) : UInt8 := if 0 < GA.pinUvAuthParam.len then 1 else 0

theorem verifyGetAssertionAuth_uvFlag {GA : GetAssertion} {hash : Bytes 32}
    (h : verifyGetAssertionAuth P GA hash w = .ok () w') : w'.ga.userVerified = GA.uvFlag := by
  unfold verifyGetAssertionAuth at h
  unfold GetAssertion.uvFlag
  rcases ite_eq_ok.mp h with ⟨hlen, h⟩ | ⟨hlen, h⟩
  · rw [if_pos hlen]
    obtain ⟨-, h⟩ := failIf_bind_eq_ok.mp h
    rw [bind_eq_ok] at h
    obtain ⟨⟨⟩, w₁, -, h⟩ := h
    rw [get_bind] at h
    obtain ⟨-, h⟩ := failIf_bind_eq_ok.mp h
    rw [get_bind] at h
    obtain ⟨-, h⟩ := failIf_bind_eq_ok.mp h
    rw [get_bind] at h
    obtain ⟨-, h⟩ := failIf_bind_eq_ok.mp h
    obtain rfl := modify_eq_ok.mp h
    rfl
  · rw [if_neg hlen]
    obtain rfl := modify_eq_ok.mp h
    rfl

/-- The filter of a request. -/
def AssertionRun.filter (A : AssertionRun P request w w') : Filter :=
  A.verified.filter (P.prims.sha256 A.GA.rp.bytes)
    (rpIdLookupOf P.prims A.parsed.keys (P.prims.sha256 A.GA.rp.bytes))

theorem AssertionRun.filter_keys (A : AssertionRun P request w w') : A.filter.keys = w.keys :=
  ((touches_verifyGetAssertionAuth .keys (by decide)).ok A.verify).trans
    ((touches_parseGetAssertionRequest .keys (by decide)).ok A.parse)

theorem AssertionRun.filter_rkFiles (A : AssertionRun P request w w') : A.filter.rkFiles = w.rkFiles :=
  ((touches_verifyGetAssertionAuth .rkFiles (by decide)).ok A.verify).trans
    ((touches_parseGetAssertionRequest .rkFiles (by decide)).ok A.parse)

theorem AssertionRun.filter_userVerified (A : AssertionRun P request w w') :
    A.filter.userVerified = decide (A.GA.uvFlag ≠ 0) := by
  rw [← verifyGetAssertionAuth_uvFlag A.verify]
  rfl

theorem AssertionRun.filtered (A : AssertionRun P request w w') :
    Filtered P A.filter A.GA.credLen A.verified.ga.creds (A.listed.ga.creds, A.count) := by
  rw [(buildFilteredCredentialList_ok A.list).1]
  exact filterCredentials_cases (parseGetAssertionRequest_le _ _ _ A.parse)

end Run

/-- A credential that a served request signs with. -/
def Served.SignsWith (r : Served) (cred : CredentialDescriptor) : Prop :=
  ∃ authData hash, .signed cred authData hash ∈ r.after.assertionEvents

/-- What a successful authenticatorGetAssertion signs with is in its filtered list. -/
theorem Served.Valid.signsWith {P : Platform} {r : Served} {cred : CredentialDescriptor} (hv : r.Valid P)
    (hc : commandOf r.cmd = .getAssertion) (hok : r.status = .ok) (hs : r.SignsWith cred) :
    ∃ (w₁ : World) (A : AssertionRun P r.request (r.before.withInputs r.after.inputs) w₁) (c : CredentialDescriptor),
      c ∈ A.creds ∧ cred.Shows c := by
  obtain ⟨authData, hash, hs⟩ := hs
  obtain ⟨w₁, hafter, hd⟩ := hv.run
  rcases hd with ⟨-, hd⟩ | ⟨e, herr, -⟩
  · have hcmd := (dispatch_ok hd).2
    rw [hc] at hcmd
    obtain ⟨A⟩ := ctapGetAssertion_ok hcmd
    obtain ⟨cred', authData', h⟩ := A.asserted
    obtain ⟨c, hget, hshows⟩ := h.shows
    have hsigned := ((h.with_lastcmd hafter).signed_eq rfl hs).1
    exact ⟨w₁, A, c, List.mem_of_getElem? hget, hsigned ▸ hshows⟩
  · rw [hok] at herr
    cases herr

end TkeyFido2
