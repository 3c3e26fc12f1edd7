import Mathlib.Algebra.Order.Group.Nat
import Mathlib.Data.List.Basic
import Mathlib.Tactic.Common

/-!
# Hashing by blocks

A compression function is chained over the blocks of a message.  A hash that takes its message piece
by piece holds the chained state of the whole blocks and the items behind them; `Absorbed` says that
this is what some message leaves, and the rules say how it grows.
-/

namespace BlockHash

variable {S α : Type} (compress : S → List α → S) (n : Nat)

/-- The state after the whole blocks of a message. -/
def chain (s : S) (msg : List α) : S :=
  if _h : 0 < n ∧ n ≤ msg.length then chain (compress s (msg.take n)) (msg.drop n) else s
termination_by msg.length
decreasing_by
  rw [List.length_drop]
  omega

variable {n}

theorem chain_of_lt (s : S) {msg : List α} (h : msg.length < n) : chain compress n s msg = s := by
  rw [chain, dif_neg (by omega)]

theorem chain_cons_block (hn : 0 < n) (s : S) {block : List α} (hblock : block.length = n) (rest : List α) :
    chain compress n s (block ++ rest) = chain compress n (compress s block) rest := by
  rw [chain, dif_pos ⟨hn, by rw [List.length_append]; omega⟩, List.take_left' hblock, List.drop_left' hblock]

/-- Whole blocks first. -/
theorem chain_append (hn : 0 < n) (s : S) {full : List α} (hfull : n ∣ full.length) (rest : List α) :
    chain compress n s (full ++ rest) = chain compress n (chain compress n s full) rest := by
  obtain ⟨k, hk⟩ := hfull
  induction k generalizing s full with
  | zero =>
    rw [List.eq_nil_of_length_eq_zero hk, List.nil_append,
      chain_of_lt compress s (show ([] : List α).length < n from hn)]
  | succ k ih =>
    rw [Nat.mul_succ] at hk
    have hhead : (full.take n).length = n := by
      rw [List.length_take]
      omega
    have htail : (full.drop n).length = n * k := by
      rw [List.length_drop]
      omega
    have hsplit : full = full.take n ++ full.drop n := (List.take_append_drop n full).symm
    rw [hsplit, List.append_assoc, chain_cons_block compress hn s hhead, chain_cons_block compress hn s hhead,
      ih _ htail]

theorem chain_block (hn : 0 < n) (s : S) {block : List α} (hblock : block.length = n) :
    chain compress n s block = compress s block := by
  rw [← List.append_nil block, chain_cons_block compress hn s hblock, chain_of_lt compress _ hn, List.append_nil]

/-! ## A message that was absorbed -/

/-- `st` is the state after the whole blocks of `msg` and `buf` is what stands behind them. -/
def Absorbed (n : Nat) (s₀ st : S) (buf msg : List α) : Prop :=
  ∃ full, msg = full ++ buf ∧ n ∣ full.length ∧ buf.length < n ∧ st = chain compress n s₀ full

variable {compress} {s₀ st : S} {buf msg : List α}

theorem Absorbed.nil (hn : 0 < n) (s₀ : S) : Absorbed compress n s₀ s₀ [] [] :=
  ⟨[], rfl, ⟨0, rfl⟩, hn, (chain_of_lt compress s₀ (show ([] : List α).length < n from hn)).symm⟩

/-- An item that leaves the block incomplete. -/
theorem Absorbed.push (h : Absorbed compress n s₀ st buf msg) (x : α) (hlt : buf.length + 1 < n) :
    Absorbed compress n s₀ st (buf ++ [x]) (msg ++ [x]) := by
  obtain ⟨full, hmsg, hfull, -, hst⟩ := h
  refine ⟨full, by rw [hmsg, List.append_assoc], hfull, ?_, hst⟩
  rwa [List.length_append]

/-- An item that completes the block. -/
theorem Absorbed.complete (h : Absorbed compress n s₀ st buf msg) (x : α) (hlen : buf.length + 1 = n) :
    Absorbed compress n s₀ (compress st (buf ++ [x])) [] (msg ++ [x]) := by
  obtain ⟨full, hmsg, hfull, hlt, hst⟩ := h
  have hn : 0 < n := by omega
  have hblock : (buf ++ [x]).length = n := by rwa [List.length_append]
  refine ⟨msg ++ [x], (List.append_nil _).symm, ?_, hn, ?_⟩
  · rw [hmsg, List.append_assoc, List.length_append, hblock]
    exact (Nat.dvd_add_right hfull).mpr (Nat.dvd_refl n)
  · rw [hmsg, List.append_assoc, chain_append compress hn s₀ hfull, ← hst, chain_block compress hn st hblock]

theorem Absorbed.length_buf (h : Absorbed compress n s₀ st buf msg) : buf.length = msg.length % n := by
  obtain ⟨full, hmsg, ⟨k, hk⟩, hlt, -⟩ := h
  rw [hmsg, List.length_append, hk, Nat.mul_add_mod, Nat.mod_eq_of_lt hlt]

/-- What comes behind is chained as if the message were there as a whole. -/
theorem Absorbed.chain_append (h : Absorbed compress n s₀ st buf msg) (rest : List α) :
    chain compress n st (buf ++ rest) = chain compress n s₀ (msg ++ rest) := by
  obtain ⟨full, hmsg, hfull, hlt, hst⟩ := h
  rw [hmsg, List.append_assoc, BlockHash.chain_append compress (by omega) s₀ hfull, hst]

end BlockHash
