import TkeyFido2.Lib.Bytes
import TkeyFido2.Lib.RingBuffer

/-!
# The queue of packets

`fifo.c` keeps the received packets in a buffer of ten slots, with a place to write, a place to read and a number.
-/

namespace TkeyFido2.Hid

open BoundedQueue (Call Answer)

def msgSize : Nat := 64
def nrOfMsg : UInt32 := 10

/-- The globals of `fifo.c`. -/
structure Fifo where
  hidmsgWritePtr : UInt32 := 0
  hidmsgReadPtr : UInt32 := 0
  hidmsgSize : UInt32 := 0
  hidmsgWriteBuf : Bytes 640 := Bytes.zero 640

/-- A pointer one slot further. -/
def nextSlot (ptr : UInt32) : UInt32 := if nrOfMsg ≤ ptr + 1 then 0 else ptr + 1

/-- `fifo_hidmsg_add`. -/
def fifoHidmsgAdd (f : Fifo) (msg : Bytes 64) : Int × Fifo :=
  if f.hidmsgSize < nrOfMsg then
    (0, { hidmsgWriteBuf := f.hidmsgWriteBuf.patch (f.hidmsgWritePtr.toNat * msgSize) msg.toList
          hidmsgWritePtr := nextSlot f.hidmsgWritePtr
          hidmsgReadPtr := f.hidmsgReadPtr
          hidmsgSize := f.hidmsgSize + 1 })
  else (-1, f)

/-- `fifo_hidmsg_take`: the result, what is left in `msg`, and the queue. -/
def fifoHidmsgTake (f : Fifo) : Int × Bytes 64 × Fifo :=
  let msg := f.hidmsgWriteBuf.slice (f.hidmsgReadPtr.toNat * msgSize) 64
  if 0 < f.hidmsgSize then
    (0, msg, { f with
      hidmsgReadPtr := nextSlot f.hidmsgReadPtr
      hidmsgSize := f.hidmsgSize - 1 })
  else (-1, msg, f)

/-- A call and what its caller learns. -/
def fifoStep (f : Fifo) : Call (Bytes 64) → Answer (Bytes 64) × Fifo
  | .add msg => (.added ((fifoHidmsgAdd f msg).1 = 0), (fifoHidmsgAdd f msg).2)
  | .take => (.taken (if (fifoHidmsgTake f).1 = 0 then some (fifoHidmsgTake f).2.1 else none), (fifoHidmsgTake f).2.2)

namespace Fifo

/-- The slots of the buffer. -/
def slot (f : Fifo) (i : Nat) : Bytes 64 := f.hidmsgWriteBuf.slice (i * msgSize) 64

/-- The packets that are held, the oldest first. -/
def messages (f : Fifo) : List (Bytes 64) := Ring.contents 10 f.slot f.hidmsgReadPtr.toNat f.hidmsgSize.toNat

/-- Both pointers are slots, and the writing one is behind the last packet. -/
structure Ok (f : Fifo) : Prop where
  read : f.hidmsgReadPtr.toNat < 10
  size : f.hidmsgSize.toNat ≤ 10
  write : f.hidmsgWritePtr.toNat = (f.hidmsgReadPtr.toNat + f.hidmsgSize.toNat) % 10

theorem ok_init : ({} : Fifo).Ok := ⟨by decide, by decide, by decide⟩

theorem messages_init : ({} : Fifo).messages = [] := rfl

end Fifo

theorem toNat_nextSlot {ptr : UInt32} (h : ptr.toNat < 10) : (nextSlot ptr).toNat = (ptr.toNat + 1) % 10 := by
  have hsucc : (ptr + 1).toNat = ptr.toNat + 1 := by
    rw [UInt32.toNat_add, show (1 : UInt32).toNat = 1 from rfl]
    omega
  have hlast : nrOfMsg ≤ ptr + 1 ↔ 9 ≤ ptr.toNat := by
    rw [UInt32.le_iff_toNat_le, hsucc, show nrOfMsg.toNat = 10 from rfl]
    omega
  unfold nextSlot
  by_cases hle : 9 ≤ ptr.toNat
  · rw [if_pos (hlast.mpr hle), show (0 : UInt32).toNat = 0 from rfl]
    omega
  · rw [if_neg (mt hlast.mp hle), hsucc]
    omega

/-- Writing a slot. -/
theorem slot_patch {f : Fifo} {k i : Nat} (msg : Bytes 64) (hk : k < 10) (hi : i < 10) :
    (f.hidmsgWriteBuf.patch (k * msgSize) msg.toList).slice (i * msgSize) 64
      = Function.update f.slot k msg i := by
  unfold msgSize
  rcases Nat.lt_trichotomy i k with h | rfl | h
  · rw [Function.update_of_ne (Nat.ne_of_lt h)]
    exact Bytes.slice_patch_of_le _ _ (by omega) (by rw [msg.toList_length]; omega)
  · rw [Function.update_self]
    exact Bytes.slice_patch_self _ _ (by omega)
  · rw [Function.update_of_ne (Nat.ne_of_gt h)]
    exact Bytes.slice_patch_of_ge _ _ (by rw [msg.toList_length]; omega) (by omega)

section Step

variable {f : Fifo}

theorem fifoHidmsgAdd_refines (h : f.Ok) (msg : Bytes 64) :
    (fifoStep f (.add msg)).1 = (BoundedQueue.step 10 f.messages (.add msg)).1 ∧ (fifoStep f (.add msg)).2.Ok ∧
      (fifoStep f (.add msg)).2.messages = (BoundedQueue.step 10 f.messages (.add msg)).2 := by
  have hroom : f.hidmsgSize < nrOfMsg ↔ f.messages.length < 10 := by
    rw [Fifo.messages, Ring.length_contents, UInt32.lt_iff_toNat_lt]
    rfl
  by_cases hlt : f.messages.length < 10
  · have hsize : f.hidmsgSize.toNat < 10 := by rwa [Fifo.messages, Ring.length_contents] at hlt
    have hsucc : (f.hidmsgSize + 1).toNat = f.hidmsgSize.toNat + 1 := by
      rw [UInt32.toNat_add, show (1 : UInt32).toNat = 1 from rfl]
      omega
    have hwrite : f.hidmsgWritePtr.toNat < 10 := by
      rw [h.write]
      exact Nat.mod_lt _ (by decide)
    have hqueue : BoundedQueue.step 10 f.messages (.add msg) = (.added true, f.messages ++ [msg]) := if_pos hlt
    have hadd : fifoHidmsgAdd f msg = (0, _) := if_pos (hroom.mpr hlt)
    rw [hqueue, fifoStep, hadd]
    refine ⟨rfl, ⟨h.read, ?_, ?_⟩, ?_⟩
    · show (f.hidmsgSize + 1).toNat ≤ 10
      rw [hsucc]
      exact hsize
    · show (nextSlot f.hidmsgWritePtr).toNat = (f.hidmsgReadPtr.toNat + (f.hidmsgSize + 1).toNat) % 10
      rw [toNat_nextSlot hwrite, h.write, hsucc, Nat.mod_add_mod, Nat.add_assoc]
    · show Ring.contents 10 _ f.hidmsgReadPtr.toNat (f.hidmsgSize + 1).toNat = f.messages ++ [msg]
      rw [hsucc, Fifo.messages, ← Ring.contents_update hsize, ← h.write]
      exact Ring.contents_congr (by decide) fun i hi => slot_patch msg hwrite hi
  · have hqueue : BoundedQueue.step 10 f.messages (.add msg) = (.added false, f.messages) := if_neg hlt
    have hadd : fifoHidmsgAdd f msg = (-1, f) := if_neg (mt hroom.mp hlt)
    rw [hqueue, fifoStep, hadd]
    exact ⟨rfl, h, rfl⟩

theorem fifoHidmsgTake_refines (h : f.Ok) :
    (fifoStep f .take).1 = (BoundedQueue.step 10 f.messages .take).1 ∧ (fifoStep f .take).2.Ok ∧
      (fifoStep f .take).2.messages = (BoundedQueue.step 10 f.messages .take).2 := by
  by_cases hempty : f.hidmsgSize.toNat = 0
  · have hno : ¬ 0 < f.hidmsgSize := by
      rw [UInt32.lt_iff_toNat_lt, hempty]
      exact Nat.not_lt_zero _
    have hmessages : f.messages = [] := by
      rw [Fifo.messages, hempty]
      rfl
    have htake : fifoHidmsgTake f = (-1, _, f) := if_neg hno
    rw [hmessages, fifoStep, htake]
    exact ⟨rfl, h, hmessages⟩
  · obtain ⟨k, hk⟩ := Nat.exists_eq_succ_of_ne_zero hempty
    have hyes : 0 < f.hidmsgSize := by
      rw [UInt32.lt_iff_toNat_lt, hk]
      exact Nat.succ_pos k
    have hpred : (f.hidmsgSize - 1).toNat = k := by
      rw [UInt32.toNat_sub, show (1 : UInt32).toNat = 1 from rfl]
      have hle := h.size
      omega
    have hmessages : f.messages
        = f.slot f.hidmsgReadPtr.toNat :: Ring.contents 10 f.slot ((f.hidmsgReadPtr.toNat + 1) % 10) k := by
      rw [Fifo.messages, hk, Ring.contents_succ, Nat.mod_eq_of_lt h.read]
    have htake : fifoHidmsgTake f = (0, f.slot f.hidmsgReadPtr.toNat, _) := if_pos hyes
    rw [hmessages, fifoStep, htake]
    refine ⟨rfl, ⟨?_, ?_, ?_⟩, ?_⟩
    · show (nextSlot f.hidmsgReadPtr).toNat < 10
      rw [toNat_nextSlot h.read]
      exact Nat.mod_lt _ (by decide)
    · show (f.hidmsgSize - 1).toNat ≤ 10
      rw [hpred]
      have hle := h.size
      omega
    · show f.hidmsgWritePtr.toNat = ((nextSlot f.hidmsgReadPtr).toNat + (f.hidmsgSize - 1).toNat) % 10
      rw [toNat_nextSlot h.read, hpred, h.write, hk, Nat.mod_add_mod, Nat.add_right_comm, Nat.add_assoc]
    · show Ring.contents 10 f.slot (nextSlot f.hidmsgReadPtr).toNat (f.hidmsgSize - 1).toNat = _
      rw [toNat_nextSlot h.read, hpred]
      rfl

end Step

/-- A queue with its packets. -/
def Fifo.Holds (f : Fifo) (q : List (Bytes 64)) : Prop := f.Ok ∧ f.messages = q

theorem fifoStep_refines {f : Fifo} {q : List (Bytes 64)} (i : Call (Bytes 64)) (h : f.Holds q) :
    (fifoStep f i).1 = (BoundedQueue.step 10 q i).1 ∧ (fifoStep f i).2.Holds (BoundedQueue.step 10 q i).2 := by
  obtain ⟨hok, rfl⟩ := h
  cases i with
  | add msg => exact fifoHidmsgAdd_refines hok msg
  | take => exact fifoHidmsgTake_refines hok

/-- A call that is refused changes nothing. -/
theorem fifoStep_refused (f : Fifo) :
    (∀ msg, (fifoHidmsgAdd f msg).1 ≠ 0 → (fifoHidmsgAdd f msg).2 = f) ∧
      ((fifoHidmsgTake f).1 ≠ 0 → (fifoHidmsgTake f).2.2 = f) := by
  unfold fifoHidmsgAdd fifoHidmsgTake
  refine ⟨fun msg h => ?_, fun h => ?_⟩
  · split
    · rename_i hroom
      rw [if_pos hroom] at h
      exact absurd rfl h
    · rfl
  · split
    · rename_i hsome
      rw [if_pos hsome] at h
      exact absurd rfl h
    · rfl

/-- Over all calls from the start, `fifo.c` is a queue of ten packets: it gives the answers of the queue and holds its
packets, a refused call changes nothing, and what was added is what was taken followed by what is held. -/
theorem fifo_refines_queue (calls : List (Call (Bytes 64))) :
    let f := Machine.run fifoStep {} calls
    let q := Machine.run (BoundedQueue.step 10) [] calls
    f.1 = q.1 ∧ f.2.messages = q.2 ∧ q.2.length ≤ 10 ∧
      BoundedQueue.accepted calls f.1 = BoundedQueue.delivered f.1 ++ f.2.messages ∧
      (∀ msg, (fifoHidmsgAdd f.2 msg).1 ≠ 0 → (fifoHidmsgAdd f.2 msg).2 = f.2) ∧
      ((fifoHidmsgTake f.2).1 ≠ 0 → (fifoHidmsgTake f.2).2.2 = f.2) := by
  intro f q
  obtain ⟨hanswers, -, hmessages⟩ :=
    Machine.run_simulates (R := Fifo.Holds) (fun _ _ i h => fifoStep_refines i h) ⟨Fifo.ok_init, Fifo.messages_init⟩ calls
  have haccepted := BoundedQueue.accepted_eq 10 [] calls
  rw [List.nil_append] at haccepted
  refine ⟨hanswers, hmessages, BoundedQueue.length_le 10 (Nat.zero_le _) calls, ?_, fifoStep_refused f.2⟩
  rw [show f.1 = q.1 from hanswers, show f.2.messages = q.2 from hmessages]
  exact haccepted

end TkeyFido2.Hid
