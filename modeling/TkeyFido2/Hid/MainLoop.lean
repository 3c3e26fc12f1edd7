import TkeyFido2.Hid.Fifo
import TkeyFido2.Hid.Invariants

/-!
# The main loop

The loop of `main.c`.  A packet goes through the queue of `fifo.c`, which is empty again at the end of every
round, so that the loop does what it would do without the queue.
-/

namespace TkeyFido2.Hid

open Prog

/-- What `readselect` finds in a round: nothing, a frame of the management interface with the result of
`cdc_handle_frame`, or the bytes of a report. -/
inductive Event
  | nothing
  | cdc (accepted : Bool)
  | fido (data : List UInt8)

/-- The state of `main`. -/
structure Main where
  device : Device
  fifo : Fifo := {}
  hidmsg : Packet := Bytes.zero 64

/-- `usbhid_recv`: its result, the message and the queue. -/
def usbhidRecv (fifo : Fifo) (msg : Packet) : Nat × Packet × Fifo :=
  if fifo.hidmsgSize ≠ 0 then (hidMessageSize, (fifoHidmsgTake fifo).2) else (0, msg, fifo)

/-- The end of a round: the timeouts. -/
def Device.checkTimeouts (d : Device) : Device := { d with layer := ctaphidCheckTimeouts d.layer }

section Rounds

variable (version : Version) (P : Platform)

/-- The end of a round, from `usbhid_recv` on. -/
def Main.receive (env : Env) (m : Main) : Except Halt Main := do
  let (n, hidmsg, fifo) := usbhidRecv m.fifo m.hidmsg
  if 0 < n then
    let d ← ctaphidHandlePacket version P env m.device hidmsg
    pure { device := d.checkTimeouts, fifo := fifo, hidmsg := Bytes.zero 64 }
  else pure { device := m.device.checkTimeouts, fifo := fifo, hidmsg := hidmsg }

/-- A round of the loop of `main`. -/
def Main.round (m : Main) (env : Env) : Event → Except Halt Main
  | .nothing => pure m
  | .cdc accepted => if accepted then m.receive version P env else pure m
  | .fido data =>
    if data.length ≠ hidMessageSize then pure m
    else
      let r := fifoHidmsgAdd m.fifo (Bytes.ofList 64 data)
      if r.1 ≠ 0 then throw .assert else { m with fifo := r.2 }.receive version P env

/-- Rounds, each with what happens in it. -/
def Main.run (m : Main) : List (Env × Event) → Except Halt Main
  | [] => pure m
  | (env, e) :: es => do
    let m ← m.round version P env e
    m.run es

/-- A round without the queue. -/
def Device.round (d : Device) (env : Env) : Event → Except Halt Device
  | .nothing => pure d
  | .cdc accepted => pure (if accepted then d.checkTimeouts else d)
  | .fido data =>
    if data.length ≠ hidMessageSize then pure d
    else do
      let d ← ctaphidHandlePacket version P env d (Bytes.ofList 64 data)
      pure d.checkTimeouts

def Device.rounds (d : Device) : List (Env × Event) → Except Halt Device
  | [] => pure d
  | (env, e) :: es => do
    let d ← d.round version P env e
    d.rounds es

end Rounds

section Refinement

variable {version : Version} {P : Platform} {env : Env} {m : Main} {e : Event} {es : List (Env × Event)}
  {d d' : Device}

/-- `m` is a state of the loop with the device `d` and an empty queue. -/
def Main.Shows (m : Main) (d : Device) : Prop := m.device = d ∧ m.fifo.Holds []

/-- Two results that both stop in the same way, or both go on in related states. -/
def Agree : Except Halt Main → Except Halt Device → Prop
  | .ok m, .ok d => m.Shows d
  | .error h, .error h' => h = h'
  | _, _ => False

theorem Agree.map_device {x : Except Halt Main} {y : Except Halt Device} (h : Agree x y) :
    x.map Main.device = y ∧ ∀ m, x = .ok m → y = .ok m.device ∧ m.fifo.Holds [] := by
  cases x with
  | error stop =>
    cases y with
    | error stop' => exact ⟨congrArg Except.error h, fun _ hm => absurd hm (by simp)⟩
    | ok d => exact h.elim
  | ok m =>
    cases y with
    | error stop' => exact h.elim
    | ok d =>
      obtain ⟨rfl, hf⟩ := h
      refine ⟨rfl, fun m' hm' => ?_⟩
      obtain rfl := Except.ok.inj hm'
      exact ⟨rfl, hf⟩

theorem hidmsgSize_of_holds {f : Fifo} {q : List (Bytes 64)} (h : f.Holds q) :
    f.hidmsgSize.toNat = q.length := by
  obtain ⟨-, rfl⟩ := h
  simp [Fifo.messages, Ring.contents]

/-- With an empty queue nothing is received. -/
theorem receive_nothing (h : m.Shows d) : Agree (m.receive version P env) (.ok d.checkTimeouts) := by
  obtain ⟨rfl, hf⟩ := h
  have hzero : m.fifo.hidmsgSize = 0 := UInt32.toNat_inj.mp (hidmsgSize_of_holds hf)
  have hrecv : usbhidRecv m.fifo m.hidmsg = (0, m.hidmsg, m.fifo) := if_neg (not_not.mpr hzero)
  unfold Main.receive
  rw [hrecv]
  exact ⟨rfl, hf⟩

/-- A packet that was put into the empty queue is the one received, and the queue is empty again. -/
theorem receive_packet {pkt : Packet} {f : Fifo} (hd : m.device = d) (hf : f.Holds [pkt]) :
    Agree ({ m with fifo := f }.receive version P env)
      (ctaphidHandlePacket version P env d pkt >>= fun d => pure d.checkTimeouts) := by
  subst hd
  obtain ⟨htaken, hrest⟩ := fifoStep_refines .take hf
  have hone : f.hidmsgSize.toNat = 1 := hidmsgSize_of_holds hf
  have hne : f.hidmsgSize ≠ 0 := fun h => by
    rw [h] at hone
    cases hone
  have htake : (fifoHidmsgTake f).2.1 = pkt := by
    unfold fifoStep at htaken
    simp only [BoundedQueue.step, BoundedQueue.Answer.taken.injEq] at htaken
    split at htaken
    · exact Option.some.inj htaken
    · cases htaken
  have hrecv : usbhidRecv f m.hidmsg = (hidMessageSize, pkt, (fifoHidmsgTake f).2.2) := by
    unfold usbhidRecv
    rw [if_pos hne, ← htake]
  unfold Main.receive
  rw [hrecv]
  dsimp only
  rw [if_pos (by decide)]
  cases ctaphidHandlePacket version P env m.device pkt with
  | error h => rfl
  | ok d => exact ⟨rfl, hrest⟩

theorem round_agree (h : m.Shows d) (env : Env) (e : Event) :
    Agree (m.round version P env e) (d.round version P env e) := by
  cases e with
  | nothing => exact h
  | cdc accepted =>
    unfold Main.round Device.round
    cases accepted with
    | false => exact h
    | true => exact receive_nothing h
  | fido data =>
    unfold Main.round Device.round
    dsimp only
    by_cases hlen : data.length ≠ hidMessageSize
    · rw [if_pos hlen, if_pos hlen]
      exact h
    · rw [if_neg hlen, if_neg hlen]
      obtain ⟨hadded, hheld⟩ := fifoStep_refines (.add (Bytes.ofList 64 data)) h.2
      have hok : ¬ (fifoHidmsgAdd m.fifo (Bytes.ofList 64 data)).1 ≠ 0 := by
        simpa [fifoStep, BoundedQueue.step] using hadded
      rw [if_neg hok]
      exact receive_packet h.1 hheld

theorem run_agree (h : m.Shows d) : Agree (m.run version P es) (d.rounds version P es) := by
  induction es generalizing m d with
  | nil => exact h
  | cons x es ih =>
    obtain ⟨env, e⟩ := x
    have hround : Agree (m.round version P env e) (d.round version P env e) := round_agree h env e
    unfold Main.run Device.rounds
    cases hm : m.round version P env e with
    | error stop =>
      cases hd : d.round version P env e with
      | error stop' =>
        rw [hm, hd] at hround
        exact hround
      | ok d' =>
        rw [hm, hd] at hround
        exact hround.elim
    | ok m' =>
      cases hd : d.round version P env e with
      | error stop' =>
        rw [hm, hd] at hround
        exact hround.elim
      | ok d' =>
        rw [hm, hd] at hround
        exact ih hround

/-- A round leads from one state of the packet level to another. -/
theorem Reached.round (hd : Reached version P d) (h : d.round version P env e = .ok d') :
    Reached version P d' := by
  cases e with
  | nothing =>
    obtain rfl := Except.ok.inj h
    exact hd
  | cdc accepted =>
    obtain rfl := Except.ok.inj h
    cases accepted with
    | false => exact hd
    | true => exact hd.timeouts
  | fido data =>
    unfold Device.round at h
    dsimp only at h
    split_ifs at h
    · obtain rfl := Except.ok.inj h
      exact hd
    · obtain ⟨d₁, hp, h⟩ := except_bind_eq_ok.mp h
      obtain rfl := Except.ok.inj h
      exact (hd.packet env _ hp).timeouts

theorem Reached.rounds (hd : Reached version P d) (h : d.rounds version P es = .ok d') :
    Reached version P d' := by
  induction es generalizing d with
  | nil =>
    obtain rfl := Except.ok.inj h
    exact hd
  | cons x es ih =>
    obtain ⟨d₁, hround, hrest⟩ := except_bind_eq_ok.mp h
    exact ih (hd.round hround) hrest

/-- **The main loop.**  From the start and over any events the loop does what it would do if it handed every
report of 64 bytes to `ctaphid_handle_packet` as it comes and then checked the timeouts: the queue never refuses
a report and is empty between two rounds, and the states between two rounds are those of the packet level. -/
theorem main_loop_hands_over (hd : d.IsStarted P) (es : List (Env × Event)) :
    (Main.run version P ⟨d, {}, Bytes.zero 64⟩ es).map Main.device = d.rounds version P es ∧
    ∀ m, Main.run version P ⟨d, {}, Bytes.zero 64⟩ es = .ok m →
      m.fifo.messages = [] ∧ Reached version P m.device := by
  have hshows : Main.Shows ⟨d, {}, Bytes.zero 64⟩ d := ⟨rfl, Fifo.ok_init, Fifo.messages_init⟩
  have hrun : Agree (Main.run version P ⟨d, {}, Bytes.zero 64⟩ es) (d.rounds version P es) := run_agree hshows
  obtain ⟨hmap, hok⟩ := hrun.map_device
  refine ⟨hmap, fun m hm => ?_⟩
  obtain ⟨hd', -, hempty⟩ := hok m hm
  exact ⟨hempty, (Reached.start hd).rounds hd'⟩

theorem main_loop_hands_over_sim :
    (Main.run simVersion simPlatform ⟨simDevice, {}, Bytes.zero 64⟩
      [(simEnv, .fido (initReport 2 ctaphidPing 1 [7]).toList)]).map Main.device
      = simDevice.rounds simVersion simPlatform [(simEnv, .fido (initReport 2 ctaphidPing 1 [7]).toList)] :=
  (main_loop_hands_over simDevice_isStarted _).1

end Refinement

end TkeyFido2.Hid
