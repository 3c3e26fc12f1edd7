import TkeyFido2.Hid.Replies

/-!
# What earlier messages leave in the buffer

`ctap_buffer` is shared by all channels and never cleared, so a message is followed by what earlier
ones left.  The two runs of a statement about it differ in the bytes behind the message only.  Two
commands read past the message: GETRNG takes its count from the first byte also when there is none,
and a U2F request is read at fixed offsets whatever the length of the message is.
-/

namespace TkeyFido2.Hid

open Cbor Prog

/-! ## U2F requests -/

section U2f

variable {P : Platform} {b b' : CtapBuffer} {n : Nat}

end U2f

/-! ## Two devices that differ in the buffer -/

/-- The device with other bytes in `ctap_buffer`. -/
def Device.withData (d : Device) (data : Bytes 1344) : Device :=
  { d with layer := { d.layer with buffer := { d.layer.buffer with data := data } } }

/-- All of a device but the bytes of the buffer. -/
def Device.visible (d : Device) : Device := d.withData (Bytes.zero 1344)

/-- The same outcome: the same packets and the same state, up to the bytes of the buffer. -/
def SameOutcome (x y : Except Halt Device) : Prop := x.map Device.visible = y.map Device.visible

section Outcomes

variable {version : Version} {P : Platform} {env : Env} {d : Device} {data : Bytes 1344} {cid : UInt32}
  {cmd : UInt8} {len : UInt16}

/-- The same outcome of a command. -/
def SameServed (x y : Except Halt (Bool × Device)) : Prop :=
  x.map (Prod.map id Device.visible) = y.map (Prod.map id Device.visible)

theorem SameServed.cases {x y : Except Halt (Bool × Device)} (h : SameServed x y) :
    (∃ done d₁ d₂, x = .ok (done, d₁) ∧ y = .ok (done, d₂) ∧ d₁.visible = d₂.visible) ∨
      ∃ e, x = .error e ∧ y = .error e := by
  unfold SameServed at h
  cases x with
  | ok p =>
    cases y with
    | ok q =>
      obtain ⟨done, d₁⟩ := p
      obtain ⟨done', d₂⟩ := q
      obtain ⟨rfl, hd⟩ := Prod.mk.inj (Except.ok.inj h)
      exact .inl ⟨_, d₁, d₂, rfl, rfl, hd⟩
    | error e => cases h
  | error e =>
    cases y with
    | ok q => cases h
    | error e' =>
      obtain rfl := Except.error.inj h
      exact .inr ⟨_, rfl, rfl⟩

theorem SameServed.bind {x y : Except Halt (Bool × Device)} {k : Bool × Device → Except Halt (Bool × Device)}
    (h : SameServed x y)
    (hk : ∀ done d₁ d₂, d₁.visible = d₂.visible → SameServed (k (done, d₁)) (k (done, d₂))) :
    SameServed (x >>= k) (y >>= k) := by
  obtain ⟨done, d₁, d₂, rfl, rfl, hd⟩ | ⟨e, rfl, rfl⟩ := h.cases
  · exact hk done d₁ d₂ hd
  · rfl

end Outcomes

/-! ## The last packet -/

/-- The layer with other bytes in `ctap_buffer`. -/
def Layer.withData (l : Layer) (data : Bytes 1344) : Layer := { l with buffer := { l.buffer with data := data } }

section LastPacket

variable {version : Version} {l : Layer} {pkt : Packet} {data : Bytes 1344}

theorem cidDel_withData (l : Layer) (data : Bytes 1344) (cid : UInt32) :
    (l.withData data).cidDel cid = (l.cidDel cid).withData data := by
  have hcids : (l.withData data).cids = l.cids := rfl
  unfold Layer.cidDel
  rw [hcids]
  split <;> rfl

theorem release_visible (d : Device) (cid : UInt32) : (d.release cid).visible = d.visible.release cid := by
  have h := cidDel_withData d.layer (Bytes.zero 1344) cid
  show ({ d with layer := ((d.layer.cidDel cid).withData (Bytes.zero 1344)).bufferReset } : Device)
    = { d with layer := ((d.layer.withData (Bytes.zero 1344)).cidDel cid).bufferReset }
  rw [h]

theorem SameServed.release {x y : Except Halt (Bool × Device)} (h : SameServed x y) (cid : UInt32) :
    SameOutcome (x >>= fun p => pure (if p.1 then p.2.release cid else p.2))
      (y >>= fun p => pure (if p.1 then p.2.release cid else p.2)) := by
  obtain ⟨done, d₁, d₂, rfl, rfl, hd⟩ | ⟨e, rfl, rfl⟩ := h.cases
  · refine congrArg Except.ok ?_
    cases done with
    | true =>
      show (d₁.release cid).visible = (d₂.release cid).visible
      rw [release_visible, release_visible, hd]
    | false => exact hd
  · rfl

variable {P : Platform} {env : Env} {d : Device} {l' : Layer} {r : Received}

end LastPacket

theorem SameOutcome.sent {x y : Except Halt Device} (h : SameOutcome x y) :
    x.toOption.map (·.layer.sent.length) = y.toOption.map (·.layer.sent.length) := by
  unfold SameOutcome at h
  cases x with
  | ok d₁ =>
    cases y with
    | ok d₂ =>
      have hvisible : d₁.visible = d₂.visible := Except.ok.inj h
      have hsent := congrArg (fun d : Device => d.layer.sent.length) hvisible
      exact congrArg some hsent
    | error e => cases h
  | error e =>
    cases y with
    | ok d₂ => cases h
    | error e' => rfl

end TkeyFido2.Hid
