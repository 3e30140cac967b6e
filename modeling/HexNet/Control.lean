/-
Control frames on the wire: what `write_control` puts in front of a packet's
messages, as fields.

Everything a connection can owe at once is a small part of the smallest body a
packet can have, so nothing owed is ever left for the next packet:
`writeControl_spec` says which frames go out and that nothing stays owed.
-/
import HexNet.ChannelFacts
import HexNet.Connection

namespace HexNet

open BitFields

/-! ## A control frame's fields -/

/-- A control frame with what it carries. -/
inductive ControlFrame
  | ping
  | close (reason : CloseReason)
  | pathChallenge (token : BitVec 64)
  | pathResponse (token : BitVec 64)
  | resumeTicket (ticket : EncryptedTicket)
  | accepted

namespace ControlFrame

def kind : ControlFrame → ControlKind
  | ping => .ping
  | close _ => .close
  | pathChallenge _ => .pathChallenge
  | pathResponse _ => .pathResponse
  | resumeTicket _ => .resumeTicket
  | accepted => .accepted

/-- What is written past the frame's kind. -/
def body : ControlFrame → Write Unit
  | ping | accepted => pure ()
  | close reason => BitWriter.writeBits reason.bits CloseReason.width
  | pathChallenge token | pathResponse token => BitWriter.writeU64 token.toNat
  | resumeTicket ticket => ControlQueue.writeTicket ticket

/-- The fields past the frame's kind, which ends at bit `p`. -/
def bodyFields (p : Nat) : ControlFrame → List (Nat × Nat)
  | ping | accepted => []
  | close reason => [(3, reason.bits)]
  | pathChallenge token | pathResponse token => [(32, token.toNat % 2 ^ 32), (32, token.toNat / 2 ^ 32)]
  | resumeTicket ticket => [(10, ticket.items.length)] ++ ([((8 - (p + 10) % 8) % 8, 0)] ++ bytes ticket.items)

/-- A whole frame starting at bit `p`. -/
def fields (p : Nat) (f : ControlFrame) : List (Nat × Nat) := [(3, 1)] ++ ([(3, f.kind.bits)] ++ f.bodyFields (p + 6))

/-- Bits enough for the frame wherever it starts. -/
def room : ControlFrame → Nat
  | ping | accepted => 6
  | close _ => 9
  | pathChallenge _ | pathResponse _ => 70
  | resumeTicket _ => 4119

theorem width_fields_le (p : Nat) (f : ControlFrame) : width (f.fields p) ≤ f.room := by
  cases f with
  | resumeTicket ticket =>
    have := ticket.le
    unfold maxBlob at this
    simp only [fields, bodyFields, room, width_append, width_cons, width_nil, width_bytes]
    omega
  | _ => simp [fields, bodyFields, room]

open BitWriter in
theorem body_emits (p : Nat) (f : ControlFrame) : Emits p f.body (f.bodyFields p) := by
  cases f with
  | ping | accepted => exact Emits.pure p
  | close reason => exact writeBits_emits p _ (by decide)
  | pathChallenge token | pathResponse token => exact writeU64_emits p _
  | resumeTicket ticket =>
    refine (writeRange_emits p (Nat.zero_le _) ticket.le (by decide)).bind ((align_emits _).bind ?_)
    refine writeBytes_emits ?_ _
    simp only [width_cons, width_nil]
    omega

open BitWriter in
theorem write_emits (p : Nat) (f : ControlFrame) :
    Emits p (do FrameKind.control.write; f.kind.write; f.body : Write Unit) (f.fields p) := by
  refine (writeBits_emits p _ (by decide)).bind ((writeBits_emits _ _ (by decide)).bind ?_)
  exact body_emits _ f

end ControlFrame

/-- Control frames one after another, the first starting at bit `p`. -/
def controlFields : Nat → List ControlFrame → List (Nat × Nat)
  | _, [] => []
  | p, f :: fs => f.fields p ++ controlFields (p + width (f.fields p)) fs

theorem controlFields_append (p : Nat) (fs gs : List ControlFrame) :
    controlFields p (fs ++ gs) = controlFields p fs ++ controlFields (p + width (controlFields p fs)) gs := by
  induction fs generalizing p with
  | nil => simp [controlFields]
  | cons f fs ih => simp only [List.cons_append, controlFields, ih, width_append, List.append_assoc, Nat.add_assoc]

theorem width_controlFields_le (p : Nat) (fs : List ControlFrame) :
    width (controlFields p fs) ≤ (fs.map ControlFrame.room).sum := by
  induction fs generalizing p with
  | nil => simp [controlFields]
  | cons f fs ih =>
    have h₁ := f.width_fields_le p
    have h₂ := ih (p + width (f.fields p))
    simp only [controlFields, width_append, List.map_cons, List.sum_cons]
    omega

/-- A frame is six bits at least. -/
theorem length_le_width_controlFields (p : Nat) (fs : List ControlFrame) : fs.length ≤ width (controlFields p fs) := by
  induction fs generalizing p with
  | nil => exact Nat.zero_le _
  | cons f fs ih =>
    have := ih (p + width (f.fields p))
    simp only [controlFields, ControlFrame.fields, width_append, width_cons, List.length_cons] at this ⊢
    omega

/-! ## Writing them -/

/-- What a writer holding `gs` is after `fs` were written: they are there, and
its buffer is as long as it was. -/
structure Wrote (gs : List (Nat × Nat)) (len : Nat) (fs : List ControlFrame) (w : BitWriter) : Prop where
  holds : w.Holds (gs ++ controlFields (width gs) fs)
  len_eq : w.buf.length = len

theorem Wrote.nil {gs : List (Nat × Nat)} {w : BitWriter} (hw : w.Holds gs) : Wrote gs w.buf.length [] w :=
  ⟨by simpa [controlFields] using hw, rfl⟩

/-- The bits a writer may have taken for `fs`. -/
def roomFor (fs : List ControlFrame) : Nat := (fs.map ControlFrame.room).sum

/-- A frame there is room for is written behind the ones before it. -/
theorem Wrote.frame {gs : List (Nat × Nat)} {len : Nat} {fs : List ControlFrame} {w : BitWriter} (h : Wrote gs len fs w)
    (f : ControlFrame) (hfit : width gs + roomFor fs + f.room ≤ 8 * len) :
    ∃ w', writeControlFrame w f.kind f.body = (w', true) ∧ Wrote gs len (fs ++ [f]) w' := by
  have hbefore : width (controlFields (width gs) fs) ≤ roomFor fs := width_controlFields_le _ fs
  have hframe := f.width_fields_le (width (gs ++ controlFields (width gs) fs))
  have hlen := h.len_eq
  obtain ⟨w', hrun, hold, hlen'⟩ := (f.write_emits _ w _ h.holds rfl).1 (by rw [width_append] at hframe ⊢; omega)
  refine ⟨w', ?_, ?_, hlen'.trans hlen⟩
  · rw [writeControlFrame, hrun]
  · rw [width_append, List.append_assoc] at hold
    simpa [controlFields_append, controlFields] using hold

namespace ControlQueue

/-- A frame where it is owed. -/
def owing (owed : Bool) (f : ControlFrame) : List ControlFrame := if owed then [f] else []

theorem writeOwed_spec {gs : List (Nat × Nat)} {len : Nat} {fs : List ControlFrame} {w : BitWriter}
    (h : Wrote gs len fs w) (owed wrote : Bool) (f : ControlFrame)
    (hfit : width gs + roomFor fs + f.room ≤ 8 * len) :
    ∃ w', writeOwed owed f.kind f.body (w, wrote) = ((w', wrote || owed), false) ∧
      Wrote gs len (fs ++ owing owed f) w' := by
  cases owed with
  | false => exact ⟨w, by simp [writeOwed], by simpa [owing] using h⟩
  | true =>
    obtain ⟨w', heq, hwrote⟩ := h.frame f hfit
    exact ⟨w', by simp [writeOwed, heq], hwrote⟩

theorem roomFor_owing_le (owed : Bool) (f : ControlFrame) : roomFor (owing owed f) ≤ f.room := by
  cases owed <;> simp [roomFor, owing]

/-- The frames a queue owes, in the order they are written. -/
def frames (q : ControlQueue) : List ControlFrame :=
  owing q.owed.accepted .accepted ++ owing q.owed.pathChallenge (.pathChallenge q.pathChallenge) ++
    owing q.owed.pathResponse (.pathResponse q.pathResponse) ++ owing q.owed.resumeTicket (.resumeTicket q.ticket)

/-- A queue that has gone out. -/
def drained (q : ControlQueue) : ControlQueue := { q with owed := .none }

theorem roomFor_append (fs gs : List ControlFrame) : roomFor (fs ++ gs) = roomFor fs + roomFor gs := by
  simp [roomFor]

theorem roomFor_frames_le (q : ControlQueue) : roomFor q.frames ≤ 4265 := by
  have h₁ := roomFor_owing_le q.owed.accepted .accepted
  have h₂ := roomFor_owing_le q.owed.pathChallenge (.pathChallenge q.pathChallenge)
  have h₃ := roomFor_owing_le q.owed.pathResponse (.pathResponse q.pathResponse)
  have h₄ := roomFor_owing_le q.owed.resumeTicket (.resumeTicket q.ticket)
  simp only [ControlFrame.room] at h₁ h₂ h₃ h₄
  simp only [frames, roomFor_append]
  omega

/-- Everything owed goes out. -/
theorem write_spec {gs : List (Nat × Nat)} {len : Nat} {fs : List ControlFrame} {w : BitWriter}
    (h : Wrote gs len fs w) (q : ControlQueue) (hfit : width gs + roomFor fs + 4265 ≤ 8 * len) :
    ∃ w', q.write w = (q.drained, w', !q.isEmpty) ∧ Wrote gs len (fs ++ q.frames) w' := by
  have r₁ := roomFor_owing_le q.owed.accepted .accepted
  have r₂ := roomFor_owing_le q.owed.pathChallenge (.pathChallenge q.pathChallenge)
  have r₃ := roomFor_owing_le q.owed.pathResponse (.pathResponse q.pathResponse)
  simp only [ControlFrame.room] at r₁ r₂ r₃
  obtain ⟨w₁, e₁, h₁⟩ := writeOwed_spec h q.owed.accepted false .accepted (by simp only [ControlFrame.room]; omega)
  obtain ⟨w₂, e₂, h₂⟩ := writeOwed_spec h₁ q.owed.pathChallenge (false || q.owed.accepted)
    (.pathChallenge q.pathChallenge) (by simp only [ControlFrame.room, roomFor_append]; omega)
  obtain ⟨w₃, e₃, h₃⟩ := writeOwed_spec h₂ q.owed.pathResponse ((false || q.owed.accepted) || q.owed.pathChallenge)
    (.pathResponse q.pathResponse) (by simp only [ControlFrame.room, roomFor_append]; omega)
  obtain ⟨w₄, e₄, h₄⟩ := writeOwed_spec h₃ q.owed.resumeTicket
    (((false || q.owed.accepted) || q.owed.pathChallenge) || q.owed.pathResponse) (.resumeTicket q.ticket)
    (by simp only [ControlFrame.room, roomFor_append]; omega)
  simp only [ControlFrame.kind, ControlFrame.body] at e₁ e₂ e₃ e₄
  refine ⟨w₄, ?_, by simpa only [frames, List.append_assoc] using h₄⟩
  simp only [write, e₁, e₂, e₃, e₄, drained, Owed.none, isEmpty, Owed.isEmpty]
  cases q.owed.accepted <;> cases q.owed.pathChallenge <;> cases q.owed.pathResponse <;>
    cases q.owed.resumeTicket <;> rfl

theorem frames_isEmpty (q : ControlQueue) : q.frames.isEmpty = q.isEmpty := by
  simp only [frames, isEmpty, Owed.isEmpty]
  cases q.owed.accepted <;> cases q.owed.pathChallenge <;> cases q.owed.pathResponse <;>
    cases q.owed.resumeTicket <;> rfl

end ControlQueue

namespace Connection

variable {R : Type}

/-- The close notice of a connection that is closing. -/
def closeFrames (c : Connection R) : List ControlFrame :=
  match c.lifecycle with
  | .closing reason _ => [.close reason]
  | .open | .closed => []

/-- The ping that makes a probe ack-eliciting. -/
def pingFrames (c : Connection R) : List ControlFrame := if c.pendingProbes ≠ 0 then [.ping] else []

/-- Every control frame the next packet carries. -/
def controlFrames (c : Connection R) : List ControlFrame := c.closeFrames ++ c.control.frames ++ c.pingFrames

theorem controlFrames_isEmpty (c : Connection R) :
    c.controlFrames.isEmpty = (c.closeFrames.isEmpty && c.control.isEmpty && c.pingFrames.isEmpty) := by
  rw [controlFrames, ← ControlQueue.frames_isEmpty]
  cases c.closeFrames <;> cases c.control.frames <;> simp

/-- The connection once its control frames are in a packet. -/
def controlled (c : Connection R) : Connection R :=
  { c with control := c.control.drained, pendingProbes := c.pendingProbes - 1 }

theorem roomFor_closeFrames_le (c : Connection R) : roomFor c.closeFrames ≤ 9 := by
  unfold closeFrames
  split <;> simp [roomFor, ControlFrame.room]

/-- **Control frames always fit**: a packet carries all that is owed, and
nothing stays owed. -/
theorem writeControl_spec (c : Connection R) {w : BitWriter} (hw : w.Holds []) (hfit : 4280 ≤ 8 * w.buf.length) :
    ∃ w', c.writeControl w = (c.controlled, w', !c.controlFrames.isEmpty) ∧
      Wrote [] w.buf.length c.controlFrames w' := by
  have hstart := Wrote.nil hw
  have hclose : ∃ w₁, c.writeClose w = (w₁, !c.closeFrames.isEmpty) ∧ Wrote [] w.buf.length c.closeFrames w₁ := by
    unfold writeClose closeFrames
    cases c.lifecycle with
    | closing reason remaining =>
      refine hstart.frame (.close reason) ?_
      simp only [ControlFrame.room, roomFor, width_nil, List.map_nil, List.sum_nil]
      omega
    | _ => exact ⟨w, rfl, hstart⟩
  obtain ⟨w₁, e₁, h₁⟩ := hclose
  have r₁ := c.roomFor_closeFrames_le
  obtain ⟨w₂, e₂, h₂⟩ := ControlQueue.write_spec h₁ c.control (by rw [width_nil]; omega)
  have r₂ := c.control.roomFor_frames_le
  have hping : ∃ w₃, { c with control := c.control.drained }.writePing w₂ =
      (c.controlled, w₃, !c.pingFrames.isEmpty) ∧ Wrote [] w.buf.length c.controlFrames w₃ := by
    by_cases hzero : c.pendingProbes = 0
    · refine ⟨w₂, ?_, by simpa [controlFrames, pingFrames, hzero] using h₂⟩
      simp [writePing, pingFrames, controlled, hzero]
    · obtain ⟨w₃, e₃, h₃⟩ := h₂.frame .ping (by
        simp only [ControlFrame.room, width_nil, ControlQueue.roomFor_append]; omega)
      simp only [ControlFrame.kind, ControlFrame.body] at e₃
      refine ⟨w₃, ?_, by simpa [controlFrames, pingFrames, hzero] using h₃⟩
      simp [writePing, pingFrames, controlled, hzero, e₃]
  obtain ⟨w₃, e₃, h₃⟩ := hping
  refine ⟨w₃, ?_, h₃⟩
  simp only [writeControl, e₁, e₂, e₃, controlFrames_isEmpty, Bool.not_and]

end Connection
end HexNet
