/-
What a peer makes of a packet's body, a frame at a time: reading a frame
(`readFrame`) and acting on it (`handleFrame`) are told apart here, and
`readFrames_seen` says that `read_frames` is the one and then the other, frame
after frame, up to padding, the end or an error.

What a side accepts of the other's control frames is its role's: `FrameReader`.
-/
import HexNet.ConnectionFacts

namespace HexNet

open BitFields

/-- A frame as it is read. -/
inductive Frame
  | control (frame : ControlFrame)
  | message (frame : MessageFrame)

/-! ## Control frames -/

theorem CloseReason.fromBits_bits (reason : CloseReason) : fromBits reason.bits = some reason := by
  cases reason <;> rfl

open BitReader in
theorem controlKind_parses (p : Nat) (kind : ControlKind) : Parses p ControlKind.read [(3, kind.bits)] kind := by
  have hbits : kind.bits < 2 ^ controlKindBits := by cases kind <;> decide
  show Parses p ControlKind.read ([(3, kind.bits)] ++ []) kind
  refine (readBits_parses p (by decide) hbits).bind ?_
  rw [ControlKind.fromBits_bits]
  exact .pure _ kind

open BitReader in
theorem readCloseReason_parses (p : Nat) (reason : CloseReason) :
    Parses p Connection.readCloseReason [(3, reason.bits)] reason := by
  have hbits : reason.bits < 2 ^ CloseReason.width := by cases reason <;> decide
  show Parses p Connection.readCloseReason ([(3, reason.bits)] ++ []) reason
  refine (readBits_parses p (by decide) hbits).bind ?_
  rw [CloseReason.fromBits_bits]
  exact .pure _ reason

open BitReader in
theorem readToken_parses (p : Nat) (token : BitVec 64) (f : BitVec 64 → ControlFrame) :
    Parses p (do return f (BitVec.ofNat 64 (← readU64))) [(32, token.toNat % 2 ^ 32), (32, token.toNat / 2 ^ 32)]
      (f token) := by
  have h := (readU64_parses p token.isLt).map fun n => f (BitVec.ofNat 64 n)
  rwa [BitVec.ofNat_toNat, BitVec.setWidth_eq] at h

open BitReader in
theorem readTicket_parses (p : Nat) (ticket : EncryptedTicket) :
    Parses p Client.readTicket ((ControlFrame.resumeTicket ticket).bodyFields p) ticket := by
  have hslice : (FixedVec.fromSlice ticket.items : Option EncryptedTicket) = some ticket := dif_pos ticket.le
  refine (readRange_parses p (Nat.zero_le _) ticket.le (by decide)).bind ((align_parses _).bind ?_)
  have haligned : (p + width [(bitsRequired (maxBlob - 0), ticket.items.length - 0)] +
      width [((8 - (p + width [(bitsRequired (maxBlob - 0), ticket.items.length - 0)]) % 8) % 8, 0)]) % 8 = 0 := by
    simp only [width_cons, width_nil]
    omega
  refine peek_parses haligned ticket.items ?_
  rw [hslice]
  exact (skipBytes_parses haligned ticket.items).map fun _ => ticket

/-- Ping and Close are symmetric; `other` reads everything else. -/
def readControlFrame (other : ControlKind → Read ControlFrame) : Read ControlFrame := do
  match ← ControlKind.read with
  | .ping => return .ping
  | .close => return .close (← Connection.readCloseReason)
  | kind => other kind

/-- A side's reading of control frames: what it reads, and what it does then. -/
class FrameReader (R : Type) [Role R] where
  read : Read ControlFrame
  act : Connection R → Timestamp → ControlFrame → Connection R
  /-- The frames the side may receive. -/
  Receivable : ControlFrame → Prop
  readControl_eq : ∀ (c : Connection R) now, c.readControl now = do return act c now (← read)
  act_channels : ∀ (c : Connection R) now f, (act c now f).channels = c.channels
  read_parses : ∀ (p : Nat) (f : ControlFrame), Receivable f →
    BitReader.Parses p read ([(3, f.kind.bits)] ++ f.bodyFields (p + 3)) f

namespace Client

/-- The frames only a client receives. -/
def readFrame : ControlKind → Read ControlFrame
  | .pathChallenge => do return .pathChallenge (BitVec.ofNat 64 (← BitReader.readU64))
  | .resumeTicket => do return .resumeTicket (← readTicket)
  | .accepted => return .accepted
  | _ => throw .outOfRange

def act (c : Connection Client) (_now : Timestamp) : ControlFrame → Connection Client
  | .close reason => c.peerClosed reason
  | .pathChallenge token => { c with control := c.control.queuePathResponse token }
  | .resumeTicket ticket => { c with role := ⟨.unread ticket⟩, events := c.events.push .resumeTicketReceived }
  | .ping | .accepted | .pathResponse _ => c

end Client

instance : FrameReader Client where
  read := readControlFrame Client.readFrame
  act := Client.act
  Receivable
    | .pathResponse _ => False
    | _ => True
  readControl_eq c now := by
    simp only [Connection.readControl, readControlFrame, bind_assoc]
    refine bind_congr fun kind => ?_
    cases kind with
    | pathResponse => rfl
    | _ => simp [Role.readControl, Client.readControl, Client.readFrame, Client.act]
  act_channels c now f := by cases f <;> rfl
  read_parses p f hf := by
    refine (controlKind_parses p f.kind).bind ?_
    cases f with
    | ping | accepted => exact .pure _ _
    | close reason => exact (readCloseReason_parses _ reason).map _
    | pathChallenge token => exact readToken_parses _ token _
    | pathResponse token => exact hf.elim
    | resumeTicket ticket => exact (readTicket_parses _ ticket).map _

namespace Server

/-- The frames only a server receives. -/
def readFrame : ControlKind → Read ControlFrame
  | .pathResponse => do return .pathResponse (BitVec.ofNat 64 (← BitReader.readU64))
  | _ => throw .outOfRange

def act (c : Connection Server) (now : Timestamp) : ControlFrame → Connection Server
  | .close reason => c.peerClosed reason
  | .pathResponse token => pathResponse c now token
  | .ping | .accepted | .pathChallenge _ | .resumeTicket _ => c

end Server

instance : FrameReader Server where
  read := readControlFrame Server.readFrame
  act := Server.act
  Receivable
    | .ping | .close _ | .pathResponse _ => True
    | _ => False
  readControl_eq c now := by
    simp only [Connection.readControl, readControlFrame, bind_assoc]
    refine bind_congr fun kind => ?_
    cases kind with
    | pathChallenge | resumeTicket | accepted => rfl
    | _ => simp [Role.readControl, Server.readControl, Server.readFrame, Server.act]
  act_channels c now f := by
    cases f with
    | pathResponse token =>
      simp only [Server.act, Server.pathResponse]
      split
      · rfl
      · split <;> rfl
    | _ => rfl
  read_parses p f hf := by
    refine (controlKind_parses p f.kind).bind ?_
    cases f with
    | ping => exact .pure _ _
    | close reason => exact (readCloseReason_parses _ reason).map _
    | pathResponse token => exact readToken_parses _ token _
    | _ => exact hf.elim

namespace Connection

variable {R : Type} [Role R] [FrameReader R]

/-! ## The reading loop -/

/-- The frame next in a body; `none` where padding ends it. -/
def readFrame (c : Connection R) : Read (Option Frame) := do
  match ← FrameKind.read with
  | .padding => return none
  | .control => return some (.control (← FrameReader.read R))
  | .message => return some (.message (← c.channels.readFrame))
  | _ => throw .outOfRange

/-- What a frame does to the connection, and the messages it delivers. -/
def handleFrame (c : Connection R) (now : Timestamp) : Frame → Connection R × List Message
  | .control f => (FrameReader.act c now f, [])
  | .message f => ({ c with channels := (c.channels.act f).1 }, (c.channels.act f).2)

/-- The frames a body is read as, each acted on before the next is read, and
the error that ended the reading, if one did. -/
def seen (now : Timestamp) : Nat → Connection R → BitReader → List Frame × Option ReadError
  | 0, _, _ => ([], none)
  | fuel + 1, c, r =>
    if r.bitsRemaining < frameKindBits then ([], none)
    else
      match c.readFrame.run r with
      | .error e _ => ([], some e)
      | .ok none _ => ([], none)
      | .ok (some f) r =>
        let rest := seen now fuel (c.handleFrame now f).1 r
        (f :: rest.1, rest.2)

/-- Frames acted on one after another: the messages they deliver. -/
def handleFrames (now : Timestamp) : List Frame → Connection R → Connection R × List Message
  | [], c => (c, [])
  | f :: fs, c =>
    let rest := handleFrames now fs (c.handleFrame now f).1
    (rest.1, (c.handleFrame now f).2 ++ rest.2)

theorem handleFrames_append (now : Timestamp) (fs gs : List Frame) (c : Connection R) :
    handleFrames now (fs ++ gs) c =
      ((handleFrames now gs (handleFrames now fs c).1).1,
        (handleFrames now fs c).2 ++ (handleFrames now gs (handleFrames now fs c).1).2) := by
  induction fs generalizing c with
  | nil => rfl
  | cons f fs ih => simp [handleFrames, ih]

/-- What `read_frames` answers once the frames `seen` were read. -/
def answer (eliciting : Bool) (seen : List Frame × Option ReadError) : Except ReadError Bool :=
  match seen.2 with
  | none => .ok (eliciting || !seen.1.isEmpty)
  | some e => .error e

/-- **Reading is seeing and acting**: `read_frames` leaves what its frames do,
in order, and reports an eliciting packet where there was one. -/
theorem readFrames_seen (now : Timestamp) (fuel : Nat) (c : Connection R) (r : BitReader) (eliciting : Bool) :
    readFrames now fuel c r eliciting =
      ((handleFrames now (seen now fuel c r).1 c).1, (handleFrames now (seen now fuel c r).1 c).2,
        answer eliciting (seen now fuel c r)) := by
  induction fuel generalizing c r eliciting with
  | zero => simp [readFrames, seen, handleFrames, answer]
  | succ fuel ih =>
    rw [readFrames, seen]
    split
    · simp [handleFrames, answer]
    rw [readFrame, EStateM.run_bind]
    cases FrameKind.read.run r with
    | error e r₁ => simp [handleFrames, answer]
    | ok kind r₁ =>
      cases kind with
      | padding => simp [handleFrames, answer]
      | control =>
        dsimp only
        rw [FrameReader.readControl_eq, EStateM.run_bind, EStateM.run_bind]
        cases (FrameReader.read R).run r₁ with
        | error e r₂ => simp [handleFrames, answer]
        | ok f r₂ => simp [ih, handleFrames, handleFrame, answer]
      | message =>
        dsimp only
        rw [Channels.readMessage_eq, EStateM.run_bind, EStateM.run_bind]
        cases c.channels.readFrame.run r₁ with
        | error e r₂ => simp [handleFrames, answer]
        | ok f r₂ => simp [ih, handleFrames, handleFrame, answer]
      | _ => rfl

/-! ## A body frame by frame -/

open BitReader

/-- A frame the reader sees is the next one seen. -/
theorem seen_next {c : Connection R} {r : BitReader} {fs gs : List (Nat × Nat)} {f : Frame} (now : Timestamp)
    (fuel : Nat) (hparse : Parses r.bitsRead c.readFrame fs (some f)) (hwide : 3 ≤ width fs)
    (hsees : r.Sees (fs ++ gs)) :
    ∃ r' : BitReader, r'.Sees gs ∧ r'.bitsRead = r.bitsRead + width fs ∧ r'.buffer = r.buffer ∧
      seen now (fuel + 1) c r =
        (f :: (seen now fuel (c.handleFrame now f).1 r').1, (seen now fuel (c.handleFrame now f).1 r').2) := by
  obtain ⟨r', hrun, hsees', hpos, hbuf⟩ := hparse r gs hsees rfl
  have hroom : ¬ r.bitsRemaining < frameKindBits := by
    have hfits := hsees.fits
    rw [width_append] at hfits
    rw [BitReader.bitsRemaining, show frameKindBits = 3 from rfl]
    omega
  refine ⟨r', hsees', hpos, hbuf, ?_⟩
  rw [seen, if_neg hroom, hrun]

/-- Padding, or too few bits for a kind, end a body. -/
theorem seen_end {c : Connection R} {r : BitReader} {tail : List (Nat × Nat)} (now : Timestamp) (fuel : Nat)
    (hsees : r.Sees tail) (hend : Channels.EndsPacket r.buffer r.bitsRead tail) :
    seen now (fuel + 1) c r = ([], none) := by
  rw [seen]
  split
  · rfl
  next hmore =>
    rcases hend with ⟨gs, rfl⟩ | hshort
    · obtain ⟨r', hrun, -⟩ := Channels.kindRead_parses r.bitsRead .padding r gs hsees rfl
      rw [readFrame, EStateM.run_bind, hrun]
      rfl
    · rw [BitReader.bitsRemaining, show frameKindBits = 3 from rfl] at hmore
      omega

theorem control_parses (c : Connection R) (p : Nat) {f : ControlFrame} (hf : FrameReader.Receivable R f) :
    Parses p c.readFrame (f.fields p) (some (.control f)) := by
  refine (Channels.kindRead_parses p .control).bind ?_
  exact (FrameReader.read_parses (R := R) (p + 3) f hf).map fun f => some (Frame.control f)

/-- Control frames a side may receive are seen as they were written. -/
theorem seen_controls (now : Timestamp) (fuel : Nat) {fs : List ControlFrame} {c : Connection R} {r : BitReader}
    {gs : List (Nat × Nat)} (hfs : ∀ f ∈ fs, FrameReader.Receivable R f)
    (hsees : r.Sees (controlFields r.bitsRead fs ++ gs)) :
    ∃ (c' : Connection R) (r' : BitReader), c'.channels = c.channels ∧ r'.Sees gs ∧
      r'.bitsRead = r.bitsRead + width (controlFields r.bitsRead fs) ∧ r'.buffer = r.buffer ∧
      seen now (fs.length + fuel) c r =
        (fs.map .control ++ (seen now fuel c' r').1, (seen now fuel c' r').2) := by
  induction fs generalizing c r with
  | nil => exact ⟨c, r, rfl, hsees, rfl, rfl, by simp⟩
  | cons f fs ih =>
    rw [controlFields, List.append_assoc] at hsees
    have hwide : 3 ≤ width (f.fields r.bitsRead) := by simp [ControlFrame.fields]
    obtain ⟨r₁, hsees₁, hpos₁, hbuf₁, hseen₁⟩ := seen_next now (fs.length + fuel)
      (control_parses c r.bitsRead (hfs f (by simp))) hwide hsees
    rw [← hpos₁] at hsees₁
    obtain ⟨c', r', hchannels, hsees', hpos', hbuf', hseen'⟩ :=
      ih (c := (c.handleFrame now (.control f)).1) (fun f hf => hfs f (by simp [hf])) hsees₁
    refine ⟨c', r', hchannels.trans (FrameReader.act_channels c now f), hsees', ?_, hbuf'.trans hbuf₁, ?_⟩
    · rw [hpos', hpos₁, controlFields, width_append, Nat.add_assoc]
    · rw [List.length_cons, Nat.add_right_comm, hseen₁, hseen']
      rfl

end Connection
end HexNet
