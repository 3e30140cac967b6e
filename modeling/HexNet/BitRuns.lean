/-
Runs of the bit writer (`bits.rs`): single writes in any order, and
checkpoints rolled back to.

`write_bits` documents that a failed write consumes nothing. So it is of every
write but one: `write_u64` is two writes of 32 bits, and with room for the
first only it fails after it (`half_written`).

A run of bytes is copied into the buffer past the pending word, and its end
taken back into scratch. The buffer is then ahead of what single bytes would
have left there, and nothing can tell: writers that stand for one stream of
fields are `Twins`, whatever their buffers hold beyond it, and every step keeps
them so (`Twins.perform`, `Twins.rollback`).
-/
import HexNet.BitsFacts
import HexNet.Lib.Lts
import HexNet.Lib.Simulation

namespace HexNet

inductive WriteOp
  | writeBits (value : UInt32) (bits : Nat)
  | writeBool (value : Bool)
  | writeU64 (value : UInt64)
  | writeRange (value min max : UInt32)
  | writeRangeI32 (value min max : Int32)
  | align
  | writeBytes (bytes : List UInt8)
  deriving DecidableEq, Repr

namespace WriteOp

def perform : WriteOp → Write Unit
  | .writeBits value bits => BitWriter.writeBits value.toNat bits
  | .writeBool value => BitWriter.writeBool value
  | .writeU64 value => BitWriter.writeU64 value.toNat
  | .writeRange value min max => BitWriter.writeRange value.toNat min.toNat max.toNat
  | .writeRangeI32 value min max => BitWriter.writeRangeI32 value min max
  | .align => BitWriter.align
  | .writeBytes bytes => BitWriter.writeBytes bytes

/-- What the write's own assertions ask of its arguments and the writer. -/
def Allowed (w : BitWriter) : WriteOp → Prop
  | .writeBits _ bits => bits ≤ 32
  | .writeRange _ min max => min ≤ max
  | .writeRangeI32 _ min max => min ≤ max
  | .writeBytes _ => w.bitsWritten % 8 = 0
  | .writeBool _ | .writeU64 _ | .align => True

instance (w : BitWriter) : (op : WriteOp) → Decidable (op.Allowed w)
  | .writeBits _ bits => inferInstanceAs (Decidable (bits ≤ 32))
  | .writeRange _ min max => inferInstanceAs (Decidable (min ≤ max))
  | .writeRangeI32 _ min max => inferInstanceAs (Decidable (min ≤ max))
  | .writeBytes _ => inferInstanceAs (Decidable (w.bitsWritten % 8 = 0))
  | .writeBool _ | .writeU64 _ | .align => inferInstanceAs (Decidable True)

/-- The write is of two parts, and there is room for the first. -/
def Halves (w : BitWriter) : WriteOp → Prop
  | .writeU64 _ => 32 ≤ w.bitsRemaining
  | _ => False

end WriteOp

inductive WriterStep
  | write (op : WriteOp)
  | rollback (pos : Nat)

namespace BitWriter

/-- What a write leaves, done or failed. -/
def left : EStateM.Result WriteError BitWriter Unit → BitWriter
  | .ok _ w | .error _ w => w

def sys : Lts.Sys BitWriter WriterStep where
  start w := ∃ buf, w = .new buf
  step w
    | .write op, w' => op.Allowed w ∧ w' = left (op.perform.run w)
    | .rollback pos, w' => pos ≤ w.bitsWritten ∧ w' = w.rollback pos

/-! ## Failed writes -/

theorem writeBits_ok_written {value bits : Nat} {w w' : BitWriter} (h : (writeBits value bits).run w = .ok () w') :
    bits ≤ w.bitsRemaining ∧ w'.bitsWritten = w.bitsWritten + bits := by
  rw [run_writeBits] at h
  split at h
  · cases h
  next hroom =>
    cases h
    refine ⟨by omega, ?_⟩
    unfold flushWord
    split <;> rfl

theorem checked_error {refused : Prop} [Decidable refused] {value bits : Nat} {w w' : BitWriter} {e : WriteError}
    (h : (if refused then throw .outOfRange else writeBits value bits : Write Unit).run w = .error e w') : w' = w := by
  split at h
  · cases h
    rfl
  · exact writeBits_error h

/-- A word that does not fit is not begun, or its low half is written. -/
theorem writeU64_error {value : Nat} {w w' : BitWriter} {e : WriteError} (h : (writeU64 value).run w = .error e w') :
    (w' = w ∧ w.bitsRemaining < 32) ∨ (32 ≤ w.bitsRemaining ∧ (writeBits (value % 2 ^ 32) 32).run w = .ok () w') := by
  rw [writeU64, EStateM.run_bind] at h
  split at h
  next u w₁ hfirst =>
    obtain rfl := writeBits_error h
    exact .inr ⟨(writeBits_ok_written hfirst).1, hfirst⟩
  next e' w₁ hfirst =>
    cases h
    obtain rfl := writeBits_error hfirst
    refine .inl ⟨rfl, Nat.lt_of_not_le fun hle => ?_⟩
    rw [run_writeBits, if_neg (by omega)] at hfirst
    cases hfirst

/-- A write of one part that failed left nothing. -/
theorem perform_error {op : WriteOp} {w w' : BitWriter} {e : WriteError} (hop : ∀ value, op ≠ .writeU64 value)
    (h : op.perform.run w = .error e w') : w' = w := by
  cases op with
  | writeBits value bits => exact writeBits_error h
  | writeBool value => exact writeBits_error h
  | writeU64 value => exact absurd rfl (hop value)
  | writeRange value min max => exact checked_error h
  | writeRangeI32 value min max => exact checked_error h
  | align => exact writeBits_error h
  | writeBytes bytes =>
    change (writeBytes bytes).run w = _ at h
    rw [run_writeBytes] at h
    split at h
    · cases h
      rfl
    · split at h <;> cases h

/-- **A failed write consumes nothing**, exactly when it is not one of two parts
with room for the first; of such a one the first part stays written. -/
theorem failed_write_consumes_nothing {w w' : BitWriter} {op : WriteOp} {e : WriteError}
    (h : op.perform.run w = .error e w') :
    (w' = w ↔ ¬ op.Halves w) ∧ (op.Halves w → ∃ value : UInt64, op = .writeU64 value ∧
      (writeBits (value.toNat % 2 ^ 32) 32).run w = .ok () w') := by
  cases op with
  | writeU64 value =>
    rcases writeU64_error h with ⟨hsame, hshort⟩ | ⟨hroom, hlow⟩
    · exact ⟨iff_of_true hsame (Nat.not_le.2 hshort), fun hroom => absurd hshort (Nat.not_lt.2 hroom)⟩
    · have hwritten := (writeBits_ok_written hlow).2
      refine ⟨iff_of_false (fun heq => ?_) (not_not.2 hroom), fun _ => ⟨value, rfl, hlow⟩⟩
      rw [heq] at hwritten
      omega
  | _ => exact ⟨iff_of_true (perform_error (fun _ hop => by cases hop) h) not_false, False.elim⟩

/-- A byte's room with three bits of it taken. -/
def pendingThree : BitWriter := left ((WriteOp.writeBits 5 3).perform.run (.new [0]))

/-- Six bits do not fit in the five left, and the three stay as they are. -/
theorem failed_write_consumes_nothing_pending :
    pendingThree.bitsWritten = 3 ∧ pendingThree.scratch = 5 ∧
      (WriteOp.writeBits 63 6).perform.run pendingThree = .error .overflow pendingThree ∧
      ¬ (WriteOp.writeBits 63 6).Halves pendingThree := by
  have hrun : (WriteOp.writeBits 63 6).perform.run pendingThree = .error .overflow pendingThree := rfl
  exact ⟨rfl, rfl, hrun, (failed_write_consumes_nothing hrun).1.1 rfl⟩

/-- **A word that does not fit is half written.** -/
theorem half_written : ∃ w, Lts.Reachable sys w ∧ ∃ op : WriteOp, op.Allowed w ∧ ∃ w',
    op.perform.run w = .error .overflow w' ∧ w.bitsWritten = 0 ∧ w'.bitsWritten = 32 ∧
      w'.wordIndex ≠ w.wordIndex :=
  ⟨.new [0, 0, 0, 0], .start ⟨_, rfl⟩, .writeU64 0, trivial, _, rfl, rfl, by decide, by decide⟩

/-! ## Writers of one stream -/

open BitFields LeBytes Simulation

/-- Two writers over buffers of one length that stand for the same fields. -/
def Twins (w w' : BitWriter) : Prop := ∃ fs, w.Holds fs ∧ w'.Holds fs ∧ w'.buf.length = w.buf.length

def output (w : BitWriter) : List UInt8 := w.finish.1.take w.finish.2

/-- What can be seen of a writer: its registers, and what it would finish to. -/
structure View where
  bitsWritten : Nat
  scratch : Nat
  scratchBits : Nat
  wordIndex : Nat
  output : List UInt8
  deriving DecidableEq

def view (w : BitWriter) : View := ⟨w.bitsWritten, w.scratch, w.scratchBits, w.wordIndex, w.output⟩

theorem Twins.written {w w' : BitWriter} (h : Twins w w') : w'.bitsWritten = w.bitsWritten := by
  obtain ⟨fs, hw, hw', -⟩ := h
  rw [hw.written, hw'.written]

theorem Twins.remaining {w w' : BitWriter} (h : Twins w w') : w'.bitsRemaining = w.bitsRemaining := by
  obtain ⟨fs, -, -, hlen⟩ := id h
  rw [bitsRemaining, bitsRemaining, hlen, h.written]

/-- **Twins look alike**: the stream determines all that can be seen. -/
theorem Twins.view_eq {w w' : BitWriter} (h : Twins w w') : w.view = w'.view := by
  have hwritten := h.written
  obtain ⟨fs, hw, hw', -⟩ := h
  obtain ⟨hindex, hbits⟩ := hw.position
  obtain ⟨hindex', hbits'⟩ := hw'.position
  obtain ⟨hbytes, hlen, hle, hbuf⟩ := finish_bytes hw
  obtain ⟨hbytes', hlen', hle', hbuf'⟩ := finish_bytes hw'
  have hscratch : w.scratch = w'.scratch := by rw [hw.scratch_eq, hw'.scratch_eq, hindex, hindex']
  have houtput : w.output = w'.output := by
    refine leNat_inj ?_ (hbytes.trans hbytes'.symm)
    rw [output, output, List.length_take, List.length_take, hbuf, hbuf', Nat.min_eq_left hle, Nat.min_eq_left hle',
      hlen, hlen']
  simp only [view, hwritten, hscratch, houtput, hindex, hindex', hbits, hbits']

/-- A write twins make alike: done or failed, and twins again. -/
def Uniform (m : Write Unit) : Prop := Simulates Twins Eq m m

/-- Twins make alike a write of fields that is refused outright without room for them all. -/
theorem Emits.alike {p : Nat} {m : Write Unit} {fs : List (Nat × Nat)} (hm : Emits p m fs)
    (hfull : ∀ w : BitWriter, w.bitsRemaining < width fs → m.run w = .error .overflow w) {w w' : BitWriter}
    (h : Twins w w') (hp : w.bitsWritten = p) : Related Twins Eq (m.run w) (m.run w') := by
  obtain ⟨gs, hw, hw', hlen⟩ := id h
  have hrem := h.remaining
  by_cases hroom : w.bitsRemaining < width fs
  · rw [hfull w hroom, hfull w' (by rwa [hrem])]
    exact ⟨rfl, h⟩
  · have hwidth : width gs = p := by rw [← hw.written, hp]
    have hfits : p + width fs ≤ 8 * w.buf.length := by
      have hle := hw.room
      rw [bitsRemaining] at hroom
      omega
    obtain ⟨v, hrun, hold, hbuf⟩ := (hm w gs hw hwidth).1 hfits
    obtain ⟨v', hrun', hold', hbuf'⟩ := (hm w' gs hw' hwidth).1 (by rwa [hlen])
    rw [hrun, hrun']
    exact ⟨rfl, _, hold, hold', by rw [hbuf', hbuf, hlen]⟩

theorem writeBits_uniform (value : Nat) {bits : Nat} (hbits : bits ≤ 32) : Uniform (writeBits value bits) := by
  intro w w' h
  refine (writeBits_emits _ value hbits).alike (fun v hfull => ?_) h rfl
  rw [run_writeBits, if_pos (by simpa using hfull)]

theorem checked_uniform {refused : Prop} [Decidable refused] (value : Nat) {bits : Nat} (hbits : bits ≤ 32) :
    Uniform (if refused then throw .outOfRange else writeBits value bits) := by
  split
  · exact .throw rfl
  · exact writeBits_uniform value hbits

theorem align_uniform : Uniform align := by
  intro w w' h
  have hpad := writeBits_uniform 0 (show (8 - w.bitsWritten % 8) % 8 ≤ 32 by omega) w w' h
  rw [show align.run w' = (writeBits 0 ((8 - w.bitsWritten % 8) % 8)).run w' by rw [← h.written]; rfl]
  exact hpad

/-- **Twins take every write alike**: done or failed, and twins again. -/
theorem Twins.perform {w w' : BitWriter} (h : Twins w w') {op : WriteOp} (hop : op.Allowed w) :
    Related Twins Eq (op.perform.run w) (op.perform.run w') := by
  cases op with
  | writeBits value bits => exact writeBits_uniform _ hop _ _ h
  | writeBool value => exact writeBits_uniform _ (by decide) _ _ h
  | writeU64 value =>
    exact (writeBits_uniform _ (le_refl 32)).bind (fun _ => writeBits_uniform _ (le_refl 32)) _ _ h
  | writeRange value min max =>
    exact checked_uniform _ (bitsRequired_le (by have := max.toNat_lt; omega)) _ _ h
  | writeRangeI32 value min max => exact checked_uniform _ (bitsRequired_le (UInt32.toNat_lt _)) _ _ h
  | align => exact align_uniform _ _ h
  | writeBytes bytes =>
    refine (writeBytes_emits hop bytes).alike (fun v hfull => ?_) h rfl
    rw [run_writeBytes, if_pos (by rwa [width_bytes, Nat.mul_comm] at hfull)]

/-- A writer stands for any fields with the bits of those it holds. -/
theorem Holds.congr {w : BitWriter} {fs gs : List (Nat × Nat)} (h : Holds w fs) (hwidth : width gs = width fs)
    (hpack : pack gs = pack fs) : Holds w gs where
  value := h.value.trans hpack.symm
  written := h.written.trans hwidth.symm
  split := h.split
  scratch_lt := h.scratch_lt
  word := h.word
  room := h.room
  pending := h.pending

/-- The checkpoint need not lie between two writes. -/
theorem Holds.rollback {w : BitWriter} {fs : List (Nat × Nat)} (h : Holds w fs) {pos : Nat} (hpos : pos ≤ width fs) :
    (w.rollback pos).Holds [(pos, pack fs)] := by
  have hcut : w.Holds ([(pos, pack fs)] ++ [(width fs - pos, pack fs / 2 ^ pos)]) :=
    h.congr (width_cut hpos) (pack_cut hpos)
  exact (rollback_holds hcut).1

theorem Twins.rollback {w w' : BitWriter} (h : Twins w w') {pos : Nat} (hpos : pos ≤ w.bitsWritten) :
    Twins (w.rollback pos) (w'.rollback pos) := by
  obtain ⟨fs, hw, hw', hlen⟩ := h
  rw [hw.written] at hpos
  exact ⟨_, hw.rollback hpos, hw'.rollback hpos, hlen⟩

theorem twins_left {r r' : EStateM.Result WriteError BitWriter Unit} (h : Related Twins Eq r r') :
    Twins (left r) (left r') := by
  cases r <;> cases r'
  · exact h.2
  · exact h.elim
  · exact h.elim
  · exact h.2

/-- A writer of any run stands for a stream. -/
theorem twins_of_reachable {w : BitWriter} (h : Lts.Reachable sys w) : Twins w w := by
  refine Lts.Reach.invariant (P := fun w => Twins w w) ?_ ?_ h
  · rintro _ ⟨buf, rfl⟩
    exact ⟨[], new_holds buf, new_holds buf, rfl⟩
  · intro v step v' _ hv _ hstep
    cases step with
    | write op =>
      obtain ⟨hop, rfl⟩ := hstep
      exact twins_left (hv.perform hop)
    | rollback pos =>
      obtain ⟨hpos, rfl⟩ := hstep
      exact hv.rollback hpos

/-! ## Bytes at once, and one by one -/

/-- Each byte by itself. -/
def writeEach : List UInt8 → Write Unit
  | [] => pure ()
  | b :: bs => do
    writeBits b.toNat 8
    writeEach bs

theorem writeEach_emits (p : Nat) (bs : List UInt8) : Emits p (writeEach bs) (bytes bs) := by
  induction bs generalizing p with
  | nil => exact .pure p
  | cons b bs ih => exact (writeBits_emits p b.toNat (by decide)).bind (ih _)

def answer : EStateM.Result WriteError BitWriter Unit → Option WriteError
  | .ok _ _ => none
  | .error e _ => some e

theorem answer_eq {r r' : EStateM.Result WriteError BitWriter Unit} (h : Related Twins Eq r r') :
    answer r = answer r' := by
  cases r <;> cases r'
  · rfl
  · exact h.elim
  · exact h.elim
  · exact congrArg some h.1

/-- A step's answer and the writer after it; none where its assertion fails. -/
def respond (w : BitWriter) : WriterStep → Option (Option WriteError × BitWriter)
  | .write op => if op.Allowed w then some (answer (op.perform.run w), left (op.perform.run w)) else none
  | .rollback pos => if pos ≤ w.bitsWritten then some (none, w.rollback pos) else none

/-- All a run of steps shows of the writer, up to the first failed assertion. -/
def trace : List WriterStep → BitWriter → List (Option WriteError × View)
  | [], _ => []
  | step :: steps, w =>
    match w.respond step with
    | none => []
    | some (e, w') => (e, w'.view) :: trace steps w'

theorem Twins.allowed_iff {w w' : BitWriter} (h : Twins w w') (op : WriteOp) : op.Allowed w ↔ op.Allowed w' := by
  have hwritten := h.written
  cases op <;> simp only [WriteOp.Allowed, hwritten]

theorem Twins.respond {w w' : BitWriter} (h : Twins w w') (step : WriterStep) :
    (w.respond step = none ∧ w'.respond step = none) ∨
      ∃ e v v', w.respond step = some (e, v) ∧ w'.respond step = some (e, v') ∧ Twins v v' := by
  cases step with
  | write op =>
    by_cases hop : op.Allowed w
    · have halike := h.perform hop
      refine .inr ⟨_, _, _, if_pos hop, ?_, twins_left halike⟩
      rw [answer_eq halike]
      exact if_pos ((h.allowed_iff op).1 hop)
    · exact .inl ⟨if_neg hop, if_neg (mt (h.allowed_iff op).2 hop)⟩
  | rollback pos =>
    by_cases hpos : pos ≤ w.bitsWritten
    · exact .inr ⟨_, _, _, if_pos hpos, if_pos (h.written ▸ hpos), h.rollback hpos⟩
    · exact .inl ⟨if_neg hpos, if_neg (h.written ▸ hpos)⟩

/-- **No run tells twins apart.** -/
theorem Twins.trace_eq {w w' : BitWriter} (h : Twins w w') (steps : List WriterStep) :
    trace steps w = trace steps w' := by
  induction steps generalizing w w' with
  | nil => rfl
  | cons step steps ih =>
    rcases h.respond step with ⟨hw, hw'⟩ | ⟨e, v, v', hw, hw', hnext⟩
    · simp only [trace, hw, hw']
    · simp only [trace, hw, hw', ih hnext, hnext.view_eq]

/-- **A run of bytes is its bytes written one by one**: from any aligned state
of any run, the registers and the finished bytes are the same, and no steps
taken after tell which was done. -/
theorem byte_run_eq_bytes {w : BitWriter} (hw : Lts.Reachable sys w) (haligned : w.bitsWritten % 8 = 0)
    (bs : List UInt8) (hfit : bs.length * 8 ≤ w.bitsRemaining) :
    ∃ fast slow, (writeBytes bs).run w = .ok () fast ∧ (writeEach bs).run w = .ok () slow ∧
      fast.view = slow.view ∧ ∀ steps, trace steps fast = trace steps slow := by
  obtain ⟨fs, hold, -, -⟩ := twins_of_reachable hw
  have hroom : w.bitsWritten + width (bytes bs) ≤ 8 * w.buf.length := by
    have hle := hold.room
    rw [bitsRemaining] at hfit
    rw [width_bytes]
    omega
  obtain ⟨fast, hrun, hfast, hlen⟩ := (writeBytes_emits haligned bs w fs hold hold.written.symm).1 hroom
  obtain ⟨slow, hrun', hslow, hlen'⟩ := (writeEach_emits _ bs w fs hold hold.written.symm).1 hroom
  have htwins : Twins fast slow := ⟨_, hfast, hslow, hlen'.trans hlen.symm⟩
  exact ⟨fast, slow, hrun, hrun', htwins.view_eq, htwins.trace_eq⟩

/-- A byte in a used buffer, and four more over the end of its word. -/
theorem byte_run_eq_bytes_across :
    ∃ w fast slow, Lts.Reachable sys w ∧ w.bitsWritten = 8 ∧ w.buf = [9, 9, 9, 9, 9, 9] ∧
      (writeBytes [1, 2, 3, 4]).run w = .ok () fast ∧ (writeEach [1, 2, 3, 4]).run w = .ok () slow ∧
      fast.view = slow.view ∧ ∀ steps, trace steps fast = trace steps slow := by
  have hstep : sys.step (.new [9, 9, 9, 9, 9, 9]) (.write (.writeBits 5 8))
      (left ((WriteOp.writeBits 5 8).perform.run (.new [9, 9, 9, 9, 9, 9]))) := ⟨show 8 ≤ 32 by decide, rfl⟩
  have hstart : Lts.Reachable sys (.new [9, 9, 9, 9, 9, 9]) := .start ⟨_, rfl⟩
  have hreach : Lts.Reachable sys _ := hstart.step trivial hstep
  obtain ⟨fast, slow, hrun, hrun', hview, htrace⟩ := byte_run_eq_bytes hreach rfl [1, 2, 3, 4] (by decide)
  exact ⟨_, fast, slow, hreach, rfl, rfl, hrun, hrun', hview, htrace⟩

end BitWriter
end HexNet
