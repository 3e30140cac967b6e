/-
What the bit serializer writes and reads, as field streams.

* `BitWriter.Holds w fs`: the writer `w` stands for the fields `fs` written so
  far. Every operation appends its fields (`writeBits_emits`, `writeBytes_emits`, ..),
  or fails having appended only some of them; `rollback_holds` takes back a
  suffix, and `finish_bytes` is the stream as bytes.
* `BitReader.Sees r fs`: what `r` has left begins with `fs`. Each read of a
  field that was written gives its value (`readBits_parses`, ..).
-/
import HexNet.Bits
import HexNet.Lib.BitFields

namespace HexNet

open LeBytes BitFields

/-- A sequence that succeeded, taken apart. -/
theorem run_bind_ok {ε σ α β : Type} {m : EStateM ε σ α} {f : α → EStateM ε σ β} {s s' : σ} {b : β}
    (h : (m >>= f).run s = .ok b s') : ∃ a s₁, m.run s = .ok a s₁ ∧ (f a).run s₁ = .ok b s' := by
  rw [EStateM.run_bind] at h
  cases hm : m.run s with
  | error e s₁ => rw [hm] at h; cases h
  | ok a s₁ => rw [hm] at h; exact ⟨a, s₁, rfl, h⟩

theorem and_mask (v n : Nat) : v &&& (2 ^ n - 1) = v % 2 ^ n := Nat.and_two_pow_sub_one_eq_mod v n

theorem or_shift {a k : Nat} (b : Nat) (h : a < 2 ^ k) : a ||| b <<< k = a + 2 ^ k * b := by
  rw [Nat.or_comm, ← Nat.shiftLeft_add_eq_or_of_lt h, Nat.shiftLeft_eq]
  ring

namespace BitWriter

/-! ## What a writer holds -/

/-- The words flushed and the bits pending are the packed fields. -/
structure Stream (w : BitWriter) (fs : List (Nat × Nat)) : Prop where
  value : leNat (w.buf.take w.wordIndex) + 2 ^ (8 * w.wordIndex) * w.scratch = pack fs
  written : w.bitsWritten = width fs
  split : w.bitsWritten = 8 * w.wordIndex + w.scratchBits
  scratch_lt : w.scratch < 2 ^ w.scratchBits
  word : w.wordIndex % 4 = 0
  room : w.bitsWritten ≤ 8 * w.buf.length

/-- Between calls less than a word is pending. -/
structure Holds (w : BitWriter) (fs : List (Nat × Nat)) : Prop extends Stream w fs where
  pending : w.scratchBits < 32

theorem new_holds (buf : List UInt8) : (new buf).Holds [] where
  value := by simp [new]
  written := rfl
  split := rfl
  scratch_lt := Nat.one_pos
  word := rfl
  room := Nat.zero_le _
  pending := show 0 < 32 by decide

theorem Stream.index_le {w : BitWriter} {fs : List (Nat × Nat)} (h : Stream w fs) : w.wordIndex ≤ w.buf.length := by
  have := h.split; have := h.room; omega

theorem Stream.flushed_lt {w : BitWriter} {fs : List (Nat × Nat)} (h : Stream w fs) :
    leNat (w.buf.take w.wordIndex) < 2 ^ (8 * w.wordIndex) := by
  have hlt := leNat_lt (w.buf.take w.wordIndex)
  rwa [List.length_take, Nat.min_eq_left h.index_le, pow_256] at hlt

/-- What is pending is what the flushed words leave of the stream. -/
theorem Stream.scratch_eq {w : BitWriter} {fs : List (Nat × Nat)} (h : Stream w fs) :
    w.scratch = pack fs / 2 ^ (8 * w.wordIndex) := by
  rw [← h.value, Nat.add_mul_div_left _ _ (Nat.two_pow_pos _), Nat.div_eq_of_lt h.flushed_lt, Nat.zero_add]

/-- The flushed bytes are the low ones of the stream. -/
theorem Stream.take_eq {w : BitWriter} {fs : List (Nat × Nat)} (h : Stream w fs) {k : Nat} (hk : k ≤ w.wordIndex) :
    leNat (w.buf.take k) = pack fs % 2 ^ (8 * k) := by
  have hsub : w.buf.take k = (w.buf.take w.wordIndex).take k := by rw [List.take_take, Nat.min_eq_left hk]
  have hpow : 2 ^ (8 * w.wordIndex) = 2 ^ (8 * k) * 2 ^ (8 * (w.wordIndex - k)) := by
    rw [← Nat.pow_add]; congr 1; omega
  rw [← h.value, hsub, leNat_take, pow_256, hpow, Nat.mul_assoc, Nat.add_mul_mod_self_left]

/-- A writer is determined by what it holds: what is pending of a stream of a
given width, and where. -/
theorem Holds.position {w : BitWriter} {fs : List (Nat × Nat)} (h : Holds w fs) :
    w.wordIndex = width fs / 32 * 4 ∧ w.scratchBits = width fs % 32 := by
  have := h.written; have := h.split; have := h.pending; have := h.word
  omega

/-- The converse: a buffer whose low bytes are the stream's, with the rest of
it pending. -/
theorem holds_of_take {w : BitWriter} {fs : List (Nat × Nat)} (hwritten : w.bitsWritten = width fs)
    (hindex : w.wordIndex = width fs / 32 * 4) (hbits : w.scratchBits = width fs % 32)
    (hroom : width fs ≤ 8 * w.buf.length)
    (htake : leNat (w.buf.take w.wordIndex) = pack fs % 2 ^ (8 * w.wordIndex))
    (hscratch : w.scratch = pack fs / 2 ^ (8 * w.wordIndex)) : Holds w fs where
  value := by rw [htake, hscratch, Nat.mod_add_div]
  written := hwritten
  split := by omega
  scratch_lt := by
    have hsum : width fs = 8 * w.wordIndex + w.scratchBits := by omega
    have hlt := pack_lt fs
    rw [hsum, Nat.pow_add] at hlt
    rw [hscratch]
    exact Nat.div_lt_of_lt_mul hlt
  word := by omega
  room := by omega
  pending := by omega

/-! ## Flushing -/

theorem flushWord_holds {w : BitWriter} {fs : List (Nat × Nat)} (h : Stream w fs) (hlt : w.scratchBits < 64) :
    (flushWord w).Holds fs ∧ (flushWord w).buf.length = w.buf.length := by
  have hidx := h.index_le
  have hsplit := h.split
  have hroom := h.room
  unfold flushWord
  split
  · have hfit : w.wordIndex + (leBytes w.scratch 4).length ≤ w.buf.length := by rw [length_leBytes]; omega
    have hsucc : w.wordIndex + 4 = w.wordIndex + (leBytes w.scratch 4).length := by rw [length_leBytes]
    have htake : (overwrite w.buf w.wordIndex (leBytes w.scratch 4)).take (w.wordIndex + 4) =
        w.buf.take w.wordIndex ++ leBytes w.scratch 4 := by
      rw [hsucc, take_overwrite hidx]
    refine ⟨⟨⟨?_, h.written, ?_, ?_, ?_, ?_⟩, ?_⟩, length_overwrite hfit⟩
    · show leNat (List.take (w.wordIndex + 4) _) + 2 ^ (8 * (w.wordIndex + 4)) * (w.scratch >>> 32) = pack fs
      rw [htake, leNat_append, leNat_leBytes, List.length_take, Nat.min_eq_left hidx, ← h.value, pow_256,
        Nat.shiftRight_eq_div_pow, Nat.mul_add 8, Nat.pow_add, pow_256, Nat.add_assoc, Nat.mul_assoc,
        ← Nat.mul_add, Nat.mod_add_div]
    · show w.bitsWritten = 8 * (w.wordIndex + 4) + (w.scratchBits - 32)
      omega
    · show w.scratch >>> 32 < 2 ^ (w.scratchBits - 32)
      have hlt := h.scratch_lt
      rw [show w.scratchBits = 32 + (w.scratchBits - 32) by omega, Nat.pow_add] at hlt
      rw [Nat.shiftRight_eq_div_pow]
      exact Nat.div_lt_of_lt_mul hlt
    · have := h.word
      show (w.wordIndex + 4) % 4 = 0
      omega
    · show w.bitsWritten ≤ 8 * (overwrite w.buf w.wordIndex (leBytes w.scratch 4)).length
      rw [length_overwrite hfit]; exact hroom
    · show w.scratchBits - 32 < 32
      omega
  · exact ⟨⟨h, by omega⟩, rfl⟩

/-- With the pending bits written out, the buffer begins with the stream. -/
theorem flushPartial_take {w : BitWriter} {fs : List (Nat × Nat)} (h : Holds w fs) :
    leNat (w.flushPartial.buf.take ((width fs + 7) / 8)) = pack fs ∧
      w.flushPartial.buf.length = w.buf.length := by
  have hidx := h.index_le
  have hsplit := h.split
  have hroom := h.room
  have hwritten := h.written
  have hpend := h.pending
  have hvalue := h.value
  dsimp only [flushPartial]
  split
  next h0 =>
    have hz : w.scratchBits = 0 := by omega
    have hs : w.scratch = 0 := by have := h.scratch_lt; rw [hz] at this; omega
    have hlen : (width fs + 7) / 8 = w.wordIndex := by omega
    rw [hs, Nat.mul_zero, Nat.add_zero] at hvalue
    rw [hlen]
    exact ⟨hvalue, rfl⟩
  next h0 =>
    have htail : ((leBytes w.scratch 4).take ((w.scratchBits + 7) / 8)).length = (w.scratchBits + 7) / 8 := by
      rw [List.length_take, length_leBytes]; omega
    have hlen : (width fs + 7) / 8 = w.wordIndex + ((leBytes w.scratch 4).take ((w.scratchBits + 7) / 8)).length := by
      rw [htail]; omega
    have hscratch : w.scratch % 256 ^ 4 % 256 ^ ((w.scratchBits + 7) / 8) = w.scratch := by
      have h₁ : w.scratch < 256 ^ ((w.scratchBits + 7) / 8) := by
        rw [pow_256]
        exact Nat.lt_of_lt_of_le h.scratch_lt (Nat.pow_le_pow_right (by decide) (by omega))
      have h₂ : w.scratch < 256 ^ 4 := by
        rw [pow_256]
        exact Nat.lt_of_lt_of_le h.scratch_lt (Nat.pow_le_pow_right (by decide) (by omega))
      rw [Nat.mod_eq_of_lt h₂, Nat.mod_eq_of_lt h₁]
    refine ⟨?_, length_overwrite (by rw [htail]; omega)⟩
    show leNat (List.take _ (overwrite w.buf w.wordIndex _)) = pack fs
    rw [hlen, take_overwrite hidx, leNat_append, leNat_take (leBytes _ _), leNat_leBytes, hscratch,
      List.length_take, Nat.min_eq_left hidx, pow_256]
    exact hvalue

/-- The finished bytes begin with the stream, and are no longer than it needs. -/
theorem finish_bytes {w : BitWriter} {fs : List (Nat × Nat)} (h : Holds w fs) :
    leNat (w.finish.1.take w.finish.2) = pack fs ∧ w.finish.2 = (width fs + 7) / 8 ∧
      w.finish.2 ≤ w.buf.length ∧ w.finish.1.length = w.buf.length := by
  have hroom := h.room
  have hwritten := h.written
  obtain ⟨htake, hlen⟩ := flushPartial_take h
  refine ⟨?_, ?_, ?_, hlen⟩
  · simpa only [finish, hwritten] using htake
  · simp only [finish, hwritten]
  · simp only [finish]; omega

/-! ## Taking back -/

/-- The word read back at a byte offset, cut to the bits the stream has there. -/
theorem wordAt_mod {buf : List UInt8} {k b n : Nat} (hb : b ≤ 32) (hn : 8 * k + b ≤ 8 * n) :
    wordAt buf k % 2 ^ b = leNat (buf.take n) / 2 ^ (8 * k) % 2 ^ b := by
  have hpow : ∀ {m : Nat}, b ≤ m → leNat buf / 2 ^ (8 * k) % 2 ^ m % 2 ^ b = leNat buf / 2 ^ (8 * k) % 2 ^ b :=
    fun hm => Nat.mod_mod_of_dvd _ (Nat.pow_dvd_pow 2 hm)
  have hcut : leNat buf % 2 ^ (8 * n) / 2 ^ (8 * k) = leNat buf / 2 ^ (8 * k) % 2 ^ (8 * n - 8 * k) :=
    mod_div_pow _ (by omega)
  rw [wordAt, leNat_take, leNat_take, leNat_drop, pow_256, pow_256, pow_256, hcut, hpow (by omega), hpow (by omega)]

/-- Rolling back to a checkpoint leaves what was held at it. -/
theorem rollback_holds {w : BitWriter} {fs gs : List (Nat × Nat)} (h : Holds w (fs ++ gs)) :
    (rollback (width fs) w).Holds fs ∧ (rollback (width fs) w).buf.length = w.buf.length := by
  obtain ⟨hindex, hbits⟩ := h.position
  have hroom := h.room
  have hwritten := h.written
  have hsplit := h.split
  rw [width_append] at hindex hbits hwritten
  have hle : width fs / 32 * 4 ≤ w.wordIndex := by omega
  have hmod : pack (fs ++ gs) % 2 ^ width fs = pack fs := by
    rw [pack_append, Nat.add_mul_mod_self_left, Nat.mod_eq_of_lt (pack_lt fs)]
  have hscratch : pack fs / 2 ^ (8 * (width fs / 32 * 4)) =
      pack (fs ++ gs) / 2 ^ (8 * (width fs / 32 * 4)) % 2 ^ (width fs % 32) := by
    rw [← hmod, mod_div_pow _ (by omega)]
    congr 2
    omega
  refine ⟨holds_of_take rfl rfl rfl ?_ ?_ ?_, rfl⟩
  · dsimp only [rollback]; omega
  · dsimp only [rollback]
    rw [h.take_eq hle, ← hmod, Nat.mod_mod_of_dvd]
    exact Nat.pow_dvd_pow 2 (by omega)
  · dsimp only [rollback]
    rw [and_mask, hscratch]
    split
    · rw [wordAt_mod (n := w.wordIndex) (by omega) (by omega), h.take_eq le_rfl,
        mod_div_pow _ (by omega), Nat.mod_mod_of_dvd]
      exact Nat.pow_dvd_pow 2 (by omega)
    next hge =>
      rw [h.scratch_eq, show w.wordIndex = width fs / 32 * 4 by omega]

/-! ## Emitting -/

/-- From bit position `p` on, `m` writes the fields `fs` if they fit; if not
it fails, having written only some fields. -/
def Emits (p : Nat) (m : Write Unit) (fs : List (Nat × Nat)) : Prop :=
  ∀ w gs, Holds w gs → width gs = p →
    (p + width fs ≤ 8 * w.buf.length →
      ∃ w', m.run w = .ok () w' ∧ Holds w' (gs ++ fs) ∧ w'.buf.length = w.buf.length) ∧
    (8 * w.buf.length < p + width fs →
      ∃ e w' hs, m.run w = .error e w' ∧ Holds w' (gs ++ hs) ∧ w'.buf.length = w.buf.length)

/-- A run that succeeds wrote the fields. -/
theorem Emits.ok {p : Nat} {m : Write Unit} {fs gs : List (Nat × Nat)} {w w' : BitWriter} (hm : Emits p m fs)
    (hw : Holds w gs) (hp : width gs = p) (hrun : m.run w = .ok () w') :
    Holds w' (gs ++ fs) ∧ w'.buf.length = w.buf.length := by
  obtain ⟨hok, herr⟩ := hm w gs hw hp
  by_cases hfit : p + width fs ≤ 8 * w.buf.length
  · obtain ⟨w₁, hrun₁, hres⟩ := hok hfit
    rw [hrun₁] at hrun
    cases hrun
    exact hres
  · obtain ⟨e, w₁, hs, hrun₁, -⟩ := herr (by omega)
    rw [hrun₁] at hrun
    cases hrun

/-- However a run ends, what was held is still there, with some fields after it. -/
theorem Emits.wrote {p : Nat} {m : Write Unit} {fs gs : List (Nat × Nat)} {w w' : BitWriter} (hm : Emits p m fs)
    (hw : Holds w gs) (hp : width gs = p) (hrun : (∃ e, m.run w = .error e w') ∨ m.run w = .ok () w') :
    ∃ hs, Holds w' (gs ++ hs) ∧ w'.buf.length = w.buf.length := by
  rcases hrun with ⟨e, hrun⟩ | hrun
  · obtain ⟨hok, herr⟩ := hm w gs hw hp
    by_cases hfit : p + width fs ≤ 8 * w.buf.length
    · obtain ⟨w₁, hrun₁, -⟩ := hok hfit
      rw [hrun₁] at hrun
      cases hrun
    · obtain ⟨e₁, w₁, hs, hrun₁, hres⟩ := herr (by omega)
      rw [hrun₁] at hrun
      cases hrun
      exact ⟨hs, hres⟩
  · exact ⟨fs, hm.ok hw hp hrun⟩

/-- However a run ends, taking it back leaves what was held. -/
theorem Emits.rollback {p : Nat} {m : Write Unit} {fs gs : List (Nat × Nat)} {w w' : BitWriter} (hm : Emits p m fs)
    (hw : Holds w gs) (hp : width gs = p) (hrun : (∃ e, m.run w = .error e w') ∨ m.run w = .ok () w') :
    Holds (w'.rollback w.checkpoint) gs ∧ (w'.rollback w.checkpoint).buf.length = w.buf.length := by
  obtain ⟨hs, hold, hlen⟩ := hm.wrote hw hp hrun
  obtain ⟨hback, hlen'⟩ := rollback_holds hold
  rw [checkpoint, hw.written]
  exact ⟨hback, by rw [hlen', hlen]⟩

theorem Emits.pure (p : Nat) : Emits p (pure ()) [] := by
  intro w gs hw hp
  refine ⟨fun _ => ⟨w, rfl, by rwa [List.append_nil], rfl⟩, fun hover => ?_⟩
  have := hw.written
  have := hw.room
  simp only [width_nil, Nat.add_zero] at hover
  omega

theorem Emits.bind {p : Nat} {m n : Write Unit} {fs gs : List (Nat × Nat)} (hm : Emits p m fs)
    (hn : Emits (p + width fs) n gs) : Emits p (do m; n) (fs ++ gs) := by
  intro w ks hw hp
  obtain ⟨hok, herr⟩ := hm w ks hw hp
  rw [width_append]
  by_cases hfit : p + width fs ≤ 8 * w.buf.length
  · obtain ⟨w₁, hrun, hold, hlen⟩ := hok hfit
    have hbind : (do m; n : Write Unit).run w = n.run w₁ := by rw [EStateM.run_bind, hrun]
    obtain ⟨hok₂, herr₂⟩ := hn w₁ (ks ++ fs) hold (by rw [width_append, hp])
    rw [hlen, Nat.add_assoc] at hok₂ herr₂
    rw [hbind, ← List.append_assoc]
    refine ⟨hok₂, fun hover => ?_⟩
    obtain ⟨e, w₂, hs, hrun₂, hold₂, hlen₂⟩ := herr₂ hover
    exact ⟨e, w₂, fs ++ hs, hrun₂, by rwa [← List.append_assoc], hlen₂⟩
  · refine ⟨fun h => by omega, fun _ => ?_⟩
    obtain ⟨e, w₁, hs, hrun, hold, hlen⟩ := herr (by omega)
    exact ⟨e, w₁, hs, by rw [EStateM.run_bind, hrun], hold, hlen⟩

theorem run_writeBits (value bits : Nat) (w : BitWriter) :
    (writeBits value bits).run w =
      if w.bitsRemaining < bits then .error .overflow w
      else
        .ok () (flushWord
          { w with
            scratch := w.scratch ||| (value &&& (2 ^ bits - 1)) <<< w.scratchBits
            scratchBits := w.scratchBits + bits
            bitsWritten := w.bitsWritten + bits }) := rfl

/-- A write that fails consumes nothing. -/
theorem writeBits_error {value bits : Nat} {w w' : BitWriter} {e : WriteError}
    (h : (writeBits value bits).run w = .error e w') : w' = w := by
  rw [run_writeBits] at h
  split at h <;> cases h
  rfl

theorem writeBits_emits (p value : Nat) {bits : Nat} (hbits : bits ≤ 32) :
    Emits p (writeBits value bits) [(bits, value)] := by
  intro w gs h hp
  have hwritten := h.written
  have hsplit := h.split
  have hroom := h.room
  have hpend := h.pending
  simp only [width_cons, width_nil, Nat.add_zero]
  constructor
  · intro hfit
    have hstream : Stream
        { w with
          scratch := w.scratch ||| (value &&& (2 ^ bits - 1)) <<< w.scratchBits
          scratchBits := w.scratchBits + bits
          bitsWritten := w.bitsWritten + bits } (gs ++ [(bits, value)]) := by
      have hscratch := or_shift (value &&& (2 ^ bits - 1)) h.scratch_lt
      rw [and_mask] at hscratch
      have hmod : value % 2 ^ bits < 2 ^ bits := Nat.mod_lt _ (Nat.two_pow_pos _)
      refine ⟨?_, ?_, ?_, ?_, h.word, ?_⟩
      · dsimp only
        rw [and_mask, hscratch, pack_append, pack_one, ← h.value, ← hwritten, hsplit, Nat.pow_add]
        ring
      · simp [hwritten]
      · dsimp only; omega
      · dsimp only
        have hle : 2 ^ w.scratchBits * (value % 2 ^ bits + 1) ≤ 2 ^ w.scratchBits * 2 ^ bits :=
          Nat.mul_le_mul_left _ hmod
        have hlt := h.scratch_lt
        rw [and_mask, hscratch, Nat.pow_add]
        rw [Nat.mul_add] at hle
        omega
      · dsimp only; omega
    obtain ⟨hold, hlen⟩ := flushWord_holds hstream (by dsimp only; omega)
    refine ⟨_, ?_, hold, hlen⟩
    rw [run_writeBits, if_neg (by rw [bitsRemaining]; omega)]
  · intro hover
    refine ⟨.overflow, w, [], ?_, by rwa [List.append_nil], rfl⟩
    rw [run_writeBits, if_pos (by rw [bitsRemaining]; omega)]

theorem writeU64_emits (p value : Nat) :
    Emits p (writeU64 value) [(32, value % 2 ^ 32), (32, value / 2 ^ 32)] :=
  (writeBits_emits p _ (le_refl 32)).bind (writeBits_emits _ _ (le_refl 32))

theorem bitsRequired_le {range : Nat} (h : range < 2 ^ 32) : bitsRequired range ≤ 32 := by
  unfold bitsRequired
  split
  · omega
  · have := (Nat.log2_lt (by omega)).2 h
    omega

theorem lt_bitsRequired (range : Nat) : range < 2 ^ bitsRequired range := by
  unfold bitsRequired
  split
  · omega
  · exact (Nat.log2_lt (by omega)).1 (Nat.lt_succ_self _)

theorem writeRange_emits (p : Nat) {value min max : Nat} (hmin : min ≤ value) (hmax : value ≤ max)
    (hlt : max < 2 ^ 32) :
    Emits p (writeRange value min max) [(bitsRequired (max - min), value - min)] := by
  have hoff : (value + 2 ^ 32 - min) % 2 ^ 32 = value - min := by omega
  rw [writeRange, hoff, if_neg (by omega)]
  exact writeBits_emits p _ (bitsRequired_le (by omega))

theorem align_emits (p : Nat) : Emits p align [((8 - p % 8) % 8, 0)] := by
  intro w gs h hp
  have hrun : align.run w = (writeBits 0 ((8 - p % 8) % 8)).run w := by
    rw [← hp, ← h.written]; rfl
  have := writeBits_emits p 0 (show (8 - p % 8) % 8 ≤ 32 by omega) w gs h hp
  rwa [← hrun] at this

theorem run_writeBytes (bs : List UInt8) (w : BitWriter) :
    (writeBytes bs).run w =
      if w.bitsRemaining < bs.length * 8 then .error .overflow w
      else if bs.isEmpty then .ok () w
      else
        let buf := overwrite w.flushPartial.buf (w.bitsWritten / 8) bs
        let bits := w.bitsWritten + bs.length * 8
        .ok ()
          { buf, bitsWritten := bits, wordIndex := bits / 32 * 4, scratchBits := bits % 32
            scratch := if bits % 32 ≠ 0 then wordAt buf (bits / 32 * 4) &&& (2 ^ (bits % 32) - 1) else 0 } := rfl

theorem writeBytes_emits {p : Nat} (hp8 : p % 8 = 0) (bs : List UInt8) : Emits p (writeBytes bs) (bytes bs) := by
  intro w gs h hp
  have hwritten := h.written
  have hroom := h.room
  rw [run_writeBytes, width_bytes]
  constructor
  · intro hfit
    rw [if_neg (by rw [bitsRemaining]; omega)]
    split
    next hempty =>
      rw [List.isEmpty_iff.1 hempty]
      exact ⟨w, rfl, by simpa [bytes] using h, rfl⟩
    next hempty =>
      obtain ⟨htake, hlen⟩ := flushPartial_take h
      have hat : (width gs + 7) / 8 = w.bitsWritten / 8 := by omega
      rw [hat] at htake
      set buf := overwrite w.flushPartial.buf (w.bitsWritten / 8) bs with hbuf
      have hbuflen : buf.length = w.buf.length := by rw [hbuf, length_overwrite (by omega), hlen]
      have hwidth : width (gs ++ bytes bs) = w.bitsWritten + bs.length * 8 := by
        rw [width_append, width_bytes]; omega
      have hall : leNat (buf.take (w.bitsWritten / 8 + bs.length)) = pack (gs ++ bytes bs) := by
        rw [hbuf, take_overwrite (by omega), leNat_append, htake, List.length_take,
          Nat.min_eq_left (by omega), pow_256, pack_append, pack_bytes]
        congr 3
        omega
      refine ⟨_, rfl, holds_of_take ?_ ?_ ?_ ?_ ?_ ?_, hbuflen⟩
      · exact hwidth.symm
      · dsimp only; rw [hwidth]
      · dsimp only; rw [hwidth]
      · dsimp only; omega
      · dsimp only
        rw [← hall, leNat_take, leNat_take, pow_256, pow_256, Nat.mod_mod_of_dvd]
        exact Nat.pow_dvd_pow 2 (by omega)
      · dsimp only
        have hlt : pack (gs ++ bytes bs) / 2 ^ (8 * ((w.bitsWritten + bs.length * 8) / 32 * 4)) <
            2 ^ ((w.bitsWritten + bs.length * 8) % 32) := by
          apply Nat.div_lt_of_lt_mul
          have := pack_lt (gs ++ bytes bs)
          rw [hwidth] at this
          rw [← Nat.pow_add]
          convert this using 2
          omega
        split
        · rw [and_mask, wordAt_mod (n := w.bitsWritten / 8 + bs.length) (by omega) (by omega), hall,
            Nat.mod_eq_of_lt hlt]
        next hz =>
          rw [show (w.bitsWritten + bs.length * 8) % 32 = 0 by omega, Nat.pow_zero] at hlt
          exact (Nat.lt_one_iff.1 hlt).symm
  · intro hover
    refine ⟨.overflow, w, [], ?_, by rwa [List.append_nil], rfl⟩
    rw [if_pos (by rw [bitsRemaining]; omega)]

end BitWriter

namespace BitReader

/-! ## What a reader sees -/

/-- Scratch is the next bits of the buffer, up to the next byte to be loaded. -/
structure Ready (r : BitReader) : Prop where
  pending : r.scratch = leNat r.buffer / 2 ^ r.bitsRead % 2 ^ r.scratchBits
  index : 8 * r.byteIndex = r.bitsRead + r.scratchBits
  room : r.byteIndex ≤ r.buffer.length

theorem new_ready (buffer : List UInt8) : (new buffer).Ready where
  pending := by simp [new, Nat.mod_one]
  index := rfl
  room := Nat.zero_le _

theorem load_ready {r : BitReader} (h : Ready r) (hlt : r.byteIndex < r.buffer.length) :
    r.load.Ready ∧ r.scratchBits + 8 ≤ r.load.scratchBits ∧ r.load.bitsRead = r.bitsRead ∧
      r.load.buffer = r.buffer := by
  have hindex := h.index
  obtain ⟨k, hk, hpos, hroom⟩ : ∃ k, (if r.byteIndex + 4 ≤ r.buffer.length then 4 else 1) = k ∧ 1 ≤ k ∧
      r.byteIndex + k ≤ r.buffer.length := by
    refine ⟨_, rfl, ?_, ?_⟩ <;> split <;> omega
  have hscratch : r.scratch < 2 ^ r.scratchBits := by
    rw [h.pending]; exact Nat.mod_lt _ (Nat.two_pow_pos _)
  dsimp only [load]
  rw [hk]
  refine ⟨⟨?_, ?_, hroom⟩, ?_, rfl, rfl⟩
  · show r.scratch ||| leNat ((r.buffer.drop r.byteIndex).take k) <<< r.scratchBits =
      leNat r.buffer / 2 ^ r.bitsRead % 2 ^ (r.scratchBits + 8 * k)
    rw [or_shift _ hscratch, leNat_take, leNat_drop, pow_256, pow_256, hindex, h.pending, Nat.pow_add 2 r.scratchBits,
      Nat.mod_mul, Nat.div_div_eq_div_mul, ← Nat.pow_add]
  · show 8 * (r.byteIndex + k) = r.bitsRead + (r.scratchBits + 8 * k)
    omega
  · show r.scratchBits + 8 ≤ r.scratchBits + 8 * k
    omega

theorem refill_ready {bits : Nat} (fuel : Nat) {r : BitReader} (h : Ready r)
    (hleft : r.bitsRead + bits ≤ 8 * r.buffer.length) (hfuel : bits ≤ r.scratchBits + 8 * fuel) :
    (refill bits fuel r).Ready ∧ bits ≤ (refill bits fuel r).scratchBits ∧
      (refill bits fuel r).bitsRead = r.bitsRead ∧ (refill bits fuel r).buffer = r.buffer := by
  induction fuel generalizing r with
  | zero => exact ⟨h, hfuel, rfl, rfl⟩
  | succ fuel ih =>
    rw [refill]
    split
    next hlt =>
      have hindex := h.index
      obtain ⟨hready, hgrow, hread, hbuf⟩ := load_ready h (by omega)
      have hstep := ih hready (by rw [hread, hbuf]; exact hleft) (by omega)
      rwa [hread, hbuf] at hstep
    next hge => exact ⟨h, by omega, rfl, rfl⟩

theorem run_readBits (bits : Nat) (r : BitReader) :
    (readBits bits).run r =
      if r.bitsRemaining < bits then .error .eof r
      else
        .ok ((refill bits 4 r).scratch &&& (2 ^ bits - 1)) ((refill bits 4 r).consume bits) := rfl

/-- A read takes the next bits of the buffer, whatever they are. -/
theorem readBits_ready {bits : Nat} {r : BitReader} (h : Ready r) (hbits : bits ≤ 32)
    (hleft : r.bitsRead + bits ≤ 8 * r.buffer.length) :
    ∃ r', (readBits bits).run r = .ok (leNat r.buffer / 2 ^ r.bitsRead % 2 ^ bits) r' ∧
      r'.Ready ∧ r'.bitsRead = r.bitsRead + bits ∧ r'.buffer = r.buffer := by
  obtain ⟨hready, henough, hread, hbuf⟩ := refill_ready 4 h hleft (by omega)
  rw [run_readBits, if_neg (by rw [bitsRemaining]; omega)]
  have hpending := hready.pending
  have hindex := hready.index
  rw [hread, hbuf] at hpending
  have hvalue : (refill bits 4 r).scratch &&& (2 ^ bits - 1) = leNat r.buffer / 2 ^ r.bitsRead % 2 ^ bits := by
    rw [and_mask, hpending, Nat.mod_mod_of_dvd _ (Nat.pow_dvd_pow 2 henough)]
  refine ⟨(refill bits 4 r).consume bits, by rw [hvalue], ?_, congrArg (· + bits) hread, hbuf⟩
  refine ⟨?_, ?_, hready.room⟩
  · show (refill bits 4 r).scratch >>> bits = leNat (refill bits 4 r).buffer / 2 ^ ((refill bits 4 r).bitsRead + bits) %
      2 ^ ((refill bits 4 r).scratchBits - bits)
    rw [Nat.shiftRight_eq_div_pow, hpending, hread, hbuf, mod_div_pow _ henough, Nat.div_div_eq_div_mul, ← Nat.pow_add]
  · show 8 * (refill bits 4 r).byteIndex = (refill bits 4 r).bitsRead + bits + ((refill bits 4 r).scratchBits - bits)
    omega

/-- What is left begins with the fields `fs`. -/
structure Sees (r : BitReader) (fs : List (Nat × Nat)) : Prop extends Ready r where
  fits : r.bitsRead + width fs ≤ 8 * r.buffer.length
  begins : Begins (leNat r.buffer) r.bitsRead fs

/-- At bit position `p`, `m` reads the value `v` from the fields `fs`. -/
def Parses {α : Type} (p : Nat) (m : Read α) (fs : List (Nat × Nat)) (v : α) : Prop :=
  ∀ r gs, Sees r (fs ++ gs) → r.bitsRead = p →
    ∃ r', m.run r = .ok v r' ∧ Sees r' gs ∧ r'.bitsRead = p + width fs ∧ r'.buffer = r.buffer

theorem Parses.pure {α : Type} (p : Nat) (v : α) : Parses p (pure v) [] v :=
  fun r _ h hp => ⟨r, rfl, h, by simpa using hp, rfl⟩

theorem Parses.bind {α β : Type} {p : Nat} {m : Read α} {k : α → Read β} {fs gs : List (Nat × Nat)} {a : α} {b : β}
    (hm : Parses p m fs a) (hk : Parses (p + width fs) (k a) gs b) : Parses p (m >>= k) (fs ++ gs) b := by
  intro r ks hsees hp
  obtain ⟨r₁, hrun₁, hsees₁, hpos₁, hbuf₁⟩ := hm r (gs ++ ks) (by rwa [← List.append_assoc]) hp
  obtain ⟨r₂, hrun₂, hsees₂, hpos₂, hbuf₂⟩ := hk r₁ ks hsees₁ hpos₁
  refine ⟨r₂, by rw [EStateM.run_bind, hrun₁]; exact hrun₂, hsees₂, ?_, by rw [hbuf₂, hbuf₁]⟩
  rw [hpos₂, width_append, Nat.add_assoc]

theorem Parses.map {α β : Type} {p : Nat} {m : Read α} {fs : List (Nat × Nat)} {a : α} (g : α → β)
    (hm : Parses p m fs a) : Parses p (do return g (← m)) fs (g a) := by
  have h : Parses p (m >>= fun a => Pure.pure (g a)) (fs ++ []) (g a) := hm.bind (.pure _ _)
  rwa [List.append_nil] at h

/-- A read of a field's width gives its value, reduced to that width. -/
theorem readBits_parses_mod (p value : Nat) {bits : Nat} (hbits : bits ≤ 32) :
    Parses p (readBits bits) [(bits, value)] (value % 2 ^ bits) := by
  intro r gs h hp
  have hfits := h.fits
  rw [List.singleton_append, width_cons] at hfits
  obtain ⟨hhead, htail⟩ := begins_cons.1 h.begins
  obtain ⟨r', hrun, hready, hread, hbuf⟩ := readBits_ready h.toReady hbits (by omega)
  rw [hhead] at hrun
  refine ⟨r', hrun, ⟨hready, ?_, ?_⟩, by rw [hread, hp]; rfl, hbuf⟩
  · rw [hread, hbuf]; omega
  · rwa [hread, hbuf]

theorem readBits_parses (p : Nat) {bits value : Nat} (hbits : bits ≤ 32) (hvalue : value < 2 ^ bits) :
    Parses p (readBits bits) [(bits, value)] value := by
  have h := readBits_parses_mod p value hbits
  rwa [Nat.mod_eq_of_lt hvalue] at h

theorem readBool_parses (p : Nat) (value : Bool) : Parses p readBool [(1, value.toNat)] value := by
  have hlt : value.toNat < 2 ^ 1 := by cases value <;> decide
  have h := (readBits_parses p (by decide) hlt).map (· != 0)
  rwa [show (value.toNat != 0) = value by cases value <;> rfl] at h

theorem readU64_parses (p : Nat) {value : Nat} (h : value < 2 ^ 64) :
    Parses p readU64 [(32, value % 2 ^ 32), (32, value / 2 ^ 32)] value := by
  have hlo : value % 2 ^ 32 < 2 ^ 32 := Nat.mod_lt _ (by decide)
  have hhi : value / 2 ^ 32 < 2 ^ 32 := by omega
  have hjoin : value % 2 ^ 32 ||| (value / 2 ^ 32) <<< 32 = value := by
    rw [or_shift _ hlo, Nat.mod_add_div]
  have hpure := Parses.pure (p + width [(32, value % 2 ^ 32)] + width [(32, value / 2 ^ 32)])
    (value % 2 ^ 32 ||| (value / 2 ^ 32) <<< 32)
  rw [hjoin] at hpure
  exact (readBits_parses p (le_refl 32) hlo).bind ((readBits_parses _ (le_refl 32) hhi).bind
    (by rw [hjoin]; exact hpure))

theorem readRange_parses (p : Nat) {value min max : Nat} (hmin : min ≤ value) (hmax : value ≤ max)
    (hlt : max < 2 ^ 32) :
    Parses p (readRange min max) [(bitsRequired (max - min), value - min)] value := by
  have hbits := lt_of_le_of_lt (Nat.sub_le_sub_right hmax min) (BitWriter.lt_bitsRequired (max - min))
  have hread := readBits_parses p (BitWriter.bitsRequired_le (show max - min < 2 ^ 32 by omega)) hbits
  have hval : Parses (p + width [(bitsRequired (max - min), value - min)])
      (if max - min < value - min then throw .outOfRange else pure (min + (value - min))) [] value := by
    rw [if_neg (by omega), Nat.add_sub_cancel' hmin]
    exact Parses.pure _ value
  exact hread.bind hval

theorem readRangeI32_parses (p : Nat) {value min max : Int32}
    (h : (value.toUInt32 - min.toUInt32).toNat ≤ (max.toUInt32 - min.toUInt32).toNat) :
    Parses p (readRangeI32 min max)
      [(bitsRequired (max.toUInt32 - min.toUInt32).toNat, (value.toUInt32 - min.toUInt32).toNat)] value := by
  have hlt := lt_of_le_of_lt h (BitWriter.lt_bitsRequired _)
  have hread := readBits_parses p (BitWriter.bitsRequired_le (max.toUInt32 - min.toUInt32).toNat_lt) hlt
  -- The subtraction and the addition wrap alike, so the value comes back whatever its sign.
  have hback : (min.toUInt32 + UInt32.ofNat (value.toUInt32 - min.toUInt32).toNat).toInt32 = value := by
    simp only [UInt32.ofNat_toNat, UInt32.toInt32_add, UInt32.toInt32_sub, Int32.toInt32_toUInt32]
    rw [Int32.add_comm, Int32.sub_add_cancel]
  refine hread.bind ?_
  rw [if_neg (by omega), hback]
  exact Parses.pure _ value

theorem align_parses (p : Nat) : Parses p align [((8 - p % 8) % 8, 0)] () := by
  intro r gs h hp
  obtain ⟨r', hrun, hrest⟩ := readBits_parses p (show (8 - p % 8) % 8 ≤ 32 by omega) (Nat.two_pow_pos _) r gs h hp
  refine ⟨r', ?_, hrest⟩
  have halign : align.run r = (do let _ ← readBits ((8 - p % 8) % 8) : Read Unit).run r := by rw [← hp]; rfl
  rw [halign, EStateM.run_bind, hrun]
  rfl

theorem run_peek (len : Nat) (r : BitReader) :
    (peek len).run r = match r.peekBytes len with
      | some bytes => .ok bytes r
      | none => .error .eof r := rfl

/-- Bytes ahead may be looked at without being taken. -/
theorem peek_parses {α : Type} {p : Nat} (hp8 : p % 8 = 0) (bs : List UInt8) {k : List UInt8 → Read α} {v : α}
    (hk : Parses p (k bs) (bytes bs) v) : Parses p (peek bs.length >>= k) (bytes bs) v := by
  intro r gs h hp
  have hfits := h.fits
  rw [width_append, width_bytes] at hfits
  have hhead := (begins_append.1 h.begins).1
  rw [show r.bitsRead = 8 * (r.bitsRead / 8) by omega] at hhead
  have hbytes : r.peekBytes bs.length = some bs := by
    rw [peekBytes, if_neg (by omega), if_pos (by omega), begins_bytes (by omega) hhead]
  have hpeek : (peek bs.length).run r = .ok bs r := by rw [run_peek, hbytes]
  rw [EStateM.run_bind, hpeek]
  exact hk r gs h hp

theorem skipBytes_parses {p : Nat} (hp8 : p % 8 = 0) (bs : List UInt8) :
    Parses p (skipBytes bs.length) (bytes bs) () := by
  intro r gs h hp
  have hfits := h.fits
  rw [width_append, width_bytes] at hfits
  have htail := (begins_append.1 h.begins).2
  have hskip : (skipBytes bs.length).run r =
      .ok () { r with
        bitsRead := r.bitsRead + bs.length * 8
        byteIndex := (r.bitsRead + bs.length * 8) / 8
        scratch := 0
        scratchBits := 0 } := by
    show (if r.bitsRemaining < bs.length * 8 then EStateM.Result.error ReadError.eof r else _) = _
    rw [if_neg (by rw [bitsRemaining]; omega)]
  refine ⟨_, hskip, ⟨⟨?_, ?_, ?_⟩, ?_, ?_⟩, ?_, rfl⟩
  · simp [Nat.mod_one]
  · dsimp only; omega
  · dsimp only; omega
  · dsimp only; omega
  · rw [width_bytes] at htail
    rwa [Nat.mul_comm bs.length 8]
  · rw [width_bytes, ← hp, Nat.mul_comm]

/-- Bytes peeked at and then skipped are the bytes written. -/
theorem peek_skip_parses {α : Type} {p : Nat} (hp8 : p % 8 = 0) (bs : List UInt8) (f : List UInt8 → α) :
    Parses p (do let taken ← peek bs.length; skipBytes bs.length; return f taken) (bytes bs) (f bs) :=
  peek_parses hp8 bs ((skipBytes_parses hp8 bs).map fun _ => f bs)

/-- A reader of finished bytes sees what the writer held. -/
theorem new_sees {w : BitWriter} {fs : List (Nat × Nat)} (h : w.Holds fs) :
    (new (w.finish.1.take w.finish.2)).Sees fs ∧ (w.finish.1.take w.finish.2).length = (width fs + 7) / 8 := by
  obtain ⟨htake, hlen, hle, hbuf⟩ := BitWriter.finish_bytes h
  have hlength : (w.finish.1.take w.finish.2).length = (width fs + 7) / 8 := by
    rw [List.length_take, hbuf, Nat.min_eq_left hle, hlen]
  refine ⟨⟨new_ready _, ?_, ?_⟩, hlength⟩
  · show 0 + width fs ≤ 8 * (w.finish.1.take w.finish.2).length
    omega
  · refine begins_of_mod ?_
    show leNat (w.finish.1.take w.finish.2) % 2 ^ width fs = pack fs
    rw [htake, Nat.mod_eq_of_lt (pack_lt fs)]

end BitReader
end HexNet
