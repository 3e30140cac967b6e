/-
The program that tells the kernel which member of a group a datagram goes to
(`linux.rs`), against the three other readings of the same bytes: the router's
(`owner_shard`), the header decoder's and the cookie opener's
(`steering_agrees`).
-/
import HexNet.Inert
import HexNet.Lib.Cbpf

namespace HexNet

open LeBytes

/-- Where a payload header keeps the connection id's low byte, which is its
shard. -/
def shardOffset : Nat := 1

/-- Returned to let the kernel pick a member by hashing the source. -/
def anyMember : UInt32 := 0xffffffff

section

open Cbpf

/-- Classic BPF selecting the group member that owns a datagram. Offsets are
from the start of the UDP payload. -/
def steeringProgram : List Filter :=
  let ldLen := ld ||| w ||| len
  let ldByte := ld ||| b ||| abs
  let and := alu ||| Cbpf.and ||| srcK
  let jge := jmp ||| Cbpf.jge ||| srcK
  let jeq := jmp ||| Cbpf.jeq ||| srcK
  let retA := ret ||| srcA
  let retK := ret ||| srcK
  [⟨ldLen, 0, 0, 0⟩,
    ⟨jge, 0, 10, .ofNat minPayloadHeader⟩,
    ⟨ldByte, 0, 0, 0⟩,
    ⟨and, 0, 0, .ofNat Flags.kindMask.toNat⟩,
    ⟨jeq, 1, 0, .ofNat PacketKind.payload.bits.toNat⟩,
    ⟨jeq, 2, 6, .ofNat PacketKind.response.bits.toNat⟩,
    ⟨ldByte, 0, 0, .ofNat shardOffset⟩,
    ⟨retA, 0, 0, 0⟩,
    ⟨ldLen, 0, 0, 0⟩,
    ⟨jge, 0, 2, .ofNat handshakeLen⟩,
    ⟨ldByte, 0, 0, .ofNat handshakeBodyOffset⟩,
    ⟨retA, 0, 0, 0⟩,
    ⟨retK, 0, 0, anyMember⟩]

theorem run_short {p : List UInt8} (h : p.length < minPayloadHeader) :
    Cbpf.run steeringProgram p = some anyMember.toNat := by
  unfold Cbpf.run steeringProgram
  rw [exec_ldLen rfl, exec_jump rfl]
  have hcond : Cond.holds p.length (UInt32.ofNat minPayloadHeader).toNat .ge = false :=
    decide_eq_false (Nat.not_le.2 h)
  rw [hcond]
  exact exec_retK rfl

/-- What the program returns for a longer one: the byte its kind says, or any
member. -/
def steered (p : List UInt8) (first shard home : UInt8) : Nat :=
  match PacketKind.fromByte first with
  | some .payload => shard.toNat
  | some .response => if handshakeLen ≤ p.length then home.toNat else anyMember.toNat
  | _ => anyMember.toNat

theorem run_long {p : List UInt8} (h : minPayloadHeader ≤ p.length) {first shard home : UInt8}
    (hfirst : p[0]? = some first) (hshard : p[1]? = some shard) (hhome : p[3]? = some home) :
    Cbpf.run steeringProgram p = some (steered p first shard home) := by
  have hlong : Cond.holds p.length (UInt32.ofNat minPayloadHeader).toNat .ge = true := decide_eq_true h
  have hmask : first.toNat &&& (UInt32.ofNat Flags.kindMask.toNat).toNat = (first &&& Flags.kindMask).toNat := by
    rw [show (UInt32.ofNat Flags.kindMask.toNat).toNat = Flags.kindMask.toNat by decide, UInt8.toNat_and]
  have heq (kind : UInt8) (bits : UInt8) (hbits : (UInt32.ofNat bits.toNat).toNat = bits.toNat) :
      Cond.holds kind.toNat (UInt32.ofNat bits.toNat).toNat .eq = decide (kind = bits) := by
    rw [hbits, Cond.holds]
    exact decide_eq_decide.2 UInt8.toNat_inj
  have hany (s : State) : exec p [⟨ret ||| srcK, 0, 0, anyMember⟩] 0 s = some anyMember.toNat := exec_retK rfl
  unfold Cbpf.run steeringProgram
  rw [exec_ldLen rfl, exec_jump rfl, hlong, if_pos rfl]
  show exec p (⟨ld ||| b ||| abs, 0, 0, 0⟩ :: _) 0 _ = _
  rw [exec_ldByte rfl hfirst, exec_alu rfl rfl]
  dsimp only
  rw [hmask, exec_jump rfl]
  unfold steered PacketKind.fromByte PacketKind.fromBits
  generalize first &&& Flags.kindMask = kind
  rw [show Cond.holds kind.toNat (UInt32.ofNat PacketKind.payload.bits.toNat).toNat .eq = decide (kind = 0) from
    heq kind 0 (by decide)]
  by_cases hpayload : kind = 0
  · rw [if_pos hpayload, if_pos (decide_eq_true hpayload)]
    show exec p (⟨ld ||| b ||| abs, 0, 0, .ofNat shardOffset⟩ :: _) 0 _ = _
    rw [exec_ldByte rfl hshard, exec_retA rfl]
  · rw [if_neg hpayload, if_neg (fun h => hpayload (of_decide_eq_true h))]
    show exec p (⟨jmp ||| Cbpf.jeq ||| srcK, 2, 6, .ofNat PacketKind.response.bits.toNat⟩ :: _) 0 _ = _
    rw [exec_jump rfl, show Cond.holds kind.toNat (UInt32.ofNat PacketKind.response.bits.toNat).toNat .eq =
      decide (kind = 3) from heq kind 3 (by decide)]
    by_cases hresponse : kind = 3
    · rw [if_pos (decide_eq_true hresponse), hresponse]
      show exec p (⟨ld ||| w ||| len, 0, 0, 0⟩ :: _) 0 _ = some (if handshakeLen ≤ p.length then _ else _)
      rw [exec_ldLen rfl, exec_jump rfl]
      by_cases hfull : handshakeLen ≤ p.length
      · rw [if_pos hfull, if_pos (show Cond.holds p.length (UInt32.ofNat handshakeLen).toNat .ge = true from
          decide_eq_true hfull)]
        show exec p (⟨ld ||| b ||| abs, 0, 0, .ofNat handshakeBodyOffset⟩ :: _) 0 _ = _
        rw [exec_ldByte rfl hhome, exec_retA rfl]
      · rw [if_neg hfull, if_neg (show ¬ Cond.holds p.length (UInt32.ofNat handshakeLen).toNat .ge = true from
          fun h => hfull (of_decide_eq_true h))]
        exact hany _
    · rw [if_neg (fun h => hresponse (of_decide_eq_true h)), if_neg hresponse]
      refine (hany _).trans (congrArg some ?_)
      -- The two kinds left, and the bits that are no kind, all go to any member.
      by_cases hrequest : kind = 1
      · rw [if_pos hrequest]
      · rw [if_neg hrequest]
        by_cases hchallenge : kind = 2
        · rw [if_pos hchallenge]
        · rw [if_neg hchallenge]

end

/-! ## The other readings -/

section

variable {p : List UInt8}

theorem handshakeBlob_cons {home : UInt8} {blob : List UInt8} (h : handshakeBlob p = some (home :: blob)) :
    p[3]? = some home := by
  obtain ⟨len, _, hslice⟩ := Option.bind_eq_some_iff.1 h
  unfold slice at hslice
  split at hslice
  · have hhead := congrArg List.head? (Option.some.inj hslice)
    rw [List.head?_cons, List.head?_take] at hhead
    split at hhead
    · cases hhead
    · rwa [List.head?_drop] at hhead
  · cases hslice

/-- What `owner_shard` answers with is the byte its kind says. -/
theorem ownerShard_cases {s : ShardId} (h : ownerShard p = some s) : ∃ first, p[0]? = some first ∧
    ((PacketKind.fromByte first = some .payload ∧ minPayloadHeader ≤ p.length ∧ p[1]? = some s) ∨
      (PacketKind.fromByte first = some .response ∧ handshakeLen ≤ p.length ∧ p[3]? = some s)) := by
  unfold ownerShard at h
  split at h
  next hkind =>
    obtain ⟨first, hfirst, hkind⟩ := Option.bind_eq_some_iff.1 hkind
    split at h
    next hlen => exact ⟨first, List.head?_eq_getElem? ▸ hfirst, .inl ⟨hkind, hlen, h⟩⟩
    · cases h
  next hkind =>
    obtain ⟨first, hfirst, hkind⟩ := Option.bind_eq_some_iff.1 hkind
    split at h
    next hlen =>
      obtain ⟨blob, hblob, hhead⟩ := Option.bind_eq_some_iff.1 h
      obtain ⟨rest, rfl⟩ := List.head?_eq_some_iff.1 hhead
      exact ⟨first, List.head?_eq_getElem? ▸ hfirst, .inr ⟨hkind, hlen, handshakeBlob_cons hblob⟩⟩
    · cases h
  all_goals cases h

/-- The bytes the program may read of a datagram long enough for a payload
header. -/
theorem steering_bytes (h : minPayloadHeader ≤ p.length) : ∃ first shard home,
    p[0]? = some first ∧ p[1]? = some shard ∧ p[3]? = some home := by
  have hlen : 7 ≤ p.length := h
  exact ⟨_, _, _, List.getElem?_eq_getElem (by omega), List.getElem?_eq_getElem (by omega),
    List.getElem?_eq_getElem (by omega)⟩

theorem run_owner {s : ShardId} (h : ownerShard p = some s) : Cbpf.run steeringProgram p = some s.toNat := by
  obtain ⟨first, hfirst, ⟨hkind, hlen, hs⟩ | ⟨hkind, hlen, hs⟩⟩ := ownerShard_cases h
  · obtain ⟨_, _, home, _, _, hhome⟩ := steering_bytes hlen
    rw [run_long hlen hfirst hs hhome, steered, hkind]
  · have hlong : minPayloadHeader ≤ p.length := Nat.le_trans (by decide) hlen
    obtain ⟨_, shard, _, _, hshard, _⟩ := steering_bytes hlong
    rw [run_long hlong hfirst hshard hs, steered, hkind]
    exact congrArg some (if_pos hlen)

/-- Where the program answers with a byte and the rule does not, the datagram
is a response without a cookie. -/
theorem run_unowned {member : UInt8} (hrun : Cbpf.run steeringProgram p = some member.toNat) (h : ownerShard p = none) :
    peekKind p = some .response ∧ (handshakeBlob p).bind (·.head?) = none := by
  have hany : some anyMember.toNat ≠ some member.toNat := by
    have hlt := member.toNat_lt
    intro heq
    have : 2 ^ 32 - 1 = member.toNat := Option.some.inj heq
    omega
  by_cases hlen : minPayloadHeader ≤ p.length
  · obtain ⟨first, shard, home, hfirst, hshard, hhome⟩ := steering_bytes hlen
    rw [run_long hlen hfirst hshard hhome, steered] at hrun
    have hhead : p.head?.bind PacketKind.fromByte = PacketKind.fromByte first := by
      rw [List.head?_eq_getElem?, hfirst, Option.bind_some]
    unfold ownerShard at h
    unfold peekKind
    rw [hhead] at h ⊢
    generalize PacketKind.fromByte first = kind at hrun h
    cases kind with
    | none => exact absurd hrun hany
    | some kind =>
      cases kind with
      | payload =>
        dsimp only at h
        rw [if_pos hlen, hshard] at h
        cases h
      | request | challenge => exact absurd hrun hany
      | response =>
        dsimp only at hrun h ⊢
        by_cases hfull : handshakeLen ≤ p.length
        · rw [if_pos hfull] at h ⊢
          exact ⟨rfl, h⟩
        · rw [if_neg hfull] at hrun
          exact absurd hrun hany
  · rw [run_short (Nat.not_le.1 hlen)] at hrun
    exact absurd hrun hany

theorem readArray_ok {n at_ value : Nat} (h : Header.readArray n p at_ = .ok value) :
    at_ + n ≤ p.length ∧ value = leNat ((p.drop at_).take n) := by
  unfold Header.readArray at h
  split at h
  · cases h
  next hlen =>
    cases h
    exact ⟨Nat.not_lt.1 hlen, rfl⟩

/-- A header that parses is long enough, and its id is read from its place. -/
theorem Header.decode_ok {header : Header} {len : Nat} (h : Header.decode p = .ok (header, len)) :
    minPayloadHeader ≤ p.length ∧ p.head?.bind PacketKind.fromByte = some header.kind ∧
      header.connId = UInt32.ofNat (leNat ((p.drop 1).take 4)) := by
  unfold Header.decode at h
  split at h
  · cases h
  next first hfirst =>
    split at h
    · cases h
    · split at h
      · cases h
      next kind hbits =>
        cases hconn : readArray 4 p 1 with
        | error error =>
          rw [hconn] at h
          cases h
        | ok connId =>
          cases hseq : readArray 2 p 5 with
          | error error =>
            rw [hconn, hseq] at h
            cases h
          | ok sequence =>
            cases hack : decodeAck first p with
            | error error =>
              rw [hconn, hseq, hack] at h
              cases h
            | ok ack =>
              rw [hconn, hseq, hack] at h
              cases h
              rw [hfirst, Option.bind_some, PacketKind.fromByte, (readArray_ok hconn).2]
              exact ⟨(readArray_ok hseq).1, hbits, rfl⟩

theorem ownerShard_header {header : Header} {len : Nat} (h : Header.decode p = .ok (header, len))
    (hkind : header.kind = .payload) : ownerShard p = some header.connId.shard := by
  obtain ⟨hlen, hhead, hid⟩ := Header.decode_ok h
  obtain ⟨_, shard, _, _, hshard, _⟩ := steering_bytes hlen
  obtain ⟨hlt, hat⟩ := List.getElem?_eq_some_iff.1 hshard
  rw [hkind] at hhead
  unfold ownerShard
  rw [hhead]
  dsimp only
  rw [if_pos hlen, hshard, hid, ConnectionId.shard]
  have hbytes : (p.drop 1).take 4 = shard :: (p.drop 2).take 3 := by
    rw [List.drop_eq_getElem_cons hlt, hat]
    rfl
  have hlt := shard.toNat_lt
  have hlow : (UInt32.ofNat (leNat ((p.drop 1).take 4))).toNat % 2 ^ shardBits = shard.toNat := by
    rw [hbytes, leNat, UInt32.toNat_ofNat']
    have hbits : shardBits = 8 := rfl
    rw [hbits]
    omega
  rw [hlow, UInt8.ofNat_toNat]

theorem ownerShard_cookie {suite : Suite} {a : Acceptor} {cookie : Cookie}
    (hkind : p.head?.bind PacketKind.fromByte = some .response) (h : a.decryptCookie suite p = .ok cookie) :
    ownerShard p = some cookie.home := by
  obtain ⟨blob, _, hblob, _⟩ := Acceptor.decryptCookie_ok h
  have hlen : handshakeLen ≤ p.length := by
    unfold Acceptor.decryptCookie at h
    split at h
    · cases h
    next hlen => exact Nat.not_lt.1 hlen
  unfold ownerShard
  rw [hkind]
  dsimp only
  rw [if_pos hlen, hblob]
  rfl

end

namespace Endpoint

/-- A response without a cookie is dropped, charged for at most. -/
theorem handleDatagram_cookieless {suite : Suite} {e : Endpoint} {p : List UInt8} (hkind : peekKind p = some .response)
    (howner : ownerShard p = none) (now : Timestamp) (sender : SocketAddr) (draws : Draws) :
    (∃ reason, (e.handleDatagram suite now sender p draws).2 = (.dropped reason, [])) ∧
      e.SameButLimits (e.handleDatagram suite now sender p draws).1 := by
  have hclosed (a : Acceptor) (cookie : Cookie) : a.decryptCookie suite p ≠ .ok cookie := by
    intro h
    obtain ⟨blob, _, hblob, _⟩ := Acceptor.decryptCookie_ok h
    rw [ownerShard_response hkind, hblob] at howner
    cases howner
  have hdispatch : e.handleDatagram suite now sender p draws =
      ((e.handleResponse suite now sender p).1, (e.handleResponse suite now sender p).2, []) := by
    unfold handleDatagram dispatch
    rw [howner, hkind]
  rw [hdispatch]
  refine ⟨?_, handleResponse_same (hclosed e.acceptor)⟩
  unfold handleResponse
  dsimp only
  split
  · split
    next error _ => exact ⟨.handshake error, rfl⟩
    next cookie hopen => exact absurd (openResponse_ok suite hopen).1 (hclosed _ cookie)
  · exact ⟨.rateLimited, rfl⟩

end Endpoint

/-- **Four readings of the same bytes agree.** The kernel's program sends a
datagram to the shard that owns it; where it answers with a member nobody owns
the datagram for, whichever endpoint gets it drops it, with nothing but its
admission limits changed. And the owner is the shard of the connection id a
payload header decodes to, and the home of the cookie a response opens to. -/
theorem steering_agrees (p : List UInt8) :
    (∀ s, ownerShard p = some s → Cbpf.run steeringProgram p = some s.toNat) ∧
      (∀ member : UInt8, Cbpf.run steeringProgram p = some member.toNat → ownerShard p = none →
        ∀ suite (e : Endpoint) now sender draws,
          (∃ reason, (e.handleDatagram suite now sender p draws).2 = (.dropped reason, [])) ∧
            e.SameButLimits (e.handleDatagram suite now sender p draws).1) ∧
      (∀ header len, Header.decode p = .ok (header, len) → header.kind = .payload →
        ownerShard p = some header.connId.shard) ∧
      ∀ suite (a : Acceptor) cookie, p.head?.bind PacketKind.fromByte = some .response →
        a.decryptCookie suite p = .ok cookie → ownerShard p = some cookie.home := by
  refine ⟨fun s h => run_owner h, fun member hrun howner suite e now sender draws => ?_,
    fun header len h hkind => ownerShard_header h hkind, fun suite a cookie hkind h => ownerShard_cookie hkind h⟩
  exact Endpoint.handleDatagram_cookieless (run_unowned hrun howner).1 howner now sender draws

/-! ### Three datagrams -/

def cookieless : List UInt8 := PacketKind.response.bits :: List.replicate (handshakeLen - 1) 0

theorem steering_samples :
    Cbpf.run steeringProgram (Endpoint.payloadFor (.new 1 1 5)) = some 5 ∧
    (Cbpf.run steeringProgram cookieless = some 0 ∧ ownerShard cookieless = none ∧
      ∃ reason, (Endpoint.idle.handleDatagram Endpoint.clearSuite .zero (.v4 1 1) cookieless ⟨0, none⟩).2 =
        (.dropped reason, [])) ∧
    ∃ cookie, Endpoint.idle.acceptor.decryptCookie Endpoint.clearSuite Endpoint.response = .ok cookie ∧
      Cbpf.run steeringProgram Endpoint.response = some cookie.home.toNat := by
  have hpayload := steering_agrees (Endpoint.payloadFor (.new 1 1 5))
  have hcookieless := steering_agrees cookieless
  have hresponse := steering_agrees Endpoint.response
  have hrun : Cbpf.run steeringProgram cookieless = some (0 : UInt8).toNat := by decide +kernel
  have howner : ownerShard cookieless = none := by decide +kernel
  have hopens : (Endpoint.idle.acceptor.decryptCookie Endpoint.clearSuite Endpoint.response).toOption.isSome = true := by
    decide +kernel
  refine ⟨?_, ⟨hrun, howner, (hcookieless.2.1 0 hrun howner Endpoint.clearSuite Endpoint.idle .zero (.v4 1 1) ⟨0, none⟩).1⟩,
    ?_⟩
  · exact hpayload.1 5 (hpayload.2.2.1 _ _ (Endpoint.decode_payloadFor _) rfl)
  · cases hcookie : Endpoint.idle.acceptor.decryptCookie Endpoint.clearSuite Endpoint.response with
    | error error =>
      rw [hcookie] at hopens
      cases hopens
    | ok cookie =>
      exact ⟨cookie, rfl, hresponse.1 _ (hresponse.2.2.2 _ _ cookie (by decide +kernel) hcookie)⟩

end HexNet
