/-
Challenges. A request that is answered leaves nothing behind and is answered
with no more than it brought (`handleDatagram_respond`); all that was agreed is
in the cookie, which opens to it again (`Answered.opens`). A cookie keeps of an
address its ip and its port, so it comes back whole and passes the address check
where that is all there is to the address, and nowhere else
(`cookie_round_trip`): not with the scope id of `scoped_refused`.
-/
import HexNet.Inert

namespace HexNet

open LeBytes

/-- A challenge, and the request it answers. -/
structure Answer where
  now : Timestamp
  sender : SocketAddr
  request : List UInt8
  draws : Endpoint.Draws
  out : List UInt8

/-- `answer` is a challenge whose cookie is `cookie`. -/
structure Answered (suite : Suite) (a : Acceptor) (answer : Answer) (cookie : Cookie) : Prop where
  ticket_eq : a.decryptTicket suite answer.request = .ok cookie.ticket
  nonce_eq : requestNonce answer.request = some cookie.nonce
  ticketId_eq : TicketId.ofRequest answer.request = some cookie.ticketId
  home_eq : a.home cookie.ticket cookie.ticketId = some cookie.home
  issuedAt_eq : cookie.issuedAt = answer.now
  addr_eq : cookie.addr = .new answer.sender.ip answer.sender.port
  serverNonce_eq : challengeNonce answer.out = some cookie.serverNonce
  /-- Every packet with the challenge's blob brings the cookie back. -/
  opens : ∀ packet, handshakeLen ≤ packet.length → handshakeBlob packet = handshakeBlob answer.out →
    a.decryptCookie suite packet = .ok cookie

/-- Sealing a cookie: what the blob opens to. -/
theorem Acceptor.encryptCookie_ok {suite : Suite} {a : Acceptor} {now : Timestamp} {addr : SocketAddr}
    {nonce : ClientNonce} {serverNonce : ServerNonce} {ticketId : TicketId} {ticket : Ticket} {draw : Option BlobNonce}
    {blob : List UInt8} (h : a.encryptCookie suite now addr nonce serverNonce ticketId ticket draw = .ok blob) :
    ∃ home, a.home ticket ticketId = some home ∧
      ∀ packet, handshakeLen ≤ packet.length → handshakeBlob packet = some blob → a.decryptCookie suite packet = .ok
        { home, issuedAt := now, addr := .new addr.ip addr.port, nonce, serverNonce, ticketId, ticket } := by
  unfold encryptCookie at h
  split at h
  · cases h
  next home hhome =>
    obtain ⟨plain, hencode, hlen, hdecode⟩ := Cookie.decode_encode home now addr nonce serverNonce ticketId ticket
    rw [hencode] at h
    dsimp only at h
    split at h
    · cases h
    next sealed hsealed =>
      cases h
      refine ⟨home, hhome, fun packet hpacket hblob => ?_⟩
      rw [decryptCookie, if_neg (Nat.not_lt.2 hpacket), hblob]
      dsimp only
      rw [decrypt_encryptBlob hsealed hlen]
      exact hdecode

namespace Endpoint

variable {suite : Suite} {e : Endpoint} {now : Timestamp} {sender addr : SocketAddr} {datagram out : List UInt8}
  {draws : Draws}

theorem answerRequest_respond (h : e.answerRequest suite now sender datagram draws = .respond addr out) :
    addr = sender ∧ out.length = handshakeLen ∧
      ∃ cookie, Answered suite e.acceptor ⟨now, sender, datagram, draws, out⟩ cookie := by
  unfold answerRequest at h
  split at h
  · cases h
  next ticket hticket =>
    split at h
    next nonce ticketId hnonce hticketId =>
      split at h
      · cases h
      · split at h
        · cases h
        · split at h
          · cases h
          next blob hblob =>
            split at h
            · cases h
            next out' hout =>
              cases h
              obtain ⟨hlen, -, hbody, htrailer⟩ := encodeChallenge_spec hout
              obtain ⟨home, hhome, hopens⟩ := Acceptor.encryptCookie_ok hblob
              refine ⟨rfl, hlen, ⟨home, now, .new sender.ip sender.port, nonce, draws.serverNonce, ticketId, ticket⟩,
                hticket, hnonce, hticketId, hhome, rfl, rfl, htrailer, fun packet hpacket heq => ?_⟩
              exact hopens packet hpacket (heq.trans hbody)
    · cases h

theorem routePayload_not_respond (h : (e.routePayload now sender datagram).2.1 = .respond addr out) : False := by
  unfold routePayload at h
  split at h
  · cases h
  · split at h
    · cases h
    · split at h
      · cases h
      next hget =>
        rcases e.deliver_cases now sender datagram hget with heq | heq
        · rw [heq] at h
          cases h
        · rw [heq] at h
          cases h

theorem redeem_not_respond {cookie : Cookie} (h : (e.redeem suite now sender cookie).2 = .respond addr out) : False := by
  unfold redeem at h
  split at h
  · unfold answerSpent at h
    split at h
    · split at h <;> cases h
    · cases h
  · split at h
    · cases h
    · split at h
      · cases h
      · unfold admitPlayer at h
        dsimp only at h
        split at h <;> cases h

theorem handleResponse_not_respond (h : (e.handleResponse suite now sender datagram).2 = .respond addr out) : False := by
  unfold handleResponse at h
  dsimp only at h
  split at h
  · split at h
    · cases h
    · exact redeem_not_respond h
  · cases h

/-- An answer is to a request: nothing else is answered. -/
theorem handleDatagram_respond_cases
    (h : (e.handleDatagram suite now sender datagram draws).2.1 = .respond addr out) :
    peekKind datagram = some .request ∧
      (e.handleDatagram suite now sender datagram draws).1 = (e.chargeHandshake now sender .request).1 ∧
      (e.chargeHandshake now sender .request).1.answerRequest suite now sender datagram draws = .respond addr out := by
  have hdispatch (h : (e.dispatch suite now sender datagram draws).2.1 = .respond addr out) :
      peekKind datagram = some .request ∧
        (e.dispatch suite now sender datagram draws).1 = (e.chargeHandshake now sender .request).1 ∧
        (e.chargeHandshake now sender .request).1.answerRequest suite now sender datagram draws = .respond addr out := by
    unfold dispatch at h ⊢
    split at h
    · cases h
    · exact (routePayload_not_respond h).elim
    next hkind =>
      dsimp only at h ⊢
      unfold handleRequest at h ⊢
      dsimp only at h ⊢
      split at h
      next hpaid => exact ⟨hkind, by rw [if_pos hpaid], h⟩
      · cases h
    · exact (handleResponse_not_respond h).elim
    · cases h
  unfold handleDatagram at h ⊢
  split at h
  · split at h
    · unfold misrouted at h
      dsimp only at h
      split at h <;> cases h
    next howner =>
      rw [if_neg howner]
      exact hdispatch h
  · exact hdispatch h

/-- **An answer is stateless and amplifies nothing.** It goes where the
request came from, is no longer than the request, and leaves the endpoint as
it was but for the rate limits. -/
theorem handleDatagram_respond (h : (e.handleDatagram suite now sender datagram draws).2.1 = .respond addr out) :
    addr = sender ∧ out.length ≤ datagram.length ∧ e.SameButLimits (e.handleDatagram suite now sender datagram draws).1 ∧
      ∃ cookie, Answered suite e.acceptor ⟨now, sender, datagram, draws, out⟩ cookie := by
  obtain ⟨hkind, hstate, hanswer⟩ := handleDatagram_respond_cases h
  obtain ⟨haddr, hlen, hanswered⟩ := answerRequest_respond hanswer
  have hsame := e.chargeHandshake_same now sender .request
  rw [hsame.acceptor_eq] at hanswered
  refine ⟨haddr, ?_, by rw [hstate]; exact hsame, hanswered⟩
  rw [hlen]
  exact handshakeLen_le hkind (by decide)

end Endpoint

/-! ## Addresses -/

/-- An address that is its ip and its port, all a cookie keeps of one. -/
def SocketAddr.Plain : SocketAddr → Prop
  | .v4 _ _ => True
  | .v6 _ _ flowinfo scopeId => flowinfo = 0 ∧ scopeId = 0

theorem SocketAddr.plain_iff {addr : SocketAddr} : addr.Plain ↔ .new addr.ip addr.port = addr := by
  cases addr with
  | v4 ip port => exact iff_of_true trivial rfl
  | v6 ip port flowinfo scopeId =>
    constructor
    · rintro ⟨rfl, rfl⟩
      rfl
    · intro h
      cases h
      exact ⟨rfl, rfl⟩

namespace Cookie

/-- The fields ahead of the ticket leave it all the room it is given. -/
theorem encode_fits {now : Timestamp} {addr : SocketAddr} {nonce : ClientNonce} {serverNonce : ServerNonce}
    {ticketId : TicketId} {ticket : Ticket} {bytes : List UInt8}
    (h : encode now addr nonce serverNonce ticketId ticket = some bytes) :
    ∃ fields plain, ticket.encode = some plain ∧ bytes = fields ++ plain ∧ fields.length + maxTicket ≤ maxCookie := by
  obtain ⟨plain, hplain, rfl⟩ := Option.map_eq_some_iff.1 h
  refine ⟨leBytes now.nanos 8 ++ (ipBytes addr.ip ++ (leBytes addr.port.toNat 2 ++ (leBytes nonce.toNat 8 ++
    (leBytes serverNonce.toNat 8 ++ ticketId.nonce)))), plain, hplain, by simp only [List.append_assoc], ?_⟩
  have hip := length_ipBytes addr.ip
  simp only [List.length_append, length_leBytes, ticketId.len, nonceLen]
  show _ + 384 ≤ 440
  omega

/-- **A cookie comes back whole exactly where its address is an ip and a port.**
Any cookie encodes within its buffers. It decodes to the same value in every
field, and a response that echoes the challenge it was sent in passes the
address check from the address the challenge was sent to, if and only if that
is all there is to the address. -/
theorem cookie_round_trip (addr : SocketAddr) :
    (∀ home now nonce serverNonce ticketId ticket, ∃ bytes,
      encode now addr nonce serverNonce ticketId ticket = some bytes ∧
      (∃ fields plain, ticket.encode = some plain ∧ bytes = fields ++ plain ∧ fields.length + maxTicket ≤ maxCookie) ∧
      (decode home bytes = .ok { home, issuedAt := now, addr, nonce, serverNonce, ticketId, ticket } ↔ addr.Plain)) ∧
    ∀ (suite : Suite) (e e' : Endpoint) now now' request draws dest out response,
      (e.handleDatagram suite now addr request draws).2.1 = .respond dest out → e'.acceptor = e.acceptor →
      handshakeLen ≤ response.length → handshakeBlob response = handshakeBlob out →
      dest = addr ∧ (e'.openResponse suite now' dest response ≠ .error .addressMismatch ↔ addr.Plain) := by
  refine ⟨fun home now nonce serverNonce ticketId ticket => ?_, ?_⟩
  · obtain ⟨bytes, hencode, -, hdecode⟩ := decode_encode home now addr nonce serverNonce ticketId ticket
    refine ⟨bytes, hencode, encode_fits hencode, ?_⟩
    rw [hdecode, SocketAddr.plain_iff]
    simp
  · intro suite e e' now now' request draws dest out response hrespond hacceptor hlen hblob
    obtain ⟨rfl, -, -, cookie, hanswered⟩ := Endpoint.handleDatagram_respond hrespond
    refine ⟨rfl, ?_⟩
    have haddr : cookie.addr = .new dest.ip dest.port := hanswered.addr_eq
    unfold Endpoint.openResponse
    rw [hacceptor, hanswered.opens response hlen hblob, SocketAddr.plain_iff, ← haddr]
    dsimp only
    split
    next hne => exact iff_of_false (fun h => h rfl) hne
    next heq =>
      refine iff_of_true ?_ (not_not.1 heq)
      split <;> nofun

open Endpoint (idle clearSuite visitor drawn requestOf answerOf echoOf)

theorem cookie_round_trip_v6 :
    (SocketAddr.v6 1 9 0 0).Plain ∧
    (∃ bytes, encode .zero (.v6 1 9 0 0) 5 9 drawn visitor = some bytes ∧
      decode 0 bytes = .ok ⟨0, .zero, .v6 1 9 0 0, 5, 9, drawn, visitor⟩) ∧
    (idle.handleDatagram clearSuite .zero (.v6 1 9 0 0) (requestOf visitor drawn) ⟨9, some drawn⟩).2.1 =
      .respond (.v6 1 9 0 0) (answerOf idle (.v6 1 9 0 0) (requestOf visitor drawn)) ∧
    idle.openResponse clearSuite .zero (.v6 1 9 0 0) (echoOf (answerOf idle (.v6 1 9 0 0) (requestOf visitor drawn))) ≠
      .error .addressMismatch := by
  have hplain : (SocketAddr.v6 1 9 0 0).Plain := ⟨rfl, rfl⟩
  have hrespond : (idle.handleDatagram clearSuite .zero (.v6 1 9 0 0) (requestOf visitor drawn) ⟨9, some drawn⟩).2.1 =
      .respond (.v6 1 9 0 0) (answerOf idle (.v6 1 9 0 0) (requestOf visitor drawn)) := by decide +kernel
  obtain ⟨hround, hcheck⟩ := cookie_round_trip (.v6 1 9 0 0)
  obtain ⟨bytes, hencode, -, hdecode⟩ := hround 0 .zero 5 9 drawn visitor
  exact ⟨hplain, ⟨bytes, hencode, hdecode.2 hplain⟩, hrespond,
    (hcheck clearSuite idle idle .zero .zero _ ⟨9, some drawn⟩ _ _ _ hrespond rfl (by decide +kernel)
      (by decide +kernel)).2.2 hplain⟩

/-- **A scope id is lost.** A client at a link-local address is challenged, and
the response it sends from that address is refused for coming from another. -/
theorem scoped_refused :
    (∃ bytes cookie, encode .zero (.v6 1 9 0 2) 5 9 drawn visitor = some bytes ∧ decode 0 bytes = .ok cookie ∧
      cookie.addr ≠ .v6 1 9 0 2) ∧
    (idle.handleDatagram clearSuite .zero (.v6 1 9 0 2) (requestOf visitor drawn) ⟨9, some drawn⟩).2.1 =
      .respond (.v6 1 9 0 2) (answerOf idle (.v6 1 9 0 2) (requestOf visitor drawn)) ∧
    (idle.handleDatagram clearSuite .zero (.v6 1 9 0 2)
      (echoOf (answerOf idle (.v6 1 9 0 2) (requestOf visitor drawn))) ⟨9, some drawn⟩).2.1 =
        .dropped (.handshake .addressMismatch) := by
  obtain ⟨bytes, hencode, -, hdecode⟩ := decode_encode 0 .zero (.v6 1 9 0 2) 5 9 drawn visitor
  exact ⟨⟨bytes, _, hencode, hdecode, by decide⟩, by decide +kernel, by decide +kernel⟩

end Cookie
end HexNet
