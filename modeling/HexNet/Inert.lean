/-
Datagrams nobody sealed. One that opens under no key the endpoint holds moves
nothing but its rate limits (`handleDatagram_inert`).
-/
import HexNet.Routing

namespace HexNet
namespace Endpoint

variable {suite : Suite} {e e' : Endpoint} {now : Timestamp}

/-- The same endpoint but for what it charges handshakes to. -/
def SameButLimits (e e' : Endpoint) : Prop :=
  ∃ requests responses limiter, e' = { e with requests, responses, limiter }

theorem SameButLimits.refl (e : Endpoint) : e.SameButLimits e := ⟨e.requests, e.responses, e.limiter, rfl⟩

theorem chargeHandshake_same (e : Endpoint) (now : Timestamp) (sender : SocketAddr) (kind : PacketKind) :
    e.SameButLimits (e.chargeHandshake now sender kind).1 := by
  cases kind
  all_goals exact ⟨_, _, _, rfl⟩

theorem SameButLimits.acceptor_eq (h : e.SameButLimits e') : e'.acceptor = e.acceptor := by
  obtain ⟨requests, responses, limiter, rfl⟩ := h
  rfl

/-- A request is charged for, and otherwise leaves nothing behind. -/
theorem handleRequest_same (e : Endpoint) (now : Timestamp) (sender : SocketAddr) (datagram : List UInt8)
    (draws : Draws) : e.SameButLimits (e.handleRequest suite now sender datagram draws).1 := by
  unfold handleRequest
  dsimp only
  split <;> exact e.chargeHandshake_same now sender .request

/-- A response whose cookie does not open is charged for, no more. -/
theorem handleResponse_same {sender : SocketAddr} {datagram : List UInt8}
    (h : ∀ cookie, e.acceptor.decryptCookie suite datagram ≠ .ok cookie) :
    e.SameButLimits (e.handleResponse suite now sender datagram).1 := by
  have hcharged := e.chargeHandshake_same now sender .response
  unfold handleResponse
  dsimp only
  split
  · split
    · exact hcharged
    next cookie hopen =>
      have hcookie := (openResponse_ok suite hopen).1
      rw [hcharged.acceptor_eq] at hcookie
      exact (h cookie hcookie).elim
  · exact hcharged

/-- A datagram that opens under none of the keys an endpoint holds, as what
the endpoint would take it for: a packet to a connection, at any sequence and
with any header; a ticket; a cookie. -/
structure Foreign (suite : Suite) (e : Endpoint) (datagram : List UInt8) : Prop where
  packet : ∀ handle conn, e.connections.get handle = some conn → ∀ seq headerLen,
    conn.crypto.rx.decrypt seq datagram headerLen = none
  ticket : ∀ blob, handshakeBlob datagram = some blob →
    decryptBlob (suite e.acceptor.backendKey) blob ticketAad maxTicket = none ∧
      decryptBlob (suite e.acceptor.serverKey) blob ticketAad maxTicket = none
  cookie : ∀ home blob, handshakeBlob datagram = some (home :: blob) →
    decryptBlob (suite e.acceptor.serverKey) blob (cookieAad home) maxCookie = none

theorem Foreign.decryptCookie {datagram : List UInt8} (h : Foreign suite e datagram) (cookie : Cookie) :
    e.acceptor.decryptCookie suite datagram ≠ .ok cookie := by
  intro hopen
  obtain ⟨blob, plain, hblob, hplain, -⟩ := Acceptor.decryptCookie_ok hopen
  rw [h.cookie _ blob hblob] at hplain
  cases hplain

end Endpoint

/-- A connection refuses what its receiving cipher does not open. -/
theorem Connection.handleDatagram_foreign {c : Connection Server} {datagram : List UInt8}
    (h : ∀ seq headerLen, c.crypto.rx.decrypt seq datagram headerLen = none) (now : Timestamp) (sender : SocketAddr) :
    ∃ error, error ≠ .badPayload ∧ (c.handleDatagram now sender datagram).2.2 = .error error := by
  unfold handleDatagram
  split
  · exact ⟨.closed, by decide, rfl⟩
  · split
    next error hdecrypt =>
      refine ⟨recvError error, ?_, rfl⟩
      cases error <;> simp [recvError]
    next crypto opened hdecrypt =>
      obtain ⟨-, headerLen, -, hopen⟩ := PacketCrypto.decrypt_ok hdecrypt
      rw [h] at hopen
      cases hopen

namespace Endpoint

variable {suite : Suite} {e e' : Endpoint} {now : Timestamp}

theorem routePayload_foreign (now : Timestamp) {datagram : List UInt8} (h : Foreign suite e datagram) (sender : SocketAddr) :
    (e.routePayload now sender datagram).1 = e ∧ (e.routePayload now sender datagram).2.2 = [] := by
  unfold routePayload
  split
  · exact ⟨rfl, rfl⟩
  · split
    · exact ⟨rfl, rfl⟩
    next handle _ =>
      split
      · exact ⟨rfl, rfl⟩
      next conn hget =>
        obtain ⟨error, hbad, herror⟩ := Connection.handleDatagram_foreign (h.packet handle conn hget) now sender
        obtain ⟨hsame, hnone⟩ := Connection.handleDatagram_refused hbad herror
        unfold deliver
        dsimp only
        rw [herror, hsame, hnone, Slab.modify_same hget]
        cases error with
        | badPayload => exact (hbad rfl).elim
        | _ => exact ⟨rfl, rfl⟩

/-- **Unauthenticated datagrams are inert.** A datagram that opens under none
of an endpoint's keys, whatever its bytes and wherever it came from, changes
nothing but the rate limits, and delivers no message. -/
theorem handleDatagram_inert {datagram : List UInt8} (h : Foreign suite e datagram) (now : Timestamp)
    (sender : SocketAddr) (draws : Draws) :
    (∃ requests responses limiter,
      (e.handleDatagram suite now sender datagram draws).1 = { e with requests, responses, limiter }) ∧
    (e.handleDatagram suite now sender datagram draws).2.2 = [] := by
  have hdispatch : e.SameButLimits (e.dispatch suite now sender datagram draws).1 ∧
      (e.dispatch suite now sender datagram draws).2.2 = [] := by
    unfold dispatch
    split
    · exact ⟨.refl e, rfl⟩
    · obtain ⟨hsame, hnone⟩ := routePayload_foreign now h sender
      exact ⟨by rw [hsame]; exact .refl e, hnone⟩
    · exact ⟨e.handleRequest_same now sender datagram draws, rfl⟩
    · exact ⟨handleResponse_same h.decryptCookie, rfl⟩
    · exact ⟨.refl e, rfl⟩
  unfold handleDatagram
  split
  · split
    · exact ⟨SameButLimits.refl e, rfl⟩
    · exact hdispatch
  · exact hdispatch

/-- A request whose ticket nobody sealed. -/
def forged : List UInt8 := PacketKind.request.bits :: (LeBytes.leBytes 40 2 ++ List.replicate 1197 7)

theorem forged_foreign : Foreign clearSuite idle forged := by
  have hblob : handshakeBlob forged = some (List.replicate 40 7) := by decide +kernel
  refine ⟨fun _ _ hget => (nomatch hget), fun blob h => ?_, fun home blob h => ?_⟩
  · rw [hblob] at h
    cases h
    decide +kernel
  · rw [hblob] at h
    cases h
    decide +kernel

/-- A payload too short for a tag. -/
theorem payloadFor_foreign (suite : Suite) (e : Endpoint) : Foreign suite e (payloadFor 0) := by
  have hlen : (payloadFor 0).length = 7 := rfl
  have hblob : handshakeBlob (payloadFor 0) = some [] := by decide +kernel
  refine ⟨fun _ _ _ seq headerLen => if_pos ?_, fun blob h => ?_, fun home blob h => ?_⟩
  · rw [hlen, tagLen]
    omega
  · rw [hblob] at h
    cases h
    exact ⟨rfl, rfl⟩
  · rw [hblob] at h
    cases h

theorem inert_forged :
    (idle.handleDatagram clearSuite .zero (.v4 1 1) forged ⟨0, none⟩).2 = (.dropped (.handshake .badAuth), []) ∧
    ∃ requests responses limiter, (greeted.handleDatagram clearSuite .zero (.v4 1 1) (payloadFor 0) ⟨0, none⟩).1 =
      { greeted with requests, responses, limiter } := by
  have hidle := handleDatagram_inert forged_foreign .zero (.v4 1 1) ⟨0, none⟩
  have hgreeted := handleDatagram_inert (payloadFor_foreign clearSuite greeted) .zero (.v4 1 1) ⟨0, none⟩
  exact ⟨Prod.ext (by decide +kernel) hidle.2, hgreeted.1⟩

end Endpoint
end HexNet
