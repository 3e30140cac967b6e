/-
One attempt to connect (`connector.rs` against `endpoint.rs`): a connector, a
group of shards, and a network between them that drops, duplicates, delays and
reorders, but neither alters nor makes up what carries the attempt's ticket.

Both ends derive a connection's keys from two nonces. The client's is in every
request, so whichever shard answers and whichever request it answers, the
cookie seals the same one. The server's differs from challenge to challenge,
and the client keeps one challenge only: a cookie of the ticket can come back
only in a response, and the connector echoes the cookie it kept, so the nonce
sealed in what is redeemed is the one kept with it (`keys_agree`).
-/
import HexNet.Agreement
import HexNet.Connector
import HexNet.Numbering
import HexNet.Tickets

namespace HexNet

/-! ## What a connector sends -/

/-- A payload packet is one by its first byte. -/
theorem Header.peekKind_payload {h : Header} (hkind : h.kind = .payload) (rest : List UInt8) :
    peekKind (h.bytes ++ rest) = some .payload := by
  have hflags : PacketKind.fromByte h.flags = some .payload := by
    rw [flags, hkind]
    split <;> split <;> rfl
  rw [bytes, List.cons_append, peekKind, List.head?_cons, Option.bind_some, hflags]

/-- A handshake packet is of the kind it was framed as. -/
theorem peekKind_of_head {packet : List UInt8} {kind : PacketKind} (hlen : packet.length = handshakeLen)
    (hhead : packet.head? = some kind.bits) : peekKind packet = some kind := by
  rw [peekKind, hhead, Option.bind_some, PacketKind.fromByte_bits]
  cases kind with
  | payload => rfl
  | _ => exact if_pos (Nat.le_of_eq hlen.symm)

namespace Connector

variable (suite : Suite)

/-- What a call hands to the socket. -/
def sentBy (k : Connector) : Call → List (List UInt8)
  | .handleDatagram now sender datagram =>
    match (k.handleDatagram suite now sender datagram).2.1 with
    | .send out => [out]
    | .done | .connected | .ended => []
  | .pollTransmit now out => (k.pollTransmit now out).2.toList
  | .handleTimeout _ | .close | .send _ _ | .takeResumeTicket => []

/-- The ticket the connector presents. -/
def ticketId (k : Connector) : Option TicketId := (encodeRequest k.ticket.items k.nonce).bind TicketId.ofRequest

variable {suite}

/-- What an attempt never changes, and when it takes a challenge. -/
structure Holds (k : Connector) (call : Call) (k' : Connector) : Prop where
  ticket_eq : k'.ticket = k.ticket
  nonce_eq : k'.nonce = k.nonce
  keys_eq : k'.keys = k.keys
  challenge : k'.challenge = k.challenge ∨ k.state = .requesting ∧ ∃ now sender datagram challenge,
    call = .handleDatagram now sender datagram ∧ datagram.head?.bind PacketKind.fromByte = some .challenge ∧
      readChallenge datagram = some challenge ∧ k'.challenge = some challenge
  requesting : k'.state = .requesting → k.state = .requesting ∧ k'.challenge = k.challenge

theorem drainConnectionEvents_holds (k : Connector) (call : Call) (conn : Connection Client) :
    Holds k call { k with connection := some conn }.drainConnectionEvents.1 := by
  unfold drainConnectionEvents
  dsimp only
  split
  · exact ⟨rfl, rfl, rfl, .inl rfl, nofun⟩
  · exact ⟨rfl, rfl, rfl, .inl rfl, fun hstate => ⟨hstate, rfl⟩⟩

theorem Does.holds {k k' : Connector} {call : Call} (h : Does suite k call k') : Holds k call k' := by
  cases h with
  | kept => exact ⟨rfl, rfl, rfl, .inl rfl, fun hstate => ⟨hstate, rfl⟩⟩
  | challenged now sender datagram challenge hstate hkind hread =>
    exact ⟨rfl, rfl, rfl, .inr ⟨hstate, now, sender, datagram, challenge, rfl, hkind, hread, rfl⟩, nofun⟩
  | accepted => exact ⟨rfl, rfl, rfl, .inl rfl, nofun⟩
  | attempted => exact ⟨rfl, rfl, rfl, .inl rfl, fun hstate => ⟨hstate, rfl⟩⟩
  | failed => exact ⟨rfl, rfl, rfl, .inl rfl, nofun⟩
  | polled => exact ⟨rfl, rfl, rfl, .inl rfl, fun hstate => ⟨hstate, rfl⟩⟩
  | read => exact drainConnectionEvents_holds k _ _
  | timed => exact drainConnectionEvents_holds k _ _
  | used => exact ⟨rfl, rfl, rfl, .inl rfl, fun hstate => ⟨hstate, rfl⟩⟩

theorem Holds.ticketId_eq {k k' : Connector} {call : Call} (h : Holds k call k') : k'.ticketId = k.ticketId := by
  rw [ticketId, ticketId, h.ticket_eq, h.nonce_eq]

/-- A challenge once held is held for good. -/
theorem Holds.keeps {k k' : Connector} {call : Call} (h : Holds k call k')
    (hasking : k.state = .requesting → k.challenge = none) {challenge : Challenge}
    (hheld : k.challenge = some challenge) : k'.challenge = some challenge := by
  rcases h.challenge with heq | ⟨hstate, -⟩
  · rw [heq, hheld]
  · exact (Option.some_ne_none challenge (hheld.symm.trans (hasking hstate))).elim

/-- The connection's messages are live in its arena. -/
def Intact (k : Connector) : Prop := ∀ conn, k.connection = some conn → conn.channels.Intact

theorem drainConnectionEvents_intact {k : Connector} {conn : Connection Client} (h : conn.channels.Intact) :
    ({ k with connection := some conn }.drainConnectionEvents.1).Intact := by
  unfold drainConnectionEvents
  dsimp only
  split <;>
  · intro conn' hconn
    obtain rfl := Option.some.inj hconn
    exact h

theorem Does.intact {k k' : Connector} {call : Call} (h : Does suite k call k') (hk : k.Intact) : k'.Intact := by
  have hcalled : ∀ conn : Connection Client, conn.channels.Intact → ∀ own : Connection.Call Client,
      (conn.after own).channels.Intact := fun conn hconn own => (Connection.after_does conn own).intact hconn
  cases h with
  | kept => exact hk
  | challenged => exact hk
  | accepted now sender datagram header len challenge =>
    intro conn hconn
    obtain rfl := Option.some.inj hconn
    exact hcalled _ (Channels.new_intact k.channels) (.handleDatagram now k.server datagram)
  | attempted => exact hk
  | failed => exact hk
  | polled now out conn _ hconn =>
    intro conn' hconn'
    obtain rfl := Option.some.inj hconn'
    exact hcalled conn (hk conn hconn) (.pollTransmit now out)
  | read now sender datagram conn _ hconn =>
    exact drainConnectionEvents_intact (hcalled conn (hk conn hconn) (.handleDatagram now k.server datagram))
  | timed now conn _ hconn => exact drainConnectionEvents_intact (hcalled conn (hk conn hconn) (.handleTimeout now))
  | used conn own hconn =>
    intro conn' hconn'
    obtain rfl := Option.some.inj hconn'
    exact hcalled conn (hk conn hconn) own

/-- What `d` is, of the handshake: the connector's request, the echo of the
cookie it holds, or neither. -/
structure Speaks (k : Connector) (d : List UInt8) : Prop where
  request : peekKind d = some .request → encodeRequest k.ticket.items k.nonce = some d
  response : peekKind d = some .response → ∃ challenge, k.challenge = some challenge ∧
    handshakeBlob d = some challenge.cookie.items

theorem writeHandshake_speaks {k : Connector} {d : List UInt8} (h : k.writeHandshake = some d) : k.Speaks d := by
  unfold writeHandshake at h
  split at h
  · have hkind := peekKind_of_head (encodeRequest_spec h).1 (encodeRequest_spec h).2.1
    exact ⟨fun _ => h, fun hresponse => (nomatch hkind.symm.trans hresponse)⟩
  · obtain ⟨challenge, hchallenge, hencode⟩ := Option.bind_eq_some_iff.1 h
    obtain ⟨hlen, hhead, hblob⟩ := encodeHandshake_spec hencode
    have hkind := peekKind_of_head hlen hhead
    exact ⟨fun hrequest => (nomatch hkind.symm.trans hrequest), fun _ => ⟨challenge, hchallenge, hblob⟩⟩
  · cases h
  · cases h
  · cases h

theorem onChallenge_send {k : Connector} {now : Timestamp} {datagram d : List UInt8}
    (h : (k.onChallenge now datagram).2 = .send d) : (k.onChallenge now datagram).1.writeHandshake = some d := by
  unfold onChallenge at h ⊢
  split at h
  · cases h
  next challenge hread =>
    dsimp only at h ⊢
    generalize writeHandshake _ = out at h ⊢
    cases out with
    | none => cases h
    | some out =>
      cases h
      rfl

theorem onAccepted_silent (k : Connector) (now : Timestamp) (datagram d : List UInt8) :
    (k.onAccepted suite now datagram).2.1 ≠ .send d := by
  unfold onAccepted
  split
  · dsimp only
    split <;> nofun
  · nofun

theorem drainConnectionEvents_silent (k : Connector) (d : List UInt8) : k.drainConnectionEvents.2 ≠ .send d := by
  unfold drainConnectionEvents
  split
  · nofun
  · dsimp only
    split <;> nofun

theorem onPayload_silent (k : Connector) (now : Timestamp) (datagram d : List UInt8) :
    (k.onPayload now datagram).2.1 ≠ .send d := by
  unfold onPayload
  split
  · nofun
  · dsimp only
    split
    · exact drainConnectionEvents_silent _ d
    · exact drainConnectionEvents_silent _ d
    · nofun

/-- A datagram is answered only where it is a challenge, with its echo. -/
theorem handleDatagram_send {k : Connector} {now : Timestamp} {sender : SocketAddr} {datagram d : List UInt8}
    (h : (k.handleDatagram suite now sender datagram).2.1 = .send d) :
    (k.handleDatagram suite now sender datagram).1.writeHandshake = some d := by
  unfold handleDatagram at h ⊢
  split at h
  · cases h
  next hserver =>
    rw [if_neg hserver]
    split at h
    · exact onChallenge_send h
    · exact (onAccepted_silent k now datagram d h).elim
    · exact (onPayload_silent k now datagram d h).elim
    · cases h

/-- A poll sends the handshake step, or a packet of the connection's. -/
theorem pollTransmit_speaks {k : Connector} (hk : k.Intact) {now : Timestamp} {out : Packet} {d : List UInt8}
    (h : (k.pollTransmit now out).2 = some d) : (k.pollTransmit now out).1.Speaks d := by
  have hstep (hpoll : (if k.attempted now then (k, none) else
      ({ k with lastAttempt := some now }, k.writeHandshake)).2 = some d) :
      ((if k.attempted now then (k, none) else
        ({ k with lastAttempt := some now }, k.writeHandshake)).1).Speaks d := by
    split at hpoll
    · cases hpoll
    next hlate =>
      rw [if_neg hlate]
      have hspeaks := writeHandshake_speaks hpoll
      exact ⟨hspeaks.request, hspeaks.response⟩
  unfold pollTransmit at h ⊢
  split at h
  · exact hstep h
  · exact hstep h
  · split at h
    · cases h
    next conn hconn =>
      obtain ⟨⟨sealed, -, rfl⟩, -⟩ := Connection.pollTransmit_some (hk conn hconn) h
      have hkind := Header.peekKind_payload (Connection.buildHeader_spec conn now).2.1 (sealed.1 ++ sealed.2)
      exact ⟨fun hrequest => (nomatch hkind.symm.trans hrequest), fun hresponse => (nomatch hkind.symm.trans hresponse)⟩
  · cases h
  · cases h

/-- Whatever a call sends speaks for the connector it leaves. -/
theorem sentBy_speaks {k : Connector} (hk : k.Intact) {call : Call} {d : List UInt8} (h : d ∈ k.sentBy suite call) :
    (k.after suite call).Speaks d := by
  cases call with
  | handleDatagram now sender datagram =>
    rw [sentBy] at h
    split at h
    next out hsend =>
      obtain rfl := List.mem_singleton.1 h
      exact writeHandshake_speaks (handleDatagram_send hsend)
    all_goals cases h
  | pollTransmit now out => exact pollTransmit_speaks hk (Option.mem_toList.1 h)
  | _ => cases h

end Connector

/-! ## The attempt and the group -/

/-- A connector and a group, with what the network may deliver and what the
results are stated over. -/
structure Attempt where
  connector : Connector
  group : Group
  /-- Every datagram the connector sent. -/
  sent : List (List UInt8)
  /-- Every connection the group created, with the cookie it was redeemed for. -/
  redeemed : List (Birth × Cookie)

inductive AttemptOp
  | client (call : Connector.Call)
  | server (op : GroupOp)

namespace Attempt

variable (suite : Suite)

/-- The connections a call to a member creates, with the cookie it opens. -/
def redemptionsOf (i : ShardId) (e : Endpoint) (op : EndpointOp) : List (Birth × Cookie) :=
  match op with
  | .handleDatagram now sender datagram _ =>
    match e.openResponse suite now sender datagram with
    | .ok cookie => (Group.birthsOf i e.connections (e.after suite op).connections).map fun birth => (birth, cookie)
    | .error _ => []
  | _ => []

def after (s : Attempt) : AttemptOp → Attempt
  | .client call =>
    { s with connector := s.connector.after suite call, sent := s.sent ++ s.connector.sentBy suite call }
  | .server (.issue ticket draw) => { s with group := s.group.after suite (.issue ticket draw) }
  | .server (.member i op) =>
    { s with
      group := s.group.after suite (.member i op)
      redeemed := s.redeemed ++ redemptionsOf suite i (s.group.members i) op }

/-- The keys that came with the ticket are the ones sealed in it. -/
def Issued (a : Acceptor) (k : Connector) : Prop :=
  ∀ request ticket, encodeRequest k.ticket.items k.nonce = some request → a.decryptTicket suite request = .ok ticket →
    ticket.keys = k.keys

/-- The runs of an attempt: a new connector, and a new group. -/
def sys : Lts.Sys Attempt AttemptOp where
  start s := s.group.Fresh ∧ s.sent = [] ∧ s.redeemed = [] ∧ Issued suite s.group.acceptor s.connector ∧
    ∃ now server ticket keys channels transport nonce,
      s.connector = .connect now server ticket keys channels transport nonce
  step s op s' := s' = s.after suite op

/-- `datagram` presents the ticket `id`: in a request, or in the cookie of a
response. -/
def Presents (a : Acceptor) (id : TicketId) (datagram : List UInt8) : Prop :=
  peekKind datagram = some .request ∧ TicketId.ofRequest datagram = some id ∨
    peekKind datagram = some .response ∧ ∃ cookie, a.decryptCookie suite datagram = .ok cookie ∧ cookie.ticketId = id

/-- What a member is called with: anything, but a datagram that presents the
attempt's ticket is one the connector sent. -/
def Delivers (s : Attempt) (i : ShardId) (op : EndpointOp) : Prop :=
  s.group.acceptor.shards.contains i = true ∧
    ∀ now sender datagram draws, op = .handleDatagram now sender datagram draws →
      datagram ∈ s.sent ∨ ∀ id, s.connector.ticketId = some id → ¬ Presents suite s.group.acceptor id datagram

/-- The network and the other clients: a challenge that reaches the connector
is one the group sent, and nothing else presents its ticket. -/
def Unaltered (s : Attempt) : AttemptOp → Prop
  | .client (.handleDatagram _ _ datagram) => datagram.head?.bind PacketKind.fromByte = some .challenge →
    ∃ answer ∈ s.group.answers, answer.out = datagram
  | .client _ => True
  | .server (.issue _ _) => True
  | .server (.member i op) => s.Delivers suite i op

/-! ## What a run keeps -/

variable {suite} {s : Attempt}

/-- A cookie that seals what the connector derives its keys from. -/
def Matches (k : Connector) (cookie : Cookie) : Prop :=
  ∃ challenge, k.challenge = some challenge ∧ cookie.nonce = k.nonce ∧ cookie.serverNonce = challenge.serverNonce ∧
    cookie.ticket.keys = k.keys

/-- A connection whose ciphers are those of `keys`. -/
def Keyed (suite : Suite) (conn : Connection Server) (keys : ConnectionKeys) : Prop :=
  conn.crypto.tx = ⟨suite keys.keys.serverToClient, conn.id⟩ ∧ conn.crypto.rx = ⟨suite keys.keys.clientToServer, conn.id⟩

structure Agreed (suite : Suite) (s : Attempt) : Prop where
  intact : s.connector.Intact
  /-- A connector that still asks holds no challenge. -/
  asking : s.connector.state = .requesting → s.connector.challenge = none
  speaks : ∀ d ∈ s.sent, s.connector.Speaks d
  issued : Issued suite s.group.acceptor s.connector
  member : ∀ i, s.group.acceptor.shards.contains i = true → Group.Placed s.group.acceptor i (s.group.members i)
  answered : ∀ answer ∈ s.group.answers, ∃ cookie, Answered suite s.group.acceptor answer cookie
  /-- The ticket is presented only in the connector's own request. -/
  presented : ∀ answer ∈ s.group.answers, ∀ id, s.connector.ticketId = some id →
    TicketId.ofRequest answer.request = some id →
    encodeRequest s.connector.ticket.items s.connector.nonce = some answer.request
  /-- The challenge held is one the group sent. -/
  held : ∀ challenge, s.connector.challenge = some challenge →
    ∃ answer ∈ s.group.answers, Connector.readChallenge answer.out = some challenge
  recorded : ∀ birth ∈ s.group.created, ∃ cookie, (birth, cookie) ∈ s.redeemed
  redeemed : ∀ r ∈ s.redeemed, s.connector.ticketId = some r.1.ticket → Matches s.connector r.2
  live : ∀ i, s.group.acceptor.shards.contains i = true → ∀ handle conn,
    (s.group.members i).connections.get handle = some conn → s.connector.ticketId = some conn.role.ticket →
    ∃ challenge, s.connector.challenge = some challenge ∧
      Keyed suite conn (s.connector.keysFor suite conn.id challenge)

theorem readChallenge_eq_some {datagram : List UInt8} {challenge : Challenge}
    (h : Connector.readChallenge datagram = some challenge) :
    handshakeBlob datagram = some challenge.cookie.items ∧ challengeNonce datagram = some challenge.serverNonce := by
  unfold Connector.readChallenge at h
  split at h
  · cases h
  · split at h
    next cookie serverNonce hcookie hnonce =>
      cases h
      obtain ⟨blob, hblob, hslice⟩ := Option.bind_eq_some_iff.1 hcookie
      unfold FixedVec.fromSlice at hslice
      split at hslice
      · cases hslice
        exact ⟨hblob, hnonce⟩
      · cases hslice
    · cases h

/-- **What is redeemed for the ticket is what the connector holds.** A response
that opens to a cookie of the ticket is the connector's echo; the challenge it
echoes answered the connector's own request. -/
theorem Agreed.matches (h : s.Agreed suite) {i : ShardId} {now : Timestamp} {sender : SocketAddr} {datagram : List UInt8}
    {draws : Endpoint.Draws} {cookie : Cookie} (hdelivers : s.Delivers suite i (.handleDatagram now sender datagram draws))
    (hadmits : (s.group.members i).Admits suite now sender datagram cookie)
    (hticket : s.connector.ticketId = some cookie.ticketId) : Matches s.connector cookie := by
  obtain ⟨hi, hdelivered⟩ := hdelivers
  have hopen := (Endpoint.openResponse_ok suite hadmits.opened).1
  rw [(h.member i hi).acceptor_eq] at hopen
  rcases hdelivered now sender datagram draws rfl with hsent | hforeign
  · obtain ⟨challenge, hchallenge, hblob⟩ := (h.speaks datagram hsent).response hadmits.kind
    obtain ⟨answer, hanswer, hread⟩ := h.held challenge hchallenge
    obtain ⟨hout, hnonce⟩ := readChallenge_eq_some hread
    obtain ⟨cookie', hanswered⟩ := h.answered answer hanswer
    have hsame := hanswered.opens datagram (handshakeLen_le hadmits.kind (by decide)) (hblob.trans hout.symm)
    rw [hopen] at hsame
    cases hsame
    have hrequest := h.presented answer hanswer cookie.ticketId hticket hanswered.ticketId_eq
    refine ⟨challenge, hchallenge, ?_, ?_, h.issued _ _ hrequest hanswered.ticket_eq⟩
    · exact Option.some.inj (hanswered.nonce_eq.symm.trans (encodeRequest_spec hrequest).2.2.2)
    · exact Option.some.inj (hanswered.serverNonce_eq.symm.trans hnonce)
  · exact (hforeign cookie.ticketId hticket (.inr ⟨hadmits.kind, cookie, hopen, rfl⟩)).elim

/-- A call to the connector changes nothing of the group, and takes a challenge
only where it holds none. -/
theorem Agreed.client (h : s.Agreed suite) {call : Connector.Call} (hop : s.Unaltered suite (.client call)) :
    (s.after suite (.client call)).Agreed suite := by
  have hdoes := Connector.after_does suite s.connector call
  have hholds := hdoes.holds
  have hkeeps {challenge : Challenge} : s.connector.challenge = some challenge →
      (s.connector.after suite call).challenge = some challenge := hholds.keeps h.asking
  have hid := hholds.ticketId_eq
  refine ⟨hdoes.intact h.intact, fun hstate => ?_, fun d hd => ?_, ?_, h.member, h.answered, ?_, ?_, h.recorded, ?_, ?_⟩
  · obtain ⟨hasking, heq⟩ := hholds.requesting hstate
    exact heq.trans (h.asking hasking)
  · rcases List.mem_append.1 hd with hold | hnew
    · have hspeaks := h.speaks d hold
      refine ⟨fun hkind => ?_, fun hkind => ?_⟩
      · show encodeRequest (s.connector.after suite call).ticket.items (s.connector.after suite call).nonce = some d
        rw [hholds.ticket_eq, hholds.nonce_eq]
        exact hspeaks.request hkind
      · obtain ⟨challenge, hchallenge, hblob⟩ := hspeaks.response hkind
        exact ⟨challenge, hkeeps hchallenge, hblob⟩
    · exact Connector.sentBy_speaks h.intact hnew
  · intro request ticket hrequest hticket
    have hissued := h.issued request ticket
    rw [← hholds.ticket_eq, ← hholds.nonce_eq, ← hholds.keys_eq] at hissued
    exact hissued hrequest hticket
  · intro answer hanswer id hticket hpresents
    have hrequest := h.presented answer hanswer id (hid.symm.trans hticket) hpresents
    rw [← hholds.ticket_eq, ← hholds.nonce_eq] at hrequest
    exact hrequest
  · intro challenge hchallenge
    rcases hholds.challenge with heq | ⟨-, now, sender, datagram, challenge', rfl, hkind, hread, heq⟩
    · exact h.held challenge (heq.symm.trans hchallenge)
    · obtain ⟨answer, hanswer, rfl⟩ := hop hkind
      cases heq.symm.trans hchallenge
      exact ⟨answer, hanswer, hread⟩
  · intro r hr hticket
    obtain ⟨challenge, hchallenge, hnonce, hserver, hkeys⟩ := h.redeemed r hr (hid.symm.trans hticket)
    exact ⟨challenge, hkeeps hchallenge, hnonce.trans hholds.nonce_eq.symm, hserver, hkeys.trans hholds.keys_eq.symm⟩
  · intro i hi handle conn hget hticket
    obtain ⟨challenge, hchallenge, hkeyed⟩ := h.live i hi handle conn hget (hid.symm.trans hticket)
    refine ⟨challenge, hkeeps hchallenge, ?_⟩
    show Keyed suite conn ((s.connector.after suite call).keysFor suite conn.id challenge)
    rw [Connector.keysFor, hholds.keys_eq, hholds.nonce_eq]
    exact hkeyed

/-- A connection accepted for a matching cookie has the connector's keys. -/
theorem Matches.keyed {k : Connector} {cookie : Cookie} (h : Matches k cookie) (e : Endpoint) (now : Timestamp)
    (sender : SocketAddr) (session : SessionId) (handle : Handle) :
    ∃ challenge, k.challenge = some challenge ∧
      Keyed suite (e.accepted suite now sender cookie session handle)
        (k.keysFor suite (e.accepted suite now sender cookie session handle).id challenge) := by
  obtain ⟨challenge, hchallenge, hnonce, hserver, hkeys⟩ := h
  refine ⟨challenge, hchallenge, ?_⟩
  rw [Connector.keysFor, ← hkeys, ← hnonce, ← hserver]
  exact ⟨rfl, rfl⟩

/-- A call to a member answers, creates and keeps only what agrees. -/
theorem Agreed.server (h : s.Agreed suite) {i : ShardId} {op : EndpointOp} (hdelivers : s.Delivers suite i op) :
    (s.after suite (.server (.member i op))).Agreed suite := by
  have hplaced := h.member i hdelivers.1
  refine ⟨h.intact, h.asking, h.speaks, h.issued, fun j hj => ?_, fun answer hanswer => ?_,
    fun answer hanswer id hticket hpresents => ?_, fun challenge hchallenge => ?_, fun birth hbirth => ?_,
    fun r hr hticket => ?_, fun j hj handle conn hget hticket => ?_⟩
  · by_cases hij : j = i
    · subst hij
      show Group.Placed s.group.acceptor j ((s.group.after suite (.member j op)).members j)
      rw [Group.after_member]
      exact hplaced.after op
    · show Group.Placed s.group.acceptor j ((s.group.after suite (.member i op)).members j)
      rw [Group.after_other s.group hij]
      exact h.member j hj
  · rcases List.mem_append.1 hanswer with hold | hnew
    · exact h.answered answer hold
    · obtain ⟨-, cookie, hanswered⟩ := Group.mem_answersOf hnew
      rw [hplaced.acceptor_eq] at hanswered
      exact ⟨cookie, hanswered⟩
  · rcases List.mem_append.1 hanswer with hold | hnew
    · exact h.presented answer hold id hticket hpresents
    · obtain ⟨rfl, addr, hrespond⟩ := Group.mem_answersOf_respond hnew
      have hkind := (Endpoint.handleDatagram_respond_cases hrespond).1
      rcases hdelivers.2 _ _ _ _ rfl with hsent | hforeign
      · exact (h.speaks _ hsent).request hkind
      · exact (hforeign id hticket (.inl ⟨hkind, hpresents⟩)).elim
  · obtain ⟨answer, hanswer, hread⟩ := h.held challenge hchallenge
    exact ⟨answer, List.mem_append_left _ hanswer, hread⟩
  · rcases List.mem_append.1 hbirth with hold | hnew
    · obtain ⟨cookie, hmem⟩ := h.recorded birth hold
      exact ⟨cookie, List.mem_append_left _ hmem⟩
    · obtain ⟨-, now, sender, datagram, draws, cookie, rfl, hadmits, -⟩ := Group.birth_admits hplaced hnew
      refine ⟨cookie, List.mem_append_right _ ?_⟩
      rw [redemptionsOf, hadmits.opened]
      exact List.mem_map.2 ⟨birth, hnew, rfl⟩
  · rcases List.mem_append.1 hr with hold | hnew
    · exact h.redeemed r hold hticket
    · unfold redemptionsOf at hnew
      split at hnew
      next now sender datagram draws =>
        split at hnew
        next cookie hopened =>
          obtain ⟨birth, hbirth, rfl⟩ := List.mem_map.1 hnew
          obtain ⟨-, _, _, _, _, cookie', hop, hadmits, hbticket, -⟩ := Group.birth_admits hplaced hbirth
          cases hop
          cases hopened.symm.trans hadmits.opened
          exact h.matches hdelivers hadmits (by rw [← hbticket]; exact hticket)
        · cases hnew
      · cases hnew
  · by_cases hij : j = i
    · subst hij
      have hget' : ((s.group.members j).after suite op).connections.get handle = some conn := by
        rw [← Group.after_member]
        exact hget
      rcases Endpoint.after_get suite hplaced.routed.sound hget' with
        ⟨c, hc, hkept⟩ | ⟨now, sender, datagram, draws, cookie, session, rfl, hadmits, rfl, -⟩
      · obtain ⟨challenge, hchallenge, htx, hrx⟩ := h.live j hj handle c hc (by rw [← hkept.ticket_eq]; exact hticket)
        refine ⟨challenge, hchallenge, ?_⟩
        rw [Keyed, hkept.tx_eq, hkept.rx_eq, hkept.id_eq]
        exact ⟨htx, hrx⟩
      · exact (h.matches hdelivers hadmits hticket).keyed _ now sender session handle
    · have hother : (s.group.after suite (.member i op)).members j = s.group.members j := Group.after_other s.group hij op
      refine h.live j hj handle conn ?_ hticket
      rw [← hother]
      exact hget

theorem start_agreed (h : (sys suite).start s) : s.Agreed suite := by
  obtain ⟨hfresh, hsent, hredeemed, hissued, now, server, ticket, keys, channels, transport, nonce, hk⟩ := h
  have hformed : s.group.Formed suite := hfresh.formed
  have hconnection : s.connector.connection = none := by rw [hk]; rfl
  have hchallenge : s.connector.challenge = none := by rw [hk]; rfl
  refine ⟨fun conn hconn => ?_, fun _ => hchallenge, fun d hd => ?_, hissued, hformed.member, fun answer hanswer => ?_,
    fun answer hanswer => ?_, fun challenge hheld => ?_, fun birth hbirth => ?_, fun r hr => ?_,
    fun i hi handle conn hget => ?_⟩
  · exact (Option.some_ne_none conn (hconn.symm.trans hconnection)).elim
  · rw [hsent] at hd
    cases hd
  · exact (hformed.answered answer hanswer).2
  · rw [hfresh.answers_eq] at hanswer
    cases hanswer
  · exact (Option.some_ne_none challenge (hheld.symm.trans hchallenge)).elim
  · rw [hfresh.created_eq] at hbirth
    cases hbirth
  · rw [hredeemed] at hr
    cases hr
  · obtain ⟨config, channels, hasher, heq, -⟩ := hfresh.members_eq i hi
    rw [heq] at hget
    cases hget

theorem reach_agreed (h : Lts.Reach (sys suite) (Unaltered suite) s) : s.Agreed suite := by
  refine Lts.Reach.invariant (P := Agreed suite) (fun _ => start_agreed) ?_ h
  rintro s op _ - hs hop rfl
  cases op with
  | client call => exact hs.client hop
  | server op =>
    cases op with
    | issue ticket draw =>
      exact ⟨hs.intact, hs.asking, hs.speaks, hs.issued, hs.member, hs.answered, hs.presented, hs.held, hs.recorded,
        hs.redeemed, hs.live⟩
    | member i op => exact hs.server hop

/-- **Both ends of a handshake derive the same keys.** In every run in which
nothing but the connector presents its ticket, whatever was retried and however
many challenges were sent: a connection the group created for the ticket was
redeemed for a cookie that seals the connector's own nonce and the server's
nonce it holds, so the keys derived from it are the connector's for the same
id; and each such connection that lives has the ciphers of those keys. -/
theorem keys_agree (h : Lts.Reach (sys suite) (Unaltered suite) s) :
    (∀ birth ∈ s.group.created, s.connector.ticketId = some birth.ticket →
      ∃ cookie challenge, (birth, cookie) ∈ s.redeemed ∧ s.connector.challenge = some challenge ∧
        cookie.nonce = s.connector.nonce ∧ cookie.serverNonce = challenge.serverNonce ∧
        cookie.ticket.keys = s.connector.keys ∧
        ∀ id, cookie.ticket.keys.forConnection suite id cookie.nonce cookie.serverNonce =
          s.connector.keysFor suite id challenge) ∧
    ∀ i, s.group.acceptor.shards.contains i = true → ∀ handle conn,
      (s.group.members i).connections.get handle = some conn → s.connector.ticketId = some conn.role.ticket →
      ∃ challenge, s.connector.challenge = some challenge ∧
        Keyed suite conn (s.connector.keysFor suite conn.id challenge) := by
  have hs := reach_agreed h
  refine ⟨fun birth hbirth hticket => ?_, hs.live⟩
  obtain ⟨cookie, hmem⟩ := hs.recorded birth hbirth
  obtain ⟨challenge, hchallenge, hnonce, hserver, hkeys⟩ := hs.redeemed _ hmem hticket
  refine ⟨cookie, challenge, hmem, hchallenge, hnonce, hserver, hkeys, fun id => ?_⟩
  rw [Connector.keysFor, hkeys, hnonce, hserver]

/-! ### A handshake that completes -/

open Connection (blank)
open Endpoint (backend clearSuite drawn visitor)

/-- A player with a ticket, and a group of two. -/
def unheard : Attempt where
  connector := .connect .zero (.v4 0 0) (((encryptTicket .clear (some drawn) visitor maxBlob).bind FixedVec.fromSlice).getD
    .empty) ⟨backend, backend⟩ orderedOnly .default 5
  group := Group.pair
  sent := []
  redeemed := []

/-- A datagram sent by the player reaches the group. -/
def arrives (shard : ShardId) (datagram : List UInt8) : AttemptOp :=
  .server (.member shard (.handleDatagram .zero (.v4 1 1) datagram ⟨9, some drawn⟩))

def asked : Attempt := unheard.after clearSuite (.client (.pollTransmit .zero blank))

def answered : Attempt := asked.after clearSuite (arrives 0 (asked.sent.headD []))

/-- The challenge the group answered with. -/
def challenged : List UInt8 := (answered.group.answers.map Answer.out).headD []

def echoed : Attempt := answered.after clearSuite (.client (.handleDatagram .zero (.v4 0 0) challenged))

def joined : Attempt := echoed.after clearSuite (arrives 1 (echoed.sent.getLastD []))

theorem unheard_start : (sys clearSuite).start unheard := by
  refine ⟨Group.pair_fresh, rfl, rfl, fun request ticket hrequest hticket => ?_, _, _, _, _, _, _, _, rfl⟩
  have hkeys : (encodeRequest unheard.connector.ticket.items unheard.connector.nonce).all (fun request =>
      (unheard.group.acceptor.decryptTicket clearSuite request).toOption.all fun ticket =>
        ticket.keys = unheard.connector.keys) = true := by decide +kernel
  rw [hrequest, Option.all_some, hticket, Except.toOption, Option.all_some, decide_eq_true_eq] at hkeys
  exact hkeys

theorem arrives_unaltered {s : Attempt} {shard : ShardId} (hmember : s.group.acceptor.shards.contains shard = true)
    {datagram : List UInt8} (hsent : datagram ∈ s.sent) : s.Unaltered clearSuite (arrives shard datagram) := by
  refine ⟨hmember, fun _ _ _ _ hop => ?_⟩
  cases hop
  exact .inl hsent

/-- The handshake runs to its end, by way of datagrams the two sides sent. -/
theorem joined_reach : Lts.Reach (sys clearSuite) (Unaltered clearSuite) joined := by
  have hpolls : unheard.Unaltered clearSuite (.client (.pollTransmit .zero blank)) := trivial
  have hrequest : asked.Unaltered clearSuite (arrives 0 (asked.sent.headD [])) :=
    arrives_unaltered rfl (by decide +kernel)
  have hchallenge : answered.Unaltered clearSuite (.client (.handleDatagram .zero (.v4 0 0) challenged)) := by
    intro _
    have hsent : answered.group.answers.any (fun answer => answer.out = challenged) = true := by decide +kernel
    obtain ⟨answer, hmem, hout⟩ := List.any_eq_true.1 hsent
    exact ⟨answer, hmem, of_decide_eq_true hout⟩
  have hresponse : echoed.Unaltered clearSuite (arrives 1 (echoed.sent.getLastD [])) :=
    arrives_unaltered rfl (by decide +kernel)
  have hasked : Lts.Reach (sys clearSuite) (Unaltered clearSuite) asked :=
    .step (.start unheard_start) hpolls (by rw [asked]; rfl)
  have hanswered : Lts.Reach (sys clearSuite) (Unaltered clearSuite) answered :=
    .step hasked hrequest (by rw [answered]; rfl)
  have hechoed : Lts.Reach (sys clearSuite) (Unaltered clearSuite) echoed :=
    .step hanswered hchallenge (by rw [echoed]; rfl)
  exact .step hechoed hresponse (by rw [joined]; rfl)

theorem keys_agree_joined : ∃ birth ∈ joined.group.created, ∃ cookie challenge, (birth, cookie) ∈ joined.redeemed ∧
    joined.connector.challenge = some challenge ∧ cookie.serverNonce = challenge.serverNonce := by
  have hcreated : joined.group.created.any (fun birth => joined.connector.ticketId = some birth.ticket) = true := by
    decide +kernel
  obtain ⟨birth, hbirth, hticket⟩ := List.any_eq_true.1 hcreated
  obtain ⟨cookie, challenge, hmem, hchallenge, -, hserver, -⟩ :=
    (keys_agree joined_reach).1 birth hbirth (of_decide_eq_true hticket)
  exact ⟨birth, hbirth, cookie, challenge, hmem, hchallenge, hserver⟩

end Attempt
end HexNet
