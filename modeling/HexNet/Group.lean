/-
A shard group (`shard.rs`): endpoints that share one address and both keys,
any of them called at any time, and the backend that seals tickets for them.

What has been sealed, answered and created so far is recorded beside the
endpoints. None of it is read by them: it is what the assumptions about the
cipher, and the results, are stated over.
-/
import HexNet.Challenge

namespace HexNet

/-- A connection that came to be. -/
structure Birth where
  shard : ShardId
  handle : Handle
  ticket : TicketId
  deriving DecidableEq

structure Group where
  /-- Both keys and the size of the group, the same for every member. -/
  acceptor : Acceptor
  members : ShardId → Endpoint
  /-- The latest time a member was called at. -/
  clock : Timestamp
  /-- Every sealed ticket: the backend's, and the members' own. -/
  issued : List (List UInt8)
  /-- Every challenge. -/
  answers : List Answer
  created : List Birth

inductive GroupOp
  /-- The backend seals a ticket. -/
  | issue (ticket : Ticket) (draw : BlobNonce)
  | member (shard : ShardId) (op : EndpointOp)

namespace Group

variable (suite : Suite)

/-- The challenges a call sends. -/
def answersOf (e : Endpoint) : EndpointOp → List Answer
  | .handleDatagram now sender datagram draws =>
    match (e.handleDatagram suite now sender datagram draws).2.1 with
    | .respond _ out => [⟨now, sender, datagram, draws, out⟩]
    | _ => []
  | _ => []

/-- The tickets a call seals. -/
def ticketsOf (e : Endpoint) : EndpointOp → List (List UInt8)
  | .issueResumeTicket now _ ticket draw => (e.acceptor.encryptResumeTicket suite now ticket draw).toList
  | _ => []

/-- The connections there are after a call and were not before. -/
def birthsOf (shard : ShardId) (before after : Slab (Connection Server)) : List Birth :=
  after.handles.filterMap fun handle =>
    if before.contains handle then none
    else (after.get handle).map fun conn => ⟨shard, handle, conn.role.ticket⟩

def after (g : Group) : GroupOp → Group
  | .issue ticket draw =>
    { g with issued := g.issued ++ (encryptTicket (suite g.acceptor.backendKey) (some draw) ticket maxBlob).toList }
  | .member shard op =>
    let e := g.members shard
    let e' := e.after suite op
    { g with
      members := Function.update g.members shard e'
      clock := op.time.getD g.clock
      issued := g.issued ++ ticketsOf suite e op
      answers := g.answers ++ answersOf suite e op
      created := g.created ++ birthsOf shard e.connections e'.connections }

/-- A group as it is set up: a new endpoint for each member, whatever its
capacity, channels and transport. -/
structure Fresh (g : Group) : Prop where
  members_eq : ∀ i, g.acceptor.shards.contains i = true → ∃ config channels hasher,
    g.members i = .new config g.acceptor.backendKey channels hasher ∧ config.shard.id = i ∧
      config.shard.count = g.acceptor.shards ∧ config.shard.serverKey = g.acceptor.serverKey
  issued_eq : g.issued = []
  answers_eq : g.answers = []
  created_eq : g.created = []

/-- The runs of a group. -/
def sys : Lts.Sys Group GroupOp where
  start := Fresh
  step g op g' := g' = g.after suite op

/-! ## What is assumed of a run -/

/-- A call is to a member, and no earlier than any before it. -/
def Timely (g : Group) : GroupOp → Prop
  | .issue _ _ => True
  | .member shard op => g.acceptor.shards.contains shard = true ∧ ∀ now, op.time = some now → g.clock ≤ now

/-- A cookie opens only if it was sealed under the same key for the same home. -/
def CookiesAuthentic (g : Group) : GroupOp → Prop
  | .member _ (.handleDatagram _ _ datagram _) => ∀ home blob, handshakeBlob datagram = some (home :: blob) →
    (decryptBlob (suite g.acceptor.serverKey) blob (cookieAad home) maxCookie).isSome = true →
    ∃ answer ∈ g.answers, handshakeBlob answer.out = some (home :: blob)
  | _ => True

/-- Both. -/
def Proper (g : Group) (op : GroupOp) : Prop := g.Timely op ∧ g.CookiesAuthentic suite op

/-! ## What a run keeps -/

variable {suite} {g : Group}

/-- A member holds the group's keys and its own place in it. -/
structure Placed (a : Acceptor) (i : ShardId) (e : Endpoint) : Prop where
  acceptor_eq : e.acceptor = a
  shard_eq : e.shard = i
  count_eq : e.config.shard.count = a.shards
  routed : e.Routed

theorem Placed.after {a : Acceptor} {i : ShardId} {e : Endpoint} (h : Placed a i e) (op : EndpointOp) :
    Placed a i (e.after suite op) := by
  have hfixed := e.after_fixed suite op
  simp only [Endpoint.fixed, Prod.mk.injEq] at hfixed
  refine ⟨hfixed.2.2.trans h.acceptor_eq, ?_, ?_, Endpoint.after_routed e op h.routed⟩
  · rw [Endpoint.shard, hfixed.1]
    exact h.shard_eq
  · rw [hfixed.1]
    exact h.count_eq

/-- Members are in their places, and every challenge on record is one. -/
structure Formed (suite : Suite) (g : Group) : Prop where
  member : ∀ i, g.acceptor.shards.contains i = true → Placed g.acceptor i (g.members i)
  answered : ∀ answer ∈ g.answers, answer.now ≤ g.clock ∧ ∃ cookie, Answered suite g.acceptor answer cookie

theorem Fresh.formed (h : g.Fresh) : g.Formed suite where
  member i hi := by
    obtain ⟨config, channels, hasher, heq, hid, hcount, hkey⟩ := h.members_eq i hi
    rw [heq]
    refine ⟨?_, hid, hcount, Endpoint.new_routed ..⟩
    rw [Endpoint.new]
    dsimp only
    rw [hcount, hkey]
  answered answer hmem := by
    rw [h.answers_eq] at hmem
    cases hmem

theorem after_member (g : Group) (i : ShardId) (op : EndpointOp) :
    (g.after suite (.member i op)).members i = (g.members i).after suite op := Function.update_self ..

theorem after_other (g : Group) {i j : ShardId} (h : j ≠ i) (op : EndpointOp) :
    (g.after suite (.member i op)).members j = g.members j := Function.update_of_ne h ..

theorem mem_answersOf_respond {e : Endpoint} {op : EndpointOp} {answer : Answer} (h : answer ∈ answersOf suite e op) :
    op = .handleDatagram answer.now answer.sender answer.request answer.draws ∧ ∃ addr,
      (e.handleDatagram suite answer.now answer.sender answer.request answer.draws).2.1 = .respond addr answer.out := by
  unfold answersOf at h
  split at h
  · split at h
    next addr out hrespond =>
      cases List.mem_singleton.1 h
      exact ⟨rfl, addr, hrespond⟩
    · cases h
  · cases h

theorem mem_answersOf {e : Endpoint} {op : EndpointOp} {answer : Answer} (h : answer ∈ answersOf suite e op) :
    op = .handleDatagram answer.now answer.sender answer.request answer.draws ∧
      ∃ cookie, Answered suite e.acceptor answer cookie := by
  obtain ⟨hop, addr, hrespond⟩ := mem_answersOf_respond h
  exact ⟨hop, (Endpoint.handleDatagram_respond hrespond).2.2.2⟩

theorem Formed.step {op : GroupOp} (h : g.Formed suite) (htimely : g.Timely op) : (g.after suite op).Formed suite := by
  cases op with
  | issue ticket draw => exact ⟨h.member, h.answered⟩
  | member i op =>
    obtain ⟨hi, hclock⟩ := htimely
    refine ⟨fun j hj => ?_, fun answer hmem => ?_⟩
    · by_cases hij : j = i
      · subst hij
        rw [after_member]
        exact (h.member j hj).after op
      · rw [after_other g hij]
        exact h.member j hj
    · rcases List.mem_append.1 hmem with hold | hnew
      · obtain ⟨hle, hanswered⟩ := h.answered answer hold
        refine ⟨?_, hanswered⟩
        show answer.now ≤ op.time.getD g.clock
        cases htime : op.time with
        | none => exact hle
        | some now => exact Nat.le_trans hle (hclock now htime)
      · obtain ⟨rfl, hanswered⟩ := mem_answersOf hnew
        rw [(h.member i hi).acceptor_eq] at hanswered
        exact ⟨Nat.le_refl _, hanswered⟩

theorem reach_formed {ok : Group → GroupOp → Prop} (hok : ∀ g op, ok g op → g.Timely op)
    (h : Lts.Reach (sys suite) ok g) : g.Formed suite := by
  refine Lts.Reach.invariant (P := Formed suite) (fun _ hstart => Fresh.formed hstart) ?_ h
  rintro g op g' - hg hop rfl
  exact hg.step (hok g op hop)

/-! ## What a connection comes from -/

/-- A connection comes only from a call to its own member. -/
theorem born_member (h : g.Formed suite) {op : GroupOp} (htimely : g.Timely op) {i : ShardId} {handle : Handle}
    {conn : Connection Server} (hget : ((g.after suite op).members i).connections.get handle = some conn)
    (hnone : (g.members i).connections.get handle = none) :
    ∃ now sender datagram draws cookie session, op = .member i (.handleDatagram now sender datagram draws) ∧
      (g.members i).Admits suite now sender datagram cookie ∧
      conn = (g.members i).accepted suite now sender cookie session handle := by
  cases op with
  | issue ticket draw => exact (Option.some_ne_none conn (hget.symm.trans hnone)).elim
  | member j op =>
    by_cases hij : i = j
    · subst hij
      rw [after_member] at hget
      obtain ⟨now, sender, datagram, draws, cookie, session, rfl, hadmits, hconn, -⟩ :=
        Endpoint.after_born suite (h.member i htimely.1).routed.sound hget hnone
      exact ⟨now, sender, datagram, draws, cookie, session, rfl, hadmits, hconn⟩
    · rw [after_other g hij] at hget
      exact (Option.some_ne_none conn (hget.symm.trans hnone)).elim

/-- The challenge a cookie that opens was sent in. -/
theorem cookie_answered (h : g.Formed suite) {i : ShardId} (hi : g.acceptor.shards.contains i = true) {now : Timestamp}
    {sender : SocketAddr} {datagram : List UInt8} {draws : Endpoint.Draws} {cookie : Cookie}
    (hauth : g.CookiesAuthentic suite (.member i (.handleDatagram now sender datagram draws)))
    (hkind : peekKind datagram = some .response)
    (hopen : (g.members i).acceptor.decryptCookie suite datagram = .ok cookie) :
    ∃ answer ∈ g.answers, handshakeBlob datagram = handshakeBlob answer.out ∧
      Answered suite g.acceptor answer cookie := by
  rw [(h.member i hi).acceptor_eq] at hopen
  obtain ⟨blob, plain, hblob, hplain, -⟩ := Acceptor.decryptCookie_ok hopen
  obtain ⟨answer, hmem, hout⟩ := hauth cookie.home blob hblob (by rw [hplain]; rfl)
  obtain ⟨-, cookie', hanswered⟩ := h.answered answer hmem
  have hsame := hanswered.opens datagram (handshakeLen_le hkind (by decide)) (hblob.trans hout.symm)
  rw [hopen] at hsame
  cases hsame
  exact ⟨answer, hmem, hblob.trans hout.symm, hanswered⟩

/-- **The handshake is stateless, amplifies nothing and proves addresses.** An
endpoint that answers a datagram answers its sender, with no more bytes than it
was sent, and is otherwise as it was. Over every run of a group, a connection
comes only from a response sent from its address, at most `cookieLifetime`
after a member answered a request from there that presented its ticket. -/
theorem handshake_proves_address (suite : Suite) :
    (∀ (e : Endpoint) now sender datagram draws addr out,
      (e.handleDatagram suite now sender datagram draws).2.1 = .respond addr out →
      addr = sender ∧ out.length ≤ datagram.length ∧ ∃ requests responses limiter,
        (e.handleDatagram suite now sender datagram draws).1 = { e with requests, responses, limiter }) ∧
    ∀ g op, Lts.Reach (sys suite) (Proper suite) g → g.Proper suite op → ∀ i handle conn,
      ((g.after suite op).members i).connections.get handle = some conn →
      (g.members i).connections.get handle = none →
      ∃ now datagram draws, op = .member i (.handleDatagram now conn.addr datagram draws) ∧
        peekKind datagram = some .response ∧
        ∃ answer ∈ g.answers, answer.sender.ip = conn.addr.ip ∧ answer.sender.port = conn.addr.port ∧
          TicketId.ofRequest answer.request = some conn.role.ticket ∧ answer.now ≤ now ∧
          now.since answer.now ≤ cookieLifetime := by
  refine ⟨fun e now sender datagram draws addr out h => ?_, fun g op hreach hop i handle conn hget hnone => ?_⟩
  · obtain ⟨haddr, hlen, hsame, -⟩ := Endpoint.handleDatagram_respond h
    exact ⟨haddr, hlen, hsame⟩
  · have hformed := reach_formed (fun _ _ h => h.1) hreach
    obtain ⟨now, sender, datagram, draws, cookie, session, rfl, hadmits, rfl⟩ :=
      born_member hformed hop.1 hget hnone
    obtain ⟨hopen, haddr, hlifetime⟩ := Endpoint.openResponse_ok suite hadmits.opened
    obtain ⟨answer, hmem, -, hanswered⟩ := cookie_answered hformed hop.1.1 hop.2 hadmits.kind hopen
    have hsender : SocketAddr.new answer.sender.ip answer.sender.port = sender := hanswered.addr_eq.symm.trans haddr
    refine ⟨now, datagram, draws, rfl, hadmits.kind, answer, hmem, ?_, ?_, hanswered.ticketId_eq, ?_, ?_⟩
    · rw [← SocketAddr.new_ip answer.sender.ip answer.sender.port, hsender]
      rfl
    · rw [← SocketAddr.new_port answer.sender.ip answer.sender.port, hsender]
      rfl
    · exact Nat.le_trans (hformed.answered answer hmem).1 (hop.1.2 now rfl)
    · rw [← hanswered.issuedAt_eq]
      exact Nat.not_lt.1 hlifetime

/-! ### One handshake -/

open Endpoint (alone backend clearSuite visitor drawn requestOf answerOf echoOf first)

/-- A group of two, each with room for two players. -/
def pair : Group where
  acceptor := ⟨backend, alone.shard.serverKey, ⟨2, by decide, by decide⟩⟩
  members i := .new { alone with
    shard := if i = 1 then ⟨1, ⟨2, by decide, by decide⟩, alone.shard.serverKey, rfl⟩
      else ⟨0, ⟨2, by decide, by decide⟩, alone.shard.serverKey, rfl⟩ } backend orderedOnly fun _ => 0
  clock := .zero
  issued := []
  answers := []
  created := []

theorem pair_fresh : pair.Fresh where
  members_eq i hi := by
    have hlt : i.toNat < 2 := of_decide_eq_true hi
    rcases (by omega : i.toNat = 0 ∨ i.toNat = 1) with hi | hi
    · obtain rfl : i = 0 := UInt8.toNat_inj.1 hi
      exact ⟨_, _, _, rfl, rfl, rfl, rfl⟩
    · obtain rfl : i = 1 := UInt8.toNat_inj.1 hi
      exact ⟨_, _, _, rfl, rfl, rfl, rfl⟩
  issued_eq := rfl
  answers_eq := rfl
  created_eq := rfl

/-- The first member is asked, and its cookie names the second. -/
def response : List UInt8 := echoOf (answerOf (pair.members 0) (.v4 1 1) (requestOf visitor drawn))

def requested : GroupOp := .member 0 (.handleDatagram .zero (.v4 1 1) (requestOf visitor drawn) ⟨9, some drawn⟩)

def responded (shard : ShardId) : GroupOp := .member shard (.handleDatagram .zero (.v4 1 1) response ⟨0, none⟩)

/-- The request is no cookie. -/
theorem requested_cookies (g : Group) : g.CookiesAuthentic clearSuite requested := by
  intro home blob hblob hopen
  have hnone : (handshakeBlob (requestOf visitor drawn)).all (fun b =>
      (decryptBlob .clear b.tail (cookieAad (b.headD 0)) maxCookie).isNone) = true := by decide +kernel
  rw [hblob, Option.all_some, List.tail_cons, List.headD_cons, Option.isNone_iff_eq_none] at hnone
  rw [show decryptBlob (clearSuite g.acceptor.serverKey) blob (cookieAad home) maxCookie = none from hnone] at hopen
  cases hopen

theorem requested_proper : pair.Proper clearSuite requested :=
  ⟨⟨rfl, fun now hnow => by cases hnow; exact Nat.le_refl _⟩, requested_cookies pair⟩

theorem responded_proper : (pair.after clearSuite requested).Proper clearSuite (responded 1) := by
  refine ⟨⟨rfl, fun now hnow => by cases hnow; exact Nat.le_refl _⟩, fun home blob hblob _ => ?_⟩
  have hanswer : (pair.after clearSuite requested).answers.any (fun answer =>
      handshakeBlob answer.out = handshakeBlob response) = true := by decide +kernel
  obtain ⟨answer, hmem, heq⟩ := List.any_eq_true.1 hanswer
  exact ⟨answer, hmem, (of_decide_eq_true heq).trans hblob⟩

theorem address_proved_once :
    ∃ conn, (((pair.after clearSuite requested).after clearSuite (responded 1)).members 1).connections.get first =
        some conn ∧
      conn.addr = .v4 1 1 ∧ ∃ answer ∈ (pair.after clearSuite requested).answers,
        TicketId.ofRequest answer.request = some conn.role.ticket := by
  have hlive : ((((pair.after clearSuite requested).after clearSuite (responded 1)).members 1).connections.get
      first).isSome = true := by decide +kernel
  have hnone : ((((pair.after clearSuite requested).members 1).connections.get first).isNone) = true := by
    decide +kernel
  obtain ⟨conn, hget⟩ := Option.isSome_iff_exists.1 hlive
  obtain ⟨now, datagram, draws, hop, -, answer, hmem, -, -, hticket, -⟩ :=
    (handshake_proves_address clearSuite).2 _ _ (.step (.start pair_fresh) requested_proper rfl) responded_proper 1 first
      conn hget (Option.isNone_iff_eq_none.1 hnone)
  simp only [responded, GroupOp.member.injEq, EndpointOp.handleDatagram.injEq] at hop
  exact ⟨conn, hget, hop.2.2.1.symm, answer, hmem, hticket⟩

end Group
end HexNet
