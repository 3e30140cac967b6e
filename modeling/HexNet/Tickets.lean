/-
A ticket is single-use across a group. Whoever answers it, every cookie for a
ticket is addressed to the same member (`answered_unique`), which keeps the
ticket on record until it has expired (`SingleUse`).
-/
import HexNet.Group
import HexNet.Spending

namespace HexNet

theorem TicketId.ofRequest_eq_some {packet : List UInt8} {id : TicketId} (h : TicketId.ofRequest packet = some id) :
    ∃ blob, handshakeBlob packet = some blob ∧ id.nonce = blob.take nonceLen := by
  obtain ⟨blob, hblob, hid⟩ := Option.bind_eq_some_iff.1 h
  split at hid
  · cases hid
    exact ⟨blob, hblob, rfl⟩
  · cases hid

/-- What a ticket opens to is up to its blob. -/
theorem Acceptor.decryptTicket_unique {suite : Suite} {a : Acceptor} {packet packet' : List UInt8} {t t' : Ticket}
    (hblob : handshakeBlob packet = handshakeBlob packet') (h : a.decryptTicket suite packet = .ok t)
    (h' : a.decryptTicket suite packet' = .ok t') : t = t' := by
  obtain ⟨blob, plain, hb, hplain, hdecode⟩ := decryptTicket_ok h
  obtain ⟨blob', plain', hb', hplain', hdecode'⟩ := decryptTicket_ok h'
  cases hb.symm.trans (hblob.trans hb')
  cases hplain.symm.trans hplain'
  cases hdecode.symm.trans hdecode'
  rfl

namespace Group

variable {suite : Suite} {g : Group}

/-! ## What is assumed of tickets -/

/-- A ticket opens only if it was sealed. -/
def TicketsAuthentic (suite : Suite) (g : Group) : GroupOp → Prop
  | .member _ (.handleDatagram _ _ datagram _) => ∀ blob, handshakeBlob datagram = some blob →
    ((decryptBlob (suite g.acceptor.backendKey) blob ticketAad maxTicket).or
      (decryptBlob (suite g.acceptor.serverKey) blob ticketAad maxTicket)).isSome = true → blob ∈ g.issued
  | _ => True

/-- No ticket was sealed under this nonce. -/
def Unused (g : Group) (nonce : BlobNonce) : Prop := ∀ blob ∈ g.issued, blob.take nonceLen ≠ nonce.nonce

/-- A ticket is sealed under a nonce of its own. -/
def NoncesDistinct (g : Group) : GroupOp → Prop
  | .issue _ draw => g.Unused draw
  | .member _ (.issueResumeTicket _ _ _ draw) => ∀ nonce, draw = some nonce → g.Unused nonce
  | _ => True

/-- Everything assumed of the cipher and the clock. -/
structure Sealed (suite : Suite) (g : Group) (op : GroupOp) : Prop where
  timely : g.Timely op
  cookies : g.CookiesAuthentic suite op
  tickets : g.TicketsAuthentic suite op
  nonces : g.NoncesDistinct op

/-! ## Births -/

theorem mem_birthsOf {s s' : Slab (Connection Server)} (hs : s.Sound) (hs' : s'.Sound) {i : ShardId} {b : Birth} :
    b ∈ birthsOf i s s' ↔ b.shard = i ∧ s.get b.handle = none ∧
      ∃ conn, s'.get b.handle = some conn ∧ conn.role.ticket = b.ticket := by
  unfold birthsOf
  rw [List.mem_filterMap]
  constructor
  · rintro ⟨handle, -, hb⟩
    split at hb
    · cases hb
    next hnew =>
      obtain ⟨conn, hget, rfl⟩ := Option.map_eq_some_iff.1 hb
      refine ⟨rfl, ?_, conn, hget, rfl⟩
      rw [hs.contains_iff, Option.not_isSome_iff_eq_none] at hnew
      exact hnew
  · rintro ⟨rfl, hnone, conn, hget, hticket⟩
    refine ⟨b.handle, hs'.mem_handles.2 (by rw [hget]; rfl), ?_⟩
    rw [if_neg (by rw [hs.contains_iff, hnone]; exact Bool.false_ne_true), hget, Option.map_some, hticket]

theorem birthsOf_nodup {s s' : Slab (Connection Server)} (hs' : s'.Sound) (i : ShardId) : (birthsOf i s s').Nodup := by
  refine hs'.handles_nodup.filterMap fun h h' b hb hb' => ?_
  have hhandle : ∀ {handle : Handle}, (if s.contains handle then none else (s'.get handle).map
      fun conn => (⟨i, handle, conn.role.ticket⟩ : Birth)) = some b → b.handle = handle := by
    intro handle hb
    split at hb
    · cases hb
    · obtain ⟨conn, -, rfl⟩ := Option.map_eq_some_iff.1 hb
      rfl
  exact (hhandle hb).symm.trans (hhandle hb')

/-! ## What a run keeps -/

/-- When the ticket `id` expires, by a challenge it was presented for. -/
def Expires (suite : Suite) (g : Group) (id : TicketId) (at_ : Timestamp) : Prop :=
  ∃ answer ∈ g.answers, ∃ cookie, Answered suite g.acceptor answer cookie ∧ cookie.ticketId = id ∧
    cookie.ticket.expiresAt = at_

/-- Each ticket is sealed under its own nonce, only sealed tickets are
presented, each is redeemed at the home its cookies name and at most once, and
every member's accounts of that are in order. -/
structure SingleUse (suite : Suite) (g : Group) : Prop extends Formed suite g where
  distinct : ∀ blob ∈ g.issued, ∀ blob' ∈ g.issued, blob.take nonceLen = blob'.take nonceLen → blob = blob'
  presented : ∀ answer ∈ g.answers, ∃ blob ∈ g.issued, handshakeBlob answer.request = some blob
  accounts : ∀ i, g.acceptor.shards.contains i = true →
    (g.members i).Accounts (Expires suite g) (fun id handle => ⟨i, handle, id⟩ ∈ g.created) g.clock
  home : ∀ b ∈ g.created, ∃ answer ∈ g.answers, ∃ cookie, Answered suite g.acceptor answer cookie ∧
    cookie.ticketId = b.ticket ∧ cookie.home = b.shard
  once : (g.created.map Birth.ticket).Nodup

theorem Fresh.singleUse (h : g.Fresh) : g.SingleUse suite where
  toFormed := h.formed
  distinct blob hmem := by
    rw [h.issued_eq] at hmem
    cases hmem
  presented answer hmem := by
    rw [h.answers_eq] at hmem
    cases hmem
  accounts i hi := by
    obtain ⟨config, channels, hasher, heq, -⟩ := h.members_eq i hi
    rw [heq]
    refine ⟨fun entry hmem => (nomatch hmem), fun id handle hmade => ?_, fun id handle hid => (nomatch hid)⟩
    rw [h.created_eq] at hmade
    cases hmade
  home b hmem := by
    rw [h.created_eq] at hmem
    cases hmem
  once := by rw [h.created_eq]; exact List.nodup_nil

/-- A ticket's cookies agree on it, whoever sealed them. -/
theorem SingleUse.answered_unique (h : g.SingleUse suite) {a a' : Answer} (ha : a ∈ g.answers) (ha' : a' ∈ g.answers)
    {c c' : Cookie} (hc : Answered suite g.acceptor a c) (hc' : Answered suite g.acceptor a' c')
    (hid : c.ticketId = c'.ticketId) : c.ticket = c'.ticket ∧ c.home = c'.home := by
  obtain ⟨blob, hblob, hpresented⟩ := h.presented a ha
  obtain ⟨blob', hblob', hpresented'⟩ := h.presented a' ha'
  obtain ⟨b, hb, hnonce⟩ := TicketId.ofRequest_eq_some hc.ticketId_eq
  obtain ⟨b', hb', hnonce'⟩ := TicketId.ofRequest_eq_some hc'.ticketId_eq
  cases hpresented.symm.trans hb
  cases hpresented'.symm.trans hb'
  obtain rfl := h.distinct blob hblob blob' hblob' (by rw [← hnonce, ← hnonce', hid])
  have hticket := Acceptor.decryptTicket_unique (hpresented.trans hpresented'.symm) hc.ticket_eq hc'.ticket_eq
  have hhome := hc.home_eq
  rw [hticket, hid, hc'.home_eq] at hhome
  exact ⟨hticket, (Option.some.inj hhome).symm⟩

theorem SingleUse.expires_unique (h : g.SingleUse suite) {id : TicketId} {t t' : Timestamp}
    (ht : Expires suite g id t) (ht' : Expires suite g id t') : t = t' := by
  obtain ⟨a, ha, c, hc, rfl, rfl⟩ := ht
  obtain ⟨a', ha', c', hc', hid, rfl⟩ := ht'
  rw [(h.answered_unique ha ha' hc hc' hid.symm).1]

/-- A ticket redeemed is not redeemed again. -/
theorem SingleUse.not_created (h : g.SingleUse suite) {i : ShardId} {now : Timestamp} {sender : SocketAddr}
    {datagram : List UInt8} {draws : Endpoint.Draws} {cookie : Cookie}
    (hop : g.Sealed suite (.member i (.handleDatagram now sender datagram draws)))
    (hadmits : (g.members i).Admits suite now sender datagram cookie) : cookie.ticketId ∉ g.created.map Birth.ticket := by
  intro hmem
  obtain ⟨b, hb, hticket⟩ := List.mem_map.1 hmem
  have hi := hop.timely.1
  have hopen := (Endpoint.openResponse_ok suite hadmits.opened).1
  obtain ⟨answer, hanswer, -, hanswered⟩ := cookie_answered h.toFormed hi hop.cookies hadmits.kind hopen
  obtain ⟨a, ha, c, hc, hid, hhome⟩ := h.home b hb
  -- the response and the earlier connection are both of the ticket's home
  have hshard : b.shard = i := by
    have howner := Endpoint.openResponse_owner suite hadmits.kind hadmits.opened
    rw [hadmits.owner] at howner
    rw [← hhome, (h.answered_unique ha hanswer hc hanswered (hid.trans hticket)).2, ← Option.some.inj howner,
      (h.member i hi).shard_eq]
  rcases (h.accounts i hi).spent cookie.ticketId b.handle (by rw [← hshard, ← hticket]; exact hb) with hne | ⟨t, ht, hlt⟩
  · exact hne hadmits.unspent
  · have hexpiry := h.expires_unique ht ⟨answer, hanswer, cookie, hanswered, rfl, rfl⟩
    have hpast : cookie.ticket.expiresAt < now := hexpiry ▸ Nat.lt_of_lt_of_le hlt (hop.timely.2 now rfl)
    have hcheck := hadmits.check
    rw [Endpoint.checkTicket_expired hpast] at hcheck
    cases hcheck

/-! ### A call to a member -/

/-- A birth is of the response that was handled. -/
theorem birth_admits {a : Acceptor} {i : ShardId} {e : Endpoint} (h : Placed a i e) {op : EndpointOp} {b : Birth}
    (hb : b ∈ birthsOf i e.connections (e.after suite op).connections) :
    b.shard = i ∧ ∃ now sender datagram draws cookie, op = .handleDatagram now sender datagram draws ∧
      e.Admits suite now sender datagram cookie ∧ b.ticket = cookie.ticketId ∧
      (e.handleDatagram suite now sender datagram draws).2.1 = .connected b.handle := by
  obtain ⟨hshard, hnone, conn, hget, hticket⟩ := (mem_birthsOf h.routed.sound (h.after op).routed.sound).1 hb
  obtain ⟨now, sender, datagram, draws, cookie, session, rfl, hadmits, rfl, haction, -⟩ :=
    Endpoint.after_born suite h.routed.sound hget hnone
  exact ⟨hshard, now, sender, datagram, draws, cookie, rfl, hadmits, hticket.symm, haction⟩

/-- There is one at most. -/
theorem births_eq (h : g.Formed suite) {i : ShardId} (hi : g.acceptor.shards.contains i = true) {op : EndpointOp}
    {b b' : Birth} (hb : b ∈ birthsOf i (g.members i).connections ((g.members i).after suite op).connections)
    (hb' : b' ∈ birthsOf i (g.members i).connections ((g.members i).after suite op).connections) : b = b' := by
  obtain ⟨hshard, now, sender, datagram, draws, cookie, hop, hadmits, hticket, haction⟩ := birth_admits (h.member i hi) hb
  obtain ⟨hshard', now', sender', datagram', draws', cookie', hop', hadmits', hticket', haction'⟩ :=
    birth_admits (h.member i hi) hb'
  cases hop.symm.trans hop'
  cases hadmits.opened.symm.trans hadmits'.opened
  have hhandle : b.handle = b'.handle := Action.connected.inj (haction.symm.trans haction')
  cases b
  cases b'
  simp_all

theorem encryptTicket_nonce {aead : Aead} {draw : Option BlobNonce} {ticket : Ticket} {room : Nat} {blob : List UInt8}
    (h : encryptTicket aead draw ticket room = some blob) :
    ∃ nonce, draw = some nonce ∧ blob.take nonceLen = nonce.nonce := by
  obtain ⟨plain, -, h⟩ := Option.bind_eq_some_iff.1 h
  obtain ⟨nonce, sealed, hdraw, -, rfl, -⟩ := encryptBlob_eq_some h
  exact ⟨nonce, hdraw, by rw [← nonce.len, List.take_left]⟩

/-- Sealing one more ticket, under a nonce not used before. -/
theorem SingleUse.distinct_append (h : g.SingleUse suite) {blob? : Option (List UInt8)}
    (hfresh : ∀ blob, blob? = some blob → ∀ old ∈ g.issued, old.take nonceLen ≠ blob.take nonceLen) :
    ∀ blob ∈ g.issued ++ blob?.toList, ∀ blob' ∈ g.issued ++ blob?.toList,
      blob.take nonceLen = blob'.take nonceLen → blob = blob' := by
  intro blob hblob blob' hblob' heq
  rcases List.mem_append.1 hblob with hold | hnew <;> rcases List.mem_append.1 hblob' with hold' | hnew'
  · exact h.distinct blob hold blob' hold' heq
  · exact (hfresh blob' (Option.mem_toList.1 hnew') blob hold heq).elim
  · exact (hfresh blob (Option.mem_toList.1 hnew) blob' hold' heq.symm).elim
  · exact Option.mem_unique (Option.mem_toList.1 hnew) (Option.mem_toList.1 hnew')

theorem SingleUse.member_distinct (h : g.SingleUse suite) {i : ShardId} {op : EndpointOp}
    (hnonces : g.NoncesDistinct (.member i op)) :
    ∀ blob ∈ g.issued ++ ticketsOf suite (g.members i) op, ∀ blob' ∈ g.issued ++ ticketsOf suite (g.members i) op,
      blob.take nonceLen = blob'.take nonceLen → blob = blob' := by
  cases op with
  | issueResumeTicket now handle ticket draw =>
    simp only [ticketsOf]
    refine h.distinct_append fun blob hblob old hold heq => ?_
    rw [Acceptor.encryptResumeTicket] at hblob
    obtain ⟨nonce, hdraw, hnonce⟩ := encryptTicket_nonce hblob
    exact hnonces nonce hdraw old hold (heq.trans hnonce)
  | _ => simpa only [ticketsOf, List.append_nil] using h.distinct

theorem SingleUse.member_presented (h : g.SingleUse suite) {i : ShardId} {op : EndpointOp}
    (hop : g.Sealed suite (.member i op)) :
    ∀ answer ∈ g.answers ++ answersOf suite (g.members i) op,
      ∃ blob ∈ g.issued ++ ticketsOf suite (g.members i) op, handshakeBlob answer.request = some blob := by
  intro answer hmem
  rcases List.mem_append.1 hmem with hold | hnew
  · obtain ⟨blob, hblob, heq⟩ := h.presented answer hold
    exact ⟨blob, List.mem_append_left _ hblob, heq⟩
  · obtain ⟨rfl, cookie, hanswered⟩ := mem_answersOf hnew
    have hopen := hanswered.ticket_eq
    rw [(h.member i hop.timely.1).acceptor_eq] at hopen
    obtain ⟨blob, plain, hblob, hplain, -⟩ := Acceptor.decryptTicket_ok hopen
    exact ⟨blob, List.mem_append_left _ (hop.tickets blob hblob (by rw [hplain]; rfl)), hblob⟩

/-- A member that is called keeps its accounts. -/
theorem SingleUse.member_accounts (h : g.SingleUse suite) {i : ShardId} {op : EndpointOp}
    (hop : g.Sealed suite (.member i op)) :
    ((g.members i).after suite op).Accounts (Expires suite (g.after suite (.member i op)))
      (fun id handle => ⟨i, handle, id⟩ ∈ (g.after suite (.member i op)).created) (op.time.getD g.clock) := by
  have hi := hop.timely.1
  have hplaced := h.member i hi
  have hs := hplaced.routed.sound
  have hle : g.clock ≤ op.time.getD g.clock := by
    cases htime : op.time with
    | none => exact Nat.le_refl _
    | some now => exact hop.timely.2 now htime
  have hexpires : ∀ id t, Expires suite g id t → Expires suite (g.after suite (.member i op)) id t := by
    rintro id t ⟨answer, hmem, hrest⟩
    exact ⟨answer, List.mem_append_left _ hmem, hrest⟩
  have hmade : ∀ id handle, (⟨i, handle, id⟩ : Birth) ∈ g.created →
      (⟨i, handle, id⟩ : Birth) ∈ (g.after suite (.member i op)).created := fun _ _ => List.mem_append_left _
  have hbefore : (g.members i).Accounts (Expires suite (g.after suite (.member i op)))
      (fun id handle => ⟨i, handle, id⟩ ∈ g.created) (op.time.getD g.clock) :=
    (h.accounts i hi).mono hle hexpires (fun _ _ hid => hid) fun _ _ hid => .inl hid
  have hbirth : ∀ id handle, (⟨i, handle, id⟩ : Birth) ∈ (g.after suite (.member i op)).created →
      (⟨i, handle, id⟩ : Birth) ∈ g.created ∨ (g.members i).connections.get handle = none ∧
        ∃ conn, ((g.members i).after suite op).connections.get handle = some conn ∧ conn.role.ticket = id := by
    intro id handle hmem
    refine (List.mem_append.1 hmem).imp (fun hold => hold) fun hnew => ?_
    exact ((mem_birthsOf hs (hplaced.after op).routed.sound).1 hnew).2
  obtain ⟨now, hnow⟩ : ∃ now, now = op.time.getD g.clock := ⟨_, rfl⟩
  rw [← hnow] at hbefore ⊢
  rcases (g.members i).after_cases suite op fun t ht => show t = now by rw [hnow, ht, Option.getD_some] with
    hturns | ⟨sender, datagram, draws, cookie, rfl, hadmits, heq⟩
  · refine (hbefore.turns hs hturns).mono (Nat.le_refl _) (fun _ _ ht => ht) hmade fun id handle hid => ?_
    refine (hbirth id handle hid).imp (fun hold => hold) ?_
    rintro ⟨hnone, conn, hget, -⟩
    obtain ⟨c, hc, -⟩ := hturns.get_some hs hget
    exact (Option.some_ne_none c (hc.symm.trans hnone)).elim
  · have hopen := (Endpoint.openResponse_ok suite hadmits.opened).1
    obtain ⟨answer, hanswer, -, hanswered⟩ := cookie_answered h.toFormed hi hop.cookies hadmits.kind hopen
    have hpaid := hbefore.turn hs ((g.members i).paid_turn now sender)
    have hafter : (g.members i).after suite (.handleDatagram now sender datagram draws) =
        (((g.members i).paid now sender).admitPlayer suite now sender cookie).1 := by
      rw [Endpoint.after, heq]
    rw [hafter] at hbirth ⊢
    refine hpaid.admitPlayer hs ⟨answer, List.mem_append_left _ hanswer, cookie, hanswered, rfl, rfl⟩ hmade
      (fun id handle hid => ?_) fun handle conn hnone hget => ?_
    · refine (hbirth id handle hid).imp (fun hold => hold) ?_
      rintro ⟨hnone, conn, hget, hticket⟩
      refine ⟨?_, hnone, by rw [hget]; rfl⟩
      obtain ⟨_, _, _, _, cookie', _, hcall, hadmits', rfl, -⟩ :=
        Endpoint.after_born suite hs (by rw [hafter]; exact hget) hnone
      cases hcall
      cases hadmits.opened.symm.trans hadmits'.opened
      exact hticket.symm
    · refine List.mem_append_right _ ((mem_birthsOf hs (hplaced.after _).routed.sound).2 ⟨rfl, hnone, conn, ?_, ?_⟩)
      · rw [hafter]
        exact hget
      · obtain ⟨_, _, _, _, cookie', _, hcall, hadmits', rfl, -⟩ :=
          Endpoint.after_born suite hs (by rw [hafter]; exact hget) hnone
        cases hcall
        cases hadmits.opened.symm.trans hadmits'.opened
        rfl

/-- A connection is made at the home its ticket's cookies name. -/
theorem SingleUse.member_home (h : g.SingleUse suite) {i : ShardId} {op : EndpointOp}
    (hop : g.Sealed suite (.member i op)) :
    ∀ b ∈ (g.after suite (.member i op)).created, ∃ answer ∈ (g.after suite (.member i op)).answers, ∃ cookie,
      Answered suite g.acceptor answer cookie ∧ cookie.ticketId = b.ticket ∧ cookie.home = b.shard := by
  intro b hmem
  rcases List.mem_append.1 hmem with hold | hnew
  · obtain ⟨answer, hanswer, hrest⟩ := h.home b hold
    exact ⟨answer, List.mem_append_left _ hanswer, hrest⟩
  · have hi := hop.timely.1
    obtain ⟨hshard, now, sender, datagram, draws, cookie, rfl, hadmits, hticket, -⟩ := birth_admits (h.member i hi) hnew
    have hopen := (Endpoint.openResponse_ok suite hadmits.opened).1
    obtain ⟨answer, hanswer, -, hanswered⟩ := cookie_answered h.toFormed hi hop.cookies hadmits.kind hopen
    have howner := Endpoint.openResponse_owner suite hadmits.kind hadmits.opened
    rw [hadmits.owner, (h.member i hi).shard_eq] at howner
    refine ⟨answer, List.mem_append_left _ hanswer, cookie, hanswered, hticket.symm, ?_⟩
    rw [hshard, Option.some.inj howner]

theorem SingleUse.member_once (h : g.SingleUse suite) {i : ShardId} {op : EndpointOp}
    (hop : g.Sealed suite (.member i op)) : ((g.after suite (.member i op)).created.map Birth.ticket).Nodup := by
  have hi := hop.timely.1
  show ((g.created ++ birthsOf i _ _).map Birth.ticket).Nodup
  rw [List.map_append, List.nodup_append]
  refine ⟨h.once, ?_, ?_⟩
  · refine List.Nodup.map_on (fun b hb b' hb' _ => births_eq h.toFormed hi hb hb') (birthsOf_nodup ?_ i)
    exact ((h.member i hi).after op).routed.sound
  · rintro id hold _ hnew rfl
    obtain ⟨b, hb, rfl⟩ := List.mem_map.1 hnew
    obtain ⟨-, now, sender, datagram, draws, cookie, rfl, hadmits, hticket, -⟩ := birth_admits (h.member i hi) hb
    exact h.not_created hop hadmits (hticket ▸ hold)

theorem SingleUse.step {op : GroupOp} (h : g.SingleUse suite) (hop : g.Sealed suite op) :
    (g.after suite op).SingleUse suite := by
  cases op with
  | issue ticket draw =>
    refine ⟨h.toFormed.step hop.timely, ?_, fun answer hmem => ?_, h.accounts, h.home, h.once⟩
    · refine h.distinct_append fun blob hblob old hold heq => ?_
      obtain ⟨nonce, hdraw, hnonce⟩ := encryptTicket_nonce hblob
      cases hdraw
      exact hop.nonces old hold (heq.trans hnonce)
    · obtain ⟨blob, hblob, hrequest⟩ := h.presented answer hmem
      exact ⟨blob, List.mem_append_left _ hblob, hrequest⟩
  | member i op =>
    refine ⟨h.toFormed.step hop.timely, h.member_distinct hop.nonces, h.member_presented hop, fun j hj => ?_,
      h.member_home hop, h.member_once hop⟩
    by_cases hij : j = i
    · subst hij
      rw [after_member]
      exact h.member_accounts hop
    · rw [after_other g hij]
      refine (h.accounts j hj).mono ?_ ?_ (fun _ _ => List.mem_append_left _) fun id handle hmem => ?_
      · show g.clock ≤ op.time.getD g.clock
        cases htime : op.time with
        | none => exact Nat.le_refl _
        | some now => exact hop.timely.2 now htime
      · rintro id t ⟨answer, hmem, hrest⟩
        exact ⟨answer, List.mem_append_left _ hmem, hrest⟩
      · refine (List.mem_append.1 hmem).imp (fun hold => hold) fun hnew => ?_
        exact (hij (birth_admits (h.member _ hop.timely.1) hnew).1).elim

theorem reach_singleUse (h : Lts.Reach (sys suite) (Sealed suite) g) : g.SingleUse suite := by
  refine Lts.Reach.invariant (P := SingleUse suite) (fun _ hstart => Fresh.singleUse hstart) ?_ h
  rintro g op g' - hg hop rfl
  exact hg.step hop

/-! ## A ticket presented again -/

/-- At its home, a ticket that was redeemed gets the live connection it was
redeemed for, or nothing. -/
theorem SingleUse.redeem_again (h : g.SingleUse suite) {b : Birth} (hb : b ∈ g.created)
    (hshard : g.acceptor.shards.contains b.shard = true) {now : Timestamp} (hnow : g.clock ≤ now) {sender : SocketAddr}
    {cookie : Cookie} (hticket : b.ticket = cookie.ticketId)
    (hexpires : Expires suite g cookie.ticketId cookie.ticket.expiresAt) :
    (((g.members b.shard).paid now sender).redeem suite now sender cookie).2 = .connected b.handle ∧
        (∃ conn, (g.members b.shard).connections.get b.handle = some conn ∧ conn.role.ticket = b.ticket) ∨
      ∃ reason, (((g.members b.shard).paid now sender).redeem suite now sender cookie).2 = .dropped reason := by
  have haccounts := h.accounts b.shard hshard
  have hsame : ((g.members b.shard).paid now sender).redeemed = (g.members b.shard).redeemed := rfl
  unfold Endpoint.redeem
  rw [hsame]
  split
  next spent hspent =>
    unfold Endpoint.answerSpent
    split
    next handle hhandle =>
      split
      · have hrecord : (g.members b.shard).redeemed cookie.ticketId = some ⟨some handle⟩ := by
          rw [hspent]
          cases spent
          cases hhandle
          rfl
        obtain ⟨hmade, conn, hget, hconn⟩ := haccounts.live _ _ hrecord
        -- one ticket, one birth
        have hsame := List.inj_on_of_nodup_map h.once hb hmade hticket
        have hhandle' : b.handle = handle := by rw [hsame]
        exact .inl ⟨by rw [hhandle'], conn, by rw [hhandle']; exact hget, hconn.trans hticket.symm⟩
      · exact .inr ⟨_, rfl⟩
    · exact .inr ⟨_, rfl⟩
  next hnone =>
    rcases haccounts.spent cookie.ticketId b.handle (by rw [← hticket]; exact hb) with hne | ⟨t, ht, hlt⟩
    · exact (hne hnone).elim
    · have hpast : cookie.ticket.expiresAt < now := h.expires_unique ht hexpires ▸ Nat.lt_of_lt_of_le hlt hnow
      rw [Endpoint.checkTicket_expired hpast]
      exact .inr ⟨_, rfl⟩

/-- **A ticket is single-use across a group.** Over every run, with times that
do not decrease, at most one connection is made for each ticket in the whole
group. A later response that presents the ticket, delivered to any member, is
passed on to the one it is addressed to, which names the live connection that
was made or drops it. -/
theorem ticket_single_use (h : Lts.Reach (sys suite) (Sealed suite) g) :
    (g.created.map Birth.ticket).Nodup ∧
    ∀ i now sender datagram draws cookie b,
      g.Sealed suite (.member i (.handleDatagram now sender datagram draws)) → peekKind datagram = some .response →
      g.acceptor.decryptCookie suite datagram = .ok cookie → b ∈ g.created → b.ticket = cookie.ticketId →
      let action := ((g.members i).handleDatagram suite now sender datagram draws).2.1
      i ≠ b.shard ∧ action = .forward b.shard ∨
        i = b.shard ∧ (action = .connected b.handle ∧
            (∃ conn, (g.members i).connections.get b.handle = some conn ∧ conn.role.ticket = b.ticket) ∨
          ∃ reason, action = .dropped reason) := by
  have hg := reach_singleUse h
  refine ⟨hg.once, fun i now sender datagram draws cookie b hop hkind hopen hb hticket => ?_⟩
  have hi := hop.timely.1
  have hplaced := hg.member i hi
  obtain ⟨answer, hanswer, -, hanswered⟩ := cookie_answered hg.toFormed hi hop.cookies hkind
    (by rw [hplaced.acceptor_eq]; exact hopen)
  obtain ⟨a, ha, c, hc, hid, hhome⟩ := hg.home b hb
  have hhome' : cookie.home = b.shard := by
    rw [← (hg.answered_unique ha hanswer hc hanswered (hid.trans hticket)).2, hhome]
  have howner : ownerShard datagram = some b.shard := by
    obtain ⟨blob, plain, hblob, -⟩ := Acceptor.decryptCookie_ok hopen
    rw [ownerShard_response hkind, hblob, ← hhome']
    rfl
  have hmember : g.acceptor.shards.contains b.shard = true := ShardCount.home_contains (hhome' ▸ hanswered.home_eq)
  unfold Endpoint.handleDatagram
  dsimp only
  rw [howner, hplaced.shard_eq]
  dsimp only
  split
  next hne =>
    refine .inl ⟨Ne.symm hne, ?_⟩
    show (g.members i).misrouted b.shard = .forward b.shard
    rw [Endpoint.misrouted, hplaced.count_eq, if_pos hmember]
  next heq =>
    obtain rfl := not_not.1 heq
    refine .inr ⟨rfl, ?_⟩
    have hexpires : Expires suite g cookie.ticketId cookie.ticket.expiresAt := ⟨answer, hanswer, cookie, hanswered, rfl, rfl⟩
    unfold Endpoint.dispatch Endpoint.handleResponse
    rw [hkind]
    dsimp only
    split
    · split
      · exact .inr ⟨_, rfl⟩
      next cookie' hopen' =>
        have hopened := (Endpoint.openResponse_ok suite hopen').1
        rw [((g.members b.shard).chargeHandshake_same now sender .response).acceptor_eq, hplaced.acceptor_eq,
          hopen] at hopened
        cases hopened
        exact hg.redeem_again hb hmember (hop.timely.2 now rfl) hticket hexpires
    · exact .inr ⟨_, rfl⟩

/-! ### One ticket, presented twice -/

open Endpoint (clearSuite visitor drawn requestOf first)

/-- The ticket is sealed, presented and redeemed. -/
def issuing : Group := pair.after clearSuite (.issue visitor drawn)

def challenged : Group := issuing.after clearSuite requested

def redeemedOnce : Group := challenged.after clearSuite (responded 1)

theorem requested_sealed : issuing.Sealed clearSuite requested where
  timely := ⟨rfl, fun now hnow => by cases hnow; exact Nat.le_refl _⟩
  cookies := requested_cookies issuing
  tickets blob hblob _ := by
    have hissued : issuing.issued.any (fun b => handshakeBlob (requestOf visitor drawn) = some b) = true := by
      decide +kernel
    obtain ⟨b, hmem, heq⟩ := List.any_eq_true.1 hissued
    cases hblob.symm.trans (of_decide_eq_true heq)
    exact hmem
  nonces := trivial

/-- The response is the answer's cookie, and no ticket. -/
theorem responded_sealed {g : Group} {i : ShardId} (hclock : g.clock = .zero) (hmember : g.acceptor.shards.contains i = true)
    (hanswers : g.answers.any (fun answer => handshakeBlob answer.out = handshakeBlob response) = true) :
    g.Sealed clearSuite (responded i) where
  timely := ⟨hmember, fun now hnow => by cases hnow; rw [hclock]; exact Nat.le_refl _⟩
  cookies home blob hblob _ := by
    obtain ⟨answer, hmem, heq⟩ := List.any_eq_true.1 hanswers
    exact ⟨answer, hmem, (of_decide_eq_true heq).trans hblob⟩
  tickets blob hblob hopen := by
    have hnone : (handshakeBlob response).all (fun b => (decryptBlob .clear b ticketAad maxTicket).isNone) = true := by
      decide +kernel
    rw [hblob, Option.all_some, Option.isNone_iff_eq_none] at hnone
    rw [show ∀ key, decryptBlob (clearSuite key) blob ticketAad maxTicket = none from fun _ => hnone] at hopen
    rw [show ∀ key, decryptBlob (clearSuite key) blob ticketAad maxTicket = none from fun _ => hnone] at hopen
    cases hopen
  nonces := trivial

theorem issuing_sealed : pair.Sealed clearSuite (.issue visitor drawn) where
  timely := trivial
  cookies := trivial
  tickets := trivial
  nonces _ hmem := nomatch hmem

theorem challenged_reach : Lts.Reach (sys clearSuite) (Sealed clearSuite) challenged :=
  .step (.step (.start pair_fresh) issuing_sealed rfl) requested_sealed rfl

theorem challenged_answers :
    challenged.answers.any (fun answer => handshakeBlob answer.out = handshakeBlob response) = true := by
  decide +kernel

theorem redeemedOnce_reach : Lts.Reach (sys clearSuite) (Sealed clearSuite) redeemedOnce :=
  .step challenged_reach (responded_sealed rfl rfl challenged_answers) rfl

theorem response_opens : ∃ cookie, redeemedOnce.acceptor.decryptCookie clearSuite response = .ok cookie ∧
    cookie.ticketId = drawn := by
  have hopen : (redeemedOnce.acceptor.decryptCookie clearSuite response).toOption.any (fun c => c.ticketId = drawn) =
      true := by decide +kernel
  generalize redeemedOnce.acceptor.decryptCookie clearSuite response = opened at hopen
  cases opened with
  | error error => cases hopen
  | ok cookie => exact ⟨cookie, rfl, of_decide_eq_true hopen⟩

/-- Again, the other member forwards the response and its own finds the
connection. -/
theorem single_use_retried :
    redeemedOnce.created = [⟨1, first, drawn⟩] ∧
    ((redeemedOnce.members 0).handleDatagram clearSuite .zero (.v4 1 1) response ⟨0, none⟩).2.1 = .forward 1 ∧
    ((redeemedOnce.members 1).handleDatagram clearSuite .zero (.v4 1 1) response ⟨0, none⟩).2.1 = .connected first ∧
    ∃ conn, (redeemedOnce.members 1).connections.get first = some conn ∧ conn.role.ticket = drawn := by
  have hcreated : redeemedOnce.created = [⟨1, first, drawn⟩] := by decide +kernel
  have hanswers : redeemedOnce.answers.any (fun answer => handshakeBlob answer.out = handshakeBlob response) = true := by
    show (challenged.answers ++ _).any _ = true
    rw [List.any_append, challenged_answers, Bool.true_or]
  have haction : ((redeemedOnce.members 1).handleDatagram clearSuite .zero (.v4 1 1) response ⟨0, none⟩).2.1 =
      .connected first := by decide +kernel
  obtain ⟨cookie, hcookie, hid⟩ := response_opens
  have hagain := fun i (hi : redeemedOnce.acceptor.shards.contains i = true) =>
    (ticket_single_use redeemedOnce_reach).2 i .zero (.v4 1 1) response ⟨0, none⟩ cookie ⟨1, first, drawn⟩
      (responded_sealed rfl hi hanswers) (by decide +kernel) hcookie
      (by rw [hcreated]; exact List.mem_singleton_self _) hid.symm
  obtain ⟨-, hforward⟩ := (hagain 0 rfl).resolve_right fun hown => by cases hown.1
  rcases hagain 1 rfl with ⟨hne, -⟩ | ⟨-, ⟨-, hconn⟩ | ⟨reason, hdropped⟩⟩
  · exact (hne rfl).elim
  · exact ⟨hcreated, hforward, haction, hconn⟩
  · rw [haction] at hdropped
    cases hdropped

end Group
end HexNet
