/-
Sessions, and the connections that carry them. A connection is attached to its
session from the admission that makes it; a later admission may take the
session over, and the connection that held it is closed before the session
points elsewhere. What is left of it is removed without touching the session.

`Attended` says how the table and the slab agree, and `reachable_attended` that
they always do. Owners need one thing more: that an id is drawn for one
session only, which holds until the sequence outgrows the 56 bits it has.
-/
import HexNet.Spending

namespace HexNet

theorem SessionId.new_inj {n n' : Nat} {shard : ShardId} (hn : n < 2 ^ 56) (hn' : n' < 2 ^ 56)
    (h : SessionId.new n shard = SessionId.new n' shard) : n = n' := by
  have hback : ∀ n < 2 ^ 56, (SessionId.new n shard).toNat / 2 ^ 8 = n := by
    intro n hn
    have hshard := shard.toNat_lt
    rw [SessionId.new, BitVec.toNat_or, BitVec.toNat_shiftLeft, BitVec.toNat_ofNat, BitVec.toNat_ofNat,
      ← Nat.shiftRight_eq_div_pow, Nat.shiftRight_or_distrib, Nat.shiftRight_eq_div_pow, Nat.shiftRight_eq_div_pow,
      Nat.shiftLeft_eq, show shardBits = 8 from rfl, Nat.div_eq_of_lt (a := shard.toNat % 2 ^ 64) (by omega), Nat.or_zero]
    omega
  rw [← hback n hn, h, hback n' hn']

namespace Endpoint

variable {suite : Suite} {e e' : Endpoint} {now : Timestamp}

/-! ## What becomes of a session -/

theorem detach_suspended (e : Endpoint) (handle : Handle) (session : SessionId) (reason : CloseReason)
    (now : Timestamp) :
    (e.detach handle session reason now).suspended = e.suspended ∨
      (e.detach handle session reason now).suspended = e.suspended ++ [(now, session)] := by
  unfold detach
  split
  · split
    · split
      · exact .inl rfl
      · exact .inr rfl
    · exact .inl rfl
  · exact .inl rfl

/-- A session is detached where it was live on the connection removed: it is
gone, or suspended and queued. -/
theorem detach_cases (e : Endpoint) (handle : Handle) (session : SessionId) (reason : CloseReason) (now : Timestamp) :
    (∀ owner, e.sessions session ≠ some ⟨owner, .live handle⟩) ∧
        (e.detach handle session reason now).sessions = e.sessions ∨
      ∃ owner new, e.sessions session = some ⟨owner, .live handle⟩ ∧
        (e.detach handle session reason now).sessions = Function.update e.sessions session new ∧
        ∀ record, new = some record → record = ⟨owner, .suspended now⟩ ∧
          (now, session) ∈ (e.detach handle session reason now).suspended := by
  unfold detach
  split
  next record hrecord =>
    obtain ⟨owner, state⟩ := record
    split
    next hlive =>
      dsimp only at hlive
      subst hlive
      split
      · exact .inr ⟨owner, none, hrecord, rfl, fun _ hnew => nomatch hnew⟩
      · refine .inr ⟨owner, some ⟨owner, .suspended now⟩, hrecord, rfl, fun record hnew => ?_⟩
        cases hnew
        exact ⟨rfl, List.mem_append_right _ (List.mem_singleton_self _)⟩
    next hother =>
      refine .inl ⟨fun owner' hlive => hother ?_, rfl⟩
      cases hrecord.symm.trans hlive
      rfl
  next hnone =>
    refine .inl ⟨fun owner hlive => ?_, rfl⟩
    cases hnone.symm.trans hlive

/-- What became of the sessions, and of the connections with them. -/
inductive Roster (now : Timestamp) (e e' : Endpoint) : Prop
  | same : e'.sessions = e.sessions → e'.suspended = e.suspended → e.connections.Updated e'.connections → Roster now e e'
  /-- A connection was removed, and its session detached from it. -/
  | detached {s : Slab (Connection Server)} (handle : Handle) (conn : Connection Server) (reason : CloseReason) :
    e.connections.Updated s → s.get handle = some conn → e'.connections = (s.remove handle).1 →
    e'.sessions = (e.detach handle conn.role.session reason now).sessions →
    e'.suspended = (e.detach handle conn.role.session reason now).suspended → Roster now e e'
  | expired (since : Timestamp) (session : SessionId) :
    e.suspended = (since, session) :: e'.suspended → e.lapsed since session = true →
    e'.sessions = Function.update e.sessions session none → e'.connections = e.connections → Roster now e e'
  | skipped (since : Timestamp) (session : SessionId) :
    e.suspended = (since, session) :: e'.suspended → e.lapsed since session = false →
    e'.sessions = e.sessions → e'.connections = e.connections → Roster now e e'

/-- Where a session goes depends on the table and the queue alone. -/
theorem detach_congr (hsessions : e'.sessions = e.sessions) (hsuspended : e'.suspended = e.suspended) (handle : Handle)
    (session : SessionId) (reason : CloseReason) (now : Timestamp) :
    (e'.detach handle session reason now).sessions = (e.detach handle session reason now).sessions ∧
      (e'.detach handle session reason now).suspended = (e.detach handle session reason now).suspended := by
  unfold detach
  rw [hsessions, hsuspended]
  split
  · split
    · split <;> exact ⟨rfl, rfl⟩
    · exact ⟨rfl, rfl⟩
  · exact ⟨rfl, rfl⟩

/-- **What a turn does to the sessions.** -/
theorem Turn.roster (h : Turn now e e') (hs : e.connections.Sound) : Roster now e e' := by
  cases h.outline hs with
  | kept heq hconns =>
    rw [heq]
    exact .same rfl rfl hconns
  | removed handle conn reason heq hconns hget =>
    rw [heq]
    generalize hgone : removed _ handle conn.role.ticket = gone
    have hdetach := detach_congr (show gone.sessions = e.sessions by rw [← hgone]; rfl)
      (show gone.suspended = e.suspended by rw [← hgone]; rfl) handle conn.role.session reason now
    refine .detached handle conn reason hconns hget ?_ hdetach.1 hdetach.2
    rw [detach_connections, ← hgone]
    rfl
  | expired since session suspended heq hsuspended hlapsed =>
    rw [heq]
    exact .expired since session hsuspended hlapsed rfl rfl
  | skipped since session suspended heq hsuspended hstale =>
    rw [heq]
    exact .skipped since session hsuspended hstale rfl rfl
  | forgot at_ id redeemedExpiry heq =>
    rw [heq]
    exact .same rfl rfl (.refl hs)

theorem Turn.sequence_eq (h : Turn now e e') (hs : e.connections.Sound) :
    e'.nextSessionSequence = e.nextSessionSequence := by
  cases h.outline hs with
  | kept heq => rw [heq]
  | removed handle conn reason heq =>
    obtain ⟨_, _, _, hdetach⟩ := detach_frame (removed _ handle conn.role.ticket) handle conn.role.session reason now
    rw [heq, hdetach]
    rfl
  | expired since session suspended heq => rw [heq]
  | skipped since session suspended heq => rw [heq]
  | forgot at_ id redeemedExpiry heq => rw [heq]

/-! ## Admissions -/

/-- Whichever connection held a session is not open once it is taken over. -/
theorem takeOver_closes (hs : e.connections.Sound) {session : SessionId}
    (hheld : ∀ handle conn, e.connections.get handle = some conn → conn.lifecycle = .open → conn.role.session = session →
      ∃ owner, e.sessions session = some ⟨owner, .live handle⟩) {handle : Handle} {conn : Connection Server}
    (hget : (e.takeOver session).connections.get handle = some conn) (hsession : conn.role.session = session) :
    conn.lifecycle ≠ .open := by
  intro hopen
  obtain ⟨c, hc, hkept⟩ := (takeOver_updated hs session).get_some hget
  obtain ⟨owner, hlive⟩ := hheld handle c hc (hkept.open_of hopen) (hkept.session_eq.symm.trans hsession)
  have htake : e.takeOver session = e.connectionMut handle (·.close .replaced) := by
    unfold takeOver
    rw [hlive]
  have hcontains : e.connections.contains handle = true := by rw [hs.contains_iff, hc]; rfl
  rw [htake, connectionMut, if_pos hcontains] at hget
  dsimp only at hget
  rw [touch_connections, Slab.get_modify hs, if_pos rfl, hc] at hget
  cases hget
  simp only [Connection.close] at hopen
  split at hopen
  · cases hopen
  next hnot => exact hnot hopen

/-! ## The table and the slab -/

def Drawn (e : Endpoint) (session : SessionId) : Prop := ∃ n < e.nextSessionSequence, session = .new n e.shard

/-- The sessions and the connections agree. -/
structure Attended (e : Endpoint) : Prop where
  /-- A live session is on a connection of its own. -/
  live : ∀ session owner handle, e.sessions session = some ⟨owner, .live handle⟩ →
    ∃ conn, e.connections.get handle = some conn ∧ conn.role.session = session
  /-- An open connection holds its session. -/
  holds : ∀ handle conn, e.connections.get handle = some conn → conn.lifecycle = .open →
    ∃ owner, e.sessions conn.role.session = some ⟨owner, .live handle⟩
  /-- A suspended session is queued to expire. -/
  queued : ∀ session owner since, e.sessions session = some ⟨owner, .suspended since⟩ → (since, session) ∈ e.suspended
  drawn : ∀ session record, e.sessions session = some record → e.Drawn session

theorem new_attended (config : EndpointConfig) (backendKey : Key) (channels : ChannelSet) (hasher : SourceKey → Nat) :
    (new config backendKey channels hasher).Attended where
  live _ _ _ h := nomatch h
  holds _ _ h := nomatch h
  queued _ _ _ h := nomatch h
  drawn _ _ h := nomatch h

theorem Drawn.congr {session : SessionId} (h : e.Drawn session) (hfixed : e'.fixed = e.fixed)
    (hle : e.nextSessionSequence ≤ e'.nextSessionSequence) : e'.Drawn session := by
  obtain ⟨n, hn, rfl⟩ := h
  simp only [fixed, Prod.mk.injEq] at hfixed
  exact ⟨n, by omega, by rw [shard, shard, hfixed.1]⟩

theorem Attended.updated (h : e.Attended) (hconns : e.connections.Updated e'.connections)
    (hsessions : e'.sessions = e.sessions)
    (hsuspended : e'.suspended = e.suspended) (hfixed : e'.fixed = e.fixed)
    (hle : e.nextSessionSequence ≤ e'.nextSessionSequence) : e'.Attended where
  live session owner handle hlive := by
    rw [hsessions] at hlive
    obtain ⟨conn, hget, hsession⟩ := h.live session owner handle hlive
    obtain ⟨c', hc', hkept⟩ := hconns.get_kept hget
    exact ⟨c', hc', hkept.session_eq.trans hsession⟩
  holds handle conn hget hopen := by
    obtain ⟨c, hc, hkept⟩ := hconns.get_some hget
    rw [hsessions, hkept.session_eq]
    exact h.holds handle c hc (hkept.open_of hopen)
  queued := by rw [hsessions, hsuspended]; exact h.queued
  drawn session record hrecord := (h.drawn session record (hsessions ▸ hrecord)).congr hfixed hle

/-- What a table still says of a session it was changed elsewhere. -/
theorem update_eq_some {sessions : SessionId → Option Session} {session at_ : SessionId} {record : Session}
    {new : Option Session} (h : Function.update sessions session new at_ = some record) :
    at_ = session ∧ new = some record ∨ at_ ≠ session ∧ sessions at_ = some record := by
  by_cases heq : at_ = session
  · subst heq
    rw [Function.update_self] at h
    exact .inl ⟨rfl, h⟩
  · rw [Function.update_of_ne heq] at h
    exact .inr ⟨heq, h⟩

/-- Removing a connection detaches the one session that is live on it. -/
theorem Attended.detached (h : e.Attended) {s : Slab (Connection Server)} {handle : Handle} {conn : Connection Server}
    {reason : CloseReason} (hs : e.connections.Updated s) (hget : s.get handle = some conn)
    (hconns : e'.connections = (s.remove handle).1)
    (hsessions : e'.sessions = (e.detach handle conn.role.session reason now).sessions)
    (hsuspended : e'.suspended = (e.detach handle conn.role.session reason now).suspended) (hfixed : e'.fixed = e.fixed)
    (hle : e.nextSessionSequence ≤ e'.nextSessionSequence) : e'.Attended := by
  -- a session live elsewhere stays where it is
  have hother : ∀ session owner h', e.sessions session = some ⟨owner, .live h'⟩ → h' ≠ handle →
      ∃ c, e'.connections.get h' = some c ∧ c.role.session = session := by
    intro session owner h' hlive hne
    obtain ⟨c, hc, hsession⟩ := h.live session owner h' hlive
    obtain ⟨c', hc', hkept⟩ := hs.get_kept hc
    exact ⟨c', by rw [hconns, Slab.get_remove hs.sound, if_neg hne]; exact hc', hkept.session_eq.trans hsession⟩
  -- a session live here is the connection's own
  have hown : ∀ session owner, e.sessions session = some ⟨owner, .live handle⟩ → session = conn.role.session := by
    intro session owner hlive
    obtain ⟨c, hc, hsession⟩ := h.live session owner handle hlive
    obtain ⟨c', hc', hkept⟩ := hs.get_kept hc
    cases hget.symm.trans hc'
    exact hsession.symm.trans hkept.session_eq.symm
  have hsurvives : ∀ h' c', e'.connections.get h' = some c' → c'.lifecycle = .open →
      h' ≠ handle ∧ ∃ owner, e.sessions c'.role.session = some ⟨owner, .live h'⟩ := by
    intro h' c' hget' hopen
    rw [hconns, Slab.get_remove hs.sound] at hget'
    split at hget'
    · cases hget'
    next hne =>
      obtain ⟨c, hc, hkept⟩ := hs.get_some hget'
      rw [hkept.session_eq]
      exact ⟨hne, h.holds h' c hc (hkept.open_of hopen)⟩
  have hdrawn : ∀ session record, e.sessions session = some record → e'.Drawn session := fun session record hrecord =>
    (h.drawn session record hrecord).congr hfixed hle
  have hqueued : ∀ entry ∈ e.suspended, entry ∈ e'.suspended := by
    intro entry hentry
    rcases detach_suspended e handle conn.role.session reason now with hqueue | hqueue <;> rw [hsuspended, hqueue]
    · exact hentry
    · exact List.mem_append_left _ hentry
  rcases detach_cases e handle conn.role.session reason now with ⟨hnot, hsame⟩ | ⟨owner, new, hlive, hgone, hnew⟩
  · rw [hsame] at hsessions
    refine ⟨fun session owner h' hlive => ?_, fun h' c' hget' hopen => ?_, fun session owner since hrecord => ?_, ?_⟩
    · rw [hsessions] at hlive
      refine hother session owner h' hlive ?_
      rintro rfl
      obtain rfl := hown session owner hlive
      exact hnot owner hlive
    · rw [hsessions]
      exact (hsurvives h' c' hget' hopen).2
    · rw [hsessions] at hrecord
      exact hqueued _ (h.queued session owner since hrecord)
    · rw [hsessions]
      exact hdrawn
  · rw [hgone] at hsessions
    rw [← hsuspended] at hnew
    refine ⟨fun session owner' h' hlive' => ?_, fun h' c' hget' hopen => ?_, fun session owner' since hrecord => ?_,
      fun session record hrecord => ?_⟩
    · rw [hsessions] at hlive'
      rcases update_eq_some hlive' with ⟨-, hsome⟩ | ⟨hne, hold⟩
      · cases (hnew _ hsome).1
      · exact hother session owner' h' hold fun heq => hne (hown session owner' (heq ▸ hold))
    · -- no open connection is left on the session that was live here
      obtain ⟨hne, owner', hlive'⟩ := hsurvives h' c' hget' hopen
      have hsession : c'.role.session ≠ conn.role.session := by
        intro heq
        rw [heq, hlive] at hlive'
        cases hlive'
        exact hne rfl
      exact ⟨owner', by rw [hsessions, Function.update_of_ne hsession]; exact hlive'⟩
    · rw [hsessions] at hrecord
      rcases update_eq_some hrecord with ⟨heq, hsome⟩ | ⟨-, hold⟩
      · obtain ⟨hrecord, hmem⟩ := hnew _ hsome
        cases hrecord
        rw [heq]
        exact hmem
      · exact hqueued _ (h.queued session owner' since hold)
    · rw [hsessions] at hrecord
      rcases update_eq_some hrecord with ⟨heq, -⟩ | ⟨-, hold⟩
      · rw [heq]
        exact hdrawn _ _ hlive
      · exact hdrawn session record hold

theorem lapsed_eq_true {since : Timestamp} {session : SessionId} :
    e.lapsed since session = true ↔ ∃ owner, e.sessions session = some ⟨owner, .suspended since⟩ := by
  rw [lapsed, Option.any_eq_true]
  constructor
  · rintro ⟨⟨owner, state⟩, hrecord, hstate⟩
    obtain rfl : state = .suspended since := of_decide_eq_true hstate
    exact ⟨owner, hrecord⟩
  · rintro ⟨owner, hrecord⟩
    exact ⟨_, hrecord, decide_eq_true rfl⟩

theorem Attended.expired (h : e.Attended) {since : Timestamp} {session : SessionId}
    (hsuspended : e.suspended = (since, session) :: e'.suspended) (hlapsed : e.lapsed since session = true)
    (hsessions : e'.sessions = Function.update e.sessions session none) (hconns : e'.connections = e.connections)
    (hfixed : e'.fixed = e.fixed) (hle : e.nextSessionSequence ≤ e'.nextSessionSequence) : e'.Attended := by
  obtain ⟨owner, hrecord⟩ := lapsed_eq_true.1 hlapsed
  have hold : ∀ {at_ record}, e'.sessions at_ = some record → at_ ≠ session ∧ e.sessions at_ = some record := by
    intro at_ record hsome
    rw [hsessions] at hsome
    rcases update_eq_some hsome with ⟨-, hnone⟩ | hkept
    · cases hnone
    · exact hkept
  refine ⟨fun at_ owner' handle hlive => ?_, fun handle conn hget hopen => ?_, fun at_ owner' since' hqueued => ?_,
    fun at_ record hsome => (h.drawn at_ record (hold hsome).2).congr hfixed hle⟩
  · rw [hconns]
    exact h.live at_ owner' handle (hold hlive).2
  · rw [hconns] at hget
    obtain ⟨owner', hlive⟩ := h.holds handle conn hget hopen
    have hne : conn.role.session ≠ session := by
      intro heq
      rw [heq, hrecord] at hlive
      cases hlive
    exact ⟨owner', by rw [hsessions, Function.update_of_ne hne]; exact hlive⟩
  · have hmem := h.queued at_ owner' since' (hold hqueued).2
    rw [hsuspended, List.mem_cons] at hmem
    rcases hmem with heq | hmem
    · cases heq
      exact ((hold hqueued).1 rfl).elim
    · exact hmem

/-- An entry that no longer says when its session was suspended is not missed. -/
theorem Attended.skipped (h : e.Attended) {since : Timestamp} {session : SessionId}
    (hsuspended : e.suspended = (since, session) :: e'.suspended) (hstale : e.lapsed since session = false)
    (hsessions : e'.sessions = e.sessions) (hconns : e'.connections = e.connections) (hfixed : e'.fixed = e.fixed)
    (hle : e.nextSessionSequence ≤ e'.nextSessionSequence) : e'.Attended := by
  refine ⟨by rw [hsessions, hconns]; exact h.live, by rw [hsessions, hconns]; exact h.holds,
    fun at_ owner since' hqueued => ?_,
    fun at_ record hsome => (h.drawn at_ record (hsessions ▸ hsome)).congr hfixed hle⟩
  rw [hsessions] at hqueued
  have hmem := h.queued at_ owner since' hqueued
  rw [hsuspended, List.mem_cons] at hmem
  rcases hmem with heq | hmem
  · cases heq
    rw [lapsed_eq_true.2 ⟨owner, hqueued⟩] at hstale
    cases hstale
  · exact hmem

theorem Attended.turn (h : e.Attended) (hs : e.connections.Sound) (hturn : Turn now e e') : e'.Attended := by
  have hfixed := hturn.fixed_eq
  have hle := (hturn.sequence_eq hs).ge
  cases hturn.roster hs with
  | same hsessions hsuspended hconns => exact h.updated hconns hsessions hsuspended hfixed hle
  | detached handle conn reason hs hget hconns hsessions hsuspended =>
    exact h.detached hs hget hconns hsessions hsuspended hfixed hle
  | expired since session hsuspended hlapsed hsessions hconns =>
    exact h.expired hsuspended hlapsed hsessions hconns hfixed hle
  | skipped since session hsuspended hstale hsessions hconns =>
    exact h.skipped hsuspended hstale hsessions hconns hfixed hle

/-! ## Admitting -/

/-- A ticket that passes and names a session is its owner's. -/
theorem checkTicket_session {ticket : Ticket} {session : SessionId} (h : e.checkTicket now ticket = .ok ())
    (hsession : ticket.session = some session) :
    ∃ record, e.sessions session = some record ∧ record.owner = ticket.clientId := by
  unfold checkTicket at h
  split at h
  · cases h
  · rw [hsession] at h
    dsimp only at h
    split at h
    · cases h
    next record hrecord =>
      split at h
      · cases h
      next howner => exact ⟨record, hrecord, not_not.1 howner⟩

theorem openSession_cases (cookie : Cookie) :
    (∃ session, cookie.ticket.session = some session ∧ e.openSession cookie = (e, session, true)) ∨
      cookie.ticket.session = none ∧ e.openSession cookie =
        ({ e with nextSessionSequence := e.nextSessionSequence + 1 }, .new e.nextSessionSequence e.shard, false) := by
  unfold openSession
  cases hsession : cookie.ticket.session with
  | some session => exact .inl ⟨session, rfl, rfl⟩
  | none => exact .inr ⟨rfl, rfl⟩

theorem openSession_le (cookie : Cookie) :
    e.nextSessionSequence ≤ (e.openSession cookie).1.nextSessionSequence := by
  rcases e.openSession_cases cookie with ⟨session, -, heq⟩ | ⟨-, heq⟩ <;> rw [heq]
  exact Nat.le_succ _

theorem Attended.admitPlayer (h : e.Attended) (hs : e.connections.Sound) (sender : SocketAddr) {cookie : Cookie}
    (hcheck : e.checkTicket now cookie.ticket = .ok ()) : (e.admitPlayer suite now sender cookie).1.Attended := by
  have hfixed := admit_fixed suite e now sender cookie
  obtain ⟨hsuspended, hsequence, hdone⟩ := admit_records suite now hs sender cookie
  have hle : e.nextSessionSequence ≤ (e.admitPlayer suite now sender cookie).1.nextSessionSequence := by
    rw [hsequence]
    exact e.openSession_le cookie
  rcases hdone with ⟨hsessions, -, -, hconns⟩ | ⟨handle, hsessions, -, -, hborn⟩
  · exact h.updated hconns hsessions hsuspended hfixed hle
  have hupdated := admitted_updated hs cookie
  have hopened : (e.openSession cookie).1.sessions = e.sessions := by
    obtain ⟨_, hopen⟩ := e.openSession_frame cookie
    rw [hopen]
  refine ⟨fun session owner h' hlive => ?_, fun h' c' hget hopen => ?_, fun session owner since hrecord => ?_,
    fun session record hrecord => ?_⟩
  · rw [hsessions] at hlive
    rcases update_eq_some hlive with ⟨heq, hnew⟩ | ⟨-, hold⟩
    · cases hnew
      exact ⟨_, hborn.get_self, heq.symm⟩
    · obtain ⟨c, hc, hsession⟩ := h.live session owner h' hold
      obtain ⟨c', hc', hkept⟩ := (hupdated.born hborn).get_kept hc
      exact ⟨c', hc', hkept.session_eq.trans hsession⟩
  · rcases hborn.get_some hget with ⟨rfl, rfl⟩ | ⟨-, c, hc, hkept⟩
    · exact ⟨cookie.ticket.clientId, by rw [hsessions]; exact Function.update_self ..⟩
    · -- whichever connection had the session was closed
      have hne : c.role.session ≠ (e.openSession cookie).2.1 := by
        intro heq
        refine takeOver_closes (e := (e.openSession cookie).1) (by rw [openSession_connections]; exact hs)
          (fun h₁ c₁ hget₁ hopen₁ hsession₁ => ?_) hc heq (hkept.open_of hopen)
        rw [openSession_connections] at hget₁
        rw [hopened, ← hsession₁]
        exact h.holds h₁ c₁ hget₁ hopen₁
      obtain ⟨c₀, hc₀, hkept₀⟩ := hupdated.get_some hc
      rw [hsessions, hkept.session_eq, Function.update_of_ne hne, hkept₀.session_eq]
      exact h.holds h' c₀ hc₀ (hkept₀.open_of (hkept.open_of hopen))
  · rw [hsessions] at hrecord
    rw [hsuspended]
    rcases update_eq_some hrecord with ⟨-, hnew⟩ | ⟨-, hold⟩
    · cases hnew
    · exact h.queued session owner since hold
  · rw [hsessions] at hrecord
    rcases update_eq_some hrecord with ⟨rfl, -⟩ | ⟨-, hold⟩
    · rcases e.openSession_cases cookie with ⟨session, hsession, heq⟩ | ⟨-, heq⟩
      · obtain ⟨record, hrecord, -⟩ := checkTicket_session hcheck hsession
        rw [heq]
        exact (h.drawn session record hrecord).congr hfixed hle
      · refine ⟨e.nextSessionSequence, by rw [hsequence, heq]; exact Nat.lt_succ_self _, ?_⟩
        simp only [fixed, Prod.mk.injEq] at hfixed
        rw [heq, shard, shard, hfixed.1]
    · exact (h.drawn session record hold).congr hfixed hle

theorem reachable_attended (h : Lts.Reachable (sys suite) e) : e.Attended := by
  have hall : e.Routed ∧ e.Attended := by
    refine Lts.Reach.invariant (P := fun e => e.Routed ∧ e.Attended) ?_ ?_ h
    · rintro _ ⟨config, backendKey, channels, hasher, rfl⟩
      exact ⟨new_routed config backendKey channels hasher, new_attended config backendKey channels hasher⟩
    · rintro s op s' - hs - rfl
      refine after_keeps suite (P := fun e => e.Routed ∧ e.Attended) (fun _ _ _ hturn h => ?_) ?_ s op hs
      · exact ⟨hturn.routed h.1, h.2.turn h.1.sound hturn⟩
      · intro now sender datagram cookie e hadmits h
        exact ⟨admit_routed h.1 sender cookie, h.2.admitPlayer h.1.sound sender hadmits.check⟩
  exact hall.2

/-! ## Owners -/

/-- A turn leaves each session it keeps to its owner. -/
theorem Turn.owner (h : Turn now e e') (hs : e.connections.Sound) {session : SessionId} {record : Session}
    (hrecord : e'.sessions session = some record) :
    ∃ record', e.sessions session = some record' ∧ record'.owner = record.owner := by
  cases h.roster hs with
  | same hsessions => exact ⟨record, hsessions ▸ hrecord, rfl⟩
  | detached handle conn reason _ _ _ hsessions =>
    rw [hsessions] at hrecord
    rcases detach_cases e handle conn.role.session reason now with ⟨-, hsame⟩ | ⟨owner, new, hlive, hgone, hnew⟩
    · exact ⟨record, hsame ▸ hrecord, rfl⟩
    · rw [hgone] at hrecord
      rcases update_eq_some hrecord with ⟨rfl, hsome⟩ | ⟨-, hold⟩
      · exact ⟨_, hlive, by rw [(hnew record hsome).1]⟩
      · exact ⟨record, hold, rfl⟩
  | expired since at_ _ _ hsessions =>
    rw [hsessions] at hrecord
    rcases update_eq_some hrecord with ⟨-, hnone⟩ | ⟨-, hold⟩
    · cases hnone
    · exact ⟨record, hold, rfl⟩
  | skipped since at_ _ _ hsessions => exact ⟨record, hsessions ▸ hrecord, rfl⟩

theorem Turns.owner (h : Turns now e e') (hs : e.connections.Sound) {session : SessionId} {record : Session}
    (hrecord : e'.sessions session = some record) :
    ∃ record', e.sessions session = some record' ∧ record'.owner = record.owner := by
  have hall : e'.connections.Sound ∧ ∀ session record, e'.sessions session = some record →
      ∃ record', e.sessions session = some record' ∧ record'.owner = record.owner := by
    refine h.invariant (P := fun e' => e'.connections.Sound ∧ ∀ session record, e'.sessions session = some record →
      ∃ record', e.sessions session = some record' ∧ record'.owner = record.owner) ?_
      ⟨hs, fun _ record h => ⟨record, h, rfl⟩⟩
    rintro e₁ e₂ hturn ⟨hs₁, hall⟩
    refine ⟨(hturn.thinned hs₁).sound, fun session record hrecord => ?_⟩
    obtain ⟨record₁, hrecord₁, howner₁⟩ := hturn.owner hs₁ hrecord
    obtain ⟨record₀, hrecord₀, howner₀⟩ := hall session record₁ hrecord₁
    exact ⟨record₀, hrecord₀, howner₀.trans howner₁⟩
  exact hall.2 session record hrecord

/-- An admission leaves a session to its owner: the ticket that resumes it is
theirs, and one newly drawn was nobody's. -/
theorem Attended.admit_owner (h : e.Attended) (hs : e.connections.Sound) {sender : SocketAddr} {cookie : Cookie}
    (hcheck : e.checkTicket now cookie.ticket = .ok ())
    (hfew : (e.admitPlayer suite now sender cookie).1.nextSessionSequence ≤ 2 ^ 56) {session : SessionId}
    {record record' : Session} (hbefore : e.sessions session = some record)
    (hafter : (e.admitPlayer suite now sender cookie).1.sessions session = some record') : record'.owner = record.owner := by
  obtain ⟨-, hsequence, hdone⟩ := admit_records suite now hs sender cookie
  rw [hsequence] at hfew
  rcases hdone with ⟨hsessions, -⟩ | ⟨handle, hsessions, -⟩
  · rw [hsessions, hbefore] at hafter
    cases hafter
    rfl
  · rw [hsessions] at hafter
    rcases update_eq_some hafter with ⟨heq, hnew⟩ | ⟨-, hold⟩
    · cases hnew
      rcases e.openSession_cases cookie with ⟨resumed, hsession, hopen⟩ | ⟨-, hopen⟩
      · obtain ⟨held, hheld, howner⟩ := checkTicket_session hcheck hsession
        rw [hopen] at heq
        obtain rfl : session = resumed := heq
        cases hheld.symm.trans hbefore
        exact howner.symm
      · rw [hopen] at heq hfew
        dsimp only at heq hfew
        obtain ⟨n, hn, hid⟩ := h.drawn session record hbefore
        have := SessionId.new_inj (by omega) (by omega) (hid.symm.trans heq)
        omega
    · cases hbefore.symm.trans hold
      rfl

/-- **Sessions and connections agree**, in every state an endpoint reaches:
* a session recorded live on a handle has a connection there that serves it;
* an open connection is the one its session is recorded live on, so a session
  has one open connection at most;
* a suspended session is queued, under the time it was suspended at;
* while the sequence has drawn fewer than `2 ^ 56` ids, no call gives a session
  in the table another owner;
* a connection that a ticket naming a session brings serves that session, and
  the ticket's client owns it. -/
theorem sessions_agree (h : Lts.Reachable (sys suite) e) :
    (∀ session owner handle, e.sessions session = some ⟨owner, .live handle⟩ →
      ∃ conn, e.connections.get handle = some conn ∧ conn.role.session = session) ∧
    (∀ handle conn, e.connections.get handle = some conn → conn.lifecycle = .open →
      (∃ owner, e.sessions conn.role.session = some ⟨owner, .live handle⟩) ∧
      ∀ handle' conn', e.connections.get handle' = some conn' → conn'.lifecycle = .open →
        conn'.role.session = conn.role.session → handle' = handle) ∧
    (∀ session owner since, e.sessions session = some ⟨owner, .suspended since⟩ → (since, session) ∈ e.suspended) ∧
    ∀ op,
      ((e.after suite op).nextSessionSequence ≤ 2 ^ 56 → ∀ session record record', e.sessions session = some record →
        (e.after suite op).sessions session = some record' → record'.owner = record.owner) ∧
      ∀ handle conn, e.connections.get handle = none → (e.after suite op).connections.get handle = some conn →
        ∃ now sender datagram draws cookie, op = .handleDatagram now sender datagram draws ∧
          e.openResponse suite now sender datagram = .ok cookie ∧
          ∀ session, cookie.ticket.session = some session → conn.role.session = session ∧
            ∃ record, e.sessions session = some record ∧ record.owner = cookie.ticket.clientId := by
  have hattended := reachable_attended h
  have hs := (reachable_routed h).sound
  refine ⟨hattended.live, fun handle conn hget hopen => ⟨hattended.holds handle conn hget hopen, ?_⟩, hattended.queued,
    fun op => ⟨fun hfew session record record' hbefore hafter => ?_, fun handle conn hnone hget => ?_⟩⟩
  · intro handle' conn' hget' hopen' hsession
    obtain ⟨owner, hlive⟩ := hattended.holds handle conn hget hopen
    obtain ⟨owner', hlive'⟩ := hattended.holds handle' conn' hget' hopen'
    rw [hsession, hlive] at hlive'
    cases hlive'
    rfl
  · obtain ⟨now, hnow⟩ := op.exists_time
    rcases e.after_cases suite op hnow with hturns | ⟨sender, datagram, draws, cookie, hop, hadmits, heq⟩
    · obtain ⟨record₀, hrecord₀, howner⟩ := hturns.owner hs hafter
      cases hbefore.symm.trans hrecord₀
      exact howner.symm
    · rw [hop, after, heq] at hfew hafter
      exact (hattended.turn hs (e.paid_turn now sender)).admit_owner hs hadmits.check hfew hbefore hafter
  · obtain ⟨now, sender, datagram, draws, cookie, _, hop, hadmits, rfl, -, rfl⟩ := after_born suite hs hget hnone
    refine ⟨now, sender, datagram, draws, cookie, hop, hadmits.opened, fun named hnamed => ⟨?_, ?_⟩⟩
    · show ((e.paid now sender).openSession cookie).2.1 = named
      rw [openSession, hnamed]
    · exact checkTicket_session hadmits.check hnamed

/-! ### One player -/

/-- The session of the one player admitted. -/
theorem sessions_agree_greeted :
    ∃ conn, greeted.connections.get first = some conn ∧ conn.role.session = .new 1 0 := by
  refine (sessions_agree greeted_reachable).1 (.new 1 0) visitor.clientId first ?_
  decide +kernel

end Endpoint
end HexNet
