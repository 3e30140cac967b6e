/-
What a server's driver does with what it receives and what comes out. The
socket is one that records (`Recorder`): what it gave, what it was offered and
how much of that was taken. A step's commands are described from both sides:
the calls the endpoint was given (`Move`), and what went into the outbox and on
to the socket (`Carried`).

* `steps_exact`: over any number of steps every datagram received is handled
  once, in order, and what the endpoint produced is offered to the socket once,
  in order, however the batches fall.
* `shutdown_server_empties`: a server that is shut down is left with no
  connection, within as many steps as it has notices and batches to go.
-/
import HexNet.Driver
import HexNet.Lib.Command

namespace HexNet

open Command Endpoint

/-! ## A socket that records -/

structure Recorder (S : Type) where
  inner : S
  received : List Received
  offered : List Transmit
  taken : Nat

instance {S : Type} [Socket S] : Socket (Recorder S) where
  recvBatch s :=
    let r := Socket.recvBatch s.inner
    ({ s with inner := r.1, received := s.received ++ (r.2.toOption.getD []) }, r.2)
  sendBatch s transmits :=
    let r := Socket.sendBatch s.inner transmits
    ({ s with
        inner := r.1
        offered := s.offered ++ transmits
        taken := s.taken + min (r.2.toOption.getD 0) transmits.length }, r.2)

theorem Recorder.recv_ok {S : Type} [Socket S] {s s' : Recorder S} {batch : List Received}
    (h : Socket.recvBatch s = (s', .ok batch)) :
    (∃ inner, Socket.recvBatch s.inner = (inner, .ok batch)) ∧
      s' = { s with inner := s'.inner, received := s.received ++ batch } := by
  have hs : s' = { s with inner := (Socket.recvBatch s.inner).1
                          received := s.received ++ ((Socket.recvBatch s.inner).2.toOption.getD []) } :=
    (congrArg Prod.fst h).symm
  have hbatch : (Socket.recvBatch s.inner).2 = .ok batch := congrArg Prod.snd h
  rw [hbatch] at hs
  exact ⟨⟨_, Prod.ext rfl hbatch⟩, by rw [hs]; rfl⟩

instance {S : Type} [Socket S] [LawfulSocket S] : LawfulSocket (Recorder S) where
  recv_le h := by
    obtain ⟨⟨inner, hinner⟩, -⟩ := Recorder.recv_ok h
    exact LawfulSocket.recv_le hinner

/-! ## Into the outbox and out of it -/

/-- The datagrams some packets are sent as. -/
def transmitsOf (packets : List (Destinations × List UInt8)) : List Transmit :=
  packets.flatMap fun packet => packet.1.transmits packet.2

theorem transmitsOf_append (ps qs : List (Destinations × List UInt8)) :
    transmitsOf (ps ++ qs) = transmitsOf ps ++ transmitsOf qs := List.flatMap_append

theorem Outbox.commit_some {o o' : Outbox} {dest : Destinations} {bytes : List UInt8}
    (h : o.commit dest bytes = some o') : o'.queued = o.queued ++ [(dest, bytes)] := by
  unfold Outbox.commit at h
  split at h
  · cases h
    rfl
  · cases h

theorem Outbox.isFull_iff {o : Outbox} : o.isFull = true ↔ o.queued.length = sendBatch := beq_iff_eq

theorem Outbox.lt_of_room {o : Outbox} (h : o.isFull = false) : o.queued.length < sendBatch := by
  refine Nat.lt_of_le_of_ne o.queued_le fun hfull => ?_
  rw [isFull_iff.2 hfull] at h
  cases h

theorem Outbox.room_of_empty {o : Outbox} (h : o.queued = []) : o.isFull = false := by
  rw [Outbox.isFull, h]
  rfl

theorem Outbox.commit_of_room {o : Outbox} (h : o.isFull = false) (dest : Destinations) (bytes : List UInt8) :
    ∃ o', o.commit dest bytes = some o' := ⟨_, dif_pos (lt_of_room h)⟩

/-- A flush fits the arrays it is given: no packet has more than two
destinations. -/
theorem Outbox.transmits_le (o : Outbox) : o.transmits.length ≤ maxTransmits := by
  have htwo : ∀ packets : List (Destinations × List UInt8), (transmitsOf packets).length ≤ packets.length * 2 := by
    intro packets
    induction packets with
    | nil => exact Nat.zero_le _
    | cons packet packets ih =>
      have hone : (packet.1.transmits packet.2).length ≤ 2 := by
        unfold Destinations.transmits
        exact Nat.le_trans (List.length_filterMap_le ..) (Nat.le_refl 2)
      rw [transmitsOf, List.flatMap_cons, List.length_append, List.length_cons]
      unfold transmitsOf at ih
      omega
  have hqueued := o.queued_le
  exact Nat.le_trans (htwo o.queued) (by unfold maxTransmits; omega)

/-- A flush offers the socket all there is, and counts what it did not take. -/
theorem Outbox.flush_cases {S : Type} [Socket S] (o : Outbox) (s : Recorder S) (n : Nat) :
    (o.queued = [] ∧ o.flush s n = (o, s, .ok n)) ∨ (∃ s' code, o.flush s n = (.empty, s', .error code)) ∨
      ∃ s' n', o.flush s n = (.empty, s', .ok n') ∧ s'.offered = s.offered ++ o.transmits ∧ s'.received = s.received ∧
        n' + s'.taken + s.offered.length = n + s.taken + s'.offered.length := by
  unfold Outbox.flush
  split
  next hempty => exact .inl ⟨List.isEmpty_iff.1 hempty, rfl⟩
  · dsimp only [Socket.sendBatch]
    cases hsent : (Socket.sendBatch s.inner o.transmits).2 with
    | error code => exact .inr (.inl ⟨_, code, rfl⟩)
    | ok taken =>
      refine .inr (.inr ⟨_, _, rfl, rfl, rfl, ?_⟩)
      simp only [Except.toOption, Option.getD_some, List.length_append]
      omega

namespace ServerDriver

variable {S A : Type} {suite : Suite} {now : Timestamp}

/-- The packets `ps` came into the outbox, and whatever left it was offered to
the socket. -/
structure Carried (ps : List (Destinations × List UInt8)) (d d' : ServerDriver (Recorder S) A) : Prop where
  offered_eq : d'.socket.offered ++ d'.outbox.transmits =
    d.socket.offered ++ d.outbox.transmits ++ transmitsOf ps
  counted : d'.sendFailures + d'.socket.taken + d.socket.offered.length =
    d.sendFailures + d.socket.taken + d'.socket.offered.length
  received_eq : d'.socket.received = d.socket.received

variable {d d' d'' : ServerDriver (Recorder S) A} {ps qs : List (Destinations × List UInt8)}

theorem Carried.refl (d : ServerDriver (Recorder S) A) : Carried [] d d :=
  ⟨by rw [transmitsOf, List.flatMap_nil, List.append_nil], rfl, rfl⟩

theorem Carried.trans (h : Carried ps d d') (h' : Carried qs d' d'') : Carried (ps ++ qs) d d'' := by
  refine ⟨?_, ?_, h'.received_eq.trans h.received_eq⟩
  · rw [h'.offered_eq, h.offered_eq, transmitsOf_append, List.append_assoc]
  · have := h.counted
    have := h'.counted
    omega

/-- Commands that touch neither socket nor outbox carry nothing. -/
theorem Carried.still (hsocket : d'.socket = d.socket) (houtbox : d'.outbox = d.outbox)
    (hfailures : d'.sendFailures = d.sendFailures) : Carried [] d d' := by
  refine ⟨?_, ?_, by rw [hsocket]⟩
  · rw [hsocket, houtbox, transmitsOf, List.flatMap_nil, List.append_nil]
  · rw [hsocket, hfailures]

variable [Socket S]

/-- What a flush does, if the socket does not fail. -/
theorem flush_spec (d : ServerDriver (Recorder S) A) : Meets (· = d) (flush (S := Recorder S) (A := A))
    (fun _ d' => Carried [] d d' ∧ d'.endpoint = d.endpoint ∧ d'.outbox.queued = []) (· ≠ .panic) := by
  refine Meets.start ?_
  unfold flush
  rw [if_neg (Nat.not_lt.2 d.outbox.transmits_le)]
  rcases d.outbox.flush_cases d.socket d.sendFailures with ⟨hempty, heq⟩ | ⟨s', code, heq⟩ |
    ⟨s', n', heq, hoffered, hreceived, hcounted⟩
  · rw [heq]
    exact ⟨.still rfl rfl rfl, rfl, hempty⟩
  · rw [heq]
    nofun
  · rw [heq]
    refine ⟨⟨?_, hcounted, hreceived⟩, rfl, rfl⟩
    rw [transmitsOf, List.flatMap_nil, List.append_nil, ← hoffered]
    exact List.append_nil _

omit [Socket S] in
theorem push_spec (d : ServerDriver (Recorder S) A) (addr : SocketAddr) (bytes : List UInt8)
    (hroom : d.outbox.isFull = false) :
    Meets (· = d) (push addr bytes) (fun _ d' => Carried [(⟨addr, none⟩, bytes.take maxDatagram)] d d' ∧
      d'.endpoint = d.endpoint) (· ≠ .panic) := by
  refine Meets.start ?_
  obtain ⟨o', ho'⟩ := Outbox.commit_of_room hroom ⟨addr, none⟩ (bytes.take maxDatagram)
  have hpush : d.outbox.push addr bytes = some o' := ho'
  unfold push
  rw [hpush]
  refine ⟨⟨?_, rfl, rfl⟩, rfl⟩
  rw [Outbox.transmits, Outbox.commit_some ho', List.append_assoc]
  exact congrArg _ (transmitsOf_append ..)

/-- Room is made for a reply, so it is queued. -/
theorem respond_spec (d : ServerDriver (Recorder S) A) (addr : SocketAddr) (bytes : List UInt8) :
    Meets (· = d) (respond addr bytes) (fun _ d' => Carried [(⟨addr, none⟩, bytes.take maxDatagram)] d d' ∧
      d'.endpoint = d.endpoint) (· ≠ .panic) := by
  unfold respond
  refine (Meets.get d).bind fun seen => Meets.of_start fun d₁ hd => ?_
  obtain ⟨rfl, rfl⟩ := hd
  refine Meets.ite (fun _ => ?_) fun hroom => push_spec d₁ addr bytes (by simpa using hroom)
  refine (flush_spec d₁).bind fun _ => Meets.of_start fun d₂ hflushed => ?_
  obtain ⟨hcarried, hendpoint, hempty⟩ := hflushed
  refine (push_spec d₂ addr bytes (Outbox.room_of_empty hempty)).weaken (fun _ hs => hs) fun _ d₃ hpushed => ?_
  exact ⟨hcarried.trans hpushed.1, hpushed.2.trans hendpoint⟩

end ServerDriver

/-! ## What the endpoint is given -/

/-- The packets a call to an endpoint gives its caller to send. -/
def EndpointOp.produced (suite : Suite) (e : Endpoint) : EndpointOp → List (Destinations × List UInt8)
  | .handleDatagram now sender datagram draws =>
    match (e.handleDatagram suite now sender datagram draws).2.1 with
    | .respond addr out => [(⟨addr, none⟩, out.take maxDatagram)]
    | _ => []
  | .drainTransmits now slots => (Endpoint.drainTransmits now slots e).2
  | _ => []

/-- A call made by the driver, or by the application in its `update`. -/
inductive Move
  | own (op : EndpointOp)
  | app (op : EndpointOp)

namespace Move

def op : Move → EndpointOp
  | .own op | .app op => op

/-- What the driver is to send for it. -/
def produced (suite : Suite) (e : Endpoint) : Move → List (Destinations × List UInt8)
  | .own op => op.produced suite e
  | .app _ => []

/-- The datagram the driver handed over. -/
def arrival : Move → Option (Timestamp × SocketAddr × List UInt8)
  | .own (.handleDatagram now sender datagram _) => some (now, sender, datagram)
  | _ => none

end Move

def Received.arrival (r : Received) : Timestamp × SocketAddr × List UInt8 := (r.at_, r.sender, r.bytes.take maxDatagram)

def Received.op (r : Received) : EndpointOp := .handleDatagram r.at_ r.sender (r.bytes.take maxDatagram) r.draws

/-- An endpoint after some moves. -/
def moved (suite : Suite) (e : Endpoint) (moves : List Move) : Endpoint := moves.foldl (fun e m => e.after suite m.op) e

/-- What the driver is to send for them, one after another. -/
def outputs (suite : Suite) : Endpoint → List Move → List (Destinations × List UInt8)
  | _, [] => []
  | e, m :: ms => m.produced suite e ++ outputs suite (e.after suite m.op) ms

theorem moved_append (suite : Suite) (e : Endpoint) (ms ns : List Move) :
    moved suite e (ms ++ ns) = moved suite (moved suite e ms) ns := List.foldl_append

theorem outputs_append (suite : Suite) (e : Endpoint) (ms ns : List Move) :
    outputs suite e (ms ++ ns) = outputs suite e ms ++ outputs suite (moved suite e ms) ns := by
  induction ms generalizing e with
  | nil => rfl
  | cons m ms ih => rw [List.cons_append, outputs, outputs, ih, List.append_assoc]; rfl

theorem outputs_one (suite : Suite) (e : Endpoint) (m : Move) : outputs suite e [m] = m.produced suite e := List.append_nil _

/-- One drain after another is a longer drain. -/
theorem Endpoint.drainTransmits_add (now : Timestamp) (m n : Nat) (e : Endpoint) :
    drainTransmits now (List.replicate (m + n) Connection.blank) e =
      let first := drainTransmits now (List.replicate m Connection.blank) e
      let second := drainTransmits now (List.replicate n Connection.blank) first.1
      (second.1, first.2 ++ second.2) := by
  induction m generalizing e with
  | zero => rw [Nat.zero_add]; rfl
  | succ m ih =>
    rw [Nat.succ_add, List.replicate_succ, List.replicate_succ, drainTransmits, drainTransmits]
    cases hready : e.ready with
    | nil =>
      have hidle : drainTransmits now (List.replicate n Connection.blank) e = (e, []) := by
        cases n with
        | zero => rfl
        | succ n => rw [List.replicate_succ, drainTransmits, hready]
      dsimp only
      rw [hidle]
      rfl
    | cons handle ready =>
      dsimp only
      rw [ih]
      dsimp only
      rw [List.append_assoc]

theorem Endpoint.drainOne_length (e : Endpoint) (now : Timestamp) (handle : Handle) (slot : Packet) :
    (e.drainOne now handle slot).2.length ≤ 1 := by
  unfold drainOne
  split
  · exact Nat.zero_le _
  next conn _ =>
    dsimp only
    cases (conn.pollTransmit now slot).2 with
    | none => exact Nat.zero_le _
    | some datagram => exact Nat.le_refl _

/-- A turn of the drain: what comes of it is queued, there being room. -/
theorem Endpoint.drainInto_turn {e : Endpoint} {handle : Handle} {ready : List Handle} (hready : e.ready = handle :: ready)
    {o : Outbox} (hroom : o.isFull = false) (now : Timestamp) (fuel : Nat) :
    ∃ o₁, drainInto now (fuel + 1) e o = drainInto now fuel ({ e with ready }.drainOne now handle Connection.blank).1 o₁ ∧
      o₁.queued = o.queued ++ ({ e with ready }.drainOne now handle Connection.blank).2 := by
  have hone := drainOne_length { e with ready } now handle Connection.blank
  rw [drainInto, hready]
  dsimp only
  rw [hroom, if_neg Bool.false_ne_true]
  generalize ({ e with ready }.drainOne now handle Connection.blank) = r at hone ⊢
  obtain ⟨e₁, packets⟩ := r
  cases packets with
  | nil => exact ⟨o, rfl, (List.append_nil _).symm⟩
  | cons packet packets =>
    obtain rfl : packets = [] := List.eq_nil_of_length_eq_zero (by simpa using hone)
    obtain ⟨o₁, ho₁⟩ := Outbox.commit_of_room hroom packet.1 packet.2
    dsimp only
    rw [ho₁]
    exact ⟨o₁, rfl, Outbox.commit_some ho₁⟩

/-- Draining into an outbox is a drain that stops when it is full. -/
theorem Endpoint.drainInto_spec (now : Timestamp) (fuel : Nat) (e : Endpoint) (o : Outbox) :
    ∃ n o', drainInto now fuel e o = ((drainTransmits now (List.replicate n Connection.blank) e).1, some o') ∧
      o'.queued = o.queued ++ (drainTransmits now (List.replicate n Connection.blank) e).2 ∧
      (drainInto now fuel e o).1.ready.length + o'.queued.length ≤ e.ready.length + o.queued.length ∧
      (e.ready.length ≤ fuel → o'.isFull = true ∨ (drainInto now fuel e o).1.ready = []) := by
  induction fuel generalizing e o with
  | zero =>
    refine ⟨0, o, rfl, (List.append_nil _).symm, Nat.le_refl _, fun hfuel => .inr ?_⟩
    exact List.eq_nil_of_length_eq_zero (Nat.le_zero.1 hfuel)
  | succ fuel ih =>
    cases hready : e.ready with
    | nil =>
      rw [drainInto, hready]
      exact ⟨0, o, rfl, (List.append_nil _).symm, by simp [hready], fun _ => .inr hready⟩
    | cons handle ready =>
      cases hfull : o.isFull with
      | true =>
        rw [drainInto, hready]
        dsimp only
        rw [if_pos hfull]
        exact ⟨0, o, rfl, (List.append_nil _).symm, by simp [hready], fun _ => .inl hfull⟩
      | false =>
        obtain ⟨o₁, hturn, hqueued₁⟩ := drainInto_turn hready hfull now fuel
        have hrest : ({ e with ready }.drainOne now handle Connection.blank).1.ready = ready := by
          obtain ⟨_, _, _, _, heq⟩ := ({ e with ready } : Endpoint).drainOne_frame handle now Connection.blank
          rw [heq]
        have hone := drainOne_length { e with ready } now handle Connection.blank
        obtain ⟨n, o', heq, hqueued, hless, hdone⟩ := ih ({ e with ready }.drainOne now handle Connection.blank).1 o₁
        refine ⟨n + 1, o', ?_⟩
        rw [hturn, List.replicate_succ, drainTransmits, hready]
        rw [hrest, hqueued₁, List.length_append] at hless
        refine ⟨heq, ?_, ?_, fun hfuel => hdone ?_⟩
        · rw [hqueued, hqueued₁, List.append_assoc]
        · rw [List.length_cons]
          omega
        · rw [hrest]
          exact Nat.le_of_succ_le_succ hfuel

namespace ServerDriver

variable {S A : Type} [Socket S] {suite : Suite} {now : Timestamp}

/-! ## Transmitting -/

omit [Socket S] in
theorem drain_spec (d : ServerDriver (Recorder S) A) (now : Timestamp) :
    Meets (· = d) (drain now) (fun _ d' => ∃ n,
      d'.endpoint = (drainTransmits now (List.replicate n Connection.blank) d.endpoint).1 ∧
      Carried (drainTransmits now (List.replicate n Connection.blank) d.endpoint).2 d d' ∧
      d'.endpoint.ready.length + d'.outbox.queued.length ≤ d.endpoint.ready.length + d.outbox.queued.length ∧
      (d'.outbox.isFull = true ∨ d'.endpoint.ready = [])) (· ≠ .panic) := by
  refine Meets.start ?_
  obtain ⟨n, o', heq, hqueued, hless, hdone⟩ := drainInto_spec now d.endpoint.ready.length d.endpoint d.outbox
  unfold drain
  rw [heq] at hless hdone ⊢
  refine ⟨n, rfl, ⟨?_, rfl, rfl⟩, hless, hdone (Nat.le_refl _)⟩
  dsimp only
  rw [Outbox.transmits, hqueued, List.append_assoc]
  exact congrArg _ (transmitsOf_append ..)

/-- The loop ends, with nothing ready and nothing queued. -/
theorem transmitLoop_spec (now : Timestamp) {fuel : Nat} {d : ServerDriver (Recorder S) A}
    (hfuel : d.endpoint.ready.length + d.outbox.isFull.toNat < fuel) :
    Meets (· = d) (transmitLoop now fuel) (fun _ d' => ∃ n,
      d'.endpoint = (drainTransmits now (List.replicate n Connection.blank) d.endpoint).1 ∧
      Carried (drainTransmits now (List.replicate n Connection.blank) d.endpoint).2 d d' ∧
      d'.endpoint.ready = [] ∧ d'.outbox.queued = []) (· ≠ .panic) := by
  induction fuel generalizing d with
  | zero => exact absurd hfuel (Nat.not_lt_zero _)
  | succ fuel ih =>
    unfold transmitLoop
    refine (drain_spec d now).bind fun _ => Meets.of_start fun d₁ hdrained => ?_
    obtain ⟨n, hendpoint, hcarried, hless, hdone⟩ := hdrained
    refine (Meets.get d₁).bind fun seen => Meets.of_start fun d₁' hseen => ?_
    obtain ⟨rfl, rfl⟩ := hseen
    refine (flush_spec d₁').bind fun _ => Meets.of_start fun d₂ hflushed => ?_
    obtain ⟨hcarried₂, hsame, hempty⟩ := hflushed
    have hcarried := hcarried.trans hcarried₂
    rw [List.append_nil] at hcarried
    refine Meets.ite (fun hfilled => ?_) fun hroom => ?_
    · -- the outbox filled, so it was full before or a connection has had its turn
      refine (ih (d := d₂) ?_).weaken (fun _ hs => hs) fun _ d₃ hrest => ?_
      · have hlen := Outbox.isFull_iff.1 hfilled
        rw [hsame, Outbox.room_of_empty hempty, Bool.toNat_false, Nat.add_zero]
        cases hfull : d.outbox.isFull with
        | true =>
          have hbefore := Outbox.isFull_iff.1 hfull
          rw [hfull, Bool.toNat_true] at hfuel
          omega
        | false =>
          have hbefore := Outbox.lt_of_room hfull
          rw [hfull, Bool.toNat_false] at hfuel
          omega
      · obtain ⟨m, hendpoint₃, hcarried₃, hready, hqueued⟩ := hrest
        rw [hsame, hendpoint] at hendpoint₃ hcarried₃
        refine ⟨n + m, ?_, ?_, hready, hqueued⟩
        · rw [drainTransmits_add]
          exact hendpoint₃
        · rw [drainTransmits_add]
          exact hcarried.trans hcarried₃
    · refine Meets.pure _ fun d₃ hd => ?_
      subst hd
      have hready := hdone.resolve_left hroom
      exact ⟨n, by rw [hsame, hendpoint], hcarried, by rw [hsame]; exact hready, hempty⟩

theorem transmit_spec (d : ServerDriver (Recorder S) A) (now : Timestamp) :
    Meets (· = d) (transmit now) (fun _ d' => ∃ n,
      d'.endpoint = (drainTransmits now (List.replicate n Connection.blank) d.endpoint).1 ∧
      Carried (drainTransmits now (List.replicate n Connection.blank) d.endpoint).2 d d' ∧
      d'.endpoint.ready = [] ∧ d'.outbox.queued = []) (· ≠ .panic) := by
  unfold transmit
  refine (Meets.get d).bind fun seen => Meets.of_start fun d₁ hd => ?_
  obtain ⟨rfl, rfl⟩ := hd
  refine transmitLoop_spec now ?_
  have := Bool.toNat_le d₁.outbox.isFull
  omega

/-! ## A step -/

/-- From `d` to `d'` the endpoint made `moves`. All that the socket gave was
handed over, but for `pending`; all they produced is in the outbox or was
offered to the socket. -/
structure Exchange (suite : Suite) (pending : List Received) (d d' : ServerDriver (Recorder S) A) (moves : List Move) :
    Prop where
  endpoint_eq : d'.endpoint = moved suite d.endpoint moves
  received_eq : d'.socket.received.map Received.arrival =
    d.socket.received.map Received.arrival ++ moves.filterMap Move.arrival ++ pending.map Received.arrival
  offered_eq : d'.socket.offered ++ d'.outbox.transmits =
    d.socket.offered ++ d.outbox.transmits ++ transmitsOf (outputs suite d.endpoint moves)
  counted : d'.sendFailures + d'.socket.taken + d.socket.offered.length =
    d.sendFailures + d.socket.taken + d'.socket.offered.length

omit [Socket S] in
theorem Exchange.refl (d : ServerDriver (Recorder S) A) : Exchange suite [] d d [] :=
  ⟨rfl, by simp, by simp [outputs, transmitsOf], rfl⟩

variable {d d₁ d₂ : ServerDriver (Recorder S) A} {pending pending' : List Received} {moves ms : List Move}

omit [Socket S] in
/-- More moves: what they produced adds to what was offered or queued. -/
theorem Exchange.extend (h : Exchange suite pending d d₁ moves) (hendpoint : d₂.endpoint = moved suite d₁.endpoint ms)
    (hreceived : d₂.socket.received.map Received.arrival =
      d.socket.received.map Received.arrival ++ (moves ++ ms).filterMap Move.arrival ++ pending'.map Received.arrival)
    (hoffered : d₂.socket.offered ++ d₂.outbox.transmits =
      d₁.socket.offered ++ d₁.outbox.transmits ++ transmitsOf (outputs suite d₁.endpoint ms))
    (hcounted : d₂.sendFailures + d₂.socket.taken + d₁.socket.offered.length =
      d₁.sendFailures + d₁.socket.taken + d₂.socket.offered.length) :
    Exchange suite pending' d d₂ (moves ++ ms) := by
  refine ⟨?_, hreceived, ?_, ?_⟩
  · rw [hendpoint, h.endpoint_eq, moved_append]
  · rw [hoffered, h.offered_eq, outputs_append, ← h.endpoint_eq, transmitsOf_append, List.append_assoc]
  · have := h.counted
    omega

omit [Socket S] in
theorem Exchange.carry (h : Exchange suite pending d d₁ moves) (ms : List Move)
    (hcarried : Carried (outputs suite d₁.endpoint ms) d₁ d₂)
    (hendpoint : d₂.endpoint = moved suite d₁.endpoint ms)
    (harrived : pending.map Received.arrival = ms.filterMap Move.arrival ++ pending'.map Received.arrival) :
    Exchange suite pending' d d₂ (moves ++ ms) := by
  refine h.extend hendpoint ?_ hcarried.offered_eq hcarried.counted
  rw [hcarried.received_eq, h.received_eq, harrived, List.filterMap_append]
  simp only [List.append_assoc]

omit [Socket S] in
theorem Exchange.trans (h : Exchange suite [] d d₁ moves) (h' : Exchange suite [] d₁ d₂ ms) :
    Exchange suite [] d d₂ (moves ++ ms) := by
  refine h.extend h'.endpoint_eq ?_ h'.offered_eq h'.counted
  rw [h'.received_eq, h.received_eq, List.filterMap_append]
  simp only [List.map_nil, List.append_nil, List.append_assoc]

/-- The calls after those of `start` are all of a kind, and so are those that the
pending datagrams will make. -/
def Going (suite : Suite) (ok : EndpointOp → Prop) (start : List Move → Prop) (pending : List Received)
    (d d' : ServerDriver (Recorder S) A) : Prop :=
  (∀ r ∈ pending, ok r.op) ∧
    ∃ moves rest, start moves ∧ (∀ m ∈ rest, ok m.op) ∧ Exchange suite pending d d' (moves ++ rest)

variable {ok : EndpointOp → Prop} {start : List Move → Prop}

omit [Socket S] in
theorem Going.carry (h : Going suite ok start pending d d₁) (ms : List Move) (hpending : ∀ r ∈ pending', r ∈ pending)
    (hms : ∀ m ∈ ms, ok m.op) (hcarried : Carried (outputs suite d₁.endpoint ms) d₁ d₂)
    (hendpoint : d₂.endpoint = moved suite d₁.endpoint ms)
    (harrived : pending.map Received.arrival = ms.filterMap Move.arrival ++ pending'.map Received.arrival) :
    Going suite ok start pending' d d₂ := by
  obtain ⟨hok, moves, rest, hstart, hrest, hexchange⟩ := h
  refine ⟨fun r hr => hok r (hpending r hr), moves, rest ++ ms, hstart, fun m hm => ?_, ?_⟩
  · rcases List.mem_append.1 hm with hm | hm
    · exact hrest m hm
    · exact hms m hm
  · rw [← List.append_assoc]
    exact hexchange.carry ms hcarried hendpoint harrived

variable [ServerApp A]

/-- The socket and the application lead only to calls of a kind. -/
structure Allows (S A : Type) [Socket S] [ServerApp A] (ok : EndpointOp → Prop) : Prop where
  received : ∀ {s s' : S} {batch : List Received}, Socket.recvBatch s = (s', .ok batch) → ∀ r ∈ batch, ok r.op
  polled : ok .pollEvent
  updated : ∀ (app : A) (now : Timestamp) (e : Endpoint), ∀ op ∈ (ServerApp.update app now e).2, ok op

/-- A datagram is handed over, and its reply queued. -/
theorem take_spec (r : Received) (rs : List Received) : Meets (Going suite ok start (r :: rs) d) (take suite r)
    (fun _ => Going suite ok start rs d) (· ≠ .panic) := by
  refine Meets.of_start fun d₁ hgoing => ?_
  have hdone : ∀ {d₂ d₃ : ServerDriver (Recorder S) A}, Carried (r.op.produced suite d₁.endpoint) d₂ d₃ →
      d₂.socket = d₁.socket →
      d₂.outbox = d₁.outbox → d₂.sendFailures = d₁.sendFailures → d₃.endpoint = d₁.endpoint.after suite r.op →
      Going suite ok start rs d d₃ := by
    intro d₂ d₃ hcarried hsocket houtbox hfailures hendpoint
    refine hgoing.carry ([.own r.op]) (fun _ hr => List.mem_cons_of_mem _ hr) ?_ ?_ hendpoint rfl
    · intro m hm
      rw [List.mem_singleton.1 hm]
      exact hgoing.1 r List.mem_cons_self
    · rw [outputs_one]
      exact (Carried.still hsocket houtbox hfailures).trans hcarried
  unfold take
  refine Meets.bind (Q := fun action d₂ => action = (d₁.endpoint.handleDatagram suite r.at_ r.sender
      (r.bytes.take maxDatagram) r.draws).2.1 ∧ d₂.socket = d₁.socket ∧ d₂.outbox = d₁.outbox ∧
      d₂.sendFailures = d₁.sendFailures ∧ d₂.endpoint = d₁.endpoint.after suite r.op) (Meets.start ⟨rfl, rfl, rfl, rfl, rfl⟩)
    fun action => Meets.of_start fun d₂ hhandled => ?_
  obtain ⟨haction, hsocket, houtbox, hfailures, hendpoint⟩ := hhandled
  have hquiet : (∀ addr out, action ≠ .respond addr out) → r.op.produced suite d₁.endpoint = [] := by
    intro hnone
    unfold Received.op EndpointOp.produced
    dsimp only
    rw [← haction]
    cases action with
    | respond addr out => exact absurd rfl (hnone addr out)
    | _ => rfl
  cases action with
  | respond addr out =>
    have hproduced : r.op.produced suite d₁.endpoint = [(⟨addr, none⟩, out.take maxDatagram)] := by
      unfold Received.op EndpointOp.produced
      dsimp only
      rw [← haction]
    refine (respond_spec d₂ addr out).weaken (fun _ hs => hs) fun _ d₃ hresponded => ?_
    exact hdone (hproduced ▸ hresponded.1) hsocket houtbox hfailures (hresponded.2.trans hendpoint)
  | _ =>
    refine Meets.pure _ fun d₃ hd => ?_
    subst hd
    exact hdone (by rw [hquiet nofun]; exact Carried.refl _) hsocket houtbox hfailures hendpoint

theorem fill_spec [LawfulSocket S] (hallows : Allows S A ok) :
    Meets (Going suite ok start [] d) (fill (S := Recorder S) (A := A))
    (fun batch => Going suite ok start batch d) (· ≠ .panic) := by
  refine Meets.of_start fun d₁ hgoing => Meets.start ?_
  unfold fill
  cases hrecv : Socket.recvBatch d₁.socket with
  | mk socket result =>
    cases result with
    | error code => nofun
    | ok batch =>
      obtain ⟨⟨inner, hinner⟩, hsocket⟩ := Recorder.recv_ok hrecv
      have hle := LawfulSocket.recv_le hrecv
      dsimp only
      rw [if_neg (by omega)]
      obtain ⟨-, moves, rest, hstart, hrest, hexchange⟩ := hgoing
      refine ⟨hallows.received hinner, moves, rest, hstart, hrest, hexchange.endpoint_eq, ?_, ?_, ?_⟩
      · dsimp only
        rw [hsocket]
        dsimp only
        rw [List.map_append, hexchange.received_eq, List.map_nil, List.append_nil]
      · dsimp only
        rw [hsocket]
        exact hexchange.offered_eq
      · dsimp only
        rw [hsocket]
        exact hexchange.counted

omit [Socket S] in
theorem deliver_polls (suite : Suite) (fuel : Nat) (d : ServerDriver (Recorder S) A) : ∃ n,
    (deliver fuel d).endpoint = moved suite d.endpoint (List.replicate n (.own .pollEvent)) ∧
      (deliver fuel d).socket = d.socket ∧ (deliver fuel d).outbox = d.outbox ∧
      (deliver fuel d).sendFailures = d.sendFailures := by
  induction fuel generalizing d with
  | zero => exact ⟨0, rfl, rfl, rfl, rfl⟩
  | succ fuel ih =>
    rw [deliver]
    split
    · exact ⟨0, rfl, rfl, rfl, rfl⟩
    next event _ =>
      obtain ⟨n, hendpoint, hsocket, houtbox, hfailures⟩ :=
        ih { d with endpoint := d.endpoint.pollEvent.1, app := ServerApp.onEvent d.app event }
      exact ⟨n + 1, hendpoint, hsocket, houtbox, hfailures⟩

omit [Socket S] [ServerApp A] in
theorem outputs_replicate (suite : Suite) (e : Endpoint) (n : Nat) :
    outputs suite e (List.replicate n (.own .pollEvent)) = [] := by
  induction n generalizing e with
  | zero => rfl
  | succ n ih => rw [List.replicate_succ, outputs, ih]; rfl

omit [Socket S] in
theorem deliverEvents_spec (hpolled : ok .pollEvent) : Meets (Going suite ok start [] d)
    (deliverEvents (S := Recorder S) (A := A)) (fun _ => Going suite ok start [] d) (· ≠ .panic) := by
  refine Meets.of_start fun d₁ hgoing => Meets.start ?_
  obtain ⟨n, hendpoint, hsocket, houtbox, hfailures⟩ := deliver_polls suite d₁.endpoint.events.length d₁
  refine hgoing.carry (List.replicate n (.own .pollEvent)) (fun _ hr => hr) ?_ ?_ hendpoint ?_
  · intro m hm
    rw [List.eq_of_mem_replicate hm]
    exact hpolled
  · rw [outputs_replicate]
    exact .still hsocket houtbox hfailures
  · rw [List.filterMap_replicate]
    rfl

theorem receive_spec [LawfulSocket S] (hallows : Allows S A ok) (rounds : Nat) : Meets (Going suite ok start [] d)
    (receive suite rounds) (fun _ => Going suite ok start [] d) (· ≠ .panic) := by
  induction rounds with
  | zero => exact Meets.pure _ fun _ hs => hs
  | succ rounds ih =>
    unfold receive
    refine (fill_spec hallows).bind fun batch => ?_
    refine (Meets.forM (I := fun rs => Going suite ok start rs d) (fun r rs => take_spec r rs) batch).bind fun _ => ?_
    refine (deliverEvents_spec hallows.polled).bind fun _ => ?_
    exact Meets.ite (fun _ => Meets.pure _ fun _ hs => hs) fun _ => ih

/-- Calls of a kind, and then the timers were served. -/
def Timed (ok : EndpointOp → Prop) (now : Timestamp) (moves : List Move) : Prop :=
  ∃ before, (∀ m ∈ before, ok m.op) ∧ moves = before ++ [.own (.handleTimeout now)]

omit [Socket S] [ServerApp A] in
theorem handleTimeout_spec (now : Timestamp) : Meets (Going suite ok (· = []) [] d)
    (handleTimeout (S := Recorder S) (A := A) now) (fun _ => Going suite ok (Timed ok now) [] d) (· ≠ .panic) := by
  refine Meets.of_start fun d₁ hgoing => Meets.start ?_
  obtain ⟨-, _, before, rfl, hbefore, hexchange⟩ := hgoing
  refine ⟨nofun, before ++ [.own (.handleTimeout now)], [], ⟨before, hbefore, rfl⟩, nofun, ?_⟩
  rw [List.append_nil]
  exact hexchange.carry ([.own (.handleTimeout now)]) (Carried.still rfl rfl rfl) rfl rfl

omit [Socket S] [ServerApp A] in
theorem moved_app (suite : Suite) (e : Endpoint) (ops : List EndpointOp) :
    moved suite e (ops.map .app) = ops.foldl (·.after suite ·) e ∧ outputs suite e (ops.map .app) = [] := by
  induction ops generalizing e with
  | nil => exact ⟨rfl, rfl⟩
  | cons op ops ih => exact ih (e.after suite op)

theorem update_spec (hallows : Allows S A ok) (now : Timestamp) : Meets (Going suite ok start [] d) (update suite now)
    (fun _ => Going suite ok start [] d) (· ≠ .panic) := by
  refine Meets.of_start fun d₁ hgoing => Meets.start ?_
  obtain ⟨hmoved, houtputs⟩ := moved_app suite d₁.endpoint (ServerApp.update d₁.app now d₁.endpoint).2
  refine hgoing.carry ((ServerApp.update d₁.app now d₁.endpoint).2.map .app) (fun _ hr => hr) ?_ ?_ hmoved.symm ?_
  · intro m hm
    obtain ⟨op, hop, rfl⟩ := List.mem_map.1 hm
    exact hallows.updated _ _ _ op hop
  · rw [houtputs]
    exact .still rfl rfl rfl
  · have hnone : ((ServerApp.update d₁.app now d₁.endpoint).2.map Move.app).filterMap Move.arrival = [] :=
      List.filterMap_eq_nil_iff.2 fun m hm => by
        obtain ⟨op, -, rfl⟩ := List.mem_map.1 hm
        rfl
    rw [hnone]
    rfl

/-- The calls of one step. -/
def stepMoves (now : Timestamp) (before between : List Move) (n : Nat) : List Move :=
  before ++ [.own (.handleTimeout now)] ++ between ++ [.own (.drainTransmits now (List.replicate n Connection.blank))]

/-- **What one step does.** -/
theorem step_spec [LawfulSocket S] (hallows : Allows S A ok) (now : Timestamp) (d : ServerDriver (Recorder S) A) :
    Meets (· = d) (step suite now) (fun _ d' => ∃ before between n,
      (∀ m ∈ before ++ between, ok m.op) ∧ Exchange suite [] d d' (stepMoves now before between n) ∧
      d'.endpoint.ready = [] ∧ d'.outbox.queued = []) (· ≠ .panic) := by
  have hstart : ∀ d', d' = d → Going suite ok (· = []) [] d d' := by
    rintro _ rfl
    exact ⟨nofun, [], [], rfl, nofun, Exchange.refl _⟩
  unfold step
  refine ((receive_spec hallows recvRounds).weaken hstart fun _ _ hs => hs).bind fun backlog => ?_
  refine (handleTimeout_spec now).bind fun _ => ?_
  refine (deliverEvents_spec hallows.polled).bind fun _ => ?_
  refine (update_spec hallows now).bind fun _ => Meets.of_start fun d₁ hgoing => ?_
  obtain ⟨-, _, between, ⟨before, hbefore, rfl⟩, hbetween, hexchange⟩ := hgoing
  refine (transmit_spec d₁ now).bind fun _ => Meets.of_start fun d₂ hsent => ?_
  obtain ⟨n, hendpoint, hcarried, hready, hqueued⟩ := hsent
  refine (Meets.get d₂).bind fun seen => Meets.pure _ fun d₃ hseen => ?_
  obtain ⟨-, rfl⟩ := hseen
  refine ⟨before, between, n, fun m hm => (List.mem_append.1 hm).elim (hbefore m) (hbetween m), ?_, hready, hqueued⟩
  refine hexchange.carry ([.own (.drainTransmits now (List.replicate n Connection.blank))]) ?_ hendpoint rfl
  rw [outputs_one]
  exact hcarried

end ServerDriver

/-- A socket that brings what it was told to, and takes one datagram a call. -/
structure Script where
  batches : List (List Received)

instance : Socket Script where
  recvBatch s := (⟨s.batches.tail⟩, .ok ((s.batches.headD []).take recvBatch))
  sendBatch s _ := (s, .ok 1)

instance : LawfulSocket Script where
  recv_le h := by
    cases h
    exact List.length_take_le ..

/-- An application that only listens. -/
instance : ServerApp Unit where
  onMessage app _ _ _ := app
  onEvent app _ := app
  update app _ _ := (app, [])
  nextWake _ := none

namespace ServerDriver

/-- A server to which a response comes. -/
def opening : ServerDriver (Recorder Script) Unit :=
  .new ⟨⟨[[⟨.v4 1 1, response, .zero, ⟨0, none⟩⟩]]⟩, [], [], 0⟩ idle ()

variable {S A : Type} [Socket S] [ServerApp A] {suite : Suite}

/-! ## Shutting down -/

omit [Socket S] [ServerApp A] in
theorem drainTransmits_ready (now : Timestamp) (slots : List Packet) (e : Endpoint) :
    (drainTransmits now slots e).1.ready = e.ready.drop slots.length := by
  induction slots generalizing e with
  | nil => rfl
  | cons slot slots ih =>
    rw [drainTransmits]
    cases hready : e.ready with
    | nil => exact hready
    | cons handle ready =>
      obtain ⟨_, _, _, _, heq⟩ := ({ e with ready } : Endpoint).drainOne_frame handle now slot
      dsimp only
      rw [ih, heq]
      rfl

omit [Socket S] [ServerApp A] in
theorem moved_ops (suite : Suite) (e : Endpoint) (moves : List Move) :
    moved suite e moves = (moves.map Move.op).foldl (·.after suite ·) e := List.foldl_map.symm

/-- A step is a round. -/
theorem step_round [LawfulSocket S] (hallows : Allows S A EndpointOp.Quiet) (now : Timestamp)
    (d : ServerDriver (Recorder S) A) :
    Meets (· = d) (step suite now) (fun _ d' => ∃ round, Round.Ample suite d.endpoint round ∧
      d'.endpoint = Round.run suite d.endpoint round) (· ≠ .panic) := by
  refine (step_spec hallows now d).weaken (fun _ hs => hs) fun _ d' hstep => ?_
  obtain ⟨before, between, n, hquiet, hexchange, hready, -⟩ := hstep
  refine ⟨⟨before.map Move.op, now, between.map Move.op, List.replicate n Connection.blank⟩, ?_⟩
  have hendpoint : d'.endpoint = Round.run suite d.endpoint
      ⟨before.map Move.op, now, between.map Move.op, List.replicate n Connection.blank⟩ := by
    rw [hexchange.endpoint_eq, stepMoves, moved_append, moved_append, moved_append, moved_ops suite d.endpoint before,
      moved_ops suite _ between]
    rfl
  refine ⟨⟨?_, ?_⟩, hendpoint⟩
  · intro op hop
    rw [← List.map_append] at hop
    obtain ⟨m, hm, rfl⟩ := List.mem_map.1 hop
    exact hquiet m hm
  · rw [hendpoint, Round.run, drainTransmits_ready] at hready
    exact List.drop_eq_nil_iff.1 hready

theorem lingerLoop_spec [LawfulSocket S] (hallows : Allows S A EndpointOp.Quiet) (giveUp : Timestamp)
    {readings : List (Timestamp × Timestamp)} (hlinger : ∀ reading ∈ readings, reading.2 < giveUp)
    {d : ServerDriver (Recorder S) A} (hwithin : Round.Within suite readings.length d.endpoint)
    (hsome : readings ≠ []) :
    Meets (· = d) (lingerLoop suite giveUp readings) (fun done d' => done = true ∧ d'.isEmpty = true) (· ≠ .panic) := by
  induction readings generalizing d with
  | nil => exact absurd rfl hsome
  | cons reading readings ih =>
    unfold lingerLoop
    refine (step_round hallows reading.1 d).bind fun _ => Meets.of_start fun d₁ hround => ?_
    obtain ⟨round, hample, hendpoint⟩ := hround
    have hwithin := hwithin.run hample
    rw [← hendpoint] at hwithin
    refine (Meets.get d₁).bind fun seen => Meets.of_start fun d₂ hseen => ?_
    obtain ⟨rfl, rfl⟩ := hseen
    have hlater : decide (giveUp ≤ reading.2) = false := by
      have := hlinger reading List.mem_cons_self
      exact decide_eq_false (Nat.not_le.2 this)
    refine Meets.ite (fun hend => ?_) fun hgo => ?_
    · rw [hlater, Bool.or_false] at hend
      exact Meets.pure _ fun d₃ hd => ⟨rfl, by rw [hd]; exact hend⟩
    · by_cases hnil : readings = []
      · subst hnil
        have hnone := hwithin [] trivial (Nat.le_refl _)
        rw [hlater, Bool.or_false] at hgo
        exact absurd (beq_iff_eq.2 hnone) hgo
      · exact ih (fun reading hr => hlinger reading (List.mem_cons_of_mem _ hr)) hwithin hnil

/-- **Shutting a server down ends with no connection left**: in as many steps as
there are close notices and batches of connections, if `linger` has not passed
by then, the loop returns and the endpoint is empty; whatever the socket brings
and the application calls, short of a response that could admit someone, and
however little the socket takes. -/
theorem shutdown_server_empties [LawfulSocket S] (hallows : Allows S A EndpointOp.Quiet)
    {d : ServerDriver (Recorder S) A} (h : Lts.Reachable (Endpoint.sys suite) d.endpoint) {linger : Span}
    {first : Timestamp} {readings : List (Timestamp × Timestamp)}
    (hlinger : ∀ reading ∈ readings, reading.2 < first.saturatingAdd linger)
    (hlen : closeSends + (d.endpoint.connections.len + reapBatch - 1) / reapBatch ≤ readings.length) :
    (∀ fault d', shutdownServer suite linger first readings d = .error fault d' → fault ≠ .panic) ∧
      ∀ done d', shutdownServer suite linger first readings d = .ok done d' → done = true ∧ d'.isEmpty = true := by
  have hwithin : Round.Within suite readings.length d.endpoint.shutdown := fun rounds hample hrounds =>
    Round.shutdown_within (reachable_housed h) rounds hample (Nat.le_trans hlen hrounds)
  have hsome : readings ≠ [] := by
    rintro rfl
    exact absurd (Nat.le_trans (Nat.le_add_right ..) hlen) (by decide)
  have hspec : Meets (· = d) (shutdownServer suite linger first readings) (fun done d' => done = true ∧ d'.isEmpty = true)
      (· ≠ .panic) := by
    unfold shutdownServer
    exact (Meets.modify d _).bind fun _ => lingerLoop_spec hallows _ hlinger hwithin hsome
  exact ⟨fun fault d' hrun => hspec.error rfl hrun, fun done d' hrun => hspec.ok rfl hrun⟩

/-- A socket to which nothing comes, and which takes nothing. -/
instance : Socket Unit where
  recvBatch s := (s, .ok [])
  sendBatch s _ := (s, .ok 0)

instance : LawfulSocket Unit where
  recv_le h := by
    cases h
    exact Nat.zero_le _

theorem allows_unit : Allows Unit Unit EndpointOp.Quiet where
  received h := by
    cases h
    nofun
  polled := trivial
  updated _ _ _ := nofun

/-- A server with one player. -/
def occupied : ServerDriver (Recorder Unit) Unit := .new ⟨(), [], [], 0⟩ greeted ()

theorem shutdown_server_empties_occupied : occupied.isEmpty = false ∧
    ∃ done d', shutdownServer clearSuite (Span.fromSecs 1) .zero (List.replicate 4 (.zero, .zero)) occupied = .ok done d' ∧
      done = true ∧ d'.isEmpty = true := by
  have hlinger : ∀ reading ∈ List.replicate 4 (Timestamp.zero, Timestamp.zero),
      reading.2 < Timestamp.zero.saturatingAdd (Span.fromSecs 1) := fun reading hreading => by
    rw [List.eq_of_mem_replicate hreading]
    decide +kernel
  have hreachable : Lts.Reachable (Endpoint.sys clearSuite) occupied.endpoint := by
    dsimp only [occupied, ServerDriver.new]
    exact greeted_reachable
  obtain ⟨-, hends⟩ := shutdown_server_empties allows_unit hreachable hlinger (by decide +kernel)
  cases hrun : shutdownServer clearSuite (Span.fromSecs 1) .zero (List.replicate 4 (.zero, .zero)) occupied with
  | ok done d' => exact ⟨by decide +kernel, done, d', rfl, hends done d' hrun⟩
  | error fault d' =>
    have hran : (match shutdownServer clearSuite (Span.fromSecs 1) .zero (List.replicate 4 (.zero, .zero)) occupied with
      | .ok _ _ => true
      | .error _ _ => false) = true := by decide +kernel
    rw [hrun] at hran
    cases hran

end ServerDriver
end HexNet
