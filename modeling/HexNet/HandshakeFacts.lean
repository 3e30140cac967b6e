/-
What is sealed is what is opened: blobs (`decrypt_encryptBlob`), tickets
(`decode_encode`) and cookies (`Cookie.decode_encode`) come back as they went
in, an IPv6 address losing only its flow and scope.
-/
import HexNet.Handshake

namespace HexNet

open LeBytes BitFields

/-! ## Blobs -/

theorem encryptBlob_eq_some {aead : Aead} {draw : Option BlobNonce} {plain aad blob : List UInt8} {room : Nat}
    (h : encryptBlob aead draw plain aad room = some blob) :
    ∃ nonce sealed, draw = some nonce ∧ aead.encrypt nonce.nonce aad plain = some sealed ∧
      blob = nonce.nonce ++ (sealed.1 ++ sealed.2) ∧ nonceLen + plain.length + tagLen ≤ room := by
  unfold encryptBlob at h
  split at h
  · cases h
  next hroom =>
    obtain ⟨nonce, hdraw, h⟩ := Option.bind_eq_some_iff.1 h
    obtain ⟨sealed, hsealed, rfl⟩ := Option.map_eq_some_iff.1 h
    exact ⟨nonce, sealed, hdraw, hsealed, rfl, Nat.not_lt.1 hroom⟩

theorem decryptBlob_append (aead : Aead) {nonce body tag : List UInt8} (hnonce : nonce.length = nonceLen)
    (htag : tag.length = tagLen) (aad : List UInt8) (room : Nat) :
    decryptBlob aead (nonce ++ (body ++ tag)) aad room =
      if room < body.length then none else aead.decrypt nonce aad body tag := by
  have hlen : ¬ (nonce ++ (body ++ tag)).length < nonceLen + tagLen := by
    simp only [List.length_append, hnonce, htag]
    omega
  have hdrop : (nonce ++ (body ++ tag)).drop nonceLen = body ++ tag := by rw [← hnonce, List.drop_left]
  have hbody : (body ++ tag).length - tagLen = body.length := by
    rw [List.length_append, htag, Nat.add_sub_cancel]
  have hnonce' : (nonce ++ (body ++ tag)).take nonceLen = nonce := by rw [← hnonce, List.take_left]
  rw [decryptBlob, if_neg hlen]
  dsimp only
  rw [hdrop, hbody, List.take_left, List.drop_left, hnonce']

/-- **A sealed blob opens**, under its key and associated data. -/
theorem decrypt_encryptBlob {aead : Aead} {draw : Option BlobNonce} {plain aad blob : List UInt8} {room room' : Nat}
    (h : encryptBlob aead draw plain aad room = some blob) (hroom : plain.length ≤ room') :
    decryptBlob aead blob aad room' = some plain := by
  obtain ⟨nonce, sealed, -, hsealed, rfl, -⟩ := encryptBlob_eq_some h
  obtain ⟨hbody, htag⟩ := aead.encrypt_len _ _ _ _ hsealed
  rw [decryptBlob_append aead nonce.len htag, if_neg (by omega)]
  exact aead.decrypt_encrypt _ _ _ _ hsealed

/-! ## Tickets -/

namespace Ticket

/-- A key's bytes, each a field of its own. -/
theorem writeKey_emits (p : Nat) (key : Key) : BitWriter.Emits p (writeKey key) (bytes key.bytes) := by
  unfold writeKey
  generalize key.bytes = bs
  induction bs generalizing p with
  | nil => exact BitWriter.Emits.pure p
  | cons b bs ih =>
    show BitWriter.Emits p (do BitWriter.writeBits b.toNat 8; bs.forM fun byte => BitWriter.writeBits byte.toNat 8)
      ([(8, b.toNat)] ++ bytes bs)
    exact (BitWriter.writeBits_emits p b.toNat (by decide)).bind (ih _)

theorem readKeyBytes_parses (p : Nat) {n : Nat} (bs : List UInt8) (hlen : bs.length = n) :
    BitReader.Parses p (readKeyBytes n) (bytes bs) ⟨bs, hlen⟩ := by
  induction bs generalizing p n with
  | nil =>
    subst hlen
    exact BitReader.Parses.pure p _
  | cons b bs ih =>
    subst hlen
    refine (BitReader.readBits_parses p (by decide) b.toNat_lt).bind ?_
    have h := (ih (p + width [(8, b.toNat)]) rfl).map
      fun rest => (⟨UInt8.ofNat b.toNat :: rest.1, by rw [List.length_cons, rest.2]⟩ :
        { bytes : List UInt8 // bytes.length = bs.length + 1 })
    simp only [UInt8.ofNat_toNat] at h ⊢
    exact h

theorem readKey_parses (p : Nat) (key : Key) : BitReader.Parses p readKey (bytes key.bytes) key :=
  (readKeyBytes_parses p key.bytes key.len).map
    fun bytes : { bytes : List UInt8 // bytes.length = 32 } => (⟨bytes.1, bytes.2⟩ : Key)

/-- A word of 64 bits, as its halves. -/
def word (value : Nat) : List (Nat × Nat) := [(32, value % 2 ^ 32), (32, value / 2 ^ 32)]

/-- The application's bytes, behind their length at bit `p`. -/
def userFields (p : Nat) (userData : UserData) : List (Nat × Nat) :=
  [(bitsRequired (maxUserData - 0), userData.items.length - 0)] ++
    ([((8 - (p + 9) % 8) % 8, 0)] ++ bytes userData.items)

/-- A ticket's bits. -/
def fields (t : Ticket) : List (Nat × Nat) :=
  word t.expiresAt.nanos ++ (word t.clientId.toNat ++ ([(1, t.session.isSome.toNat)] ++
    (word (t.session.getD 0).toNat ++ (bytes t.keys.clientToServer.bytes ++ (bytes t.keys.serverToClient.bytes ++
      userFields 705 t.userData)))))

theorem width_fields (t : Ticket) : width t.fields = 720 + 8 * t.userData.items.length := by
  simp only [fields, word, userFields, width_append, width_cons, width_nil, width_bytes, t.keys.clientToServer.len,
    t.keys.serverToClient.len, show bitsRequired (maxUserData - 0) = 9 by decide]
  omega

theorem userFields_emits {p : Nat} (userData : UserData) :
    BitWriter.Emits p (do
      BitWriter.writeRange userData.items.length 0 maxUserData
      BitWriter.align
      BitWriter.writeBytes userData.items) (userFields p userData) := by
  refine (BitWriter.writeRange_emits p (Nat.zero_le _) userData.le (by decide)).bind
    ((BitWriter.align_emits _).bind (BitWriter.writeBytes_emits ?_ _))
  simp only [width_cons, width_nil]
  omega

theorem write_emits (t : Ticket) : BitWriter.Emits 0 t.write t.fields := by
  have hpos : 0 + width (word t.expiresAt.nanos) + width (word t.clientId.toNat) +
      width [(1, t.session.isSome.toNat)] + width (word (t.session.getD 0).toNat) +
      width (bytes t.keys.clientToServer.bytes) + width (bytes t.keys.serverToClient.bytes) = 705 := by
    simp only [word, width_cons, width_nil, width_bytes, t.keys.clientToServer.len, t.keys.serverToClient.len]
  refine (BitWriter.writeU64_emits 0 _).bind ((BitWriter.writeU64_emits _ _).bind
    ((BitWriter.writeBits_emits _ _ (by decide)).bind ((BitWriter.writeU64_emits _ _).bind
      ((writeKey_emits _ _).bind ((writeKey_emits _ _).bind ?_)))))
  have h := userFields_emits (p := 705) t.userData
  rw [← hpos] at h ⊢
  exact h

/-- A ticket always fits its buffer. -/
theorem write_holds (t : Ticket) {out : List UInt8} (hlen : out.length = maxTicket) :
    ∃ w : BitWriter, t.write.run (.new out) = .ok () w ∧ w.Holds t.fields ∧ w.buf.length = maxTicket := by
  have hle : t.userData.items.length ≤ 256 := t.userData.le
  have hfit : 0 + width t.fields ≤ 8 * (BitWriter.new out).buf.length := by
    rw [width_fields, show (BitWriter.new out).buf.length = 384 from hlen]
    omega
  obtain ⟨w, hrun, hold, hbuf⟩ := (write_emits t (.new out) [] (BitWriter.new_holds out) width_nil).1 hfit
  exact ⟨w, hrun, hold, hbuf.trans hlen⟩

theorem readUserData_parses (p : Nat) (userData : UserData) :
    BitReader.Parses p readUserData (userFields p userData) userData := by
  have hslice : (FixedVec.fromSlice userData.items : Option UserData) = some userData := dif_pos userData.le
  refine (BitReader.readRange_parses p (Nat.zero_le _) userData.le (by decide)).bind
    ((BitReader.align_parses _).bind ?_)
  have haligned : (p + width [(bitsRequired (maxUserData - 0), userData.items.length - 0)] +
      width [((8 - (p + width [(bitsRequired (maxUserData - 0), userData.items.length - 0)]) % 8) % 8, 0)]) % 8 = 0 := by
    simp only [width_cons, width_nil]
    omega
  refine BitReader.peek_parses haligned userData.items ?_
  rw [hslice]
  exact (BitReader.skipBytes_parses haligned userData.items).map fun _ => userData

theorem read_parses (t : Ticket) : BitReader.Parses 0 read t.fields t := by
  have hpos : 0 + width (word t.expiresAt.nanos) + width (word t.clientId.toNat) +
      width [(1, t.session.isSome.toNat)] + width (word (t.session.getD 0).toNat) +
      width (bytes t.keys.clientToServer.bytes) + width (bytes t.keys.serverToClient.bytes) = 705 := by
    simp only [word, width_cons, width_nil, width_bytes, t.keys.clientToServer.len, t.keys.serverToClient.len]
  refine (BitReader.readU64_parses 0 t.expiresAt.lt).bind ((BitReader.readU64_parses _ t.clientId.isLt).bind
    ((BitReader.readBool_parses _ _).bind ((BitReader.readU64_parses _ (t.session.getD 0).isLt).bind
      ((readKey_parses _ _).bind ((readKey_parses _ _).bind ?_)))))
  have h := (readUserData_parses 705 t.userData).map fun userData =>
    ({ expiresAt := ⟨t.expiresAt.nanos % 2 ^ 64, Nat.mod_lt _ (by decide)⟩
       clientId := BitVec.ofNat 64 t.clientId.toNat
       session := if t.session.isSome then some (BitVec.ofNat 64 (t.session.getD 0).toNat) else none
       keys := ⟨t.keys.clientToServer, t.keys.serverToClient⟩
       userData } : Ticket)
  have hsame : ({ expiresAt := ⟨t.expiresAt.nanos % 2 ^ 64, Nat.mod_lt _ (by decide)⟩
                  clientId := BitVec.ofNat 64 t.clientId.toNat
                  session := if t.session.isSome then some (BitVec.ofNat 64 (t.session.getD 0).toNat) else none
                  keys := ⟨t.keys.clientToServer, t.keys.serverToClient⟩
                  userData := t.userData } : Ticket) = t := by
    obtain ⟨⟨nanos, hlt⟩, clientId, session, keys, userData⟩ := t
    simp only [Nat.mod_eq_of_lt hlt, BitVec.ofNat_toNat, BitVec.setWidth_eq]
    cases session <;> rfl
  rw [hsame] at h
  rw [← hpos] at h ⊢
  exact h

/-- **A ticket comes back as it was written**, whatever the buffer held before. -/
theorem decode_encodeInto (t : Ticket) {out : List UInt8} (hlen : out.length = maxTicket) :
    ∃ written, t.encodeInto out = some (written, 90 + t.userData.items.length) ∧ written.length = maxTicket ∧
      decode (written.take (90 + t.userData.items.length)) = .ok t := by
  obtain ⟨w, hrun, hold, hbuf⟩ := t.write_holds hlen
  obtain ⟨-, hused, -, hwritten⟩ := BitWriter.finish_bytes hold
  obtain ⟨hsees, -⟩ := BitReader.new_sees hold
  obtain ⟨r, hread, -⟩ := read_parses t _ [] (by rwa [List.append_nil]) rfl
  have hused : w.finish.2 = 90 + t.userData.items.length := by
    rw [hused, width_fields]
    omega
  refine ⟨w.finish.1, ?_, hwritten.trans hbuf, ?_⟩
  · rw [encodeInto, hrun, ← hused]
  · rw [← hused, decode, hread]

theorem decode_encode (t : Ticket) :
    ∃ bytes, t.encode = some bytes ∧ bytes.length = 90 + t.userData.items.length ∧ decode bytes = .ok t := by
  have hlen : (List.replicate maxTicket (0 : UInt8)).length = maxTicket := List.length_replicate
  have hle : t.userData.items.length ≤ 256 := t.userData.le
  obtain ⟨written, hencode, hwritten, hdecode⟩ := t.decode_encodeInto hlen
  refine ⟨_, by rw [encode, hencode, Option.map_some], ?_, hdecode⟩
  rw [List.length_take, hwritten]
  exact Nat.min_eq_left (show 90 + t.userData.items.length ≤ 384 by omega)

end Ticket

/-! ## Cookies -/

namespace Cookie

theorem length_ipBytes (ip : IpAddr) : (ipBytes ip).length = 5 ∨ (ipBytes ip).length = 17 := by
  cases ip
  · exact .inl (by simp [ipBytes])
  · exact .inr (by simp [ipBytes])

/-- An address behind its family tag, read from where the issue time ends. -/
theorem octets_append {issued : List UInt8} (hissued : issued.length = 8) (family : UInt8) (n value : Nat)
    (hlt : value < 256 ^ n) (post : List UInt8) :
    (issued ++ (family :: (leBytes value n).reverse ++ post))[8]? = some family ∧
      ∃ octets, slice (issued ++ (family :: (leBytes value n).reverse ++ post)) 9 n = some octets ∧
        leNat octets.reverse = value := by
  refine ⟨?_, (leBytes value n).reverse, ?_, ?_⟩
  · rw [List.getElem?_append_right (by omega), hissued]
    rfl
  · rw [List.cons_append, show issued ++ family :: ((leBytes value n).reverse ++ post) =
      (issued ++ [family]) ++ ((leBytes value n).reverse ++ post) by simp]
    exact slice_append (by simp [hissued]) (by simp)
  · rw [List.reverse_reverse, leNat_leBytes, Nat.mod_eq_of_lt hlt]

theorem decodeIp_append {issued : List UInt8} (hissued : issued.length = 8) (ip : IpAddr) (post : List UInt8) :
    decodeIp (issued ++ (ipBytes ip ++ post)) = some (ip, 8 + (ipBytes ip).length) := by
  cases ip with
  | v4 bits =>
    obtain ⟨hfamily, octets, hoctets, hvalue⟩ := octets_append hissued 4 4 bits.toNat bits.isLt post
    rw [ipBytes, decodeIp, hfamily]
    dsimp only
    rw [if_pos rfl, hoctets, Option.map_some, hvalue, BitVec.ofNat_toNat, BitVec.setWidth_eq]
    simp
  | v6 bits =>
    obtain ⟨hfamily, octets, hoctets, hvalue⟩ := octets_append hissued 6 16 bits.toNat bits.isLt post
    rw [ipBytes, decodeIp, hfamily]
    dsimp only
    rw [if_neg (by decide), if_pos rfl, hoctets, Option.map_some, hvalue, BitVec.ofNat_toNat, BitVec.setWidth_eq]
    simp

theorem decodeNat_append {pre : List UInt8} (post : List UInt8) {at_ len value : Nat} (hpre : pre.length = at_)
    (hlt : value < 256 ^ len) : decodeNat (pre ++ (leBytes value len ++ post)) at_ len = some value := by
  rw [decodeNat, slice_append hpre (length_leBytes ..), Option.map_some, leNat_leBytes, Nat.mod_eq_of_lt hlt]

theorem decodeTicketId_append {pre : List UInt8} (post : List UInt8) {at_ : Nat} (hpre : pre.length = at_) (id : TicketId) :
    decodeTicketId (pre ++ (id.nonce ++ post)) at_ = some id := by
  have hslice : slice (pre ++ (id.nonce ++ post)) at_ nonceLen = some id.nonce := slice_append hpre id.len
  unfold decodeTicketId
  split
  next nonce h =>
    rw [hslice] at h
    cases h
    rfl
  next h =>
    rw [hslice] at h
    cases h

/-- **A cookie comes back as it was written**, its address without what the
encoding leaves out. -/
theorem decode_encode (home : ShardId) (now : Timestamp) (addr : SocketAddr) (nonce : ClientNonce)
    (serverNonce : ServerNonce) (ticketId : TicketId) (ticket : Ticket) :
    ∃ bytes, encode now addr nonce serverNonce ticketId ticket = some bytes ∧ bytes.length ≤ maxCookie ∧
      decode home bytes = .ok
        { home, issuedAt := now, addr := .new addr.ip addr.port, nonce, serverNonce, ticketId, ticket } := by
  obtain ⟨sealed, hencode, hlen, hdecode⟩ := ticket.decode_encode
  have hip := length_ipBytes addr.ip
  have hdata : ticket.userData.items.length ≤ 256 := ticket.userData.le
  refine ⟨_, by rw [encode, hencode]; rfl, ?_, ?_⟩
  · simp only [List.length_append, length_leBytes, ticketId.len, hlen, nonceLen]
    show _ ≤ 440
    omega
  -- the parts ahead of each field
  generalize hissued : leBytes now.nanos 8 = issued
  generalize hipBytes : ipBytes addr.ip = ip
  have hl₀ : issued.length = 8 := by rw [← hissued, length_leBytes]
  have h₁ := decodeIp_append hl₀ addr.ip (leBytes addr.port.toNat 2 ++ (leBytes nonce.toNat 8 ++
    (leBytes serverNonce.toNat 8 ++ (ticketId.nonce ++ sealed))))
  have h₂ := decodeNat_append (leBytes nonce.toNat 8 ++ (leBytes serverNonce.toNat 8 ++
    (ticketId.nonce ++ sealed))) (show (issued ++ ip).length = 8 + ip.length by rw [List.length_append, hl₀])
    (show addr.port.toNat < 256 ^ 2 from addr.port.toNat_lt)
  have h₃ := decodeNat_append (leBytes serverNonce.toNat 8 ++ (ticketId.nonce ++ sealed))
    (show (issued ++ ip ++ leBytes addr.port.toNat 2).length = 8 + ip.length + 2 by
      rw [List.length_append, List.length_append, hl₀, length_leBytes])
    (show nonce.toNat < 256 ^ 8 from nonce.isLt)
  have h₄ := decodeNat_append (ticketId.nonce ++ sealed)
    (show (issued ++ ip ++ leBytes addr.port.toNat 2 ++ leBytes nonce.toNat 8).length = 8 + ip.length + 10 by
      simp only [List.length_append, hl₀, length_leBytes])
    (show serverNonce.toNat < 256 ^ 8 from serverNonce.isLt)
  have h₅ := decodeTicketId_append sealed
    (show (issued ++ ip ++ leBytes addr.port.toNat 2 ++ leBytes nonce.toNat 8 ++ leBytes serverNonce.toNat 8).length =
      8 + ip.length + 18 by simp only [List.length_append, hl₀, length_leBytes]) ticketId
  have h₀ := decodeNat_append (ip ++ (leBytes addr.port.toNat 2 ++
    (leBytes nonce.toNat 8 ++ (leBytes serverNonce.toNat 8 ++ (ticketId.nonce ++ sealed)))))
    (show ([] : List UInt8).length = 0 from rfl) (show now.nanos < 256 ^ 8 from now.lt)
  rw [List.nil_append, hissued] at h₀
  simp only [List.append_assoc] at h₁ h₂ h₃ h₄ h₅
  rw [hipBytes] at h₁
  have hdrop : (issued ++ (ip ++ (leBytes addr.port.toNat 2 ++ (leBytes nonce.toNat 8 ++ (leBytes serverNonce.toNat 8 ++
      (ticketId.nonce ++ sealed)))))).drop (8 + ip.length + 18 + nonceLen) = sealed := by
    simp only [← List.append_assoc]
    refine List.drop_left' ?_
    simp only [List.length_append, hl₀, length_leBytes, ticketId.len]
  have hfields : decodeFields (issued ++ (ip ++ (leBytes addr.port.toNat 2 ++ (leBytes nonce.toNat 8 ++
      (leBytes serverNonce.toNat 8 ++ (ticketId.nonce ++ sealed)))))) =
      some (now, .new addr.ip addr.port, nonce, serverNonce, ticketId, 8 + ip.length + 18 + nonceLen) := by
    have hnow : (⟨now.nanos % 2 ^ 64, Nat.mod_lt _ (by decide)⟩ : Timestamp) = now :=
      Timestamp.ext (Nat.mod_eq_of_lt now.lt)
    rw [decodeFields, h₀]
    simp only [bind, Option.bind, h₁, h₂, h₃, h₄, h₅, pure, hnow, UInt16.ofNat_toNat, BitVec.ofNat_toNat,
      BitVec.setWidth_eq]
  rw [decode, hfields]
  dsimp only
  rw [hdrop, hdecode]

end Cookie

theorem SocketAddr.new_ip (ip : IpAddr) (port : UInt16) : (new ip port).ip = ip := by cases ip <;> rfl

theorem SocketAddr.new_port (ip : IpAddr) (port : UInt16) : (new ip port).port = port := by cases ip <;> rfl

/-! ## What an acceptor opens -/

/-- A handshake's home is a member of the group. -/
theorem ShardCount.home_contains {count : ShardCount} {session : Option SessionId} {ticket : TicketId} {home : ShardId}
    (h : count.home session ticket = some home) : count.contains home = true := by
  unfold ShardCount.home at h
  split at h
  · split at h
    next hmem =>
      cases h
      exact hmem
    · cases h
  · cases h
    have hle : count.get ≤ 2 ^ 8 := count.le
    have hlt := Nat.mod_lt (LeBytes.leNat (ticket.nonce.take 4)) count.pos
    rw [contains, UInt8.toNat_ofNat', Nat.mod_eq_of_lt (Nat.lt_of_lt_of_le hlt hle)]
    exact decide_eq_true hlt

theorem Cookie.decode_home {home : ShardId} {plain : List UInt8} {cookie : Cookie}
    (h : Cookie.decode home plain = .ok cookie) : cookie.home = home := by
  unfold decode at h
  split at h
  · cases h
  · split at h
    · cases h
    · cases h
      rfl

/-- A cookie that opens: its blob, behind the byte that names its home. -/
theorem Acceptor.decryptCookie_ok {suite : Suite} {a : Acceptor} {packet : List UInt8} {cookie : Cookie}
    (h : a.decryptCookie suite packet = .ok cookie) :
    ∃ blob plain, handshakeBlob packet = some (cookie.home :: blob) ∧
      decryptBlob (suite a.serverKey) blob (cookieAad cookie.home) maxCookie = some plain ∧
      Cookie.decode cookie.home plain = .ok cookie := by
  unfold decryptCookie at h
  split at h
  · cases h
  · split at h
    · cases h
    · cases h
    next home blob hblob =>
      split at h
      · cases h
      next plain hplain =>
        obtain rfl := Cookie.decode_home h
        exact ⟨blob, plain, hblob, hplain, h⟩

/-- A ticket that opens, under either key. -/
theorem Acceptor.decryptTicket_ok {suite : Suite} {a : Acceptor} {packet : List UInt8} {ticket : Ticket}
    (h : a.decryptTicket suite packet = .ok ticket) :
    ∃ blob plain, handshakeBlob packet = some blob ∧
      (decryptBlob (suite a.backendKey) blob ticketAad maxTicket).or
        (decryptBlob (suite a.serverKey) blob ticketAad maxTicket) = some plain ∧ Ticket.decode plain = .ok ticket := by
  unfold decryptTicket at h
  split at h
  · cases h
  · split at h
    · cases h
    next blob hblob =>
      split at h
      · cases h
      next plain hplain => exact ⟨blob, plain, hblob, hplain, h⟩

end HexNet
