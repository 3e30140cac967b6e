/-
Responses that are refused. Whatever one is refused for, it leaves the
endpoint as it was but for the rate limits (`refused_unchanged`): what a
takeover or a new session would change comes after the check that there is
room, and that check is enough for the insertion, as long as no slot has been
retired.
-/
import HexNet.Inert
import HexNet.SlabRuns

namespace HexNet
namespace Endpoint

variable {suite : Suite} {e : Endpoint} {now : Timestamp} {sender : SocketAddr}

/-- What `connection_mut` leaves of the slots. -/
theorem connectionMut_slots (e : Endpoint) (handle : Handle) (f : Connection Server → Connection Server) :
    (e.connectionMut handle f).connections.slots = e.connections.slots ∧
      (e.connectionMut handle f).connections.capacity = e.connections.capacity := by
  unfold connectionMut
  split
  · obtain ⟨_, _, htouch⟩ := e.touch_frame handle
    rw [htouch]
    unfold Slab.modify
    dsimp only
    split <;> exact ⟨rfl, rfl⟩
  · exact ⟨rfl, rfl⟩

/-- Opening a session and taking it over moves no slot. -/
theorem admitting_slots (e : Endpoint) (cookie : Cookie) :
    (e.admitting cookie).connections.slots = e.connections.slots ∧
      (e.admitting cookie).connections.capacity = e.connections.capacity :=
  admitting_rule (P := fun e' => e'.connections.slots = e.connections.slots ∧
    e'.connections.capacity = e.connections.capacity) cookie (fun _ => ⟨rfl, rfl⟩) fun _ prev =>
    connectionMut_slots _ prev _

/-- Where there is room, an admission goes through. -/
theorem admitPlayer_connected (suite : Suite) (now : Timestamp) (sender : SocketAddr) (hs : e.connections.Sound)
    (hroom : ¬ e.connections.Exhausted) (cookie : Cookie) :
    ∃ handle, (e.admitPlayer suite now sender cookie).2 = .connected handle := by
  obtain ⟨hslots, hcapacity⟩ := e.admitting_slots cookie
  have hsound := (admitted_updated hs cookie).sound
  unfold admitPlayer
  dsimp only
  rw [← admitting]
  split
  next hnone =>
    rw [hsound.insertWith_none_iff] at hnone
    unfold Slab.Exhausted at hnone
    rw [hslots, hcapacity] at hnone
    exact (hroom hnone).elim
  next handle _ => exact ⟨handle, rfl⟩

theorem answerSpent_refused {spent : Redeemed} {reason : DropReason} (h : (e.answerSpent spent).2 = .dropped reason) :
    (e.answerSpent spent).1 = e := by
  unfold answerSpent at h ⊢
  split at h
  · split at h
    · cases h
    next hgone => rw [if_neg hgone]
  · rfl

theorem redeem_refused (hs : e.connections.Sound) (hretired : ∀ i, ¬ e.connections.Retired i) {cookie : Cookie}
    {reason : DropReason} (h : (e.redeem suite now sender cookie).2 = .dropped reason) :
    (e.redeem suite now sender cookie).1 = e := by
  unfold redeem at h ⊢
  split at h
  · exact answerSpent_refused h
  · split at h
    · rfl
    · split at h
      next hfull => rw [if_pos hfull]
      next hroom =>
        -- past the check for room nothing is refused
        obtain ⟨handle, hconnected⟩ := admitPlayer_connected suite now sender hs
          (hs.not_exhausted (Nat.not_le.1 hroom) hretired) cookie
        rw [hconnected] at h
        cases h

/-- **A refused response changes nothing** but what handshakes are charged to:
in every reachable state without a retired slot, whatever the datagram and
whatever the reason. -/
theorem refused_unchanged (h : Lts.Reachable (sys suite) e) (hretired : ∀ i, ¬ e.connections.Retired i)
    (now : Timestamp) (sender : SocketAddr) (datagram : List UInt8) {reason : DropReason}
    (hdropped : (e.handleResponse suite now sender datagram).2 = .dropped reason) :
    ∃ requests responses limiter,
      (e.handleResponse suite now sender datagram).1 = { e with requests, responses, limiter } := by
  have hcharged := e.chargeHandshake_same now sender .response
  have hsame : (e.chargeHandshake now sender .response).1.connections = e.connections := rfl
  show e.SameButLimits _
  unfold handleResponse at hdropped ⊢
  dsimp only at hdropped ⊢
  split at hdropped
  next hpaid =>
    rw [if_pos hpaid]
    split at hdropped
    · exact hcharged
    next cookie hopen =>
      rw [redeem_refused (by rw [hsame]; exact (reachable_routed h).sound) (by rw [hsame]; exact hretired) hdropped]
      exact hcharged
  next hlimited =>
    rw [if_neg hlimited]
    exact hcharged

/-! ### A takeover with no room -/

/-- Room for one player. -/
def cramped : Endpoint := .new { alone with capacity := 1 } backend orderedOnly fun _ => 0

/-- The endpoint with its one player. -/
def crowded : Endpoint := cramped.after clearSuite (.handleDatagram .zero (.v4 1 1) response ⟨0, none⟩)

theorem cramped_reachable : Lts.Reachable (sys clearSuite) cramped := .start ⟨_, backend, _, _, rfl⟩

theorem crowded_reachable : Lts.Reachable (sys clearSuite) crowded :=
  .step cramped_reachable trivial (by rw [crowded]; rfl)

/-- A ticket to resume that player's session. -/
def resuming : Ticket := { visitor with session := some (.new 1 0) }

def drawnNext : BlobNonce := ⟨List.replicate nonceLen 4, rfl⟩

/-- The response that presents it, from another address. -/
def takeover : List UInt8 := echoOf (answerOf crowded (.v4 1 2) (requestOf resuming drawnNext))

theorem takeover_refused :
    (crowded.handleResponse clearSuite .zero (.v4 1 2) takeover).2 = .dropped .full ∧
    (∃ requests responses limiter, (crowded.handleResponse clearSuite .zero (.v4 1 2) takeover).1 =
      { crowded with requests, responses, limiter }) ∧
    (crowded.sessions (.new 1 0)).map (·.state) = some (.live first) := by
  have hdropped : (crowded.handleResponse clearSuite .zero (.v4 1 2) takeover).2 = .dropped .full := by decide +kernel
  have hretired : ∀ i, ¬ crowded.connections.Retired i := by
    rintro i ⟨x, hx, hzero⟩
    have hall : (crowded.connections.slots.all fun x => x.generation ≠ 0) = true := by decide +kernel
    exact of_decide_eq_true (List.all_eq_true.1 hall x (List.mem_of_getElem? hx)) hzero
  exact ⟨hdropped, refused_unchanged crowded_reachable hretired .zero (.v4 1 2) takeover hdropped, by decide +kernel⟩

end Endpoint
end HexNet
