/-
The timer heap is a map from slots to deadlines (`timers_refine`): it stays in
order, every slot's position is exact, and `pop_due` takes out the least entry
that is due.
-/
import Mathlib.Data.Prod.Lex
import HexNet.Lib.Heap
import HexNet.Lib.Lists
import HexNet.Lib.Lts
import HexNet.Timer

namespace HexNet

open BinaryHeap (Ordered Rising Sinking exchange)

namespace TimerEntry

/-- What entries are ordered by. -/
def key (e : TimerEntry) : ℕ ×ₗ ℕ := toLex (e.at_.nanos, e.slot)

theorem precedes_iff {a b : TimerEntry} : a.precedes b = true ↔ a.key < b.key := by
  unfold precedes key
  rw [decide_eq_true_iff, Prod.Lex.toLex_lt_toLex]
  exact or_congr Iff.rfl (and_congr_left fun _ => ⟨fun h => by rw [h], fun h => Timestamp.ext h⟩)

theorem not_precedes_iff {a b : TimerEntry} : ¬ a.precedes b = true ↔ b.key ≤ a.key := by
  rw [precedes_iff, not_lt]

end TimerEntry

namespace TimerHeap

variable {h g g' : TimerHeap} {p a slot : Nat} {e b : TimerEntry} {old : Timestamp}

/-- The keys, by position. -/
def keys (h : TimerHeap) (i : Nat) : ℕ ×ₗ ℕ := (h.entry i).key

theorem entry_eq (he : h.entries[p]? = some e) : h.entry p = e := by
  rw [entry, List.getD_eq_getElem?_getD, he, Option.getD_some]

theorem getElem?_entry (hp : p < h.entries.length) : h.entries[p]? = some (h.entry p) := by
  rw [entry_eq (List.getElem?_eq_getElem hp)]
  exact List.getElem?_eq_getElem hp

/-- Entries know their positions, and positions their entries. -/
structure Indexed (h : TimerHeap) : Prop where
  forth : ∀ (i : Nat) (e : TimerEntry), h.entries[i]? = some e → h.positions[e.slot]? = some (some i)
  back : ∀ slot i : Nat, h.positions[slot]? = some (some i) → ∃ e : TimerEntry, h.entries[i]? = some e ∧ e.slot = slot

/-- No two entries are of one slot. -/
theorem Indexed.inj (hi : h.Indexed) (hp : h.entries[p]? = some e) (ha : h.entries[a]? = some b) (hslot : e.slot = b.slot) :
    p = a := by
  have hforth := hi.forth p e hp
  rw [hslot, hi.forth a b ha] at hforth
  exact (Option.some.inj (Option.some.inj hforth)).symm

theorem Indexed.slot_lt (hi : h.Indexed) (hp : h.entries[p]? = some e) : e.slot < h.positions.length :=
  (List.getElem?_eq_some_iff.1 (hi.forth p e hp)).1

/-- A slot's deadline is what its entry says. -/
theorem Indexed.deadline_eq_some (hi : h.Indexed) {at_ : Timestamp} :
    h.deadline slot = some at_ ↔ ⟨at_, slot⟩ ∈ h.entries := by
  unfold deadline position
  rw [List.getD_eq_getElem?_getD]
  constructor
  · intro hdeadline
    obtain ⟨i, hpos, rfl⟩ := Option.map_eq_some_iff.1 hdeadline
    cases hslot : h.positions[slot]? with
    | none =>
      rw [hslot] at hpos
      cases hpos
    | some pos =>
      rw [hslot, Option.getD_some] at hpos
      subst hpos
      obtain ⟨e, he, rfl⟩ := hi.back slot i hslot
      rw [entry_eq he]
      exact List.mem_of_getElem? he
  · intro hmem
    obtain ⟨i, he⟩ := List.mem_iff_getElem?.1 hmem
    rw [hi.forth i _ he, Option.getD_some, Option.map_some, entry_eq he]

/-! ## Placing -/

theorem place_entries (h : TimerHeap) (p : Nat) (e : TimerEntry) : (h.place p e).entries = h.entries.set p e := rfl

theorem place_positions (h : TimerHeap) (p : Nat) (e : TimerEntry) :
    (h.place p e).positions = h.positions.set e.slot (some p) := rfl

theorem place_entry (hp : p < h.entries.length) (i : Nat) : (h.place p e).entry i = if i = p then e else h.entry i := by
  rw [entry, place_entries, List.getD_eq_getElem?_getD, List.getElem?_set]
  by_cases hi : p = i
  · rw [if_pos hi, if_pos (hi ▸ hp), if_pos hi.symm, Option.getD_some]
  · rw [if_neg hi, if_neg (fun he => hi he.symm), entry, List.getD_eq_getElem?_getD]

theorem place_keys (hp : p < h.entries.length) : (h.place p e).keys = Function.update h.keys p e.key := by
  funext i
  rw [keys, place_entry hp]
  by_cases hi : i = p
  · rw [if_pos hi, hi, Function.update_self]
  · rw [if_neg hi, Function.update_of_ne hi, keys]

theorem place_self (hi : h.Indexed) (hp : p < h.entries.length) : h.place p (h.entry p) = h := by
  have hentries : h.entries.set p (h.entry p) = h.entries := by
    refine List.ext_getElem? fun i => ?_
    rw [List.getElem?_set]
    split
    next heq =>
      subst heq
      rw [getElem?_entry hp]
    · rfl
  have hpositions : h.positions.set (h.entry p).slot (some p) = h.positions := by
    refine List.ext_getElem? fun s => ?_
    rw [List.getElem?_set]
    split
    next heq =>
      subst heq
      have hforth := hi.forth p _ (getElem?_entry hp)
      rw [if_pos (List.getElem?_eq_some_iff.1 hforth).1, hforth]
    · rfl
  rw [place, hentries, hpositions]

/-- The same entries, in another order. -/
structure Moved (g g' : TimerHeap) : Prop where
  indexed : g'.Indexed
  mem : ∀ x, x ∈ g'.entries ↔ x ∈ g.entries
  length : g'.entries.length = g.entries.length
  slots : g'.positions.length = g.positions.length

theorem Moved.refl (hg : g.Indexed) : Moved g g := ⟨hg, fun _ => Iff.rfl, rfl, rfl⟩

theorem Moved.trans {g₁ g₂ g₃ : TimerHeap} (h : Moved g₁ g₂) (h' : Moved g₂ g₃) : Moved g₁ g₃ :=
  ⟨h'.indexed, fun x => (h'.mem x).trans (h.mem x), h'.length.trans h.length, h'.slots.trans h.slots⟩

/-- One turn of a sift: what is at `a` goes to the hole at `p`, and the hole
to `a`. With the entry that is being moved in the hole, that is an exchange. -/
theorem moved_turn (hg : (h.place p e).Indexed) (hp : p < h.entries.length) (ha : a < h.entries.length) (hne : a ≠ p) :
    Moved (h.place p e) ((h.place p (h.entry a)).place a e) := by
  have hb := getElem?_entry ha
  generalize h.entry a = b at hb
  have hgp : (h.place p e).entries[p]? = some e := by rw [place_entries, List.getElem?_set_self hp]
  have hga : (h.place p e).entries[a]? = some b := by rw [place_entries, List.getElem?_set_ne hne.symm, hb]
  have hslots : b.slot ≠ e.slot := fun heq => hne (hg.inj hga hgp heq)
  have helt : e.slot < h.positions.length := by simpa [place_positions] using hg.slot_lt hgp
  have hblt : b.slot < h.positions.length := by simpa [place_positions] using hg.slot_lt hga
  have hentry : ∀ i, ((h.place p b).place a e).entries[i]? =
      if i = a then some e else if i = p then some b else (h.place p e).entries[i]? := by
    have heq : ((h.place p b).place a e).entries = ((h.place p e).entries.set p b).set a e := by
      rw [place_entries, place_entries, place_entries, List.set_set]
    intro i
    rw [heq, List.getElem?_set_set (by simpa [place_entries] using hp) (by simpa [place_entries] using ha)]
  have hposition : ∀ s, ((h.place p b).place a e).positions[s]? =
      if s = e.slot then some (some a) else if s = b.slot then some (some p) else (h.place p e).positions[s]? := by
    have heq : ((h.place p b).place a e).positions =
        ((h.place p e).positions.set b.slot (some p)).set e.slot (some a) := by
      rw [place_positions, place_positions, place_positions, List.set_comm _ _ hslots.symm, List.set_set]
    intro s
    rw [heq, List.getElem?_set_set (by simpa [place_positions] using hblt) (by simpa [place_positions] using helt)]
  refine ⟨⟨fun i x hx => ?_, fun s i hs => ?_⟩, fun x => ?_, by simp [place_entries], by simp [place_positions]⟩
  · rw [hentry] at hx
    rw [hposition]
    split at hx
    next hia =>
      cases hx
      rw [if_pos rfl, hia]
    next hia =>
      split at hx
      next hip =>
        cases hx
        rw [if_neg hslots, if_pos rfl, hip]
      next hip =>
        rw [if_neg fun heq => hip (hg.inj hx hgp heq), if_neg fun heq => hia (hg.inj hx hga heq)]
        exact hg.forth i x hx
  · rw [hposition] at hs
    split at hs
    next hse =>
      cases hs
      exact ⟨e, by rw [hentry, if_pos rfl], hse.symm⟩
    next hse =>
      split at hs
      next hsb =>
        cases hs
        exact ⟨b, by rw [hentry, if_neg (Ne.symm hne), if_pos rfl], hsb.symm⟩
      next hsb =>
        obtain ⟨x, hx, rfl⟩ := hg.back s i hs
        refine ⟨x, ?_, rfl⟩
        have hia : i ≠ a := by
          rintro rfl
          cases hx.symm.trans hga
          exact hsb rfl
        have hip : i ≠ p := by
          rintro rfl
          cases hx.symm.trans hgp
          exact hse rfl
        rw [hentry, if_neg hia, if_neg hip, hx]
  · rw [List.mem_iff_getElem?, List.mem_iff_getElem?]
    constructor
    · rintro ⟨i, hx⟩
      rw [hentry] at hx
      split at hx
      · exact ⟨p, hgp.trans hx⟩
      · split at hx
        · exact ⟨a, hga.trans hx⟩
        · exact ⟨i, hx⟩
    · rintro ⟨i, hx⟩
      by_cases hip : i = p
      · rw [hip, hgp] at hx
        exact ⟨a, by rw [hentry, if_pos rfl]; exact hx⟩
      · by_cases hia : i = a
        · rw [hia, hga] at hx
          exact ⟨p, by rw [hentry, if_neg (Ne.symm hne), if_pos rfl]; exact hx⟩
        · exact ⟨i, by rw [hentry, if_neg hia, if_neg hip]; exact hx⟩

theorem keys_turn (hp : p < h.entries.length) (ha : a < h.entries.length) (hne : a ≠ p) :
    ((h.place p (h.entry a)).place a e).keys = exchange (h.place p e).keys p a := by
  rw [place_keys (by rw [place_entries, List.length_set]; exact ha), place_keys hp, place_keys hp, exchange,
    Function.update_self, Function.update_of_ne hne, Function.update_idem]
  rfl

/-! ## Sifting -/

theorem siftUpFrom_spec (fuel : Nat) (hfuel : p ≤ fuel) (hp : p < h.entries.length) (hg : (h.place p e).Indexed)
    (hrise : Rising h.entries.length (h.place p e).keys p) :
    Moved (h.place p e) (siftUpFrom e fuel p h) ∧ Ordered h.entries.length (siftUpFrom e fuel p h).keys := by
  induction fuel generalizing p h with
  | zero => exact ⟨.refl hg, hrise.done fun hpos => by omega⟩
  | succ fuel ih =>
    rw [siftUpFrom]
    split
    next hpos =>
      have hlt : parent p < p := BinaryHeap.parent_lt hpos
      have ha : parent p < h.entries.length := hlt.trans hp
      dsimp only
      split
      next hbefore =>
        have hturn := moved_turn hg hp ha hlt.ne
        have hkeys := keys_turn (e := e) hp ha hlt.ne
        have hlen : (h.place p (h.entry (parent p))).entries.length = h.entries.length := by simp [place_entries]
        obtain ⟨hmoved, hordered⟩ := ih (p := parent p) (h := h.place p (h.entry (parent p)))
          (Nat.le_of_lt_succ (hlt.trans_le hfuel)) (by rw [hlen]; exact ha) hturn.indexed (by
            rw [hlen, hkeys]
            refine hrise.move hpos hp ?_
            rw [place_keys hp, Function.update_self]
            show e.key < Function.update h.keys p e.key (parent p)
            rw [Function.update_of_ne hlt.ne]
            exact TimerEntry.precedes_iff.1 hbefore)
        exact ⟨hturn.trans hmoved, hlen ▸ hordered⟩
      next hafter =>
        refine ⟨.refl hg, hrise.done fun _ => ?_⟩
        rw [place_keys hp, Function.update_self]
        show Function.update h.keys p e.key (parent p) ≤ e.key
        rw [Function.update_of_ne hlt.ne]
        exact TimerEntry.not_precedes_iff.1 hafter
    next hpos => exact ⟨.refl hg, hrise.done fun h => (hpos h).elim⟩

theorem siftUp_spec (hi : h.Indexed) (hp : p < h.entries.length) (hrise : Rising h.entries.length h.keys p) :
    Moved h (h.siftUp p) ∧ Ordered h.entries.length (h.siftUp p).keys := by
  have hself := place_self hi hp
  have hspec := siftUpFrom_spec (e := h.entry p) p (Nat.le_refl p) hp (by rw [hself]; exact hi) (by rw [hself]; exact hrise)
  rwa [hself] at hspec

/-- The lesser child: below `p`, and no greater than any there. -/
theorem lesserChild_spec (h : TimerHeap) (hleft : 2 * p + 1 < h.entries.length) :
    0 < h.lesserChild p ∧ h.lesserChild p < h.entries.length ∧ BinaryHeap.parent (h.lesserChild p) = p ∧
      ∀ i, 0 < i → i < h.entries.length → BinaryHeap.parent i = p → h.keys (h.lesserChild p) ≤ h.keys i := by
  unfold lesserChild
  dsimp only
  split
  next hright =>
    refine ⟨by omega, hright.1, by unfold BinaryHeap.parent; omega, fun i hi hin hpar => ?_⟩
    rcases (BinaryHeap.parent_eq_iff hi).1 hpar with rfl | rfl
    · exact (TimerEntry.precedes_iff.1 hright.2).le
    · exact le_refl _
  next hright =>
    refine ⟨by omega, hleft, by unfold BinaryHeap.parent; omega, fun i hi hin hpar => ?_⟩
    rcases (BinaryHeap.parent_eq_iff hi).1 hpar with rfl | rfl
    · exact le_refl _
    · exact TimerEntry.not_precedes_iff.1 fun hbefore => hright ⟨hin, hbefore⟩

theorem siftDownFrom_spec (fuel : Nat) (hfuel : h.entries.length ≤ p + fuel) (hp : p < h.entries.length)
    (hg : (h.place p e).Indexed) (hsink : Sinking h.entries.length (h.place p e).keys p) :
    Moved (h.place p e) (siftDownFrom e fuel p h) ∧ Ordered h.entries.length (siftDownFrom e fuel p h).keys := by
  induction fuel generalizing p h with
  | zero => omega
  | succ fuel ih =>
    rw [siftDownFrom]
    split
    next hend =>
      refine ⟨.refl hg, hsink.done fun i hi hin hpar => ?_⟩
      rcases (BinaryHeap.parent_eq_iff hi).1 hpar with rfl | rfl <;> omega
    next hend =>
      obtain ⟨hc, hcn, hcp, hleast⟩ := h.lesserChild_spec (p := p) (by omega)
      generalize h.lesserChild p = c at hc hcn hcp hleast
      have hpc : p < c := hcp ▸ BinaryHeap.parent_lt hc
      -- the children are not in the hole, so their keys are the heap's
      have hchild : ∀ i, i ≠ p → (h.place p e).keys i = h.keys i := fun i hip => by
        rw [place_keys hp, Function.update_of_ne hip]
      have hhole : (h.place p e).keys p = e.key := by rw [place_keys hp, Function.update_self]
      have hbelow : ∀ i, 0 < i → BinaryHeap.parent i = p → i ≠ p := fun i hi hpar he => by
        have := BinaryHeap.parent_lt hi
        omega
      dsimp only
      split
      next hbefore =>
        have hturn := moved_turn hg hp hcn hpc.ne'
        have hkeys := keys_turn (e := e) hp hcn hpc.ne'
        have hlen : (h.place p (h.entry c)).entries.length = h.entries.length := by simp [place_entries]
        obtain ⟨hmoved, hordered⟩ := ih (p := c) (h := h.place p (h.entry c)) (by rw [hlen]; omega)
          (by rw [hlen]; exact hcn) hturn.indexed (by
            rw [hlen, hkeys]
            refine hsink.move hc hcn hcp (fun i hi hin hpar => ?_) ?_
            · rw [hchild c hpc.ne', hchild i (hbelow i hi hpar)]
              exact hleast i hi hin hpar
            · rw [hchild c hpc.ne', hhole]
              exact TimerEntry.precedes_iff.1 hbefore)
        exact ⟨hturn.trans hmoved, hlen ▸ hordered⟩
      next hafter =>
        refine ⟨.refl hg, hsink.done fun i hi hin hpar => ?_⟩
        rw [hhole, hchild i (hbelow i hi hpar)]
        exact (TimerEntry.not_precedes_iff.1 hafter).trans (hleast i hi hin hpar)

theorem siftDown_spec (hi : h.Indexed) (hp : p < h.entries.length) (hsink : Sinking h.entries.length h.keys p) :
    Moved h (h.siftDown p) ∧ Ordered h.entries.length (h.siftDown p).keys := by
  have hself := place_self hi hp
  have hspec := siftDownFrom_spec (e := h.entry p) h.entries.length (by omega) hp (by rw [hself]; exact hi)
    (by rw [hself]; exact hsink)
  rwa [hself] at hspec

/-! ## Operations -/

/-- In order, and every position exact. -/
structure Valid (h : TimerHeap) : Prop where
  indexed : h.Indexed
  ordered : Ordered h.entries.length h.keys

theorem withSlots_valid (slots : Nat) : (withSlots slots).Valid where
  indexed := by
    refine ⟨fun i e he => (nomatch he), fun slot i hs => ?_⟩
    have hs : (List.replicate slots (none : Option Nat))[slot]? = some (some i) := hs
    rw [List.getElem?_replicate] at hs
    split at hs <;> cases hs
  ordered i _ hi := nomatch hi

theorem Moved.valid {n : Nat} (h : Moved g g') (hn : g.entries.length = n) (ho : Ordered n g'.keys) : g'.Valid :=
  ⟨h.indexed, by rw [h.length, hn]; exact ho⟩

theorem position_eq_some (hi : h.Indexed) : h.position slot = some p ↔ ∃ at_, h.entries[p]? = some ⟨at_, slot⟩ := by
  unfold position
  rw [List.getD_eq_getElem?_getD]
  constructor
  · intro hpos
    cases hslot : h.positions[slot]? with
    | none =>
      rw [hslot] at hpos
      cases hpos
    | some pos =>
      rw [hslot, Option.getD_some] at hpos
      subst hpos
      obtain ⟨e, he, rfl⟩ := hi.back slot p hslot
      exact ⟨e.at_, he⟩
  · rintro ⟨at_, he⟩
    rw [hi.forth p _ he, Option.getD_some]

theorem position_eq_none (hi : h.Indexed) : h.position slot = none ↔ ∀ e ∈ h.entries, e.slot ≠ slot := by
  constructor
  · rintro hnone e hmem rfl
    obtain ⟨i, he⟩ := List.mem_iff_getElem?.1 hmem
    rw [(position_eq_some hi).2 ⟨e.at_, he⟩] at hnone
    cases hnone
  · intro hall
    cases hpos : h.position slot with
    | none => rfl
    | some p =>
      obtain ⟨at_, he⟩ := (position_eq_some hi).1 hpos
      exact (hall _ (List.mem_of_getElem? he) rfl).elim

/-- An entry of a slot that had none. -/
theorem push_spec (hv : h.Valid) (hslot : slot < h.positions.length) (hnone : ∀ e ∈ h.entries, e.slot ≠ slot)
    (at_ : Timestamp) :
    let pushed : TimerHeap := ⟨h.entries ++ [⟨at_, slot⟩], h.positions.set slot (some h.entries.length)⟩
    pushed.Indexed ∧ Rising pushed.entries.length pushed.keys h.entries.length := by
  have hlast : (h.entries ++ [(⟨at_, slot⟩ : TimerEntry)])[h.entries.length]? = some ⟨at_, slot⟩ :=
    List.getElem?_concat_length
  have hold : ∀ i, i < h.entries.length → (h.entries ++ [(⟨at_, slot⟩ : TimerEntry)])[i]? = h.entries[i]? :=
    fun i hi => List.getElem?_append_left hi
  refine ⟨⟨fun i e he => ?_, fun s i hs => ?_⟩, ?_⟩
  · have he : (h.entries ++ [(⟨at_, slot⟩ : TimerEntry)])[i]? = some e := he
    show (h.positions.set slot (some h.entries.length))[e.slot]? = some (some i)
    by_cases hi : i < h.entries.length
    · rw [hold i hi] at he
      rw [List.getElem?_set_ne (Ne.symm (hnone e (List.mem_of_getElem? he)))]
      exact hv.indexed.forth i e he
    · have hin := (List.getElem?_eq_some_iff.1 he).1
      rw [List.length_append, List.length_singleton] at hin
      obtain rfl : i = h.entries.length := by omega
      cases hlast.symm.trans he
      exact List.getElem?_set_self hslot
  · have hs : (h.positions.set slot (some h.entries.length))[s]? = some (some i) := hs
    show ∃ e : TimerEntry, (h.entries ++ [(⟨at_, slot⟩ : TimerEntry)])[i]? = some e ∧ e.slot = s
    by_cases hsame : s = slot
    · subst hsame
      rw [List.getElem?_set_self hslot] at hs
      cases hs
      exact ⟨_, hlast, rfl⟩
    · rw [List.getElem?_set_ne (Ne.symm hsame)] at hs
      obtain ⟨e, he, heq⟩ := hv.indexed.back s i hs
      exact ⟨e, by rw [hold i (List.getElem?_eq_some_iff.1 he).1]; exact he, heq⟩
  · dsimp only
    rw [List.length_append, List.length_singleton]
    refine (hv.ordered.congr fun i hi => ?_).extended
    unfold keys
    rw [entry_eq (e := h.entry i) (by rw [hold i hi]; exact getElem?_entry hi)]

theorem modify_spec (hi : h.Indexed) (hp : h.entries[p]? = some ⟨old, slot⟩) (at_ : Timestamp) :
    let moved : TimerHeap := { h with entries := h.entries.modify p fun entry => { entry with at_ } }
    moved.Indexed ∧ moved.keys = Function.update h.keys p (TimerEntry.key ⟨at_, slot⟩) ∧
      ∀ x, x ∈ moved.entries ↔ x = ⟨at_, slot⟩ ∨ x ∈ h.entries ∧ x.slot ≠ slot := by
  have hlt := (List.getElem?_eq_some_iff.1 hp).1
  have hentry : ∀ i, (h.entries.modify p fun entry => { entry with at_ })[i]? =
      if i = p then some ⟨at_, slot⟩ else h.entries[i]? := by
    intro i
    rw [List.getElem?_modify]
    by_cases hip : i = p
    · rw [hip, hp]
      simp
    · rw [if_neg hip]
      cases h.entries[i]? with
      | none => rfl
      | some e => simp [Ne.symm hip]
  refine ⟨⟨fun i e he => ?_, fun s i hs => ?_⟩, ?_, fun x => ?_⟩
  · have he : (h.entries.modify p _)[i]? = some e := he
    rw [hentry] at he
    split at he
    next hip =>
      cases he
      rw [hip]
      exact hi.forth p ⟨old, slot⟩ hp
    · exact hi.forth i e he
  · obtain ⟨e, he, rfl⟩ := hi.back s i hs
    show ∃ x : TimerEntry, (h.entries.modify p _)[i]? = some x ∧ _
    rw [hentry]
    split
    next hip =>
      rw [hip, hp] at he
      cases he
      exact ⟨_, rfl, rfl⟩
    · exact ⟨e, he, rfl⟩
  · funext i
    unfold keys entry
    dsimp only
    rw [List.getD_eq_getElem?_getD, hentry]
    by_cases hip : i = p
    · rw [if_pos hip, hip, Function.update_self, Option.getD_some]
    · rw [if_neg hip, Function.update_of_ne hip, ← List.getD_eq_getElem?_getD]
  · show x ∈ h.entries.modify p _ ↔ _
    rw [List.mem_iff_getElem?]
    constructor
    · rintro ⟨i, hx⟩
      rw [hentry] at hx
      split at hx
      · cases hx
        exact .inl rfl
      next hip => exact .inr ⟨List.mem_of_getElem? hx, fun hs => hip (hi.inj hx hp hs)⟩
    · rintro (rfl | ⟨hmem, hne⟩)
      · exact ⟨p, by rw [hentry, if_pos rfl]⟩
      · obtain ⟨i, hx⟩ := List.mem_iff_getElem?.1 hmem
        refine ⟨i, ?_⟩
        rw [hentry, if_neg, hx]
        rintro rfl
        cases hx.symm.trans hp
        exact hne rfl

/-- **Setting a deadline** puts the slot's entry in place of any it had. -/
theorem set_spec (hv : h.Valid) (hslot : slot < h.positions.length) (at_ : Timestamp) :
    (h.set slot at_).Valid ∧ (h.set slot at_).positions.length = h.positions.length ∧
      ∀ x, x ∈ (h.set slot at_).entries ↔ x = ⟨at_, slot⟩ ∨ x ∈ h.entries ∧ x.slot ≠ slot := by
  unfold set
  split
  next hnone =>
    have hnone := (position_eq_none hv.indexed).1 hnone
    obtain ⟨hindexed, hrise⟩ := push_spec hv hslot hnone at_
    obtain ⟨hmoved, hordered⟩ := siftUp_spec hindexed (by simp) hrise
    refine ⟨hmoved.valid rfl hordered, by rw [hmoved.slots]; simp, fun x => ?_⟩
    rw [hmoved.mem, List.mem_append, List.mem_singleton]
    constructor
    · rintro (hx | hx)
      · exact .inr ⟨hx, hnone x hx⟩
      · exact .inl hx
    · rintro (hx | ⟨hx, -⟩)
      · exact .inr hx
      · exact .inl hx
  next p hpos =>
    obtain ⟨old, hp⟩ := (position_eq_some hv.indexed).1 hpos
    have hlt := (List.getElem?_eq_some_iff.1 hp).1
    obtain ⟨hindexed, hkeys, hmem⟩ := modify_spec hv.indexed hp at_
    have hold : h.keys p = TimerEntry.key ⟨old, slot⟩ := by rw [keys, entry_eq hp]
    have hlen : (h.entries.modify p fun entry => { entry with at_ }).length = h.entries.length := List.length_modify ..
    have hlt' : p < (h.entries.modify p fun entry => { entry with at_ }).length := by rw [hlen]; exact hlt
    dsimp only
    rw [entry_eq hp]
    split
    next hearlier =>
      obtain ⟨hmoved, hordered⟩ := siftUp_spec hindexed hlt' (by
        dsimp only
        rw [hlen, hkeys]
        refine hv.ordered.lowered hlt ?_
        rw [hold]
        exact (TimerEntry.precedes_iff.1 (decide_eq_true (.inl hearlier))).le)
      exact ⟨hmoved.valid rfl hordered, hmoved.slots, fun x => (hmoved.mem x).trans (hmem x)⟩
    next hlater =>
      obtain ⟨hmoved, hordered⟩ := siftDown_spec hindexed hlt' (by
        dsimp only
        rw [hlen, hkeys]
        refine hv.ordered.raised hlt fun hpos => (hv.ordered p hpos hlt).trans ?_
        rw [hold]
        refine TimerEntry.not_precedes_iff.1 fun hbefore => ?_
        rcases of_decide_eq_true hbefore with hlt | ⟨-, hslots⟩
        · exact hlater hlt
        · exact Nat.lt_irrefl _ hslots)
      exact ⟨hmoved.valid rfl hordered, hmoved.slots, fun x => (hmoved.mem x).trans (hmem x)⟩

/-- The heap without its last entry, and with the slot of the one at `p`
cleared. -/
def cut (h : TimerHeap) (p : Nat) : TimerHeap := ⟨h.entries.dropLast, h.positions.set (h.entry p).slot none⟩

theorem cut_entries (h : TimerHeap) (p : Nat) {i : Nat} (hi : i < h.entries.length - 1) :
    (h.cut p).entries[i]? = h.entries[i]? := by
  rw [cut, List.getElem?_dropLast, if_pos hi]

theorem cut_keys (h : TimerHeap) (p : Nat) {i : Nat} (hi : i < h.entries.length - 1) : (h.cut p).keys i = h.keys i := by
  unfold keys
  rw [entry_eq (e := h.entry i) (by rw [cut_entries h p hi]; exact getElem?_entry (by omega))]

/-- The last entry at `p`, in place of the one there. -/
theorem fill_indexed (hi : h.Indexed) (hp : p < h.entries.length - 1) :
    ((h.cut p).place p (h.entry (h.entries.length - 1))).Indexed ∧
      ∀ x, x ∈ ((h.cut p).place p (h.entry (h.entries.length - 1))).entries ↔
        x ∈ h.entries ∧ x.slot ≠ (h.entry p).slot := by
  have hgone := getElem?_entry (h := h) (p := p) (by omega)
  have hlast := getElem?_entry (h := h) (p := h.entries.length - 1) (by omega)
  generalize h.entry p = gone at hgone
  generalize hgen : h.entry (h.entries.length - 1) = last at hlast
  have hcut : (h.cut p).entries = h.entries.dropLast := rfl
  have hslots : last.slot ≠ gone.slot := fun heq => by
    have := hi.inj hlast hgone heq
    omega
  have hentry : ∀ i, ((h.cut p).place p last).entries[i]? =
      if i = p then some last else if i < h.entries.length - 1 then h.entries[i]? else none := by
    intro i
    rw [place_entries, hcut]
    by_cases hip : i = p
    · rw [if_pos hip, hip, List.getElem?_set_self (by rw [List.length_dropLast]; exact hp)]
    · rw [if_neg hip, List.getElem?_set_ne (Ne.symm hip), List.getElem?_dropLast]
  have hgone' : (h.entry p).slot = gone.slot := by rw [entry_eq hgone]
  have hposition : ∀ s, ((h.cut p).place p last).positions[s]? =
      if s = last.slot then some (some p) else if s = gone.slot then some none else h.positions[s]? := by
    intro s
    rw [place_positions]
    show ((h.positions.set (h.entry p).slot none).set last.slot (some p))[s]? = _
    rw [hgone', List.getElem?_set_set (hi.slot_lt hgone) (hi.slot_lt hlast)]
  refine ⟨⟨fun i x hx => ?_, fun s i hs => ?_⟩, fun x => ?_⟩
  · rw [hentry] at hx
    rw [hposition]
    split at hx
    next hip =>
      cases hx
      rw [if_pos rfl, hip]
    next hip =>
      split at hx
      next hin =>
        rw [if_neg, if_neg fun heq => hip (hi.inj hx hgone heq)]
        · exact hi.forth i x hx
        · intro heq
          have := hi.inj hx hlast heq
          omega
      · cases hx
  · rw [hposition] at hs
    split at hs
    next hsl =>
      cases hs
      exact ⟨last, by rw [hentry, if_pos rfl], hsl.symm⟩
    next hsl =>
      split at hs
      · cases hs
      next hsg =>
        obtain ⟨x, hx, rfl⟩ := hi.back s i hs
        have hip : i ≠ p := by
          rintro rfl
          cases hx.symm.trans hgone
          exact hsg rfl
        have hil : i ≠ h.entries.length - 1 := by
          rintro rfl
          cases hx.symm.trans hlast
          exact hsl rfl
        have hin := (List.getElem?_eq_some_iff.1 hx).1
        exact ⟨x, by rw [hentry, if_neg hip, if_pos (by omega), hx], rfl⟩
  · rw [List.mem_iff_getElem?, List.mem_iff_getElem?]
    constructor
    · rintro ⟨i, hx⟩
      rw [hentry] at hx
      split at hx
      · cases hx
        exact ⟨⟨_, hlast⟩, hslots⟩
      next hip =>
        split at hx
        · exact ⟨⟨i, hx⟩, fun heq => hip (hi.inj hx hgone heq)⟩
        · cases hx
    · rintro ⟨⟨i, hx⟩, hne⟩
      by_cases hil : i = h.entries.length - 1
      · rw [hil, hlast] at hx
        exact ⟨p, by rw [hentry, if_pos rfl]; exact hx⟩
      · have hin := (List.getElem?_eq_some_iff.1 hx).1
        refine ⟨i, ?_⟩
        rw [hentry, if_neg, if_pos (by omega), hx]
        rintro rfl
        cases hx.symm.trans hgone
        exact hne rfl

/-- The last entry, cut off. -/
theorem cut_indexed (hi : h.Indexed) (hp : p + 1 = h.entries.length) :
    (h.cut p).Indexed ∧ ∀ x, x ∈ (h.cut p).entries ↔ x ∈ h.entries ∧ x.slot ≠ (h.entry p).slot := by
  have hgone := getElem?_entry (h := h) (p := p) (by omega)
  have hentry : ∀ i, (h.cut p).entries[i]? = if i < p then h.entries[i]? else none := by
    intro i
    rw [cut, List.getElem?_dropLast, show h.entries.length - 1 = p by omega]
  have hposition : ∀ s, (h.cut p).positions[s]? = if s = (h.entry p).slot then some none else h.positions[s]? := by
    intro s
    show (h.positions.set (h.entry p).slot none)[s]? = _
    by_cases hsg : s = (h.entry p).slot
    · rw [if_pos hsg, hsg, List.getElem?_set_self (hi.slot_lt hgone)]
    · rw [if_neg hsg, List.getElem?_set_ne (Ne.symm hsg)]
  refine ⟨⟨fun i x hx => ?_, fun s i hs => ?_⟩, fun x => ?_⟩
  · rw [hentry] at hx
    split at hx
    next hip =>
      rw [hposition, if_neg]
      · exact hi.forth i x hx
      · intro heq
        have := hi.inj hx hgone heq
        omega
    · cases hx
  · rw [hposition] at hs
    split at hs
    · cases hs
    next hsg =>
      obtain ⟨x, hx, rfl⟩ := hi.back s i hs
      have hip : i ≠ p := by
        rintro rfl
        cases hx.symm.trans hgone
        exact hsg rfl
      have hin := (List.getElem?_eq_some_iff.1 hx).1
      exact ⟨x, by rw [hentry, if_pos (by omega), hx], rfl⟩
  · rw [List.mem_iff_getElem?, List.mem_iff_getElem?]
    constructor
    · rintro ⟨i, hx⟩
      rw [hentry] at hx
      split at hx
      next hip =>
        refine ⟨⟨i, hx⟩, fun heq => ?_⟩
        have := hi.inj hx hgone heq
        omega
      · cases hx
    · rintro ⟨⟨i, hx⟩, hne⟩
      have hin := (List.getElem?_eq_some_iff.1 hx).1
      refine ⟨i, ?_⟩
      rw [hentry, if_pos, hx]
      by_contra hip
      obtain rfl : i = p := by omega
      cases hx.symm.trans hgone
      exact hne rfl

/-- **Taking an entry out** takes out that one alone. -/
theorem removeAt_spec (hv : h.Valid) (hp : p < h.entries.length) :
    (h.removeAt p).Valid ∧ (h.removeAt p).positions.length = h.positions.length ∧
      ∀ x, x ∈ (h.removeAt p).entries ↔ x ∈ h.entries ∧ x.slot ≠ (h.entry p).slot := by
  have hcutlen : (h.cut p).entries.length = h.entries.length - 1 := List.length_dropLast
  have hcutslots : (h.cut p).positions.length = h.positions.length := List.length_set
  have hremove : h.removeAt p = if p = (h.cut p).entries.length then h.cut p
      else
        if 0 < p ∧ (h.entry (h.entries.length - 1)).precedes
            (((h.cut p).place p (h.entry (h.entries.length - 1))).entry (parent p)) then
          ((h.cut p).place p (h.entry (h.entries.length - 1))).siftUp p
        else ((h.cut p).place p (h.entry (h.entries.length - 1))).siftDown p := rfl
  rw [hremove, hcutlen]
  split
  next hend =>
    obtain ⟨hindexed, hmem⟩ := cut_indexed hv.indexed (p := p) (by omega)
    refine ⟨⟨hindexed, ?_⟩, hcutslots, hmem⟩
    rw [hcutlen]
    exact (hv.ordered.mono (Nat.sub_le _ _)).congr fun i hi => h.cut_keys p hi
  next hmid =>
    have hp' : p < h.entries.length - 1 := by omega
    obtain ⟨hindexed, hmem⟩ := fill_indexed hv.indexed hp'
    generalize hlast : h.entry (h.entries.length - 1) = last at hindexed hmem ⊢
    have hpc : p < (h.cut p).entries.length := by rw [hcutlen]; exact hp'
    have hlen : ((h.cut p).place p last).entries.length = h.entries.length - 1 := by
      rw [place_entries, List.length_set, hcutlen]
    have hslots : ((h.cut p).place p last).positions.length = h.positions.length := by
      rw [place_positions, List.length_set, hcutslots]
    have hordered : Ordered (h.entries.length - 1) h.keys := hv.ordered.mono (Nat.sub_le _ _)
    have hkeys : ∀ i, i < h.entries.length - 1 →
        ((h.cut p).place p last).keys i = Function.update h.keys p last.key i := by
      intro i hi
      rw [place_keys hpc]
      by_cases hip : i = p
      · rw [hip, Function.update_self, Function.update_self]
      · rw [Function.update_of_ne hip, Function.update_of_ne hip, h.cut_keys p hi]
    have habove (hpos : 0 < p) : ((h.cut p).place p last).keys (parent p) = h.keys (parent p) := by
      have hlt : parent p < p := BinaryHeap.parent_lt hpos
      rw [hkeys _ (hlt.trans hp'), Function.update_of_ne hlt.ne]
    split
    next hup =>
      -- it belongs above what it stands for: that was no lower than its parent
      obtain ⟨hmoved, hsorted⟩ := siftUp_spec hindexed (p := p) (by rw [hlen]; exact hp') (by
        rw [hlen]
        refine (hordered.lowered hp' ?_).congr hp' hkeys
        have hbefore := TimerEntry.precedes_iff.1 hup.2
        have hkey : last.key < h.keys (parent p) := (habove hup.1) ▸ hbefore
        exact hkey.le.trans (hordered p hup.1 hp'))
      exact ⟨hmoved.valid rfl hsorted, hmoved.slots.trans hslots, fun x => (hmoved.mem x).trans (hmem x)⟩
    next hdown =>
      obtain ⟨hmoved, hsorted⟩ := siftDown_spec hindexed (p := p) (by rw [hlen]; exact hp') (by
        rw [hlen]
        refine (hordered.raised hp' fun hpos => ?_).congr hp' hkeys
        have hafter := TimerEntry.not_precedes_iff.1 fun hbefore => hdown ⟨hpos, hbefore⟩
        exact (habove hpos) ▸ hafter)
      exact ⟨hmoved.valid rfl hsorted, hmoved.slots.trans hslots, fun x => (hmoved.mem x).trans (hmem x)⟩

theorem Indexed.nodup (hi : h.Indexed) : h.entries.Nodup := by
  refine List.pairwise_iff_getElem.2 fun p p' hp hp' hlt heq => ?_
  exact hlt.ne (hi.inj (List.getElem?_eq_getElem hp) (List.getElem?_eq_getElem hp') (congrArg TimerEntry.slot heq))

/-- There is one entry fewer. -/
theorem removeAt_length_lt (hv : h.Valid) (hp : p < h.entries.length) :
    (h.removeAt p).entries.length < h.entries.length := by
  obtain ⟨hvalid, -, hmem⟩ := removeAt_spec hv hp
  have hnodup : (h.entry p :: (h.removeAt p).entries).Nodup :=
    List.nodup_cons.2 ⟨fun hin => ((hmem _).1 hin).2 rfl, hvalid.indexed.nodup⟩
  refine (List.subperm_of_subset hnodup fun x hx => ?_).length_le
  rcases List.mem_cons.1 hx with rfl | hx
  · exact List.mem_of_getElem? (getElem?_entry hp)
  · exact ((hmem x).1 hx).1

theorem cancel_spec (hv : h.Valid) (slot : Nat) :
    (h.cancel slot).Valid ∧ (h.cancel slot).positions.length = h.positions.length ∧
      ∀ x, x ∈ (h.cancel slot).entries ↔ x ∈ h.entries ∧ x.slot ≠ slot := by
  unfold cancel
  split
  next hnone =>
    have hnone := (position_eq_none hv.indexed).1 hnone
    exact ⟨hv, rfl, fun x => ⟨fun hx => ⟨hx, hnone x hx⟩, fun hx => hx.1⟩⟩
  next p hpos =>
    obtain ⟨at_, hp⟩ := (position_eq_some hv.indexed).1 hpos
    have hspec := removeAt_spec hv (List.getElem?_eq_some_iff.1 hp).1
    rwa [entry_eq hp] at hspec

/-- The least entry, if any. -/
theorem peek_spec (hv : h.Valid) {at_ : Timestamp} (hpeek : h.peek = some (at_, slot)) :
    h.entries[0]? = some ⟨at_, slot⟩ ∧ ∀ x ∈ h.entries, at_ < x.at_ ∨ at_ = x.at_ ∧ slot ≤ x.slot := by
  obtain ⟨e, he, heq⟩ := Option.map_eq_some_iff.1 hpeek
  cases heq
  rw [List.head?_eq_getElem?] at he
  refine ⟨he, fun x hx => ?_⟩
  obtain ⟨i, hi⟩ := List.mem_iff_getElem?.1 hx
  have hle := hv.ordered.least (List.getElem?_eq_some_iff.1 hi).1
  unfold keys at hle
  rw [entry_eq he, entry_eq hi] at hle
  rcases Prod.Lex.toLex_le_toLex.1 hle with hlt | ⟨hsame, hslots⟩
  · exact .inl hlt
  · exact .inr ⟨Timestamp.ext hsame, hslots⟩

/-- **Popping what is due** takes out the least entry at or before `now`, where
there is one. -/
theorem popDue_spec (hv : h.Valid) (now : Timestamp) :
    (h.popDue now = (h, none) ∧ ∀ x ∈ h.entries, now < x.at_) ∨
    ∃ at_ slot, h.popDue now = (h.removeAt 0, some slot) ∧ h.entries[0]? = some ⟨at_, slot⟩ ∧ at_ ≤ now ∧
      ∀ x ∈ h.entries, at_ < x.at_ ∨ at_ = x.at_ ∧ slot ≤ x.slot := by
  unfold popDue
  cases hpeek : h.peek with
  | none =>
    have hnil : h.entries = [] := List.head?_eq_none_iff.1 (Option.map_eq_none_iff.1 hpeek)
    exact .inl ⟨rfl, fun x hx => by rw [hnil] at hx; cases hx⟩
  | some found =>
    obtain ⟨at_, slot⟩ := found
    obtain ⟨hfirst, hleast⟩ := peek_spec hv hpeek
    dsimp only
    split
    next hlater =>
      refine .inl ⟨rfl, fun x hx => ?_⟩
      rcases hleast x hx with hlt | ⟨heq, -⟩
      · exact Nat.lt_trans hlater hlt
      · exact heq ▸ hlater
    next hdue => exact .inr ⟨at_, slot, rfl, hfirst, Nat.not_lt.1 hdue, hleast⟩

end TimerHeap

/-! ## Runs -/

inductive TimerOp
  | set (slot : Nat) (at_ : Timestamp)
  | cancel (slot : Nat)
  | popDue (now : Timestamp)

/-- A heap, and the map from slots to deadlines it stands for. -/
structure Timed where
  heap : TimerHeap
  map : Nat → Option Timestamp

namespace Timed

variable {t : Timed}

def after (t : Timed) : TimerOp → Timed
  | .set slot at_ => ⟨t.heap.set slot at_, Function.update t.map slot (some at_)⟩
  | .cancel slot => ⟨t.heap.cancel slot, Function.update t.map slot none⟩
  | .popDue now =>
    ⟨(t.heap.popDue now).1,
      match (t.heap.popDue now).2 with
      | none => t.map
      | some slot => Function.update t.map slot none⟩

/-- The slot is one there is room for; any other is out of bounds. -/
def Within (slots : Nat) : TimerOp → Prop
  | .set slot _ | .cancel slot => slot < slots
  | .popDue _ => True

/-- Every sequence of operations on a heap for `slots` slots. -/
def sys (slots : Nat) : Lts.Sys Timed TimerOp where
  start t := t = ⟨.withSlots slots, fun _ => none⟩
  step t op t' := t' = t.after op

structure Refined (slots : Nat) (t : Timed) : Prop where
  valid : t.heap.Valid
  slots_eq : t.heap.positions.length = slots
  mem_iff : ∀ slot at_, ⟨at_, slot⟩ ∈ t.heap.entries ↔ t.map slot = some at_

/-- Entries of a slot removed, and the map cleared there. -/
theorem mem_cleared (h : ∀ slot at_, ⟨at_, slot⟩ ∈ t.heap.entries ↔ t.map slot = some at_) {heap : TimerHeap} {gone : Nat}
    (hmem : ∀ x, x ∈ heap.entries ↔ x ∈ t.heap.entries ∧ x.slot ≠ gone) (slot : Nat) (at_ : Timestamp) :
    ⟨at_, slot⟩ ∈ heap.entries ↔ Function.update t.map gone none slot = some at_ := by
  rw [hmem, h]
  by_cases hs : slot = gone
  · rw [hs, Function.update_self]
    exact ⟨fun hx => (hx.2 rfl).elim, fun hx => (nomatch hx)⟩
  · rw [Function.update_of_ne hs]
    exact and_iff_left hs

theorem Refined.step {slots : Nat} (h : t.Refined slots) (op : TimerOp) (hop : Within slots op) :
    (t.after op).Refined slots := by
  cases op with
  | set slot at_ =>
    obtain ⟨hvalid, hlen, hmem⟩ := TimerHeap.set_spec h.valid (by rw [h.slots_eq]; exact hop) at_
    refine ⟨hvalid, hlen.trans h.slots_eq, fun slot' at' => ?_⟩
    show _ ∈ (t.heap.set slot at_).entries ↔ Function.update t.map slot (some at_) slot' = some at'
    rw [hmem, h.mem_iff]
    by_cases hs : slot' = slot
    · rw [hs, Function.update_self, Option.some.injEq]
      constructor
      · rintro (hx | ⟨-, hne⟩)
        · cases hx
          rfl
        · exact (hne rfl).elim
      · rintro rfl
        exact .inl rfl
    · rw [Function.update_of_ne hs]
      constructor
      · rintro (hx | ⟨hx, -⟩)
        · cases hx
          exact (hs rfl).elim
        · exact hx
      · exact fun hx => .inr ⟨hx, hs⟩
  | cancel slot =>
    obtain ⟨hvalid, hlen, hmem⟩ := TimerHeap.cancel_spec h.valid slot
    exact ⟨hvalid, hlen.trans h.slots_eq, mem_cleared h.mem_iff hmem⟩
  | popDue now =>
    unfold after
    dsimp only
    rcases TimerHeap.popDue_spec h.valid now with ⟨heq, -⟩ | ⟨at_, slot, heq, hfirst, -⟩
    · rw [heq]
      exact ⟨h.valid, h.slots_eq, h.mem_iff⟩
    · obtain ⟨hvalid, hlen, hmem⟩ := TimerHeap.removeAt_spec h.valid (List.getElem?_eq_some_iff.1 hfirst).1
      rw [TimerHeap.entry_eq hfirst] at hmem
      rw [heq]
      exact ⟨hvalid, hlen.trans h.slots_eq, mem_cleared h.mem_iff hmem⟩

theorem reach_refined {slots : Nat} (h : Lts.Reach (sys slots) (fun _ => Within slots) t) : t.Refined slots := by
  refine Lts.Reach.invariant (P := Refined slots) ?_ ?_ h
  · rintro _ rfl
    exact ⟨TimerHeap.withSlots_valid slots, List.length_replicate,
      fun slot at_ => ⟨fun hx => (nomatch hx), fun hx => (nomatch hx)⟩⟩
  · rintro t op t' - ht hop rfl
    exact ht.step op hop

theorem Refined.deadline_eq {slots : Nat} (h : t.Refined slots) (slot : Nat) : t.heap.deadline slot = t.map slot := by
  refine Option.ext fun at_ => ?_
  rw [h.valid.indexed.deadline_eq_some, h.mem_iff]

/-- **The timer heap is a map from slots to deadlines.** Over every sequence of
operations on slots there are: no entry precedes its parent, entries and
positions are each other's inverse, a slot's deadline is the map's, and
`pop_due` answers with the least deadline at or before `now` and takes it out
alone, or answers `none` where none is due and leaves the heap as it was. -/
theorem timers_refine {slots : Nat} (h : Lts.Reach (sys slots) (fun _ => Within slots) t) :
    (∀ i, 0 < i → i < t.heap.entries.length →
      (t.heap.entry i).precedes (t.heap.entry (TimerHeap.parent i)) = false) ∧
    (∀ (i : Nat) (e : TimerEntry), t.heap.entries[i]? = some e → t.heap.positions[e.slot]? = some (some i)) ∧
    (∀ slot i : Nat, t.heap.positions[slot]? = some (some i) →
      ∃ e : TimerEntry, t.heap.entries[i]? = some e ∧ e.slot = slot) ∧
    (∀ slot, t.heap.deadline slot = t.map slot) ∧
    ∀ now,
      (t.heap.popDue now = (t.heap, none) ∧ ∀ slot at_, t.map slot = some at_ → now < at_) ∨
      ∃ heap slot at_, t.heap.popDue now = (heap, some slot) ∧ t.map slot = some at_ ∧ at_ ≤ now ∧
        (∀ slot' at', t.map slot' = some at' → at_ < at' ∨ at_ = at' ∧ slot ≤ slot') ∧
        ∀ slot', heap.deadline slot' = if slot' = slot then none else t.map slot' := by
  have hr := reach_refined h
  refine ⟨fun i hi hin => ?_, hr.valid.indexed.forth, hr.valid.indexed.back, hr.deadline_eq, fun now => ?_⟩
  · rw [Bool.eq_false_iff]
    exact TimerEntry.not_precedes_iff.2 (hr.valid.ordered i hi hin)
  · have hnext := hr.step (.popDue now) trivial
    rcases TimerHeap.popDue_spec hr.valid now with ⟨heq, hnone⟩ | ⟨at_, slot, heq, hfirst, hdue, hleast⟩
    · exact .inl ⟨heq, fun slot at_ hmap => hnone _ ((hr.mem_iff slot at_).2 hmap)⟩
    · refine .inr ⟨_, slot, at_, heq, (hr.mem_iff slot at_).1 (List.mem_of_getElem? hfirst), hdue,
        fun slot' at' hmap => hleast _ ((hr.mem_iff slot' at').2 hmap), fun slot' => ?_⟩
      have hdeadline := hnext.deadline_eq slot'
      dsimp only [after] at hdeadline
      rw [heq] at hdeadline
      refine hdeadline.trans ?_
      show Function.update t.map slot none slot' = _
      by_cases hs : slot' = slot
      · rw [if_pos hs, hs, Function.update_self]
      · rw [if_neg hs, Function.update_of_ne hs]

/-- Three deadlines, one of them moved back. -/
def sample : Timed :=
  ((((Timed.mk (.withSlots 3) fun _ => none).after (.set 2 ⟨5, by decide⟩)).after (.set 0 ⟨7, by decide⟩)).after
    (.set 1 ⟨5, by decide⟩)).after (.set 2 ⟨9, by decide⟩)

theorem timers_refine_sample :
    (sample.heap.popDue ⟨6, by decide⟩).2 = some 1 ∧ sample.heap.deadline 2 = sample.map 2 ∧
    ∃ heap slot at_, sample.heap.popDue ⟨6, by decide⟩ = (heap, some slot) ∧ sample.map slot = some at_ ∧
      ∀ slot' at', sample.map slot' = some at' → at_ < at' ∨ at_ = at' ∧ slot ≤ slot' := by
  have hwithin : ∀ slot {at_}, slot < 3 → Within 3 (.set slot at_) := fun _ _ h => h
  have hreach : Lts.Reach (sys 3) (fun _ => Within 3) sample :=
    .step (.step (.step (.step (.start rfl) (hwithin 2 (by decide)) rfl) (hwithin 0 (by decide)) rfl)
      (hwithin 1 (by decide)) rfl) (hwithin 2 (by decide)) rfl
  obtain ⟨-, -, -, hdeadline, hpop⟩ := timers_refine hreach
  have hfound : (sample.heap.popDue ⟨6, by decide⟩).2 = some 1 := by decide
  rcases hpop ⟨6, by decide⟩ with ⟨heq, -⟩ | ⟨heap, slot, at_, heq, hmap, -, hleast, -⟩
  · rw [heq] at hfound
    cases hfound
  · exact ⟨hfound, hdeadline 2, heap, slot, at_, heq, hmap, hleast⟩

end Timed
end HexNet
