/-
A slab is a map from handles to items: `Sound` ties slots, items, owners and
the free list together, every operation keeps it, and each operation is what
it is on the map (`insertWith_spec`, `get_remove`, `get_modify`).
-/
import Mathlib.Data.List.Nodup
import HexNet.Lib.Linked
import HexNet.Slab

namespace HexNet

theorem Handle.ext_of {h h' : Handle} (hindex : h.index = h'.index) (hgen : h.generation = h'.generation) : h = h' := by
  cases h
  cases h'
  cases hindex
  cases hgen
  rfl

theorem Handle.occupying_eq_some {index : Nat} {generation : UInt32} {h : Handle} :
    Handle.occupying index generation = some h ↔ h.index = index ∧ h.generation = generation := by
  unfold occupying
  constructor
  · intro hsome
    split at hsome
    · cases hsome
      exact ⟨rfl, rfl⟩
    · cases hsome
  · rintro ⟨rfl, rfl⟩
    exact dif_pos h.odd

namespace Slab

variable {T : Type}

theorem slot_eq {s : Slab T} {i : Nat} {x : Slot} (h : s.slots[i]? = some x) : s.slot i = x := by
  rw [slot, List.getD_eq_getElem?_getD, h, Option.getD_some]

/-- Slots, items and owners fit together. -/
structure Fits (s : Slab T) : Prop where
  len_eq : s.owners.length = s.items.length
  slots_le : s.slots.length ≤ s.capacity
  /-- An item's owner is an occupied slot that points back at it. -/
  owned : ∀ d i, s.owners[d]? = some i →
    ∃ x : Slot, s.slots[i]? = some x ∧ x.generation.toNat % 2 = 1 ∧ x.indexOrFree = d
  /-- An occupied slot owns the item it points at. -/
  occupied : ∀ i (x : Slot), s.slots[i]? = some x → x.generation.toNat % 2 = 1 → s.owners[x.indexOrFree]? = some i

/-- The free list, from its head: free slots, none of them retired. -/
structure FreeList (s : Slab T) (fs : List Nat) : Prop where
  chain : Linked (fun i => (s.slot i).indexOrFree) absent s.freeHead fs
  nodup : fs.Nodup
  free : ∀ i ∈ fs, i < s.slots.length ∧ (s.slot i).generation.toNat % 2 = 0 ∧ (s.slot i).generation ≠ 0

/-- All of it fits together: the free list is of every free slot that has not
been retired. -/
structure Sound (s : Slab T) : Prop extends Fits s where
  free : ∃ fs, FreeList s fs ∧
    ∀ i (x : Slot), s.slots[i]? = some x → x.generation.toNat % 2 = 0 → x.generation ≠ 0 → i ∈ fs

theorem withCapacity_sound (capacity : Nat) (h : capacity < absent) : (withCapacity capacity h : Slab T).Sound where
  len_eq := rfl
  slots_le := Nat.zero_le _
  owned d i hd := by cases hd
  occupied i x hx := by cases hx
  free := ⟨[], ⟨rfl, List.nodup_nil, by simp⟩, fun _ _ hx => by cases hx⟩

/-! ## Reading -/

theorem denseIndex_eq_some {s : Slab T} {h : Handle} {d : Nat} :
    s.denseIndex h = some d ↔ ∃ x, s.slots[h.index]? = some x ∧ x.generation = h.generation ∧ x.indexOrFree = d := by
  simp only [denseIndex, Option.bind_eq_some_iff, Option.ite_none_right_eq_some, Option.some.injEq]

/-- A handle that finds a slot finds an item. -/
theorem Fits.dense {s : Slab T} (h : s.Fits) {handle : Handle} {d : Nat} (hd : s.denseIndex handle = some d) :
    s.owners[d]? = some handle.index ∧ d < s.items.length := by
  obtain ⟨x, hx, hgen, rfl⟩ := denseIndex_eq_some.1 hd
  have howner := h.occupied _ x hx (by rw [hgen]; exact handle.odd)
  exact ⟨howner, by rw [← h.len_eq]; exact (List.getElem?_eq_some_iff.1 howner).1⟩

theorem Sound.contains_iff {s : Slab T} (h : s.Sound) (handle : Handle) :
    s.contains handle = true ↔ (s.get handle).isSome = true := by
  unfold contains get
  cases hd : s.denseIndex handle with
  | none => rfl
  | some d =>
    rw [Option.bind_some, List.getElem?_eq_getElem (h.dense hd).2]
    rfl

/-- An occupied slot answers to the handle of its generation. -/
theorem Sound.handleAt_iff {s : Slab T} (h : s.Sound) {index : Nat} {handle : Handle} :
    s.handleAt index = some handle ↔ handle.index = index ∧ (s.get handle).isSome = true := by
  simp only [handleAt, Option.bind_eq_some_iff, Handle.occupying_eq_some]
  rw [← h.contains_iff, contains, Option.isSome_iff_exists]
  constructor
  · rintro ⟨x, hx, rfl, hgen⟩
    exact ⟨rfl, x.indexOrFree, denseIndex_eq_some.2 ⟨x, hx, hgen.symm, rfl⟩⟩
  · rintro ⟨rfl, d, hd⟩
    obtain ⟨x, hx, hgen, -⟩ := denseIndex_eq_some.1 hd
    exact ⟨x, hx, rfl, hgen.symm⟩

/-- Live handles of one slot are one handle. -/
theorem Sound.unique {s : Slab T} (h : s.Sound) {a b : Handle} (ha : (s.get a).isSome = true)
    (hb : (s.get b).isSome = true) (hindex : a.index = b.index) : a = b :=
  Option.some.inj ((h.handleAt_iff.2 ⟨hindex, ha⟩).symm.trans (h.handleAt_iff.2 ⟨rfl, hb⟩))

theorem Sound.index_lt {s : Slab T} (h : s.Sound) {handle : Handle} (hlive : (s.get handle).isSome = true) :
    handle.index < s.capacity := by
  obtain ⟨d, hd⟩ := Option.isSome_iff_exists.1 ((h.contains_iff handle).2 hlive)
  obtain ⟨x, hx, -⟩ := denseIndex_eq_some.1 hd
  exact Nat.lt_of_lt_of_le (List.getElem?_eq_some_iff.1 hx).1 h.slots_le

theorem Sound.mem_handles {s : Slab T} (h : s.Sound) {handle : Handle} :
    handle ∈ s.handles ↔ (s.get handle).isSome = true := by
  rw [handles, List.mem_filterMap]
  constructor
  · rintro ⟨i, -, hat⟩
    exact (h.handleAt_iff.1 hat).2
  · intro hlive
    obtain ⟨d, hd⟩ := Option.isSome_iff_exists.1 ((h.contains_iff handle).2 hlive)
    exact ⟨handle.index, List.mem_of_getElem? (h.dense hd).1, h.handleAt_iff.2 ⟨rfl, hlive⟩⟩

theorem handleAt_index {s : Slab T} {index : Nat} {handle : Handle} (h : s.handleAt index = some handle) :
    handle.index = index := by
  obtain ⟨x, -, hx⟩ := Option.bind_eq_some_iff.1 h
  exact (Handle.occupying_eq_some.1 hx).1

/-- A slot points at one item, so no two items have one owner. -/
theorem Sound.handles_nodup {s : Slab T} (h : s.Sound) : s.handles.Nodup := by
  have howners : s.owners.Nodup := by
    rw [List.nodup_iff_getElem?_ne_getElem?]
    intro d d' hlt hlen heq
    obtain ⟨x, hx, -, hd⟩ := h.owned d _ (heq.trans (List.getElem?_eq_getElem hlen))
    obtain ⟨x', hx', -, hd'⟩ := h.owned d' _ (List.getElem?_eq_getElem hlen)
    cases hx.symm.trans hx'
    omega
  refine howners.filterMap fun i j handle hi hj => ?_
  exact (handleAt_index hi).symm.trans (handleAt_index hj)

/-- There are as many handles as items. -/
theorem Sound.handles_length {s : Slab T} (h : s.Sound) : s.handles.length = s.len := by
  rw [len, ← h.len_eq, handles]
  refine List.filterMap_length_eq_length.2 fun i hi => ?_
  obtain ⟨d, hd⟩ := List.mem_iff_getElem?.1 hi
  obtain ⟨x, hx, hodd, -⟩ := h.owned d i hd
  rw [handleAt, hx, Option.bind_some, Handle.occupying, dif_pos hodd]
  rfl

/-! ## Changing an item -/

theorem modify_sound {s : Slab T} (h : s.Sound) (handle : Handle) (f : T → T) : (s.modify handle f).Sound := by
  unfold modify
  split
  · exact h
  · obtain ⟨fs, hfs, hall⟩ := h.free
    exact ⟨⟨by simpa using h.len_eq, h.slots_le, h.owned, h.occupied⟩, fs, ⟨hfs.chain, hfs.nodup, hfs.free⟩, hall⟩

/-- **Changing an item** is changing the map there. -/
theorem get_modify {s : Slab T} (h : s.Sound) (handle : Handle) (f : T → T) (h' : Handle) :
    (s.modify handle f).get h' = if h' = handle then (s.get handle).map f else s.get h' := by
  unfold modify
  cases hd : s.denseIndex handle with
  | none =>
    dsimp only
    split
    next heq => rw [heq, get, hd]; rfl
    · rfl
  | some d =>
    dsimp only
    have hindex : ∀ x, ({ s with items := s.items.modify d f } : Slab T).denseIndex x = s.denseIndex x := fun _ => rfl
    rw [get, hindex]
    split
    next heq =>
      rw [heq, get, hd]
      simp
    next hne =>
      rw [get]
      cases hd' : s.denseIndex h' with
      | none => rfl
      | some d' =>
        have hdd : d ≠ d' := by
          rintro rfl
          have hsame : handle.index = h'.index := Option.some.inj ((h.dense hd).1.symm.trans (h.dense hd').1)
          obtain ⟨x, hx, hgen, -⟩ := denseIndex_eq_some.1 hd
          obtain ⟨x', hx', hgen', -⟩ := denseIndex_eq_some.1 hd'
          rw [hsame, hx'] at hx
          cases hx
          exact hne (Handle.ext_of hsame.symm (hgen'.symm.trans hgen))
        simp [List.getElem?_modify, hdd]

theorem modify_same {s : Slab T} {h : Handle} {x : T} (hget : s.get h = some x) : s.modify h (fun _ => x) = s := by
  unfold modify
  split
  · rfl
  next dense hd =>
    have hitem : s.items[dense]? = some x := by
      rw [get, hd] at hget
      exact hget
    have hsame : s.items.modify dense (fun _ => x) = s.items := by
      refine List.ext_getElem? fun i => ?_
      by_cases hi : dense = i
      · subst hi
        simp [hitem]
      · simp [hi]
    rw [hsame]

/-! ## Inserting -/

theorem even_succ {g : UInt32} (h : g.toNat % 2 = 0) : (g + 1).toNat % 2 = 1 := by
  have := g.toNat_lt
  rw [UInt32.toNat_add, show (1 : UInt32).toNat = 1 from rfl]
  omega

theorem odd_succ {g : UInt32} (h : g.toNat % 2 = 1) : (g + 1).toNat % 2 = 0 := by
  have := g.toNat_lt
  rw [UInt32.toNat_add, show (1 : UInt32).toNat = 1 from rfl]
  omega

/-- A slot that has been claimed: free, and off the free list. -/
structure Claimed (s : Slab T) (index : Nat) : Prop extends Fits s where
  free_slot : ∃ x : Slot, s.slots[index]? = some x ∧ x.generation.toNat % 2 = 0
  off : ∃ fs, FreeList s fs ∧ index ∉ fs ∧
    ∀ i (x : Slot), s.slots[i]? = some x → x.generation.toNat % 2 = 0 → x.generation ≠ 0 → i ∈ fs ∨ i = index

/-- Nothing is free when the list is at its end. -/
theorem FreeList.eq_nil {s : Slab T} {fs : List Nat} (h : FreeList s fs) (hle : s.slots.length ≤ s.capacity)
    (hhead : s.freeHead = absent) : fs = [] := by
  cases fs with
  | nil => rfl
  | cons c fs =>
    have hc := h.chain.1
    have hlt := (h.free c List.mem_cons_self).1
    have hcap := s.capacity_lt
    omega

/-- A fresh slot, behind those there are. -/
theorem getElem?_fresh {slots : List Slot} {fresh : Slot} {i : Nat} {x : Slot} :
    (slots ++ [fresh])[i]? = some x ↔ slots[i]? = some x ∨ i = slots.length ∧ x = fresh := by
  constructor
  · intro hi
    rcases Nat.lt_trichotomy i slots.length with hlt | rfl | hgt
    · rw [List.getElem?_append_left hlt] at hi
      exact .inl hi
    · rw [List.getElem?_concat_length] at hi
      cases hi
      exact .inr ⟨rfl, rfl⟩
    · rw [List.getElem?_eq_none (by simp; omega)] at hi
      cases hi
  · rintro (hi | ⟨rfl, rfl⟩)
    · rw [List.getElem?_append_left (List.getElem?_eq_some_iff.1 hi).1]
      exact hi
    · exact List.getElem?_concat_length

/-- Claiming the head of the free list. -/
theorem claim_head {s : Slab T} (h : s.Sound) (hhead : s.freeHead ≠ absent) :
    Claimed ({ s with freeHead := (s.slot s.freeHead).indexOrFree } : Slab T) s.freeHead := by
  obtain ⟨fs, hfs, hall⟩ := h.free
  cases fs with
  | nil => exact (hhead hfs.chain).elim
  | cons c fs =>
    obtain ⟨hc, hrest⟩ := hfs.chain
    obtain ⟨hnot, hnodup⟩ := List.nodup_cons.1 hfs.nodup
    obtain ⟨hlt, heven, -⟩ := hfs.free c List.mem_cons_self
    rw [hc]
    refine ⟨⟨h.len_eq, h.slots_le, h.owned, h.occupied⟩, ⟨s.slots[c], List.getElem?_eq_getElem hlt, ?_⟩, fs,
      ⟨hrest, hnodup, fun i hi => hfs.free i (List.mem_cons_of_mem _ hi)⟩, hnot, fun i x hx hxe hne => ?_⟩
    · rwa [slot_eq (List.getElem?_eq_getElem hlt)] at heven
    · exact (List.mem_cons.1 (hall i x hx hxe hne)).symm

/-- Claiming a fresh slot. -/
theorem claim_fresh {s : Slab T} (h : s.Sound) (hhead : s.freeHead = absent) (hroom : s.slots.length < s.capacity) :
    Claimed ({ s with slots := s.slots ++ [⟨0, absent⟩] } : Slab T) s.slots.length := by
  obtain ⟨fs, hfs, hall⟩ := h.free
  obtain rfl := hfs.eq_nil h.slots_le hhead
  refine ⟨⟨h.len_eq, by simpa [Nat.succ_le_iff] using hroom, fun d i hd => ?_, fun i x hx hodd => ?_⟩,
    ⟨_, List.getElem?_concat_length, rfl⟩, [], ⟨hfs.chain, List.nodup_nil, by simp⟩, by simp, fun i x hx hxe hne => ?_⟩
  · obtain ⟨x, hx, hrest⟩ := h.owned d i hd
    exact ⟨x, getElem?_fresh.2 (.inl hx), hrest⟩
  · rcases getElem?_fresh.1 hx with hx | ⟨-, rfl⟩
    · exact h.occupied i x hx hodd
    · cases hodd
  · rcases getElem?_fresh.1 hx with hx | ⟨rfl, -⟩
    · exact .inl (hall i x hx hxe hne)
    · exact .inr rfl

/-- Claiming a slot is invisible to the handles there are. -/
theorem claim_spec {s s' : Slab T} {index : Nat} (h : s.Sound) (hclaim : s.claim = some (s', index)) :
    s'.Claimed index ∧ (∀ handle, s'.denseIndex handle = s.denseIndex handle) ∧ s'.items = s.items ∧
      s'.capacity = s.capacity := by
  unfold claim at hclaim
  split at hclaim
  next hhead =>
    cases hclaim
    exact ⟨claim_head h hhead, fun _ => rfl, rfl, rfl⟩
  next hhead =>
    split at hclaim
    next hroom =>
      cases hclaim
      refine ⟨claim_fresh h (not_not.1 hhead) hroom, fun handle => ?_, rfl, rfl⟩
      refine Option.ext fun d => ?_
      rw [denseIndex_eq_some, denseIndex_eq_some]
      constructor
      · rintro ⟨x, hx, hgen, rfl⟩
        rcases getElem?_fresh.1 hx with hx | ⟨-, rfl⟩
        · exact ⟨x, hx, hgen, rfl⟩
        · have hodd := handle.odd
          rw [← hgen] at hodd
          cases hodd
      · rintro ⟨x, hx, hgen, rfl⟩
        exact ⟨x, getElem?_fresh.2 (.inl hx), hgen, rfl⟩
    · cases hclaim

theorem getElem?_modify_self {l : List Slot} {i : Nat} {x : Slot} (h : l[i]? = some x) (f : Slot → Slot) :
    (l.modify i f)[i]? = some (f x) := by
  simp [h]

theorem getElem?_modify_other {l : List Slot} {i j : Nat} (h : i ≠ j) (f : Slot → Slot) :
    (l.modify i f)[j]? = l[j]? := by
  simp [h]

theorem slot_congr {s s' : Slab T} {i : Nat} (h : s'.slots[i]? = s.slots[i]?) : s'.slot i = s.slot i := by
  rw [slot, slot, List.getD_eq_getElem?_getD, List.getD_eq_getElem?_getD, h]

/-! ### Filling -/

theorem fill_self {s : Slab T} {index : Nat} {x : Slot} (hx : s.slots[index]? = some x) (item : T) :
    (s.fill index item).slots[index]? = some ⟨x.generation + 1, s.items.length⟩ :=
  getElem?_modify_self hx _

theorem fill_other (s : Slab T) {index j : Nat} (hj : j ≠ index) (item : T) :
    (s.fill index item).slots[j]? = s.slots[j]? :=
  getElem?_modify_other hj.symm _

/-- No live handle names a free slot. -/
theorem denseIndex_of_even {s : Slab T} {handle : Handle} {x : Slot} (hx : s.slots[handle.index]? = some x)
    (heven : x.generation.toNat % 2 = 0) : s.denseIndex handle = none := by
  cases hd : s.denseIndex handle with
  | none => rfl
  | some d =>
    obtain ⟨x', hx', hgen, -⟩ := denseIndex_eq_some.1 hd
    rw [hx] at hx'
    cases hx'
    have hodd := handle.odd
    rw [← hgen] at hodd
    omega

theorem Claimed.fill_fits {s : Slab T} {index : Nat} (h : s.Claimed index) (item : T) : (s.fill index item).Fits := by
  obtain ⟨x, hx, heven⟩ := h.free_slot
  refine ⟨by simp [fill, h.len_eq], by simpa [fill] using h.slots_le, ?_, ?_⟩
  · intro d i hd
    have hd : (s.owners ++ [index])[d]? = some i := hd
    rcases Nat.lt_trichotomy d s.owners.length with hlt | rfl | hgt
    · rw [List.getElem?_append_left hlt] at hd
      obtain ⟨y, hy, hodd, hback⟩ := h.owned d i hd
      have hne : i ≠ index := by
        rintro rfl
        rw [hx] at hy
        cases hy
        omega
      exact ⟨y, by rw [fill_other s hne]; exact hy, hodd, hback⟩
    · rw [List.getElem?_concat_length] at hd
      cases hd
      exact ⟨_, fill_self hx item, even_succ heven, h.len_eq.symm⟩
    · rw [List.getElem?_eq_none (by simp; omega)] at hd
      cases hd
  · intro i y hy hodd
    show (s.owners ++ [index])[y.indexOrFree]? = some i
    by_cases hi : i = index
    · subst hi
      rw [fill_self hx] at hy
      cases hy
      rw [← h.len_eq]
      exact List.getElem?_concat_length
    · rw [fill_other s hi] at hy
      have howner := h.occupied i y hy hodd
      rw [List.getElem?_append_left (List.getElem?_eq_some_iff.1 howner).1]
      exact howner

/-- The slot filled is off the free list, which stays as it is. -/
theorem Claimed.fill_sound {s : Slab T} {index : Nat} (h : s.Claimed index) (item : T) : (s.fill index item).Sound := by
  obtain ⟨x, hx, heven⟩ := h.free_slot
  obtain ⟨fs, hfs, hoff, hall⟩ := h.off
  have hsame : ∀ i ∈ fs, (s.fill index item).slot i = s.slot i := by
    intro i hi
    have hne : i ≠ index := fun he => hoff (he ▸ hi)
    exact slot_congr (fill_other s hne item)
  refine ⟨h.fill_fits item, fs, ⟨?_, hfs.nodup, ?_⟩, ?_⟩
  · exact hfs.chain.congr fun i hi => by rw [hsame i hi]
  · intro i hi
    rw [hsame i hi]
    simpa [fill] using hfs.free i hi
  · intro i y hy hyeven hne
    by_cases hi : i = index
    · subst hi
      rw [fill_self hx] at hy
      cases hy
      exact (Nat.one_ne_zero ((even_succ heven).symm.trans hyeven)).elim
    · rw [fill_other s hi] at hy
      exact (hall i y hy hyeven hne).resolve_right hi

/-- What a filled slab answers: the item under its handle, all else as before. -/
theorem Claimed.get_fill {s : Slab T} {handle : Handle} {x : Slot} (h : s.Claimed handle.index)
    (hx : s.slots[handle.index]? = some x) (heven : x.generation.toNat % 2 = 0)
    (hgen : handle.generation = x.generation + 1) (item : T) (h' : Handle) :
    (s.fill handle.index item).get h' = if h' = handle then some item else s.get h' := by
  split
  next heq =>
    subst heq
    have hdense : (s.fill h'.index item).denseIndex h' = some s.items.length :=
      denseIndex_eq_some.2 ⟨_, fill_self hx item, hgen.symm, rfl⟩
    rw [get, hdense, Option.bind_some]
    exact List.getElem?_concat_length
  next hne =>
    by_cases hindex : h'.index = handle.index
    · have hnone : (s.fill handle.index item).denseIndex h' = none := by
        cases hd : (s.fill handle.index item).denseIndex h' with
        | none => rfl
        | some d =>
          obtain ⟨y, hy, hgen', -⟩ := denseIndex_eq_some.1 hd
          rw [hindex, fill_self hx] at hy
          cases hy
          exact (hne (Handle.ext_of hindex (hgen'.symm.trans hgen.symm))).elim
      rw [get, hnone, get, denseIndex_of_even (by rw [hindex]; exact hx) heven]
      rfl
    · have hsame : (s.fill handle.index item).denseIndex h' = s.denseIndex h' := by
        rw [denseIndex, fill_other s hindex]
        rfl
      rw [get, hsame, get]
      cases hd : s.denseIndex h' with
      | none => rfl
      | some d => exact List.getElem?_append_left (h.dense hd).2

/-- Filling a claimed slot. -/
theorem fill_spec {s : Slab T} {index : Nat} (h : s.Claimed index) {handle : Handle}
    (hhandle : Handle.occupying index ((s.slot index).generation + 1) = some handle) (item : T) :
    (s.fill index item).Sound ∧ s.get handle = none ∧
      (∀ live, (s.get live).isSome = true → live.index ≠ handle.index) ∧
      ∀ h', (s.fill index item).get h' = if h' = handle then some item else s.get h' := by
  obtain ⟨x, hx, heven⟩ := h.free_slot
  obtain ⟨rfl, hgen⟩ := Handle.occupying_eq_some.1 hhandle
  rw [slot_eq hx] at hgen
  refine ⟨h.fill_sound item, by rw [get, denseIndex_of_even hx heven]; rfl, ?_, h.get_fill hx heven hgen item⟩
  intro live hlive hindex
  rw [get, denseIndex_of_even (by rw [hindex]; exact hx) heven] at hlive
  cases hlive

/-- **Inserting** gives a handle no live one shares a slot with, and leaves the
rest of the map as it was. -/
theorem insertWith_spec {s : Slab T} (h : s.Sound) (make : Handle → T) :
    (s.insertWith make = (s, none)) ∨ ∃ s' handle, s.insertWith make = (s', some handle) ∧ s'.Sound ∧
      s'.capacity = s.capacity ∧ s.get handle = none ∧
      (∀ live, (s.get live).isSome = true → live.index ≠ handle.index) ∧
      ∀ h', s'.get h' = if h' = handle then some (make handle) else s.get h' := by
  unfold insertWith
  cases hclaim : s.claim with
  | none => exact .inl rfl
  | some r =>
    obtain ⟨s', index⟩ := r
    obtain ⟨hclaimed, hdense, hitems, hcap⟩ := claim_spec h hclaim
    have hget : ∀ h', s'.get h' = s.get h' := fun h' => by rw [get, get, hdense, hitems]
    dsimp only
    cases hhandle : Handle.occupying index ((s'.slot index).generation + 1) with
    | none => exact .inl rfl
    | some handle =>
      obtain ⟨hsound, hnone, hslot, hfill⟩ := fill_spec hclaimed hhandle (make handle)
      refine .inr ⟨_, handle, rfl, hsound, hcap, by rw [← hget]; exact hnone, fun live hlive => ?_, fun h' => ?_⟩
      · exact hslot live (by rw [hget]; exact hlive)
      · rw [hfill, hget]

/-! ## Removing -/

/-- The slot whose item is at the end, once that item has moved to `dense`. -/
def moved (s : Slab T) (dense : Nat) (x : Slot) : Slot :=
  if x.generation.toNat % 2 = 1 ∧ x.indexOrFree = s.items.length - 1 then { x with indexOrFree := dense } else x

theorem moved_generation (s : Slab T) (dense : Nat) (x : Slot) : (s.moved dense x).generation = x.generation := by
  unfold moved
  split <;> rfl

theorem moved_free {s : Slab T} {dense : Nat} {x : Slot} (h : x.generation.toNat % 2 = 0) : s.moved dense x = x :=
  if_neg fun hx => by omega

/-- Slots other than the one emptied, after its item was taken out. -/
theorem takeOut_slots {s : Slab T} (h : s.Sound) {handle : Handle} {dense : Nat}
    (hd : s.denseIndex handle = some dense) {j : Nat} (hj : j ≠ handle.index) :
    (s.takeOut dense).slots[j]? = s.slots[j]?.map (s.moved dense) := by
  obtain ⟨howner, hlt⟩ := h.dense hd
  have hlast : s.items.length - 1 < s.owners.length := by rw [h.len_eq]; omega
  obtain ⟨y, hy, hodd, hback⟩ := h.owned _ _ (List.getElem?_eq_getElem hlast)
  -- only the owner of the last item is touched, and only when that item moves
  have hunmoved : j ≠ s.owners[s.items.length - 1] → s.slots[j]?.map (s.moved dense) = s.slots[j]? := by
    intro hne
    cases hx : s.slots[j]? with
    | none => rfl
    | some x =>
      rw [Option.map_some, moved, if_neg]
      rintro ⟨hxodd, hxlast⟩
      have hown := h.occupied j x hx hxodd
      rw [hxlast, List.getElem?_eq_getElem hlast] at hown
      exact hne (Option.some.inj hown).symm
  unfold takeOut
  dsimp only
  rw [List.length_swapRemove]
  by_cases hend : dense < s.items.length - 1
  · have hmoves : (s.owners.swapRemove dense).getD dense absent = s.owners[s.items.length - 1] := by
      rw [List.getD_eq_getElem?_getD, List.getElem?_swapRemove _ (by omega), h.len_eq, if_pos hend, if_pos rfl,
        List.getElem?_eq_getElem hlast, Option.getD_some]
    rw [if_pos hend, hmoves]
    by_cases hjm : j = s.owners[s.items.length - 1]
    · rw [hjm, getElem?_modify_self hy, hy, Option.map_some, moved, if_pos ⟨hodd, hback⟩]
    · rw [getElem?_modify_other (fun he => hjm he.symm), hunmoved hjm]
  · rw [if_neg hend, hunmoved]
    rintro rfl
    have hsame : dense = s.items.length - 1 := by omega
    rw [hsame, List.getElem?_eq_getElem hlast] at howner
    exact hj (Option.some.inj howner)

theorem takeOut_self {s : Slab T} {handle : Handle} {dense : Nat}
    (hd : s.denseIndex handle = some dense) :
    ∃ x : Slot, (s.takeOut dense).slots[handle.index]? = some x ∧ x.generation = handle.generation := by
  obtain ⟨x, hx, hgen, -⟩ := denseIndex_eq_some.1 hd
  unfold takeOut
  dsimp only
  split
  · rw [List.getElem?_modify, hx]
    exact ⟨_, rfl, by split <;> exact hgen⟩
  · exact ⟨x, hx, hgen⟩

/-- What is left of the slots once a handle is removed. -/
structure Removed (s s' : Slab T) (handle : Handle) (dense : Nat) : Prop where
  items : s'.items = s.items.swapRemove dense
  owners : s'.owners = s.owners.swapRemove dense
  capacity : s'.capacity = s.capacity
  length : s'.slots.length = s.slots.length
  self : ∃ x : Slot, s'.slots[handle.index]? = some x ∧ x.generation = handle.generation + 1
  others : ∀ j, j ≠ handle.index → s'.slots[j]? = s.slots[j]?.map (s.moved dense)
  /-- The slot goes to the head of the free list, or is retired. -/
  freed : (handle.generation + 1 ≠ 0 ∧ s'.freeHead = handle.index ∧ (s'.slot handle.index).indexOrFree = s.freeHead) ∨
    handle.generation + 1 = 0 ∧ s'.freeHead = s.freeHead

theorem length_takeOut (s : Slab T) (dense : Nat) : (s.takeOut dense).slots.length = s.slots.length := by
  unfold takeOut
  dsimp only
  split <;> simp

theorem removed_of {s : Slab T} (h : s.Sound) {handle : Handle} {dense : Nat}
    (hd : s.denseIndex handle = some dense) : Removed s ((s.takeOut dense).vacate handle.index) handle dense := by
  obtain ⟨x, hx, hgen⟩ := takeOut_self hd
  unfold vacate
  dsimp only
  rw [slot_eq hx, hgen]
  split
  next hgen' =>
    refine ⟨rfl, rfl, rfl, by simp [length_takeOut], ⟨_, getElem?_modify_self hx _, rfl⟩, fun j hj => ?_,
      .inl ⟨hgen', rfl, ?_⟩⟩
    · rw [← takeOut_slots h hd hj]
      exact getElem?_modify_other hj.symm _
    · rw [slot_eq (getElem?_modify_self hx _)]
      rfl
  next hgen' =>
    refine ⟨rfl, rfl, rfl, by simp [length_takeOut], ⟨_, getElem?_modify_self hx _, rfl⟩, fun j hj => ?_,
      .inr ⟨not_not.1 hgen', rfl⟩⟩
    rw [← takeOut_slots h hd hj]
    exact getElem?_modify_other hj.symm _

/-- Where an item stands after the one at `dense` was taken out. -/
theorem getElem?_taken {α : Type} {l : List α} {dense e : Nat} (hdense : dense < l.length) (he : e ≠ dense) :
    (l.swapRemove dense)[if e = l.length - 1 then dense else e]? = l[e]? := by
  rw [List.getElem?_swapRemove _ hdense]
  by_cases hlast : e = l.length - 1
  · rw [if_pos hlast, if_pos (by omega), if_pos rfl, hlast]
  · rw [if_neg hlast]
    by_cases hlt : e < l.length - 1
    · rw [if_pos hlt, if_neg he]
    · rw [if_neg hlt, List.getElem?_eq_none (by omega)]

section

variable {s s' : Slab T} {handle : Handle} {dense : Nat}

/-- The slot emptied is free. -/
theorem Removed.ne_of_odd (hr : Removed s s' handle dense) {i : Nat} {z : Slot} (hz : s'.slots[i]? = some z)
    (hodd : z.generation.toNat % 2 = 1) : i ≠ handle.index := by
  obtain ⟨y, hy, hygen⟩ := hr.self
  have hyeven : y.generation.toNat % 2 = 0 := by rw [hygen]; exact odd_succ handle.odd
  rintro rfl
  rw [hy] at hz
  cases hz
  omega

theorem Removed.owned (hr : Removed s s' handle dense) (h : s.Sound) (hd : s.denseIndex handle = some dense) {d i : Nat}
    (hi : s'.owners[d]? = some i) :
    ∃ x : Slot, s'.slots[i]? = some x ∧ x.generation.toNat % 2 = 1 ∧ x.indexOrFree = d := by
  obtain ⟨x, hx, -, hdense⟩ := denseIndex_eq_some.1 hd
  have hlt : dense < s.owners.length := by rw [h.len_eq]; exact (h.dense hd).2
  -- an item still there is owned by another slot
  have hne : ∀ {d i}, s.owners[d]? = some i → d ≠ dense → i ≠ handle.index := by
    rintro d i hi hdne rfl
    obtain ⟨z, hz, -, hback⟩ := h.owned _ _ hi
    rw [hx] at hz
    cases hz
    exact hdne (hback.symm.trans hdense)
  rw [hr.owners, List.getElem?_swapRemove _ hlt, h.len_eq] at hi
  split at hi
  next hdlt =>
    -- the item at `d` came from the end if `d` is the hole, and was there before if not
    by_cases hhole : d = dense
    · rw [if_pos hhole] at hi
      obtain ⟨z, hz, hodd, hback⟩ := h.owned _ _ hi
      refine ⟨{ z with indexOrFree := dense }, ?_, hodd, hhole.symm⟩
      rw [hr.others i (hne hi (by omega)), hz, Option.map_some, moved, if_pos ⟨hodd, hback⟩]
    · rw [if_neg hhole] at hi
      obtain ⟨z, hz, hodd, hback⟩ := h.owned _ _ hi
      refine ⟨z, ?_, hodd, hback⟩
      rw [hr.others i (hne hi hhole), hz, Option.map_some, moved, if_neg (fun hc => by omega)]
  · cases hi

theorem Removed.occupied (hr : Removed s s' handle dense) (h : s.Sound) (hd : s.denseIndex handle = some dense) {i : Nat}
    {z : Slot} (hz : s'.slots[i]? = some z) (hodd : z.generation.toNat % 2 = 1) :
    s'.owners[z.indexOrFree]? = some i := by
  obtain ⟨howner, hlt⟩ := h.dense hd
  have hne := hr.ne_of_odd hz hodd
  rw [hr.others i hne, Option.map_eq_some_iff] at hz
  obtain ⟨w, hw, rfl⟩ := hz
  rw [moved_generation] at hodd
  have hback := h.occupied i w hw hodd
  have hother : w.indexOrFree ≠ dense := by
    intro he
    rw [he, howner] at hback
    exact hne (Option.some.inj hback).symm
  have hindex : (s.moved dense w).indexOrFree =
      if w.indexOrFree = s.owners.length - 1 then dense else w.indexOrFree := by
    rw [h.len_eq]
    unfold moved
    by_cases hlast : w.indexOrFree = s.items.length - 1
    · rw [if_pos ⟨hodd, hlast⟩, if_pos hlast]
    · rw [if_neg (fun hc => hlast hc.2), if_neg hlast]
  rw [hr.owners, hindex, getElem?_taken (by rw [h.len_eq]; exact hlt) hother]
  exact hback

/-- A free slot other than the one emptied was free before. -/
theorem Removed.was_free (hr : Removed s s' handle dense) {fs : List Nat}
    (hall : ∀ i (x : Slot), s.slots[i]? = some x → x.generation.toNat % 2 = 0 → x.generation ≠ 0 → i ∈ fs) {i : Nat}
    {z : Slot} (hne : i ≠ handle.index) (hz : s'.slots[i]? = some z) (hzeven : z.generation.toNat % 2 = 0)
    (hzne : z.generation ≠ 0) : i ∈ fs := by
  rw [hr.others i hne, Option.map_eq_some_iff] at hz
  obtain ⟨w, hw, rfl⟩ := hz
  rw [moved_generation] at hzeven hzne
  exact hall i w hw hzeven hzne

/-- The free list there was is off the slot emptied, and as it was. -/
theorem Removed.list_kept (hr : Removed s s' handle dense) (hd : s.denseIndex handle = some dense) {fs : List Nat}
    (hfs : FreeList s fs) : handle.index ∉ fs ∧ ∀ i ∈ fs, s'.slot i = s.slot i := by
  obtain ⟨x, hx, hgen, -⟩ := denseIndex_eq_some.1 hd
  have hoff : handle.index ∉ fs := by
    intro hmem
    have heven := (hfs.free _ hmem).2.1
    rw [slot_eq hx, hgen] at heven
    have := handle.odd
    omega
  refine ⟨hoff, fun i hi => slot_congr ?_⟩
  obtain ⟨hil, heven, -⟩ := hfs.free i hi
  have hne : i ≠ handle.index := fun he => hoff (he ▸ hi)
  rw [hr.others i hne, List.getElem?_eq_getElem hil, Option.map_some]
  rw [slot_eq (List.getElem?_eq_getElem hil)] at heven
  rw [moved_free heven]

theorem Removed.free (hr : Removed s s' handle dense) (h : s.Sound) (hd : s.denseIndex handle = some dense) :
    ∃ fs, FreeList s' fs ∧
      ∀ i (x : Slot), s'.slots[i]? = some x → x.generation.toNat % 2 = 0 → x.generation ≠ 0 → i ∈ fs := by
  obtain ⟨y, hy, hygen⟩ := hr.self
  have hyeven : y.generation.toNat % 2 = 0 := by rw [hygen]; exact odd_succ handle.odd
  obtain ⟨fs, hfs, hall⟩ := h.free
  obtain ⟨hoff, hsame⟩ := hr.list_kept hd hfs
  have hchain : Linked (fun i => (s'.slot i).indexOrFree) absent s.freeHead fs :=
    hfs.chain.congr fun i hi => by rw [hsame i hi]
  have hfree : ∀ i ∈ fs, i < s'.slots.length ∧ (s'.slot i).generation.toNat % 2 = 0 ∧ (s'.slot i).generation ≠ 0 := by
    intro i hi
    rw [hsame i hi, hr.length]
    exact hfs.free i hi
  rcases hr.freed with ⟨hlive, hhead, hnext⟩ | ⟨hretired, hhead⟩
  · refine ⟨handle.index :: fs, ⟨⟨hhead, by dsimp only; rw [hnext]; exact hchain⟩, List.nodup_cons.2 ⟨hoff, hfs.nodup⟩,
      fun i hi => ?_⟩, fun i z hz hzeven hzne => ?_⟩
    · rcases List.mem_cons.1 hi with rfl | hi
      · refine ⟨(List.getElem?_eq_some_iff.1 hy).1, ?_⟩
        rw [slot_eq hy]
        exact ⟨hyeven, by rw [hygen]; exact hlive⟩
      · exact hfree i hi
    · by_cases hi : i = handle.index
      · rw [hi]
        exact List.mem_cons_self
      · exact List.mem_cons_of_mem _ (hr.was_free hall hi hz hzeven hzne)
  · refine ⟨fs, ⟨by rw [hhead]; exact hchain, hfs.nodup, hfree⟩, fun i z hz hzeven hzne => ?_⟩
    by_cases hi : i = handle.index
    · subst hi
      rw [hy] at hz
      cases hz
      exact (hzne (hygen.trans hretired)).elim
    · exact hr.was_free hall hi hz hzeven hzne

theorem Removed.sound (hr : Removed s s' handle dense) (h : s.Sound) (hd : s.denseIndex handle = some dense) :
    s'.Sound where
  len_eq := by rw [hr.items, hr.owners]; simp [h.len_eq]
  slots_le := by rw [hr.length, hr.capacity]; exact h.slots_le
  owned _ _ hi := hr.owned h hd hi
  occupied _ _ hz hodd := hr.occupied h hd hz hodd
  free := hr.free h hd

end

theorem Removed.get {s s' : Slab T} {handle : Handle} {dense : Nat} (hr : Removed s s' handle dense) (h : s.Sound)
    (hd : s.denseIndex handle = some dense) (h' : Handle) : s'.get h' = if h' = handle then none else s.get h' := by
  obtain ⟨howner, hlt⟩ := h.dense hd
  obtain ⟨x, hx, hgen, hdense⟩ := denseIndex_eq_some.1 hd
  obtain ⟨y, hy, hygen⟩ := hr.self
  -- an emptied slot answers to no handle
  have hgone : h'.index = handle.index → s'.get h' = none := by
    intro hindex
    have hnone : s'.denseIndex h' = none := by
      cases hd' : s'.denseIndex h' with
      | none => rfl
      | some d =>
        obtain ⟨z, hz, hzgen, -⟩ := denseIndex_eq_some.1 hd'
        rw [hindex, hy] at hz
        cases hz
        have heven := odd_succ handle.odd
        rw [← hygen, hzgen] at heven
        have := h'.odd
        omega
    rw [Slab.get, hnone]
    rfl
  split
  next heq => exact hgone (by rw [heq])
  next hne =>
    by_cases hindex : h'.index = handle.index
    · rw [hgone hindex]
      cases hget : s.get h' with
      | none => rfl
      | some item =>
        refine (hne (h.unique (by rw [hget]; rfl) ?_ hindex)).elim
        exact (h.contains_iff handle).1 (by rw [contains, hd]; rfl)
    · have hslot := hr.others h'.index hindex
      rw [Slab.get, Slab.get, denseIndex, denseIndex, hslot]
      cases hz : s.slots[h'.index]? with
      | none => rfl
      | some z =>
        rw [Option.map_some, Option.bind_some, Option.bind_some, moved_generation]
        split
        next hzgen =>
          have hodd : z.generation.toNat % 2 = 1 := by rw [hzgen]; exact h'.odd
          have hback := h.occupied _ z hz hodd
          have hother : z.indexOrFree ≠ dense := by
            intro he
            rw [he, howner] at hback
            exact hindex (Option.some.inj hback).symm
          rw [Option.bind_some, Option.bind_some, hr.items, ← getElem?_taken hlt hother]
          congr 1
          unfold moved
          by_cases hlast : z.indexOrFree = s.items.length - 1
          · rw [if_pos ⟨hodd, hlast⟩, if_pos hlast]
          · rw [if_neg (fun hc => hlast hc.2), if_neg hlast]
        · rfl

theorem remove_sound {s : Slab T} (h : s.Sound) (handle : Handle) : (s.remove handle).1.Sound := by
  unfold remove
  split
  · exact h
  next dense hd => exact (removed_of h hd).sound h hd

theorem remove_capacity {s : Slab T} (h : s.Sound) (handle : Handle) : (s.remove handle).1.capacity = s.capacity := by
  unfold remove
  split
  · rfl
  next dense hd => exact (removed_of h hd).capacity

theorem remove_item (s : Slab T) (handle : Handle) : (s.remove handle).2 = s.get handle := by
  unfold remove get
  cases s.denseIndex handle <;> rfl

/-- **Removing** empties the map at one handle. -/
theorem get_remove {s : Slab T} (h : s.Sound) (handle h' : Handle) :
    (s.remove handle).1.get h' = if h' = handle then none else s.get h' := by
  unfold remove
  cases hd : s.denseIndex handle with
  | none =>
    dsimp only
    split
    next heq => rw [heq, get, hd]; rfl
    · rfl
  | some dense => exact (removed_of h hd).get h hd h'

end Slab
end HexNet
