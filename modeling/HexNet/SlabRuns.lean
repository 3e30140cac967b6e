/-
A slab over whole runs. Beside it stands the map it implements, whose keys are
the handles the slab picked, and the list of every handle it gave out. The
slab answers as the map does, no handle is given out twice, and an insertion
fails only when every slot is occupied or retired (`slab_refines`).
-/
import Mathlib.Data.List.Perm.Subperm
import HexNet.Lib.Lts
import HexNet.SlabFacts

namespace HexNet
namespace Slab

variable {T : Type} {s s' : Slab T}

/-! ## When an insertion fails -/

/-- The slot has held so many items that its generation wrapped. -/
def Retired (s : Slab T) (i : Nat) : Prop := ∃ x : Slot, s.slots[i]? = some x ∧ x.generation = 0

/-- Every slot there may be is occupied or retired. -/
def Exhausted (s : Slab T) : Prop :=
  s.slots.length = s.capacity ∧ ∀ (i : Nat) (x : Slot), s.slots[i]? = some x → x.generation.toNat % 2 = 1 ∨ x.generation = 0

theorem Sound.claim_none_iff (h : s.Sound) : s.claim = none ↔ s.Exhausted := by
  obtain ⟨fs, hfs, hall⟩ := h.free
  unfold claim
  constructor
  · intro hnone
    split at hnone
    · cases hnone
    next hhead =>
      split at hnone
      · cases hnone
      next hfull =>
        refine ⟨Nat.le_antisymm h.slots_le (Nat.not_lt.1 hfull), fun i x hx => ?_⟩
        obtain rfl := hfs.eq_nil h.slots_le (not_not.1 hhead)
        by_contra hfree
        obtain ⟨hodd, hne⟩ := not_or.1 hfree
        have hmem := hall i x hx (by omega) hne
        cases hmem
  · rintro ⟨hfull, hused⟩
    have hnil : fs = [] := by
      rw [List.eq_nil_iff_forall_not_mem]
      intro i hi
      obtain ⟨hlt, heven, hne⟩ := hfs.free i hi
      rw [slot_eq (List.getElem?_eq_getElem hlt)] at heven hne
      rcases hused i _ (List.getElem?_eq_getElem hlt) with hodd | hzero
      · omega
      · exact hne hzero
    rw [hnil] at hfs
    have hhead : s.freeHead = absent := hfs.chain
    rw [if_neg (not_not.2 hhead), if_neg (by omega)]

/-- A slot that was claimed has a handle: it is free, so the next generation is odd. -/
theorem claim_handle (h : s.Sound) {index : Nat} (hclaim : s.claim = some (s', index)) :
    ∃ handle, Handle.occupying index ((s'.slot index).generation + 1) = some handle := by
  obtain ⟨hclaimed, -⟩ := claim_spec h hclaim
  obtain ⟨x, hx, heven⟩ := hclaimed.free_slot
  rw [slot_eq hx]
  exact ⟨⟨index, x.generation + 1, even_succ heven⟩, Handle.occupying_eq_some.2 ⟨rfl, rfl⟩⟩

theorem Sound.insertWith_none_iff (h : s.Sound) (make : Handle → T) :
    (s.insertWith make).2 = none ↔ s.Exhausted := by
  rw [← h.claim_none_iff]
  unfold insertWith
  cases hclaim : s.claim with
  | none => simp
  | some r =>
    obtain ⟨s', index⟩ := r
    obtain ⟨handle, hhandle⟩ := claim_handle h hclaim
    simp [hhandle]

/-- `insert` is `insert_with`, but for what it answers. -/
theorem insert_eq (s : Slab T) (item : T) :
    s.insert item = ((s.insertWith fun _ => item).1,
      match (s.insertWith fun _ => item).2 with | some handle => .ok handle | none => .error item) := by
  unfold insert insertWith
  cases s.claim with
  | none => rfl
  | some r =>
    dsimp only
    cases Handle.occupying r.2 ((r.1.slot r.2).generation + 1) <;> rfl

/-- While a slot is unoccupied and none is retired, there is room. -/
theorem Sound.not_exhausted (h : s.Sound) (hlen : s.len < s.capacity) (hretired : ∀ i, ¬ s.Retired i) :
    ¬ s.Exhausted := by
  rintro ⟨hfull, hused⟩
  -- every slot owns an item, so there are as many items as slots
  have hsub : List.range s.slots.length ⊆ s.owners := by
    intro i hi
    have hlt := List.mem_range.1 hi
    have hx : s.slots[i]? = some s.slots[i] := List.getElem?_eq_getElem hlt
    rcases hused i _ hx with hodd | hzero
    · exact List.mem_of_getElem? (h.occupied i _ hx hodd)
    · exact (hretired i ⟨_, hx, hzero⟩).elim
  have hle := (List.subperm_of_subset List.nodup_range hsub).length_le
  rw [List.length_range, h.len_eq] at hle
  unfold len at hlen
  omega

/-! ## Generations -/

/-- What an insertion does to the slots: the one it takes was unused, or free
and not retired, and is now of the handle's generation. -/
theorem insertWith_slots (h : s.Sound) {make : Handle → T} {handle : Handle}
    (heq : s.insertWith make = (s', some handle)) :
    (∀ j, j ≠ handle.index → s'.slots[j]? = s.slots[j]?) ∧
    (∃ x : Slot, s'.slots[handle.index]? = some x ∧ x.generation = handle.generation) ∧
    (s.slots[handle.index]? = none ∨ ∃ x : Slot, s.slots[handle.index]? = some x ∧ x.generation ≠ 0 ∧
      x.generation.toNat % 2 = 0 ∧ handle.generation = x.generation + 1) := by
  unfold insertWith at heq
  split at heq
  · cases heq
  next s₁ index hclaim =>
    split at heq
    · cases heq
    next handle' hhandle =>
      cases heq
      obtain ⟨hindex, hgen⟩ := Handle.occupying_eq_some.1 hhandle
      obtain ⟨x, hx, -⟩ := (claim_spec h hclaim).1.free_slot
      have hself : (s₁.fill index (make handle)).slots[index]? = some ⟨x.generation + 1, s₁.items.length⟩ :=
        getElem?_modify_self hx _
      have hother : ∀ {j}, j ≠ index → (s₁.fill index (make handle)).slots[j]? = s₁.slots[j]? :=
        fun hj => getElem?_modify_other hj.symm _
      rw [slot_eq hx] at hgen
      rw [hindex]
      unfold claim at hclaim
      split at hclaim
      next hhead =>
        cases hclaim
        obtain ⟨fs, hfs, -⟩ := h.free
        cases fs with
        | nil => exact (hhead hfs.chain).elim
        | cons c fs =>
          have hc : s.freeHead = c := hfs.chain.1
          obtain ⟨-, heven, hne⟩ := hfs.free c List.mem_cons_self
          have hx' : s.slots[s.freeHead]? = some x := hx
          rw [← hc, slot_eq hx'] at heven hne
          exact ⟨fun j hj => hother hj, ⟨_, hself, hgen.symm⟩, .inr ⟨x, hx', hne, heven, hgen⟩⟩
      · split at hclaim
        · cases hclaim
          refine ⟨fun j hj => ?_, ⟨_, hself, hgen.symm⟩, .inl (List.getElem?_eq_none (Nat.le_refl _))⟩
          rw [hother hj]
          refine Option.ext fun y => ?_
          rw [getElem?_fresh]
          exact or_iff_left fun hfresh => hj hfresh.1
        · cases hclaim

/-- What a removal does to the slots, seen by their generations. -/
theorem remove_slots (h : s.Sound) (handle : Handle) :
    (s.remove handle).1 = s ∨
    (∃ x : Slot, s.slots[handle.index]? = some x ∧ x.generation = handle.generation) ∧
      (∃ x : Slot, (s.remove handle).1.slots[handle.index]? = some x ∧ x.generation = handle.generation + 1) ∧
      ∀ j, j ≠ handle.index →
        (s.remove handle).1.slots[j]?.map (·.generation) = s.slots[j]?.map (·.generation) := by
  unfold remove
  cases hd : s.denseIndex handle with
  | none => exact .inl rfl
  | some dense =>
    have hr := removed_of h hd
    obtain ⟨x, hx, hgen, -⟩ := denseIndex_eq_some.1 hd
    refine .inr ⟨⟨x, hx, hgen⟩, hr.self, fun j hj => ?_⟩
    show ((s.takeOut dense).vacate handle.index).slots[j]?.map _ = _
    rw [hr.others j hj, Option.map_map]
    congr 1
    exact funext fun y => moved_generation s dense y

theorem modify_slots (s : Slab T) (handle : Handle) (f : T → T) : (s.modify handle f).slots = s.slots := by
  unfold modify
  split <;> rfl

/-- The slot of a handle given out is of its generation or a later one, or
retired. -/
def Aged (s : Slab T) (handle : Handle) : Prop :=
  ∃ x : Slot, s.slots[handle.index]? = some x ∧ (x.generation = 0 ∨ handle.generation.toNat ≤ x.generation.toNat)

/-- The generation after an even one is larger. -/
theorem lt_even_succ {g : UInt32} (h : g.toNat % 2 = 0) : g.toNat < (g + 1).toNat := by
  have := g.toNat_lt
  rw [UInt32.toNat_add, show (1 : UInt32).toNat = 1 from rfl]
  omega

theorem Sound.aged (h : s.Sound) {handle : Handle} (hlive : (s.get handle).isSome = true) : s.Aged handle := by
  obtain ⟨d, hd⟩ := Option.isSome_iff_exists.1 ((h.contains_iff handle).2 hlive)
  obtain ⟨x, hx, hgen, -⟩ := denseIndex_eq_some.1 hd
  exact ⟨x, hx, .inr (Nat.le_of_eq (by rw [hgen]))⟩

theorem Aged.modify {handle' : Handle} (h : s.Aged handle') (handle : Handle) (f : T → T) :
    (s.modify handle f).Aged handle' := by
  rw [Aged, modify_slots]
  exact h

theorem Aged.remove (h : s.Sound) {handle' : Handle} (hage : s.Aged handle') (handle : Handle) :
    (s.remove handle).1.Aged handle' := by
  obtain ⟨x, hx, hage⟩ := hage
  rcases remove_slots h handle with hsame | ⟨⟨y, hy, hygen⟩, ⟨z, hz, hzgen⟩, hother⟩
  · exact ⟨x, by rw [hsame]; exact hx, hage⟩
  · by_cases hi : handle'.index = handle.index
    · rw [hi] at hx
      cases hx.symm.trans hy
      refine ⟨z, hi ▸ hz, ?_⟩
      rw [hzgen]
      -- one generation on, unless that wraps
      by_cases hwrap : handle.generation + 1 = 0
      · exact .inl hwrap
      · refine .inr ?_
        have hodd := handle.odd
        have hlt := handle.generation.toNat_lt
        have hne : handle.generation.toNat + 1 ≠ 2 ^ 32 := by
          intro hmax
          refine hwrap (UInt32.toNat_inj.1 ?_)
          rw [UInt32.toNat_add, show (1 : UInt32).toNat = 1 from rfl, hmax]
          rfl
        rw [hygen] at hage
        rw [UInt32.toNat_add, show (1 : UInt32).toNat = 1 from rfl, Nat.mod_eq_of_lt (by omega)]
        rcases hage with hzero | hle
        · rw [hzero] at hodd
          cases hodd
        · omega
    · have hgen := hother handle'.index hi
      rw [hx, Option.map_some] at hgen
      obtain ⟨w, hw, hwgen⟩ := Option.map_eq_some_iff.1 hgen
      exact ⟨w, hw, by rw [hwgen]; exact hage⟩

/-- A handle just made is none given out before: its slot was never used, or is
behind it by one generation. -/
theorem insertWith_not_aged (h : s.Sound) {make : Handle → T} {handle : Handle}
    (heq : s.insertWith make = (s', some handle)) : ¬ s.Aged handle := by
  rintro ⟨x, hx, hage⟩
  obtain ⟨-, -, hnone | ⟨y, hy, hne, heven, hgen⟩⟩ := insertWith_slots h heq
  · rw [hnone] at hx
    cases hx
  · cases hx.symm.trans hy
    rcases hage with hzero | hle
    · exact hne hzero
    · rw [hgen] at hle
      have := lt_even_succ heven
      omega

theorem Aged.insertWith (h : s.Sound) {handle' : Handle} (hage : s.Aged handle') {make : Handle → T} {handle : Handle}
    (heq : s.insertWith make = (s', some handle)) : s'.Aged handle' := by
  obtain ⟨x, hx, hage⟩ := hage
  obtain ⟨hother, ⟨y, hy, hygen⟩, hslot⟩ := insertWith_slots h heq
  by_cases hi : handle'.index = handle.index
  · rw [hi] at hx
    refine ⟨y, hi ▸ hy, .inr ?_⟩
    rcases hslot with hnone | ⟨z, hz, hne, heven, hgen⟩
    · rw [hnone] at hx
      cases hx
    · cases hx.symm.trans hz
      have hlt := lt_even_succ heven
      rw [hygen, hgen]
      rcases hage with hzero | hle
      · exact (hne hzero).elim
      · omega
  · exact ⟨x, (hother _ hi).trans hx, hage⟩

/-! ## Iterating -/

theorem Sound.mem_iter (h : s.Sound) {handle : Handle} {item : T} :
    (handle, item) ∈ s.iter ↔ s.get handle = some item := by
  unfold iter
  rw [List.mem_filterMap]
  constructor
  · rintro ⟨⟨i, x⟩, hmem, heq⟩
    obtain ⟨handle', hat, hpair⟩ := Option.map_eq_some_iff.1 heq
    cases hpair
    obtain ⟨d, hd⟩ := List.mem_iff_getElem?.1 hmem
    obtain ⟨howner, hitem⟩ := List.getElem?_zip_eq_some.1 hd
    obtain ⟨y, hy, hodd, hback⟩ := h.owned d i howner
    obtain ⟨y', hy', hocc⟩ := Option.bind_eq_some_iff.1 hat
    cases hy.symm.trans hy'
    obtain ⟨hindex, hgen⟩ := Handle.occupying_eq_some.1 hocc
    rw [get, denseIndex_eq_some.2 ⟨y, by rw [hindex]; exact hy, hgen.symm, hback⟩]
    exact hitem
  · intro hget
    obtain ⟨d, hd, hitem⟩ := Option.bind_eq_some_iff.1 hget
    refine ⟨(handle.index, item), List.mem_of_getElem? (i := d) ?_, ?_⟩
    · exact List.getElem?_zip_eq_some.2 ⟨(h.dense hd).1, hitem⟩
    · rw [h.handleAt_iff.2 ⟨rfl, by rw [hget]; rfl⟩]
      rfl

/-- `iter` yields the handles of the owners, each with its item. -/
theorem Sound.iter_handles (h : s.Sound) : s.iter.map Prod.fst = s.handles := by
  have hzip : (s.owners.zip s.items).map Prod.fst = s.owners := List.map_fst_zip (Nat.le_of_eq h.len_eq)
  unfold handles
  rw [← hzip, List.filterMap_map, iter, List.map_filterMap]
  congr 1
  funext entry
  cases hat : s.handleAt entry.1 <;> simp [hat]

end Slab

/-! ## Runs -/

inductive SlabOp (T : Type)
  | insert (item : T)
  | insertWith (make : Handle → T)
  /-- `get_mut`, and what is written there. -/
  | modify (handle : Handle) (f : T → T)
  | remove (handle : Handle)

/-- A slab, the map it stands for, and every handle it has given out. -/
structure Tracked (T : Type) where
  slab : Slab T
  map : Handle → Option T
  issued : List Handle

namespace Tracked

variable {T : Type} {t : Tracked T}

def new (capacity : Nat) (h : capacity < Slab.absent) : Tracked T := ⟨.withCapacity capacity h, fun _ => none, []⟩

/-- The slab after an insertion, and the map with a new key if one was given out. -/
def inserted (t : Tracked T) (slab : Slab T) (handle : Option Handle) (make : Handle → T) : Tracked T :=
  match handle with
  | none => { t with slab }
  | some handle => ⟨slab, Function.update t.map handle (some (make handle)), t.issued ++ [handle]⟩

def after (t : Tracked T) : SlabOp T → Tracked T
  | .insert item => t.inserted (t.slab.insert item).1 (t.slab.insert item).2.toOption fun _ => item
  | .insertWith make => t.inserted (t.slab.insertWith make).1 (t.slab.insertWith make).2 make
  | .modify handle f =>
    { t with slab := t.slab.modify handle f, map := Function.update t.map handle ((t.map handle).map f) }
  | .remove handle => { t with slab := (t.slab.remove handle).1, map := Function.update t.map handle none }

/-- Every sequence of operations, with any handles, on a slab of any capacity. -/
def sys (T : Type) : Lts.Sys (Tracked T) (SlabOp T) where
  start t := ∃ capacity h, t = new capacity h
  step t op t' := t' = t.after op

/-- The slot of every handle given out is of its generation or a later one, or
retired. -/
structure Refined (t : Tracked T) : Prop where
  sound : t.slab.Sound
  get_eq : ∀ handle, t.slab.get handle = t.map handle
  nodup : t.issued.Nodup
  known : ∀ handle, (t.map handle).isSome = true → handle ∈ t.issued
  aged : ∀ handle ∈ t.issued, ∃ x : Slot, t.slab.slots[handle.index]? = some x ∧
    (x.generation = 0 ∨ handle.generation.toNat ≤ x.generation.toNat)

theorem new_refined (capacity : Nat) (h : capacity < Slab.absent) : (new capacity h : Tracked T).Refined where
  sound := Slab.withCapacity_sound capacity h
  get_eq _ := rfl
  nodup := List.nodup_nil
  known _ hsome := nomatch hsome
  aged _ hmem := nomatch hmem

theorem Refined.inserted (h : t.Refined) (make : Handle → T) : (t.after (.insertWith make)).Refined := by
  show (t.inserted (t.slab.insertWith make).1 (t.slab.insertWith make).2 make).Refined
  rcases Slab.insertWith_spec h.sound make with heq | ⟨s', handle, heq, hsound, -, -, -, hget⟩
  · rw [heq]
    exact ⟨h.sound, h.get_eq, h.nodup, h.known, h.aged⟩
  · rw [heq]
    have hfresh : handle ∉ t.issued := fun hmem => Slab.insertWith_not_aged h.sound heq (h.aged handle hmem)
    refine ⟨hsound, fun h' => ?_, ?_, fun h' hsome => ?_, fun h' hmem => ?_⟩
    · show s'.get h' = Function.update t.map handle _ h'
      rw [hget]
      split
      next hh => rw [hh, Function.update_self]
      next hh => rw [Function.update_of_ne hh, h.get_eq]
    · exact List.nodup_append.2 ⟨h.nodup, List.nodup_singleton _, fun a ha b hb hab => by
        rw [List.mem_singleton.1 hb] at hab
        exact hfresh (hab ▸ ha)⟩
    · by_cases hh : h' = handle
      · rw [hh]
        exact List.mem_append_right _ (List.mem_singleton_self _)
      · have hsome : (Function.update t.map handle (some (make handle)) h').isSome = true := hsome
        rw [Function.update_of_ne hh] at hsome
        exact List.mem_append_left _ (h.known h' hsome)
    · rcases List.mem_append.1 hmem with hold | hnew
      · exact Slab.Aged.insertWith h.sound (h.aged h' hold) heq
      · refine hsound.aged ?_
        rw [List.mem_singleton.1 hnew, hget, if_pos rfl]
        rfl

theorem Refined.removed (h : t.Refined) (handle : Handle) : (t.after (.remove handle)).Refined := by
  refine ⟨Slab.remove_sound h.sound handle, fun h' => ?_, h.nodup, fun h' hsome => ?_, fun h' hmem => ?_⟩
  · show (t.slab.remove handle).1.get h' = Function.update t.map handle none h'
    rw [Slab.get_remove h.sound]
    split
    next hh => rw [hh, Function.update_self]
    next hh => rw [Function.update_of_ne hh, h.get_eq]
  · by_cases hh : h' = handle
    · rw [hh] at hsome
      have hnone : (Function.update t.map handle none handle).isSome = true := hsome
      rw [Function.update_self] at hnone
      cases hnone
    · have hsome : (Function.update t.map handle none h').isSome = true := hsome
      rw [Function.update_of_ne hh] at hsome
      exact h.known h' hsome
  · exact Slab.Aged.remove h.sound (h.aged h' hmem) handle

theorem Refined.modified (h : t.Refined) (handle : Handle) (f : T → T) : (t.after (.modify handle f)).Refined := by
  refine ⟨Slab.modify_sound h.sound handle f, fun h' => ?_, h.nodup, fun h' hsome => ?_, fun h' hmem => ?_⟩
  · show (t.slab.modify handle f).get h' = Function.update t.map handle _ h'
    rw [Slab.get_modify h.sound]
    split
    next hh => rw [hh, Function.update_self, h.get_eq]
    next hh => rw [Function.update_of_ne hh, h.get_eq]
  · refine h.known h' ?_
    have hsome : (Function.update t.map handle ((t.map handle).map f) h').isSome = true := hsome
    by_cases hh : h' = handle
    · rw [hh, Function.update_self, Option.isSome_map] at hsome
      rw [hh]
      exact hsome
    · rwa [Function.update_of_ne hh] at hsome
  · exact Slab.Aged.modify (h.aged h' hmem) handle f

theorem after_insert (t : Tracked T) (item : T) : t.after (.insert item) = t.after (.insertWith fun _ => item) := by
  show t.inserted (t.slab.insert item).1 (t.slab.insert item).2.toOption _ = _
  rw [Slab.insert_eq]
  dsimp only [after]
  cases (t.slab.insertWith fun _ => item).2 <;> rfl

theorem Refined.step (h : t.Refined) (op : SlabOp T) : (t.after op).Refined := by
  cases op with
  | insert item =>
    rw [after_insert]
    exact h.inserted _
  | insertWith make => exact h.inserted make
  | modify handle f => exact h.modified handle f
  | remove handle => exact h.removed handle

theorem reachable_refined (h : Lts.Reachable (sys T) t) : t.Refined := by
  refine Lts.Reach.invariant (P := Refined) ?_ ?_ h
  · rintro _ ⟨capacity, hcap, rfl⟩
    exact new_refined capacity hcap
  · rintro t op t' - ht - rfl
    exact ht.step op

/-! ### Retired slots -/

theorem Refined.retired_kept (h : t.Refined) (op : SlabOp T) {i : Nat} (hi : t.slab.Retired i) :
    (t.after op).slab.Retired i ∧ ∀ handle ∈ (t.after op).issued, handle.index = i → handle ∈ t.issued := by
  have hinsert (make : Handle → T) : (t.after (.insertWith make)).slab.Retired i ∧
      ∀ handle ∈ (t.after (.insertWith make)).issued, handle.index = i → handle ∈ t.issued := by
    show (t.inserted (t.slab.insertWith make).1 (t.slab.insertWith make).2 make).slab.Retired i ∧
      ∀ handle ∈ (t.inserted (t.slab.insertWith make).1 (t.slab.insertWith make).2 make).issued, _ → _
    obtain ⟨x, hx, hzero⟩ := hi
    rcases Slab.insertWith_spec h.sound make with heq | ⟨s', handle, heq, -⟩
    · rw [heq]
      exact ⟨⟨x, hx, hzero⟩, fun _ hmem _ => hmem⟩
    · obtain ⟨hother, -, hslot⟩ := Slab.insertWith_slots h.sound heq
      rw [heq]
      have hne : i ≠ handle.index := by
        rintro rfl
        rcases hslot with hnone | ⟨y, hy, hlive, -⟩
        · rw [hnone] at hx
          cases hx
        · cases hx.symm.trans hy
          exact hlive hzero
      refine ⟨⟨x, (hother i hne).trans hx, hzero⟩, fun handle' hmem hindex => ?_⟩
      rcases List.mem_append.1 hmem with hold | hnew
      · exact hold
      · rw [List.mem_singleton.1 hnew] at hindex
        exact (hne hindex.symm).elim
  cases op with
  | insert item =>
    rw [after_insert]
    exact hinsert _
  | insertWith make => exact hinsert make
  | modify handle f =>
    refine ⟨?_, fun _ hmem _ => hmem⟩
    show (t.slab.modify handle f).Retired i
    unfold Slab.Retired
    rw [Slab.modify_slots]
    exact hi
  | remove handle =>
    refine ⟨?_, fun _ hmem _ => hmem⟩
    show (t.slab.remove handle).1.Retired i
    obtain ⟨x, hx, hzero⟩ := hi
    rcases Slab.remove_slots h.sound handle with hsame | ⟨⟨y, hy, hygen⟩, -, hother⟩
    · rw [hsame]
      exact ⟨x, hx, hzero⟩
    · have hne : i ≠ handle.index := by
        rintro rfl
        cases hx.symm.trans hy
        have hodd := handle.odd
        rw [← hygen, hzero] at hodd
        cases hodd
      have hgen := hother i hne
      rw [hx, Option.map_some] at hgen
      obtain ⟨w, hw, hwgen⟩ := Option.map_eq_some_iff.1 hgen
      exact ⟨w, hw, hwgen.trans hzero⟩

/-- Operations one after another. -/
def run (t : Tracked T) (ops : List (SlabOp T)) : Tracked T := ops.foldl after t

theorem Refined.retired_run (h : t.Refined) (ops : List (SlabOp T)) {i : Nat} (hi : t.slab.Retired i) :
    (t.run ops).slab.Retired i ∧ ∀ handle ∈ (t.run ops).issued, handle.index = i → handle ∈ t.issued := by
  induction ops generalizing t with
  | nil => exact ⟨hi, fun _ hmem _ => hmem⟩
  | cons op ops ih =>
    obtain ⟨hretired, hold⟩ := h.retired_kept op hi
    obtain ⟨hlast, hissued⟩ := ih (h.step op) hretired
    exact ⟨hlast, fun handle hmem hindex => hold handle (hissued handle hmem hindex) hindex⟩

/-- **A slab is a map with fresh keys.** Over every sequence of operations with
any handles: slots, items, owners and the free list fit together; a handle
reaches what the map has under it, and is removed with that; no handle is given
out twice; `iter` yields every entry of the map once, and `handle_at` the live
handle of a slot; an insertion fails exactly when every slot is occupied or
retired, and a retired slot stays so and is never given out again. -/
theorem slab_refines (h : Lts.Reachable (sys T) t) :
    t.slab.Sound ∧
    (∀ handle, t.slab.get handle = t.map handle ∧ t.slab.contains handle = (t.map handle).isSome ∧
      (t.slab.remove handle).2 = t.map handle ∧
      ∀ f, (t.slab.modify handle f).get handle = (t.map handle).map f) ∧
    t.issued.Nodup ∧ (∀ handle, (t.map handle).isSome = true → handle ∈ t.issued) ∧
    (∀ handle item, (handle, item) ∈ t.slab.iter ↔ t.map handle = some item) ∧ (t.slab.iter.map Prod.fst).Nodup ∧
    (∀ i handle, t.slab.handleAt i = some handle ↔ handle.index = i ∧ (t.map handle).isSome = true) ∧
    (∀ make, (t.slab.insertWith make).2 = none ↔ t.slab.Exhausted) ∧
    (∀ item, (t.slab.insert item).2 = .error item ↔ t.slab.Exhausted) ∧
    ∀ i ops, t.slab.Retired i → (t.run ops).slab.Retired i ∧
      ∀ handle ∈ (t.run ops).issued, handle.index = i → handle ∈ t.issued := by
  have hr := reachable_refined h
  have hs := hr.sound
  refine ⟨hs, fun handle => ⟨hr.get_eq handle, ?_, ?_, fun f => ?_⟩, hr.nodup, hr.known, fun handle item => ?_, ?_,
    fun i handle => ?_, hs.insertWith_none_iff, fun item => ?_, fun i ops hi => hr.retired_run ops hi⟩
  · rw [← hr.get_eq, Bool.eq_iff_iff]
    exact hs.contains_iff handle
  · rw [Slab.remove_item, hr.get_eq]
  · rw [Slab.get_modify hs, if_pos rfl, hr.get_eq]
  · rw [hs.mem_iter, hr.get_eq]
  · rw [hs.iter_handles]
    exact hs.handles_nodup
  · rw [hs.handleAt_iff, hr.get_eq]
  · rw [← hs.insertWith_none_iff fun _ => item, Slab.insert_eq]
    dsimp only
    cases (t.slab.insertWith fun _ => item).2 <;> simp

/-! ### Wearing out a slot -/

/-- A slab of one slot, free at generation `g`. -/
def worn (g : UInt32) : Slab Unit := ⟨[⟨g, Slab.absent⟩], [], [], 0, 1, by decide⟩

/-- The same, retired. -/
def wornOut : Slab Unit := ⟨[⟨0, 0⟩], [], [], Slab.absent, 1, by decide⟩

theorem worn_insert {g : UInt32} (h : g.toNat % 2 = 0) :
    (worn g).insert () = (⟨[⟨g + 1, 0⟩], [()], [0], Slab.absent, 1, by decide⟩, .ok ⟨0, g + 1, Slab.even_succ h⟩) := by
  have hocc : Handle.occupying 0 (g + 1) = some ⟨0, g + 1, Slab.even_succ h⟩ :=
    Handle.occupying_eq_some.2 ⟨rfl, rfl⟩
  have hclaim : (worn g).claim = some (⟨[⟨g, Slab.absent⟩], [], [], Slab.absent, 1, by decide⟩, 0) := rfl
  unfold Slab.insert
  rw [hclaim]
  dsimp only
  rw [show (Slab.slot (⟨[⟨g, Slab.absent⟩], [], [], Slab.absent, 1, by decide⟩ : Slab Unit) 0).generation = g from rfl, hocc]
  rfl

/-- An item put in and taken out moves the slot on by two generations. -/
theorem worn_cycle {g : UInt32} (h : g.toNat % 2 = 0) {t : Tracked Unit} (ht : t.slab = worn g) :
    ((t.after (.insert ())).after (.remove ⟨0, g + 1, Slab.even_succ h⟩)).slab =
      if g + 1 + 1 = 0 then wornOut else worn (g + 1 + 1) := by
  have hslab : (t.after (.insert ())).slab = ⟨[⟨g + 1, 0⟩], [()], [0], Slab.absent, 1, by decide⟩ := by
    show (t.inserted (t.slab.insert ()).1 _ _).slab = _
    rw [ht, worn_insert h]
    rfl
  show ((t.after (.insert ())).slab.remove _).1 = _
  rw [hslab]
  have hdense : Slab.denseIndex (⟨[⟨g + 1, 0⟩], [()], [0], Slab.absent, 1, by decide⟩ : Slab Unit)
      ⟨0, g + 1, Slab.even_succ h⟩ = some 0 := Slab.denseIndex_eq_some.2 ⟨_, rfl, rfl, rfl⟩
  unfold Slab.remove
  rw [hdense]
  dsimp only
  show (if g + 1 + 1 ≠ 0 then worn (g + 1 + 1) else ⟨[⟨g + 1 + 1, 0⟩], [], [], Slab.absent, 1, by decide⟩) = _
  by_cases hzero : g + 1 + 1 = 0
  · rw [if_pos hzero, if_neg (not_not.2 hzero), hzero]
    rfl
  · rw [if_neg hzero, if_pos hzero]

theorem worn_reachable (k : Nat) (hk : k + 1 < 2 ^ 31) :
    ∃ t, Lts.Reachable (sys Unit) t ∧ t.slab = worn (UInt32.ofNat (2 * (k + 1))) := by
  induction k with
  | zero =>
    exact ⟨((new 1 (by decide)).after (.insert ())).after (.remove ⟨0, 1, rfl⟩),
      .step (.step (.start ⟨1, by decide, rfl⟩) trivial rfl) trivial rfl, rfl⟩
  | succ k ih =>
    obtain ⟨t, hreach, hslab⟩ := ih (by omega)
    have heven : (UInt32.ofNat (2 * (k + 1))).toNat % 2 = 0 := by
      rw [UInt32.toNat_ofNat']
      omega
    refine ⟨_, .step (.step hreach trivial rfl) trivial rfl, (worn_cycle heven hslab).trans ?_⟩
    have hnext : UInt32.ofNat (2 * (k + 1)) + 1 + 1 = UInt32.ofNat (2 * (k + 1 + 1)) := by
      refine UInt32.toNat_inj.1 ?_
      simp only [UInt32.toNat_add, UInt32.toNat_ofNat', show (1 : UInt32).toNat = 1 from rfl]
      omega
    rw [hnext, if_neg]
    intro hzero
    have := congrArg UInt32.toNat hzero
    rw [UInt32.toNat_ofNat'] at this
    simp at this
    omega

/-- A slot is worn out by `2 ^ 31` items. -/
theorem wornOut_reachable : ∃ t, Lts.Reachable (sys Unit) t ∧ t.slab = wornOut := by
  obtain ⟨t, hreach, hslab⟩ := worn_reachable (2 ^ 31 - 2) (by decide)
  have heven : (UInt32.ofNat (2 * (2 ^ 31 - 2 + 1))).toNat % 2 = 0 := by decide
  exact ⟨_, .step (.step hreach trivial rfl) trivial rfl, (worn_cycle heven hslab).trans (if_pos (by decide))⟩

theorem slab_refines_worn :
    ∃ t, Lts.Reachable (sys Unit) t ∧ t.slab.Retired 0 ∧ t.slab.insert () = (t.slab, .error ()) ∧
      ∀ ops, (t.run ops).slab.Retired 0 ∧ ∀ handle ∈ (t.run ops).issued, handle.index = 0 → handle ∈ t.issued := by
  obtain ⟨t, hreach, hslab⟩ := wornOut_reachable
  have hretired : t.slab.Retired 0 := by
    rw [hslab]
    exact ⟨_, rfl, rfl⟩
  obtain ⟨-, -, -, -, -, -, -, -, -, hkept⟩ := slab_refines hreach
  exact ⟨t, hreach, hretired, by rw [hslab]; rfl, fun ops => hkept 0 ops hretired⟩

end Tracked
end HexNet
