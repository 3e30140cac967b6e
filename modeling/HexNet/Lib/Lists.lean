/-
Searching a list and changing what is found: the first match modified, or up
to a number of them; removing a member by moving the last into its place; and
lists related member by member, split at one of them.
-/
import Mathlib.Algebra.Order.Ring.Nat
import Mathlib.Data.List.Basic
import Mathlib.Data.List.Forall2
import Mathlib.Data.List.Perm.Subperm

namespace List

variable {α : Type}

/-- The list with its first member satisfying `p` changed by `f`. -/
def modifyFirst (p : α → Bool) (f : α → α) : List α → List α
  | [] => []
  | a :: l => if p a then f a :: l else a :: modifyFirst p f l

/-- The list with up to `n` members satisfying `p`, the first ones, changed by `f`. -/
def modifyUpTo (p : α → Bool) (f : α → α) : Nat → List α → List α
  | 0, l => l
  | _ + 1, [] => []
  | n + 1, a :: l => if p a then f a :: modifyUpTo p f n l else a :: modifyUpTo p f (n + 1) l

/-- Where the change is one `g` cannot see, `g` sees the same list. -/
theorem map_modifyFirst {β : Type} {g : α → β} {f : α → α} (h : ∀ a, g (f a) = g a) (p : α → Bool) (l : List α) :
    (l.modifyFirst p f).map g = l.map g := by
  induction l with
  | nil => rfl
  | cons a l ih =>
    rw [modifyFirst]
    split
    · rw [map_cons, map_cons, h]
    · rw [map_cons, map_cons, ih]

theorem map_modifyUpTo {β : Type} {g : α → β} {f : α → α} (h : ∀ a, g (f a) = g a) (p : α → Bool) (n : Nat)
    (l : List α) : (l.modifyUpTo p f n).map g = l.map g := by
  induction l generalizing n with
  | nil => cases n <;> rfl
  | cons a l ih =>
    cases n with
    | zero => rfl
    | succ n =>
      rw [modifyUpTo]
      split
      · rw [map_cons, map_cons, h, ih]
      · rw [map_cons, map_cons, ih]

@[simp] theorem length_modifyFirst (p : α → Bool) (f : α → α) (l : List α) :
    (l.modifyFirst p f).length = l.length := by
  simpa using congrArg length (map_modifyFirst (g := fun _ => ()) (fun _ => rfl) p l)

@[simp] theorem length_modifyUpTo (p : α → Bool) (f : α → α) (n : Nat) (l : List α) :
    (l.modifyUpTo p f n).length = l.length := by
  simpa using congrArg length (map_modifyUpTo (g := fun _ => ()) (fun _ => rfl) p n l)

/-- Two places written, the second over the first where they are one. -/
theorem getElem?_set_set {l : List α} {i j : Nat} (hi : i < l.length) (hj : j < l.length) (x y : α) (k : Nat) :
    ((l.set i x).set j y)[k]? = if k = j then some y else if k = i then some x else l[k]? := by
  by_cases hkj : k = j
  · rw [if_pos hkj, hkj, getElem?_set_self (by rw [length_set]; exact hj)]
  · rw [if_neg hkj, getElem?_set_ne (Ne.symm hkj)]
    by_cases hki : k = i
    · rw [if_pos hki, hki, getElem?_set_self hi]
    · rw [if_neg hki, getElem?_set_ne (Ne.symm hki)]

/-- The first that satisfies `p` is changed where it stands. -/
theorem modifyFirst_append {p : α → Bool} {a : α} (f : α → α) {before : List α} (hbefore : ∀ b ∈ before, p b = false)
    (ha : p a = true) (after : List α) : (before ++ a :: after).modifyFirst p f = before ++ f a :: after := by
  induction before with
  | nil => rw [nil_append, modifyFirst, if_pos ha, nil_append]
  | cons b before ih =>
    have hb : ¬ p b = true := by simp [hbefore b mem_cons_self]
    rw [cons_append, modifyFirst, if_neg hb, ih fun x hx => hbefore x (mem_cons_of_mem _ hx), cons_append]

/-- A change that takes a member out of a filter takes out the first. -/
theorem filter_modifyFirst {p : α → Bool} {f : α → α} (h : ∀ a, p (f a) = false) (l : List α) :
    (l.modifyFirst p f).filter p = (l.filter p).tail := by
  induction l with
  | nil => rfl
  | cons a l ih =>
    rw [modifyFirst]
    by_cases hp : p a = true
    · rw [if_pos hp, filter_cons_of_pos hp, filter_cons_of_neg (by simp [h]), tail_cons]
    · rw [if_neg hp, filter_cons_of_neg hp, filter_cons_of_neg hp, ih]

theorem filter_modifyFirst_of_not {p q : α → Bool} {f : α → α} (h : ∀ a, p a = true → q a = false ∧ q (f a) = false)
    (l : List α) : (l.modifyFirst p f).filter q = l.filter q := by
  induction l with
  | nil => rfl
  | cons a l ih =>
    rw [modifyFirst]
    by_cases hp : p a = true
    · rw [if_pos hp, filter_cons_of_neg (by simp [h a hp]), filter_cons_of_neg (by simp [h a hp])]
    · rw [if_neg hp, filter_cons, filter_cons, ih]

/-- A member of the changed list is an old one, or the one changed. -/
theorem mem_modifyFirst {p : α → Bool} {f : α → α} {l : List α} {b : α} (h : b ∈ l.modifyFirst p f) :
    b ∈ l ∨ ∃ a, l.find? p = some a ∧ b = f a := by
  induction l with
  | nil => exact .inl h
  | cons a l ih =>
    rw [modifyFirst] at h
    by_cases hp : p a
    · rw [if_pos hp] at h
      rcases mem_cons.1 h with rfl | h
      · exact .inr ⟨a, by simp [hp], rfl⟩
      · exact .inl (mem_cons_of_mem _ h)
    · rw [if_neg hp] at h
      rcases mem_cons.1 h with rfl | h
      · exact .inl mem_cons_self
      · rcases ih h with h | ⟨x, hx, rfl⟩
        · exact .inl (mem_cons_of_mem _ h)
        · exact .inr ⟨x, by simp [hp, hx], rfl⟩

theorem mem_modifyFirst_of_find {p : α → Bool} {f : α → α} {l : List α} {a : α} (h : l.find? p = some a) :
    f a ∈ l.modifyFirst p f := by
  induction l with
  | nil => cases h
  | cons b l ih =>
    rw [modifyFirst]
    by_cases hp : p b
    · rw [find?_cons_of_pos hp] at h
      cases h
      rw [if_pos hp]
      exact mem_cons_self
    · rw [find?_cons_of_neg hp] at h
      rw [if_neg hp]
      exact mem_cons_of_mem _ (ih h)

theorem mem_modifyUpTo {p : α → Bool} {f : α → α} {n : Nat} {l : List α} {b : α} (h : b ∈ l.modifyUpTo p f n) :
    b ∈ l ∨ ∃ a ∈ l, b = f a := by
  induction l generalizing n with
  | nil => cases n <;> exact .inl h
  | cons a l ih =>
    cases n with
    | zero => exact .inl h
    | succ n =>
      rw [modifyUpTo] at h
      split at h
      · rcases mem_cons.1 h with rfl | h
        · exact .inr ⟨a, mem_cons_self, rfl⟩
        · rcases ih h with h | ⟨x, hx, rfl⟩
          · exact .inl (mem_cons_of_mem _ h)
          · exact .inr ⟨x, mem_cons_of_mem _ hx, rfl⟩
      · rcases mem_cons.1 h with rfl | h
        · exact .inl mem_cons_self
        · rcases ih h with h | ⟨x, hx, rfl⟩
          · exact .inl (mem_cons_of_mem _ h)
          · exact .inr ⟨x, mem_cons_of_mem _ hx, rfl⟩

/-- The list without its member at `i`, whose place the last one takes. -/
def swapRemove (l : List α) (i : Nat) : List α :=
  match l.getLast? with
  | none => l
  | some last => (l.set i last).dropLast

@[simp] theorem length_swapRemove (l : List α) (i : Nat) : (l.swapRemove i).length = l.length - 1 := by
  unfold swapRemove
  cases h : l.getLast? with
  | none => rw [getLast?_eq_none_iff.1 h]; rfl
  | some last => simp

theorem getElem?_swapRemove (l : List α) {i : Nat} (hi : i < l.length) (j : Nat) :
    (l.swapRemove i)[j]? = if j < l.length - 1 then if j = i then l[l.length - 1]? else l[j]? else none := by
  have hlast : l.getLast? = some (l[l.length - 1]) := by
    rw [getLast?_eq_getElem?, getElem?_eq_getElem]
  rw [swapRemove, hlast]
  dsimp only
  rw [getElem?_dropLast, length_set]
  by_cases hj : j < l.length - 1
  · rw [if_pos hj, if_pos hj, getElem?_set]
    by_cases hij : j = i
    · subst hij
      rw [if_pos rfl, if_pos rfl, if_pos hi, getElem?_eq_getElem]
    · rw [if_neg (fun h => hij h.symm), if_neg hij]
  · rw [if_neg hj, if_neg hj]

/-! ## Lists related member by member -/

section

variable {β : Type} {R : α → β → Prop}

theorem Forall₂.exists_of_mem {l : List α} {m : List β} (h : Forall₂ R l m) {a : α} (ha : a ∈ l) : ∃ b ∈ m, R a b := by
  induction h with
  | nil => cases ha
  | @cons a' b l m hfst _ ih =>
    rcases mem_cons.1 ha with rfl | ha
    · exact ⟨b, mem_cons_self, hfst⟩
    · obtain ⟨b', hb', hr⟩ := ih ha
      exact ⟨b', mem_cons_of_mem _ hb', hr⟩

theorem Forall₂.comp {γ : Type} {S : β → γ → Prop} {T : α → γ → Prop} (hcomp : ∀ a b c, R a b → S b c → T a c)
    {l : List α} {m : List β} {n : List γ} (h : Forall₂ R l m) (h' : Forall₂ S m n) : Forall₂ T l n := by
  induction h generalizing n with
  | nil =>
    cases h'
    exact .nil
  | cons hfst _ ih =>
    cases h' with
    | cons hfst' hrest' => exact .cons (hcomp _ _ _ hfst hfst') (ih hrest')

/-- The right list splits where the left one does. -/
theorem Forall₂.split {l₁ l₂ : List α} {a : α} {m : List β} (h : Forall₂ R (l₁ ++ a :: l₂) m) :
    ∃ m₁ b m₂, m = m₁ ++ b :: m₂ ∧ Forall₂ R l₁ m₁ ∧ R a b ∧ Forall₂ R l₂ m₂ := by
  have hpre := (forall₂_take_append _ _ _ h.flip).flip
  have hpost := (forall₂_drop_append _ _ _ h.flip).flip
  have hsplit := take_append_drop l₁.length m
  revert hpost hsplit
  generalize m.drop l₁.length = rest
  intro hpost hsplit
  cases hpost with
  | cons hfst htail => exact ⟨_, _, _, hsplit.symm, hpre, hfst, htail⟩

end

theorem Subperm.image {l m : List α} (f : α → β) (h : l <+~ m) : l.map f <+~ m.map f := by
  obtain ⟨l', hperm, hsub⟩ := h
  exact ⟨l'.map f, hperm.map f, hsub.map f⟩

end List
