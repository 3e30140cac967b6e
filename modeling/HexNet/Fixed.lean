/-
Fixed-capacity containers (`fixed.rs`), as lists with their bound: a vector
that refuses what does not fit, and a queue that drops its oldest entry.
-/
import HexNet.Lib.Lists

namespace HexNet

/-- A vector whose capacity is a constant. -/
structure FixedVec (α : Type) (cap : Nat) where
  items : List α
  le : items.length ≤ cap

namespace FixedVec

variable {α : Type} {cap : Nat}

def empty : FixedVec α cap := ⟨[], Nat.zero_le _⟩

@[simp] theorem items_empty : (empty : FixedVec α cap).items = [] := rfl

/-- `from_slice`: `none` rather than truncating. -/
def fromSlice (source : List α) : Option (FixedVec α cap) :=
  if h : source.length ≤ cap then some ⟨source, h⟩ else none

def isFull (v : FixedVec α cap) : Bool := v.items.length == cap

theorem length_append_le {v : FixedVec α cap} (h : v.items.length < cap) (item : α) :
    (v.items ++ [item]).length ≤ cap := by
  rw [List.length_append, List.length_singleton]
  exact h

/-- False when full. -/
def push (v : FixedVec α cap) (item : α) : FixedVec α cap × Bool :=
  if h : v.items.length < cap then (⟨v.items ++ [item], length_append_le h item⟩, true) else (v, false)

/-- `position` and `remove`: takes out the first entry satisfying `p`, keeping
the order of the rest. -/
def removeFirst (v : FixedVec α cap) (p : α → Bool) : FixedVec α cap :=
  ⟨v.items.eraseP p, Nat.le_trans List.eraseP_sublist.length_le v.le⟩

/-- `iter_mut().find(..)`: changes the first entry satisfying `p`. -/
def modifyFirst (v : FixedVec α cap) (p : α → Bool) (f : α → α) : FixedVec α cap :=
  ⟨v.items.modifyFirst p f, by rw [List.length_modifyFirst]; exact v.le⟩

/-- Changes the first entries satisfying `p`, at most `n` of them. -/
def modifyUpTo (v : FixedVec α cap) (p : α → Bool) (f : α → α) (n : Nat) : FixedVec α cap :=
  ⟨v.items.modifyUpTo p f n, by rw [List.length_modifyUpTo]; exact v.le⟩

theorem push_of_not_full {v : FixedVec α cap} (h : v.isFull = false) (item : α) :
    (v.push item).1.items = v.items ++ [item] ∧ (v.push item).2 = true := by
  have hne : v.items.length ≠ cap := by simpa [isFull] using h
  have hlt : v.items.length < cap := Nat.lt_of_le_of_ne v.le hne
  simp [push, hlt]

theorem isFull_eq_false {v : FixedVec α cap} (h : v.items.length < cap) : v.isFull = false := by
  simp [isFull]; omega

end FixedVec

/-- A queue that drops its oldest entry when full. -/
structure RingQueue (α : Type) (cap : Nat) where
  items : List α

namespace RingQueue

variable {α : Type} {cap : Nat}

def empty : RingQueue α cap := ⟨[]⟩

def push (q : RingQueue α cap) (item : α) : RingQueue α cap :=
  if q.items.length = cap then ⟨q.items.tail ++ [item]⟩ else ⟨q.items ++ [item]⟩

def pop (q : RingQueue α cap) : Option α × RingQueue α cap := (q.items.head?, ⟨q.items.tail⟩)

/-- An entry is last where it is pushed. -/
theorem push_last (q : RingQueue α cap) (item : α) : ∃ before, (q.push item).items = before ++ [item] := by
  unfold push
  split
  · exact ⟨_, rfl⟩
  · exact ⟨_, rfl⟩

theorem mem_push (q : RingQueue α cap) (item : α) : item ∈ (q.push item).items := by
  obtain ⟨before, hitems⟩ := q.push_last item
  simp [hitems]

/-- An entry is there until as many are pushed behind it as the queue holds. -/
theorem push_behind {q : RingQueue α cap} {a : α} {before behind : List α} (h : q.items = before ++ a :: behind)
    (hroom : behind.length + 1 < cap) (item : α) :
    ∃ before', (q.push item).items = before' ++ a :: (behind ++ [item]) := by
  unfold push
  rw [h]
  split
  next hfull =>
    cases before with
    | nil =>
      simp only [List.nil_append, List.length_cons] at hfull
      omega
    | cons b before => exact ⟨before, by simp⟩
  · exact ⟨before, by simp⟩

end RingQueue
end HexNet
