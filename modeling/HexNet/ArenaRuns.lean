/-
An arena over whole runs. Beside it stands what was written to each message
still live: a byte where one was, nothing where the message was reserved and
not written yet. In every state reached the blocks are the free chain and one
chain for each live message, and a live message reads as what was written to
it (`arena_keeps`).
-/
import HexNet.ArenaFacts
import HexNet.Lib.Lts

namespace HexNet
namespace Arena

open LeBytes

variable {N : Nat}

/-! ## Messages are told apart -/

theorem Stored.start_mem {a : Arena N} {r : ByteRef} {payload : List UInt8} {cs : List Nat} (h : Stored a r payload cs) :
    r.start ∈ cs := by
  cases cs with
  | nil =>
    have hblocks := h.blocks
    have hpos := blocksFor_pos payload.length
    rw [List.length_nil] at hblocks
    omega
  | cons c cs =>
    rw [h.linked.1]
    exact List.mem_cons_self

/-- No two live messages have one reference: their chains would share a block. -/
theorem Owns.nodup {a : Arena N} {live : List (ByteRef × List UInt8)} (h : Owns a live) : (live.map Prod.fst).Nodup := by
  obtain ⟨free, chains, -, -, hall, hperm⟩ := h.chains
  have hnodup := (List.nodup_append.1 (hperm.nodup_iff.2 List.nodup_range)).2.1
  clear hperm h
  induction hall with
  | nil => exact List.nodup_nil
  | @cons e cs live chains hfst hrest ih =>
    rw [List.flatten_cons, List.nodup_append] at hnodup
    rw [List.map_cons, List.nodup_cons]
    refine ⟨fun hmem => ?_, ih hnodup.2.1⟩
    obtain ⟨e', he', hsame⟩ := List.mem_map.1 hmem
    obtain ⟨cs', hcs', hstored⟩ := hrest.exists_of_mem he'
    have hstart := hstored.start_mem
    rw [hsame] at hstart
    exact hnodup.2.2 _ hfst.start_mem _ (List.mem_flatten_of_mem hcs' hstart) rfl

/-! ## What was written -/

/-- `bytes` has what was written, wherever something was. -/
abbrev Fills (written : List (Option UInt8)) (bytes : List UInt8) : Prop :=
  List.Forall₂ (fun o x => ∀ b, o = some b → x = b) written bytes

theorem Fills.byte {written : List (Option UInt8)} {bytes : List UInt8} (h : Fills written bytes) {i : Nat} {b : UInt8}
    (hw : written[i]? = some (some b)) : bytes[i]? = some b := by
  induction h generalizing i with
  | nil => cases hw
  | cons hfst _ ih =>
    cases i with
    | zero => exact congrArg some (hfst b (Option.some.inj hw))
    | succ i => exact ih hw

theorem fills_none (bytes : List UInt8) : Fills (List.replicate bytes.length none) bytes := by
  induction bytes with
  | nil => exact .nil
  | cons b bytes ih => exact .cons (fun _ h => (nomatch h)) ih

theorem fills_some (bytes : List UInt8) : Fills (bytes.map some) bytes := by
  induction bytes with
  | nil => exact .nil
  | cons b bytes ih => exact .cons (fun _ h => Option.some.inj h) ih

theorem Fills.overwrite {written : List (Option UInt8)} {before : List UInt8} (h : Fills written before) (offset : Nat)
    (bytes : List UInt8) :
    Fills (LeBytes.overwrite written offset (bytes.map some)) (LeBytes.overwrite before offset bytes) := by
  unfold LeBytes.overwrite
  rw [List.length_map]
  exact List.rel_append (List.rel_append (List.forall₂_take offset h) (fills_some bytes)) (List.forall₂_drop _ h)

end Arena

/-- An arena, and what was written to each message live in it. -/
structure Kept (N : Nat) where
  arena : Arena N
  live : List (ByteRef × List (Option UInt8))

inductive ArenaOp
  | reserve (len : Nat)
  | writeAt (message : ByteRef) (offset : Nat) (bytes : List UInt8)
  | store (payload : List UInt8)
  | release (message : ByteRef)

/-- The message an operation is given. -/
def ArenaOp.target : ArenaOp → Option ByteRef
  | .writeAt message _ _ | .release message => some message
  | .reserve _ | .store _ => none

namespace Kept

open Arena LeBytes

variable {N : Nat}

def after (s : Kept N) : ArenaOp → Kept N
  | .reserve len =>
    match s.arena.reserve len with
    | none => s
    | some (arena, r) => ⟨arena, s.live ++ [(r, List.replicate len none)]⟩
  | .writeAt r offset bytes =>
    let w := s.arena.writeAt r offset bytes
    ⟨w.1, if w.2 then s.live.map fun e => if e.1 = r then (r, overwrite e.2 offset (bytes.map some)) else e else s.live⟩
  | .store payload =>
    let w := s.arena.store payload
    ⟨w.1, s.live ++ w.2.toList.map fun r => (r, payload.map some)⟩
  | .release r => ⟨s.arena.release r, s.live.filter fun e => e.1 ≠ r⟩

/-- A reference given to the arena is none, or that of a message it gave out
and was not given back. -/
def Given (s : Kept N) (op : ArenaOp) : Prop :=
  ∀ r, op.target = some r → r.isNone = true ∨ r ∈ s.live.map Prod.fst

def sys (N : Nat) : Lts.Sys (Kept N) ArenaOp where
  start s := 0 < N ∧ N < noBlock ∧ s = ⟨.new, []⟩
  step s op s' := s.Given op ∧ s' = s.after op

/-- The messages `held` are those live, each with what was written to it. -/
def Holds (s : Kept N) (held : List (ByteRef × List UInt8)) : Prop :=
  s.arena.Owns held ∧ List.Forall₂ (fun e h => e.1 = h.1 ∧ Fills e.2 h.2) s.live held

variable {s : Kept N} {held : List (ByteRef × List UInt8)}

theorem Holds.refs_eq (h : s.Holds held) : s.live.map Prod.fst = held.map Prod.fst := by
  have hrefs : List.Forall₂ (fun e h => e = h) (s.live.map Prod.fst) (held.map Prod.fst) :=
    List.forall₂_map_left_iff.2 (List.forall₂_map_right_iff.2 (h.2.imp fun _ _ h => h.1))
  exact List.forall₂_eq_eq_eq ▸ hrefs

theorem Holds.mem (h : s.Holds held) {r : ByteRef} {w : List (Option UInt8)} (hmem : (r, w) ∈ s.live) :
    ∃ bytes, (r, bytes) ∈ held ∧ Fills w bytes := by
  obtain ⟨⟨r', bytes⟩, hin, rfl, hfills⟩ := h.2.exists_of_mem hmem
  exact ⟨bytes, hin, hfills⟩

/-- A live message among the others, on both sides. -/
theorem Holds.split (h : s.Holds held) {r : ByteRef} (hmem : r ∈ s.live.map Prod.fst) :
    ∃ l₁ w l₂ h₁ bytes h₂, s.live = l₁ ++ (r, w) :: l₂ ∧ held = h₁ ++ (r, bytes) :: h₂ ∧
      List.Forall₂ (fun e h => e.1 = h.1 ∧ Fills e.2 h.2) l₁ h₁ ∧ Fills w bytes ∧
      List.Forall₂ (fun e h => e.1 = h.1 ∧ Fills e.2 h.2) l₂ h₂ ∧ ∀ e ∈ l₁ ++ l₂, e.1 ≠ r := by
  have hnodup := h.1.nodup
  rw [← h.refs_eq] at hnodup
  obtain ⟨⟨r', w⟩, hin, rfl⟩ := List.mem_map.1 hmem
  obtain ⟨l₁, l₂, hlive⟩ := List.append_of_mem hin
  have hall := h.2
  rw [hlive] at hall hnodup
  obtain ⟨h₁, ⟨r, bytes⟩, h₂, hheld, hall₁, ⟨rfl, hfills⟩, hall₂⟩ := hall.split
  refine ⟨l₁, w, l₂, h₁, bytes, h₂, hlive, hheld, hall₁, hfills, hall₂, fun e he heq => ?_⟩
  rw [List.map_append, List.map_cons, List.perm_middle.nodup_iff, List.nodup_cons, ← List.map_append] at hnodup
  exact hnodup.1 (List.mem_map.2 ⟨e, he, heq⟩)

/-- What a step does: it keeps every message but the one it is given as it
was. -/
def Steps (s : Kept N) (op : ArenaOp) (held : List (ByteRef × List UInt8)) : Prop :=
  ∃ held', (s.after op).Holds held' ∧ ∀ r bytes, (r, bytes) ∈ held → op.target ≠ some r → (r, bytes) ∈ held'

theorem Holds.reserve (h : s.Holds held) (len : Nat) : s.Steps (.reserve len) held := by
  dsimp only [Steps, after]
  by_cases hroom : len ≤ 65535 ∧ blocksFor len ≤ s.arena.freeCount
  · obtain ⟨a, r, bytes, hreserve, rfl, howns, -⟩ := reserve_owns h.1 hroom.1 hroom.2
    rw [hreserve]
    exact ⟨_, ⟨howns, List.rel_append h.2 (.cons ⟨rfl, fills_none bytes⟩ .nil)⟩,
      fun r bytes hmem _ => List.mem_append_left _ hmem⟩
  · rw [reserve_eq_none (by omega)]
    exact ⟨held, h, fun r bytes hmem _ => hmem⟩

theorem Holds.store (h : s.Holds held) (payload : List UInt8) : s.Steps (.store payload) held := by
  dsimp only [Steps, after]
  by_cases hroom : payload.length ≤ 65535 ∧ blocksFor payload.length ≤ s.arena.freeCount
  · obtain ⟨a, r, hstore, howns, -⟩ := store_owns h.1 hroom.1 hroom.2
    rw [hstore]
    exact ⟨_, ⟨howns, List.rel_append h.2 (.cons ⟨rfl, fills_some payload⟩ .nil)⟩,
      fun r bytes hmem _ => List.mem_append_left _ hmem⟩
  · rw [store_eq_none (by omega)]
    refine ⟨held, ⟨h.1, ?_⟩, fun r bytes hmem _ => hmem⟩
    rw [Option.toList_none, List.map_nil, List.append_nil]
    exact h.2

theorem Holds.writeAt (h : s.Holds held) (r : ByteRef) (offset : Nat) (bytes : List UInt8)
    (hgiven : s.Given (.writeAt r offset bytes)) : s.Steps (.writeAt r offset bytes) held := by
  have hrefused (hnot : s.arena.writeAt r offset bytes = (s.arena, false)) : s.Steps (.writeAt r offset bytes) held := by
    dsimp only [Steps, after]
    rw [hnot]
    exact ⟨held, h, fun r bytes hmem _ => hmem⟩
  rcases hgiven r rfl with hnone | hmem
  · exact hrefused (if_pos (by rw [hnone, Bool.true_or]))
  · obtain ⟨l₁, w, l₂, h₁, before, h₂, hlive, rfl, hall₁, hfills, hall₂, hother⟩ := h.split hmem
    obtain ⟨cs, hst, -⟩ := h.1.chain (show (r, before) ∈ h₁ ++ (r, before) :: h₂ by simp)
    by_cases hfit : offset + bytes.length ≤ before.length
    · obtain ⟨a, hwrite, howns⟩ := writeAt_owns h.1 offset bytes hfit
      dsimp only [Steps, after]
      rw [hwrite]
      refine ⟨_, ⟨howns, ?_⟩, fun r' bytes' hin hne => ?_⟩
      · have hsame (l : List (ByteRef × List (Option UInt8))) (hl : ∀ e ∈ l, e.1 ≠ r) :
            l.map (fun e => if e.1 = r then (r, overwrite e.2 offset (bytes.map some)) else e) = l := by
          refine (List.map_congr_left fun e he => ?_).trans (List.map_id l)
          exact if_neg (hl e he)
        rw [if_pos rfl, hlive, List.map_append, List.map_cons, hsame l₁ fun e he => hother e (List.mem_append_left _ he),
          hsame l₂ fun e he => hother e (List.mem_append_right _ he), if_pos rfl]
        exact List.rel_append hall₁ (.cons ⟨rfl, hfills.overwrite offset bytes⟩ hall₂)
      · rcases List.mem_append.1 hin with hin | hin
        · exact List.mem_append_left _ hin
        · rcases List.mem_cons.1 hin with heq | hin
          · cases heq
            exact absurd rfl hne
          · exact List.mem_append_right _ (List.mem_cons_of_mem _ hin)
    · refine hrefused (if_pos ?_)
      rw [Bool.or_eq_true, decide_eq_true_iff, ByteRef.len, hst.count]
      exact .inr (Nat.not_le.1 hfit)

theorem Holds.release (h : s.Holds held) (r : ByteRef) (hgiven : s.Given (.release r)) : s.Steps (.release r) held := by
  dsimp only [Steps, after]
  have hsame (l : List (ByteRef × List (Option UInt8))) (hl : ∀ e ∈ l, e.1 ≠ r) : l.filter (fun e => e.1 ≠ r) = l :=
    List.filter_eq_self.2 fun e he => decide_eq_true (hl e he)
  rcases hgiven r rfl with hnone | hmem
  · refine ⟨held, ⟨?_, ?_⟩, fun r bytes hin _ => hin⟩
    · rw [Arena.release, if_pos hnone]
      exact h.1
    · rw [hsame s.live fun e he heq => ?_]
      · exact h.2
      · obtain ⟨bytes, hin, -⟩ := h.mem he
        obtain ⟨-, -, -, hlive⟩ := h.1.chain hin
        rw [heq, hnone] at hlive
        cases hlive
  · obtain ⟨l₁, w, l₂, h₁, before, h₂, hlive, rfl, hall₁, hfills, hall₂, hother⟩ := h.split hmem
    refine ⟨h₁ ++ h₂, ⟨release_owns h.1, ?_⟩, fun r' bytes' hin hne => ?_⟩
    · rw [hlive, List.filter_append, List.filter_cons, hsame l₁ fun e he => hother e (List.mem_append_left _ he),
        hsame l₂ fun e he => hother e (List.mem_append_right _ he), if_neg (by simp)]
      exact List.rel_append hall₁ hall₂
    · rcases List.mem_append.1 hin with hin | hin
      · exact List.mem_append_left _ hin
      · rcases List.mem_cons.1 hin with heq | hin
        · cases heq
          exact absurd rfl hne
        · exact List.mem_append_right _ hin

theorem Holds.after (h : s.Holds held) {op : ArenaOp} (hgiven : s.Given op) : s.Steps op held := by
  cases op with
  | reserve len => exact h.reserve len
  | writeAt r offset bytes => exact h.writeAt r offset bytes hgiven
  | store payload => exact h.store payload
  | release r => exact h.release r hgiven

theorem reachable_holds (h : Lts.Reachable (sys N) s) : ∃ held, s.Holds held := by
  refine Lts.Reach.invariant (P := fun s => ∃ held, s.Holds held) ?_ ?_ h
  · rintro _ ⟨hpos, hsmall, rfl⟩
    exact ⟨[], new_owns hpos hsmall, .nil⟩
  · rintro s op _ - ⟨held, hs⟩ - ⟨hgiven, rfl⟩
    obtain ⟨held', hs', -⟩ := hs.after hgiven
    exact ⟨held', hs'⟩

/-- **The arena keeps messages apart and leaks nothing.** In every state
reached:
* the blocks are the free chain and the chains of the live messages, each block
  in one of them once, and the free count is the free chain's length;
* a payload is stored exactly when it is not too long and its blocks are free;
* a live message is read, and visited chunk by chunk, as what was written to it;
* an operation changes no message but the one it is given. -/
theorem arena_keeps (h : Lts.Reachable (sys N) s) :
    (∃ free chains, Linked s.arena.next noBlock s.arena.freeHead free ∧ free.length = s.arena.freeCount ∧
      List.Forall₂ (fun e cs => Linked s.arena.next noBlock e.1.start cs ∧ cs.length = blocksFor e.1.count) s.live chains ∧
      (free ++ chains.flatten).Perm (List.range N)) ∧
    (∀ payload, (s.arena.store payload).2.isSome ↔
      payload.length ≤ 65535 ∧ blocksFor payload.length ≤ s.arena.freeCount) ∧
    (∀ r w, (r, w) ∈ s.live → ∃ bytes, Fills w bytes ∧
      (∀ room, r.count ≤ room → s.arena.load r room = some bytes) ∧ (s.arena.chunks r).flatten = bytes) ∧
    ∀ op, s.Given op → ∀ r w, (r, w) ∈ s.live → op.target ≠ some r →
      (∀ room, (s.after op).arena.load r room = s.arena.load r room) ∧
        ((s.after op).arena.chunks r).flatten = (s.arena.chunks r).flatten := by
  obtain ⟨held, hs⟩ := reachable_holds h
  refine ⟨?_, fun payload => ?_, fun r w hmem => ?_, fun op hgiven r w hmem hother => ?_⟩
  · obtain ⟨free, chains, hfree, hcount, hall, hperm⟩ := hs.1.chains
    refine ⟨free, chains, hfree, hcount, hs.2.comp (fun e e' cs hsame hst => ?_) hall, hperm⟩
    rw [hsame.1, hst.count]
    exact ⟨hst.linked, hst.blocks⟩
  · by_cases hroom : payload.length ≤ 65535 ∧ blocksFor payload.length ≤ s.arena.freeCount
    · obtain ⟨a, r, hstore, -⟩ := store_owns hs.1 hroom.1 hroom.2
      rw [hstore]
      exact iff_of_true rfl hroom
    · rw [store_eq_none (by omega)]
      exact iff_of_false Bool.false_ne_true hroom
  · obtain ⟨bytes, hin, hfills⟩ := hs.mem hmem
    obtain ⟨cs, hst, -⟩ := hs.1.chain hin
    exact ⟨bytes, hfills, fun room hroom => load_owned hs.1 hin (hst.count ▸ hroom), chunks_owned hs.1 hin⟩
  · obtain ⟨bytes, hin, -⟩ := hs.mem hmem
    obtain ⟨held', hs', hkept⟩ := hs.after hgiven
    obtain ⟨cs, hst, -⟩ := hs.1.chain hin
    have hin' := hkept r bytes hin hother
    refine ⟨fun room => ?_, by rw [chunks_owned hs'.1 hin', chunks_owned hs.1 hin]⟩
    by_cases hroom : r.count ≤ room
    · rw [load_owned hs'.1 hin' (hst.count ▸ hroom), load_owned hs.1 hin (hst.count ▸ hroom)]
    · have hshort : (r.isNone || decide (room < r.len)) = true := by
        rw [Bool.or_eq_true, decide_eq_true_iff]
        exact .inr (Nat.not_le.1 hroom)
      rw [load, load, if_pos hshort, if_pos hshort]

/-! ### Three blocks -/

/-- A message of one block, and one of two of which the bytes at the border
were written. -/
def shelf : Kept 3 :=
  (((⟨.new, []⟩ : Kept 3).after (.store [1, 2])).after (.reserve 70)).after (.writeAt ⟨1, 70⟩ 63 [7, 8])

theorem shelf_reachable : Lts.Reachable (sys 3) shelf := by
  refine .step (.step (.step (.start ⟨by decide, by decide, rfl⟩) trivial ⟨?_, rfl⟩) trivial ⟨?_, rfl⟩) trivial ⟨?_, rfl⟩
  · exact fun r h => (nomatch h)
  · exact fun r h => (nomatch h)
  · rintro r ⟨⟩
    exact .inr (by decide)

theorem arena_keeps_shelf : (shelf.arena.store [3]).2.isSome = false ∧
    ∃ bytes, shelf.arena.load ⟨1, 70⟩ 70 = some bytes ∧ bytes[63]? = some 7 ∧ bytes[64]? = some 8 := by
  obtain ⟨-, hstore, hread, -⟩ := arena_keeps shelf_reachable
  refine ⟨Bool.eq_false_iff.2 fun hsome => absurd ((hstore [3]).1 hsome).2 (by decide), ?_⟩
  obtain ⟨bytes, hfills, hload, -⟩ := hread ⟨1, 70⟩
    (List.replicate 63 none ++ ([some 7, some 8] ++ List.replicate 5 none)) (by decide)
  exact ⟨bytes, hload 70 (by decide), hfills.byte (by decide), hfills.byte (by decide)⟩

end Kept
end HexNet
