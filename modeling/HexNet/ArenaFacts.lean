/-
The arena keeps what it stores. `Arena.Owns a live` says the free chain and
the chains of the live messages are disjoint, together make up all `N`
blocks, and hold the messages' payloads.

* `store_owns`: a store adds the payload exactly when its blocks are free;
* `release_owns`: a release gives back one message's blocks;
* `load_owned`, `chunks_owned`: reading a live message gives its payload.
-/
import HexNet.Arena
import HexNet.Lib.Lists
import Mathlib.Algebra.BigOperators.Group.List.Basic

namespace HexNet
namespace Arena

open LeBytes

variable {N : Nat}

/-! ## Chains and their contents -/

/-- The bytes of a chain of blocks, end to end. -/
def contents (a : Arena N) (cs : List Nat) : List UInt8 := (cs.map a.blocks).flatten

theorem contents_cons (a : Arena N) (c : Nat) (cs : List Nat) : a.contents (c :: cs) = a.blocks c ++ a.contents cs := by
  simp [contents]

theorem contents_congr {a a' : Arena N} {cs : List Nat} (h : ∀ c ∈ cs, a'.blocks c = a.blocks c) :
    a'.contents cs = a.contents cs := by
  rw [contents, contents, List.map_congr_left h]

theorem length_contents {a : Arena N} (h : ∀ b, (a.blocks b).length = blockLen) (cs : List Nat) :
    (a.contents cs).length = blockLen * cs.length := by
  induction cs with
  | nil => rfl
  | cons c cs ih => rw [contents_cons, List.length_append, ih, h, List.length_cons]; ring

/-- The chain `cs` holds `payload` under the reference `r`. -/
structure Stored (a : Arena N) (r : ByteRef) (payload : List UInt8) (cs : List Nat) : Prop where
  linked : Linked a.next noBlock r.start cs
  count : r.count = payload.length
  blocks : cs.length = blocksFor payload.length
  bytes : (a.contents cs).take payload.length = payload

theorem Stored.congr {a a' : Arena N} {r : ByteRef} {payload : List UInt8} {cs : List Nat} (h : Stored a r payload cs)
    (hnext : ∀ c ∈ cs, a'.next c = a.next c) (hblocks : ∀ c ∈ cs, a'.blocks c = a.blocks c) :
    Stored a' r payload cs :=
  ⟨h.linked.congr hnext, h.count, h.blocks, by rw [contents_congr hblocks]; exact h.bytes⟩

theorem blocksFor_pos (len : Nat) : 0 < blocksFor len := by unfold blocksFor; omega

theorem le_blocksFor (len : Nat) : len ≤ blockLen * blocksFor len := by
  unfold blocksFor blockLen; omega

/-! ## The loops -/

/-- `detach` cuts the free chain after as many blocks as it is asked for. -/
theorem detach_eq {a : Arena N} {cs : List Nat} {l b m : Nat} (h : Linked a.next m b (cs ++ [l])) :
    a.detach (cs.length + 1) b = { a with next := Function.update a.next l noBlock, freeHead := m } := by
  induction cs generalizing b with
  | nil =>
    obtain ⟨rfl, hm⟩ := h
    rw [← show a.next b = m from hm]
    rfl
  | cons c cs ih =>
    obtain ⟨rfl, htail⟩ := h
    exact ih htail

/-- Writing from `within` of a chain's first block on writes there, and
nowhere off the chain. -/
theorem writeLoop_spec {cs : List Nat} {b : Nat} {a : Arena N} (fuel within : Nat) (bytes : List UInt8)
    (hlink : Linked a.next noBlock b cs) (hne : ∀ c ∈ cs, c ≠ noBlock) (hnodup : cs.Nodup)
    (hsize : ∀ c, (a.blocks c).length = blockLen) (hwithin : within < blockLen)
    (hfit : within + bytes.length ≤ blockLen * cs.length) (hfuel : bytes.length ≤ fuel) :
    ∃ blocks, a.writeLoop fuel b within bytes = ({ a with blocks }, true) ∧ (∀ c, (blocks c).length = blockLen) ∧
      (∀ c, c ∉ cs → blocks c = a.blocks c) ∧ (cs.map blocks).flatten = overwrite (a.contents cs) within bytes := by
  by_cases hempty : bytes = []
  · subst hempty
    exact ⟨a.blocks, by cases fuel <;> rfl, hsize, fun _ _ => rfl, (overwrite_nil _ _).symm⟩
  induction cs generalizing fuel b within bytes a with
  | nil =>
    have := List.length_pos_iff.2 hempty
    simp only [List.length_nil] at hfit
    omega
  | cons c cs ih =>
    obtain ⟨rfl, htail⟩ := hlink
    obtain ⟨hb, hnodup⟩ := List.nodup_cons.1 hnodup
    have hpos := List.length_pos_iff.2 hempty
    obtain ⟨fuel, rfl⟩ : ∃ n, fuel = n + 1 := ⟨fuel - 1, by omega⟩
    set take := min (blockLen - within) bytes.length with htake
    set written := overwrite (a.blocks b) within (bytes.take take) with hwritten
    have hfirst : (bytes.take take).length = take := by rw [List.length_take]; omega
    have hwlen : written.length = blockLen := by
      rw [hwritten, length_overwrite (by rw [hsize, hfirst]; omega), hsize]
    let a' : Arena N := { a with blocks := Function.update a.blocks b written }
    have hsize' : ∀ d, (a'.blocks d).length = blockLen := by
      intro d
      by_cases hd : d = b
      · rw [hd, show a'.blocks b = written from Function.update_self _ _ _, hwlen]
      · rw [show a'.blocks d = a.blocks d from Function.update_of_ne hd _ _, hsize]
    have hcontents : a'.contents cs = a.contents cs :=
      contents_congr fun d hd => Function.update_of_ne (by rintro rfl; exact hb hd) _ _
    have hrun : a.writeLoop (fuel + 1) b within bytes = a'.writeLoop fuel (a.next b) 0 (bytes.drop take) := by
      rw [writeLoop, if_neg (by simpa using hempty), if_neg (hne b (by simp))]
    have hleft : (bytes.drop take).length = bytes.length - take := List.length_drop
    rw [hrun, contents_cons]
    by_cases hlast : bytes.drop take = []
    · -- The block takes what is left.
      have hall : bytes.take take = bytes := List.take_of_length_le (List.drop_eq_nil_iff.1 hlast)
      refine ⟨a'.blocks, ?_, hsize', fun d hd => ?_, ?_⟩
      · rw [hlast]
        cases fuel <;> rfl
      · exact Function.update_of_ne (by rintro rfl; exact hd (by simp)) _ _
      · rw [List.map_cons, List.flatten_cons, show (cs.map a'.blocks).flatten = a'.contents cs from rfl, hcontents,
          show a'.blocks b = written from Function.update_self _ _ _, hwritten, hall]
        refine (overwrite_append_left _ ?_).symm
        rw [hsize, ← hall, hfirst]
        omega
    · -- The block is filled to its end, and the next one takes the rest.
      have hmore := List.length_pos_iff.2 hlast
      have hbound : within + take = blockLen := by omega
      obtain ⟨blocks, hrest, hsz, hout, hin⟩ := ih (a := a') fuel 0 (bytes.drop take) htail
        (fun d hd => hne d (by simp [hd])) hnodup hsize' (by decide)
        (by rw [List.length_cons, Nat.mul_succ] at hfit; omega) (by omega) hlast
      have hblock : blocks b = written := (hout b hb).trans (Function.update_self _ _ _)
      refine ⟨blocks, hrest, hsz, fun d hd => ?_, ?_⟩
      · rw [hout d fun hm => hd (by simp [hm])]
        exact Function.update_of_ne (by rintro rfl; exact hd (by simp)) _ _
      · rw [List.map_cons, List.flatten_cons, hin, hcontents, hblock, hwritten]
        have hacross := overwrite_append_across (a.contents cs) (bytes.drop take)
          (show within + (bytes.take take).length = (a.blocks b).length by rw [hfirst, hsize]; exact hbound)
        rw [List.take_append_drop] at hacross
        exact hacross.symm

/-- The walk to an offset's block leaves the chain from there on. -/
theorem walk_spec {a : Arena N} (pre cs : List Nat) {b : Nat} (hlink : Linked a.next noBlock b (pre ++ cs))
    (hne : ∀ c ∈ pre ++ cs, c ≠ noBlock) (hcs : cs ≠ []) :
    ∃ block, a.walk pre.length b = some block ∧ Linked a.next noBlock block cs := by
  induction pre generalizing b with
  | nil => exact ⟨b, rfl, hlink⟩
  | cons c pre ih =>
    obtain ⟨rfl, htail⟩ := hlink
    change Linked a.next noBlock (a.next b) (pre ++ cs) at htail
    have hmore : a.next b ≠ noBlock := by
      cases hrest : pre ++ cs with
      | nil => exact absurd (List.append_eq_nil_iff.1 hrest).2 hcs
      | cons d rest =>
        rw [hrest] at htail
        rw [htail.1]
        exact hne d (by rw [List.cons_append, hrest]; simp)
    obtain ⟨block, hwalk, hblock⟩ := ih htail fun d hd =>
      hne d (by simp only [List.cons_append, List.mem_cons]; exact .inr hd)
    exact ⟨block, by rw [List.length_cons, walk, if_neg hmore, hwalk], hblock⟩

/-- Releasing a chain pushes its blocks on the free chain, last first. -/
theorem releaseLoop_spec {cs : List Nat} {fuel b c : Nat} {free : List Nat} {a : Arena N}
    (hlink : Linked a.next noBlock b (c :: cs)) (hfree : Linked a.next noBlock a.freeHead free)
    (hne : ∀ d ∈ c :: cs, d ≠ noBlock) (hnodup : ((c :: cs) ++ free).Nodup) (hfuel : cs.length + 1 ≤ fuel) :
    ∃ next head, a.releaseLoop fuel b = { a with next, freeHead := head, freeCount := a.freeCount + (cs.length + 1) } ∧
      Linked next noBlock head ((c :: cs).reverse ++ free) ∧
      ∀ d, d ∉ c :: cs → next d = a.next d := by
  induction cs generalizing fuel b c free a with
  | nil =>
    obtain ⟨rfl, hstop⟩ := hlink
    obtain ⟨fuel, rfl⟩ : ∃ n, fuel = n + 1 := ⟨fuel - 1, by simp at hfuel; omega⟩
    refine ⟨Function.update a.next b a.freeHead, b, ?_, ⟨rfl, ?_⟩, ?_⟩
    · rw [releaseLoop]
      exact if_pos hstop
    · have hb : b ∉ free := by simp only [List.singleton_append, List.nodup_cons] at hnodup; exact hnodup.1
      rw [Function.update_self]
      exact hfree.update hb
    · intro d hd
      exact Function.update_of_ne (by simpa using hd) _ _
  | cons c' cs ih =>
    obtain ⟨rfl, hc', htail⟩ := hlink
    obtain ⟨fuel, rfl⟩ : ∃ n, fuel = n + 1 := ⟨fuel - 1, by simp at hfuel; omega⟩
    have hperm : ((c' :: cs) ++ (b :: free)).Nodup := by
      have : ((c' :: cs) ++ (b :: free)).Perm ((b :: c' :: cs) ++ free) := List.perm_middle
      exact this.nodup_iff.2 hnodup
    have hbout : b ∉ (c' :: cs) ++ free := (List.nodup_cons.1 hnodup).1
    rw [List.mem_append, not_or] at hbout
    obtain ⟨hb, hbfree⟩ := hbout
    let a' : Arena N := { a with
      next := Function.update a.next b a.freeHead, freeHead := b, freeCount := a.freeCount + 1 }
    have hlink' : Linked a'.next noBlock (a.next b) (c' :: cs) := Linked.update ⟨hc', htail⟩ hb
    have hfree' : Linked a'.next noBlock a'.freeHead (b :: free) := by
      refine ⟨rfl, ?_⟩
      show Linked a'.next noBlock (Function.update a.next b a.freeHead b) free
      rw [Function.update_self]
      exact hfree.update hbfree
    have hleft : cs.length + 1 ≤ fuel := by simp only [List.length_cons] at hfuel; omega
    obtain ⟨next, head, hrun, hlinked, hout⟩ := ih hlink' hfree'
      (fun d hd => hne d (by simp only [List.mem_cons] at hd ⊢; exact .inr hd)) hperm hleft
    refine ⟨next, head, ?_, ?_, ?_⟩
    · rw [releaseLoop]
      have hgo : a.next b ≠ noBlock := by rw [hc']; exact hne c' (by simp)
      refine (if_neg hgo).trans (hrun.trans ?_)
      simp only [a', List.length_cons]
      congr 1
      omega
    · rw [List.reverse_cons, List.append_assoc]
      exact hlinked
    · intro d hd
      simp only [List.mem_cons, not_or] at hd
      rw [hout d (by simpa using hd.2)]
      exact Function.update_of_ne hd.1 _ _

/-- A chain's bytes, first block first. -/
theorem take_contents_cons {a : Arena N} (hsize : ∀ c, (a.blocks c).length = blockLen) (b : Nat) (cs : List Nat)
    (n : Nat) :
    (a.contents (b :: cs)).take n =
      (a.blocks b).take (min n blockLen) ++ (a.contents cs).take (n - min n blockLen) := by
  rw [contents_cons, List.take_append, hsize]
  congr 1
  · rw [← List.take_take, List.take_of_length_le (l := a.blocks b) (Nat.le_of_eq (hsize b))]
  · congr 1
    omega

theorem loadLoop_spec {cs : List Nat} {fuel b n : Nat} {a : Arena N} (hlink : Linked a.next noBlock b cs)
    (hne : ∀ c ∈ cs, c ≠ noBlock) (hsize : ∀ c, (a.blocks c).length = blockLen)
    (hfit : n ≤ blockLen * cs.length) (hfuel : n ≤ fuel) :
    a.loadLoop fuel b n = some ((a.contents cs).take n) := by
  induction cs generalizing fuel b n with
  | nil =>
    have hn : n = 0 := by simpa using hfit
    subst hn
    cases fuel <;> rfl
  | cons c cs ih =>
    obtain ⟨rfl, htail⟩ := hlink
    by_cases hn : n = 0
    · subst hn
      cases fuel <;> rfl
    obtain ⟨fuel, rfl⟩ : ∃ k, fuel = k + 1 := ⟨fuel - 1, by omega⟩
    have hleft : n - min n blockLen ≤ fuel := by unfold blockLen; omega
    have hrest := ih htail (fun d hd => hne d (by simp [hd]))
      (by simp only [List.length_cons] at hfit; unfold blockLen at *; omega) hleft
    rw [loadLoop, if_neg hn, if_neg (hne b (by simp)), take_contents_cons hsize]
    simp only [hrest, Option.map_some]

/-- What is loaded is the chunks, one after the other. -/
theorem chunksFrom_flatten {fuel b n : Nat} {a : Arena N} {bytes : List UInt8}
    (h : a.loadLoop fuel b n = some bytes) : (a.chunksFrom fuel b n).flatten = bytes := by
  induction fuel generalizing b n bytes with
  | zero =>
    rw [loadLoop] at h
    split at h <;> cases h
    rfl
  | succ fuel ih =>
    rw [loadLoop] at h
    split at h
    next hn =>
      cases h
      simp [chunksFrom, hn]
    next hn =>
      split at h
      · cases h
      next hb =>
        obtain ⟨rest, hrest, rfl⟩ := Option.map_eq_some_iff.1 h
        rw [chunksFrom, if_neg (not_or.2 ⟨hn, hb⟩), List.flatten_cons, ih hrest]

/-! ## The invariant -/

/-- The free chain and the live messages' chains partition the blocks. -/
structure Owns (a : Arena N) (live : List (ByteRef × List UInt8)) : Prop where
  small : N < noBlock
  size : ∀ b, (a.blocks b).length = blockLen
  chains : ∃ free chains, Linked a.next noBlock a.freeHead free ∧ free.length = a.freeCount ∧
    List.Forall₂ (fun e cs => Stored a e.1 e.2 cs) live chains ∧
    (free ++ chains.flatten).Perm (List.range N)

/-- Each block is in the free chain or in the chain of one of `refs`, once. -/
def Partitioned (a : Arena N) (refs : List ByteRef) : Prop :=
  ∃ free chains, Linked a.next noBlock a.freeHead free ∧ free.length = a.freeCount ∧
    List.Forall₂ (fun r cs => Linked a.next noBlock r.start cs ∧ cs.length = blocksFor r.len) refs chains ∧
    (free ++ chains.flatten).Perm (List.range N)

theorem Owns.partitioned {a : Arena N} {live : List (ByteRef × List UInt8)} (h : Owns a live) :
    a.Partitioned (live.map Prod.fst) := by
  obtain ⟨free, chains, hfree, hcount, hall, hperm⟩ := h.chains
  refine ⟨free, chains, hfree, hcount, ?_, hperm⟩
  rw [List.forall₂_map_left_iff]
  exact hall.imp fun e cs hst => ⟨hst.linked, by rw [hst.blocks, ByteRef.len, hst.count]⟩

theorem new_owns (hpos : 0 < N) (hN : N < noBlock) : (new : Arena N).Owns [] where
  small := hN
  size := fun _ => List.length_replicate
  chains := by
    refine ⟨List.range N, [], ?_, List.length_range, .nil, by simp⟩
    have hrun : ∀ k ≤ N, Linked (new : Arena N).next noBlock (if k < N then k else noBlock)
        (List.range' k (N - k)) := by
      intro k hk
      induction hn : N - k generalizing k with
      | zero => rw [if_neg (by omega)]; rfl
      | succ n ih =>
        rw [if_pos (by omega)]
        exact ⟨rfl, ih (k + 1) (by omega) (by omega)⟩
    have h0 := hrun 0 (Nat.zero_le _)
    rwa [if_pos hpos, Nat.sub_zero, ← List.range_eq_range'] at h0

/-- The blocks the live messages take. -/
def blocksOf (live : List (ByteRef × List UInt8)) : Nat := (live.map fun e => blocksFor e.2.length).sum

/-- Free blocks and live messages' blocks are all the blocks. -/
theorem Owns.count {a : Arena N} {live : List (ByteRef × List UInt8)} (h : Owns a live) :
    a.freeCount + blocksOf live = N := by
  obtain ⟨free, chains, -, hcount, hall, hperm⟩ := h.chains
  have hlen := hperm.length_eq
  rw [List.length_append, List.length_range, hcount, List.length_flatten] at hlen
  suffices hsum : (chains.map List.length).sum = blocksOf live by omega
  clear hperm hlen h
  induction hall with
  | nil => rfl
  | cons hfst _ ih =>
    simp only [blocksOf, List.map_cons, List.sum_cons, hfst.blocks] at ih ⊢
    rw [ih]

/-- A live message's chain, clear of `noBlock`. -/
theorem Owns.chain {a : Arena N} {live : List (ByteRef × List UInt8)} (h : Owns a live) {r : ByteRef}
    {payload : List UInt8} (hmem : (r, payload) ∈ live) :
    ∃ cs, Stored a r payload cs ∧ (∀ c ∈ cs, c ≠ noBlock) ∧ r.isNone = false := by
  obtain ⟨free, chains, -, -, hall, hperm⟩ := h.chains
  obtain ⟨cs, hcs, hstored⟩ := hall.exists_of_mem hmem
  have hlt : ∀ c ∈ cs, c ≠ noBlock := by
    intro c hc
    have : c ∈ free ++ chains.flatten := List.mem_append_right _ (List.mem_flatten_of_mem hcs hc)
    have := List.mem_range.1 (hperm.mem_iff.1 this)
    have := h.small
    omega
  refine ⟨cs, hstored, hlt, ?_⟩
  cases cs with
  | nil =>
    have := hstored.blocks
    have := blocksFor_pos payload.length
    simp at *
    omega
  | cons c cs =>
    have hstart : r.start = c := hstored.linked.1
    have := hlt c (by simp)
    simp [ByteRef.isNone, hstart, this]

theorem load_owned {a : Arena N} {live : List (ByteRef × List UInt8)} (h : Owns a live) {r : ByteRef}
    {payload : List UInt8} (hmem : (r, payload) ∈ live) {room : Nat} (hroom : payload.length ≤ room) :
    a.load r room = some payload := by
  obtain ⟨cs, hst, hne, hnone⟩ := h.chain hmem
  have hcount := hst.count
  rw [load, hnone, Bool.false_or, if_neg (by rw [decide_eq_true_eq, ByteRef.len]; omega), ByteRef.len, hcount]
  rw [loadLoop_spec hst.linked hne h.size (by rw [hst.blocks]; exact le_blocksFor _) le_rfl, hst.bytes]

/-- What is loaded of a live message is the message. -/
theorem eq_of_load {a : Arena N} {live : List (ByteRef × List UInt8)} (h : Owns a live) {r : ByteRef}
    {payload bytes : List UInt8} (hmem : (r, payload) ∈ live) {room : Nat} (hload : a.load r room = some bytes) :
    bytes = payload := by
  by_cases hroom : payload.length ≤ room
  · rw [load_owned h hmem hroom] at hload
    exact (Option.some.inj hload).symm
  · obtain ⟨cs, hst, -⟩ := h.chain hmem
    rw [load, ByteRef.len, hst.count, if_pos (by simp; omega)] at hload
    cases hload

theorem chunks_owned {a : Arena N} {live : List (ByteRef × List UInt8)} (h : Owns a live) {r : ByteRef}
    {payload : List UInt8} (hmem : (r, payload) ∈ live) : (a.chunks r).flatten = payload := by
  have hload := load_owned h hmem le_rfl
  obtain ⟨cs, -, -, hnone⟩ := h.chain hmem
  rw [load, hnone, Bool.false_or] at hload
  split at hload
  · cases hload
  · rw [chunks, hnone]
    exact chunksFrom_flatten hload

/-! ## Storing and releasing -/

/-- Live messages keep their chains when blocks outside them change. -/
theorem stored_congr {a a' : Arena N} {live : List (ByteRef × List UInt8)} {chains : List (List Nat)}
    (hall : List.Forall₂ (fun e cs => Stored a e.1 e.2 cs) live chains)
    (hnext : ∀ c ∈ chains.flatten, a'.next c = a.next c) (hblocks : ∀ c ∈ chains.flatten, a'.blocks c = a.blocks c) :
    List.Forall₂ (fun e cs => Stored a' e.1 e.2 cs) live chains := by
  induction hall with
  | nil => exact .nil
  | cons hfst _ ih =>
    refine .cons (hfst.congr (fun c hc => hnext c (by simp [hc])) fun c hc => hblocks c (by simp [hc])) ?_
    exact ih (fun c hc => hnext c (by simp only [List.flatten_cons, List.mem_append]; exact .inr hc))
      fun c hc => hblocks c (by simp only [List.flatten_cons, List.mem_append]; exact .inr hc)

/-- A live message among the others, with its chain. -/
theorem Owns.split {a : Arena N} {l₁ l₂ : List (ByteRef × List UInt8)} {r : ByteRef} {payload : List UInt8}
    (h : Owns a (l₁ ++ (r, payload) :: l₂)) :
    ∃ free c₁ cs c₂, Linked a.next noBlock a.freeHead free ∧ free.length = a.freeCount ∧
      List.Forall₂ (fun e cs => Stored a e.1 e.2 cs) l₁ c₁ ∧ Stored a r payload cs ∧
      List.Forall₂ (fun e cs => Stored a e.1 e.2 cs) l₂ c₂ ∧ (free ++ (c₁ ++ cs :: c₂).flatten).Perm (List.range N) := by
  obtain ⟨free, chains, hlink, hcount, hall, hperm⟩ := h.chains
  obtain ⟨c₁, cs, c₂, rfl, hall₁, hst, hall₂⟩ := hall.split
  exact ⟨free, c₁, cs, c₂, hlink, hcount, hall₁, hst, hall₂, hperm⟩

theorem reserve_eq_none {a : Arena N} {len : Nat} (h : 65535 < len ∨ a.freeCount < blocksFor len) :
    a.reserve len = none := by
  rw [reserve]
  split
  · rfl
  next hlen => exact if_pos (h.resolve_left hlen)

/-- A payload is refused exactly when its blocks are not free. -/
theorem store_eq_none {a : Arena N} {payload : List UInt8}
    (h : 65535 < payload.length ∨ a.freeCount < blocksFor payload.length) : a.store payload = (a, none) := by
  rw [store, reserve_eq_none h]

/-- The first `n` members of a list, the last of them named. -/
theorem exists_split {l : List Nat} {n : Nat} (hpos : 0 < n) (hn : n ≤ l.length) :
    ∃ mine x rest, l = (mine ++ [x]) ++ rest ∧ mine.length + 1 = n := by
  have hlen : (l.take n).length = n := by rw [List.length_take]; omega
  rcases List.eq_nil_or_concat (l.take n) with hnil | ⟨mine, x, htake⟩
  · rw [hnil, List.length_nil] at hlen
    omega
  · rw [List.concat_eq_append] at htake
    refine ⟨mine, x, l.drop n, ?_, ?_⟩
    · rw [← htake, List.take_append_drop]
    · rw [htake, List.length_append, List.length_singleton] at hlen
      exact hlen

/-- **A message whose blocks are free is reserved**, beside what was live. What
it reads as is whatever its blocks held. -/
theorem reserve_owns {a : Arena N} {live : List (ByteRef × List UInt8)} (h : Owns a live) {len : Nat}
    (hlen : len ≤ 65535) (hfree : blocksFor len ≤ a.freeCount) :
    ∃ a' r payload, a.reserve len = some (a', r) ∧ payload.length = len ∧ Owns a' (live ++ [(r, payload)]) ∧
      r.count = len := by
  obtain ⟨free, chains, hlink, hcount, hall, hperm⟩ := h.chains
  obtain ⟨mine, l, rest, rfl, hmine⟩ := exists_split (l := free) (blocksFor_pos len) (by omega)
  have hnodup : ((mine ++ [l]) ++ rest ++ chains.flatten).Nodup := hperm.nodup_iff.2 List.nodup_range
  obtain ⟨hnodupFree, -, hdisj⟩ := List.nodup_append.1 hnodup
  obtain ⟨hnodupMine, -, hdisjMine⟩ := List.nodup_append.1 hnodupFree
  have hl : l ∉ mine := fun hmem => (List.nodup_append.1 hnodupMine).2.2 l hmem l (by simp) rfl
  have hother : ∀ c ∈ chains.flatten, c ∉ mine ++ [l] :=
    fun c hc hm => hdisj c (List.mem_append_left _ hm) c hc rfl
  obtain ⟨m, hlinkMine, hlinkRest⟩ := Linked.append.1 hlink
  obtain ⟨hcut, -⟩ := hlinkMine.cut hl noBlock
  have hpayload : ((a.contents (mine ++ [l])).take len).length = len := by
    rw [List.length_take, length_contents h.size, List.length_append, List.length_singleton, hmine]
    exact Nat.min_eq_left (le_blocksFor len)
  refine ⟨{ a with next := Function.update a.next l noBlock, freeHead := m, freeCount := a.freeCount - blocksFor len },
    ⟨a.freeHead, len⟩, (a.contents (mine ++ [l])).take len, ?_, hpayload, ⟨h.small, h.size, ?_⟩, rfl⟩
  · rw [reserve, if_neg (by omega)]
    refine (if_neg (by omega)).trans ?_
    rw [← hmine, detach_eq hlinkMine]
  · refine ⟨rest, chains ++ [mine ++ [l]], ?_, ?_, List.rel_append ?_ (.cons ?_ .nil), ?_⟩
    · exact hlinkRest.update fun hm => hdisjMine l (by simp) l hm rfl
    · simp only [List.length_append, List.length_singleton] at hcount
      show rest.length = a.freeCount - blocksFor len
      omega
    · refine stored_congr hall (fun c hc => ?_) fun _ _ => rfl
      exact Function.update_of_ne (fun he => hother c hc (by simp [he])) _ _
    · refine ⟨hcut, hpayload.symm, ?_, ?_⟩
      · rw [hpayload]
        simpa using hmine
      · rw [hpayload]
        rfl
    · rw [List.flatten_append, List.flatten_singleton]
      refine List.Perm.trans ?_ hperm
      rw [List.append_assoc (mine ++ [l]), ← List.append_assoc rest]
      exact List.perm_append_comm

/-- **A write within a live message changes that message there**, and no other. -/
theorem writeAt_owns {a : Arena N} {l₁ l₂ : List (ByteRef × List UInt8)} {r : ByteRef} {payload : List UInt8}
    (h : Owns a (l₁ ++ (r, payload) :: l₂)) (offset : Nat) (bytes : List UInt8)
    (hfit : offset + bytes.length ≤ payload.length) :
    ∃ a', a.writeAt r offset bytes = (a', true) ∧ Owns a' (l₁ ++ (r, overwrite payload offset bytes) :: l₂) := by
  obtain ⟨-, -, -, hnone⟩ := h.chain (show (r, payload) ∈ l₁ ++ (r, payload) :: l₂ by simp)
  obtain ⟨free, c₁, cs, c₂, hlink, hcount, hall₁, hst, hall₂, hperm⟩ := h.split
  have hgo : ¬ (r.isNone || decide (r.len < offset + bytes.length)) = true := by
    rw [hnone, Bool.false_or, decide_eq_true_eq, ByteRef.len, hst.count]
    omega
  rw [writeAt, if_neg hgo]
  by_cases hempty : bytes = []
  · subst hempty
    exact ⟨a, rfl, by rwa [overwrite_nil]⟩
  · rw [if_neg (by simpa using hempty)]
    have hpos := List.length_pos_iff.2 hempty
    have hblocks := hst.blocks
    have hcap := le_blocksFor payload.length
    have hnodup : (free ++ (c₁ ++ cs :: c₂).flatten).Nodup := hperm.nodup_iff.2 List.nodup_range
    have hmove : (cs ++ (free ++ (c₁ ++ c₂).flatten)).Perm (free ++ (c₁ ++ cs :: c₂).flatten) := by
      rw [List.flatten_append, List.flatten_append, List.flatten_cons]
      refine (List.perm_append_comm_assoc _ _ _).trans ((List.perm_append_left_iff _).2 ?_)
      exact List.perm_append_comm_assoc _ _ _
    obtain ⟨hnodupCs, -, hdisj⟩ := List.nodup_append.1 (hmove.nodup_iff.2 hnodup)
    have hother : ∀ d ∈ (c₁ ++ c₂).flatten, d ∉ cs :=
      fun d hd hm => hdisj d hm d (List.mem_append_right _ hd) rfl
    have hlt : ∀ d ∈ cs, d ≠ noBlock := by
      intro d hd
      have := List.mem_range.1 (hperm.mem_iff.1 (hmove.mem_iff.1 (List.mem_append_left _ hd)))
      have := h.small
      omega
    -- The chain up to the block holding the offset, and from there on.
    set k := offset / blockLen with hk
    have hbound : blockLen * k + offset % blockLen = offset := Nat.div_add_mod offset blockLen
    have hwithin : offset % blockLen < blockLen := Nat.mod_lt _ (by decide)
    have hklt : k < cs.length := by
      rw [hblocks]
      refine Nat.lt_of_mul_lt_mul_left (a := blockLen) ?_
      omega
    have hpre : (cs.take k).length = k := by rw [List.length_take]; omega
    have hsplit : cs.take k ++ cs.drop k = cs := List.take_append_drop k cs
    have hrest : cs.drop k ≠ [] := fun hnil => by
      have := List.drop_eq_nil_iff.1 hnil
      omega
    obtain ⟨block, hwalk, hfrom⟩ := walk_spec (cs.take k) (cs.drop k) (by rw [hsplit]; exact hst.linked)
      (by rw [hsplit]; exact hlt) hrest
    rw [hpre] at hwalk
    rw [hwalk]
    have hlenDrop : (cs.drop k).length = cs.length - k := List.length_drop
    obtain ⟨blocks, hrun, hsize, hout, hin⟩ := writeLoop_spec bytes.length (offset % blockLen) bytes
      hfrom (fun d hd => hlt d (List.mem_of_mem_drop hd)) (hnodupCs.sublist (List.drop_sublist k cs)) h.size
      hwithin (by rw [hlenDrop, Nat.mul_sub]; rw [hblocks]; omega) (Nat.le_refl _)
    have hbefore : (cs.take k).map blocks = (cs.take k).map a.blocks := by
      refine List.map_congr_left fun d hd => hout d fun hm => ?_
      rw [← hsplit] at hnodupCs
      exact (List.nodup_append.1 hnodupCs).2.2 d hd d hm rfl
    have hcontents : (cs.map blocks).flatten = overwrite (a.contents cs) offset bytes := by
      have hlen : ((cs.take k).map a.blocks).flatten.length = blockLen * k := by
        have := length_contents (a := a) h.size (cs.take k)
        rw [hpre] at this
        exact this
      conv_lhs => rw [← hsplit, List.map_append, List.flatten_append, hin, hbefore]
      rw [← overwrite_append_right, hlen, hbound]
      congr 1
      rw [contents, contents, ← List.flatten_append, ← List.map_append, hsplit]
    have hsame : (overwrite payload offset bytes).length = payload.length := length_overwrite hfit
    refine ⟨{ a with blocks }, hrun, h.small, hsize, free, c₁ ++ cs :: c₂, hlink, hcount, List.rel_append ?_ (.cons ?_ ?_),
      hperm⟩
    · exact stored_congr hall₁ (fun _ _ => rfl) fun d hd =>
        hout d fun hm => hother d (by rw [List.flatten_append]; exact List.mem_append_left _ hd) (List.mem_of_mem_drop hm)
    · refine ⟨hst.linked, by rw [hsame]; exact hst.count, by rw [hsame]; exact hblocks, ?_⟩
      show ((cs.map blocks).flatten).take _ = _
      rw [hcontents, hsame, overwrite_take _ hfit, hst.bytes]
      rw [length_contents h.size, hblocks]
      omega
    · exact stored_congr hall₂ (fun _ _ => rfl) fun d hd =>
        hout d fun hm => hother d (by rw [List.flatten_append]; exact List.mem_append_right _ hd) (List.mem_of_mem_drop hm)

/-- **A payload whose blocks are free is stored**, beside what was live. -/
theorem store_owns {a : Arena N} {live : List (ByteRef × List UInt8)} (h : Owns a live) {payload : List UInt8}
    (hlen : payload.length ≤ 65535) (hfree : blocksFor payload.length ≤ a.freeCount) :
    ∃ a' r, a.store payload = (a', some r) ∧ Owns a' (live ++ [(r, payload)]) ∧ r.count = payload.length := by
  obtain ⟨a₁, r, before, hreserve, hbefore, howns, hcount⟩ := reserve_owns h hlen hfree
  obtain ⟨a₂, hwrite, howns⟩ := writeAt_owns howns 0 payload (by omega)
  rw [overwrite_all hbefore.symm] at howns
  refine ⟨a₂, r, ?_, howns, hcount⟩
  rw [store, hreserve]
  dsimp only
  rw [hwrite, if_pos rfl]

/-- A payload is stored beside what was live, or refused with nothing changed. -/
theorem store_cases {a : Arena N} {live : List (ByteRef × List UInt8)} (h : Owns a live) (payload : List UInt8) :
    a.store payload = (a, none) ∨ ∃ a' r, a.store payload = (a', some r) ∧ Owns a' (live ++ [(r, payload)]) := by
  by_cases hroom : payload.length ≤ 65535 ∧ blocksFor payload.length ≤ a.freeCount
  · obtain ⟨a', r, hstore, howns, -⟩ := store_owns h hroom.1 hroom.2
    exact .inr ⟨a', r, hstore, howns⟩
  · exact .inl (store_eq_none (by omega))

/-- **A released message's blocks are free again**, and the others keep theirs. -/
theorem release_owns {a : Arena N} {l₁ l₂ : List (ByteRef × List UInt8)} {r : ByteRef} {payload : List UInt8}
    (h : Owns a (l₁ ++ (r, payload) :: l₂)) : Owns (a.release r) (l₁ ++ l₂) := by
  obtain ⟨-, -, -, hnone⟩ := h.chain (show (r, payload) ∈ l₁ ++ (r, payload) :: l₂ by simp)
  obtain ⟨free, c₁, cs, c₂, hlink, hcount, hall₁, hst, hall₂, hperm⟩ := h.split
  cases cs with
  | nil =>
    have := hst.blocks
    have := blocksFor_pos payload.length
    simp only [List.length_nil] at *
    omega
  | cons c cs =>
    have hmove : ((c :: cs) ++ free ++ (c₁ ++ c₂).flatten).Perm (List.range N) := by
      refine List.Perm.trans ?_ hperm
      rw [List.flatten_append, List.flatten_append, List.flatten_cons, List.append_assoc]
      refine (List.perm_append_comm_assoc _ _ _).trans ((List.perm_append_left_iff _).2 ?_)
      exact List.perm_append_comm_assoc _ _ _
    have hnodup := hmove.nodup_iff.2 List.nodup_range
    obtain ⟨hnodupFree, -, hdisj⟩ := List.nodup_append.1 hnodup
    have hlt : ∀ d ∈ c :: cs, d ≠ noBlock := by
      intro d hd
      have := List.mem_range.1 (hmove.mem_iff.1 (List.mem_append_left _ (List.mem_append_left _ hd)))
      have := h.small
      omega
    have hfuel : cs.length + 1 ≤ N := by
      have := hmove.length_eq
      simp only [List.length_append, List.length_cons, List.length_range] at this
      omega
    obtain ⟨next, head, hrun, hlinked, hout⟩ := releaseLoop_spec hst.linked hlink hlt hnodupFree hfuel
    have hother : ∀ d ∈ (c₁ ++ c₂).flatten, d ∉ c :: cs :=
      fun d hd hm => hdisj d (List.mem_append_left _ hm) d hd rfl
    rw [release, hnone, if_neg Bool.false_ne_true, hrun]
    refine ⟨h.small, h.size, (c :: cs).reverse ++ free, c₁ ++ c₂, hlinked, ?_, ?_, ?_⟩
    · show ((c :: cs).reverse ++ free).length = a.freeCount + (cs.length + 1)
      rw [List.length_append, List.length_reverse, List.length_cons, hcount]
      omega
    · exact stored_congr (List.rel_append hall₁ hall₂) (fun d hd => hout d (hother d hd)) fun _ _ => rfl
    · refine List.Perm.trans ?_ hmove
      exact ((List.reverse_perm _).append_right _).append_right _

end Arena
end HexNet
