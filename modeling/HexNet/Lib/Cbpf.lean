/-
Classic BPF: an accumulator machine whose programs only jump forward, so a run
ends. A program is a list of `sock_filter`s; `run` is what it returns for a
packet, or `none` for a program the checker refuses.

Registers hold 32-bit numbers and arithmetic wraps. The length of a packet is
loaded as it is.
-/
import Mathlib.Tactic.Common
import Mathlib.Algebra.Order.Ring.Nat

namespace Cbpf

/-! ## Codes -/

/-- `sock_filter`. -/
structure Filter where
  code : UInt16
  jt : UInt8
  jf : UInt8
  k : UInt32

/-- Instruction classes. -/
def ld : UInt16 := 0x00
def ldx : UInt16 := 0x01
def st : UInt16 := 0x02
def stx : UInt16 := 0x03
def alu : UInt16 := 0x04
def jmp : UInt16 := 0x05
def ret : UInt16 := 0x06
def misc : UInt16 := 0x07

/-- Sizes of a load. -/
def w : UInt16 := 0x00
def b : UInt16 := 0x10

/-- Modes of a load. -/
def imm : UInt16 := 0x00
def abs : UInt16 := 0x20
def mem : UInt16 := 0x60
def len : UInt16 := 0x80
def msh : UInt16 := 0xa0

/-- Operations. -/
def and : UInt16 := 0x50
def jeq : UInt16 := 0x10
def jge : UInt16 := 0x30

/-- Operands. -/
def srcK : UInt16 := 0x00
def srcX : UInt16 := 0x08
def srcA : UInt16 := 0x10

/-! ## Instructions -/

inductive Operand
  | k
  | x

inductive Cond
  | eq
  | gt
  | ge
  | set

inductive Insn
  /-- Load into A: the constant, a scratch word, the packet's length, or
  `bytes` of the packet at the constant, or at X plus the constant. -/
  | ldImm
  | ldMem
  | ldLen
  | ldAbs (bytes : Nat)
  | ldInd (bytes : Nat)
  /-- Load into X; the last takes the low four bits of a packet's byte, four
  times. -/
  | ldxImm
  | ldxMem
  | ldxLen
  | ldxMsh
  | st
  | stx
  /-- Replaces A; `none` for a division by zero, which ends the run. -/
  | alu (op : Nat → Nat → Option Nat) (src : Operand)
  | ja
  | jump (cond : Cond) (src : Operand)
  | retK
  | retX
  | retA
  | tax
  | txa

def operandOf (code : UInt16) : Operand := if code &&& 0x08 = srcX then .x else .k

/-- `A op= operand`, by the operation's bits. -/
def aluOf (op : UInt16) : Option (Nat → Nat → Option Nat) :=
  match op.toNat with
  | 0x00 => some fun a v => some ((a + v) % 2 ^ 32)
  | 0x10 => some fun a v => some ((a + 2 ^ 32 - v) % 2 ^ 32)
  | 0x20 => some fun a v => some (a * v % 2 ^ 32)
  | 0x30 => some fun a v => if v = 0 then none else some (a / v)
  | 0x40 => some fun a v => some (a ||| v)
  | 0x50 => some fun a v => some (a &&& v)
  | 0x60 => some fun a v => some (a <<< v % 2 ^ 32)
  | 0x70 => some fun a v => some (a >>> v)
  | 0x80 => some fun a _ => some ((2 ^ 32 - a) % 2 ^ 32)
  | 0x90 => some fun a v => if v = 0 then none else some (a % v)
  | 0xa0 => some fun a v => some (a ^^^ v)
  | _ => none

def condOf (op : UInt16) : Option Cond :=
  match op.toNat with
  | 0x10 => some .eq
  | 0x20 => some .gt
  | 0x30 => some .ge
  | 0x40 => some .set
  | _ => none

def sizeOf (size : UInt16) : Option Nat :=
  match size.toNat with
  | 0x00 => some 4
  | 0x08 => some 2
  | 0x10 => some 1
  | _ => none

def decodeLd (code : UInt16) : Option Insn :=
  match (code &&& 0xe0).toNat with
  | 0x00 => if code &&& 0x18 = w then some .ldImm else none
  | 0x20 => (sizeOf (code &&& 0x18)).map .ldAbs
  | 0x40 => (sizeOf (code &&& 0x18)).map .ldInd
  | 0x60 => if code &&& 0x18 = w then some .ldMem else none
  | 0x80 => if code &&& 0x18 = w then some .ldLen else none
  | _ => none

/-- The instruction a code stands for. -/
def decode (code : UInt16) : Option Insn :=
  match (code &&& 0x07).toNat with
  | 0 => decodeLd code
  | 1 =>
    if code = ldx ||| w ||| imm then some .ldxImm
    else if code = ldx ||| w ||| mem then some .ldxMem
    else if code = ldx ||| w ||| len then some .ldxLen
    else if code = ldx ||| b ||| msh then some .ldxMsh
    else none
  | 2 => if code = st then some .st else none
  | 3 => if code = stx then some .stx else none
  | 4 => (aluOf (code &&& 0xf0)).map (.alu · (operandOf code))
  | 5 =>
    if code &&& 0xf0 = 0 then some .ja else (condOf (code &&& 0xf0)).map (.jump · (operandOf code))
  | 6 =>
    if code = ret ||| srcK then some .retK
    else if code = ret ||| srcX then some .retX
    else if code = ret ||| srcA then some .retA
    else none
  | _ => if code = misc then some .tax else if code = misc ||| 0x80 then some .txa else none

/-! ## Running -/

structure State where
  a : Nat
  x : Nat
  scratch : Nat → Nat

/-- What follows an instruction: the next one but `skip`, or the end. -/
inductive Next
  | run (s : State) (skip : Nat)
  | done (value : Nat)

/-- `bytes` of a packet, most significant first. -/
def load (packet : List UInt8) (offset bytes : Nat) : Option Nat :=
  if offset + bytes ≤ packet.length then
    some (((packet.drop offset).take bytes).foldl (fun v byte => 256 * v + byte.toNat) 0)
  else none

def Operand.value (s : State) (k : UInt32) : Operand → Nat
  | .k => k.toNat
  | .x => s.x

def Cond.holds (a v : Nat) : Cond → Bool
  | .eq => a = v
  | .gt => v < a
  | .ge => v ≤ a
  | .set => a &&& v ≠ 0

/-- A load from outside the packet returns 0 from the program. -/
def loaded (value : Option Nat) (into : Nat → State) : Next :=
  match value with
  | none => .done 0
  | some v => .run (into v) 0

def step (packet : List UInt8) (s : State) (f : Filter) : Insn → Next
  | .ldImm => .run { s with a := f.k.toNat } 0
  | .ldMem => .run { s with a := s.scratch f.k.toNat } 0
  | .ldLen => .run { s with a := packet.length } 0
  | .ldAbs bytes => loaded (load packet f.k.toNat bytes) fun v => { s with a := v }
  | .ldInd bytes => loaded (load packet (s.x + f.k.toNat) bytes) fun v => { s with a := v }
  | .ldxImm => .run { s with x := f.k.toNat } 0
  | .ldxMem => .run { s with x := s.scratch f.k.toNat } 0
  | .ldxLen => .run { s with x := packet.length } 0
  | .ldxMsh => loaded (load packet f.k.toNat 1) fun v => { s with x := 4 * (v % 16) }
  | .st => .run { s with scratch := Function.update s.scratch f.k.toNat s.a } 0
  | .stx => .run { s with scratch := Function.update s.scratch f.k.toNat s.x } 0
  | .alu op src => loaded (op s.a (src.value s f.k)) fun v => { s with a := v }
  | .ja => .run s f.k.toNat
  | .jump cond src => .run s (if cond.holds s.a (src.value s f.k) then f.jt.toNat else f.jf.toNat)
  | .retK => .done f.k.toNat
  | .retX => .done s.x
  | .retA => .done s.a
  | .tax => .run { s with x := s.a } 0
  | .txa => .run { s with a := s.x } 0

/-- The rest of a program, once the first `skip` of it are passed over. -/
def exec (packet : List UInt8) : List Filter → (skip : Nat) → State → Option Nat
  | [], _, _ => none
  | _ :: rest, skip + 1, s => exec packet rest skip s
  | f :: rest, 0, s =>
    match (decode f.code).map (step packet s f) with
    | none => none
    | some (.done value) => some value
    | some (.run s skip) => exec packet rest skip s

def run (program : List Filter) (packet : List UInt8) : Option Nat := exec packet program 0 ⟨0, 0, fun _ => 0⟩

/-! ## Single steps -/

section

variable {packet : List UInt8} {s : State} {f : Filter} {rest : List Filter}

/-- Skipping `n` instructions is running what stands behind them. -/
theorem exec_skip : ∀ (n : Nat) (program : List Filter), exec packet program n s = exec packet (program.drop n) 0 s
  | 0, _ => rfl
  | _ + 1, [] => rfl
  | n + 1, _ :: rest => exec_skip n rest

theorem exec_ldLen (hcode : decode f.code = some .ldLen) :
    exec packet (f :: rest) 0 s = exec packet rest 0 { s with a := packet.length } := by
  rw [exec, hcode]
  rfl

/-- A byte inside the packet. -/
theorem exec_ldByte (hcode : decode f.code = some (.ldAbs 1)) {byte : UInt8} (hbyte : packet[f.k.toNat]? = some byte) :
    exec packet (f :: rest) 0 s = exec packet rest 0 { s with a := byte.toNat } := by
  obtain ⟨hlt, heq⟩ := List.getElem?_eq_some_iff.1 hbyte
  have hload : load packet f.k.toNat 1 = some byte.toNat := by
    rw [load, if_pos (Nat.succ_le_of_lt hlt), List.drop_eq_getElem_cons hlt, heq]
    simp
  rw [exec, hcode, Option.map_some, step, hload]
  rfl

theorem exec_alu {op : Nat → Nat → Option Nat} (hcode : decode f.code = some (.alu op .k)) {value : Nat}
    (hop : op s.a f.k.toNat = some value) :
    exec packet (f :: rest) 0 s = exec packet rest 0 { s with a := value } := by
  rw [exec, hcode, Option.map_some, step, Operand.value, hop]
  rfl

theorem exec_jump {cond : Cond} (hcode : decode f.code = some (.jump cond .k)) :
    exec packet (f :: rest) 0 s =
      exec packet (rest.drop (if cond.holds s.a f.k.toNat then f.jt.toNat else f.jf.toNat)) 0 s := by
  rw [← exec_skip, exec, hcode]
  rfl

theorem exec_retA (hcode : decode f.code = some .retA) : exec packet (f :: rest) 0 s = some s.a := by
  rw [exec, hcode]
  rfl

theorem exec_retK (hcode : decode f.code = some .retK) : exec packet (f :: rest) 0 s = some f.k.toNat := by
  rw [exec, hcode]
  rfl

end

end Cbpf
