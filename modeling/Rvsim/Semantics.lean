/-
# What the integer instructions compute

The meaning of RV64IMA and the fences, as the manual words it: operands are
read as signed or unsigned integers, the result is an integer, and a register
keeps it modulo a power of two. Nothing here is read off the execution units.

* `RegOp.int`: the integer a register operation stands for.
* `Instr.effect`: what an instruction does with its operands: the value for
  `rd`, the instruction that follows, the address and data of an access.
-/
import Rvsim.Isa

namespace Rvsim

namespace Isa

/-! ### Operations -/

/-- The integer result on `w`-bit operands, before it is reduced. A shift
takes its amount modulo the width, a quotient rounds toward zero, and division
by zero gives all ones and leaves the dividend as remainder. -/
def RegOp.int {w : Nat} (o : RegOp) (x y : BitVec w) : Int :=
  match o with
  | .add => x.toInt + y.toInt
  | .sub => x.toInt - y.toInt
  | .sll => x.toNat * 2 ^ (y.toNat % w)
  | .slt => if x.toInt < y.toInt then 1 else 0
  | .sltu => if x.toNat < y.toNat then 1 else 0
  | .xor => (x ^^^ y).toInt
  | .srl => x.toNat / 2 ^ (y.toNat % w)
  | .sra => x.toInt / 2 ^ (y.toNat % w)
  | .or => (x ||| y).toInt
  | .and => (x &&& y).toInt
  | .mul => x.toInt * y.toInt
  | .mulh => x.toInt * y.toInt / 2 ^ w
  | .mulhsu => x.toInt * y.toNat / 2 ^ w
  | .mulhu => x.toNat * y.toNat / 2 ^ w
  | .div => if y.toInt = 0 then -1 else x.toInt.tdiv y.toInt
  | .divu => if y.toNat = 0 then 2 ^ w - 1 else x.toNat / y.toNat
  | .rem => if y.toInt = 0 then x.toInt else x.toInt.tmod y.toInt
  | .remu => if y.toNat = 0 then x.toNat else x.toNat % y.toNat

def RegOp.value {w : Nat} (o : RegOp) (x y : BitVec w) : BitVec w := BitVec.ofInt w (o.int x y)

/-- The 32-bit form: the low words, the result sign-extended. -/
def RegOp.valueW (o : RegOp) (x y : U64) : U64 :=
  (o.value (x.setWidth 32) (y.setWidth 32)).signExtend 64

def ImmOp.wide : ImmOp → RegOp
  | .addi => .add | .slti => .slt | .sltiu => .sltu | .xori => .xor | .ori => .or | .andi => .and

def ShiftOp.wide : ShiftOp → RegOp
  | .sll => .sll | .srl => .srl | .sra => .sra

def Cond.holds (c : Cond) (x y : U64) : Prop :=
  match c with
  | .eq => x = y
  | .ne => x ≠ y
  | .lt => x.toInt < y.toInt
  | .ge => y.toInt ≤ x.toInt
  | .ltu => x.toNat < y.toNat
  | .geu => y.toNat ≤ x.toNat

instance (c : Cond) (x y : U64) : Decidable (c.holds x y) :=
  match c with
  | .eq => inferInstanceAs (Decidable (x = y))
  | .ne => inferInstanceAs (Decidable (x ≠ y))
  | .lt => inferInstanceAs (Decidable (x.toInt < y.toInt))
  | .ge => inferInstanceAs (Decidable (y.toInt ≤ x.toInt))
  | .ltu => inferInstanceAs (Decidable (x.toNat < y.toNat))
  | .geu => inferInstanceAs (Decidable (y.toNat ≤ x.toNat))

/-- What an AMO stores over the value `x` of memory. -/
def AmoOp.value {w : Nat} (o : AmoOp) (x y : BitVec w) : BitVec w :=
  match o with
  | .swap => y
  | .add => BitVec.ofInt w (x.toInt + y.toInt)
  | .xor => x ^^^ y
  | .and => x &&& y
  | .or => x ||| y
  | .min => BitVec.ofInt w (Min.min x.toInt y.toInt)
  | .max => BitVec.ofInt w (Max.max x.toInt y.toInt)
  | .minu => BitVec.ofNat w (Min.min x.toNat y.toNat)
  | .maxu => BitVec.ofNat w (Max.max x.toNat y.toNat)

/-- At the width of the access; a register shows a word sign-extended. -/
def AmoOp.valueAt (o : AmoOp) (width : Width) (x y : U64) : U64 :=
  match width with
  | .w => (o.value (x.setWidth 32 : U32) (y.setWidth 32)).signExtend 64
  | .d => o.value x y

/-! ### Instructions -/

/-- What an instruction does, given its operands. -/
structure Effect where
  /-- The value of `rd`, where it does not come from memory. -/
  result : Option U64 := none
  /-- The instruction that follows. -/
  next : U64
  address : Option U64 := none
  data : Option U64 := none
  /-- What an AMO leaves in memory over the value it reads. -/
  update : Option (U64 → U64) := none

/-- Writes to `x0` are dropped. -/
def writes (rd : RegIdx) (v : U64) : Option U64 := if rd = 0 then none else some v

/-- The effect of the instruction of `size` bytes at `pc` on the operands `a` and `b`. FP, CSR and
system instructions have none here. -/
def Instr.effect (pc size a b : U64) : Instr → Option Effect
  | .lui rd imm => some { result := writes rd ((imm ++ 0#12).signExtend 64), next := pc + size }
  | .auipc rd imm => some { result := writes rd (pc + (imm ++ 0#12).signExtend 64), next := pc + size }
  | .jal rd offset =>
    some { result := writes rd (pc + size), next := pc + (offset ++ 0#1).signExtend 64 }
  | .jalr rd _ imm =>
    -- the sum with its lowest bit cleared
    some { result := writes rd (pc + size)
           next := BitVec.ofNat 64 (2 * ((a + imm.signExtend 64).toNat / 2)) }
  | .branch c _ _ offset =>
    some { next := if c.holds a b then pc + (offset ++ 0#1).signExtend 64 else pc + size }
  | .load _ _ _ imm => some { next := pc + size, address := some (a + imm.signExtend 64) }
  | .store _ _ _ imm =>
    some { next := pc + size, address := some (a + imm.signExtend 64), data := some b }
  | .opImm o rd _ imm =>
    some { result := writes rd (o.wide.value a (imm.signExtend 64)), next := pc + size }
  | .shiftImm o rd _ shamt =>
    some { result := writes rd (o.wide.value a (shamt.setWidth 64)), next := pc + size }
  | .addiw rd _ imm =>
    some { result := writes rd (RegOp.add.valueW a (imm.signExtend 64)), next := pc + size }
  | .shiftImmW o rd _ shamt =>
    some { result := writes rd (o.wide.valueW a (shamt.setWidth 64)), next := pc + size }
  | .op o rd _ _ => some { result := writes rd (o.value a b), next := pc + size }
  | .opW o rd _ _ => some { result := writes rd (o.wide.valueW a b), next := pc + size }
  | .lr .. => some { next := pc + size, address := some a }
  | .sc .. => some { next := pc + size, address := some a, data := some b }
  | .amo o width .. =>
    some { next := pc + size, address := some a, data := some b
           update := some fun x => o.valueAt width x b }
  | .fence .. | .fenceI .. => some { next := pc + size }
  | _ => none

/-- Branches and jumps: what follows them is not fixed by where they stand. -/
def Instr.transfers : Instr → Bool
  | .jal .. | .jalr .. | .branch .. => true
  | _ => false

/-- What follows FENCE.I is fetched again. -/
def Instr.refetches : Instr → Bool
  | .fenceI .. => true
  | _ => false

end Isa

end Rvsim
