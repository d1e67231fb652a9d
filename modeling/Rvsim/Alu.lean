/-
# Integer and atomic arithmetic

`units/alu/*.rs` and `units/lsu/atomic.rs`. `as i32`/`as i64` casts are
`setWidth`/`signExtend`; shifts take their count modulo the width; division
by zero and `MIN / -1` give the RISC-V results.

Key definitions:
  - `Alu.execute`
  - `Lsu.atomicAlu`
-/
import Rvsim.Common

namespace Rvsim

namespace Alu

/-- `x as i32 as i64 as u64`. -/
def sext32 (x : U32) : U64 := x.signExtend 64

/-- High word of a product computed in `2w` bits, arithmetic shift. -/
def mulHigh {w : Nat} (a b : BitVec (2 * w)) : BitVec w := ((a * b) >>> w).setWidth w

/-- 32-bit forms of `MULH*`: the `i64` product shifted right by 32, not truncated again. -/
def mulHigh32 (a b : U64) : U64 := (a * b).sshiftRight 32

def divS {w : Nat} (a b : BitVec w) : BitVec w := if b = 0 then BitVec.allOnes w else a.sdiv b

def divU {w : Nat} (a b : BitVec w) : BitVec w := if b = 0 then BitVec.allOnes w else a / b

def remS {w : Nat} (a b : BitVec w) : BitVec w := if b = 0 then a else a.srem b

def remU {w : Nat} (a b : BitVec w) : BitVec w := if b = 0 then a else a % b

def ofBool (b : Bool) : U64 := if b then 1 else 0

/-- `Alu::execute` on 64-bit operands. -/
def execute64 (op : AluOp) (a b : U64) : U64 :=
  match op with
  | .add => a + b
  | .sub => a - b
  | .mul => a * b
  | .mulh => mulHigh (w := 64) (a.signExtend 128) (b.signExtend 128)
  | .mulhsu => mulHigh (w := 64) (a.signExtend 128) (b.setWidth 128)
  | .mulhu => mulHigh (w := 64) (a.setWidth 128) (b.setWidth 128)
  | .div => divS a b
  | .divu => divU a b
  | .rem => remS a b
  | .remu => remU a b
  | .or => a ||| b
  | .and => a &&& b
  | .xor => a ^^^ b
  | .slt => ofBool (a.slt b)
  | .sltu => ofBool (a.ult b)
  | .sll => a <<< (b &&& 0x3f).toNat
  | .srl => a >>> (b &&& 0x3f).toNat
  | .sra => a.sshiftRight (b &&& 0x3f).toNat
  | _ => 0

/-- `Alu::execute` with `is32`: the low words, sign-extended back. The bitwise
operations ignore the flag. -/
def execute32 (op : AluOp) (a b : U64) : U64 :=
  let a' : U32 := a.setWidth 32
  let b' : U32 := b.setWidth 32
  match op with
  | .add => sext32 (a' + b')
  | .sub => sext32 (a' - b')
  | .mul => sext32 (a' * b')
  | .mulh => mulHigh32 (sext32 a') (sext32 b')
  | .mulhsu => mulHigh32 (sext32 a') (b'.setWidth 64)
  | .mulhu => ((a'.setWidth 64 : U64) * b'.setWidth 64) >>> 32
  | .div => sext32 (divS a' b')
  | .divu => sext32 (divU a' b')
  | .rem => sext32 (remS a' b')
  | .remu => sext32 (remU a' b')
  | .or => a ||| b
  | .and => a &&& b
  | .xor => a ^^^ b
  | .slt => ofBool (a'.slt b')
  | .sltu => ofBool (a'.ult b')
  | .sll => sext32 (a' <<< (b' &&& 0x1f).toNat)
  | .srl => sext32 (a' >>> (b' &&& 0x1f).toNat)
  | .sra => sext32 (a'.sshiftRight (b' &&& 0x1f).toNat)
  | _ => 0

def execute (op : AluOp) (a b : U64) (is32 : Bool) : U64 :=
  if is32 then execute32 op a b else execute64 op a b

end Alu

namespace Lsu

/-- The read-modify-write of an AMO at one width. -/
def atomicOp {w : Nat} (op : AtomicOp) (a b : BitVec w) : BitVec w :=
  match op with
  | .swap => b
  | .add => a + b
  | .xor => a ^^^ b
  | .and => a &&& b
  | .or => a ||| b
  | .min => if a.slt b then a else b
  | .max => if a.slt b then b else a
  | .minu => if a.ult b then a else b
  | .maxu => if a.ult b then b else a
  | _ => 0

def atomicAlu (op : AtomicOp) (memVal regVal : U64) (width : MemWidth) : U64 :=
  if width = .word then
    (atomicOp op (memVal.setWidth 32 : U32) (regVal.setWidth 32)).signExtend 64
  else atomicOp op memVal regVal

end Lsu

end Rvsim
