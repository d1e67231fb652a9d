/-
# The floating-point unit

`core/units/fpu`: boxing, canonical NaNs, minimum and maximum, the single- and
the double-precision execution paths and the flags, with the conversions of
`compute_alu`. A floating-point datum is its bit pattern. Arithmetic and
rounding conversions are the host's and stand behind `Fpu.Host`: an operation
gives the bits of its result and the exceptions it raises. Comparisons,
`trunc`, `is_nan` and the casts to integers are about the number a pattern
denotes, and every `f32` is an `f64`, so that `fa as f64` under one of them
denotes what `fa` does.

Key definitions:
  - `FpFlags.NV`, `FpFlags.NX`, `FpFlags.contains`
  - `Fpu.boxF32`, `Fpu.boxF32Canon`, `Fpu.canonicalizeF64Bits`, `Fpu.unboxF32`
  - `Fpu.executeF32`, `Fpu.executeF64`, `Fpu.executeFull`, `Fpu.convert`
-/
import Rvsim.Common
import Rvsim.Lib.Ieee

namespace Rvsim

open Ieee

/-! ### Exception flags -/

namespace FpFlags

def NONE : U8 := 0
def NV : U8 := 1 <<< 4
def DZ : U8 := 1 <<< 3
def OF : U8 := 1 <<< 2
def UF : U8 := 1 <<< 1
def NX : U8 := 1 <<< 0

def contains (flags other : U8) : Bool := flags &&& other == other

end FpFlags

namespace Fpu

/-! ### NaN handling -/

def canonicalNanF32 : U32 := 0x7fc00000

def canonicalNanF64 : U64 := 0x7ff8000000000000

def nanBoxMask : U64 := 0xFFFFFFFF00000000

def isNanF32 (f : U32) : Bool := (binary32.value f.toNat).isNan

def isNanF64 (f : U64) : Bool := (binary64.value f.toNat).isNan

def boxF32 (f : U32) : U64 := f.setWidth 64 ||| nanBoxMask

def boxF32Canon (f : U32) : U64 :=
  if f &&& 0x7F800000 = 0x7F800000 ∧ f &&& 0x007FFFFF ≠ 0 then boxF32 canonicalNanF32 else boxF32 f

def canonicalizeF64Bits (f : U64) : U64 :=
  if f &&& 0x7FF0000000000000 = 0x7FF0000000000000 ∧ f &&& 0x000FFFFFFFFFFFFF ≠ 0 then canonicalNanF64 else f

def unboxF32 (val : U64) : U32 := if val &&& nanBoxMask = nanBoxMask then val.setWidth 32 else canonicalNanF32

/-- Choice between two operands of `fmin` and `fmax`: a number before a NaN, then what `pick` says. -/
def preferNumber {n : Nat} (isNan : BitVec n → Bool) (canonical a b pick : BitVec n) : BitVec n :=
  match isNan a, isNan b with
  | true, true => canonical
  | true, false => b
  | false, true => a
  | false, false => pick

/-- `a.min(b)` of two numbers, after the zeros of unlike sign. -/
def minNumber {n : Nat} (f : Format) (minusZero a b : BitVec n) : BitVec n :=
  if a = minusZero ∧ b = 0 then a
  else if b = minusZero ∧ a = 0 then b
  else if (f.value b.toNat).lt (f.value a.toNat) then b
  else a

/-- `a.max(b)` of two numbers, after the zeros of unlike sign. -/
def maxNumber {n : Nat} (f : Format) (minusZero a b : BitVec n) : BitVec n :=
  if a = 0 ∧ b = minusZero then a
  else if b = 0 ∧ a = minusZero then b
  else if (f.value a.toNat).lt (f.value b.toNat) then b
  else a

def f32SignBit : U32 := 0x80000000

def f64SignBit : U64 := 0x8000000000000000

def fminF32 (a b : U32) : U32 := preferNumber isNanF32 canonicalNanF32 a b (minNumber binary32 f32SignBit a b)

def fmaxF32 (a b : U32) : U32 := preferNumber isNanF32 canonicalNanF32 a b (maxNumber binary32 f32SignBit a b)

def fminF64 (a b : U64) : U64 := preferNumber isNanF64 canonicalNanF64 a b (minNumber binary64 f64SignBit a b)

def fmaxF64 (a b : U64) : U64 := preferNumber isNanF64 canonicalNanF64 a b (maxNumber binary64 f64SignBit a b)

/-- Exponent all ones, some fraction bit, and the quiet bit clear. -/
def isSnanF32 (f : U32) : Bool :=
  (f >>> 23) &&& 0xFF == 0xFF && f &&& 0x007FFFFF != 0 && f &&& 0x00400000 == 0

def isSnanF64 (f : U64) : Bool :=
  (f >>> 52) &&& 0x7FF == 0x7FF && f &&& 0x000FFFFFFFFFFFFF != 0 && f &&& 0x0008000000000000 == 0

/-! ### Classes -/

/-- The ten classes of FCLASS, one bit each. -/
def classify {n : Nat} (expMax quietBit sign exp frac : BitVec n) : BitVec n :=
  if exp = expMax ∧ frac ≠ 0 then if frac &&& quietBit ≠ 0 then 1 <<< 9 else 1 <<< 8
  else if exp = expMax ∧ frac = 0 then if sign ≠ 0 then 1 <<< 0 else 1 <<< 7
  else if exp = 0 ∧ frac = 0 then if sign ≠ 0 then 1 <<< 3 else 1 <<< 4
  else if exp = 0 then if sign ≠ 0 then 1 <<< 2 else 1 <<< 5
  else if sign ≠ 0 then 1 <<< 1
  else 1 <<< 6

def classifyF32 (sign exp frac : U32) : U32 := classify 0xFF 0x00400000 sign exp frac

def classifyF64 (sign exp frac : U64) : U64 := classify 0x7FF 0x0008000000000000 sign exp frac

/-! ### Float to integer -/

def i32MaxP1 : Value := .finite (2 ^ 31)

def i32Min : Value := .finite (-2 ^ 31)

def u32MaxP1 : Value := .finite (2 ^ 32)

def i64MaxP1 : Value := .finite (2 ^ 63)

def i64Min : Value := .finite (-2 ^ 63)

def f64ToI32Rv (v : Value) : U32 := if v.isNan then 0x7FFFFFFF else BitVec.ofInt 32 (v.toInt (-2 ^ 31) (2 ^ 31 - 1))

def f64ToU32Rv (v : Value) : U32 := if v.isNan then 0xFFFFFFFF else BitVec.ofInt 32 (v.toInt 0 (2 ^ 32 - 1))

def f64ToI64Rv (v : Value) : U64 :=
  if v.isNan then 0x7FFFFFFFFFFFFFFF else BitVec.ofInt 64 (v.toInt (-2 ^ 63) (2 ^ 63 - 1))

def f64ToU64Rv (v : Value) : U64 := if v.isNan then 0xFFFFFFFFFFFFFFFF else BitVec.ofInt 64 (v.toInt 0 (2 ^ 64 - 1))

/-! ### The host -/

/-- Arithmetic of the host on one format: bits of the result, and the exceptions raised. -/
structure HostArith (n : Nat) where
  add : BitVec n → BitVec n → BitVec n × U32
  sub : BitVec n → BitVec n → BitVec n × U32
  mul : BitVec n → BitVec n → BitVec n × U32
  div : BitVec n → BitVec n → BitVec n × U32
  sqrt : BitVec n → BitVec n × U32
  /-- `x.mul_add(y, z)`. -/
  mulAdd : BitVec n → BitVec n → BitVec n → BitVec n × U32

structure Host where
  f32 : HostArith 32
  f64 : HostArith 64
  /-- An integer `as f32`. -/
  intToF32 : Int → U32 × U32
  /-- An integer `as f64`. -/
  intToF64 : Int → U64 × U32
  /-- An `f64` `as f32`. -/
  f64ToF32 : U64 → U32 × U32
  /-- An `f32` `as f64`. -/
  f32ToF64 : U32 → U64 × U32

def readHostFpFlags (host : U32) : U8 :=
  let flag (bit : U32) (f : U8) : U8 := if host &&& bit ≠ 0 then f else FpFlags.NONE
  flag 0x01 FpFlags.NV ||| flag 0x04 FpFlags.DZ ||| flag 0x08 FpFlags.OF ||| flag 0x10 FpFlags.UF |||
    flag 0x20 FpFlags.NX

/-! ### Execution -/

/-- A host result, written to a register as `f` says. -/
def written {n : Nat} (f : BitVec n → U64) (r : BitVec n × U32) : U64 × U32 := (f r.1, r.2)

/-- A result of integer code, which raises nothing on the host. -/
def quietly (r : U64) : U64 × U32 := (r, 0)

def executeF32 (h : Host) (op : AluOp) (a b c : U64) : U64 × U32 :=
  let fa := unboxF32 a
  let fb := unboxF32 b
  let fc := unboxF32 c
  let va := binary32.value fa.toNat
  let vb := binary32.value fb.toNat
  match op with
  | .fAdd => written boxF32Canon (h.f32.add fa fb)
  | .fSub => written boxF32Canon (h.f32.sub fa fb)
  | .fMul => written boxF32Canon (h.f32.mul fa fb)
  | .fDiv => written boxF32Canon (h.f32.div fa fb)
  | .fSqrt => written boxF32Canon (h.f32.sqrt fa)
  | .fMin => quietly (boxF32 (fminF32 fa fb))
  | .fMax => quietly (boxF32 (fmaxF32 fa fb))
  | .fMAdd => written boxF32Canon (h.f32.mulAdd fa fb fc)
  | .fMSub => written boxF32Canon (h.f32.mulAdd fa fb (fc ^^^ f32SignBit))
  | .fNMAdd => written boxF32Canon (h.f32.mulAdd (fa ^^^ f32SignBit) fb (fc ^^^ f32SignBit))
  | .fNMSub => written boxF32Canon (h.f32.mulAdd (fa ^^^ f32SignBit) fb fc)
  | .fSgnJ => quietly (boxF32 ((fa &&& ~~~f32SignBit) ||| (fb &&& f32SignBit)))
  | .fSgnJN => quietly (boxF32 ((fa &&& ~~~f32SignBit) ||| (~~~fb &&& f32SignBit)))
  | .fSgnJX => quietly (boxF32 (fa ^^^ (fb &&& f32SignBit)))
  | .fEq => quietly (if va.eq vb then 1 else 0)
  | .fLt => quietly (if va.lt vb then 1 else 0)
  | .fLe => quietly (if va.le vb then 1 else 0)
  | .fClass => quietly ((classifyF32 ((fa >>> 31) &&& 1) ((fa >>> 23) &&& 0xFF) (fa &&& 0x007FFFFF)).setWidth 64)
  | .fCvtWS => quietly ((f64ToI32Rv va).signExtend 64)
  | .fCvtWUS => quietly ((f64ToU32Rv va).signExtend 64)
  | .fCvtLS => quietly (f64ToI64Rv va)
  | .fCvtLUS => quietly (f64ToU64Rv va)
  | .fCvtSD => quietly (boxF32Canon fa)
  | .fCvtSW => h.intToF64 (a.setWidth 32).toInt
  | .fCvtSWU => h.intToF64 (a.setWidth 32).toNat
  | .fCvtSL => h.intToF64 a.toInt
  | .fCvtSLU => h.intToF64 a.toNat
  | .fCvtDS => h.f32ToF64 (unboxF32 a)
  | .fMvToF => quietly (boxF32 (a.setWidth 32))
  | .fMvToX => quietly ((a.setWidth 32).signExtend 64)
  | _ => quietly 0

def executeF64 (h : Host) (op : AluOp) (a b c : U64) : U64 × U32 :=
  let va := binary64.value a.toNat
  let vb := binary64.value b.toNat
  match op with
  | .fAdd => written canonicalizeF64Bits (h.f64.add a b)
  | .fSub => written canonicalizeF64Bits (h.f64.sub a b)
  | .fMul => written canonicalizeF64Bits (h.f64.mul a b)
  | .fDiv => written canonicalizeF64Bits (h.f64.div a b)
  | .fSqrt => written canonicalizeF64Bits (h.f64.sqrt a)
  | .fMin => quietly (fminF64 a b)
  | .fMax => quietly (fmaxF64 a b)
  | .fMAdd => written canonicalizeF64Bits (h.f64.mulAdd a b c)
  | .fMSub => written canonicalizeF64Bits (h.f64.mulAdd a b (c ^^^ f64SignBit))
  | .fNMAdd => written canonicalizeF64Bits (h.f64.mulAdd (a ^^^ f64SignBit) b (c ^^^ f64SignBit))
  | .fNMSub => written canonicalizeF64Bits (h.f64.mulAdd (a ^^^ f64SignBit) b c)
  | .fSgnJ => quietly ((a &&& ~~~f64SignBit) ||| (b &&& f64SignBit))
  | .fSgnJN => quietly ((a &&& ~~~f64SignBit) ||| (~~~b &&& f64SignBit))
  | .fSgnJX => quietly (a ^^^ (b &&& f64SignBit))
  | .fEq => quietly (if va.eq vb then 1 else 0)
  | .fLt => quietly (if va.lt vb then 1 else 0)
  | .fLe => quietly (if va.le vb then 1 else 0)
  | .fClass => quietly (classifyF64 ((a >>> 63) &&& 1) ((a >>> 52) &&& 0x7FF) (a &&& 0x000FFFFFFFFFFFFF))
  | .fCvtWS => quietly ((f64ToI32Rv va).signExtend 64)
  | .fCvtWUS => quietly ((f64ToU32Rv va).signExtend 64)
  | .fCvtLS => quietly (f64ToI64Rv va)
  | .fCvtLUS => quietly (f64ToU64Rv va)
  | .fCvtSD => written boxF32Canon (h.f64ToF32 a)
  | .fCvtSW => h.intToF64 (a.setWidth 32).toInt
  | .fCvtSWU => h.intToF64 (a.setWidth 32).toNat
  | .fCvtSL => h.intToF64 a.toInt
  | .fCvtSLU => h.intToF64 a.toNat
  | .fMvToF | .fMvToX => quietly a
  | _ => quietly 0

def isArith : AluOp → Bool
  | .fAdd | .fSub | .fMul | .fDiv | .fSqrt | .fMAdd | .fMSub | .fNMAdd | .fNMSub => true
  | _ => false

/-- NV of FEQ, FMIN and FMAX: one of the operands is a signaling NaN. -/
def signalingFlags (a b : U64) (is32 : Bool) : U8 :=
  if is32 then if isSnanF32 (unboxF32 a) || isSnanF32 (unboxF32 b) then FpFlags.NV else FpFlags.NONE
  else if isSnanF64 a || isSnanF64 b then FpFlags.NV
  else FpFlags.NONE

/-- NV of FLT and FLE: one of the operands is a NaN. -/
def nanFlags (a b : U64) (is32 : Bool) : U8 :=
  if is32 then if isNanF32 (unboxF32 a) || isNanF32 (unboxF32 b) then FpFlags.NV else FpFlags.NONE
  else if isNanF64 a || isNanF64 b then FpFlags.NV
  else FpFlags.NONE

/-- The range check of a conversion to an integer, on the rounded value. -/
def overflows (op : AluOp) (rounded : Value) : Bool :=
  match op with
  | .fCvtWS => !Value.inRange i32Min i32MaxP1 rounded
  | .fCvtWUS => !Value.inRange (.finite 0) u32MaxP1 rounded
  | .fCvtLS => !Value.inRange i64Min i64MaxP1 rounded
  | .fCvtLUS => rounded.lt (.finite 0)
  | _ => false

def toIntFlags (op : AluOp) (val : Value) : U8 :=
  if val.isNan || val.isInfinite then FpFlags.NV
  else if overflows op val.trunc then FpFlags.NV
  else if !val.eq val.trunc then FpFlags.NX
  else FpFlags.NONE

/-- What an operand denotes: `unbox_f32(a) as f64`, or the double itself. -/
def operandValue (a : U64) (is32 : Bool) : Value :=
  if is32 then binary32.value (unboxF32 a).toNat else binary64.value a.toNat

/-- The flags that are computed and not read from the host. -/
def manualFlags (op : AluOp) (a b : U64) (is32 : Bool) : U8 :=
  match op with
  | .fEq | .fMin | .fMax => signalingFlags a b is32
  | .fLt | .fLe => nanFlags a b is32
  | .fCvtWS | .fCvtWUS | .fCvtLS | .fCvtLUS => toIntFlags op (operandValue a is32)
  | _ => FpFlags.NONE

def executeFull (h : Host) (op : AluOp) (a b c : U64) (is32 : Bool) : U64 × U8 :=
  let r := if is32 then executeF32 h op a b c else executeF64 h op a b c
  if isArith op then (r.1, readHostFpFlags r.2) else (r.1, manualFlags op a b is32)

/-! ### Conversions of `compute_alu` -/

/-- An integer converted to the precision asked for. -/
def fromInt (h : Host) (isRv32 : Bool) (n : Int) : U64 × U32 :=
  if isRv32 then written boxF32 (h.intToF32 n) else h.intToF64 n

def convert (h : Host) (op : AluOp) (a : U64) (isRv32 : Bool) : U64 × U8 :=
  let r :=
    match op with
    | .fCvtSW => fromInt h isRv32 (a.setWidth 32).toInt
    | .fCvtSWU => fromInt h isRv32 (a.setWidth 32).toNat
    | .fCvtSL => fromInt h isRv32 a.toInt
    | .fCvtSLU => fromInt h isRv32 a.toNat
    | .fCvtSD => written boxF32Canon (h.f64ToF32 a)
    | .fCvtDS => h.f32ToF64 (unboxF32 a)
    | _ => quietly 0
  (r.1, readHostFpFlags r.2)

end Fpu

end Rvsim
