import ServiceVm.Bytes
import ServiceVm.Opcode

/-!
# Arithmetic on words

Registers hold 64-bit words. Operations on 32-bit words use the low halves of their operands and
extend the sign of the result. Signed operations go through the integers.
-/
namespace ServiceVm.Word

/-- The low `octets` bytes read as a signed number. -/
def signExtend (value : UInt64) (octets : Nat) : UInt64 :=
  UInt64.ofInt (Int.bmod (Int.ofNat value.toNat) (Nat.pow 256 octets))

def signed (a : UInt64) : Int := a.toInt64.toInt

def signed32 (a : UInt32) : Int := a.toInt32.toInt

def extend32 (a : UInt32) : UInt64 := UInt64.ofInt (signed32 a)

/-- The largest word. -/
def allOnes : UInt64 := 0xffffffffffffffff

def ofBool (b : Bool) : UInt64 := if b then 1 else 0

def add32 (a b : UInt64) : UInt64 := extend32 (a.toUInt32 + b.toUInt32)

def sub32 (a b : UInt64) : UInt64 := extend32 (a.toUInt32 - b.toUInt32)

def mul32 (a b : UInt64) : UInt64 := extend32 (a.toUInt32 * b.toUInt32)

/-! Division rounds toward zero and the remainder has the sign of the dividend. A zero divisor gives
the largest word as quotient and the dividend as remainder. -/

def divU32 (a b : UInt64) : UInt64 :=
  if b.toUInt32 = 0 then allOnes else extend32 (a.toUInt32 / b.toUInt32)

def remU32 (a b : UInt64) : UInt64 :=
  if b.toUInt32 = 0 then extend32 a.toUInt32 else extend32 (a.toUInt32 % b.toUInt32)

def divS32 (a b : UInt64) : UInt64 :=
  if b.toUInt32 = 0 then allOnes
  else extend32 (UInt32.ofInt ((signed32 a.toUInt32).tdiv (signed32 b.toUInt32)))

def remS32 (a b : UInt64) : UInt64 :=
  if b.toUInt32 = 0 then extend32 a.toUInt32
  else extend32 (UInt32.ofInt ((signed32 a.toUInt32).tmod (signed32 b.toUInt32)))

def divU64 (a b : UInt64) : UInt64 := if b = 0 then allOnes else a / b

def remU64 (a b : UInt64) : UInt64 := if b = 0 then a else a % b

def divS64 (a b : UInt64) : UInt64 :=
  if b = 0 then allOnes else UInt64.ofInt ((signed a).tdiv (signed b))

def remS64 (a b : UInt64) : UInt64 :=
  if b = 0 then a else UInt64.ofInt ((signed a).tmod (signed b))

/-! High halves of 128-bit products. -/

def mulUpperSS (a b : UInt64) : UInt64 :=
  UInt64.ofInt (signed a * signed b / Int.ofNat UInt64.size)

def mulUpperUU (a b : UInt64) : UInt64 := UInt64.ofNat (a.toNat * b.toNat / UInt64.size)

def mulUpperSU (a b : UInt64) : UInt64 :=
  UInt64.ofInt (signed a * Int.ofNat b.toNat / Int.ofNat UInt64.size)

/-! Shift and rotation amounts are taken modulo the width. -/

def shiftLeft32 (value amount : UInt64) : UInt64 :=
  extend32 (value.toUInt32 <<< (amount % 32).toUInt32)

def shiftRight32 (value amount : UInt64) : UInt64 :=
  extend32 (value.toUInt32 >>> (amount % 32).toUInt32)

def shiftArith32 (value amount : UInt64) : UInt64 :=
  UInt64.ofInt (signed32 value.toUInt32 >>> (amount % 32).toNat)

def shiftLeft64 (value amount : UInt64) : UInt64 := value <<< (amount % 64)

def shiftRight64 (value amount : UInt64) : UInt64 := value >>> (amount % 64)

def shiftArith64 (value amount : UInt64) : UInt64 :=
  UInt64.ofInt (signed value >>> (amount % 64).toNat)

def rotateLeft64 (value amount : UInt64) : UInt64 :=
  (value <<< (amount % 64)) ||| (value >>> ((64 - amount % 64) % 64))

def rotateRight64 (value amount : UInt64) : UInt64 :=
  (value >>> (amount % 64)) ||| (value <<< ((64 - amount % 64) % 64))

def rotateLeft32 (value amount : UInt64) : UInt64 :=
  let k := (amount % 32).toUInt32
  extend32 ((value.toUInt32 <<< k) ||| (value.toUInt32 >>> ((32 - k) % 32)))

def rotateRight32 (value amount : UInt64) : UInt64 :=
  let k := (amount % 32).toUInt32
  extend32 ((value.toUInt32 >>> k) ||| (value.toUInt32 <<< ((32 - k) % 32)))

/-! Counts of bits among the low `width` bits. -/

def countOnes (width n : Nat) : Nat := (List.range width).countP n.testBit

def leadingZeros (width n : Nat) : Nat :=
  ((List.range width).takeWhile fun i => !n.testBit (width - 1 - i)).length

def trailingZeros (width n : Nat) : Nat :=
  ((List.range width).takeWhile fun i => !n.testBit i).length

def reverseBytes (value : UInt64) : UInt64 :=
  UInt64.ofNat (LittleEndian.decode (LittleEndian.encode 8 value.toNat).reverse)

def ltS (a b : UInt64) : Bool := signed a < signed b

def leS (a b : UInt64) : Bool := signed a ≤ signed b

end ServiceVm.Word

namespace ServiceVm

namespace ImmCondition

def holds (c : ImmCondition) (a x : UInt64) : Bool :=
  match c with
  | .eq => a == x
  | .ne => a != x
  | .ltU => a < x
  | .leU => a ≤ x
  | .geU => x ≤ a
  | .gtU => x < a
  | .ltS => Word.ltS a x
  | .leS => Word.leS a x
  | .geS => Word.leS x a
  | .gtS => Word.ltS x a

end ImmCondition

namespace Condition

def holds (c : Condition) (a b : UInt64) : Bool :=
  match c with
  | .eq => a == b
  | .ne => a != b
  | .ltU => a < b
  | .ltS => Word.ltS a b
  | .geU => b ≤ a
  | .geS => Word.leS b a

end Condition

namespace UnaryOp

def apply (op : UnaryOp) (value : UInt64) : UInt64 :=
  match op with
  | .countSetBits64 => UInt64.ofNat (Word.countOnes 64 value.toNat)
  | .countSetBits32 => UInt64.ofNat (Word.countOnes 32 value.toNat)
  | .leadingZeroBits64 => UInt64.ofNat (Word.leadingZeros 64 value.toNat)
  | .leadingZeroBits32 => UInt64.ofNat (Word.leadingZeros 32 value.toNat)
  | .trailingZeroBits64 => UInt64.ofNat (Word.trailingZeros 64 value.toNat)
  | .trailingZeroBits32 => UInt64.ofNat (Word.trailingZeros 32 value.toNat)
  | .signExtend8 => Word.signExtend value 1
  | .signExtend16 => Word.signExtend value 2
  | .zeroExtend16 => value % 65536
  | .reverseBytes => Word.reverseBytes value

end UnaryOp

namespace ImmOp

/-- New value of the destination, from the source `b`, the immediate `x` and the destination's old
value, which only conditional moves keep. -/
def apply (op : ImmOp) (b x old : UInt64) : UInt64 :=
  match op with
  | .add32 => Word.add32 b x
  | .add64 => b + x
  | .mul32 => Word.mul32 b x
  | .mul64 => b * x
  | .negAdd32 => Word.sub32 x b
  | .negAdd64 => x - b
  | .and => b &&& x
  | .xor => b ^^^ x
  | .or => b ||| x
  | .setLtU => Word.ofBool (b < x)
  | .setLtS => Word.ofBool (Word.ltS b x)
  | .setGtU => Word.ofBool (x < b)
  | .setGtS => Word.ofBool (Word.ltS x b)
  | .shloL32 => Word.shiftLeft32 b x
  | .shloR32 => Word.shiftRight32 b x
  | .sharR32 => Word.shiftArith32 b x
  | .shloLAlt32 => Word.shiftLeft32 x b
  | .shloRAlt32 => Word.shiftRight32 x b
  | .sharRAlt32 => Word.shiftArith32 x b
  | .shloL64 => Word.shiftLeft64 b x
  | .shloR64 => Word.shiftRight64 b x
  | .sharR64 => Word.shiftArith64 b x
  | .shloLAlt64 => Word.shiftLeft64 x b
  | .shloRAlt64 => Word.shiftRight64 x b
  | .sharRAlt64 => Word.shiftArith64 x b
  | .rotR64 => Word.rotateRight64 b x
  | .rotR64Alt => Word.rotateRight64 x b
  | .rotR32 => Word.rotateRight32 b x
  | .rotR32Alt => Word.rotateRight32 x b
  | .cmovIz => if b = 0 then x else old
  | .cmovNz => if b ≠ 0 then x else old

end ImmOp

namespace BinaryOp

/-- New value of the destination, from the sources `a` and `b` and the destination's old value,
which only conditional moves keep. -/
def apply (op : BinaryOp) (a b old : UInt64) : UInt64 :=
  match op with
  | .add32 => Word.add32 a b
  | .sub32 => Word.sub32 a b
  | .mul32 => Word.mul32 a b
  | .divU32 => Word.divU32 a b
  | .divS32 => Word.divS32 a b
  | .remU32 => Word.remU32 a b
  | .remS32 => Word.remS32 a b
  | .shloL32 => Word.shiftLeft32 a b
  | .shloR32 => Word.shiftRight32 a b
  | .sharR32 => Word.shiftArith32 a b
  | .add64 => a + b
  | .sub64 => a - b
  | .mul64 => a * b
  | .divU64 => Word.divU64 a b
  | .divS64 => Word.divS64 a b
  | .remU64 => Word.remU64 a b
  | .remS64 => Word.remS64 a b
  | .shloL64 => Word.shiftLeft64 a b
  | .shloR64 => Word.shiftRight64 a b
  | .sharR64 => Word.shiftArith64 a b
  | .and => a &&& b
  | .xor => a ^^^ b
  | .or => a ||| b
  | .mulUpperSS => Word.mulUpperSS a b
  | .mulUpperUU => Word.mulUpperUU a b
  | .mulUpperSU => Word.mulUpperSU a b
  | .setLtU => Word.ofBool (a < b)
  | .setLtS => Word.ofBool (Word.ltS a b)
  | .cmovIz => if b = 0 then a else old
  | .cmovNz => if b ≠ 0 then a else old
  | .rotL64 => Word.rotateLeft64 a b
  | .rotL32 => Word.rotateLeft32 a b
  | .rotR64 => Word.rotateRight64 a b
  | .rotR32 => Word.rotateRight32 a b
  | .andInv => a &&& ~~~b
  | .orInv => a ||| ~~~b
  | .xnor => ~~~(a ^^^ b)
  | .max => if Word.ltS a b then b else a
  | .maxU => if a < b then b else a
  | .min => if Word.ltS b a then b else a
  | .minU => if b < a then b else a

end BinaryOp

namespace Opcode

/-- Condition of an immediate branch; no other operation branches on an immediate. -/
def immediateHolds (op : Opcode) (a x : UInt64) : Bool :=
  match op with
  | .branchImm c => c.holds a x
  | _ => false

/-- Condition of a register branch; no other operation branches on two registers. -/
def registersHold (op : Opcode) (a b : UInt64) : Bool :=
  match op with
  | .branch c => c.holds a b
  | _ => false

/-- Function of one register; every other operation leaves the value as it is. -/
def unaryValue (op : Opcode) (value : UInt64) : UInt64 :=
  match op with
  | .unary f => f.apply value
  | _ => value

end Opcode

end ServiceVm
