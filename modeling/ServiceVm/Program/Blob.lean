import ServiceVm.Codec
import ServiceVm.Protocol
import ServiceVm.Program.Basic
import ServiceVm.Program.Error

/-!
# Program blobs

A blob is the number of jump table entries, their width in one byte, the code length, the jump
table, the code, and one bit per code byte that marks instruction starts, lowest bit first.
-/
namespace ServiceVm.Program

open Codec

def bit (packed : Bytes) (i : Nat) : Bool := (packed.getD (i / 8) 0).toNat.testBit (i % 8)

/-- The byte whose bit `k` is `f k`. -/
def packByte (f : Nat → Bool) : UInt8 :=
  UInt8.ofNat ((List.range 8).foldr (fun k rest => (f k).toNat + 2 * rest) 0)

def packStarts (p : Program) : Bytes :=
  Array.ofFn (n := (p.code.size + 7) / 8) fun i =>
    packByte fun k => p.isInstructionStart (8 * i + k)

def toBlob (p : Program) : Bytes :=
  encodeNatural p.entries.toUInt64 ++ #[p.width] ++ encodeNatural (UInt64.ofNat p.code.size) ++
    p.jumpTable ++ p.code ++ p.packStarts

/-- Reads a blob. Nothing may follow the marks. -/
def ofBlob (blob : Bytes) : Except ProgramError Program := do
  let some entries := decodeNatural blob
    | throw (.truncated .jumpTableLength)
  let some width := blob[entries.consumed]?
    | throw (.truncated .jumpTableWidth)
  let lengthAt := entries.consumed + 1
  let some codeLength := decodeNatural (blob.extract lengthAt (lengthAt + 9))
    | throw (.truncated .codeLength)
  let tableSize := entries.value.toNat * width.toNat
  if addressSpace ≤ tableSize then
    throw (.jumpTableTooLarge entries.value width)
  let tableAt := lengthAt + codeLength.consumed
  let codeAt := tableAt + tableSize
  if blob.size < codeAt then
    throw (.truncated .jumpTable)
  let marksAt := codeAt + codeLength.value.toNat
  if blob.size < marksAt then
    throw (.truncated .code)
  let expected := (codeLength.value.toNat + 7) / 8
  let actual := blob.size - marksAt
  if actual ≠ expected then
    throw (.bitmaskLength expected actual)
  let code := blob.extract codeAt marksAt
  let marks := blob.drop marksAt
  return {
    code
    tags := tagCode code (Array.ofFn (n := code.size) fun i => bit marks i)
    jumpTable := blob.extract tableAt codeAt
    entries := UInt32.ofNat entries.value.toNat
    width }

end ServiceVm.Program
