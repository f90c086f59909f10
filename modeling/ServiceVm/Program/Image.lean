import ServiceVm.Memory.Mapping
import ServiceVm.Program.Blob
import ServiceVm.Registers

/-!
# Program images

An image holds read-only data, read-write data, a number of heap pages, a stack size and a program
blob. `Image.load` lays them out in memory with the argument of the invocation and sets the
registers a program expects on entry.
-/
namespace ServiceVm

open Codec

structure Image where
  readOnly : Bytes
  readWrite : Bytes
  heapPages : Nat
  stackSize : Nat
  blob : Bytes
deriving DecidableEq, Repr

/-- A program with its memory and registers, ready to run. -/
structure LoadedImage where
  program : Program
  memory : Memory
  registers : Registers

namespace Image

/-- Lengths that do not fit their fields are cut to the low bytes. -/
def encode (image : Image) : Bytes :=
  encodeFixed (UInt64.ofNat image.readOnly.size) 3 ++
    encodeFixed (UInt64.ofNat image.readWrite.size) 3 ++
    encodeFixed (UInt64.ofNat image.heapPages) 2 ++
    encodeFixed (UInt64.ofNat image.stackSize) 3 ++
    image.readOnly ++ image.readWrite ++
    encodeFixed (UInt64.ofNat image.blob.size) 4 ++ image.blob

/-- A `len`-byte number at `offset`. -/
def numberAt (data : Bytes) (offset len : Nat) (part : ProgramPart) : Except ProgramError Nat :=
  match decodeFixed (data.extract offset (offset + len)) len with
  | some number => .ok number.value.toNat
  | none => .error (.truncated part)

/-- The `len` bytes at `offset`. -/
def bytesAt (data : Bytes) (offset len : Nat) (part : ProgramPart) : Except ProgramError Bytes :=
  if data.size < offset + len then .error (.truncated part)
  else .ok (data.extract offset (offset + len))

def decode (data : Bytes) : Except ProgramError Image := do
  let roLength ← numberAt data 0 3 .readOnlyLength
  let rwLength ← numberAt data 3 3 .readWriteLength
  let heapPages ← numberAt data 6 2 .heapPages
  let stackSize ← numberAt data 8 3 .stackSize
  let readOnly ← bytesAt data 11 roLength .readOnlyData
  let readWrite ← bytesAt data (11 + roLength) rwLength .readWriteData
  let codeAt := 11 + roLength + rwLength
  let codeLength ← numberAt data codeAt 4 .codeLength
  let blob ← bytesAt data (codeAt + 4) codeLength .code
  let stop := codeAt + 4 + codeLength
  if stop ≠ data.size then
    throw (.trailingBytes (data.size - stop))
  return { readOnly, readWrite, heapPages, stackSize, blob }

/-- Room the layout takes with a zone between any two segments. -/
def extent (image : Image) : Nat :=
  5 * zoneSize + alignToZone image.readOnly.size +
    alignToZone (image.readWrite.size + image.heapPages * pageSize) +
    alignToZone image.stackSize + inputSize

def readOnlyEnd (image : Image) : Nat := zoneSize + alignToPage image.readOnly.size

def readWriteStart (image : Image) : Nat := 2 * zoneSize + alignToZone image.readOnly.size

/-- Where the heap starts to grow. -/
def heapStart (image : Image) : Nat :=
  image.readWriteStart + alignToPage image.readWrite.size + image.heapPages * pageSize

def layout? (image : Image) (argument : Bytes) : Option Memory := do
  let m ← Memory.empty.allocate zoneSize image.readOnlyEnd image.readOnly .readOnly
  let m ← m.allocate image.readWriteStart image.heapStart image.readWrite .readWrite
  let m ← m.allocate image.heapStart (image.heapStart + pageSize) #[] .readWrite
  let m := { m with heapPointer := image.heapStart }
  let m ← m.allocate (stackEnd - alignToPage image.stackSize) stackEnd #[] .readWrite
  m.allocate argumentStart (argumentStart + inputSize) argument .readOnly

/-- Return address, stack, and the place and size of the argument. -/
def entryRegisters (argument : Bytes) : Registers :=
  let regs := Registers.zero.put Reg.r0 (UInt64.ofNat haltAddress)
  let regs := regs.put Reg.r1 (UInt64.ofNat stackEnd)
  let regs := regs.put Reg.r7 (UInt64.ofNat argumentStart)
  regs.put Reg.r8 (UInt64.ofNat argument.size)

def load (data argument : Bytes) : Except ProgramError LoadedImage := do
  let image ← decode data
  if addressSpace < image.extent then
    throw .addressSpaceExceeded
  if inputSize < argument.size then
    throw (.argumentTooLarge argument.size)
  let program ← Program.ofBlob image.blob
  -- Below the extent that is checked no segment starts past the address space.
  let some memory := image.layout? argument | throw .addressSpaceExceeded
  return { program, memory, registers := entryRegisters argument }

end Image

end ServiceVm
