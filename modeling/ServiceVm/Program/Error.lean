/-! # Malformed programs and images -/
namespace ServiceVm

/-- Parts of a program blob or a program image, in the order they are read. -/
inductive ProgramPart where
  | jumpTableLength
  | jumpTableWidth
  | codeLength
  | jumpTable
  | code
  | readOnlyLength
  | readWriteLength
  | heapPages
  | stackSize
  | readOnlyData
  | readWriteData
deriving DecidableEq, Repr

def ProgramPart.name : ProgramPart → String
  | .jumpTableLength => "jump table length"
  | .jumpTableWidth => "jump table width"
  | .codeLength => "code length"
  | .jumpTable => "jump table"
  | .code => "code"
  | .readOnlyLength => "read-only length"
  | .readWriteLength => "read-write length"
  | .heapPages => "heap pages"
  | .stackSize => "stack size"
  | .readOnlyData => "read-only data"
  | .readWriteData => "read-write data"

inductive ProgramError where
  | truncated (part : ProgramPart)
  | jumpTableTooLarge (entries : UInt64) (width : UInt8)
  | bitmaskLength (expected actual : Nat)
  | trailingBytes (count : Nat)
  | addressSpaceExceeded
  | argumentTooLarge (size : Nat)
deriving DecidableEq, Repr

def ProgramError.message : ProgramError → String
  | .truncated part => "program blob truncated while reading " ++ part.name
  | .jumpTableTooLarge entries width =>
    "jump table of " ++ toString entries.toNat ++ " entries x " ++ toString width.toNat ++
      " bytes exceeds the address space"
  | .bitmaskLength expected actual =>
    "bitmask has " ++ toString actual ++ " bytes, expected " ++ toString expected
  | .trailingBytes count => "program image has " ++ toString count ++ " trailing bytes"
  | .addressSpaceExceeded => "standard layout exceeds the 32-bit address space"
  | .argumentTooLarge size => "argument of " ++ toString size ++ " bytes exceeds the input zone"

end ServiceVm
