import ServiceVm.Bytes

/-!
# Framing of numbers and byte strings

A natural number is written as a lead byte and up to eight more bytes: the number of leading one
bits of the lead byte is the number of bytes that follow, and the remaining low bits of the lead
byte are the most significant bits of the number. Byte strings and sequences are framed by the
natural number that counts their bytes or elements.
-/
namespace ServiceVm.Codec

/-- A decoded value and the number of bytes it was read from. -/
structure Decoded (α : Type) where
  value : α
  consumed : Nat
deriving DecidableEq, Repr

/-- Number of one bits above the highest zero bit. -/
def leadingOnes (b : UInt8) : Nat :=
  ((List.range 8).takeWhile fun i => b.toNat.testBit (7 - i)).length

/-- Number of bytes that follow the lead byte of `value`: with `l` of them there is room for
`7 * (l + 1)` bits, and with eight of them for every word. -/
def naturalTail (value : UInt64) : Nat :=
  ((List.range 8).find? fun l => value.toNat < Nat.pow 2 (7 * (l + 1))).getD 8

def encodeNatural (value : UInt64) : Bytes :=
  let l := naturalTail value
  let lead := 256 - Nat.pow 2 (8 - l) + value.toNat / Nat.pow 256 l
  #[UInt8.ofNat lead] ++ Bytes.ofWord value l

def decodeNatural (data : Bytes) : Option (Decoded UInt64) :=
  match data[0]? with
  | none => none
  | some lead =>
    let l := leadingOnes lead
    if data.size < l + 1 then none
    else
      let low := LittleEndian.decode (data.extract 1 (l + 1)).toList
      let high := lead.toNat % Nat.pow 2 (7 - l)
      some ⟨UInt64.ofNat (high * Nat.pow 256 l + low), l + 1⟩

/-- Little-endian in exactly `len` bytes, modulo `256 ^ len`. -/
def encodeFixed (value : UInt64) (len : Nat) : Bytes := Bytes.ofWord value len

/-- Takes `len` bytes; the value is held by the first eight of them. -/
def decodeFixed (data : Bytes) (len : Nat) : Option (Decoded UInt64) :=
  if data.size < len then none else some ⟨Bytes.toWord (data.extract 0 len), len⟩

def encodeVariable (data : Bytes) : Bytes :=
  encodeNatural (UInt64.ofNat data.size) ++ data

def decodeVariable (data : Bytes) : Option (Decoded Bytes) :=
  match decodeNatural data with
  | none => none
  | some length =>
    let stop := length.consumed + length.value.toNat
    if data.size < stop then none else some ⟨data.extract length.consumed stop, stop⟩

/-- Frames elements that are already encoded. -/
def encodeSequence (elements : Array Bytes) : Bytes :=
  encodeNatural (UInt64.ofNat elements.size) ++ Bytes.concat elements

/-- The preimage of a service's code: framed metadata, then the code itself. -/
structure ServiceCode where
  metadata : Bytes
  code : Bytes
deriving DecidableEq, Repr

def decodeServiceCode (preimage : Bytes) : Option ServiceCode :=
  match decodeVariable preimage with
  | none => none
  | some metadata => some ⟨metadata.value, preimage.drop metadata.consumed⟩

end ServiceVm.Codec
