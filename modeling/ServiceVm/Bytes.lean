/-!
# Byte strings

A byte string is an array of bytes. Numbers inside byte strings stand least significant byte
first; `LittleEndian.encode` and `LittleEndian.decode` are the two readings of that rule, on lists.
-/
namespace ServiceVm

abbrev Bytes := Array UInt8

namespace LittleEndian

/-- The low `len` bytes of `n`. -/
def encode : (len : Nat) → (n : Nat) → List UInt8
  | 0, _ => []
  | len + 1, n => UInt8.ofNat n :: encode len (n / 256)

/-- The number whose bytes are the given ones. -/
def decode : List UInt8 → Nat
  | [] => 0
  | b :: rest => b.toNat + 256 * decode rest

@[simp] theorem length_encode (len n : Nat) : (encode len n).length = len := by
  induction len generalizing n with
  | zero => rfl
  | succ len ih => simp [encode, ih]

theorem encode_decode (data : List UInt8) : encode data.length (decode data) = data := by
  induction data with
  | nil => rfl
  | cons b rest ih =>
    have := b.toNat_lt
    have quotient : (b.toNat + 256 * decode rest) / 256 = decode rest := by omega
    rw [decode, List.length_cons, encode, quotient, ih]
    congr 1
    apply UInt8.toNat_inj.1
    simp

theorem decode_encode (len n : Nat) : decode (encode len n) = n % Nat.pow 256 len := by
  induction len generalizing n with
  | zero => exact (Nat.mod_one n).symm
  | succ len ih =>
    have step : Nat.pow 256 (len + 1) = 256 * Nat.pow 256 len := Nat.pow_succ'
    rw [encode, decode, ih, step, Nat.mod_mul, UInt8.toNat_ofNat']

theorem decode_lt (data : List UInt8) : decode data < Nat.pow 256 data.length := by
  induction data with
  | nil => decide
  | cons b rest ih =>
    have byte := b.toNat_lt
    have step : Nat.pow 256 (rest.length + 1) = Nat.pow 256 rest.length * 256 := rfl
    rw [decode, List.length_cons, step]
    omega

end LittleEndian

namespace Bytes

/-- The low `len` bytes of a word; bytes past the eighth are zero. -/
def ofWord (value : UInt64) (len : Nat) : Bytes :=
  (LittleEndian.encode len value.toNat).toArray

/-- The word held by the first eight bytes; missing bytes count as zero. -/
def toWord (data : Bytes) : UInt64 :=
  UInt64.ofNat (LittleEndian.decode (data.extract 0 8).toList)

def zeros (len : Nat) : Bytes := Array.replicate len 0

/-- Cuts or zero-pads to exactly `len` bytes. -/
def resize (data : Bytes) (len : Nat) : Bytes :=
  data.extract 0 len ++ zeros (len - data.size)

def drop (data : Bytes) (n : Nat) : Bytes := data.extract n data.size

/-- Puts `part` in the place of the bytes from `offset` on. -/
def overwrite (data : Bytes) (offset : Nat) (part : Bytes) : Bytes :=
  data.resize offset ++ part ++ data.drop (offset + part.size)

/-- Consecutive pieces of `len` bytes; a shorter rest is left out. -/
def chunks (data : Bytes) (len : Nat) : Array Bytes :=
  Array.ofFn (n := data.size / len) fun i => data.extract (i * len) (i * len + len)

def concat (parts : Array Bytes) : Bytes := parts.foldl (· ++ ·) #[]

theorem size_ofWord (value : UInt64) (len : Nat) : (ofWord value len).size = len := by
  simp [ofWord]

/-- Up to eight bytes hold a word. -/
theorem toNat_toWord {data : Bytes} (few : data.size ≤ 8) :
    (toWord data).toNat = LittleEndian.decode data.toList := by
  have whole : data.extract 0 8 = data := Array.extract_eq_self_of_le few
  have bound := LittleEndian.decode_lt data.toList
  have word : Nat.pow 256 data.toList.length ≤ UInt64.size :=
    Nat.pow_le_pow_right (show 0 < 256 by decide) few
  rw [toWord, whole, UInt64.toNat_ofNat_of_lt' (Nat.lt_of_lt_of_le bound word)]

theorem size_resize (data : Bytes) (len : Nat) : (resize data len).size = len := by
  simp [resize, zeros]
  omega

end Bytes

/-- A 32-byte digest. -/
abbrev Hash := Vector UInt8 32

namespace Hash

def zero : Hash := Vector.replicate 32 0

def ofBytes? (data : Bytes) : Option Hash :=
  if h : data.size = 32 then some ⟨data, h⟩ else none

/-- Cut or zero-padded to 32 bytes. -/
def ofBytes (data : Bytes) : Hash := ⟨data.resize 32, Bytes.size_resize data 32⟩

def toBytes (hash : Hash) : Bytes := hash.toArray

end Hash

end ServiceVm
