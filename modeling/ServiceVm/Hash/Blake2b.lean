import ServiceVm.Bytes

/-!
# BLAKE2b with 32-byte digests

The working state is four rows of four words. One `mix` runs the quarter rounds of all four
columns at once; rotating the rows by one, two and three words turns diagonals into columns.
-/
namespace ServiceVm.Blake2b

structure Row where
  w0 : UInt64
  w1 : UInt64
  w2 : UInt64
  w3 : UInt64
deriving DecidableEq, Repr

namespace Row

def add (r s : Row) : Row := ⟨r.w0 + s.w0, r.w1 + s.w1, r.w2 + s.w2, r.w3 + s.w3⟩

def xor (r s : Row) : Row := ⟨r.w0 ^^^ s.w0, r.w1 ^^^ s.w1, r.w2 ^^^ s.w2, r.w3 ^^^ s.w3⟩

def rotateWord (w k : UInt64) : UInt64 := (w >>> k) ||| (w <<< (64 - k))

/-- Rotates the bits of every word right by `k`. -/
def rotateBits (r : Row) (k : UInt64) : Row :=
  ⟨rotateWord r.w0 k, rotateWord r.w1 k, rotateWord r.w2 k, rotateWord r.w3 k⟩

/-- Rotates the words of the row left by one place. -/
def shift (r : Row) : Row := ⟨r.w1, r.w2, r.w3, r.w0⟩

def bytes (r : Row) : Bytes :=
  Bytes.ofWord r.w0 8 ++ Bytes.ofWord r.w1 8 ++ Bytes.ofWord r.w2 8 ++ Bytes.ofWord r.w3 8

end Row

structure State where
  a : Row
  b : Row
  c : Row
  d : Row
deriving DecidableEq, Repr

/-- The quarter round on all four columns, with message rows `x` and `y`. -/
def State.mix (s : State) (x y : Row) : State :=
  let a := (s.a.add s.b).add x
  let d := (s.d.xor a).rotateBits 32
  let c := s.c.add d
  let b := (s.b.xor c).rotateBits 24
  let a := (a.add b).add y
  let d := (d.xor a).rotateBits 16
  let c := c.add d
  let b := (b.xor c).rotateBits 63
  ⟨a, b, c, d⟩

/-- Moves diagonals into columns. -/
def State.diagonals (s : State) : State := ⟨s.a, s.b.shift, s.c.shift.shift, s.d.shift.shift.shift⟩

/-- Moves columns back onto diagonals. -/
def State.columns (s : State) : State := ⟨s.a, s.b.shift.shift.shift, s.c.shift.shift, s.d.shift⟩

/-- Order in which each round takes the message words. -/
def schedule : List (Array Nat) := [
  #[0, 1, 2, 3, 4, 5, 6, 7, 8, 9, 10, 11, 12, 13, 14, 15],
  #[14, 10, 4, 8, 9, 15, 13, 6, 1, 12, 0, 2, 11, 7, 5, 3],
  #[11, 8, 12, 0, 5, 2, 15, 13, 10, 14, 3, 6, 7, 1, 9, 4],
  #[7, 9, 3, 1, 13, 12, 11, 14, 2, 6, 5, 10, 4, 0, 15, 8],
  #[9, 0, 5, 7, 2, 4, 10, 15, 14, 1, 11, 12, 6, 8, 3, 13],
  #[2, 12, 6, 10, 0, 11, 8, 3, 4, 13, 7, 5, 15, 14, 1, 9],
  #[12, 5, 1, 15, 14, 13, 4, 10, 0, 7, 6, 3, 9, 2, 8, 11],
  #[13, 11, 7, 14, 12, 1, 3, 9, 5, 0, 15, 4, 8, 6, 2, 10],
  #[6, 15, 14, 9, 11, 3, 0, 8, 12, 2, 13, 7, 1, 4, 10, 5],
  #[10, 2, 8, 4, 7, 6, 1, 5, 15, 11, 9, 14, 3, 12, 13, 0],
  #[0, 1, 2, 3, 4, 5, 6, 7, 8, 9, 10, 11, 12, 13, 14, 15],
  #[14, 10, 4, 8, 9, 15, 13, 6, 1, 12, 0, 2, 11, 7, 5, 3]]

def round (message : Array UInt64) (s : State) (order : Array Nat) : State :=
  let word (i : Nat) : UInt64 := message.getD (order.getD i 0) 0
  let s := s.mix ⟨word 0, word 2, word 4, word 6⟩ ⟨word 1, word 3, word 5, word 7⟩
  let s := s.diagonals.mix ⟨word 8, word 10, word 12, word 14⟩ ⟨word 9, word 11, word 13, word 15⟩
  s.columns

def ivLow : Row :=
  ⟨0x6a09e667f3bcc908, 0xbb67ae8584caa73b, 0x3c6ef372fe94f82b, 0xa54ff53a5f1d36f1⟩

def ivHigh : Row :=
  ⟨0x510e527fade682d1, 0x9b05688c2b3e6c1f, 0x1f83d9abfb41bd6b, 0x5be0cd19137e2179⟩

structure Chain where
  low : Row
  high : Row
deriving DecidableEq, Repr

/-- Parameters of an unkeyed 32-byte digest folded into the first word. -/
def Chain.initial : Chain := ⟨ivLow.xor ⟨0x01010020, 0, 0, 0⟩, ivHigh⟩

/-- `count` is the number of message bytes consumed up to and including this block. -/
def Chain.compress (h : Chain) (message : Array UInt64) (count : UInt64) (final : Bool) : Chain :=
  let mask : Row := ⟨count, 0, if final then 0xffffffffffffffff else 0, 0⟩
  let s := schedule.foldl (round message) ⟨h.low, h.high, ivLow, ivHigh.xor mask⟩
  ⟨(h.low.xor s.a).xor s.c, (h.high.xor s.b).xor s.d⟩

/-- The sixteen words of the block at `start`, zero-padded past the end of the data. -/
def messageWords (data : Bytes) (start : Nat) : Array UInt64 :=
  Array.ofFn (n := 16) fun i =>
    let byte (k : Nat) : UInt64 := (data.getD (start + 8 * i + k) 0).toUInt64
    byte 0 ||| byte 1 <<< 8 ||| byte 2 <<< 16 ||| byte 3 <<< 24 |||
      byte 4 <<< 32 ||| byte 5 <<< 40 ||| byte 6 <<< 48 ||| byte 7 <<< 56

/-- Number of 128-byte blocks before the last one; the last block is never missing. -/
def fullBlocks (size : Nat) : Nat := (size - 1) / 128

def digestBytes (data : Bytes) : Bytes :=
  let full := fullBlocks data.size
  let h := (List.range full).foldl (fun (h : Chain) i =>
    h.compress (messageWords data (128 * i)) (UInt64.ofNat (128 * (i + 1))) false) Chain.initial
  (h.compress (messageWords data (128 * full)) (UInt64.ofNat data.size) true).low.bytes

theorem size_digestBytes (data : Bytes) : (digestBytes data).size = 32 := by
  simp [digestBytes, Row.bytes, Bytes.size_ofWord]

def digest (data : Bytes) : Hash := ⟨digestBytes data, size_digestBytes data⟩

end ServiceVm.Blake2b
