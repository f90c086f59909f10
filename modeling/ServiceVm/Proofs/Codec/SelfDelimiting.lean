import ServiceVm.Proofs.Codec.Natural

/-!
# Encodings that tell where they end

Records are written as the encodings of their fields, one after the other and with nothing between
them. They can be told apart if every field ends where its own bytes say: `SelfDelimiting` states this,
and strings of one size, framed numbers, framed byte strings and framed sequences have it.
-/
namespace ServiceVm

theorem Bytes.concat_cons (part : Bytes) (parts : List Bytes) :
    Bytes.concat (part :: parts).toArray = part ++ Bytes.concat parts.toArray := by
  have flat (parts : List Bytes) : Bytes.concat parts.toArray = (parts.toArray.map id).flatten :=
    Array.foldl_append_eq_append.trans Array.empty_append
  simp [flat]

namespace Codec

variable {α : Type} {Fits : α → Prop} {encode : α → Bytes}

/-- What begins with the encoding of a value can be read in one way only: it determines the value, and
what follows the encoding. -/
def SelfDelimiting (Fits : α → Prop) (encode : α → Bytes) : Prop :=
  ∀ ⦃a b : α⦄, Fits a → Fits b → ∀ ⦃s u : Bytes⦄, encode a ++ s = encode b ++ u → a = b ∧ s = u

theorem SelfDelimiting.injective (delimiting : SelfDelimiting Fits encode) {a b : α} (left : Fits a)
    (right : Fits b) (same : encode a = encode b) : a = b :=
  (delimiting left right (congrArg (· ++ #[]) same)).1

theorem selfDelimiting_of_size (size : Nat) (sized : ∀ a, (encode a).size = size)
    (injective : ∀ a b, Fits a → Fits b → encode a = encode b → a = b) : SelfDelimiting Fits encode := by
  intro a b left right s u same
  obtain ⟨heads, rests⟩ := Array.append_inj same ((sized a).trans (sized b).symm)
  exact ⟨injective a b left right heads, rests⟩

theorem hash_selfDelimiting : SelfDelimiting (fun _ => True) Hash.toBytes :=
  selfDelimiting_of_size 32 (fun hash => hash.size_toArray) fun _ _ _ _ => Vector.toArray_inj.mp

/-! ## Numbers -/

theorem decode_encodeFixed {value : UInt64} {len : Nat} (fits : value.toNat < Nat.pow 256 len) :
    LittleEndian.decode (encodeFixed value len).toList = value.toNat := by
  rw [encodeFixed, Bytes.ofWord, List.toList_toArray, LittleEndian.decode_encode, Nat.mod_eq_of_lt fits]

/-- Numbers of a type that fits `len` bytes, written with exactly so many. -/
theorem encodeFixed_selfDelimiting (len : Nat) {toWord : α → UInt64}
    (fits : ∀ a, (toWord a).toNat < Nat.pow 256 len) (injective : ∀ a b, toWord a = toWord b → a = b) :
    SelfDelimiting (fun _ => True) fun a => encodeFixed (toWord a) len := by
  refine selfDelimiting_of_size len (fun a => Bytes.size_ofWord _ _) fun a b _ _ same => ?_
  have numbers := congrArg (LittleEndian.decode ·.toList) same
  simp only [decode_encodeFixed (fits _)] at numbers
  exact injective a b (UInt64.toNat_inj.mp numbers)

theorem word16_selfDelimiting : SelfDelimiting (fun _ => True) fun n : UInt16 => encodeFixed n.toUInt64 2 :=
  encodeFixed_selfDelimiting 2 (fun n => n.toNat_toUInt64 ▸ n.toNat_lt) fun _ _ => UInt16.toUInt64_inj.mp

theorem word32_selfDelimiting : SelfDelimiting (fun _ => True) fun n : UInt32 => encodeFixed n.toUInt64 4 :=
  encodeFixed_selfDelimiting 4 (fun n => n.toNat_toUInt64 ▸ n.toNat_lt) fun _ _ => UInt32.toUInt64_inj.mp

theorem word64_selfDelimiting : SelfDelimiting (fun _ => True) fun n : UInt64 => encodeFixed n 8 :=
  encodeFixed_selfDelimiting 8 UInt64.toNat_lt fun _ _ => id

theorem encodeNatural_selfDelimiting : SelfDelimiting (fun _ => True) encodeNatural := by
  intro v w _ _ s u same
  have read := decodeNatural_append (decodeNatural_encodeNatural v) s
  rw [same, decodeNatural_append (decodeNatural_encodeNatural w) u] at read
  obtain rfl : w = v := congrArg Decoded.value (Option.some.inj read)
  exact ⟨rfl, (Array.append_right_inj _).mp same⟩

/-! ## Byte strings and sequences -/

theorem encodeLength_selfDelimiting :
    SelfDelimiting (· < UInt64.size) fun length => encodeNatural (UInt64.ofNat length) := by
  intro m n left right s u same
  obtain ⟨words, rests⟩ := encodeNatural_selfDelimiting trivial trivial same
  have lengths := congrArg UInt64.toNat words
  rw [UInt64.toNat_ofNat_of_lt' left, UInt64.toNat_ofNat_of_lt' right] at lengths
  exact ⟨lengths, rests⟩

theorem encodeVariable_selfDelimiting : SelfDelimiting (fun data : Bytes => data.size < UInt64.size) encodeVariable := by
  intro data other left right s u same
  simp only [encodeVariable, Array.append_assoc] at same
  obtain ⟨sizes, rests⟩ := encodeLength_selfDelimiting left right same
  exact Array.append_inj rests sizes

/-- As many elements on both sides, each of which tells where it ends. -/
theorem SelfDelimiting.concat (delimiting : SelfDelimiting Fits encode) {items others : List α}
    (count : items.length = others.length) (left : ∀ a ∈ items, Fits a) (right : ∀ a ∈ others, Fits a)
    {s u : Bytes} (same : Bytes.concat (items.map encode).toArray ++ s =
      Bytes.concat (others.map encode).toArray ++ u) : items = others ∧ s = u := by
  induction items generalizing others with
  | nil =>
    obtain rfl := List.eq_nil_of_length_eq_zero count.symm
    exact ⟨rfl, (Array.append_right_inj _).mp same⟩
  | cons a items ih =>
    obtain _ | ⟨b, others⟩ := others
    · simp at count
    obtain ⟨leftHead, leftTail⟩ := List.forall_mem_cons.mp left
    obtain ⟨rightHead, rightTail⟩ := List.forall_mem_cons.mp right
    simp only [List.map_cons, Bytes.concat_cons, Array.append_assoc] at same
    obtain ⟨rfl, tails⟩ := delimiting leftHead rightHead same
    obtain ⟨rfl, rests⟩ := ih (Nat.succ.inj count) leftTail rightTail tails
    exact ⟨rfl, rests⟩

/-- Sequences whose length fits a word, and whose elements fit. -/
def FitAll (Fits : α → Prop) (items : Array α) : Prop := items.size < UInt64.size ∧ ∀ a ∈ items, Fits a

theorem SelfDelimiting.encodeSequence (delimiting : SelfDelimiting Fits encode) :
    SelfDelimiting (FitAll Fits) fun items => encodeSequence (items.map encode) := by
  rintro ⟨items⟩ ⟨others⟩ ⟨short, left⟩ ⟨short', right⟩ s u same
  simp only [Codec.encodeSequence, List.map_toArray, List.size_toArray, List.length_map,
    Array.append_assoc] at same
  obtain ⟨count, elements⟩ := encodeLength_selfDelimiting short short' same
  obtain ⟨rfl, rests⟩ := delimiting.concat count (by simpa using left) (by simpa using right) elements
  exact ⟨rfl, rests⟩

end Codec

end ServiceVm
