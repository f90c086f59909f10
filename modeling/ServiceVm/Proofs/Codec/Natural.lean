import ServiceVm.Codec

/-!
# Framed numbers

A number that is read takes the bytes its lead byte announces and depends on no others. Reading what
was written gives the number back, whatever follows it.
-/
namespace ServiceVm.Codec

theorem leadingOnes_le (b : UInt8) : leadingOnes b ≤ 8 := by
  have short := (List.takeWhile_sublist (l := List.range 8) fun i => b.toNat.testBit (7 - i)).length_le
  rwa [List.length_range] at short

theorem lead_parts : ∀ l < 9, ∀ high < Nat.pow 2 (7 - l),
    leadingOnes (UInt8.ofNat (256 - Nat.pow 2 (8 - l) + high)) = l ∧
      (UInt8.ofNat (256 - Nat.pow 2 (8 - l) + high)).toNat % Nat.pow 2 (7 - l) = high := by
  decide +kernel

theorem room_eq {l : Nat} (few : l < 8) : Nat.pow 2 (7 * (l + 1)) = Nat.pow 2 (7 - l) * Nat.pow 256 l := by
  change 2 ^ (7 * (l + 1)) = 2 ^ (7 - l) * (2 ^ 8) ^ l
  rw [← Nat.pow_mul, ← Nat.pow_add]
  congr 1
  omega

theorem naturalTail_spec (value : UInt64) :
    naturalTail value < 9 ∧
      value.toNat / Nat.pow 256 (naturalTail value) < Nat.pow 2 (7 - naturalTail value) := by
  have word := value.toNat_lt
  rw [naturalTail]
  cases found : (List.range 8).find? fun l => value.toNat < Nat.pow 2 (7 * (l + 1)) with
  | none =>
    refine ⟨by decide, ?_⟩
    change value.toNat / 2 ^ 64 < 1
    rw [Nat.div_eq_of_lt word]
    decide
  | some l =>
    have fits : value.toNat < Nat.pow 2 (7 * (l + 1)) := by simpa using List.find?_some found
    have few : l < 8 := List.mem_range.mp (List.mem_of_find?_eq_some found)
    refine ⟨by simp; omega, ?_⟩
    rw [room_eq few, Nat.mul_comm] at fits
    exact Nat.div_lt_of_lt_mul fits

/-- What a number that is read looks like. -/
theorem decodeNatural_eq_some {data : Bytes} {d : Decoded UInt64} (read : decodeNatural data = some d) :
    ∃ lead, data[0]? = some lead ∧ d.consumed = leadingOnes lead + 1 ∧ d.consumed ≤ data.size ∧
      d.value = UInt64.ofNat (lead.toNat % Nat.pow 2 (7 - leadingOnes lead) *
        Nat.pow 256 (leadingOnes lead) + LittleEndian.decode (data.extract 1 d.consumed).toList) := by
  rw [decodeNatural] at read
  split at read
  · contradiction
  rename_i lead first
  dsimp only at read
  split at read
  · contradiction
  rename_i enough
  obtain rfl := Option.some.inj read
  exact ⟨lead, first, rfl, Nat.le_of_not_lt enough, rfl⟩

theorem consumed_le {data : Bytes} {d : Decoded UInt64} (read : decodeNatural data = some d) :
    0 < d.consumed ∧ d.consumed ≤ 9 ∧ d.consumed ≤ data.size := by
  obtain ⟨lead, -, consumed, enough, -⟩ := decodeNatural_eq_some read
  have := leadingOnes_le lead
  omega

theorem decodeNatural_congr {data other : Bytes} {d : Decoded UInt64}
    (read : decodeNatural data = some d)
    (same : other.extract 0 d.consumed = data.extract 0 d.consumed) : decodeNatural other = some d := by
  obtain ⟨lead, first, consumed, enough, value⟩ := decodeNatural_eq_some read
  have size : d.consumed ≤ other.size := by
    have := congrArg Array.size same
    simp only [Array.size_extract] at this
    omega
  have first' : other[0]? = some lead := by
    have := congrArg (fun bytes : Bytes => bytes[0]?) same
    have left : 0 < min d.consumed other.size := by omega
    have right : 0 < min d.consumed data.size := by omega
    simpa only [Array.getElem?_extract, Nat.sub_zero, Nat.zero_add, left, right, if_true, first]
      using this
  have tail : other.extract 1 d.consumed = data.extract 1 d.consumed := by
    have := congrArg (fun bytes : Bytes => bytes.extract 1 d.consumed) same
    simpa [Array.extract_extract] using this
  rw [decodeNatural, first']
  dsimp only
  rw [← consumed, if_neg (Nat.not_lt.mpr size), tail, ← value]

theorem decodeNatural_append {data : Bytes} {d : Decoded UInt64} (read : decodeNatural data = some d)
    (rest : Bytes) : decodeNatural (data ++ rest) = some d := by
  have inside := (consumed_le read).2.2
  apply decodeNatural_congr read
  simp [Array.extract_append, Nat.sub_eq_zero_of_le inside]

theorem decodeNatural_extract {data : Bytes} {d : Decoded UInt64} {stop : Nat}
    (read : decodeNatural data = some d) (enough : d.consumed ≤ stop) :
    decodeNatural (data.extract 0 stop) = some d := by
  apply decodeNatural_congr read
  simp [Array.extract_extract, Nat.min_eq_left enough]

/-- No number takes more than nine bytes, so reading may stop after them. -/
theorem decodeNatural_nine (data : Bytes) : decodeNatural (data.extract 0 9) = decodeNatural data := by
  cases read : decodeNatural data with
  | some d => exact decodeNatural_extract read (consumed_le read).2.1
  | none =>
    cases short : decodeNatural (data.extract 0 9) with
    | none => rfl
    | some d =>
      have few := (consumed_le short).2.1
      rw [decodeNatural_congr short (by simp [Array.extract_extract, Nat.min_eq_left few])] at read
      contradiction

theorem decodeNatural_slice (data : Bytes) (start : Nat) :
    decodeNatural (data.extract start (start + 9)) = decodeNatural (data.extract start data.size) := by
  rw [← decodeNatural_nine (data.extract start data.size), Array.extract_extract]
  congr 1
  grind

/-- The number that a lead byte and the bytes after it stand for fits their room. -/
theorem natural_lt_room (lead : UInt8) (tail : List UInt8) :
    lead.toNat % Nat.pow 2 (7 - tail.length) * Nat.pow 256 tail.length + LittleEndian.decode tail <
      Nat.pow 2 (7 - tail.length) * Nat.pow 256 tail.length := by
  have low := LittleEndian.decode_lt tail
  have high : lead.toNat % Nat.pow 2 (7 - tail.length) + 1 ≤ Nat.pow 2 (7 - tail.length) :=
    Nat.mod_lt _ (Nat.two_pow_pos _)
  calc _ < lead.toNat % Nat.pow 2 (7 - tail.length) * Nat.pow 256 tail.length +
        Nat.pow 256 tail.length := Nat.add_lt_add_left low _
    _ = (lead.toNat % Nat.pow 2 (7 - tail.length) + 1) * Nat.pow 256 tail.length :=
        (Nat.succ_mul _ _).symm
    _ ≤ Nat.pow 2 (7 - tail.length) * Nat.pow 256 tail.length := Nat.mul_le_mul_right _ high

theorem natural_lt (lead : UInt8) (tail : List UInt8) (few : tail.length ≤ 8) :
    lead.toNat % Nat.pow 2 (7 - tail.length) * Nat.pow 256 tail.length + LittleEndian.decode tail <
      UInt64.size := by
  have room : ∀ l ≤ 8, Nat.pow 2 (7 - l) * Nat.pow 256 l ≤ UInt64.size := by decide
  exact Nat.lt_of_lt_of_le (natural_lt_room lead tail) (room _ few)

theorem size_encodeNatural (value : UInt64) : (encodeNatural value).size = naturalTail value + 1 := by
  simp [encodeNatural, Bytes.size_ofWord, Nat.add_comm]

theorem decodeNatural_encodeNatural (value : UInt64) :
    decodeNatural (encodeNatural value) = some ⟨value, (encodeNatural value).size⟩ := by
  obtain ⟨few, high⟩ := naturalTail_spec value
  obtain ⟨ones, low⟩ := lead_parts _ few _ high
  have size := size_encodeNatural value
  have tail : (encodeNatural value).extract 1 (naturalTail value + 1) =
      Bytes.ofWord value (naturalTail value) := by
    have whole : (Bytes.ofWord value (naturalTail value)).extract 0 (naturalTail value) =
        Bytes.ofWord value (naturalTail value) :=
      Array.extract_eq_self_of_le (Nat.le_of_eq (Bytes.size_ofWord _ _))
    simp [encodeNatural, Array.extract_append, whole]
  have first : (encodeNatural value)[0]? =
      some (UInt8.ofNat (256 - Nat.pow 2 (8 - naturalTail value) +
        value.toNat / Nat.pow 256 (naturalTail value))) := by
    rw [encodeNatural, Array.getElem?_append_left (by simp)]
    rfl
  rw [decodeNatural, first]
  dsimp only
  rw [ones, size, if_neg (Nat.lt_irrefl _), tail, low, Bytes.ofWord, List.toList_toArray,
    LittleEndian.decode_encode, Nat.div_add_mod', UInt64.ofNat_toNat]

end ServiceVm.Codec
