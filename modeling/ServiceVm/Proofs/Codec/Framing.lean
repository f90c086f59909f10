import ServiceVm.Proofs.Codec.Natural

/-!
# Framed numbers and byte strings are read back

Numbers are written with as few bytes as they can be read from, and reading fails only where bytes are
missing. What is framed by its length is read back whole, whatever follows it.
-/
namespace ServiceVm.Codec

/-! ## Numbers -/

/-- Whether the highest `l` bits of a byte are ones, and the next one is a zero or there is none. -/
def HasLeadingOnes (b : UInt8) (l : Nat) : Prop :=
  l ≤ 8 ∧ (∀ i < l, b.toNat.testBit (7 - i) = true) ∧ (l < 8 → b.toNat.testBit (7 - l) = false)

theorem HasLeadingOnes.unique {b : UInt8} {l k : Nat} (first : HasLeadingOnes b l)
    (second : HasLeadingOnes b k) : l = k := by
  obtain ⟨most, ones, zero⟩ := first
  obtain ⟨most', ones', zero'⟩ := second
  rcases Nat.lt_trichotomy l k with less | same | more
  · simp [ones' l less] at zero
    omega
  · exact same
  · simp [ones k more] at zero'
    omega

theorem hasLeadingOnes_leadingOnes (b : UInt8) : HasLeadingOnes b (leadingOnes b) := by
  have most := leadingOnes_le b
  have found : leadingOnes b = (List.range 8).findIdx fun i => !b.toNat.testBit (7 - i) := by
    rw [leadingOnes, List.takeWhile_eq_take_findIdx_not, List.length_take]
    exact Nat.min_eq_left List.findIdx_le_length
  refine ⟨most, fun i before => ?_, fun inside => ?_⟩
  · rw [found] at before
    simpa using List.not_of_lt_findIdx before
  · have short : (List.range 8).findIdx (fun i => !b.toNat.testBit (7 - i)) < (List.range 8).length := by
      simpa [found] using inside
    have stops := List.findIdx_getElem (w := short)
    rw [List.getElem_range, ← found] at stops
    simpa using stops

theorem naturalTail_le {value : UInt64} {l : Nat} (few : l < 8)
    (fits : value.toNat < Nat.pow 2 (7 * (l + 1))) : naturalTail value ≤ l := by
  rw [naturalTail]
  cases found : (List.range 8).find? fun l => decide (value.toNat < Nat.pow 2 (7 * (l + 1))) with
  | none =>
    have tooLarge := List.find?_eq_none.mp found l (List.mem_range.mpr few)
    exact absurd (decide_eq_true fits) tooLarge
  | some k =>
    obtain ⟨-, -, before⟩ := List.find?_range_eq_some.mp found
    apply Nat.le_of_not_lt
    intro later
    have tooLarge := before l later
    rw [decide_eq_true fits] at tooLarge
    contradiction

theorem size_encodeNatural_le {data : Bytes} {d : Decoded UInt64} (read : decodeNatural data = some d) :
    (encodeNatural d.value).size ≤ d.consumed := by
  obtain ⟨lead, -, consumed, enough, value⟩ := decodeNatural_eq_some read
  have most := leadingOnes_le lead
  rw [size_encodeNatural, consumed, Nat.add_le_add_iff_right]
  by_cases few : leadingOnes lead < 8
  · apply naturalTail_le few
    have length : (data.extract 1 d.consumed).toList.length = leadingOnes lead := by
      simp only [Array.length_toList, Array.size_extract]
      omega
    have room := natural_lt_room lead (data.extract 1 d.consumed).toList
    rw [length] at room
    rw [value, room_eq few, UInt64.toNat_ofNat']
    exact Nat.lt_of_le_of_lt (Nat.mod_le _ _) room
  · have := (naturalTail_spec d.value).1
    omega

theorem decodeNatural_eq_none (data : Bytes) :
    decodeNatural data = none ↔
      data = #[] ∨ ∃ lead l, data[0]? = some lead ∧ HasLeadingOnes lead l ∧ data.size < 1 + l := by
  rw [decodeNatural]
  cases first : data[0]? with
  | none => simpa using Array.getElem?_eq_none_iff.mp first
  | some lead =>
    dsimp only
    constructor
    · intro fails
      split at fails
      · exact .inr ⟨lead, leadingOnes lead, rfl, hasLeadingOnes_leadingOnes lead, by omega⟩
      · contradiction
    · rintro (rfl | ⟨lead', l, same, ones, short⟩)
      · simp at first
      · obtain rfl := Option.some.inj same
        have announced := ones.unique (hasLeadingOnes_leadingOnes lead)
        exact if_pos (by omega)

/-! ## Byte strings -/

theorem decodeVariable_encodeVariable {data : Bytes} (fits : data.size < UInt64.size) (rest : Bytes) :
    decodeVariable (encodeVariable data ++ rest) = some ⟨data, (encodeVariable data).size⟩ := by
  have length := decodeNatural_append (decodeNatural_encodeNatural (UInt64.ofNat data.size)) (data ++ rest)
  have value : (UInt64.ofNat data.size).toNat = data.size := UInt64.toNat_ofNat_of_lt' fits
  rw [decodeVariable, encodeVariable, Array.append_assoc, length]
  simp [value, Array.extract_append]

theorem decodeServiceCode_encodeVariable {data : Bytes} (fits : data.size < UInt64.size) (rest : Bytes) :
    decodeServiceCode (encodeVariable data ++ rest) = some ⟨data, rest⟩ := by
  rw [decodeServiceCode, decodeVariable_encodeVariable fits]
  simp [Bytes.drop, Array.extract_append]

/-- Frames give back what was put into them. A number is read from the bytes it was written with, whatever
follows, and these are the fewest that it can be read from. Reading takes no bytes that are not there, and
fails only if bytes are missing after the lead byte, or there is none. Byte strings are read back whole,
and the metadata and the code of a service come apart again. -/
theorem frames_read_back :
    (∀ (value : UInt64) (rest : Bytes),
      decodeNatural (encodeNatural value ++ rest) = some ⟨value, (encodeNatural value).size⟩) ∧
    (∀ (data : Bytes) (d : Decoded UInt64), decodeNatural data = some d →
      (encodeNatural d.value).size ≤ d.consumed ∧ d.consumed ≤ data.size) ∧
    (∀ data : Bytes, decodeNatural data = none ↔
      data = #[] ∨ ∃ lead l, data[0]? = some lead ∧ HasLeadingOnes lead l ∧ data.size < 1 + l) ∧
    ∀ data rest : Bytes, data.size < UInt64.size →
      decodeVariable (encodeVariable data ++ rest) = some ⟨data, (encodeVariable data).size⟩ ∧
      decodeServiceCode (encodeVariable data ++ rest) = some ⟨data, rest⟩ := by
  refine ⟨fun value => ?_, fun data d read => ?_, decodeNatural_eq_none, fun data rest fits => ?_⟩
  · exact decodeNatural_append (decodeNatural_encodeNatural value)
  · exact ⟨size_encodeNatural_le read, (consumed_le read).2.2⟩
  · exact ⟨decodeVariable_encodeVariable fits rest, decodeServiceCode_encodeVariable fits rest⟩

/-- The number 5 can be read from two bytes and is written with fewer, and a service without code keeps
its metadata. -/
theorem overlong_five_read_back :
    decodeNatural #[128, 5] = some ⟨5, 2⟩ ∧ (encodeNatural 5).size ≤ 2 ∧
      decodeServiceCode (encodeVariable #[7] ++ #[]) = some ⟨#[7], #[]⟩ := by
  have read : decodeNatural #[128, 5] = some ⟨5, 2⟩ := by decide +kernel
  obtain ⟨-, shortest, -, strings⟩ := frames_read_back
  exact ⟨read, (shortest _ _ read).1, (strings #[7] #[] (by decide)).2⟩

end ServiceVm.Codec
