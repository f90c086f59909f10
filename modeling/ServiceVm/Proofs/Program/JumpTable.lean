import ServiceVm.Instr.Step
import ServiceVm.Proofs.Program.RoundTrip

/-!
# Jumps through the table

An entry of the jump table stands for the number that all its bytes hold. Programs look at the first
eight of these bytes, and they count their entries modulo `2 ^ 32`. Tables with entries of one to eight
bytes do not notice either: a jump goes where the entry says. Wider entries are cut, and a table whose
entries take no room may declare more of them than the program knows.
-/
namespace ServiceVm

theorem LittleEndian.decode_take (data : List UInt8) (count : Nat) :
    decode (data.take count) = decode data % Nat.pow 256 count := by
  induction data generalizing count with
  | nil => simp [decode]
  | cons b data ih =>
    cases count with
    | zero => exact (Nat.mod_one _).symm
    | succ count =>
      have byte := b.toNat_lt
      have step : Nat.pow 256 (count + 1) = 256 * Nat.pow 256 count := Nat.pow_succ'
      have low : (b.toNat + 256 * decode data) % 256 = b.toNat := by omega
      have high : (b.toNat + 256 * decode data) / 256 = decode data := by omega
      rw [List.take_succ_cons, decode, decode, ih, step, Nat.mod_mul, low, high]

namespace Program

open Codec

variable {p : Program} {index : Nat}

/-- The number that an entry of the jump table holds in all its bytes. -/
def entry (p : Program) (index : Nat) : Nat :=
  LittleEndian.decode
    (p.jumpTable.extract (index * p.width.toNat) (index * p.width.toNat + p.width.toNat)).toList

/-- Whether the table has the bytes of all its entries. -/
def Tabled (p : Program) : Prop := p.jumpTable.size = p.entries.toNat * p.width.toNat

theorem Tabled.entry_inside (tabled : p.Tabled) (inside : index < p.entries.toNat) :
    index * p.width.toNat + p.width.toNat ≤ p.jumpTable.size := by
  rw [tabled, ← Nat.succ_mul]
  exact Nat.mul_le_mul_right _ inside

theorem entry_lt (p : Program) (narrow : p.width.toNat ≤ 8) (index : Nat) : p.entry index < UInt64.size := by
  refine Nat.lt_of_lt_of_le (LittleEndian.decode_lt _) ?_
  refine Nat.pow_le_pow_right (n := 256) (j := 8) (by decide) ?_
  simp only [Array.length_toList, Array.size_extract]
  omega

theorem decode_entry_start (p : Program) (index : Nat) :
    LittleEndian.decode (p.jumpTable.extract (index * p.width.toNat)
      (index * p.width.toNat + min p.width.toNat 8)).toList = p.entry index % UInt64.size := by
  rw [entry, show UInt64.size = Nat.pow 256 8 by decide, ← LittleEndian.decode_take]
  congr 1
  simp only [Array.toList_extract, List.extract_eq_take_drop, List.take_take]
  congr 1
  omega

theorem Tabled.jumpTarget?_eq_some (tabled : p.Tabled) {target : UInt32} :
    p.jumpTarget? index = some target ↔
      index < p.entries.toNat ∧ p.entry index % UInt64.size = target.toNat := by
  simp only [jumpTarget?, decode_entry_start]
  by_cases inside : index < p.entries.toNat
  · rw [if_pos ⟨inside, tabled.entry_inside inside⟩]
    generalize p.entry index % UInt64.size = value
    have word := target.toNat_lt
    by_cases short : value < UInt32.size
    · simp only [if_pos short, inside, true_and, Option.some.injEq, ← UInt32.toNat_inj,
        UInt32.toNat_ofNat_of_lt' short]
    · simp only [if_neg short, inside, true_and, reduceCtorEq, false_iff]
      exact fun same => short (same ▸ word)
  · simp [inside]

/-! ## Dynamic jumps -/

/-- Whether a jump to `a` lands on `target`, with `count` entries in the table. -/
def Lands (p : Program) (count a : Nat) (target : UInt32) : Prop :=
  a % 2 = 0 ∧ 0 < a ∧ a ≤ 2 * count ∧ p.entry (a / 2 - 1) = target.toNat ∧
    p.isBlockStart target.toNat = true

instance (p : Program) (count a : Nat) (target : UInt32) : Decidable (p.Lands count a target) :=
  inferInstanceAs (Decidable (_ ∧ _))

theorem Lands.unique {count a : Nat} {target other : UInt32} (first : p.Lands count a target)
    (second : p.Lands count a other) : target = other :=
  UInt32.toNat_inj.mp (first.2.2.2.1.symm.trans second.2.2.2.1)

theorem Tabled.dynamicJump_cases (tabled : p.Tabled) (narrow : p.width.toNat ≤ 8) {address : UInt64}
    (running : address.toNat % addressSpace ≠ haltAddress) :
    (∃ target, p.dynamicJump address = (.continue, some target) ∧
      p.Lands p.entries.toNat (address.toNat % addressSpace) target) ∨
    (p.dynamicJump address = (.panic, none) ∧
      ∀ target, ¬p.Lands p.entries.toNat (address.toNat % addressSpace) target) := by
  simp only [dynamicJump, if_neg running, Lands]
  generalize address.toNat % addressSpace = a
  by_cases refused : a = 0 ∨ 2 * p.entries.toNat < a ∨ a % 2 ≠ 0
  · rw [if_pos refused]
    exact .inr ⟨rfl, fun target lands => by omega⟩
  rw [if_neg refused]
  have inside : a / 2 - 1 < p.entries.toNat := by omega
  have entry_eq {target : UInt32} : p.jumpTarget? (a / 2 - 1) = some target ↔
      p.entry (a / 2 - 1) = target.toNat := by
    rw [tabled.jumpTarget?_eq_some, Nat.mod_eq_of_lt (p.entry_lt narrow _), and_iff_right inside]
  cases found : p.jumpTarget? (a / 2 - 1) with
  | none =>
    refine .inr ⟨rfl, fun target lands => ?_⟩
    rw [entry_eq.mpr lands.2.2.2.1] at found
    contradiction
  | some target =>
    have value := entry_eq.mp found
    by_cases start : p.isBlockStart target.toNat = true
    · exact .inl ⟨target, if_pos start, by omega, by omega, by omega, value, start⟩
    · refine .inr ⟨if_neg start, fun other lands => start ?_⟩
      rw [← value, lands.2.2.2.1]
      exact lands.2.2.2.2

/-- Whether every jump, except to the halt address, goes on where it lands and panics if that is
nowhere. -/
def FollowsTable (p : Program) (count : Nat) : Prop :=
  ∀ address : UInt64, address.toNat % addressSpace ≠ haltAddress →
    (∀ target, p.dynamicJump address = (.continue, some target) ↔
      p.Lands count (address.toNat % addressSpace) target) ∧
    ((∀ target, ¬p.Lands count (address.toNat % addressSpace) target) →
      p.dynamicJump address = (.panic, none))

theorem Tabled.followsTable (tabled : p.Tabled) (narrow : p.width.toNat ≤ 8) :
    p.FollowsTable p.entries.toNat := by
  intro address running
  rcases tabled.dynamicJump_cases narrow running with ⟨target, jumps, lands⟩ | ⟨panics, nowhere⟩
  · refine ⟨fun other => ?_, fun nowhere => absurd lands (nowhere target)⟩
    rw [jumps]
    refine ⟨fun same => ?_, fun lands' => by rw [lands.unique lands']⟩
    obtain rfl : target = other := by simpa using same
    exact lands
  · refine ⟨fun target => ⟨fun jumps => ?_, fun lands => absurd lands (nowhere target)⟩, fun _ => panics⟩
    rw [panics] at jumps
    simp at jumps

/-! ## Tables as blobs declare them -/

theorem ofBlob_entries {blob : Bytes} (accepted : ofBlob blob = .ok p) :
    ∃ entries, decodeNatural blob = some entries ∧ p.Tabled ∧
      p.jumpTable.size = entries.value.toNat * p.width.toNat ∧
      entries.value.toNat * p.width.toNat < addressSpace ∧
      p.entries.toNat = entries.value.toNat % UInt32.size := by
  obtain ⟨entries, width, codeLength, read, -, -, bound, size, rfl⟩ := ofBlob_ok accepted
  have table : (blob.extract (entries.consumed + 1 + codeLength.consumed) (entries.consumed + 1 +
      codeLength.consumed + entries.value.toNat * width.toNat)).size =
        entries.value.toNat * width.toNat := by
    rw [Array.size_extract]
    omega
  exact ⟨entries, read, table.trans (toNat_ofNat_mul bound).symm, table, bound, UInt32.toNat_ofNat⟩

theorem mod_eq_of_bound {count width : Nat} (bound : count * width < addressSpace)
    (room : width ≠ 0 ∨ count < UInt32.size) : count % UInt32.size = count := by
  refine Nat.mod_eq_of_lt ?_
  rcases room with some | few
  · exact Nat.lt_of_le_of_lt (Nat.le_mul_of_pos_right count (Nat.pos_of_ne_zero some)) bound
  · exact few

/-! ## Where lookups and jumps go -/

/-- Lookups read the low word of an entry. In a table that has the bytes of all its entries, a lookup
finds the entry modulo `2 ^ 64` if that fits 32 bits. It finds the number that all bytes hold if this
number is a word, as it is for entries of at most eight bytes; and past the last entry it finds nothing. -/
theorem jumpTarget?_reads_low_word (p : Program) (tabled : p.Tabled) (index : Nat) :
    (∀ target, p.jumpTarget? index = some target ↔
      index < p.entries.toNat ∧ p.entry index % UInt64.size = target.toNat) ∧
    (index < p.entries.toNat → p.width.toNat ≤ 8 ∨ p.entry index < UInt64.size →
      ∀ target, p.jumpTarget? index = some target ↔ p.entry index = target.toNat) ∧
    (p.entries.toNat ≤ index → p.jumpTarget? index = none) := by
  refine ⟨fun target => tabled.jumpTarget?_eq_some, fun inside short target => ?_, fun past => ?_⟩
  · have word : p.entry index < UInt64.size := short.elim (fun narrow => p.entry_lt narrow index) id
    rw [tabled.jumpTarget?_eq_some, and_iff_right inside, Nat.mod_eq_of_lt word]
  · exact if_neg fun both => absurd both.1 (Nat.not_lt.mpr past)

theorem wideTable_lookup : wideTable.Tabled ∧ wideTable.jumpTarget? 1 = some 300 := by
  have tabled : wideTable.Tabled := show _ = 2 * 9 by decide +kernel
  exact ⟨tabled, ((jumpTarget?_reads_low_word wideTable tabled 1).2.1 (by decide) (.inr (by decide +kernel))
    300).mpr (by decide +kernel)⟩

/-- A program of one `trap` with a table of one entry, the number `2 ^ 64` in nine bytes. -/
def wideBlob : Bytes := #[1, 9, 1] ++ #[0, 0, 0, 0, 0, 0, 0, 0, 1] ++ #[0] ++ #[1]

/-- Nine bytes that hold a number beyond 64 bits are taken for a target. -/
theorem wideBlob_lookup_cut : ∃ p, ofBlob wideBlob = .ok p ∧ p.Tabled ∧ 0 < p.entries.toNat ∧
    UInt32.size ≤ p.entry 0 ∧ p.jumpTarget? 0 = some 0 := by
  have accepted : ofBlob wideBlob =
      .ok ⟨#[0], #[⟨true, true⟩], #[0, 0, 0, 0, 0, 0, 0, 0, 1], 1, 9⟩ := by decide +kernel
  obtain ⟨-, -, tabled, -⟩ := ofBlob_entries accepted
  exact ⟨_, accepted, tabled, by decide, by decide +kernel, by decide +kernel⟩

/-- Jumps go through the table that the blob declares, with its entries counted modulo `2 ^ 32`. That is
the number of entries declared, unless these take no room. -/
theorem dynamicJump_follows_table (blob : Bytes) (p : Program) (accepted : ofBlob blob = .ok p)
    (narrow : p.width.toNat ≤ 8) :
    ∃ entries, decodeNatural blob = some entries ∧
      p.jumpTable.size = entries.value.toNat * p.width.toNat ∧
      p.FollowsTable (entries.value.toNat % UInt32.size) ∧
      (p.width.toNat ≠ 0 ∨ entries.value.toNat < UInt32.size → p.FollowsTable entries.value.toNat) := by
  obtain ⟨entries, read, tabled, size, bound, count⟩ := ofBlob_entries accepted
  have follows := tabled.followsTable narrow
  rw [count] at follows
  refine ⟨entries, read, size, follows, fun room => ?_⟩
  rwa [mod_eq_of_bound bound room] at follows

def twoTargets : Program := ofCode #[50, 0, 0, 1] #[true, false, true, true] #[3, 2] 2

theorem twoTargets_follows_table :
    ofBlob #[2, 2, 4, 3, 0, 2, 0, 50, 0, 0, 1, 13] = .ok twoTargets ∧
      twoTargets.dynamicJump 2 = (.continue, some 3) ∧ twoTargets.dynamicJump 6 = (.panic, none) := by
  have accepted : ofBlob #[2, 2, 4, 3, 0, 2, 0, 50, 0, 0, 1, 13] = .ok twoTargets := by decide +kernel
  obtain ⟨entries, read, -, -, follows⟩ := dynamicJump_follows_table _ _ accepted (by decide)
  obtain rfl : entries = ⟨2, 1⟩ := Option.some.inj (read.symm.trans (by decide +kernel))
  have jumps := follows (.inl (by decide))
  refine ⟨accepted, ((jumps 2 (by decide)).1 3).mpr (by decide +kernel), (jumps 6 (by decide)).2 ?_⟩
  exact fun target lands => absurd lands.2.2.1 (by decide)

/-- A program that jumps to its first entry, with a table of `2 ^ 32` entries that take no room. -/
def countlessBlob : Bytes := #[241, 0, 0, 0, 0] ++ #[0] ++ #[3] ++ #[50, 2, 2] ++ #[1]

theorem countlessBlob_entries_lost : ∃ p entries, ofBlob countlessBlob = .ok p ∧ p.width.toNat ≤ 8 ∧
    decodeNatural countlessBlob = some entries ∧ p.Lands entries.value.toNat 2 0 ∧
    p.dynamicJump 2 = (.panic, none) := by
  have accepted : ofBlob countlessBlob =
      .ok ⟨#[50, 2, 2], #[⟨true, true⟩, ⟨false, false⟩, ⟨false, false⟩], #[], 0, 0⟩ := by decide +kernel
  exact ⟨_, ⟨4294967296, 5⟩, accepted, by decide, by decide +kernel, by decide +kernel, by decide +kernel⟩

end Program

end ServiceVm
