import ServiceVm.Proofs.Codec.SelfDelimiting
import ServiceVm.Service.Encoding
import ServiceVm.Work.Encoding

/-!
# Records that cannot be taken for others

Guests read packages, items, operands and transfers from bytes, and a package is known by the hash of
its bytes. Every record is determined by its encoding, even if more bytes follow, as long as the
lengths of its strings and lists fit the words that announce them.
-/
namespace ServiceVm

open Codec

/-! ## Which records can be written down -/

def WorkResult.Fits : WorkResult → Prop
  | .ok output => output.size < UInt64.size
  | _ => True

def WorkContext.Fits (c : WorkContext) : Prop := c.prerequisites.size < UInt64.size

structure WorkItem.Fits (w : WorkItem) : Prop where
  payload : w.payload.size < UInt64.size
  imports : w.imports.size < UInt64.size
  extrinsics : w.extrinsics.size < UInt64.size

structure WorkPackage.Fits (p : WorkPackage) : Prop where
  authorization : p.authorization.size < UInt64.size
  authorizerConfig : p.authorizerConfig.size < UInt64.size
  context : p.context.Fits
  items : FitAll WorkItem.Fits p.items

structure Operand.Fits (o : Operand) : Prop where
  authOutput : o.authOutput.size < UInt64.size
  result : o.result.Fits

/-- A memo that is neither cut nor padded. -/
def Transfer.FullMemo (t : Transfer) : Prop := t.memo.size = memoSize

/-! ## Records field by field -/

theorem WorkResult.encode_selfDelimiting : SelfDelimiting Fits encode := by
  intro r r' fits fits' s u same
  -- The first byte tells the outcomes apart, and only success has more bytes.
  have tags := congrArg (·.toList.head?) same
  cases r with
  | ok output =>
    cases r' with
    | ok output' =>
      simp only [encode, Array.append_assoc, Array.append_right_inj] at same
      obtain ⟨rfl, rests⟩ := encodeVariable_selfDelimiting fits fits' same
      exact ⟨rfl, rests⟩
    | _ => simp [encode] at tags
  | _ =>
    cases r' <;> simp [encode] at tags
    exact ⟨rfl, (Array.append_right_inj _).mp same⟩

theorem ImportSpec.encode_selfDelimiting : SelfDelimiting (fun _ => True) encode := by
  intro i i' _ _ s u same
  simp only [encode, Array.append_assoc] at same
  obtain ⟨treeRoot, same⟩ := hash_selfDelimiting trivial trivial same
  obtain ⟨index, same⟩ := word16_selfDelimiting trivial trivial same
  cases i
  cases i'
  simp_all

theorem ExtrinsicSpec.encode_selfDelimiting : SelfDelimiting (fun _ => True) encode := by
  intro x x' _ _ s u same
  simp only [encode, Array.append_assoc] at same
  obtain ⟨hash, same⟩ := hash_selfDelimiting trivial trivial same
  obtain ⟨length, same⟩ := word32_selfDelimiting trivial trivial same
  cases x
  cases x'
  simp_all

theorem WorkContext.encode_selfDelimiting : SelfDelimiting Fits encode := by
  intro c c' fits fits' s u same
  simp only [encode, Array.append_assoc] at same
  obtain ⟨anchor, same⟩ := hash_selfDelimiting trivial trivial same
  obtain ⟨stateRoot, same⟩ := hash_selfDelimiting trivial trivial same
  obtain ⟨beefyRoot, same⟩ := hash_selfDelimiting trivial trivial same
  obtain ⟨lookupAnchor, same⟩ := hash_selfDelimiting trivial trivial same
  obtain ⟨slot, same⟩ := word32_selfDelimiting trivial trivial same
  obtain ⟨prerequisites, same⟩ := hash_selfDelimiting.encodeSequence ⟨fits, fun _ _ => trivial⟩
    ⟨fits', fun _ _ => trivial⟩ same
  cases c
  cases c'
  simp_all

theorem WorkItem.encode_selfDelimiting : SelfDelimiting Fits encode := by
  intro w w' fits fits' s u same
  simp only [encode, Array.append_assoc] at same
  obtain ⟨service, same⟩ := word32_selfDelimiting trivial trivial same
  obtain ⟨codeHash, same⟩ := hash_selfDelimiting trivial trivial same
  obtain ⟨payload, same⟩ := encodeVariable_selfDelimiting fits.payload fits'.payload same
  obtain ⟨refineGas, same⟩ := word64_selfDelimiting trivial trivial same
  obtain ⟨accumulateGas, same⟩ := word64_selfDelimiting trivial trivial same
  obtain ⟨imports, same⟩ := ImportSpec.encode_selfDelimiting.encodeSequence
    ⟨fits.imports, fun _ _ => trivial⟩ ⟨fits'.imports, fun _ _ => trivial⟩ same
  obtain ⟨extrinsics, same⟩ := ExtrinsicSpec.encode_selfDelimiting.encodeSequence
    ⟨fits.extrinsics, fun _ _ => trivial⟩ ⟨fits'.extrinsics, fun _ _ => trivial⟩ same
  obtain ⟨exports, same⟩ := word16_selfDelimiting trivial trivial same
  cases w
  cases w'
  simp_all

theorem WorkPackage.encode_selfDelimiting : SelfDelimiting Fits encode := by
  intro p p' fits fits' s u same
  simp only [encode, Array.append_assoc] at same
  obtain ⟨authorization, same⟩ :=
    encodeVariable_selfDelimiting fits.authorization fits'.authorization same
  obtain ⟨host, same⟩ := word32_selfDelimiting trivial trivial same
  obtain ⟨codeHash, same⟩ := hash_selfDelimiting trivial trivial same
  obtain ⟨config, same⟩ :=
    encodeVariable_selfDelimiting fits.authorizerConfig fits'.authorizerConfig same
  obtain ⟨context, same⟩ := WorkContext.encode_selfDelimiting fits.context fits'.context same
  obtain ⟨items, same⟩ := WorkItem.encode_selfDelimiting.encodeSequence fits.items fits'.items same
  cases p
  cases p'
  simp_all

theorem Operand.encode_selfDelimiting : SelfDelimiting Fits encode := by
  intro o o' fits fits' s u same
  simp only [encode, Array.append_assoc] at same
  obtain ⟨packageHash, same⟩ := hash_selfDelimiting trivial trivial same
  obtain ⟨segmentRoot, same⟩ := hash_selfDelimiting trivial trivial same
  obtain ⟨authorizerHash, same⟩ := hash_selfDelimiting trivial trivial same
  obtain ⟨authOutput, same⟩ := encodeVariable_selfDelimiting fits.authOutput fits'.authOutput same
  obtain ⟨payloadHash, same⟩ := hash_selfDelimiting trivial trivial same
  obtain ⟨gasLimit, same⟩ := encodeNatural_selfDelimiting trivial trivial same
  obtain ⟨result, same⟩ := WorkResult.encode_selfDelimiting fits.result fits'.result same
  cases o
  cases o'
  simp_all

theorem Transfer.FullMemo.resize_memo {t : Transfer} (full : t.FullMemo) : t.memo.resize memoSize = t.memo := by
  rw [FullMemo] at full
  simp [Bytes.resize, Bytes.zeros, ← full]

theorem Transfer.encode_selfDelimiting : SelfDelimiting FullMemo encode := by
  intro t t' full full' s u same
  simp only [encode, Array.append_assoc, full.resize_memo, full'.resize_memo] at same
  obtain ⟨source, same⟩ := word32_selfDelimiting trivial trivial same
  obtain ⟨destination, same⟩ := word32_selfDelimiting trivial trivial same
  obtain ⟨amount, same⟩ := word64_selfDelimiting trivial trivial same
  obtain ⟨memo, same⟩ := Array.append_inj same (full.trans full'.symm)
  obtain ⟨gasLimit, same⟩ := word64_selfDelimiting trivial trivial same
  cases t
  cases t'
  simp_all

/-! ## What guests and hashes rely on -/

/-- No record is taken for another. A string that begins with the encoding of a package, an item, a
context, an operand or a result, or with that of a list of operands or of transfers with full memos, has
one such beginning only, and the record and the rest of the string are determined by it. Hence packages
that differ are never hashed from the same bytes. -/
theorem records_told_apart :
    SelfDelimiting WorkPackage.Fits WorkPackage.encode ∧
    SelfDelimiting WorkItem.Fits WorkItem.encode ∧
    SelfDelimiting WorkContext.Fits WorkContext.encode ∧
    SelfDelimiting Operand.Fits Operand.encode ∧
    SelfDelimiting WorkResult.Fits WorkResult.encode ∧
    SelfDelimiting (FitAll Operand.Fits) (fun operands => encodeSequence (operands.map Operand.encode)) ∧
    SelfDelimiting (FitAll Transfer.FullMemo)
      (fun transfers => encodeSequence (transfers.map Transfer.encode)) ∧
    (∀ p : WorkPackage, p.hash = Blake2b.digest p.encode) ∧
    ∀ p q : WorkPackage, p.Fits → q.Fits → p ≠ q → p.encode ≠ q.encode := by
  refine ⟨WorkPackage.encode_selfDelimiting, WorkItem.encode_selfDelimiting,
    WorkContext.encode_selfDelimiting, Operand.encode_selfDelimiting, WorkResult.encode_selfDelimiting,
    Operand.encode_selfDelimiting.encodeSequence, Transfer.encode_selfDelimiting.encodeSequence,
    fun _ => rfl, ?_⟩
  intro p q fits fits' differ same
  exact differ (WorkPackage.encode_selfDelimiting.injective fits fits' same)

/-- An item with a payload that imports a segment and refers to two extrinsics. -/
def importingItem : WorkItem where
  service := 7
  payload := #[1, 2, 3]
  imports := #[⟨Hash.zero, 3⟩]
  extrinsics := #[⟨Hash.zero, 4⟩, ⟨Hash.zero, 5⟩]

/-- The item with one more import in the place of an extrinsic. -/
def reimportingItem : WorkItem :=
  { importingItem with imports := #[⟨Hash.zero, 3⟩, ⟨Hash.zero, 4⟩], extrinsics := #[⟨Hash.zero, 5⟩] }

/-- A package with such an item, built upon another package. -/
def importingPackage (item : WorkItem) : WorkPackage where
  authorization := #[5]
  authorizerConfig := #[6, 7]
  context := { prerequisites := #[Hash.zero] }
  items := #[item, {}]

theorem importingPackage_fits {item : WorkItem} (fits : item.Fits) : (importingPackage item).Fits where
  authorization := show 1 < UInt64.size by decide
  authorizerConfig := show 2 < UInt64.size by decide
  context := show 1 < UInt64.size by decide
  items := by
    have other : ({} : WorkItem).Fits := ⟨by decide, by decide, by decide⟩
    exact ⟨show 2 < UInt64.size by decide, by simp [importingPackage, fits, other]⟩

theorem importingPackage_told_apart :
    (importingPackage importingItem).Fits ∧ (importingPackage reimportingItem).Fits ∧
      ∀ s u, (importingPackage importingItem).encode ++ s ≠ (importingPackage reimportingItem).encode ++ u := by
  have fits : (importingPackage importingItem).Fits :=
    importingPackage_fits ⟨by decide, by decide, by decide⟩
  have fits' : (importingPackage reimportingItem).Fits :=
    importingPackage_fits ⟨by decide, by decide, by decide⟩
  refine ⟨fits, fits', fun s u same => ?_⟩
  exact absurd (records_told_apart.1 fits fits' same).1 (by decide)

end ServiceVm
