import ServiceVm.Memory.Mapping

/-!
# What operations do to the pages of a memory

A memory shows the rights of its pages and the byte at every address. Each operation is described by
what it does to these two, so that the loops over pages are opened only here. `Memory.WellFormed` says
that no page is stored past the end of the address space, and that the data of a page is that of all of
the page unless it was never written.
-/
namespace ServiceVm

namespace Bytes

theorem getD_extract (data : Bytes) {start stop place : Nat} (inside : place < stop - start) :
    (data.extract start stop).getD place 0 = data.getD (start + place) 0 := by
  simp only [Array.getD_eq_getD_getElem?, Array.getElem?_extract]
  split
  · rfl
  · rw [Array.getElem?_eq_none (by omega)]

theorem getD_append (data rest : Bytes) (place : Nat) :
    (data ++ rest).getD place 0 =
      if place < data.size then data.getD place 0 else rest.getD (place - data.size) 0 := by
  simp only [Array.getD_eq_getD_getElem?, Array.getElem?_append]
  split <;> rfl

theorem getD_of_size_le {data : Bytes} {place : Nat} (past : data.size ≤ place) : data.getD place 0 = 0 := by
  rw [Array.getD_eq_getD_getElem?, Array.getElem?_eq_none past]
  rfl

theorem getD_zeros (len place : Nat) : (zeros len).getD place 0 = 0 := by
  simp only [zeros, Array.getD_eq_getD_getElem?, Array.getElem?_replicate]
  split <;> rfl

theorem getD_resize (data : Bytes) (len place : Nat) :
    (data.resize len).getD place 0 = if place < len then data.getD place 0 else 0 := by
  have size : (data.extract 0 len).size = min len data.size := by simp
  rw [resize, getD_append, getD_zeros]
  by_cases stored : place < (data.extract 0 len).size
  · rw [if_pos stored, if_pos (by omega), getD_extract data (by omega), Nat.zero_add]
  · rw [if_neg stored]
    by_cases inside : place < len
    · rw [if_pos inside, getD_of_size_le (by omega)]
    · rw [if_neg inside]

theorem getD_overwrite (data part : Bytes) (offset place : Nat) :
    (data.overwrite offset part).getD place 0 =
      if offset ≤ place ∧ place < offset + part.size then part.getD (place - offset) 0
      else data.getD place 0 := by
  rw [overwrite, getD_append, getD_append, Array.size_append, size_resize]
  by_cases low : place < offset
  · rw [if_pos (by omega), if_pos low, if_neg (by omega), getD_resize, if_pos low]
  · by_cases high : place < offset + part.size
    · rw [if_pos high, if_neg low, if_pos (by omega)]
    · rw [if_neg high, if_neg (by omega), drop]
      by_cases stored : place < data.size
      · rw [getD_extract data (by omega), Nat.add_sub_cancel' (Nat.le_of_not_lt high)]
      · rw [getD_of_size_le (by simp; omega), getD_of_size_le (Nat.le_of_not_lt stored)]

theorem size_overwrite {data part : Bytes} {offset : Nat} (inside : offset + part.size ≤ data.size) :
    (data.overwrite offset part).size = data.size := by
  simp only [overwrite, drop, Array.size_append, size_resize, Array.size_extract]
  omega

end Bytes

theorem pageOf_eq_iff (a k : Nat) : pageOf a = k ↔ k * pageSize ≤ a ∧ a < k * pageSize + pageSize := by
  simp only [pageOf, pageSize]
  omega

/-- Whether a page has an address in `[start, stop)`. -/
def Touches (start stop k : Nat) : Prop := ∃ a, start ≤ a ∧ a < stop ∧ pageOf a = k

theorem touches_iff (start stop k : Nat) :
    Touches start stop k ↔ start < stop ∧ pageOf start ≤ k ∧ k < pageOf (stop - 1) + 1 := by
  constructor
  · rintro ⟨a, low, high, rfl⟩
    exact ⟨by omega, Nat.div_le_div_right low, Nat.lt_succ_of_le (Nat.div_le_div_right (by omega))⟩
  · rintro ⟨nonempty, low, high⟩
    simp only [pageOf, pageSize] at low high
    refine ⟨max start (k * pageSize), by omega, ?_, ?_⟩
    · simp only [pageSize]
      omega
    · simp only [pageOf, pageSize]
      omega

instance (start stop k : Nat) : Decidable (Touches start stop k) :=
  decidable_of_iff _ (touches_iff start stop k).symm

theorem Access.isWriteable_eq_true {access : Access} : access.isWriteable = true ↔ access = .readWrite := by
  cases access <;> simp [isWriteable]

theorem mod_pageSize (a : Nat) : a % pageSize = a - pageOf a * pageSize := by
  simp only [pageOf, pageSize]
  omega

namespace Page

variable {p : Page} {offset : Nat} {part : Bytes}

theorem byte_eq_getD (p : Page) (place : Nat) : p.byte place = p.data.getD place 0 := by
  rw [byte]
  split
  · rename_i nothing
    rw [Array.isEmpty_iff.mp nothing]
    rfl
  · rfl

theorem byte_clear (p : Page) (place : Nat) : p.clear.byte place = 0 := by
  rw [byte_eq_getD, clear, Bytes.getD_zeros]

theorem access_remap (access : Access) (clears : Bool) (p : Page) : (p.remap access clears).access = access := by
  cases clears <;> rfl

theorem byte_remap (access : Access) (clears : Bool) (p : Page) (place : Nat) :
    (p.remap access clears).byte place = if clears then 0 else p.byte place := by
  cases clears with
  | true => exact byte_clear _ place
  | false => rfl

theorem getD_materialised (p : Page) (place : Nat) : p.materialised.getD place 0 = p.byte place := by
  rw [byte_eq_getD, materialised]
  split
  · rename_i nothing
    have none : p.data.getD place 0 = 0 := by rw [Array.isEmpty_iff.mp nothing]; rfl
    rw [Bytes.getD_resize, none, ite_self]
  · rfl

theorem byte_write (p : Page) (offset : Nat) (part : Bytes) (place : Nat) :
    (p.write offset part).byte place =
      if offset ≤ place ∧ place < offset + part.size then part.getD (place - offset) 0
      else p.byte place := by
  rw [byte_eq_getD, write, Bytes.getD_overwrite, getD_materialised]

/-- The page has no data, or a byte for each of its places. -/
def Sized (p : Page) : Prop := p.data.size = 0 ∨ p.data.size = pageSize

theorem sized_zeroed (access : Access) : (zeroed access).Sized := .inl rfl

theorem Sized.clear (sized : p.Sized) : p.clear.Sized := by
  simpa [Sized, Page.clear, Bytes.zeros] using sized

theorem Sized.remap (sized : p.Sized) (access : Access) (clears : Bool) : (p.remap access clears).Sized := by
  cases clears with
  | true => exact clear (p := { p with access }) sized
  | false => exact sized

theorem Sized.size_materialised (sized : p.Sized) : p.materialised.size = pageSize := by
  rw [materialised]
  split
  · exact Bytes.size_resize p.data pageSize
  · rename_i something
    exact sized.resolve_left fun nothing => something (by simpa using nothing)

theorem Sized.write (sized : p.Sized) (inside : offset + part.size ≤ pageSize) : (p.write offset part).Sized := by
  have whole := sized.size_materialised
  exact .inr ((Bytes.size_overwrite (by omega)).trans whole)

end Page

namespace Memory

/-- The page with a number; one that is not stored counts as inaccessible zeros. -/
def page (m : Memory) (k : Nat) : Page := m.pages[k]?.getD (Page.zeroed .none)

/-- Every stored page lies in the address space, and has no data or all of it. -/
def WellFormed (m : Memory) : Prop := ∀ k p, m.pages[k]? = some p → k < pageCount ∧ p.Sized

theorem wellFormed_empty : empty.WellFormed := by
  intro k p stored
  simp [empty] at stored

variable {m : Memory}

theorem access_eq (m : Memory) (k : Nat) : m.access k = (m.page k).access := by
  rw [access, page]
  cases m.pages[k]? <;> rfl

theorem byte_eq (m : Memory) (a : Nat) : m.byte a = (m.page (pageOf a)).byte (a % pageSize) := by
  rw [byte, page]
  cases m.pages[pageOf a]? <;> rfl

theorem WellFormed.access_eq_none (wellFormed : m.WellFormed) {k : Nat} (past : pageCount ≤ k) :
    m.access k = .none := by
  rw [access]
  cases stored : m.pages[k]? with
  | some p => exact absurd (wellFormed k p stored).1 (Nat.not_lt.mpr past)
  | none => rfl

theorem WellFormed.sized_page (wellFormed : m.WellFormed) (k : Nat) : (m.page k).Sized := by
  rw [page]
  cases stored : m.pages[k]? with
  | some p => exact (wellFormed k p stored).2
  | none => exact Page.sized_zeroed .none

/-! ## Changing one page -/

/-- The memory once page `k` has been changed. -/
def changePage (m : Memory) (k : Nat) (change : Page → Page) : Memory :=
  { m with pages := m.pages.alter k fun stored => some (change (stored.getD (Page.zeroed .none))) }

theorem getElem?_changePage (m : Memory) (k other : Nat) (change : Page → Page) :
    (m.changePage k change).pages[other]? =
      if k = other then some (change (m.page other)) else m.pages[other]? := by
  rw [changePage, Std.TreeMap.getElem?_alter, page]
  by_cases same : k = other
  · subst same
    rw [if_pos Std.ReflCmp.compare_self, if_pos rfl]
  · rw [if_neg same, if_neg fun equal => same (Std.LawfulEqOrd.eq_of_compare equal)]

theorem page_changePage (m : Memory) (k other : Nat) (change : Page → Page) :
    (m.changePage k change).page other = if k = other then change (m.page other) else m.page other := by
  rw [page, getElem?_changePage]
  split
  · rfl
  · rfl

theorem WellFormed.changePage (wellFormed : m.WellFormed) {change : Page → Page} {k : Nat}
    (keeps : ∀ p : Page, p.Sized → (change p).Sized) (inside : k < pageCount) :
    (m.changePage k change).WellFormed := by
  intro other p stored
  rw [getElem?_changePage] at stored
  split at stored
  · rename_i same
    obtain rfl := Option.some.inj stored
    exact ⟨same ▸ inside, keeps _ (wellFormed.sized_page other)⟩
  · exact wellFormed other p stored

/-! ## Changing a range of pages -/

/-- The memory once `count` pages from `first` on have been changed. -/
def changePages (m : Memory) (change : Page → Page) (count first : Nat) : Memory :=
  { m with pages := updatePages m.pages change count first }

theorem changePages_succ (m : Memory) (change : Page → Page) (count first : Nat) :
    m.changePages change (count + 1) first =
      (m.changePage first change).changePages change count (first + 1) := rfl

theorem getElem?_changePages (m : Memory) (change : Page → Page) (count first k : Nat) :
    (m.changePages change count first).pages[k]? =
      if first ≤ k ∧ k < first + count then some (change (m.page k)) else m.pages[k]? := by
  induction count generalizing m first with
  | zero => rw [if_neg (by omega)]; rfl
  | succ count ih =>
    rw [changePages_succ, ih, page_changePage, getElem?_changePage]
    by_cases here : first = k
    · rw [if_neg (by omega), if_pos here, if_pos (by omega)]
    · rw [if_neg here, if_neg here]
      by_cases later : first + 1 ≤ k ∧ k < first + 1 + count
      · rw [if_pos later, if_pos (by omega)]
      · rw [if_neg later, if_neg (by omega)]

theorem page_changePages (m : Memory) (change : Page → Page) (count first k : Nat) :
    (m.changePages change count first).page k =
      if first ≤ k ∧ k < first + count then change (m.page k) else m.page k := by
  rw [page, getElem?_changePages]
  split
  · rfl
  · rfl

theorem WellFormed.changePages (wellFormed : m.WellFormed) {change : Page → Page} {count first : Nat}
    (keeps : ∀ p : Page, p.Sized → (change p).Sized) (fits : count = 0 ∨ first + count ≤ pageCount) :
    (m.changePages change count first).WellFormed := by
  induction count generalizing m first with
  | zero => exact wellFormed
  | succ count ih => exact ih (wellFormed.changePage keeps (by omega)) (by omega)

/-! ## Writing -/

/-- The memory once `data` from `first` on has been written to `count` pages, beginning at place `offset`
of page `k`. -/
def fill (m : Memory) (data : Bytes) (count k offset first : Nat) : Memory :=
  { m with pages := writePages m.pages data count k offset first }

/-- Number of bytes that go to the first page. -/
def chunk (data : Bytes) (offset first : Nat) : Nat := min (pageSize - offset) (data.size - first)

def part (data : Bytes) (offset first : Nat) : Bytes := data.extract first (first + chunk data offset first)

theorem size_part (data : Bytes) (offset first : Nat) : (part data offset first).size = chunk data offset first := by
  simp only [part, chunk, Array.size_extract]
  omega

theorem fill_succ (m : Memory) (data : Bytes) (count k offset first : Nat) :
    m.fill data (count + 1) k offset first =
      (m.changePage k fun p => p.write offset (part data offset first)).fill
        data count (k + 1) 0 (first + chunk data offset first) := rfl

theorem access_fill (m : Memory) (data : Bytes) (count k offset first other : Nat) :
    (m.fill data count k offset first).access other = m.access other := by
  induction count generalizing m k offset first with
  | zero => rfl
  | succ count ih =>
    rw [fill_succ, ih, access_eq, access_eq, page_changePage]
    split
    · rfl
    · rfl

theorem WellFormed.fill (wellFormed : m.WellFormed) (data : Bytes) {count k offset : Nat} (first : Nat)
    (inside : offset ≤ pageSize) (fits : count = 0 ∨ k + count ≤ pageCount) :
    (m.fill data count k offset first).WellFormed := by
  induction count generalizing m k offset first with
  | zero => exact wellFormed
  | succ count ih =>
    have size := size_part data offset first
    have onPage : offset + (part data offset first).size ≤ pageSize := by
      rw [size, chunk]
      omega
    exact ih (wellFormed.changePage (fun p sized => sized.write onPage) (by omega)) _ (Nat.zero_le _) (by omega)

theorem byte_changePage_write (m : Memory) (k a : Nat) {offset : Nat} {part : Bytes}
    (inside : offset + part.size ≤ pageSize) :
    (m.changePage k fun p => p.write offset part).byte a =
      if k * pageSize + offset ≤ a ∧ a < k * pageSize + offset + part.size then
        part.getD (a - (k * pageSize + offset)) 0
      else m.byte a := by
  have onPage := pageOf_eq_iff a k
  rw [byte_eq, byte_eq, page_changePage]
  by_cases here : k = pageOf a
  · have place : a % pageSize = a - k * pageSize := by rw [here, mod_pageSize]
    obtain ⟨low, high⟩ := onPage.mp here.symm
    rw [if_pos here, Page.byte_write, place]
    by_cases copied : offset ≤ a - k * pageSize ∧ a - k * pageSize < offset + part.size
    · rw [if_pos copied, if_pos (by omega), Nat.sub_sub]
    · rw [if_neg copied, if_neg (by omega)]
  · have elsewhere : ¬(k * pageSize ≤ a ∧ a < k * pageSize + pageSize) := fun on => here (onPage.mpr on).symm
    rw [if_neg here, if_neg (by omega)]

theorem byte_fill (m : Memory) (data : Bytes) (count k offset first a : Nat) (inside : offset ≤ pageSize) :
    (m.fill data count k offset first).byte a =
      if k * pageSize + offset ≤ a ∧ a < k * pageSize + offset + (data.size - first) ∧
          a < (k + count) * pageSize then
        data.getD (first + (a - (k * pageSize + offset))) 0
      else m.byte a := by
  induction count generalizing m k offset first with
  | zero =>
    rw [Nat.add_zero, if_neg (by omega)]
    rfl
  | succ count ih =>
    -- A chunk either reaches the end of its page or is the last one.
    have cut : chunk data offset first = min (pageSize - offset) (data.size - first) := rfl
    have size := size_part data offset first
    have next : (k + 1) * pageSize = k * pageSize + pageSize := Nat.succ_mul k pageSize
    have stop : (k + (count + 1)) * pageSize = (k + 1 + count) * pageSize := by rw [Nat.add_right_comm k 1 count]; rfl
    have order : (k + 1) * pageSize ≤ (k + 1 + count) * pageSize :=
      Nat.mul_le_mul_right pageSize (Nat.le_add_right (k + 1) count)
    rw [fill_succ, ih _ _ _ _ (Nat.zero_le _), byte_changePage_write _ _ _ (by omega), Nat.add_zero, stop, size]
    by_cases later : (k + 1) * pageSize ≤ a ∧
        a < (k + 1) * pageSize + (data.size - (first + chunk data offset first)) ∧
        a < (k + 1 + count) * pageSize
    · have same : first + chunk data offset first + (a - (k + 1) * pageSize) =
          first + (a - (k * pageSize + offset)) := by omega
      rw [if_pos later, if_pos (by omega), same]
    · rw [if_neg later]
      by_cases here : k * pageSize + offset ≤ a ∧ a < k * pageSize + offset + chunk data offset first
      · rw [if_pos here, if_pos (by omega), part, Bytes.getD_extract _ (by omega)]
      · rw [if_neg here, if_neg (by omega)]

theorem le_of_pagesTouched (start : Nat) {len : Nat} (nonempty : 0 < len) :
    start + len ≤ (pageOf start + pagesTouched start len) * pageSize := by
  simp only [pagesTouched, pageOf, pageSize]
  omega

theorem write_eq (m : Memory) (start : Nat) (data : Bytes) :
    m.write start data =
      if (data.extract 0 (addressSpace - start)).size = 0 then m
      else m.fill (data.extract 0 (addressSpace - start))
        (pagesTouched start (data.extract 0 (addressSpace - start)).size) (pageOf start)
        (start % pageSize) 0 := rfl

theorem access_write (m : Memory) (start : Nat) (data : Bytes) (k : Nat) :
    (m.write start data).access k = m.access k := by
  rw [write_eq]
  split
  · rfl
  · exact m.access_fill _ _ _ _ _ k

theorem heapPointer_write (m : Memory) (start : Nat) (data : Bytes) :
    (m.write start data).heapPointer = m.heapPointer := by
  rw [write_eq]
  split
  · rfl
  · rfl

theorem byte_write (m : Memory) (start : Nat) (data : Bytes) (a : Nat) :
    (m.write start data).byte a =
      if start ≤ a ∧ a < min (start + data.size) addressSpace then data.getD (a - start) 0 else m.byte a := by
  have size : (data.extract 0 (addressSpace - start)).size = min (addressSpace - start) data.size := by simp
  rw [write_eq]
  split
  · rename_i nothing
    rw [if_neg (by omega)]
  · rename_i something
    have place : pageOf start * pageSize + start % pageSize = start := Nat.div_add_mod' start pageSize
    have reach := le_of_pagesTouched start (Nat.pos_of_ne_zero something)
    have offset : start % pageSize < pageSize := Nat.mod_lt start (by decide)
    rw [byte_fill _ _ _ _ _ _ _ (Nat.le_of_lt offset), place]
    by_cases inside : start ≤ a ∧ a < min (start + data.size) addressSpace
    · rw [if_pos inside, if_pos (by omega), Nat.zero_add, Bytes.getD_extract _ (by omega), Nat.zero_add]
    · rw [if_neg inside, if_neg (by omega)]

theorem WellFormed.write (wellFormed : m.WellFormed) (start : Nat) (data : Bytes) :
    (m.write start data).WellFormed := by
  have size : (data.extract 0 (addressSpace - start)).size = min (addressSpace - start) data.size := by simp
  have offset : start % pageSize < pageSize := Nat.mod_lt start (by decide)
  rw [write_eq]
  split
  · exact wellFormed
  · rename_i something
    refine wellFormed.fill _ _ (Nat.le_of_lt offset) (.inr ?_)
    generalize (data.extract 0 (addressSpace - start)).size = len at size something
    simp only [pagesTouched, pageOf, pageSize, pageCount, addressSpace] at size ⊢
    omega

/-! ## Mapping -/

theorem access_changePages (m : Memory) (change : Page → Page) (count first k : Nat) :
    (m.changePages change count first).access k =
      if first ≤ k ∧ k < first + count then (change (m.page k)).access else m.access k := by
  rw [access_eq, access_eq, page_changePages]
  split
  · rfl
  · rfl

theorem byte_changePages (m : Memory) (change : Page → Page) (count first a : Nat) :
    (m.changePages change count first).byte a =
      if first ≤ pageOf a ∧ pageOf a < first + count then (change (m.page (pageOf a))).byte (a % pageSize)
      else m.byte a := by
  rw [byte_eq, byte_eq, page_changePages]
  split
  · rfl
  · rfl

theorem touches_clipped (start stop k : Nat) (order : start < stop) :
    Touches start (min stop addressSpace) k ↔
      pageOf start ≤ k ∧ k < pageOf start + (pageOf (min stop addressSpace - 1) + 1 - pageOf start) := by
  rw [touches_iff]
  simp only [pageOf, pageSize, addressSpace]
  omega

/-- The memory an allocation leads to, with no room for content past the address space. -/
def place (m : Memory) (start stop : Nat) (content : Bytes) (access : Access) : Memory :=
  if stop ≤ start then m
  else
    let mapped := m.changePages (Page.remap access !content.isEmpty)
      (pageOf (min stop addressSpace - 1) + 1 - pageOf start) (pageOf start)
    mapped.write start (content.extract 0 (min content.size (min stop addressSpace - start)))

/-- Content that is allocated past the address space has no room, and makes the allocation fail. -/
theorem allocate_eq (m : Memory) (start stop : Nat) (content : Bytes) (access : Access) :
    m.allocate start stop content access =
      if start < stop ∧ addressSpace < start ∧ content.isEmpty = false then none
      else some (m.place start stop content access) := by
  rw [allocate, place]
  by_cases nothing : stop ≤ start
  · simp [nothing, Nat.not_lt.mpr nothing]
  · have order : start < stop := Nat.lt_of_not_le nothing
    cases given : content.isEmpty with
    | true => simp [nothing, Array.isEmpty_iff.mp given, write_eq, changePages]
    | false =>
      have past : min stop addressSpace < start ↔ addressSpace < start := by omega
      simp [nothing, order, past, changePages]

/-- An allocation that starts inside the address space succeeds. -/
theorem allocate_of_le {m : Memory} {start : Nat} (stop : Nat) (content : Bytes) (access : Access)
    (inside : start ≤ addressSpace) :
    m.allocate start stop content access = some (m.place start stop content access) := by
  rw [allocate_eq, if_neg (by omega)]

theorem place_of_allocate {m m' : Memory} {start stop : Nat} {content : Bytes} {access : Access}
    (done : m.allocate start stop content access = some m') : m.place start stop content access = m' := by
  rw [allocate_eq] at done
  split at done
  · contradiction
  · exact Option.some.inj done

/-- Allocation sets the rights of the pages it touches. -/
theorem access_place (m : Memory) (start stop : Nat) (content : Bytes) (access : Access) (k : Nat) :
    (m.place start stop content access).access k =
      if Touches start (min stop addressSpace) k then access else m.access k := by
  rw [place]
  by_cases empty : stop ≤ start
  · have untouched : ¬Touches start (min stop addressSpace) k := by
      rintro ⟨a, low, high, -⟩
      omega
    rw [if_pos empty, if_neg untouched]
  · simp only [if_neg empty, touches_clipped start stop k (Nat.not_le.mp empty), access_write,
      access_changePages, Page.access_remap]

/-- Allocation with content makes the touched pages zero but for what it copies to their start. -/
theorem byte_place (m : Memory) (start stop : Nat) (content : Bytes) (access : Access) (a : Nat) :
    (m.place start stop content access).byte a =
      if content.isEmpty = false ∧ Touches start (min stop addressSpace) (pageOf a) then
        if start ≤ a ∧ a < min (start + content.size) (min stop addressSpace) then content.getD (a - start) 0
        else 0
      else m.byte a := by
  rw [place]
  by_cases empty : stop ≤ start
  · have untouched : ¬Touches start (min stop addressSpace) (pageOf a) := by
      rintro ⟨other, low, high, -⟩
      omega
    rw [if_pos empty, if_neg fun both => untouched both.2]
  · have size : (content.extract 0 (min content.size (min stop addressSpace - start))).size =
        min (min stop addressSpace - start) content.size := by
      simp only [Array.size_extract]
      omega
    simp only [if_neg empty, byte_write, byte_changePages, Page.byte_remap, size,
      ← touches_clipped start stop _ (Nat.not_le.mp empty)]
    cases given : content.isEmpty with
    | true =>
      have none : content.size = 0 := by simpa using given
      simp only [Bool.not_true, Bool.false_eq_true, Bool.true_eq_false, false_and, if_false, ite_self, ← byte_eq]
      rw [if_neg (by omega)]
    | false =>
      by_cases copied : start ≤ a ∧ a < min (start + content.size) (min stop addressSpace)
      · have touched : Touches start (min stop addressSpace) (pageOf a) := ⟨a, copied.1, by omega, rfl⟩
        rw [if_pos (by omega), if_pos ⟨rfl, touched⟩, if_pos copied, Bytes.getD_extract _ (by omega), Nat.zero_add]
      · rw [if_neg (by omega), if_neg copied]
        simp

theorem byte_place_empty (m : Memory) (start stop : Nat) {content : Bytes} (access : Access)
    (nothing : content.isEmpty = true) (a : Nat) :
    (m.place start stop content access).byte a = m.byte a := by
  simp [byte_place, nothing]

theorem heapPointer_place (m : Memory) (start stop : Nat) (content : Bytes) (access : Access) :
    (m.place start stop content access).heapPointer = m.heapPointer := by
  rw [place]
  split
  · rfl
  · exact heapPointer_write _ _ _

theorem WellFormed.mapped (wellFormed : m.WellFormed) (start stop : Nat) (access : Access) (clears : Bool) :
    (m.changePages (Page.remap access clears) (pageOf (min stop addressSpace - 1) + 1 - pageOf start)
      (pageOf start)).WellFormed := by
  refine wellFormed.changePages (fun p sized => sized.remap access clears) ?_
  simp only [pageOf, pageSize, pageCount, addressSpace]
  omega

theorem WellFormed.place (wellFormed : m.WellFormed) (start stop : Nat) (content : Bytes) (access : Access) :
    (m.place start stop content access).WellFormed := by
  rw [Memory.place]
  split
  · exact wellFormed
  · exact (wellFormed.mapped start stop access _).write _ _

theorem setPages_eq (m : Memory) (first count : Nat) (access : Access) (zero : Bool) :
    m.setPages first count access zero =
      m.changePages (Page.remap access zero) (min (first + count) pageCount - first) first := rfl

theorem access_setPages (m : Memory) (first count : Nat) (access : Access) (zero : Bool) (k : Nat) :
    (m.setPages first count access zero).access k =
      if first ≤ k ∧ k < min (first + count) pageCount then access else m.access k := by
  rw [setPages_eq, access_changePages, Page.access_remap]
  by_cases inside : first ≤ k ∧ k < min (first + count) pageCount
  · rw [if_pos inside, if_pos (by omega)]
  · rw [if_neg inside, if_neg (by omega)]

theorem byte_setPages (m : Memory) (first count : Nat) (access : Access) (zero : Bool) (a : Nat) :
    (m.setPages first count access zero).byte a =
      if zero = true ∧ first ≤ pageOf a ∧ pageOf a < min (first + count) pageCount then 0 else m.byte a := by
  rw [setPages_eq, byte_changePages, Page.byte_remap, ← byte_eq]
  by_cases inside : first ≤ pageOf a ∧ pageOf a < min (first + count) pageCount
  · rw [if_pos (by omega)]
    simp [inside]
  · rw [if_neg (by omega), if_neg fun cleared => inside cleared.2]

theorem WellFormed.setPages (wellFormed : m.WellFormed) (first count : Nat) (access : Access) (zero : Bool) :
    (m.setPages first count access zero).WellFormed := by
  rw [setPages_eq]
  exact wellFormed.changePages (fun p sized => sized.remap access zero) (by omega)

/-! ## Checking a range -/

theorem refusedPage?_eq_none (m : Memory) (allowed : Access → Bool) (count first : Nat) :
    m.refusedPage? allowed count first = none ↔
      ∀ k, first ≤ k → k < first + count → allowed (m.access k) = true := by
  induction count generalizing first with
  | zero =>
    rw [refusedPage?]
    exact ⟨fun _ k low high => by omega, fun _ => rfl⟩
  | succ count ih =>
    rw [refusedPage?]
    by_cases here : allowed (m.access first) = true
    · rw [if_pos here, ih]
      constructor
      · intro rest k low high
        by_cases same : first = k
        · exact same ▸ here
        · exact rest k (by omega) (by omega)
      · intro all k low high
        exact all k (by omega) (by omega)
    · rw [if_neg here]
      exact ⟨fun refused => by contradiction, fun all => absurd (all first (by omega) (by omega)) here⟩

theorem refusedPage?_eq_some {m : Memory} {allowed : Access → Bool} {count first k : Nat} (low : first ≤ k)
    (high : k < first + count) (refused : ¬allowed (m.access k) = true)
    (before : ∀ j, first ≤ j → j < k → allowed (m.access j) = true) :
    m.refusedPage? allowed count first = some k := by
  induction count generalizing first with
  | zero => omega
  | succ count ih =>
    rw [refusedPage?]
    by_cases same : first = k
    · subst same
      rw [if_neg refused]
    · rw [if_pos (before first (by omega) (by omega))]
      exact ih (by omega) (by omega) fun j above below => before j (by omega) below

theorem refusedPage?_found {m : Memory} {allowed : Access → Bool} {count first k : Nat}
    (found : m.refusedPage? allowed count first = some k) :
    first ≤ k ∧ k < first + count ∧ allowed (m.access k) = false ∧
      ∀ j, first ≤ j → j < k → allowed (m.access j) = true := by
  induction count generalizing first with
  | zero => simp [refusedPage?] at found
  | succ count ih =>
    rw [refusedPage?] at found
    split at found
    · rename_i here
      obtain ⟨low, high, refused, before⟩ := ih found
      refine ⟨by omega, by omega, refused, fun j above below => ?_⟩
      by_cases same : first = j
      · exact same ▸ here
      · exact before j (by omega) below
    · rename_i here
      obtain rfl : first = k := Option.some.inj found
      exact ⟨by omega, by omega, by simpa using here, fun j above below => by omega⟩

theorem touches_iff_pagesTouched (start : Nat) {len : Nat} (nonempty : 0 < len) (k : Nat) :
    Touches start (start + len) k ↔ pageOf start ≤ k ∧ k < pageOf start + pagesTouched start len := by
  have pages : pageOf start ≤ pageOf (start + len - 1) := Nat.div_le_div_right (by omega)
  rw [touches_iff, pagesTouched]
  omega

/-- A range passes if it is empty, or stays inside the address space and touches allowed pages only. -/
theorem refusal?_eq_none (m : Memory) (allowed : Access → Bool) (start len : Nat) :
    m.refusal? allowed start len = none ↔
      (len = 0 ∨ start + len ≤ addressSpace) ∧
        ∀ k, Touches start (start + len) k → allowed (m.access k) = true := by
  rw [refusal?]
  by_cases empty : len = 0
  · rw [if_pos empty]
    refine ⟨fun _ => ⟨.inl empty, ?_⟩, fun _ => rfl⟩
    rintro k ⟨a, low, high, -⟩
    omega
  · rw [if_neg empty]
    by_cases inRange : start + len ≤ addressSpace
    · rw [if_pos (show InRange start len from inRange), Option.map_eq_none_iff, refusedPage?_eq_none]
      simp only [touches_iff_pagesTouched start (Nat.pos_of_ne_zero empty), inRange, or_true, true_and, and_imp]
    · rw [if_neg (show ¬InRange start len from inRange)]
      simp [empty, inRange]

/-- Whether an access to `[start, start + len)` is refused at `b`: at the start of the lowest page it touches
that is not allowed, or of the last page of all if the range leaves the address space. -/
def RefusedAt (m : Memory) (allowed : Access → Bool) (start len b : Nat) : Prop :=
  (addressSpace < start + len ∧ b = 0xfffff000) ∨
    (start + len ≤ addressSpace ∧ ∃ k, b = k * pageSize ∧ Touches start (start + len) k ∧
      allowed (m.access k) = false ∧
      ∀ j, j < k → Touches start (start + len) j → allowed (m.access j) = true)

theorem RefusedAt.lt {m : Memory} {allowed : Access → Bool} {start len b : Nat}
    (refused : m.RefusedAt allowed start len b) : b < addressSpace := by
  rcases refused with ⟨-, rfl⟩ | ⟨inRange, k, rfl, ⟨a, -, below, rfl⟩, -⟩
  · decide
  · exact Nat.lt_of_le_of_lt (Nat.div_mul_le_self a pageSize) (Nat.lt_of_lt_of_le below inRange)

/-- A range that does not pass is refused at the page that is answered. -/
theorem refusal?_eq_some {m : Memory} {allowed : Access → Bool} {start len : Nat} {page : UInt32}
    (refused : m.refusal? allowed start len = some page) : m.RefusedAt allowed start len page.toNat := by
  rw [refusal?] at refused
  split at refused
  · contradiction
  · rename_i nonempty
    split at refused
    · rename_i inRange
      obtain ⟨k, found, rfl⟩ := Option.map_eq_some_iff.mp refused
      have touched := touches_iff_pagesTouched start (Nat.pos_of_ne_zero nonempty)
      obtain ⟨low, high, notAllowed, before⟩ := refusedPage?_found found
      have refusedAt : m.RefusedAt allowed start len (k * pageSize) := by
        refine .inr ⟨inRange, k, rfl, (touched k).mpr ⟨low, high⟩, notAllowed, ?_⟩
        exact fun j below here => before j ((touched j).mp here).1 below
      rwa [UInt32.toNat_ofNat_of_lt' refusedAt.lt]
    · rename_i beyond
      obtain rfl := Option.some.inj refused
      exact .inl ⟨Nat.lt_of_not_le beyond, rfl⟩

theorem RefusedAt.dvd {m : Memory} {allowed : Access → Bool} {start len b : Nat}
    (refused : m.RefusedAt allowed start len b) : pageSize ∣ b := by
  rcases refused with ⟨-, rfl⟩ | ⟨-, k, rfl, -⟩
  · decide
  · exact Nat.dvd_mul_left pageSize k

theorem store_eq_ok (m m' : Memory) (address : UInt32) (data : Bytes) :
    m.store address data = .ok m' ↔
      (data.size = 0 ∨ address.toNat + data.size ≤ addressSpace) ∧
        (∀ k, Touches address.toNat (address.toNat + data.size) k → (m.access k).isWriteable = true) ∧
        m' = m.write address.toNat data := by
  rw [← and_assoc, ← refusal?_eq_none, store]
  cases m.refusal? Access.isWriteable address.toNat data.size with
  | some page => simp
  | none => simp [eq_comm]

/-- A range passes by its ends if it is empty, or stays inside the address space and its first and last
pages are allowed. -/
theorem endsAllow_iff (m : Memory) (allowed : Access → Bool) (start len : Nat) :
    m.endsAllow allowed start len = true ↔
      len = 0 ∨ (start + len ≤ addressSpace ∧ allowed (m.access (pageOf start)) = true ∧
        allowed (m.access (pageOf (start + len - 1))) = true) := by
  simp only [endsAllow, Bool.or_eq_true, beq_iff_eq, Bool.and_eq_true, decide_eq_true_eq, and_assoc]
  rfl

theorem isWriteable_iff (m : Memory) (start len : Nat) :
    m.isWriteable start len = true ↔
      len = 0 ∨ (start + len ≤ addressSpace ∧ m.access (pageOf start) = .readWrite ∧
        m.access (pageOf (start + len - 1)) = .readWrite) := by
  rw [isWriteable, endsAllow_iff, Access.isWriteable_eq_true, Access.isWriteable_eq_true]

theorem read_eq_ok (m : Memory) (start len : Nat) (data : Bytes) :
    m.read start len = .ok data ↔
      (len = 0 ∨ start + len ≤ addressSpace) ∧
        (∀ k, Touches start (start + len) k → (m.access k).isReadable = true) ∧
        data = m.bytesAt start len := by
  rw [← and_assoc, ← refusal?_eq_none, read]
  cases m.refusal? Access.isReadable start len with
  | some page => simp
  | none => simp [eq_comm]

/-! ## The heap -/

/-- Whether moving the end of the heap by `amount` leaves the page it was on, inside the address space. -/
def HeapGrows (m : Memory) (amount : Nat) : Prop :=
  amount ≠ 0 ∧ m.heapPointer + amount ≤ addressSpace ∧
    (pageOf m.heapPointer + 1) * pageSize < m.heapPointer + amount

instance (m : Memory) (amount : Nat) : Decidable (m.HeapGrows amount) := inferInstanceAs (Decidable (_ ∧ _))

/-- The memory once the pages up to the new end of the heap are mapped. -/
def growHeap (m : Memory) (amount : Nat) : Memory :=
  if m.HeapGrows amount then
    m.changePages (fun p => { p with access := .readWrite })
      (pageOf (m.heapPointer + amount - 1) + 1 - pageOf m.heapPointer) (pageOf m.heapPointer)
  else m

theorem sbrk_eq (m : Memory) (amount : Nat) :
    m.sbrk amount =
      if amount = 0 then (m.heapPointer, m)
      else if addressSpace < m.heapPointer + amount then (0, m)
      else (m.heapPointer + amount, { m.growHeap amount with heapPointer := m.heapPointer + amount }) := by
  rw [sbrk]
  split
  · rfl
  · rename_i some
    dsimp only
    split
    · rfl
    · rename_i fits
      simp only [growHeap, HeapGrows, some, Nat.not_lt.mp fits, not_false_eq_true, true_and, ne_eq]
      split
      · rfl
      · rfl

theorem access_growHeap (m : Memory) (amount k : Nat) :
    (m.growHeap amount).access k =
      if m.HeapGrows amount ∧ Touches m.heapPointer (m.heapPointer + amount) k then .readWrite
      else m.access k := by
  rw [growHeap]
  by_cases grows : m.HeapGrows amount
  · have touched := touches_clipped m.heapPointer (m.heapPointer + amount) k (by have := grows.1; omega)
    rw [Nat.min_eq_left grows.2.1] at touched
    rw [if_pos grows, access_changePages]
    simp only [grows, true_and, touched]
  · rw [if_neg grows, if_neg fun both => grows both.1]

theorem byte_growHeap (m : Memory) (amount a : Nat) : (m.growHeap amount).byte a = m.byte a := by
  rw [growHeap]
  split
  · rw [byte_changePages, byte_eq]
    split
    · rfl
    · rfl
  · rfl

theorem WellFormed.growHeap (wellFormed : m.WellFormed) (amount : Nat) :
    (m.growHeap amount).WellFormed := by
  rw [Memory.growHeap]
  split
  · rename_i grows
    have fits := grows.2.1
    refine wellFormed.changePages (fun p sized => sized) ?_
    simp only [pageOf, pageSize, pageCount, addressSpace] at fits ⊢
    omega
  · exact wellFormed

theorem WellFormed.sbrk (wellFormed : m.WellFormed) (amount : Nat) : (m.sbrk amount).2.WellFormed := by
  rw [sbrk_eq]
  split
  · exact wellFormed
  · split
    · exact wellFormed
    · exact wellFormed.growHeap amount

end Memory

end ServiceVm
