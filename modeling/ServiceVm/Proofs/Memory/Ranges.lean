import ServiceVm.Proofs.Checked
import ServiceVm.Proofs.Memory.Flat

/-!
# Ranges of the operations on memory

Addresses and lengths are words, and the operations cut ranges off at the end of the address space
before or after they compute with them. Here they are written with sums, differences, products and
slices that have no value out of range. Each of them has a value, which is that of the operation, with
one exception: content that is allocated past the address space. The end of its range is cut off first
and then lies before its start. The pages from one to another are counted and not subtracted: there are
none if the second comes before the first.
-/
namespace ServiceVm

namespace Page

variable {p : Page}

def bytes (p : Page) (offset chunk : Nat) : Bytes := Array.ofFn (n := chunk) fun i => p.byte (offset + i)

theorem bytes_of_isEmpty (nothing : p.data.isEmpty = true) (offset chunk : Nat) :
    p.bytes offset chunk = Bytes.zeros chunk := by
  refine Array.ext (by simp [bytes, Bytes.zeros]) fun i _ _ => ?_
  simp [bytes, byte, Bytes.zeros, nothing]

theorem Sized.size_eq (sized : p.Sized) (something : p.data.isEmpty = false) : p.data.size = pageSize :=
  sized.resolve_left (by simpa using something)

theorem Sized.bytes_eq_extract (sized : p.Sized) (something : p.data.isEmpty = false) {offset chunk : Nat}
    (fits : offset + chunk ≤ pageSize) : p.bytes offset chunk = p.data.extract offset (offset + chunk) := by
  have size := sized.size_eq something
  refine Array.ext (by simp [bytes]; omega) fun i inside _ => ?_
  simp only [bytes, Array.size_ofFn] at inside
  simp [bytes, byte, something, show offset + i < p.data.size by omega]

end Page

namespace Memory

theorem bytesAt_add (m : Memory) (start a b : Nat) :
    m.bytesAt start (a + b) = m.bytesAt start a ++ m.bytesAt (start + a) b := by
  simp only [bytesAt, Array.ofFn_add]
  simp [Nat.add_assoc]

theorem bytesAt_page (m : Memory) {address chunk : Nat} (fits : address % pageSize + chunk ≤ pageSize) :
    m.bytesAt address chunk = (m.page (pageOf address)).bytes (address % pageSize) chunk := by
  refine congrArg Array.ofFn (funext fun i => ?_)
  have page : pageOf (address + i) = pageOf address := by
    have := i.isLt
    simp only [pageOf, pageSize] at *
    omega
  have place : (address + i) % pageSize = address % pageSize + i := by
    have := i.isLt
    simp only [pageSize] at *
    omega
  rw [byte_eq, page, place]

end Memory

namespace Checked

/-- A sum that stops at the largest word. -/
def saturatingAdd (a b : Nat) : Nat := min (a + b) maxWord

/-! ## Checking a range -/

/-- First and last page of a range that is not empty, if it stays inside the address space. -/
def pageSpan (start len : Nat) : Option (Option (Nat × Nat)) :=
  match (add start len).filter (· ≤ addressSpace) with
  | none => some none
  | some stop => do
    let last ← sub stop 1
    return some (pageOf start, pageOf last)

def endsAllow (m : Memory) (allowed : Access → Bool) (start len : Nat) : Option Bool :=
  if len = 0 then some true
  else do
    match ← pageSpan start len with
    | none => return false
    | some (first, last) => return allowed (m.access first) && allowed (m.access last)

def isReadable (m : Memory) (start len : Nat) : Option Bool := endsAllow m Access.isReadable start len

def isWriteable (m : Memory) (start len : Nat) : Option Bool := endsAllow m Access.isWriteable start len

def refusal? (m : Memory) (allowed : Access → Bool) (start len : Nat) : Option (Option UInt32) :=
  if len = 0 then some none
  else do
    match ← pageSpan start len with
    | none =>
      let last ← sub pageCount 1
      let address ← mul last pageSize
      return some (UInt32.ofNat address)
    | some (first, last) =>
      match m.refusedPage? allowed (last + 1 - first) first with
      | none => return none
      | some page =>
        let address ← mul page pageSize
        return some (UInt32.ofNat address)

theorem pageSpan_eq (start : Nat) {len : Nat} (nonempty : len ≠ 0) :
    pageSpan start len =
      some (if start + len ≤ addressSpace then some (pageOf start, pageOf (start + len - 1)) else none) := by
  rw [pageSpan, filter_add (by decide)]
  by_cases beyond : addressSpace < start + len
  · simp [beyond, Nat.not_le.mpr beyond]
  · have positive : 1 ≤ start + len := by omega
    simp [beyond, Nat.le_of_not_lt beyond, sub_eq positive]

theorem endsAllow_eq (m : Memory) (allowed : Access → Bool) (start len : Nat) :
    endsAllow m allowed start len = some (m.endsAllow allowed start len) := by
  by_cases empty : len = 0
  · simp [endsAllow, Memory.endsAllow, empty]
  · by_cases inRange : start + len ≤ addressSpace
    · simp [endsAllow, Memory.endsAllow, Memory.InRange, empty, pageSpan_eq start empty, inRange]
    · simp [endsAllow, Memory.endsAllow, Memory.InRange, empty, pageSpan_eq start empty, inRange]

theorem refusal?_eq (m : Memory) (allowed : Access → Bool) (start len : Nat) :
    refusal? m allowed start len = some (m.refusal? allowed start len) := by
  by_cases empty : len = 0
  · simp [refusal?, Memory.refusal?, empty]
  · by_cases inRange : start + len ≤ addressSpace
    · have span : pageSpan start len = some (some (pageOf start, pageOf (start + len - 1))) := by
        simp [pageSpan_eq start empty, inRange]
      cases found : m.refusedPage? allowed (Memory.pagesTouched start len) (pageOf start) with
      | none =>
        simp only [Memory.pagesTouched] at found
        simp [refusal?, Memory.refusal?, Memory.InRange, Memory.pagesTouched, empty, inRange, span, found]
      | some page =>
        -- The page that is refused is one of the range.
        have small : page * pageSize < UInt64.size := by
          obtain ⟨low, high, -⟩ := Memory.refusedPage?_found found
          simp only [Memory.pagesTouched, pageOf, pageSize, addressSpace, UInt64.size] at *
          omega
        simp only [Memory.pagesTouched] at found
        simp [refusal?, Memory.refusal?, Memory.InRange, Memory.pagesTouched, empty, inRange, span, found,
          mul_eq small]
    · have span : pageSpan start len = some none := by simp [pageSpan_eq start empty, inRange]
      have top : sub pageCount 1 = some (pageCount - 1) := by decide
      have last : mul (pageCount - 1) pageSize = some ((pageCount - 1) * pageSize) := by decide
      simp [refusal?, Memory.refusal?, Memory.InRange, empty, inRange, span, top, last]

/-! ## Reading -/

/-- Length of the part of a range that lies on the page of its first address. -/
def chunkLength (stop address : Nat) : Option Nat := do
  let left ← sub stop address
  let room ← sub pageSize (address % pageSize)
  return min left room

/-- Appends a part of a range that lies on one page. A page without data has none to take a slice of, and
adds zeros as one that is not stored does. -/
def readChunk (m : Memory) (out : Bytes) (address chunk : Nat) : Option Bytes := do
  match m.pages[pageOf address]?.filter (!·.data.isEmpty) with
  | some p =>
    let last ← add (address % pageSize) chunk
    let part ← slice p.data (address % pageSize) last
    return out ++ part
  | none =>
    let size ← add out.size chunk
    return Bytes.resize out size

/-- Appends the range up to `stop`, page by page. A turn that does not move on has no value, either. -/
def readFrom (m : Memory) (stop address : Nat) (out : Bytes) : Option Bytes :=
  if address < stop then do
    let chunk ← chunkLength stop address
    let out ← readChunk m out address chunk
    let next ← add address chunk
    if address < next then readFrom m stop next out else none
  else some out
termination_by stop - address

theorem chunkLength_eq {stop address : Nat} (before : address < stop) :
    chunkLength stop address = some (min (stop - address) (pageSize - address % pageSize)) := by
  have offset : address % pageSize ≤ pageSize := Nat.le_of_lt (Nat.mod_lt address (by decide))
  simp [chunkLength, sub_eq (Nat.le_of_lt before), sub_eq offset]

theorem exists_chunk (address : Nat) {left : Nat} (more : 0 < left) :
    ∃ chunk rest, left = chunk + rest ∧ 0 < chunk ∧ address % pageSize + chunk ≤ pageSize ∧
      min (chunk + rest) (pageSize - address % pageSize) = chunk ∧
      chunkLength (address + (chunk + rest)) address = some chunk := by
  have offset : address % pageSize < pageSize := Nat.mod_lt address (by decide)
  have length := chunkLength_eq (show address < address + left by omega)
  rw [Nat.add_sub_cancel_left] at length
  generalize cut : min left (pageSize - address % pageSize) = chunk at length
  obtain ⟨rest, rfl⟩ : ∃ rest, left = chunk + rest := ⟨left - chunk, by omega⟩
  exact ⟨chunk, rest, rfl, by omega, by omega, cut, length⟩

theorem readChunk_eq {m : Memory} (wellFormed : m.WellFormed) (out : Bytes) {address chunk : Nat}
    (fits : address % pageSize + chunk ≤ pageSize) (small : out.size + chunk < UInt64.size) :
    readChunk m out address chunk = some (out ++ m.bytesAt address chunk) := by
  have whole : out.extract 0 (out.size + chunk) = out := Array.extract_eq_self_of_le (Nat.le_add_right _ _)
  have zeros : Bytes.resize out (out.size + chunk) = out ++ Bytes.zeros chunk := by simp [Bytes.resize, whole]
  have last : add (address % pageSize) chunk = some (address % pageSize + chunk) :=
    add_eq (Nat.lt_of_le_of_lt fits (by decide))
  rw [m.bytesAt_page fits, Memory.page, readChunk]
  cases stored : m.pages[pageOf address]? with
  | none => simp [add_eq small, zeros, Page.bytes_of_isEmpty (p := Page.zeroed .none) rfl]
  | some p =>
    cases given : p.data.isEmpty with
    | true => simp [Option.filter, given, add_eq small, zeros, Page.bytes_of_isEmpty given]
    | false =>
      have sized := (wellFormed _ p stored).2
      have size := sized.size_eq given
      have inside : address % pageSize + chunk ≤ p.data.size := by omega
      simp [Option.filter, given, last, slice_eq (Nat.le_add_right _ chunk) inside,
        sized.bytes_eq_extract given fits]

theorem readFrom_eq {m : Memory} (wellFormed : m.WellFormed) {address left : Nat} (out : Bytes)
    (inside : address + left ≤ addressSpace) (small : out.size + left ≤ addressSpace) :
    readFrom m (address + left) address out = some (out ++ m.bytesAt address left) := by
  induction left using Nat.strongRecOn generalizing address out with
  | _ left ih =>
    rw [readFrom]
    obtain rfl | more := Nat.eq_zero_or_pos left
    · simp [Memory.bytesAt]
    · obtain ⟨chunk, rest, rfl, positive, fits, -, length⟩ := exists_chunk address more
      have word : addressSpace < UInt64.size := by decide
      have next : add address chunk = some (address + chunk) := add_eq (by omega)
      have part := readChunk_eq wellFormed out fits (by omega)
      have later := ih rest (by omega) (out ++ m.bytesAt address chunk)
        (show address + chunk + rest ≤ addressSpace by omega) (by simp [Memory.bytesAt]; omega)
      rw [Nat.add_assoc] at later
      simp [more, length, part, next, Nat.ne_of_gt positive, later, Memory.bytesAt_add]

def read (m : Memory) (start len : Nat) : Option (Except UInt32 Bytes) := do
  match ← refusal? m Access.isReadable start len with
  | some page => return .error page
  | none =>
    let stop ← add start len
    let data ← readFrom m stop start #[]
    return .ok data

def faultExit (address : UInt32) : Option Exit :=
  if address.toNat < zoneSize then some .panic
  else do
    let page ← sub address.toNat (address.toNat % pageSize)
    return .pageFault (UInt32.ofNat page)

def load (m : Memory) (address : UInt32) (len : Nat) : Option (Except Exit Bytes) := do
  match ← read m address.toNat len with
  | .ok data => return .ok data
  | .error page =>
    let exit ← faultExit page
    return .error exit

theorem read_eq {m : Memory} (wellFormed : m.WellFormed) {start len : Nat} (word : start < UInt64.size) :
    read m start len = some (m.read start len) := by
  cases refused : m.refusal? Access.isReadable start len with
  | some page => simp [read, Memory.read, refusal?_eq, refused]
  | none =>
    obtain ⟨inRange, -⟩ := (Memory.refusal?_eq_none ..).mp refused
    have small : addressSpace < UInt64.size := by decide
    have stop : add start len = some (start + len) := add_eq (by omega)
    have data : readFrom m (start + len) start #[] = some (m.bytesAt start len) := by
      obtain rfl | inside := inRange
      · rw [readFrom]
        simp [Memory.bytesAt]
      · simpa using readFrom_eq wellFormed #[] inside (by simp; omega)
    simp [read, Memory.read, refusal?_eq, refused, stop, data]

theorem faultExit_eq (address : UInt32) : faultExit address = some (Memory.faultExit address) := by
  have lower : address.toNat % pageSize ≤ address.toNat := Nat.mod_le _ _
  have start : address.toNat - address.toNat % pageSize = address.toNat / pageSize * pageSize := by
    simp only [pageSize]
    omega
  by_cases low : address.toNat < zoneSize
  · simp [faultExit, Memory.faultExit, low]
  · simp [faultExit, Memory.faultExit, low, sub_eq lower, start]

theorem load_eq {m : Memory} (wellFormed : m.WellFormed) (address : UInt32) (len : Nat) :
    load m address len = some (m.load address len) := by
  have word : address.toNat < UInt64.size := Nat.lt_trans address.toNat_lt (by decide)
  cases done : m.read address.toNat len with
  | ok data => simp [load, Memory.load, read_eq wellFormed word, done]
  | error page => simp [load, Memory.load, read_eq wellFormed word, done, faultExit_eq]

/-! ## Writing -/

/-- Copies a part of a range that lies on one page to its place, a slice of the data of the page that has to
be as long as the part. -/
def copyChunk (m : Memory) (address chunk : Nat) (part : Bytes) : Option Memory := do
  let last ← add (address % pageSize) chunk
  let place ← slice (m.page (pageOf address)).materialised (address % pageSize) last
  if place.size = part.size then
    return m.changePage (pageOf address) fun p => p.write (address % pageSize) part
  else none

/-- Writes `data` from `consumed` on to the range up to `stop`, page by page. -/
def writeFrom (data : Bytes) (stop : Nat) (m : Memory) (address consumed : Nat) : Option Memory :=
  if address < stop then do
    let chunk ← chunkLength stop address
    let used ← add consumed chunk
    let part ← slice data consumed used
    let m ← copyChunk m address chunk part
    let next ← add address chunk
    if address < next then writeFrom data stop m next used else none
  else some m
termination_by stop - address

def write (m : Memory) (start : Nat) (data : Bytes) : Option Memory :=
  writeFrom data (min (saturatingAdd start data.size) addressSpace) m start 0

def store (m : Memory) (address : UInt32) (data : Bytes) : Option (Except Exit Memory) := do
  match ← refusal? m Access.isWriteable address.toNat data.size with
  | some page =>
    let exit ← faultExit page
    return .error exit
  | none =>
    let stored ← write m address.toNat data
    return .ok stored

end Checked

namespace Memory

/-- Number of pages touched by a range, which may be empty. -/
def pagesOf (start len : Nat) : Nat := if len = 0 then 0 else pagesTouched start len

/-- A chunk reaches the end of its page, where the next one begins, or nothing is left after it. -/
theorem fill_chunk (m : Memory) (data : Bytes) {address consumed chunk rest : Nat} (positive : 0 < chunk)
    (cut : min (chunk + rest) (pageSize - address % pageSize) = chunk)
    (size : data.size = consumed + (chunk + rest)) :
    m.fill data (pagesOf address (chunk + rest)) (pageOf address) (address % pageSize) consumed =
      (m.changePage (pageOf address) fun p =>
        p.write (address % pageSize) (data.extract consumed (consumed + chunk))).fill
        data (pagesOf (address + chunk) rest) (pageOf (address + chunk)) ((address + chunk) % pageSize)
        (consumed + chunk) := by
  have length : Memory.chunk data (address % pageSize) consumed = chunk := by
    simp only [Memory.chunk, size]
    omega
  have part : Memory.part data (address % pageSize) consumed = data.extract consumed (consumed + chunk) := by
    rw [Memory.part, length]
  obtain rfl | more := Nat.eq_zero_or_pos rest
  · have pages : pagesOf address (chunk + 0) = 0 + 1 := by
      simp only [pagesOf, pagesTouched, pageOf, pageSize] at *
      split <;> omega
    rw [pages, fill_succ, part, length]
    rfl
  · have pages : pagesOf address (chunk + rest) = pagesOf (address + chunk) rest + 1 := by
      simp only [pagesOf, pagesTouched, pageOf, pageSize] at *
      split <;> split <;> omega
    have page : pageOf (address + chunk) = pageOf address + 1 := by
      simp only [pageOf, pageSize] at *
      omega
    have place : (address + chunk) % pageSize = 0 := by
      simp only [pageSize] at *
      omega
    rw [pages, fill_succ, part, length, page, place]

end Memory

namespace Checked

theorem copyChunk_eq {m : Memory} (wellFormed : m.WellFormed) {address chunk : Nat} {part : Bytes}
    (fits : address % pageSize + chunk ≤ pageSize) (size : part.size = chunk) :
    copyChunk m address chunk part =
      some (m.changePage (pageOf address) fun p => p.write (address % pageSize) part) := by
  have whole := (wellFormed.sized_page (pageOf address)).size_materialised
  have last : add (address % pageSize) chunk = some (address % pageSize + chunk) :=
    add_eq (Nat.lt_of_le_of_lt fits (by decide))
  have inside : address % pageSize + chunk ≤ (m.page (pageOf address)).materialised.size := by omega
  have place := slice_eq (Nat.le_add_right (address % pageSize) chunk) inside
  have room : min (address % pageSize + chunk) pageSize - address % pageSize = chunk := by omega
  simp [copyChunk, last, place, whole, room, size]

theorem writeFrom_eq {m : Memory} (wellFormed : m.WellFormed) (data : Bytes) {address consumed left : Nat}
    (inside : address + left ≤ addressSpace) (enough : consumed + left ≤ data.size)
    (small : consumed + left ≤ addressSpace) :
    writeFrom data (address + left) m address consumed =
      some (m.fill (data.extract 0 (consumed + left)) (Memory.pagesOf address left) (pageOf address)
        (address % pageSize) consumed) := by
  -- A turn writes a chunk, so the induction is on the length that is left.
  induction left using Nat.strongRecOn generalizing m address consumed with
  | _ left ih =>
    rw [writeFrom]
    obtain rfl | more := Nat.eq_zero_or_pos left
    · rw [if_neg (by omega)]
      rfl
    · obtain ⟨chunk, rest, rfl, positive, fits, cut, length⟩ := exists_chunk address more
      have word : addressSpace < UInt64.size := by decide
      have used : add consumed chunk = some (consumed + chunk) := add_eq (by omega)
      have next : add address chunk = some (address + chunk) := add_eq (by omega)
      have taken := slice_eq (Nat.le_add_right consumed chunk) (show consumed + chunk ≤ data.size by omega)
      have size : (data.extract consumed (consumed + chunk)).size = chunk := by
        simp only [Array.size_extract]
        omega
      have copied := copyChunk_eq wellFormed fits size
      have onPage : pageOf address < pageCount := Memory.pageOf_lt_pageCount (by omega)
      have written := wellFormed.changePage (fun p sized => sized.write (size ▸ fits)) onPage
      have same : (data.extract 0 (consumed + (chunk + rest))).extract consumed (consumed + chunk) =
          data.extract consumed (consumed + chunk) := by
        rw [Array.extract_extract, Nat.zero_add, Nat.zero_add, Nat.min_eq_left (by omega)]
      have later := ih rest (by omega) written (show address + chunk + rest ≤ addressSpace by omega)
        (show consumed + chunk + rest ≤ data.size by omega) (by omega)
      rw [Memory.fill_chunk m _ positive cut (by simp; omega), same]
      simp only [Nat.add_assoc] at later ⊢
      simp [more, length, used, taken, copied, next, Nat.ne_of_gt positive, later]

theorem extract_min_size (data : Bytes) (room : Nat) :
    data.extract 0 (min data.size room) = data.extract 0 room := by
  rcases Nat.le_total data.size room with short | long
  · rw [Nat.min_eq_left short, Array.extract_eq_self_of_le (Nat.le_refl _), Array.extract_eq_self_of_le short]
  · rw [Nat.min_eq_right long]

theorem write_eq {m : Memory} (wellFormed : m.WellFormed) (start : Nat) (data : Bytes) :
    write m start data = some (m.write start data) := by
  have word : addressSpace < maxWord := by decide
  have size : (data.extract 0 (addressSpace - start)).size = min (addressSpace - start) data.size := by simp
  rw [write, saturatingAdd, Memory.write_eq]
  split
  · rename_i nothing
    rw [writeFrom, if_neg (by omega)]
  · rename_i something
    generalize cut : min (addressSpace - start) data.size = left at size
    have stop : min (min (start + data.size) maxWord) addressSpace = start + left := by omega
    have same : data.extract 0 (0 + left) = data.extract 0 (addressSpace - start) := by
      rw [Nat.zero_add, ← cut, Nat.min_comm, extract_min_size]
    have written := writeFrom_eq wellFormed data (show start + left ≤ addressSpace by omega)
      (show 0 + left ≤ data.size by omega) (by omega)
    rw [stop, written, same, size, Memory.pagesOf, if_neg (by omega)]

theorem store_eq {m : Memory} (wellFormed : m.WellFormed) (address : UInt32) (data : Bytes) :
    store m address data = some (m.store address data) := by
  cases refused : m.refusal? Access.isWriteable address.toNat data.size with
  | some page => simp [store, Memory.store, refusal?_eq, refused, faultExit_eq]
  | none => simp [store, Memory.store, refusal?_eq, refused, write_eq wellFormed]

/-! ## Mapping -/

/-- The end of the range is cut off before its length is taken. -/
def allocate (m : Memory) (start stop : Nat) (content : Bytes) (access : Access) : Option Memory :=
  if stop ≤ start then some m
  else do
    let stop := min stop addressSpace
    let last ← sub stop 1
    let mapped := m.changePages (Page.remap access !content.isEmpty) (pageOf last + 1 - pageOf start)
      (pageOf start)
    if content.isEmpty then return mapped
    let room ← sub stop start
    let part ← slice content 0 (min content.size room)
    write mapped start part

def setPages (m : Memory) (first count : Nat) (access : Access) (zero : Bool) : Option Memory :=
  some (m.changePages (Page.remap access zero) (min (saturatingAdd first count) pageCount - first) first)

def sbrk (m : Memory) (amount : Nat) : Option (Nat × Memory) :=
  if amount = 0 then some (m.heapPointer, m)
  else
    match (add m.heapPointer amount).filter (· ≤ addressSpace) with
    | none => some (0, m)
    | some next => do
      let boundary ← mul (saturatingAdd (pageOf m.heapPointer) 1) pageSize
      if boundary < next then
        let last ← sub next 1
        let grown := m.changePages (fun p => { p with access := .readWrite })
          (pageOf last + 1 - pageOf m.heapPointer) (pageOf m.heapPointer)
        return (next, { grown with heapPointer := next })
      else return (next, { m with heapPointer := next })

theorem allocate_eq {m : Memory} (wellFormed : m.WellFormed) (start stop : Nat) (content : Bytes)
    (access : Access) : allocate m start stop content access = m.allocate start stop content access := by
  by_cases nothing : stop ≤ start
  · simp [allocate, Memory.allocate, nothing]
  · have positive : 1 ≤ min stop addressSpace := by
      simp only [addressSpace]
      omega
    cases given : content.isEmpty with
    | true => simp [allocate, Memory.allocate, Memory.changePages, nothing, sub_eq positive, given]
    | false =>
      by_cases past : min stop addressSpace < start
      · have below : sub (min stop addressSpace) start = none := if_neg (by omega)
        simp [allocate, Memory.allocate, nothing, sub_eq positive, given, past, below]
      · have room := sub_eq (Nat.le_of_not_lt past)
        have part := slice_eq (Nat.zero_le _) (Nat.min_le_left content.size (min stop addressSpace - start))
        have written := write_eq (wellFormed.mapped start stop access true) start
          (content.extract 0 (min content.size (min stop addressSpace - start)))
        simp only [Memory.changePages] at written
        simp [allocate, Memory.allocate, Memory.changePages, nothing, sub_eq positive, given, past, room, part,
          written]

theorem setPages_eq (m : Memory) (first count : Nat) (access : Access) (zero : Bool) :
    setPages m first count access zero = some (m.setPages first count access zero) := by
  have word : pageCount < maxWord := by decide
  have stop : min (saturatingAdd first count) pageCount = min (first + count) pageCount := by
    simp only [saturatingAdd]
    omega
  simp only [setPages, stop, Memory.setPages_eq]

theorem sbrk_eq (m : Memory) (amount : Nat) : sbrk m amount = some (m.sbrk amount) := by
  have limit := filter_add (a := m.heapPointer) (b := amount) (show addressSpace < UInt64.size by decide)
  by_cases zero : amount = 0
  · simp [sbrk, Memory.sbrk, zero]
  · by_cases beyond : addressSpace < m.heapPointer + amount
    · simp [sbrk, Memory.sbrk, zero, limit, beyond]
    · have next : saturatingAdd (pageOf m.heapPointer) 1 = pageOf m.heapPointer + 1 := by
        simp only [saturatingAdd, maxWord, pageOf, pageSize, addressSpace] at *
        omega
      have boundary : (pageOf m.heapPointer + 1) * pageSize < UInt64.size := by
        simp only [pageOf, pageSize, addressSpace, UInt64.size] at *
        omega
      have positive : 1 ≤ m.heapPointer + amount := by omega
      by_cases grows : (pageOf m.heapPointer + 1) * pageSize < m.heapPointer + amount
      · simp [sbrk, Memory.sbrk, zero, limit, beyond, next, mul_eq boundary, grows, sub_eq positive,
          Memory.changePages]
      · simp [sbrk, Memory.sbrk, zero, limit, beyond, next, mul_eq boundary, grows]

end Checked

/-! ## Sequences of operations -/

/-- Content that is allocated past the address space: the length of its range is taken once the end is cut
off, and is negative. -/
def MemoryOp.Overruns : MemoryOp → Prop
  | .allocate start stop content _ => start < stop ∧ addressSpace < start ∧ content.isEmpty = false
  | _ => False

theorem Memory.apply_eq_none {m : Memory} {op : MemoryOp} : m.apply op = none ↔ op.Overruns := by
  cases op with
  | allocate start stop content access => simp [apply, MemoryOp.Overruns, allocate_eq]
  | store address data =>
    rw [apply]
    split <;> simp [MemoryOp.Overruns]
  | write | setPages | setHeapPointer | sbrk => simp [apply, MemoryOp.Overruns]

theorem Memory.foldlM_apply_eq_none {m : Memory} {ops : List MemoryOp} :
    ops.foldlM apply m = none ↔ ∃ op ∈ ops, op.Overruns := by
  induction ops generalizing m with
  | nil => simp
  | cons op ops ih =>
    have here : m.apply op = none ↔ op.Overruns := apply_eq_none
    cases done : m.apply op with
    | none => simp [done, here.mp done]
    | some next =>
      have fine : ¬op.Overruns := fun overruns => by simp [here.mpr overruns] at done
      simp [done, fine, ih]

namespace Checked

def apply (m : Memory) : MemoryOp → Option Memory
  | .write start data => write m start data
  | .store address data => do
    match ← store m address data with
    | .ok stored => return stored
    | .error _ => return m
  | .allocate start stop content access => allocate m start stop content access
  | .setPages first count access zero => setPages m first count access zero
  | .setHeapPointer pointer => some { m with heapPointer := pointer }
  | .sbrk amount => do
    let (_, grown) ← sbrk m amount
    return grown

theorem apply_eq {m : Memory} (wellFormed : m.WellFormed) (op : MemoryOp) : apply m op = m.apply op := by
  cases op with
  | write start data => exact write_eq wellFormed start data
  | store address data =>
    cases done : m.store address data with
    | ok stored => simp [apply, Memory.apply, store_eq wellFormed, done]
    | error exit => simp [apply, Memory.apply, store_eq wellFormed, done]
  | allocate start stop content access => exact allocate_eq wellFormed start stop content access
  | setPages first count access zero => exact setPages_eq m first count access zero
  | setHeapPointer pointer => rfl
  | sbrk amount => simp [apply, Memory.apply, sbrk_eq]

/-- The operations keep the pages in order, so that each finds the slices it takes. -/
theorem foldlM_apply {m : Memory} (wellFormed : m.WellFormed) (ops : List MemoryOp) :
    ops.foldlM apply m = ops.foldlM Memory.apply m := by
  induction ops generalizing m with
  | nil => rfl
  | cons op ops ih =>
    rw [List.foldlM_cons, List.foldlM_cons, apply_eq wellFormed]
    cases done : m.apply op with
    | none => rfl
    | some next => exact ih (wellFormed.apply done)

/-- Every operation on `m` is performed in range, and answers as the operation itself does, unless it
allocates content past the address space. -/
structure Agrees (m : Memory) : Prop where
  isReadable : ∀ start len, isReadable m start len = some (m.isReadable start len)
  isWriteable : ∀ start len, isWriteable m start len = some (m.isWriteable start len)
  read : ∀ (start : UInt64) (len : Nat), read m start.toNat len = some (m.read start.toNat len)
  load : ∀ address len, load m address len = some (m.load address len)
  write : ∀ start data, write m start data = some (m.write start data)
  store : ∀ address data, store m address data = some (m.store address data)
  allocate : ∀ start stop content access,
    allocate m start stop content access = m.allocate start stop content access ∧
      (allocate m start stop content access = none ↔
        start < stop ∧ addressSpace < start ∧ content.isEmpty = false)
  setPages : ∀ first count access zero,
    setPages m first count access zero = some (m.setPages first count access zero)
  sbrk : ∀ amount, sbrk m amount = some (m.sbrk amount)

theorem agrees {m : Memory} (wellFormed : m.WellFormed) : Agrees m where
  isReadable := endsAllow_eq m Access.isReadable
  isWriteable := endsAllow_eq m Access.isWriteable
  read start _ := read_eq wellFormed start.toNat_lt
  load := load_eq wellFormed
  write := write_eq wellFormed
  store := store_eq wellFormed
  allocate start stop content access := by
    rw [allocate_eq wellFormed, Memory.allocate_eq]
    simp
  setPages := setPages_eq m
  sbrk := sbrk_eq m

end Checked

namespace Memory

/-- A sequence of operations on the empty memory computes no word and takes no slice out of range, unless
one of them allocates content past the address space; and so do all operations on the memory it leads to,
whatever their arguments. -/
theorem operations_in_range (ops : List MemoryOp) :
    (ops.foldlM Checked.apply empty = none ↔ ∃ op ∈ ops, op.Overruns) ∧
    ops.foldlM Checked.apply empty = ops.foldlM apply empty ∧
    ∀ m, ops.foldlM Checked.apply empty = some m → Checked.Agrees m := by
  rw [Checked.foldlM_apply wellFormed_empty]
  refine ⟨foldlM_apply_eq_none, rfl, fun m done => ?_⟩
  exact Checked.agrees (wellFormed_empty.foldlM_apply done)

/-- A byte that is allocated past the address space is given the room from there back to its end. -/
theorem allocation_past_end_leaves_range :
    ¬∀ ops : List MemoryOp, (ops.foldlM Checked.apply empty).isSome = true := by
  intro always
  have done := always [.allocate 4294967297 4294967298 #[1] .readWrite]
  have past : MemoryOp.Overruns (.allocate 4294967297 4294967298 #[1] .readWrite) := by
    simp [MemoryOp.Overruns, addressSpace]
  have fails := foldlM_apply_eq_none (m := empty).mpr ⟨_, List.mem_singleton_self _, past⟩
  rw [Checked.foldlM_apply wellFormed_empty, fails] at done
  exact absurd done (by decide)

end Memory

end ServiceVm
