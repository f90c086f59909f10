import ServiceVm.Proofs.Memory.Pages

/-!
# Paged memory answers as flat memory does

A flat memory has rights for every page of the address space, a byte for every address, and the end
of the heap. Nothing in it is stored or left out, and its operations know no pages of bytes and no
chunks. `Memory.flat` reads a paged memory as a flat one: it commutes with every operation, and all
questions about the two have the same answers.
-/
namespace ServiceVm

@[ext] structure FlatMemory where
  access : Fin pageCount → Access
  byte : Fin addressSpace → UInt8
  /-- End of the heap. -/
  cursor : Nat

namespace FlatMemory

def empty : FlatMemory := ⟨fun _ => .none, fun _ => 0, 0⟩

/-- Rights of a page; past the address space there are none. -/
def accessAt (f : FlatMemory) (k : Nat) : Access :=
  if inside : k < pageCount then f.access ⟨k, inside⟩ else .none

def byteAt (f : FlatMemory) (a : Nat) : UInt8 :=
  if inside : a < addressSpace then f.byte ⟨a, inside⟩ else 0

/-! ## Operations -/

def write (f : FlatMemory) (start : Nat) (data : Bytes) : FlatMemory :=
  { f with
    byte := fun a =>
      if start ≤ a.val ∧ a.val < start + data.size then data.getD (a.val - start) 0 else f.byte a }

def setAccess (f : FlatMemory) (chosen : Nat → Prop) [DecidablePred chosen] (access : Access) : FlatMemory :=
  { f with access := fun k => if chosen k.val then access else f.access k }

def clear (f : FlatMemory) (chosen : Nat → Prop) [DecidablePred chosen] : FlatMemory :=
  { f with byte := fun a => if chosen (pageOf a.val) then 0 else f.byte a }

def allocate (f : FlatMemory) (start stop : Nat) (content : Bytes) (access : Access) : FlatMemory :=
  let stop := min stop addressSpace
  let mapped := f.setAccess (Touches start stop) access
  if content.isEmpty then mapped
  else (mapped.clear (Touches start stop)).write start (content.extract 0 (stop - start))

def setPages (f : FlatMemory) (first count : Nat) (access : Access) (zero : Bool) : FlatMemory :=
  let mapped := f.setAccess (fun k => first ≤ k ∧ k < first + count) access
  if zero then mapped.clear (fun k => first ≤ k ∧ k < first + count) else mapped

/-- The cursor moves up unless it would leave the address space; pages are mapped once it leaves the page
it was on. -/
def sbrk (f : FlatMemory) (amount : Nat) : Nat × FlatMemory :=
  let next := f.cursor + amount
  if amount = 0 then (f.cursor, f)
  else if addressSpace < next then (0, f)
  else
    let grown :=
      if (pageOf f.cursor + 1) * pageSize < next then f.setAccess (Touches f.cursor next) .readWrite else f
    (next, { grown with cursor := next })

/-! ## Questions -/

def endsAllow (f : FlatMemory) (allowed : Access → Bool) (start len : Nat) : Bool :=
  len == 0 || (decide (start + len ≤ addressSpace) &&
    allowed (f.accessAt (pageOf start)) && allowed (f.accessAt (pageOf (start + len - 1))))

def isReadable (f : FlatMemory) (start len : Nat) : Bool := f.endsAllow Access.isReadable start len

def isWriteable (f : FlatMemory) (start len : Nat) : Bool := f.endsAllow Access.isWriteable start len

/-- Start of the page of the first address in the range that is not allowed. -/
def refusal? (f : FlatMemory) (allowed : Access → Bool) (start len : Nat) : Option UInt32 :=
  if len = 0 ∨ start + len ≤ addressSpace then
    ((List.range' start len).find? fun a => !allowed (f.accessAt (pageOf a))).map
      fun a => UInt32.ofNat (pageOf a * pageSize)
  else some (UInt32.ofNat ((pageCount - 1) * pageSize))

def bytesAt (f : FlatMemory) (start len : Nat) : Bytes :=
  Array.ofFn (n := len) fun i => f.byteAt (start + i)

def read (f : FlatMemory) (start len : Nat) : Except UInt32 Bytes :=
  match f.refusal? Access.isReadable start len with
  | some page => .error page
  | none => .ok (f.bytesAt start len)

def load (f : FlatMemory) (address : UInt32) (len : Nat) : Except Exit Bytes :=
  match f.read address.toNat len with
  | .ok data => .ok data
  | .error page => .error (Memory.faultExit page)

def store (f : FlatMemory) (address : UInt32) (data : Bytes) : Except Exit FlatMemory :=
  match f.refusal? Access.isWriteable address.toNat data.size with
  | some page => .error (Memory.faultExit page)
  | none => .ok (f.write address.toNat data)

end FlatMemory

namespace Memory

/-- What can be seen of a memory. -/
def flat (m : Memory) : FlatMemory := ⟨fun k => m.access k.val, fun a => m.byte a.val, m.heapPointer⟩

variable {m : Memory}

theorem flat_empty : empty.flat = FlatMemory.empty := by
  ext
  · simp [flat, empty, access, FlatMemory.empty]
  · simp [flat, empty, byte, FlatMemory.empty]
  · rfl

/-! ## Operations -/

theorem flat_write (m : Memory) (start : Nat) (data : Bytes) :
    (m.write start data).flat = m.flat.write start data := by
  ext a : 2
  · exact m.access_write start data a.val
  · have inside := a.isLt
    simp only [flat, FlatMemory.write, byte_write]
    by_cases written : start ≤ a.val ∧ a.val < start + data.size
    · rw [if_pos written, if_pos (by omega)]
    · rw [if_neg written, if_neg (by omega)]
  · exact m.heapPointer_write start data

theorem flat_place (m : Memory) (start stop : Nat) (content : Bytes) (access : Access) :
    (m.place start stop content access).flat = m.flat.allocate start stop content access := by
  cases given : content.isEmpty with
  | true =>
    rw [FlatMemory.allocate, if_pos given]
    ext a : 2
    · exact m.access_place start stop content access a.val
    · exact m.byte_place_empty start stop access given a.val
    · exact m.heapPointer_place start stop content access
  | false =>
    rw [FlatMemory.allocate, if_neg (by simp [given])]
    ext a : 2
    · exact m.access_place start stop content access a.val
    · have size : (content.extract 0 (min stop addressSpace - start)).size =
          min (min stop addressSpace - start) content.size := by simp
      simp only [flat, FlatMemory.write, FlatMemory.clear, byte_place, given, true_and]
      by_cases copied : start ≤ a.val ∧ a.val < min (start + content.size) (min stop addressSpace)
      · have touched : Touches start (min stop addressSpace) (pageOf a.val) := ⟨a.val, copied.1, by omega, rfl⟩
        rw [if_pos touched, if_pos copied, if_pos (by omega), Bytes.getD_extract _ (by omega), Nat.zero_add]
      · have kept : ¬(start ≤ a.val ∧
            a.val < start + (content.extract 0 (min stop addressSpace - start)).size) := by omega
        rw [if_neg copied, if_neg kept]
        rfl
    · exact m.heapPointer_place start stop content access

theorem flat_setPages (m : Memory) (first count : Nat) (access : Access) (zero : Bool) :
    (m.setPages first count access zero).flat = m.flat.setPages first count access zero := by
  ext a : 2
  · have inside := a.isLt
    have chosen : (first ≤ a.val ∧ a.val < min (first + count) pageCount) ↔
        first ≤ a.val ∧ a.val < first + count := by omega
    cases zero <;> simp only [flat, access_setPages, chosen] <;> rfl
  · have inside : pageOf a.val < pageCount := Nat.div_lt_of_lt_mul (show a.val < pageSize * pageCount from a.isLt)
    have chosen : (first ≤ pageOf a.val ∧ pageOf a.val < min (first + count) pageCount) ↔
        first ≤ pageOf a.val ∧ pageOf a.val < first + count := by omega
    cases zero with
    | true =>
      simp only [flat, byte_setPages, chosen, true_and]
      rfl
    | false =>
      simp only [flat, byte_setPages, Bool.false_eq_true, false_and, if_false]
      rfl
  · cases zero <;> rfl

theorem flat_sbrk (m : Memory) (amount : Nat) :
    ((m.sbrk amount).1, (m.sbrk amount).2.flat) = m.flat.sbrk amount := by
  rw [sbrk_eq, FlatMemory.sbrk]
  by_cases asks : amount = 0
  · rw [if_pos asks, if_pos asks]
    rfl
  · rw [if_neg asks, if_neg asks]
    by_cases leaves : addressSpace < m.heapPointer + amount
    · rw [if_pos leaves, if_pos (show addressSpace < m.flat.cursor + amount from leaves)]
    · rw [if_neg leaves, if_neg (show ¬addressSpace < m.flat.cursor + amount from leaves)]
      refine Prod.ext rfl ?_
      ext a : 2
      · refine (m.access_growHeap amount a.val).trans ?_
        by_cases passed : (pageOf m.heapPointer + 1) * pageSize < m.heapPointer + amount
        · have grows : m.HeapGrows amount := ⟨asks, Nat.not_lt.mp leaves, passed⟩
          simp only [grows, true_and]
          rw [if_pos (show (pageOf m.flat.cursor + 1) * pageSize < m.flat.cursor + amount from passed)]
          rfl
        · rw [if_neg fun both => passed both.1.2.2,
            if_neg (show ¬(pageOf m.flat.cursor + 1) * pageSize < m.flat.cursor + amount from passed)]
          rfl
      · refine (m.byte_growHeap amount a.val).trans ?_
        dsimp only
        split
        · rfl
        · rfl
      · rfl

/-! ## Questions -/

theorem accessAt_flat {k : Nat} (inside : k < pageCount) : m.flat.accessAt k = m.access k := by
  rw [FlatMemory.accessAt, dif_pos inside]
  rfl

theorem WellFormed.accessAt_flat (wellFormed : m.WellFormed) (k : Nat) : m.flat.accessAt k = m.access k := by
  by_cases inside : k < pageCount
  · exact Memory.accessAt_flat inside
  · rw [FlatMemory.accessAt, dif_neg inside, wellFormed.access_eq_none (Nat.not_lt.mp inside)]

theorem pageOf_lt_pageCount {a : Nat} (inside : a < addressSpace) : pageOf a < pageCount :=
  Nat.div_lt_of_lt_mul inside

theorem endsAllow_flat (m : Memory) (allowed : Access → Bool) (start len : Nat) :
    m.endsAllow allowed start len = m.flat.endsAllow allowed start len := by
  rw [endsAllow, FlatMemory.endsAllow]
  by_cases empty : len = 0
  · simp [empty]
  · by_cases inRange : start + len ≤ addressSpace
    · rw [accessAt_flat (pageOf_lt_pageCount (by omega)), accessAt_flat (pageOf_lt_pageCount (by omega))]
      rfl
    · simp [InRange, inRange]

theorem refusal?_flat (m : Memory) (allowed : Access → Bool) (start len : Nat) :
    m.refusal? allowed start len = m.flat.refusal? allowed start len := by
  rw [refusal?, FlatMemory.refusal?]
  by_cases empty : len = 0
  · simp [empty]
  · rw [if_neg empty]
    by_cases inRange : start + len ≤ addressSpace
    · have pages := touches_iff_pagesTouched start (Nat.pos_of_ne_zero empty)
      have inside : ∀ a, start ≤ a → a < start + len → m.flat.accessAt (pageOf a) = m.access (pageOf a) :=
        fun a _ high => accessAt_flat (pageOf_lt_pageCount (by omega))
      rw [if_pos (show InRange start len from inRange), if_pos (.inr inRange)]
      cases found : (List.range' start len).find? fun a => !allowed (m.flat.accessAt (pageOf a)) with
      | none =>
        rw [List.find?_range'_eq_none] at found
        have all : m.refusedPage? allowed (pagesTouched start len) (pageOf start) = none := by
          rw [refusedPage?_eq_none]
          intro k low high
          obtain ⟨a, above, below, rfl⟩ := (pages k).mpr ⟨low, high⟩
          have allowedHere := found a above below
          rw [Bool.not_not, inside a above below] at allowedHere
          exact allowedHere
        rw [all, Option.map_none, Option.map_none]
      | some a =>
        obtain ⟨refused, member, before⟩ := List.find?_range'_eq_some.mp found
        rw [List.mem_range'_1] at member
        obtain ⟨above, below⟩ := member
        rw [inside a above below, Bool.not_eq_true'] at refused
        obtain ⟨low, high⟩ := (pages (pageOf a)).mp ⟨a, above, below, rfl⟩
        have first : m.refusedPage? allowed (pagesTouched start len) (pageOf start) = some (pageOf a) := by
          refine refusedPage?_eq_some low high (by simp [refused]) ?_
          intro j lowest earlier
          obtain ⟨b, from', upto, rfl⟩ := (pages j).mpr ⟨lowest, by omega⟩
          -- An address on an earlier page comes earlier itself.
          have order : b < a := by
            refine Nat.lt_of_not_le fun later => ?_
            have := Nat.div_le_div_right (c := pageSize) later
            exact absurd this (Nat.not_le.mpr earlier)
          have allowedHere := before b from' order
          rw [Bool.not_not, inside b from' upto] at allowedHere
          exact allowedHere
        rw [first, Option.map_some, Option.map_some]
    · rw [if_neg (show ¬InRange start len from inRange), if_neg (by omega)]

theorem bytesAt_flat {start len : Nat} (inRange : len = 0 ∨ start + len ≤ addressSpace) :
    m.bytesAt start len = m.flat.bytesAt start len := by
  refine congrArg Array.ofFn (funext fun i => ?_)
  have place := i.isLt
  rw [FlatMemory.byteAt, dif_pos (by omega)]
  rfl

theorem read_flat (m : Memory) (start len : Nat) : m.read start len = m.flat.read start len := by
  rw [read, FlatMemory.read, ← refusal?_flat]
  cases passes : m.refusal? Access.isReadable start len with
  | some page => rfl
  | none => exact congrArg Except.ok (bytesAt_flat ((refusal?_eq_none ..).mp passes).1)

theorem load_flat (m : Memory) (address : UInt32) (len : Nat) :
    m.load address len = m.flat.load address len := by
  cases done : m.flat.read address.toNat len with
  | ok data => simp only [load, FlatMemory.load, read_flat, done]
  | error page => simp only [load, FlatMemory.load, read_flat, done]

theorem store_flat (m : Memory) (address : UInt32) (data : Bytes) :
    (m.store address data).map flat = m.flat.store address data := by
  rw [store, FlatMemory.store, ← refusal?_flat]
  cases m.refusal? Access.isWriteable address.toNat data.size with
  | some page => rfl
  | none => exact congrArg Except.ok (m.flat_write address.toNat data)

end Memory

/-! ## Sequences of operations -/

inductive MemoryOp where
  | write (start : Nat) (data : Bytes)
  | store (address : UInt32) (data : Bytes)
  | allocate (start stop : Nat) (content : Bytes) (access : Access)
  | setPages (first count : Nat) (access : Access) (zero : Bool)
  | setHeapPointer (pointer : Nat)
  | sbrk (amount : Nat)

/-- An allocation starts inside the address space, or where it ends. -/
def MemoryOp.StartsInside : MemoryOp → Prop
  | .allocate start _ _ _ => start ≤ addressSpace
  | _ => True

/-- The memory after an operation. A store that is refused changes nothing. -/
def Memory.apply (m : Memory) : MemoryOp → Option Memory
  | .write start data => some (m.write start data)
  | .store address data =>
    match m.store address data with
    | .ok stored => some stored
    | .error _ => some m
  | .allocate start stop content access => m.allocate start stop content access
  | .setPages first count access zero => some (m.setPages first count access zero)
  | .setHeapPointer pointer => some { m with heapPointer := pointer }
  | .sbrk amount => some (m.sbrk amount).2

def FlatMemory.apply (f : FlatMemory) : MemoryOp → FlatMemory
  | .write start data => f.write start data
  | .store address data =>
    match f.store address data with
    | .ok stored => stored
    | .error _ => f
  | .allocate start stop content access => f.allocate start stop content access
  | .setPages first count access zero => f.setPages first count access zero
  | .setHeapPointer pointer => { f with cursor := pointer }
  | .sbrk amount => (f.sbrk amount).2

namespace Memory

variable {m m' : Memory} {op : MemoryOp} {ops : List MemoryOp}

theorem flat_apply (done : m.apply op = some m') : m'.flat = m.flat.apply op := by
  cases op with
  | write start data =>
    obtain rfl := Option.some.inj done
    exact m.flat_write start data
  | store address data =>
    have square := m.store_flat address data
    rw [FlatMemory.apply, ← square]
    rw [apply] at done
    cases stored : m.store address data <;> simp only [stored, Option.some.injEq] at done <;> rw [← done] <;> rfl
  | allocate start stop content access =>
    rw [← place_of_allocate done]
    exact m.flat_place start stop content access
  | setPages first count access zero =>
    obtain rfl := Option.some.inj done
    exact m.flat_setPages first count access zero
  | setHeapPointer pointer =>
    obtain rfl := Option.some.inj done
    rfl
  | sbrk amount =>
    obtain rfl := Option.some.inj done
    exact congrArg Prod.snd (m.flat_sbrk amount)

theorem WellFormed.apply (wellFormed : m.WellFormed) (done : m.apply op = some m') : m'.WellFormed := by
  cases op with
  | write start data =>
    obtain rfl := Option.some.inj done
    exact wellFormed.write start data
  | store address data =>
    rw [Memory.apply, store] at done
    cases refused : m.refusal? Access.isWriteable address.toNat data.size with
    | some page =>
      simp only [refused, Option.some.injEq] at done
      exact done ▸ wellFormed
    | none =>
      simp only [refused, Option.some.injEq] at done
      exact done ▸ wellFormed.write address.toNat data
  | allocate start stop content access =>
    rw [← place_of_allocate done]
    exact wellFormed.place start stop content access
  | setPages first count access zero =>
    obtain rfl := Option.some.inj done
    exact wellFormed.setPages first count access zero
  | setHeapPointer pointer =>
    obtain rfl := Option.some.inj done
    exact wellFormed
  | sbrk amount =>
    obtain rfl := Option.some.inj done
    exact wellFormed.sbrk amount

theorem exists_apply (m : Memory) (inside : op.StartsInside) : ∃ m', m.apply op = some m' := by
  cases op with
  | allocate start stop content access => exact ⟨_, allocate_of_le stop content access inside⟩
  | store address data =>
    rw [apply]
    split
    · exact ⟨_, rfl⟩
    · exact ⟨_, rfl⟩
  | write | setPages | setHeapPointer | sbrk => exact ⟨_, rfl⟩

/-- Operations on the two memories go side by side. -/
theorem flat_foldlM_apply (done : ops.foldlM apply m = some m') : m'.flat = ops.foldl FlatMemory.apply m.flat := by
  induction ops generalizing m with
  | nil => exact Option.some.inj done ▸ rfl
  | cons op rest ih =>
    rw [List.foldlM_cons] at done
    obtain ⟨next, first, later⟩ := Option.bind_eq_some_iff.mp done
    rw [List.foldl_cons, ih later, flat_apply first]

theorem WellFormed.foldlM_apply (wellFormed : m.WellFormed) (done : ops.foldlM Memory.apply m = some m') :
    m'.WellFormed := by
  induction ops generalizing m with
  | nil => exact Option.some.inj done ▸ wellFormed
  | cons op rest ih =>
    rw [List.foldlM_cons] at done
    obtain ⟨next, first, later⟩ := Option.bind_eq_some_iff.mp done
    exact ih (wellFormed.apply first) later

theorem exists_foldlM_apply (m : Memory) (inside : ∀ op ∈ ops, op.StartsInside) :
    ∃ m', ops.foldlM apply m = some m' := by
  induction ops generalizing m with
  | nil => exact ⟨m, rfl⟩
  | cons op rest ih =>
    obtain ⟨here, others⟩ := List.forall_mem_cons.mp inside
    obtain ⟨next, first⟩ := m.exists_apply here
    obtain ⟨m', later⟩ := ih next others
    exact ⟨m', by simp [first, later]⟩

/-- The memory stores pages of the address space only, without data or with all of it, is seen as `f`,
and answers every question as `f` does. -/
structure Refines (m : Memory) (f : FlatMemory) : Prop where
  stored : ∀ k p, m.pages[k]? = some p → k < pageCount ∧ (p.data.size = 0 ∨ p.data.size = pageSize)
  flat : m.flat = f
  access : ∀ k, m.access k = f.accessAt k
  isReadable : ∀ start len, m.isReadable start len = f.isReadable start len
  isWriteable : ∀ start len, m.isWriteable start len = f.isWriteable start len
  read : ∀ start len, m.read start len = f.read start len
  load : ∀ address len, m.load address len = f.load address len
  store : ∀ address data, (m.store address data).map Memory.flat = f.store address data
  sbrk : ∀ amount, ((m.sbrk amount).1, (m.sbrk amount).2.flat) = f.sbrk amount
  read_ok : ∀ start len data, m.read start len = .ok data ↔
    (len = 0 ∨ start + len ≤ addressSpace) ∧
      (∀ k, Touches start (start + len) k → (f.accessAt k).isReadable = true) ∧
      data = f.bytesAt start len

theorem WellFormed.refines (wellFormed : m.WellFormed) : m.Refines m.flat where
  stored := wellFormed
  flat := rfl
  access k := (wellFormed.accessAt_flat k).symm
  isReadable := m.endsAllow_flat Access.isReadable
  isWriteable := m.endsAllow_flat Access.isWriteable
  read := m.read_flat
  load := m.load_flat
  store := m.store_flat
  sbrk := m.flat_sbrk
  read_ok start len data := by
    rw [read_eq_ok]
    simp only [wellFormed.accessAt_flat]
    refine and_congr_right fun inRange => ?_
    rw [bytesAt_flat inRange]

/-- The two memories show the same of page `k`. -/
def SamePage (m m' : Memory) (k : Nat) : Prop :=
  m'.access k = m.access k ∧ ∀ a, pageOf a = k → m'.byte a = m.byte a

theorem samePage_setPages (m : Memory) {first count k : Nat} (access : Access) (zero : Bool)
    (outside : ¬(first ≤ k ∧ k < first + count)) : m.SamePage (m.setPages first count access zero) k := by
  refine ⟨?_, ?_⟩
  · rw [access_setPages, if_neg (by omega)]
  · rintro a rfl
    rw [byte_setPages, if_neg (by omega)]

theorem samePage_sbrk (m : Memory) {amount k : Nat}
    (outside : ¬Touches m.heapPointer (m.heapPointer + amount) k) : m.SamePage (m.sbrk amount).2 k := by
  have kept : m.SamePage (m.growHeap amount) k := by
    refine ⟨?_, fun a _ => m.byte_growHeap amount a⟩
    rw [access_growHeap, if_neg fun both => outside both.2]
  rw [sbrk_eq]
  split
  · exact ⟨rfl, fun _ _ => rfl⟩
  · split
    · exact ⟨rfl, fun _ _ => rfl⟩
    · exact kept

/-- Whatever operations lead to from the empty memory is seen, and answers, as the flat memory after the
same operations; they lead to a memory if no allocation starts past the address space. Writing sets the
bytes of its range and no rights; allocation sets the rights of the pages it touches, and with content
makes them zero but for the part that is copied; mapping pages and moving the heap change no page
outside their range. -/
theorem operations_refine_flat (ops : List MemoryOp) :
    ((∀ op ∈ ops, op.StartsInside) → ∃ m, ops.foldlM apply empty = some m) ∧
    (∀ m, ops.foldlM apply empty = some m → m.Refines (ops.foldl FlatMemory.apply FlatMemory.empty)) ∧
    ∀ m : Memory,
      (∀ start data, (∀ k, (m.write start data).access k = m.access k) ∧
        ∀ a, (m.write start data).byte a =
          if start ≤ a ∧ a < min (start + data.size) addressSpace then data.getD (a - start) 0
          else m.byte a) ∧
      (∀ start stop content access m', m.allocate start stop content access = some m' →
        (∀ k, m'.access k = if Touches start (min stop addressSpace) k then access else m.access k) ∧
        (content.isEmpty = true → ∀ a, m'.byte a = m.byte a) ∧
        (¬content.isEmpty = true → ∀ a, m'.byte a =
          if Touches start (min stop addressSpace) (pageOf a) then
            if start ≤ a ∧ a < min (start + content.size) (min stop addressSpace) then
              content.getD (a - start) 0
            else 0
          else m.byte a)) ∧
      (∀ first count access zero k, ¬(first ≤ k ∧ k < first + count) →
        m.SamePage (m.setPages first count access zero) k) ∧
      ∀ amount k, ¬Touches m.heapPointer (m.heapPointer + amount) k → m.SamePage (m.sbrk amount).2 k := by
  refine ⟨empty.exists_foldlM_apply, ?_, fun m => ⟨?_, ?_, ?_, ?_⟩⟩
  · intro m done
    have flat := flat_foldlM_apply done
    rw [flat_empty] at flat
    exact flat ▸ (wellFormed_empty.foldlM_apply done).refines
  · intro start data
    exact ⟨m.access_write start data, m.byte_write start data⟩
  · intro start stop content access m' done
    rw [← place_of_allocate done]
    refine ⟨m.access_place start stop content access, m.byte_place_empty start stop access, fun given a => ?_⟩
    simp only [byte_place, Bool.not_eq_true] at given ⊢
    simp only [given, true_and]
  · intro first count access zero k outside
    exact m.samePage_setPages access zero outside
  · intro amount k outside
    exact m.samePage_sbrk outside

/-- Bytes written across two pages that are not mapped, which are mapped afterwards, one of them with
content. -/
theorem writtenPages_refine_flat :
    let ops : List MemoryOp := [.write 0x30ffe #[1, 2, 3, 4], .setPages 0x30 1 .readOnly false,
      .allocate 0x31000 0x31001 #[9] .readWrite]
    ∃ m, ops.foldlM apply empty = some m ∧ m.read 0x30ffe 4 = .ok #[1, 2, 9, 0] := by
  intro ops
  obtain ⟨leads, refines, -⟩ := operations_refine_flat ops
  obtain ⟨m, done⟩ := leads (by simp [ops, MemoryOp.StartsInside, addressSpace])
  refine ⟨m, done, ?_⟩
  rw [(refines m done).read]
  with_unfolding_all rfl

/-- Reading nothing succeeds past the address space, too. -/
theorem read_nothing_past_end :
    ¬∀ (ops : List MemoryOp) (m : Memory), ops.foldlM apply empty = some m → ∀ start len,
      (∃ data, m.read start len = .ok data) ↔
        (∀ k, Touches start (start + len) k → (m.access k).isReadable = true) ∧
          start + len ≤ addressSpace := by
  intro always
  have reads : empty.read 4294967297 0 = .ok #[] := rfl
  exact absurd ((always [] empty rfl 4294967297 0).mp ⟨#[], reads⟩).2 (by decide)

end Memory

end ServiceVm
