import Std.Data.TreeMap
import ServiceVm.Exit
import ServiceVm.Memory.Page

/-!
# Paged memory

Addresses run from 0 to `addressSpace - 1`. A page that is not stored is inaccessible and reads as
zeros. Pages carry the right to read or write them; `write` ignores these rights and is for callers
that have checked them.
-/
namespace ServiceVm

structure Memory where
  pages : Std.TreeMap Nat Page := ∅
  /-- End of the heap, moved by `sbrk`. -/
  heapPointer : Nat := 0
deriving Inhabited

def pageOf (address : Nat) : Nat := address / pageSize

namespace Memory

def empty : Memory := {}

def access (m : Memory) (page : Nat) : Access :=
  match m.pages[page]? with
  | some p => p.access
  | none => .none

def byte (m : Memory) (address : Nat) : UInt8 :=
  match m.pages[pageOf address]? with
  | some p => p.byte (address % pageSize)
  | none => 0

/-- Whether `[start, start + len)` stays inside the address space. -/
def InRange (start len : Nat) : Prop := start + len ≤ addressSpace

instance : Decidable (InRange start len) := inferInstanceAs (Decidable (_ ≤ _))

/-- Checks the first and the last page of a range; an empty range passes. -/
def endsAllow (m : Memory) (allowed : Access → Bool) (start len : Nat) : Bool :=
  len == 0 || (decide (InRange start len) &&
    allowed (m.access (pageOf start)) && allowed (m.access (pageOf (start + len - 1))))

def isReadable (m : Memory) (start len : Nat) : Bool := m.endsAllow Access.isReadable start len

def isWriteable (m : Memory) (start len : Nat) : Bool := m.endsAllow Access.isWriteable start len

/-- First of `count` pages from `page` on that is not allowed. -/
def refusedPage? (m : Memory) (allowed : Access → Bool) : (count : Nat) → (page : Nat) → Option Nat
  | 0, _ => none
  | count + 1, page =>
    if allowed (m.access page) then m.refusedPage? allowed count (page + 1) else some page

/-- Number of pages touched by a range that is not empty. -/
def pagesTouched (start len : Nat) : Nat := pageOf (start + len - 1) + 1 - pageOf start

/-- Start of the first page of the range that is not allowed. A range that leaves the address space
is refused at the last page. -/
def refusal? (m : Memory) (allowed : Access → Bool) (start len : Nat) : Option UInt32 :=
  if len = 0 then none
  else if InRange start len then
    (m.refusedPage? allowed (pagesTouched start len) (pageOf start)).map
      fun page => UInt32.ofNat (page * pageSize)
  else some (UInt32.ofNat ((pageCount - 1) * pageSize))

/-- The bytes of a range whatever the rights of its pages. -/
def bytesAt (m : Memory) (start len : Nat) : Bytes :=
  Array.ofFn (n := len) fun i => m.byte (start + i)

/-- The bytes of a range of readable pages, or the start of its first unreadable page. -/
def read (m : Memory) (start len : Nat) : Except UInt32 Bytes :=
  match m.refusal? Access.isReadable start len with
  | some page => .error page
  | none => .ok (m.bytesAt start len)

def writePages (pages : Std.TreeMap Nat Page) (data : Bytes) :
    (count : Nat) → (page offset first : Nat) → Std.TreeMap Nat Page
  | 0, _, _, _ => pages
  | count + 1, page, offset, first =>
    let chunk := min (pageSize - offset) (data.size - first)
    let part := data.extract first (first + chunk)
    let pages := pages.alter page fun stored =>
      some ((stored.getD (Page.zeroed .none)).write offset part)
    writePages pages data count (page + 1) 0 (first + chunk)

/-- Writes whatever the rights of the pages; a page that was not stored stays inaccessible. Bytes
past the address space are dropped. -/
def write (m : Memory) (start : Nat) (data : Bytes) : Memory :=
  let data := data.extract 0 (addressSpace - start)
  if data.size = 0 then m
  else
    let count := pagesTouched start data.size
    { m with pages := writePages m.pages data count (pageOf start) (start % pageSize) 0 }

/-- Exit of an instruction that touches an inaccessible page. The first zone is never mapped, and
touching it is a panic. -/
def faultExit (address : UInt32) : Exit :=
  if address.toNat < zoneSize then .panic
  else .pageFault (UInt32.ofNat (address.toNat / pageSize * pageSize))

def load (m : Memory) (address : UInt32) (len : Nat) : Except Exit Bytes :=
  match m.read address.toNat len with
  | .ok data => .ok data
  | .error page => .error (faultExit page)

def store (m : Memory) (address : UInt32) (data : Bytes) : Except Exit Memory :=
  match m.refusal? Access.isWriteable address.toNat data.size with
  | some page => .error (faultExit page)
  | none => .ok (m.write address.toNat data)

end Memory

end ServiceVm
