import ServiceVm.Memory.Basic

/-! # Mapping pages and growing the heap -/
namespace ServiceVm.Memory

/-- Applies `f` to `count` pages from `page` on; pages not stored count as inaccessible zeros. -/
def updatePages (pages : Std.TreeMap Nat Page) (f : Page → Page) :
    (count : Nat) → (page : Nat) → Std.TreeMap Nat Page
  | 0, _ => pages
  | count + 1, page =>
    updatePages (pages.alter page fun stored => some (f (stored.getD (Page.zeroed .none))))
      f count (page + 1)

/-- Maps the pages of `[start, stop)`. Content is copied to the start and the rest of the pages
becomes zero; without content the pages keep their bytes. The end is cut off before the room for the
content is taken, so that a start past the address space leaves less than nothing: then there is no
answer. -/
def allocate (m : Memory) (start stop : Nat) (content : Bytes) (access : Access) : Option Memory :=
  if stop ≤ start then some m
  else
    let stop := min stop addressSpace
    let count := pageOf (stop - 1) + 1 - pageOf start
    let pages := updatePages m.pages (Page.remap access !content.isEmpty) count (pageOf start)
    let mapped : Memory := { m with pages }
    if content.isEmpty then some mapped
    else if stop < start then none
    else some (mapped.write start (content.extract 0 (min content.size (stop - start))))

/-- Sets the rights of `count` pages from `first` on, and with `zero` clears them. -/
def setPages (m : Memory) (first count : Nat) (access : Access) (zero : Bool) : Memory :=
  let count := min (first + count) pageCount - first
  { m with pages := updatePages m.pages (Page.remap access zero) count first }

/-- Moves the end of the heap up by `amount` and makes the pages it passes writeable. Answers the
new end, or 0 if that would leave the address space; an amount of 0 asks for the current end. -/
def sbrk (m : Memory) (amount : Nat) : Nat × Memory :=
  if amount = 0 then (m.heapPointer, m)
  else
    let next := m.heapPointer + amount
    if addressSpace < next then (0, m)
    else
      let boundary := (pageOf m.heapPointer + 1) * pageSize
      let pages :=
        if boundary < next then
          updatePages m.pages (fun p => { p with access := .readWrite })
            (pageOf (next - 1) + 1 - pageOf m.heapPointer) (pageOf m.heapPointer)
        else m.pages
      (next, { pages, heapPointer := next })

end ServiceVm.Memory
