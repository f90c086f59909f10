import ServiceVm.Bytes
import ServiceVm.Protocol

/-! # Pages of memory -/
namespace ServiceVm

inductive Access where
  | none
  | readOnly
  | readWrite
deriving DecidableEq, Repr, Inhabited

namespace Access

def isReadable : Access → Bool
  | .none => false
  | _ => true

def isWriteable : Access → Bool
  | .readWrite => true
  | _ => false

end Access

/-- A page without data reads as zeros. The first write gives it data, which then is that of the whole
page. -/
structure Page where
  access : Access
  data : Bytes

namespace Page

def zeroed (access : Access) : Page := ⟨access, #[]⟩

instance : Inhabited Page := ⟨zeroed .none⟩

def byte (p : Page) (place : Nat) : UInt8 :=
  if p.data.isEmpty then 0 else p.data.getD place 0

/-- The data that a write starts from. -/
def materialised (p : Page) : Bytes :=
  if p.data.isEmpty then p.data.resize pageSize else p.data

/-- Copies `part` to the places from `offset` on. -/
def write (p : Page) (offset : Nat) (part : Bytes) : Page :=
  { p with data := p.materialised.overwrite offset part }

/-- Fills the data with zeros; a page without data stays without. -/
def clear (p : Page) : Page := { p with data := Bytes.zeros p.data.size }

def remap (access : Access) (clears : Bool) (p : Page) : Page :=
  let p := { p with access }
  if clears then p.clear else p

end Page

end ServiceVm
