/-! # Registers -/
namespace ServiceVm

abbrev Reg := Fin 13

/-- Numbers past the last register name the last register. -/
def Reg.clamp (n : Nat) : Reg := ⟨min n 12, by omega⟩

namespace Reg

def r0 : Reg := ⟨0, by decide⟩
def r1 : Reg := ⟨1, by decide⟩
def r7 : Reg := ⟨7, by decide⟩
def r8 : Reg := ⟨8, by decide⟩
def r9 : Reg := ⟨9, by decide⟩
def r10 : Reg := ⟨10, by decide⟩
def r11 : Reg := ⟨11, by decide⟩
def r12 : Reg := ⟨12, by decide⟩

end Reg

/-- One value for every register. -/
abbrev RegFile (α : Type) := Vector α 13

namespace RegFile

def put {α : Type} (file : RegFile α) (r : Reg) (value : α) : RegFile α :=
  file.set r.val value r.isLt

theorem get_put {α : Type} (file : RegFile α) (r s : Reg) (value : α) :
    (file.put r value).get s = if r = s then value else file.get s := by
  change (file.set r.val value r.isLt)[s.val] = if r = s then value else file[s.val]
  simp only [Vector.getElem_set, Fin.ext_iff]

end RegFile

abbrev Registers := RegFile UInt64

def Registers.zero : Registers := Vector.replicate 13 0

end ServiceVm
