import LoongsonDune.Mmu.Config

/-!
# GPA-table entries

An entry value (`pte_t`, and `pmd_t` for a huge middle-level entry) as the bits `kern/mmu.c`
reads and writes: present, writable, dirty, young, huge, the frame number and the cacheability
class. The bit helpers (`pte_mkyoung`, `pmd_mkclean`, `pfn_pte`, ...) are architecture macros the
repository does not carry, so they are modelled from the spec's description of a mapping entry:
each one sets or clears exactly the flag its name says.

A leaf-format value and a huge value are told apart by the huge bit alone, exactly as `pmd_huge`
does; nothing in the type stops a non-huge value from landing in a middle-level slot, because the
code can put one there.
-/

namespace LoongsonDune

/-- Modelled from the spec: a mapping entry, "host physical frame number, plus flags: present,
writable, dirty, young, cacheability class", with the `_PAGE_HUGE` bit `pmd_huge` tests. -/
structure Pte where
  /-- `pte_pfn`. -/
  pfn : Nat
  /-- `pte_present`. -/
  present : Bool
  /-- `pte_write`. -/
  write : Bool
  /-- `pte_dirty`. -/
  dirty : Bool
  /-- `pte_young`. -/
  young : Bool
  /-- `_PAGE_HUGE`, read by `pmd_huge`. -/
  huge : Bool
  /-- The cacheability class. -/
  cca : Nat
deriving DecidableEq, Repr, Inhabited

namespace Pte

/-- `__pte(0)`, the value `clear_page` and the flush leave in a leaf slot. -/
def zero : Pte := ⟨0, false, false, false, false, false, 0⟩

@[simp] theorem zero_present : zero.present = false := rfl
@[simp] theorem zero_dirty : zero.dirty = false := rfl
@[simp] theorem zero_huge : zero.huge = false := rfl

end Pte

/-- Modelled from the spec: `pte_mkyoung` sets the young flag. -/
def pteMkyoung (e : Pte) : Pte := { e with young := true }
/-- Modelled from the spec: `pte_mkdirty` sets the dirty flag. -/
def pteMkdirty (e : Pte) : Pte := { e with dirty := true }
/-- Modelled from the spec: `pte_mkclean` clears the dirty flag. -/
def pteMkclean (e : Pte) : Pte := { e with dirty := false }
/-- Modelled from the spec: `pte_mkold` clears the young flag. -/
def pteMkold (e : Pte) : Pte := { e with young := false }
/-- Modelled from the spec: `pmd_mkclean` clears the dirty flag of a huge entry. -/
def pmdMkclean (e : Pte) : Pte := { e with dirty := false }
/-- Modelled from the spec: `pmd_mkold` clears the young flag of a huge entry. -/
def pmdMkold (e : Pte) : Pte := { e with young := false }
/-- Modelled from the spec: `pmd_mkhuge` sets the huge bit. -/
def pmdMkhuge (e : Pte) : Pte := { e with huge := true }

/-- The prot bits `kvm_mips_map_page` builds: `_PAGE_PRESENT | __READABLE` always (so a new entry
is young), `_PAGE_WRITE` when the host frame is writeable, and `__WRITEABLE` (write and dirty) on
a write fault to it, with the default cacheability class. -/
def mapPageProt (c : Config) (writeable writeFault : Bool) : Pte :=
  { pfn := 0, present := true, young := true, write := writeable,
    dirty := writeable && writeFault, huge := false, cca := c.pageCachableDefault }

/-- Modelled from the spec: `pfn_pte(pfn, prot)` and `pfn_pmd(pfn, prot)` put a frame number
under the prot bits. -/
def pfnPte (pfn : Nat) (prot : Pte) : Pte := { prot with pfn := pfn }
def pfnPmd (pfn : Nat) (prot : Pte) : Pte := { prot with pfn := pfn }

section
variable (e : Pte)
@[simp] theorem pteMkyoung_dirty : (pteMkyoung e).dirty = e.dirty := rfl
@[simp] theorem pteMkyoung_write : (pteMkyoung e).write = e.write := rfl
@[simp] theorem pteMkyoung_present : (pteMkyoung e).present = e.present := rfl
@[simp] theorem pteMkyoung_pfn : (pteMkyoung e).pfn = e.pfn := rfl
@[simp] theorem pteMkyoung_huge : (pteMkyoung e).huge = e.huge := rfl
@[simp] theorem pteMkdirty_dirty : (pteMkdirty e).dirty = true := rfl
@[simp] theorem pteMkdirty_write : (pteMkdirty e).write = e.write := rfl
@[simp] theorem pteMkdirty_present : (pteMkdirty e).present = e.present := rfl
@[simp] theorem pteMkdirty_pfn : (pteMkdirty e).pfn = e.pfn := rfl
@[simp] theorem pteMkdirty_huge : (pteMkdirty e).huge = e.huge := rfl
@[simp] theorem pteMkclean_dirty : (pteMkclean e).dirty = false := rfl
@[simp] theorem pteMkold_dirty : (pteMkold e).dirty = e.dirty := rfl
@[simp] theorem pteMkold_write : (pteMkold e).write = e.write := rfl
@[simp] theorem pteMkold_present : (pteMkold e).present = e.present := rfl
@[simp] theorem pmdMkclean_dirty : (pmdMkclean e).dirty = false := rfl
@[simp] theorem pmdMkold_dirty : (pmdMkold e).dirty = e.dirty := rfl
@[simp] theorem pmdMkold_write : (pmdMkold e).write = e.write := rfl
@[simp] theorem pmdMkold_present : (pmdMkold e).present = e.present := rfl
@[simp] theorem pmdMkclean_huge : (pmdMkclean e).huge = e.huge := rfl
@[simp] theorem pmdMkold_huge : (pmdMkold e).huge = e.huge := rfl
@[simp] theorem pmdMkhuge_dirty : (pmdMkhuge e).dirty = e.dirty := rfl
@[simp] theorem pmdMkhuge_write : (pmdMkhuge e).write = e.write := rfl
@[simp] theorem pmdMkhuge_present : (pmdMkhuge e).present = e.present := rfl
@[simp] theorem pmdMkhuge_pfn : (pmdMkhuge e).pfn = e.pfn := rfl
@[simp] theorem pmdMkhuge_huge : (pmdMkhuge e).huge = true := rfl
@[simp] theorem pfnPte_dirty (pfn : Nat) : (pfnPte pfn e).dirty = e.dirty := rfl
@[simp] theorem pfnPte_write (pfn : Nat) : (pfnPte pfn e).write = e.write := rfl
@[simp] theorem pfnPte_present (pfn : Nat) : (pfnPte pfn e).present = e.present := rfl
@[simp] theorem pfnPte_pfn (pfn : Nat) : (pfnPte pfn e).pfn = pfn := rfl
@[simp] theorem pfnPte_huge (pfn : Nat) : (pfnPte pfn e).huge = e.huge := rfl
@[simp] theorem pfnPmd_dirty (pfn : Nat) : (pfnPmd pfn e).dirty = e.dirty := rfl
@[simp] theorem pfnPmd_write (pfn : Nat) : (pfnPmd pfn e).write = e.write := rfl
@[simp] theorem pfnPmd_present (pfn : Nat) : (pfnPmd pfn e).present = e.present := rfl
@[simp] theorem pfnPmd_pfn (pfn : Nat) : (pfnPmd pfn e).pfn = pfn := rfl
end

section
variable (c : Config) (writeable writeFault : Bool)
@[simp] theorem mapPageProt_present : (mapPageProt c writeable writeFault).present = true := rfl
@[simp] theorem mapPageProt_write : (mapPageProt c writeable writeFault).write = writeable := rfl
@[simp] theorem mapPageProt_dirty :
    (mapPageProt c writeable writeFault).dirty = (writeable && writeFault) := rfl
@[simp] theorem mapPageProt_young : (mapPageProt c writeable writeFault).young = true := rfl
@[simp] theorem mapPageProt_huge : (mapPageProt c writeable writeFault).huge = false := rfl
end

end LoongsonDune
