import LoongsonDune.Mmu.Flush
import LoongsonDune.Mmu.RangeOp

/-!
# Memory slots and the host-address notifier entry points

`handle_hva_to_gpa` turns a host virtual range into, for each memory slot it meets, the range of
that slot's guest frames `[gfn, gfn_end)` and hands it to a handler. The four users are the
notifier entry points: `kvm_unmap_hva_range`, `kvm_set_spte_hva`, `kvm_age_hva` and
`kvm_test_age_hva`. Their handlers only touch the GPA table, so a handler here maps a table to a
table and an `int` that only matters as zero or nonzero. The shadow flush the callers do afterwards
(`kvm_vz_flush_shadow_all`) acts on derived mappings and is part of the system model.

The memory-slot registry and its address arithmetic live in KVM's headers, outside the repository,
and are modelled from the spec's description of the memory-slot translator.
-/

namespace LoongsonDune

/-- Modelled from the spec: a memory slot, mapping the guest frames
`[baseGfn, baseGfn + npages)` onto host virtual pages from `userspaceAddr` on. -/
structure Memslot where
  baseGfn : Nat
  npages : Nat
  userspaceAddr : Nat
  /-- `KVM_MEM_READONLY`. -/
  readonly : Bool
deriving DecidableEq, Repr

/-- `a - b` on `unsigned long`. -/
def sub64 (a b : Nat) : Nat := u64 (a + (2 ^ 64 - u64 b))

variable (c : Config)

/-- Modelled from the spec: `slot_for(gfn) -> slot-or-none` (`gfn_to_memslot`). -/
def gfnToMemslot (slots : List Memslot) (gfn : Nat) : Option Memslot :=
  slots.find? fun s => s.baseGfn ≤ gfn && gfn < s.baseGfn + s.npages

/-- Modelled from the spec: `host_address(slot, gfn) -> (host_virtual_address, writable)`
(`gfn_to_hva_memslot_prot`); `none` is the error address of a missing slot. -/
def gfnToHvaMemslotProt (slot : Option Memslot) (gfn : Nat) : Option (Nat × Bool) :=
  slot.map fun s => (u64 (s.userspaceAddr + (gfn - s.baseGfn) * c.pageSize), !s.readonly)

/-- Modelled from the spec: the frame of a slot backing a host address (`hva_to_gfn_memslot`),
`base_gfn + ((hva - userspace_addr) >> PAGE_SHIFT)`. -/
def hvaToGfnMemslot (hva : Nat) (slot : Memslot) : Nat :=
  u64 (slot.baseGfn + sub64 hva slot.userspaceAddr / c.pageSize)

/-- A handler of `handle_hva_to_gpa`: the table, `gfn`, `gfn_end` and the slot in, the table and
the handler's result out; `none` when the handler faults. -/
abbrev HvaHandler := Pgd → Nat → Nat → Memslot → Option (Pgd × Bool)

/-- `handle_hva_to_gpa(kvm, start, end, handler, data)`: `kvm_for_each_memslot`, clip
`[start, end)` to the slot's host range, skip the slot when the clipped range is empty, and
`ret |= handler(kvm, gfn, gfn_end, memslot, data)`. -/
def handleHvaToGpa (start «end» : Nat) (handler : HvaHandler) :
    List Memslot → Pgd → Bool → Option (Pgd × Bool)
  | [], pgd, ret => some (pgd, ret)
  | memslot :: slots, pgd, ret =>
    let hvaStart := max start memslot.userspaceAddr
    let hvaEnd := min «end» (u64 (memslot.userspaceAddr + u64 (memslot.npages * c.pageSize)))
    if hvaStart ≥ hvaEnd then handleHvaToGpa start «end» handler slots pgd ret
    else
      let gfn := hvaToGfnMemslot c hvaStart memslot
      let gfnEnd := hvaToGfnMemslot c (u64 (hvaEnd + c.pageSize - 1)) memslot
      (handler pgd gfn gfnEnd memslot).bind fun r =>
        handleHvaToGpa start «end» handler slots r.1 (ret || r.2)

/-- `kvm_unmap_hva_handler`: flush `[gfn, gfn_end - 1]`, return 1. -/
def kvmUnmapHvaHandler : HvaHandler := fun pgd gfn gfnEnd _ =>
  (kvmMipsFlushGpaPt c pgd gfn (sub64 gfnEnd 1)).map fun r => (r.1, true)

/-- `kvm_set_spte_handler`: store the host's pte at the first frame of the range, and report
whether the replaced entry was a young mapping the new one does not keep. -/
def kvmSetSpteHandler (hvaPte : Pte) : HvaHandler := fun pgd gfn _ _ =>
  (kvmMipsPteForGpa c pgd none (c.gpaOf gfn)).bind fun w =>
    match w.ptep with
    | none => some (pgd, false)
    | some p => (pgd.readPte p).bind fun oldPte => (pgd.setPte p hvaPte).map fun pgd' =>
        (pgd', if !oldPte.present || !oldPte.young then false
          else !hvaPte.present || !hvaPte.young || oldPte.pfn != hvaPte.pfn ||
            (oldPte.dirty && !hvaPte.dirty))

/-- `kvm_age_hva_handler`: mark `[gfn, gfn_end]` old. -/
def kvmAgeHvaHandler : HvaHandler := fun pgd gfn gfnEnd _ =>
  kvmMipsMkoldGpaPt c pgd gfn gfnEnd

/-- `kvm_test_age_hva_handler`: the young bit of the entry the walk finds for `gfn`. -/
def kvmTestAgeHvaHandler : HvaHandler := fun pgd gfn _ _ =>
  (kvmMipsPteForGpa c pgd none (c.gpaOf gfn)).bind fun w =>
    match w.ptep with
    | none => some (pgd, false)
    | some p => (pgd.readPte p).map fun e => (pgd, e.young)

/-- `kvm_unmap_hva_range` before its shadow flush. -/
def kvmUnmapHvaRange (slots : List Memslot) (pgd : Pgd) (start «end» : Nat) : Option Pgd :=
  (handleHvaToGpa c start «end» (kvmUnmapHvaHandler c) slots pgd false).map Prod.fst

/-- `kvm_set_spte_hva` before its shadow flush: the table, and whether to flush. -/
def kvmSetSpteHva (slots : List Memslot) (pgd : Pgd) (hva : Nat) (pte : Pte) :
    Option (Pgd × Bool) :=
  handleHvaToGpa c hva (u64 (hva + c.pageSize)) (kvmSetSpteHandler c pte) slots pgd false

/-- `kvm_age_hva`. -/
def kvmAgeHva (slots : List Memslot) (pgd : Pgd) (start «end» : Nat) : Option (Pgd × Bool) :=
  handleHvaToGpa c start «end» (kvmAgeHvaHandler c) slots pgd false

/-- `kvm_test_age_hva`: `handle_hva_to_gpa(kvm, hva, hva, ...)`. -/
def kvmTestAgeHva (slots : List Memslot) (pgd : Pgd) (hva : Nat) : Option Bool :=
  (handleHvaToGpa c hva hva (kvmTestAgeHvaHandler c) slots pgd false).map Prod.snd

end LoongsonDune
