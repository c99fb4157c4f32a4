import LoongsonDune.Mmu.Table

/-!
# `kvm_mips_flush_gpa_{pte,pmd,pud,pgd,pt}`

The flush walks `[start_gpa, end_gpa]` (inclusive) level by level. At each level it visits the
indices `[i_min, i_max]` that the two ends select; a child below the first index gets the real
start, every later child gets `0` (the loop's `start_gpa = 0`), and only the last child gets the real
end, every earlier one `~0ul`. A leaf table is freed when its flush covered all of it, and a node
reports "safe to remove" to its parent only when its own index range was the whole node.

`forSlots` is each loop; the child's sub-range is written as the value the loop's variables hold in
iteration `i`.
-/

namespace LoongsonDune

variable (c : Config)

/-- `kvm_mips_flush_gpa_pte`: clear every present entry in `[i_min, i_max]`. -/
def kvmMipsFlushGpaPte (pte : PteTable) (startGpa endGpa : Nat) : Option (PteTable × Bool) :=
  let iMin := c.pteOffset startGpa
  let iMax := c.pteOffset endGpa
  forSlots (· && ·) (fun _ e => if !e.present then some (e, true) else some (Pte.zero, true))
    iMin (iMax + 1 - iMin) pte (iMin == 0 && iMax == c.ptrsPerPte - 1)

/-- One iteration of `kvm_mips_flush_gpa_pmd`'s loop, on a slot holding `p`, with the values
`start_gpa` and `end` hold in that iteration: skip an absent slot, clear a huge one, flush a leaf
table and free it when its flush covered all of it. -/
def flushGpaPmdSlot (startGpa «end» : Nat) (p : Pmd) : Option (Pmd × Bool) :=
  if !pmdPresent p then some (p, true)
  else if pmdHuge p then some (.invalid, true)
  else match p with
    | .table pte =>
      (kvmMipsFlushGpaPte c pte startGpa «end»).map fun r =>
        if r.2 then (.invalid, true) else (.table r.1, false)
    -- a present value that is neither huge nor a table is followed as a table pointer
    | _ => none

/-- `kvm_mips_flush_gpa_pmd`: clear huge entries, flush leaf tables and free those emptied whole. -/
def kvmMipsFlushGpaPmd (pmd : PmdTable) (startGpa endGpa : Nat) : Option (PmdTable × Bool) :=
  let iMin := c.pmdOffset startGpa
  let iMax := c.pmdOffset endGpa
  forSlots (· && ·) (fun i p =>
      flushGpaPmdSlot c (if i = iMin then startGpa else 0) (if i = iMax then endGpa else ulongMax) p)
    iMin (iMax + 1 - iMin) pmd (iMin == 0 && iMax == c.ptrsPerPmd - 1)

/-- `kvm_mips_flush_gpa_pud` over its single slot, the top-level slot itself (`PTRS_PER_PUD = 1`,
so `i_min = i_max = 0` and `safe_to_remove` starts true). -/
def kvmMipsFlushGpaPud (pud : Option PmdTable) (startGpa endGpa : Nat) :
    Option (Option PmdTable × Bool) :=
  match pud with
  | none => some (none, true)
  | some pmd => (kvmMipsFlushGpaPmd c pmd startGpa endGpa).map fun r =>
      if r.2 then (none, true) else (some r.1, false)

/-- `kvm_mips_flush_gpa_pgd`. `pgd_present` always holds and `pgd_clear`, `pud_free` do nothing
with the upper level folded: the slot is whatever the upper-level flush left. -/
def kvmMipsFlushGpaPgd (pgd : Pgd) (startGpa endGpa : Nat) : Option (Pgd × Bool) :=
  let iMin := c.pgdIndex startGpa
  let iMax := c.pgdIndex endGpa
  forSlots (· && ·) (fun i pud =>
      kvmMipsFlushGpaPud c pud (if i = iMin then startGpa else 0)
        (if i = iMax then endGpa else ulongMax))
    iMin (iMax + 1 - iMin) pgd (iMin == 0 && iMax == c.ptrsPerPgd - 1)

/-- `kvm_mips_flush_gpa_pt(kvm, start_gfn, end_gfn)`: flush the frames `[start_gfn, end_gfn]`;
true when the whole table may go. -/
def kvmMipsFlushGpaPt (pgd : Pgd) (startGfn endGfn : Nat) : Option (Pgd × Bool) :=
  kvmMipsFlushGpaPgd c pgd (c.gpaOf startGfn) (c.gpaOf endGfn)

end LoongsonDune
