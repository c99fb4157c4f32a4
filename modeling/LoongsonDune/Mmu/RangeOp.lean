import LoongsonDune.Mmu.Table

/-!
# `BUILD_PTE_RANGE_OP`: mark a range clean or old

The macro generates, for an entry operation `op` and its huge counterpart `op1`, a four-level walk
with the same index arithmetic as the flush. A present leaf entry that `op` changes is rewritten and
sets `ret`; a present huge entry that `op1` changes is rewritten too, but that branch `continue`s
without setting `ret`. `rangeOpPte` .. `rangeOpPgd` are the macro's four functions with `op` and
`op1` as parameters; `mkclean` and `mkold` are its two instances.
-/

namespace LoongsonDune

variable (c : Config)

/-- `kvm_mips_##name##_pte`. -/
def rangeOpPte (op : Pte → Pte) (pte : PteTable) (start «end» : Nat) : Option (PteTable × Bool) :=
  forSlots (· || ·) (fun _ old =>
      if !old.present then some (old, false)
      else if op old = old then some (old, false) else some (op old, true))
    (c.pteOffset start) (c.pteOffset «end» + 1 - c.pteOffset start) pte false

/-- `kvm_mips_##name##_pmd`: "returns true if anything was done". -/
def rangeOpPmd (op op1 : Pte → Pte) (pmd : PmdTable) (start «end» : Nat) :
    Option (PmdTable × Bool) :=
  let iMin := c.pmdOffset start
  let iMax := c.pmdOffset «end»
  forSlots (· || ·) (fun i p =>
      if !pmdPresent p then some (p, false)
      else match p with
        | .val old =>
          if old.huge then
            -- `set_pmd(pmd + i, new); continue;` leaves `ret` as it was
            if op1 old = old then some (p, false) else some (.val (op1 old), false)
          -- a present leaf-format value is followed as a table pointer
          else none
        | .table pte =>
          (rangeOpPte c op pte (if i = iMin then start else 0)
              (if i = iMax then «end» else ulongMax)).map fun r => (.table r.1, r.2)
        -- not reached: `invalid_pte_table` is never present
        | .invalid => some (p, false))
    iMin (iMax + 1 - iMin) pmd false

/-- `kvm_mips_##name##_pud` over the single upper-level slot. -/
def rangeOpPud (op op1 : Pte → Pte) (pud : Option PmdTable) (start «end» : Nat) :
    Option (Option PmdTable × Bool) :=
  match pud with
  | none => some (none, false)
  | some pmd => (rangeOpPmd c op op1 pmd start «end»).map fun r => (some r.1, r.2)

/-- `kvm_mips_##name##_pgd`. -/
def rangeOpPgd (op op1 : Pte → Pte) (pgd : Pgd) (start «end» : Nat) : Option (Pgd × Bool) :=
  let iMin := c.pgdIndex start
  let iMax := c.pgdIndex «end»
  forSlots (· || ·) (fun i pud =>
      rangeOpPud c op op1 pud (if i = iMin then start else 0) (if i = iMax then «end» else ulongMax))
    iMin (iMax + 1 - iMin) pgd false

/-- `kvm_mips_mkclean_pgd`, from `BUILD_PTE_RANGE_OP(mkclean, pte_mkclean, pmd_mkclean)`. -/
def kvmMipsMkcleanPgd (pgd : Pgd) (start «end» : Nat) : Option (Pgd × Bool) :=
  rangeOpPgd c pteMkclean pmdMkclean pgd start «end»

/-- `kvm_mips_mkold_pgd`, from `BUILD_PTE_RANGE_OP(mkold, pte_mkold, pmd_mkold)`. -/
def kvmMipsMkoldPgd (pgd : Pgd) (start «end» : Nat) : Option (Pgd × Bool) :=
  rangeOpPgd c pteMkold pmdMkold pgd start «end»

/-- `kvm_mips_mkclean_gpa_pt(kvm, start_gfn, end_gfn)`: whether any GPA mapping was modified. -/
def kvmMipsMkcleanGpaPt (pgd : Pgd) (startGfn endGfn : Nat) : Option (Pgd × Bool) :=
  kvmMipsMkcleanPgd c pgd (c.gpaOf startGfn) (c.gpaOf endGfn)

/-- `kvm_mips_mkold_gpa_pt(kvm, start_gfn, end_gfn)`. -/
def kvmMipsMkoldGpaPt (pgd : Pgd) (startGfn endGfn : Nat) : Option (Pgd × Bool) :=
  kvmMipsMkoldPgd c pgd (c.gpaOf startGfn) (c.gpaOf endGfn)

end LoongsonDune
