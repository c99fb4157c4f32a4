import LoongsonDune.Mmu.Hva

/-!
# The GPA fault handler: `kvm_mips_map_page` and its helpers

`kvm_mips_map_page` is a sequence of atomic pieces, because the code drops and retakes locks
between them and a host invalidation can run in every gap:

* the fast path `_kvm_mips_map_page_fast`, under `mmu_lock` (`kvmMipsMapPageFast`);
* the memslot and VMA lookup with the huge/base size decision (`mapPageLookup`);
* the node-pool top-up (`mmuTopupMemoryCache`);
* the snapshot of `mmu_notifier_seq` and the host frame resolution (`gfnToPfnProt`);
* the commit under `mmu_lock`, or the jump back to `retry:` (`mapPageCommit`).

The system model (`System.lean`) runs them as separate steps of a vCPU thread. The host side
(its page table, VMAs and page flags) is outside the repository and is modelled from the spec's
interface to the host allocator.
-/

namespace LoongsonDune

open Function

/-- `RESUME_HOST` (`RESUME_FLAG_HOST`), which the root fault handler returns for an invisible
frame on Loongson-3 compatible CPUs. -/
def RESUME_HOST : Int := 2

/-- `CAUSEB_EXCCODE` and the exception codes of a read- or execute-inhibit TLB exception. -/
def CAUSEB_EXCCODE : Nat := 2
def EXCCODE_TLBRI : Nat := 19
def EXCCODE_TLBXI : Nat := 20

/-- `KVM_MMU_CACHE_MIN_PAGES`: one node per level below the top. -/
def KVM_MMU_CACHE_MIN_PAGES : Nat := 2

/-- The parts of `struct vz_vm` the GPA code reads and writes. -/
structure Vm where
  /-- `gpa_mm.pgd`. -/
  pgd : Pgd
  mmuNotifierSeq : Nat
  mmuNotifierCount : Nat
  /-- The dirty log: the frames passed to `mark_page_dirty` since their bit was last cleared. -/
  dirtyLog : Nat → Bool

/-- Modelled from the spec: the host side of a fault, the host allocator's view of the process. -/
structure Host where
  /-- The host pte of each host virtual page (by page number): what `resolve_frame` returns. -/
  pte : Nat → Pte
  /-- `vma_kernel_pagesize` of the VMA holding a host virtual page; `none` when
  `find_vma_intersection` finds no VMA. -/
  vmaPagesize : Nat → Option Nat
  /-- `!PageHuge(page) && PageTransCompound(page) && mapcount < 0` for a host frame: a PMD-mapped
  transparent huge page. -/
  thp : Nat → Bool

/-- `mark_page_dirty(kvm, gfn)` on the dirty log. -/
def markPageDirty (log : Nat → Bool) (gfn : Nat) : Nat → Bool := update log gfn true

/-- `for (i = 0; i < PTRS_PER_PTE; i++) mark_page_dirty(kvm, base_gfn + i)`. -/
def markBlockDirty (c : Config) (log : Nat → Bool) (baseGfn : Nat) : Nat → Bool :=
  (List.range c.ptrsPerPte).foldl (fun l i => markPageDirty l (baseGfn + i)) log

/-- `mmu_notifier_retry(kvm, mmu_seq)`: an invalidation is running or one ended since the
snapshot. -/
def mmuNotifierRetry (vm : Vm) (mmuSeq : Nat) : Bool :=
  vm.mmuNotifierCount != 0 || vm.mmuNotifierSeq != mmuSeq

variable (c : Config)

/-- `mmu_topup_memory_cache(cache, min, max)` on a pool of `nobjs` nodes, when the host can hand
out `avail` more pages: fill up to `max` one page at a time, `-ENOMEM` when a page is refused.
`BUG_ON(max > KVM_NR_MEM_OBJS)` cannot fire: the only caller passes `KVM_NR_MEM_OBJS`. -/
def mmuTopupMemoryCache (nobjs min max avail : Nat) : Int × Nat :=
  if nobjs ≥ min then (0, nobjs) else fill nobjs avail
where
  /-- `while (cache->nobjs < max)`, with `avail` pages left to hand out. -/
  fill : Nat → Nat → Int × Nat
    | nobjs, 0 => if nobjs < max then (-ENOMEM, nobjs) else (0, nobjs)
    | nobjs, avail + 1 => if nobjs < max then fill (nobjs + 1) avail else (0, nobjs)

/-! ## The fast path -/

/-- `_kvm_mips_map_page_fast`: under `mmu_lock`, find the entry for `gpa`; mark it young, and on a
write fault to a writable clean entry mark it dirty and log the frame, or every frame of the block
when the entry is huge. Returns `0` or `-EFAULT` with the VM after its updates. -/
def kvmMipsMapPageFast (vm : Vm) (gpa : Nat) (writeFault : Bool) : Option (Int × Vm) :=
  let gfn := gpa / c.pageSize
  (kvmMipsPteForGpa c vm.pgd none gpa).bind fun w =>
    match w.ptep with
    | none => some (-EFAULT, vm)
    | some ptep => (vm.pgd.readPte ptep).bind fun e =>
      if !e.present then some (-EFAULT, vm)
      else (if !e.young then vm.pgd.setPte ptep (pteMkyoung e) else some vm.pgd).bind fun pgd =>
        (pgd.readPte ptep).bind fun e =>
          if writeFault && !e.dirty then
            if !e.write then some (-EFAULT, { vm with pgd := pgd })
            else (pgd.setPte ptep (pteMkdirty e)).bind fun pgd =>
              -- `pmd_huge(*((pmd_t *)ptep))`: the huge bit of the value just stored
              (pgd.readPte ptep).map fun e =>
                let log := if e.huge then markBlockDirty c vm.dirtyLog (c.pmdMask gpa / c.pageSize)
                  else markPageDirty vm.dirtyLog gfn
                (0, { vm with pgd := pgd, dirtyLog := log })
          else some (0, { vm with pgd := pgd })

/-! ## Huge mappings -/

/-- `fault_supports_huge_mapping(memslot, hva, map_size)`: the slot's guest and host ranges share
their alignment within `map_size`, and the `map_size` block around `hva` lies inside the slot. -/
def faultSupportsHugeMapping (memslot : Memslot) (hva mapSize : Nat) : Bool :=
  let size := u64 (memslot.npages * c.pageSize)
  let gpaStart := c.gpaOf memslot.baseGfn
  let uaddrStart := memslot.userspaceAddr
  let uaddrEnd := u64 (uaddrStart + size)
  let mask := sub64 mapSize 1
  if gpaStart &&& mask != uaddrStart &&& mask then false
  else hva &&& (ulongMax - mask) ≥ uaddrStart && u64 ((hva &&& (ulongMax - mask)) + mapSize) ≤ uaddrEnd

/-- `transparent_hugepage_adjust(&pfn, &gpa)`: for a frame of a transparent huge page, move `pfn`
and `gpa` down to the head of the block (`mask = PTRS_PER_PMD - 1`) and report true. The
`VM_BUG_ON` on the congruence is compiled out. -/
def transparentHugepageAdjust (host : Host) (pfn gpa : Nat) : Option (Nat × Nat) :=
  if host.thp pfn then
    if pfn % c.ptrsPerPmd ≠ 0 then some (pfn / c.ptrsPerPmd * c.ptrsPerPmd, c.pmdMask gpa)
    else some (pfn, gpa)
  else none

/-- `kvm_mips_get_pmd(kvm, cache, addr)` with a cache: the middle table for `addr`, allocated
from the pool when the top slot is `invalid_pmd_table`. `kvm_mips_get_pud` is the top slot
itself, and `pud_huge` never holds with the upper level folded. -/
def kvmMipsGetPmd (pgd : Pgd) (cache : Nat) (addr : Nat) : Option (Pgd × Nat × PmdTable) :=
  match pgd (c.pgdIndex addr) with
  | some pmd => some (pgd, cache, pmd)
  | none => (mmuMemoryCacheAlloc cache).map fun n =>
      (update pgd (c.pgdIndex addr) (some pmdInit), n, pmdInit)

/-- `kvm_mips_set_pmd_huge(vcpu, cache, addr, new_pmd)` with at most `fuel` passes through its
`retry:` label. A present leaf table under the slot is flushed and the walk retried; a present
huge entry is cleared. Returns the table, the pool, and whether `kvm_vz_host_tlb_inv` ran for the
block. -/
def kvmMipsSetPmdHuge (pgd : Pgd) (cache : Nat) (addr : Nat) (newPmd : Pte) :
    Nat → Option (Pgd × Nat × Bool)
  | 0 => none
  | fuel + 1 => (kvmMipsGetPmd c pgd cache addr).bind fun r =>
    let pgd := r.1
    let cache := r.2.1
    let pmd := r.2.2
    let old := pmd (c.pmdOffset addr)
    let install := update pgd (c.pgdIndex addr) (some (update pmd (c.pmdOffset addr) (.val newPmd)))
    match old with
    | .val e => if e = newPmd then some (pgd, cache, false)
      else if pmdPresent old && !pmdHuge old then
        (kvmMipsFlushGpaPt c pgd (c.pmdMask addr / c.pageSize)
            (u64 (c.pmdMask addr + c.pmdSize - 1) / c.pageSize)).bind fun r =>
          kvmMipsSetPmdHuge r.1 cache addr newPmd fuel
      else some (install, cache, true)
    | .table _ =>
      (kvmMipsFlushGpaPt c pgd (c.pmdMask addr / c.pageSize)
          (u64 (c.pmdMask addr + c.pmdSize - 1) / c.pageSize)).bind fun r =>
        kvmMipsSetPmdHuge r.1 cache addr newPmd fuel
    | .invalid => some (install, cache, true)

/-! ## The slow path -/

/-- What the unlocked memslot/VMA step decides for the rest of the fault. -/
structure Decision where
  memslot : Memslot
  hva : Nat
  forcePte : Bool
  vmaPagesize : Nat
  /-- The frame to resolve: the block's first frame for a `PMD_SIZE` hugetlbfs VMA. -/
  gfn : Nat
deriving DecidableEq, Repr

/-- The memslot and VMA lookup of `kvm_mips_map_page` with its page-size decision. On a missing
slot or a write to a read-only slot the function jumps to `out` and returns `err`, whatever the
fast path left in it. -/
def mapPageLookup (slots : List Memslot) (host : Host) (gpa : Nat) (writeFault : Bool)
    (err : Int) : Except Int Decision :=
  let gfn := gpa / c.pageSize
  let memslot := gfnToMemslot slots gfn
  match memslot, gfnToHvaMemslotProt c memslot gfn with
  | some memslot, some (hva, writable) =>
    if writeFault && !writable then .error err
    else match host.vmaPagesize (hva / c.pageSize) with
      | none => .error (-EFAULT)
      | some vmaPagesize =>
        let forcePte := !faultSupportsHugeMapping c memslot hva vmaPagesize
        let vmaPagesize := if forcePte then c.pageSize else vmaPagesize
        .ok ⟨memslot, hva, forcePte, vmaPagesize,
          if vmaPagesize = c.pmdSize then c.pmdMask gpa / c.pageSize else gfn⟩
  | _, _ => .error err

/-- Modelled from the spec: `resolve_frame(gfn, write_intent) -> (pfn, writable) | error`
(`gfn_to_pfn_prot`): the host pte behind the slot's host address. A write needs a host pte that
is already writable; the host's copy-on-write runs as its own invalidation beforehand. -/
def gfnToPfnProt (slots : List Memslot) (host : Host) (gfn : Nat) (writeFault : Bool) :
    Option (Nat × Bool) :=
  match gfnToMemslot slots gfn with
  | none => none
  | some s =>
    let e := host.pte (u64 (s.userspaceAddr + (gfn - s.baseGfn) * c.pageSize) / c.pageSize)
    if writeFault && s.readonly || !e.present || writeFault && !e.write then none
    else some (e.pfn, e.write && !s.readonly)

/-- How the locked commit ends. -/
inductive Commit where
  /-- `mmu_notifier_retry`: unlock, release the frame and go back to `retry:`. -/
  | retry
  /-- Committed: the VM and pool after the commit, and the page `kvm_vz_host_tlb_inv` dropped. -/
  | done (vm : Vm) (cache : Nat) (tlbInv : Option Nat)

/-- The THP step of the commit: a base-page decision that the slot's alignment lets grow to
`PMD_SIZE` tries `transparent_hugepage_adjust`. The final page size, frame and address. -/
def mapPageAdjust (host : Host) (d : Decision) (pfn gpa : Nat) : Nat × Nat × Nat :=
  let thp := if d.vmaPagesize = c.pageSize && !d.forcePte &&
      faultSupportsHugeMapping c d.memslot d.hva c.pmdSize then
      transparentHugepageAdjust c host pfn gpa else none
  match thp with
  | some (pfn, gpa) => (c.pmdSize, pfn, gpa)
  | none => (d.vmaPagesize, pfn, gpa)

/-- The install under `mmu_lock` once the page size, frame and address are final: build the prot
bits, then a huge entry through `kvm_mips_set_pmd_huge` (with `fuel` passes), or one leaf entry
through the allocating walk. `gfn` is the frame the decision resolved, which the base-page path
logs. -/
def mapPageInstall (vm : Vm) (cache gpa : Nat) (writeFault : Bool) (gfn vmaPagesize pfn : Nat)
    (writeable : Bool) (fuel : Nat) : Option Commit :=
  let prot := mapPageProt c writeable writeFault
  if vmaPagesize = c.pmdSize then
    let newPmd := pmdMkhuge (pfnPmd pfn prot)
    let log := if writeable && writeFault then
      markBlockDirty c vm.dirtyLog (c.pmdMask gpa / c.pageSize) else vm.dirtyLog
    (kvmMipsSetPmdHuge c vm.pgd cache gpa newPmd fuel).map fun r =>
      .done { vm with pgd := r.1, dirtyLog := log } r.2.1
        (if r.2.2 then some (c.pmdMask gpa / c.pageSize) else none)
  else
    let newPte := pfnPte pfn prot
    let log := if writeable && writeFault then markPageDirty vm.dirtyLog gfn else vm.dirtyLog
    (kvmMipsPteForGpa c vm.pgd (some cache) gpa).bind fun w =>
      match w.ptep, w.cache with
      | some p, some cache => (w.pgd.setPte p newPte).map fun pgd =>
          .done { vm with pgd := pgd, dirtyLog := log } cache none
      | _, _ => none

/-- The `mmu_lock`-protected end of `kvm_mips_map_page`: check for an invalidation since the
snapshot; otherwise try a transparent huge page and install. -/
def mapPageCommit (host : Host) (vm : Vm) (cache : Nat) (gpa : Nat) (writeFault : Bool)
    (d : Decision) (mmuSeq pfn : Nat) (writeable : Bool) (fuel : Nat) : Option Commit :=
  if mmuNotifierRetry vm mmuSeq then some .retry
  else match mapPageAdjust c host d pfn gpa with
    | (vmaPagesize, pfn, gpa) =>
      mapPageInstall c vm cache gpa writeFault d.gfn vmaPagesize pfn writeable fuel

end LoongsonDune
