import Mathlib

/-!
# The kernel configuration the GPA code is built against

`kern/mmu.c` never fixes its page-table geometry: `PAGE_SHIFT`, the `PTRS_PER_*` counts and the
derived shifts and masks come from the kernel headers, which the repository does not carry. They
are fields of `Config` here, so every theorem holds for every configuration the code can be
compiled for. The same goes for `KVM_NR_MEM_OBJS`, `cpu_has_guestid`, the CPU type test of
`kvm_mips_handle_vz_root_tlb_fault` and `_page_cachable_default`.

The GPA table has four levels in the source (`pgd`, `pud`, `pmd`, `pte`), but `kvm_pgd_init` fills
the top level with `invalid_pmd_table`: the upper level is folded into the top one, so
`PTRS_PER_PUD = 1` and a top-level slot is its own single upper-level slot. The middle level
is not folded (`invalid_pmd_table` exists only when it is not), and a middle table takes one
page, as a leaf table does.

Addresses are `unsigned long`: values below `2 ^ 64`, with wrapping arithmetic written out as
`u64` wherever the code can overflow. Index extraction is a shift and a mask; since every level's
bit field lies inside the 64 bits (`span_le`), the index of an address depends only on its frame
number, and the frame-level digits `pteIdx`, `pmdIdx`, `pgdIdx` are what the proofs reason about.
-/

namespace LoongsonDune

/-- `unsigned long` arithmetic wraps modulo `2 ^ 64`. -/
def u64 (x : Nat) : Nat := x % 2 ^ 64

/-- `~0ul`, the end sentinel the range walks pass for "the rest of this child". -/
def ulongMax : Nat := 2 ^ 64 - 1

/-- `-EFAULT` and `-ENOMEM` (asm-generic/errno-base.h). -/
def EFAULT : Int := 14
def ENOMEM : Int := 12

/-- The kernel configuration: the constants `kern/mmu.c` takes from headers outside the repository. -/
structure Config where
  /-- `PAGE_SHIFT`. -/
  pageShift : Nat
  /-- `PTRS_PER_PTE = 2 ^ pteBits`. -/
  pteBits : Nat
  /-- `PTRS_PER_PMD = 2 ^ pmdBits`. -/
  pmdBits : Nat
  /-- `PTRS_PER_PGD = 2 ^ pgdBits`. -/
  pgdBits : Nat
  /-- The index fields of the three levels lie inside a 64-bit address. -/
  span_le : pageShift + pteBits + pmdBits + pgdBits ≤ 64
  /-- A page holds more than one byte. -/
  pageShift_pos : 0 < pageShift
  /-- The middle level is not folded: `kvm_pgd_init` fills the top level with
  `invalid_pmd_table`, which only exists when it is not. -/
  pmdBits_pos : 0 < pmdBits
  /-- A middle table is, like a leaf table, one page of 8-byte entries: `PTRS_PER_PMD =
  PTRS_PER_PTE` wherever the middle level is not folded. -/
  pmdBits_eq : pmdBits = pteBits
  /-- `KVM_NR_MEM_OBJS`, the capacity of a vCPU's node pool. -/
  nrMemObjs : Nat
  /-- The pool holds at least `KVM_MMU_CACHE_MIN_PAGES` nodes. -/
  minPages_le : 2 ≤ nrMemObjs
  /-- `cpu_has_guestid`. -/
  cpuHasGuestid : Bool
  /-- `current_cpu_type() == CPU_LOONGSON3_COMP`. -/
  loongson3Comp : Bool
  /-- `_page_cachable_default`, the cacheability class of new GPA entries. -/
  pageCachableDefault : Nat

namespace Config

variable (c : Config)

/-- `PAGE_SIZE`. -/
def pageSize : Nat := 2 ^ c.pageShift
def ptrsPerPte : Nat := 2 ^ c.pteBits
def ptrsPerPmd : Nat := 2 ^ c.pmdBits
def ptrsPerPgd : Nat := 2 ^ c.pgdBits
/-- `PMD_SHIFT` and `PMD_SIZE`: a middle-level slot covers `PTRS_PER_PTE` pages. -/
def pmdShift : Nat := c.pageShift + c.pteBits
def pmdSize : Nat := 2 ^ c.pmdShift
/-- `PGDIR_SHIFT`. -/
def pgdirShift : Nat := c.pmdShift + c.pmdBits

/-- `__pte_offset(address)`: `(address >> PAGE_SHIFT) & (PTRS_PER_PTE - 1)`. -/
def pteOffset (addr : Nat) : Nat := addr / c.pageSize % c.ptrsPerPte

/-- `__pmd_offset(address)`: `(address >> PMD_SHIFT) & (PTRS_PER_PMD - 1)`. -/
def pmdOffset (addr : Nat) : Nat := addr / c.pmdSize % c.ptrsPerPmd

/-- `pgd_index(address)`: `(address >> PGDIR_SHIFT) & (PTRS_PER_PGD - 1)`. -/
def pgdIndex (addr : Nat) : Nat := addr / 2 ^ c.pgdirShift % c.ptrsPerPgd

/-- `address & PMD_MASK` for an `unsigned long` address. -/
def pmdMask (addr : Nat) : Nat := addr / c.pmdSize * c.pmdSize

/-- `gfn << PAGE_SHIFT`, the guest physical address of a frame, as an `unsigned long`. -/
def gpaOf (gfn : Nat) : Nat := u64 (gfn * c.pageSize)

/-- The digits of a frame number in the three levels. -/
def pteIdx (gfn : Nat) : Nat := gfn % c.ptrsPerPte
def pmdIdx (gfn : Nat) : Nat := gfn / c.ptrsPerPte % c.ptrsPerPmd
def pgdIdx (gfn : Nat) : Nat := gfn / c.ptrsPerPte / c.ptrsPerPmd % c.ptrsPerPgd

/-- The number of frames the table indexes before its indices wrap. -/
def spanFrames : Nat := c.ptrsPerPte * c.ptrsPerPmd * c.ptrsPerPgd

theorem pageSize_pos : 0 < c.pageSize := Nat.two_pow_pos _
theorem ptrsPerPte_pos : 0 < c.ptrsPerPte := Nat.two_pow_pos _
theorem ptrsPerPmd_pos : 0 < c.ptrsPerPmd := Nat.two_pow_pos _
theorem ptrsPerPgd_pos : 0 < c.ptrsPerPgd := Nat.two_pow_pos _
theorem pmdSize_pos : 0 < c.pmdSize := Nat.two_pow_pos _

theorem pmdSize_eq : c.pmdSize = c.pageSize * c.ptrsPerPte := Nat.pow_add _ _ _

theorem ptrsPerPmd_eq : c.ptrsPerPmd = c.ptrsPerPte := by rw [ptrsPerPmd, ptrsPerPte, c.pmdBits_eq]

theorem pteIdx_lt (g : Nat) : c.pteIdx g < c.ptrsPerPte := Nat.mod_lt _ c.ptrsPerPte_pos
theorem pmdIdx_lt (g : Nat) : c.pmdIdx g < c.ptrsPerPmd := Nat.mod_lt _ c.ptrsPerPmd_pos
theorem pgdIdx_lt (g : Nat) : c.pgdIdx g < c.ptrsPerPgd := Nat.mod_lt _ c.ptrsPerPgd_pos

/-! ## Address indices are frame digits -/

theorem pteOffset_eq (addr : Nat) : c.pteOffset addr = c.pteIdx (addr / c.pageSize) := rfl

theorem pmdOffset_eq (addr : Nat) : c.pmdOffset addr = c.pmdIdx (addr / c.pageSize) := by
  rw [pmdOffset, pmdIdx, pmdSize_eq, Nat.div_div_eq_div_mul]

theorem pgdIndex_eq (addr : Nat) : c.pgdIndex addr = c.pgdIdx (addr / c.pageSize) := by
  rw [pgdIndex, pgdIdx, Nat.div_div_eq_div_mul, Nat.div_div_eq_div_mul, pgdirShift, pmdShift,
    pageSize, ptrsPerPte, ptrsPerPmd, ← Nat.pow_add, ← Nat.pow_add, Nat.add_assoc]

/-- The frame of `gfn << PAGE_SHIFT` is `gfn` cut to the bits a shifted `unsigned long` keeps. -/
theorem gpaOf_div (gfn : Nat) : c.gpaOf gfn / c.pageSize = gfn % 2 ^ (64 - c.pageShift) := by
  have h : 2 ^ 64 = c.pageSize * 2 ^ (64 - c.pageShift) := by
    rw [pageSize, ← Nat.pow_add]; congr 1; have := c.span_le; omega
  rw [gpaOf, u64, h, Nat.mod_mul_right_div_self, Nat.mul_div_cancel _ c.pageSize_pos]

/-- Cutting a frame number to `64 - PAGE_SHIFT` bits keeps every digit. -/
theorem mod_word_eq (gfn : Nat) :
    gfn % 2 ^ (64 - c.pageShift) = gfn % (c.spanFrames * 2 ^ (64 - c.pageShift - c.pteBits -
      c.pmdBits - c.pgdBits)) := by
  congr 1
  rw [spanFrames, ptrsPerPte, ptrsPerPmd, ptrsPerPgd, ← Nat.pow_add, ← Nat.pow_add, ← Nat.pow_add]
  congr 1; have := c.span_le; omega

theorem pteIdx_mod_word (gfn : Nat) : c.pteIdx (gfn % 2 ^ (64 - c.pageShift)) = c.pteIdx gfn := by
  rw [mod_word_eq, pteIdx, pteIdx, spanFrames, Nat.mul_assoc, Nat.mul_assoc,
    Nat.mod_mul_right_mod]

theorem pmdIdx_mod_word (gfn : Nat) : c.pmdIdx (gfn % 2 ^ (64 - c.pageShift)) = c.pmdIdx gfn := by
  rw [mod_word_eq, pmdIdx, pmdIdx, spanFrames, Nat.mul_assoc, Nat.mul_assoc,
    Nat.mod_mul_right_div_self, Nat.mod_mul_right_mod]

theorem pgdIdx_mod_word (gfn : Nat) : c.pgdIdx (gfn % 2 ^ (64 - c.pageShift)) = c.pgdIdx gfn := by
  rw [mod_word_eq, pgdIdx, pgdIdx, spanFrames, Nat.mul_assoc, Nat.mul_assoc,
    Nat.mod_mul_right_div_self, Nat.mod_mul_right_div_self, Nat.mod_mul_right_mod]

@[simp] theorem pteOffset_gpaOf (gfn : Nat) : c.pteOffset (c.gpaOf gfn) = c.pteIdx gfn := by
  rw [pteOffset_eq, gpaOf_div, pteIdx_mod_word]

@[simp] theorem pmdOffset_gpaOf (gfn : Nat) : c.pmdOffset (c.gpaOf gfn) = c.pmdIdx gfn := by
  rw [pmdOffset_eq, gpaOf_div, pmdIdx_mod_word]

@[simp] theorem pgdIndex_gpaOf (gfn : Nat) : c.pgdIndex (c.gpaOf gfn) = c.pgdIdx gfn := by
  rw [pgdIndex_eq, gpaOf_div, pgdIdx_mod_word]

@[simp] theorem pteOffset_zero : c.pteOffset 0 = 0 := by simp [pteOffset]
@[simp] theorem pmdOffset_zero : c.pmdOffset 0 = 0 := by simp [pmdOffset]
@[simp] theorem pgdIndex_zero : c.pgdIndex 0 = 0 := by simp [pgdIndex]

/-- An all-ones number splits into all-ones digits. -/
theorem all_ones_split {b n : Nat} (hb : b ≤ n) :
    2 ^ n - 1 = (2 ^ b - 1) + 2 ^ b * (2 ^ (n - b) - 1) := by
  have hn : 2 ^ n = 2 ^ b * 2 ^ (n - b) := by rw [← Nat.pow_add]; congr 1; omega
  have h1 : 2 ^ b ≤ 2 ^ b * 2 ^ (n - b) := Nat.le_mul_of_pos_right _ (Nat.two_pow_pos _)
  have h2 := Nat.two_pow_pos b
  rw [Nat.mul_sub_one, hn]; omega

theorem all_ones_mod {b n : Nat} (hb : b ≤ n) : (2 ^ n - 1) % 2 ^ b = 2 ^ b - 1 := by
  rw [all_ones_split hb, Nat.add_mul_mod_self_left,
    Nat.mod_eq_of_lt (Nat.sub_one_lt (Nat.pos_iff_ne_zero.mp (Nat.two_pow_pos b)))]

theorem all_ones_div {b n : Nat} (hb : b ≤ n) : (2 ^ n - 1) / 2 ^ b = 2 ^ (n - b) - 1 := by
  rw [all_ones_split hb, Nat.add_mul_div_left _ _ (Nat.two_pow_pos b),
    Nat.div_eq_of_lt (Nat.sub_one_lt (Nat.pos_iff_ne_zero.mp (Nat.two_pow_pos b))), Nat.zero_add]

theorem ulongMax_div : ulongMax / c.pageSize = 2 ^ (64 - c.pageShift) - 1 :=
  all_ones_div (by have := c.span_le; omega)

/-- `~0ul` has every index at its maximum. -/
@[simp] theorem pteOffset_ulongMax : c.pteOffset ulongMax = c.ptrsPerPte - 1 := by
  rw [pteOffset_eq, ulongMax_div, pteIdx, ptrsPerPte, all_ones_mod]
  have := c.span_le; omega

@[simp] theorem pmdOffset_ulongMax : c.pmdOffset ulongMax = c.ptrsPerPmd - 1 := by
  have := c.span_le
  rw [pmdOffset_eq, ulongMax_div, pmdIdx, ptrsPerPte, ptrsPerPmd, all_ones_div (by omega),
    all_ones_mod (by omega)]

@[simp] theorem pgdIndex_ulongMax : c.pgdIndex ulongMax = c.ptrsPerPgd - 1 := by
  have := c.span_le
  rw [pgdIndex_eq, ulongMax_div, pgdIdx, ptrsPerPte, ptrsPerPmd, ptrsPerPgd,
    all_ones_div (by omega), all_ones_div (by omega), all_ones_mod (by omega)]

/-- One configuration the code runs under: 16 KiB pages and three levels of 2^11 entries (a
47-bit guest physical space), a pool of 40 nodes, GuestIDs as given, not Loongson-3 compatible
mode. The concrete runs of the proofs use it. -/
def mips16k (guestid : Bool) : Config :=
  ⟨14, 11, 11, 11, by decide, by decide, by decide, rfl, 40, by decide, guestid, false, 0⟩

end Config

end LoongsonDune
