import LoongsonDune.Proof.Commit
import LoongsonDune.Proof.FlushFree
import LoongsonDune.Proof.Mark

/-!
# `kvm_mips_set_pmd_huge` ends within two passes

The function loops through its `retry:` label while the middle slot for `addr` holds a leaf table:
it flushes the block `[(addr & PMD_MASK) >> PAGE_SHIFT, ((addr & PMD_MASK) + PMD_SIZE - 1) >>
PAGE_SHIFT]` and walks again. That flush covers the leaf table whole, so it frees it and clears the
slot. The middle flush reports "safe to remove" only when its index range `[i_min, i_max] = [j, j]`
is the whole table, which with the unfolded middle level of every `Config` (`PTRS_PER_PMD > 1`) it
never is: the middle table stays and the next pass finds the slot free. The statements below still
carry the `PTRS_PER_PMD = 1` branch of the flush, in which the middle table would be freed and the
next pass would take a fresh one from the pool. Either way the second pass installs `new_pmd`, so
two passes always suffice when the pool is not empty, and they take at most one node from it.

The result is stated once as `setPmdHuge_spec`: the table afterwards differs from the old one in
the top slot of `addr` only, whose middle table holds `new_pmd` at `addr`'s slot and the old slots,
or free ones, elsewhere.
-/

namespace LoongsonDune.Proof

open LoongsonDune Function

variable (c : Config)

/-! ## The block of an address -/

/-- `(addr & PMD_MASK) >> PAGE_SHIFT`: the first frame of `addr`'s block. -/
theorem pmdMask_div (addr : Nat) :
    c.pmdMask addr / c.pageSize = addr / c.pageSize / c.ptrsPerPte * c.ptrsPerPte := by
  rw [Config.pmdMask, Config.pmdSize_eq, ← Nat.div_div_eq_div_mul, Nat.mul_comm c.pageSize,
    ← Nat.mul_assoc, Nat.mul_div_cancel _ c.pageSize_pos]

/-- `((addr & PMD_MASK) + PMD_SIZE - 1) >> PAGE_SHIFT`: the last frame of `addr`'s block. The sum
does not wrap, since a block never straddles `2 ^ 64`. -/
theorem blockEnd_div {addr : Nat} (haddr : addr < 2 ^ 64) :
    u64 (c.pmdMask addr + c.pmdSize - 1) / c.pageSize =
      addr / c.pageSize / c.ptrsPerPte * c.ptrsPerPte + (c.ptrsPerPte - 1) := by
  have hP := c.pageSize_pos
  have hT := c.ptrsPerPte_pos
  have hS : c.pmdSize ∣ 2 ^ 64 := Nat.pow_dvd_pow 2 (by have := c.span_le; unfold Config.pmdShift; omega)
  have hm : c.pmdMask addr = addr / c.pageSize / c.ptrsPerPte * c.ptrsPerPte * c.pageSize := by
    rw [← pmdMask_div, Nat.div_mul_cancel]
    exact Dvd.dvd.mul_left (Dvd.intro _ c.pmdSize_eq.symm) _
  have hlt : c.pmdMask addr + c.pmdSize ≤ 2 ^ 64 := by
    have h1 := Nat.div_lt_div_of_lt_of_dvd hS haddr
    have h2 : (addr / c.pmdSize + 1) * c.pmdSize ≤ 2 ^ 64 / c.pmdSize * c.pmdSize :=
      Nat.mul_le_mul_right _ h1
    rw [Nat.div_mul_cancel hS, Nat.add_mul, Nat.one_mul] at h2
    exact h2
  rw [u64, Nat.mod_eq_of_lt (by have := c.pmdSize_pos; omega), hm, Config.pmdSize_eq]
  generalize addr / c.pageSize / c.ptrsPerPte * c.ptrsPerPte = a
  have e1 : (a + (c.ptrsPerPte - 1)) * c.pageSize + c.pageSize =
      a * c.pageSize + c.pageSize * c.ptrsPerPte := by
    rw [Nat.add_mul, Nat.add_assoc, ← Nat.succ_mul, Nat.succ_eq_add_one, Nat.sub_add_cancel hT,
      Nat.mul_comm c.ptrsPerPte]
  apply Nat.div_eq_of_lt_le
  · omega
  · rw [Nat.add_mul, Nat.one_mul]; omega

/-- The frames of one block share the block's top and middle digits, and their leaf digits count
from `0`. -/
theorem digits_block (g : Nat) {k : Nat} (hk : k < c.ptrsPerPte) :
    c.pteIdx (g / c.ptrsPerPte * c.ptrsPerPte + k) = k ∧
      c.pmdIdx (g / c.ptrsPerPte * c.ptrsPerPte + k) = c.pmdIdx g ∧
      c.pgdIdx (g / c.ptrsPerPte * c.ptrsPerPte + k) = c.pgdIdx g := by
  have hd : (g / c.ptrsPerPte * c.ptrsPerPte + k) / c.ptrsPerPte = g / c.ptrsPerPte := by
    rw [Nat.add_comm, Nat.add_mul_div_right _ _ c.ptrsPerPte_pos, Nat.div_eq_of_lt hk, Nat.zero_add]
  refine ⟨?_, ?_, ?_⟩
  · rw [Config.pteIdx, Nat.add_comm, Nat.add_mul_mod_self_right, Nat.mod_eq_of_lt hk]
  · rw [Config.pmdIdx, hd, Config.pmdIdx]
  · rw [Config.pgdIdx, hd, Config.pgdIdx]

variable {c}

/-! ## The flush of a block -/

/-- **The block flush frees the leaf table and clears its slot.** The middle table stays, with
the slot free, unless `PTRS_PER_PMD = 1`; then the middle flush covers its whole table too and the
top slot is emptied. -/
theorem flushPt_block {pgd : Pgd} {addr : Nat} (haddr : addr < 2 ^ 64) {pmd : PmdTable}
    {pte : PteTable} (hi : pgd (c.pgdIndex addr) = some pmd)
    (hj : pmd (c.pmdOffset addr) = .table pte) :
    ∃ r, kvmMipsFlushGpaPt c pgd (c.pmdMask addr / c.pageSize)
        (u64 (c.pmdMask addr + c.pmdSize - 1) / c.pageSize) =
      some (update pgd (c.pgdIndex addr)
        (if c.ptrsPerPmd = 1 then none else some (update pmd (c.pmdOffset addr) .invalid)), r) := by
  have hT := c.ptrsPerPte_pos
  obtain ⟨h0, hj0, hi0⟩ := digits_block c (addr / c.pageSize) hT
  obtain ⟨h1, hj1, hi1⟩ := digits_block c (addr / c.pageSize) (Nat.sub_one_lt hT.ne')
  rw [Nat.add_zero] at h0 hj0 hi0
  rw [pmdMask_div, blockEnd_div c haddr, kvmMipsFlushGpaPt]
  rw [← Config.pmdOffset_eq] at hj0 hj1
  rw [← Config.pgdIndex_eq] at hi0 hi1
  obtain ⟨pte', r, hpte, hr, -⟩ := flushPte_safe (c := c) pte
    (c.gpaOf (addr / c.pageSize / c.ptrsPerPte * c.ptrsPerPte))
    (c.gpaOf (addr / c.pageSize / c.ptrsPerPte * c.ptrsPerPte + (c.ptrsPerPte - 1)))
  obtain rfl : r = true := hr.mpr ⟨by rw [Config.pteOffset_gpaOf, h0], by rw [Config.pteOffset_gpaOf, h1]⟩
  have hJ := c.pmdIdx_lt (addr / c.pageSize)
  rw [← Config.pmdOffset_eq] at hJ
  have hflag : ((c.pmdOffset addr == 0 && c.pmdOffset addr == c.ptrsPerPmd - 1) && true) = true ↔
      c.ptrsPerPmd = 1 := by
    simp only [Bool.and_true, Bool.and_eq_true, beq_iff_eq]; omega
  simp only [kvmMipsFlushGpaPgd, kvmMipsFlushGpaPmd, Config.pgdIndex_gpaOf, Config.pmdOffset_gpaOf,
    hi0, hi1, hj0, hj1, Nat.add_sub_cancel_left, forSlots_one, if_true, hi, kvmMipsFlushGpaPud,
    hj, flushGpaPmdSlot, pmdPresent, pmdHuge_table, hpte, Option.map_some', Bool.not_true,
    Bool.false_eq_true, if_false, hflag]
  split_ifs <;> exact ⟨_, rfl⟩

/-! ## One pass -/

theorem getPmd_of_some {pgd : Pgd} (cache : Nat) {addr : Nat} {pmd : PmdTable}
    (h : pgd (c.pgdIndex addr) = some pmd) : kvmMipsGetPmd c pgd cache addr = some (pgd, cache, pmd) := by
  simp only [kvmMipsGetPmd, h]

theorem getPmd_of_none {pgd : Pgd} {cache addr : Nat} (h : pgd (c.pgdIndex addr) = none)
    (hc : 0 < cache) :
    kvmMipsGetPmd c pgd cache addr =
      some (update pgd (c.pgdIndex addr) (some pmdInit), cache - 1, pmdInit) := by
  simp only [kvmMipsGetPmd, h, mmuMemoryCacheAlloc, Nat.pos_iff_ne_zero.mp hc, if_false,
    Option.map_some']

/-- A pass that finds the slot free, or holding a huge entry, stores `new_pmd` there and returns,
whatever fuel is left. -/
theorem setPmdHuge_install {pgd pgd1 : Pgd} {cache cache1 addr : Nat} {pmd : PmdTable}
    (newPmd : Pte) (hg : kvmMipsGetPmd c pgd cache addr = some (pgd1, cache1, pmd))
    (hj : pmd (c.pmdOffset addr) = .invalid ∨
      ∃ e, pmd (c.pmdOffset addr) = .val e ∧ e.huge = true) :
    ∃ inv, ∀ fuel, kvmMipsSetPmdHuge c pgd cache addr newPmd (fuel + 1) =
      some (update pgd1 (c.pgdIndex addr) (some (update pmd (c.pmdOffset addr) (.val newPmd))),
        cache1, inv) := by
  rcases hj with hj | ⟨e, hj, hh⟩
  · exact ⟨true, fun _ => by simp only [kvmMipsSetPmdHuge, hg, Option.some_bind, hj]⟩
  · by_cases he : e = newPmd
    · subst he
      refine ⟨false, fun _ => ?_⟩
      rw [show update pmd (c.pmdOffset addr) (.val e) = pmd from update_eq_self_iff.mpr hj.symm,
        show update pgd1 (c.pgdIndex addr) (some pmd) = pgd1 from
          update_eq_self_iff.mpr (getPmd_slot c hg).symm]
      simp only [kvmMipsSetPmdHuge, hg, Option.some_bind, hj, if_true]
    · refine ⟨true, fun _ => ?_⟩
      simp only [kvmMipsSetPmdHuge, hg, Option.some_bind, hj, he, if_false, pmdPresent, pmdHuge_val,
        hh, Bool.not_true, Bool.and_false, Bool.false_eq_true]

/-- A pass that finds a leaf table flushes the block and goes back to `retry:`. -/
theorem setPmdHuge_retry {pgd pgd1 : Pgd} {cache cache1 addr : Nat} {pmd : PmdTable}
    {pte : PteTable} (newPmd : Pte) (hg : kvmMipsGetPmd c pgd cache addr = some (pgd1, cache1, pmd))
    (hj : pmd (c.pmdOffset addr) = .table pte) (fuel : Nat) :
    kvmMipsSetPmdHuge c pgd cache addr newPmd (fuel + 1) =
      (kvmMipsFlushGpaPt c pgd1 (c.pmdMask addr / c.pageSize)
          (u64 (c.pmdMask addr + c.pmdSize - 1) / c.pageSize)).bind
        fun r => kvmMipsSetPmdHuge c r.1 cache1 addr newPmd fuel := by
  simp only [kvmMipsSetPmdHuge, hg, Option.some_bind, hj]

/-! ## Two passes -/

/-- **What `kvm_mips_set_pmd_huge` does, in at most two passes.** On a well-formed table with a
non-empty pool it returns the same result for every fuel from `2` on: the table with `addr`'s top
slot replaced by a middle table that holds `new_pmd` at `addr`'s slot, and elsewhere the old
middle table's slots (free slots when there was none), or free slots when the middle level is
folded. It takes at most one node from the pool. -/
theorem setPmdHuge_spec {pgd : Pgd} (hwf : pgd.Wf) {cache addr : Nat} (hc : 0 < cache)
    (haddr : addr < 2 ^ 64) (newPmd : Pte) :
    ∃ pmd' cache' inv,
      (∀ fuel, kvmMipsSetPmdHuge c pgd cache addr newPmd (fuel + 2) =
        some (update pgd (c.pgdIndex addr) (some pmd'), cache', inv)) ∧
      pmd' (c.pmdOffset addr) = .val newPmd ∧
      (∀ j, j ≠ c.pmdOffset addr → pmd' j = ((pgd (c.pgdIndex addr)).getD pmdInit) j ∨
        c.ptrsPerPmd = 1 ∧ pmd' j = .invalid) ∧
      cache ≤ cache' + 1 ∧ cache' ≤ cache := by
  rcases hI : pgd (c.pgdIndex addr) with _ | pmd
  · -- no middle table: the first pass allocates one and installs
    obtain ⟨inv, hf⟩ := setPmdHuge_install newPmd (getPmd_of_none hI hc) (Or.inl rfl)
    refine ⟨update pmdInit (c.pmdOffset addr) (.val newPmd), cache - 1, inv,
      fun fuel => by rw [hf, update_idem], update_same _ _ _, fun j hj => Or.inl (update_noteq hj _ _),
      by omega, by omega⟩
  cases hJ : pmd (c.pmdOffset addr) with
  | invalid =>
    obtain ⟨inv, hf⟩ := setPmdHuge_install newPmd (getPmd_of_some cache hI)
      (Or.inl hJ)
    exact ⟨update pmd (c.pmdOffset addr) (.val newPmd), cache, inv, fun fuel => hf _, update_same _ _ _,
      fun j hj => Or.inl (update_noteq hj _ _), by omega, le_refl _⟩
  | val e =>
    obtain ⟨inv, hf⟩ := setPmdHuge_install newPmd (getPmd_of_some cache hI)
      (Or.inr ⟨e, hJ, hwf _ pmd hI _ e hJ⟩)
    exact ⟨update pmd (c.pmdOffset addr) (.val newPmd), cache, inv, fun fuel => hf _, update_same _ _ _,
      fun j hj => Or.inl (update_noteq hj _ _), by omega, le_refl _⟩
  | table pte =>
    -- the first pass flushes the block; the second installs
    obtain ⟨r, hfl⟩ := flushPt_block haddr hI hJ
    have hretry := setPmdHuge_retry newPmd (getPmd_of_some cache hI) hJ
    by_cases hM : c.ptrsPerPmd = 1
    · rw [if_pos hM] at hfl
      obtain ⟨inv, hf⟩ := setPmdHuge_install newPmd
        (getPmd_of_none (update_same (c.pgdIndex addr) none pgd) hc) (Or.inl rfl)
      refine ⟨update pmdInit (c.pmdOffset addr) (.val newPmd), cache - 1, inv, fun fuel => ?_,
        update_same _ _ _, fun j hj => Or.inr ⟨hM, update_noteq hj _ _⟩, by omega, by omega⟩
      rw [hretry, hfl, Option.some_bind, hf, update_idem, update_idem]
    · rw [if_neg hM] at hfl
      obtain ⟨inv, hf⟩ := setPmdHuge_install newPmd
        (getPmd_of_some cache (update_same (c.pgdIndex addr) _ pgd)) (Or.inl (update_same _ _ _))
      refine ⟨update pmd (c.pmdOffset addr) (.val newPmd), cache, inv, fun fuel => ?_,
        update_same _ _ _, fun j hj => Or.inl (update_noteq hj _ _), by omega, le_refl _⟩
      rw [hretry, hfl, Option.some_bind, hf, update_idem, update_idem]

/-! ## What the caller sees -/

/-- Replacing a top slot's middle table keeps the entry of every frame whose top index is another,
or whose middle slot holds what it held before (a free slot where there was no middle table). -/
theorem entry_update_some {pgd : Pgd} {i : Nat} {pmd' : PmdTable} {x : Nat}
    (h : c.pgdIdx x ≠ i ∨ pmd' (c.pmdIdx x) = ((pgd i).getD pmdInit) (c.pmdIdx x)) :
    Pgd.entry c (update pgd i (some pmd')) x = pgd.entry c x := by
  by_cases hx : c.pgdIdx x = i
  · subst hx
    simp only [Pgd.entry, update_same, Option.some_bind, h.resolve_left (not_not.mpr rfl)]
    cases pgd (c.pgdIdx x) <;> rfl
  · simp only [Pgd.entry, update_noteq hx]

theorem wf_update_some {pgd : Pgd} (hwf : pgd.Wf) {i : Nat} {pmd' : PmdTable}
    (h : ∀ j e, pmd' j = .val e → e.huge = true) : Pgd.Wf (update pgd i (some pmd')) := by
  intro i' pmd hi j e hj
  by_cases hii : i' = i
  · subst hii; rw [update_same] at hi; cases hi; exact h j e hj
  · rw [update_noteq hii] at hi; exact hwf i' pmd hi j e hj

/-- **`kvm_mips_set_pmd_huge` returns within two passes.** On a well-formed table, with a pool
that is not empty, for an address and a huge entry: when the slot for `addr` holds a leaf table,
the flush of the block clears that slot and keeps the middle table, or empties the top slot when
`PTRS_PER_PMD = 1`; the function returns the same result for every fuel from `2` on; the slot
then holds `new_pmd`; the entry of every frame whose top or middle index differs from `addr`'s is
unchanged; the table is well formed; and at most one node was taken from the pool. -/
theorem setPmdHuge_two_passes (c : Config) {pgd : Pgd} (hwf : pgd.Wf) {cache addr : Nat}
    (hc : 0 < cache) (haddr : addr < 2 ^ 64) {newPmd : Pte} (hh : newPmd.huge = true) :
    (∀ pmd pte, pgd (c.pgdIndex addr) = some pmd → pmd (c.pmdOffset addr) = .table pte →
      ∃ r, kvmMipsFlushGpaPt c pgd (c.pmdMask addr / c.pageSize)
          (u64 (c.pmdMask addr + c.pmdSize - 1) / c.pageSize) =
        some (update pgd (c.pgdIndex addr)
          (if c.ptrsPerPmd = 1 then none else some (update pmd (c.pmdOffset addr) .invalid)), r)) ∧
    ∃ pgd' cache' inv,
      (∀ fuel, 2 ≤ fuel → kvmMipsSetPmdHuge c pgd cache addr newPmd fuel = some (pgd', cache', inv)) ∧
      (∃ pmd, pgd' (c.pgdIndex addr) = some pmd ∧ pmd (c.pmdOffset addr) = .val newPmd) ∧
      (∀ x, c.pgdIdx x ≠ c.pgdIndex addr ∨ c.pmdIdx x ≠ c.pmdOffset addr →
        pgd'.entry c x = pgd.entry c x) ∧
      pgd'.Wf ∧ cache ≤ cache' + 1 := by
  obtain ⟨pmd', cache', inv, hrun, hJ, hrest, hc1, -⟩ := setPmdHuge_spec hwf hc haddr newPmd
  refine ⟨fun pmd pte hi hj => flushPt_block haddr hi hj, _, cache', inv, fun fuel hf => ?_,
    ⟨pmd', update_same _ _ _, hJ⟩, fun x hx => entry_update_some ?_, wf_update_some hwf ?_, hc1⟩
  · obtain ⟨k, rfl⟩ := Nat.exists_eq_add_of_le' hf
    exact hrun k
  · refine hx.imp_right fun hx => (hrest _ hx).resolve_right fun ⟨hM, _⟩ => hx ?_
    have h1 := c.pmdIdx_lt x
    have h2 := c.pmdIdx_lt (addr / c.pageSize)
    rw [← Config.pmdOffset_eq] at h2
    omega
  · intro j e hj
    by_cases hjJ : j = c.pmdOffset addr
    · subst hjJ; rw [hJ] at hj; cases hj; exact hh
    rcases hrest j hjJ with h | ⟨-, h⟩ <;> rw [h] at hj
    · rcases hI : pgd (c.pgdIndex addr) with _ | pmd <;> rw [hI] at hj
      · cases hj
      · exact hwf _ pmd hI j e hj
    · cases hj

theorem setPmdHuge_two_passes_sample :
    (∀ pmd pte, markSample ((Config.mips16k false).pgdIndex (2 ^ 25)) = some pmd →
      pmd ((Config.mips16k false).pmdOffset (2 ^ 25)) = .table pte →
      ∃ r, kvmMipsFlushGpaPt (Config.mips16k false) markSample
          ((Config.mips16k false).pmdMask (2 ^ 25) / (Config.mips16k false).pageSize)
          (u64 ((Config.mips16k false).pmdMask (2 ^ 25) + (Config.mips16k false).pmdSize - 1) /
            (Config.mips16k false).pageSize) =
        some (update markSample ((Config.mips16k false).pgdIndex (2 ^ 25))
          (if (Config.mips16k false).ptrsPerPmd = 1 then none
            else some (update pmd ((Config.mips16k false).pmdOffset (2 ^ 25)) .invalid)), r)) ∧
    ∃ pgd' cache' inv,
      (∀ fuel, 2 ≤ fuel → kvmMipsSetPmdHuge (Config.mips16k false) markSample 1 (2 ^ 25)
        ⟨5000, true, true, true, true, true, 0⟩ fuel = some (pgd', cache', inv)) ∧
      (∃ pmd, pgd' ((Config.mips16k false).pgdIndex (2 ^ 25)) = some pmd ∧
        pmd ((Config.mips16k false).pmdOffset (2 ^ 25)) = .val ⟨5000, true, true, true, true, true, 0⟩) ∧
      (∀ x, (Config.mips16k false).pgdIdx x ≠ (Config.mips16k false).pgdIndex (2 ^ 25) ∨
          (Config.mips16k false).pmdIdx x ≠ (Config.mips16k false).pmdOffset (2 ^ 25) →
        pgd'.entry (Config.mips16k false) x = markSample.entry (Config.mips16k false) x) ∧
      pgd'.Wf ∧ 1 ≤ cache' + 1 :=
  setPmdHuge_two_passes (Config.mips16k false) markSample_wf (by decide) (by decide) rfl

/-- **Without a pool node, or for a frame past the span, the unconditional reading fails.** On the
empty table with an empty pool the first pass takes a node for the missing middle table and hits
`BUG_ON(!mc->nobjs)`. With one node, installing a huge entry for block `0` (frames `0 .. 2047`)
under `Config.mips16k` also gives an entry to frame `2 ^ 33`, outside that block, because the
table's indices wrap there. -/
theorem setPmdHuge_empty_pool_and_alias :
    kvmPgdInit.Wf ∧
    kvmMipsSetPmdHuge (Config.mips16k false) kvmPgdInit 0 0
      ⟨4096, true, true, true, true, true, 0⟩ 2 = none ∧
    ∃ pgd' cache' inv, kvmMipsSetPmdHuge (Config.mips16k false) kvmPgdInit 1 0
        ⟨4096, true, true, true, true, true, 0⟩ 2 = some (pgd', cache', inv) ∧
      pgd'.entry (Config.mips16k false) (2 ^ 33) ≠ kvmPgdInit.entry (Config.mips16k false) (2 ^ 33) := by
  refine ⟨fun i pmd h => (by cases h), rfl, ?_⟩
  have h : ((kvmMipsSetPmdHuge (Config.mips16k false) kvmPgdInit 1 0
      ⟨4096, true, true, true, true, true, 0⟩ 2).map fun r =>
        decide (r.1.entry (Config.mips16k false) (2 ^ 33) ≠
          kvmPgdInit.entry (Config.mips16k false) (2 ^ 33))) = some true := by decide
  obtain ⟨⟨pgd', cache', inv⟩, h1, h2⟩ := Option.map_eq_some'.mp h
  exact ⟨pgd', cache', inv, h1, of_decide_eq_true h2⟩

end LoongsonDune.Proof
