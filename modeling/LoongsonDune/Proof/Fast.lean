import LoongsonDune.Proof.Commit
import LoongsonDune.Proof.Mark

/-!
# The fast path touches one entry

`_kvm_mips_map_page_fast` walks the table without a pool and works on the entry its pointer reads,
the one governing `gpa`: leaf or huge, the pointer is the slot that holds it. It sets the young bit
of a present entry, and on a write fault to a clean entry either sets the dirty bit, when the
entry is writable, or gives up. Both stores go through the same pointer, so the table afterwards
is the old one with that one slot replaced by the entry made young and, on a write fault to a
writable entry, dirty; frame number, present and write bits are kept. It reports success exactly
when the entry is present and, on a write fault, dirty or writable. Setting the dirty bit logs the
faulting frame, or the whole block when the stored value is huge.
-/

namespace LoongsonDune.Proof

open LoongsonDune Function

variable {c : Config}

/-! ## The dirty log -/

@[simp] theorem markPageDirty_apply (log : Nat → Bool) (gfn g : Nat) :
    markPageDirty log gfn g = (log g || decide (g = gfn)) := by
  by_cases h : g = gfn
  · subst h; simp [markPageDirty]
  · simp [markPageDirty, update_noteq h, h]

/-- Marking each frame `base + i` for `i` in a list marks exactly those frames. -/
theorem foldl_markPageDirty (base : Nat) : ∀ (l : List Nat) (log : Nat → Bool) (g : Nat),
    l.foldl (fun l i => markPageDirty l (base + i)) log g = (log g || decide (∃ i ∈ l, g = base + i))
  | [], log, g => by simp
  | i :: l, log, g => by
    rw [List.foldl_cons, foldl_markPageDirty base l, markPageDirty_apply]
    simp only [List.mem_cons, exists_eq_or_imp, Bool.or_assoc, Bool.decide_or]

/-- **The block loop marks the frames `[base, base + PTRS_PER_PTE)`.** -/
theorem markBlockDirty_apply (log : Nat → Bool) (base g : Nat) :
    markBlockDirty c log base g = (log g || decide (base ≤ g ∧ g < base + c.ptrsPerPte)) := by
  rw [markBlockDirty, foldl_markPageDirty]
  congr 2
  simp only [List.mem_range, eq_iff_iff]
  exact ⟨fun ⟨i, hi, h⟩ => by omega, fun h => ⟨g - base, by omega, by omega⟩⟩

/-- The log after the fast path: the old one, with the faulting frame, or the frames of its block
when the entry is huge, when `dirty` is set. -/
theorem fastLog_eq (log : Nat → Bool) (dirty huge : Bool) (base gfn : Nat) :
    (if dirty then (if huge then markBlockDirty c log base else markPageDirty log gfn) else log) =
      fun g => log g || (dirty && if huge then decide (base ≤ g ∧ g < base + c.ptrsPerPte)
        else decide (g = gfn)) := by
  funext g
  cases dirty <;> cases huge <;> simp [markBlockDirty_apply]

/-! ## The walk on a well-formed table -/

/-- On a well-formed table the read-only walk returns `NULL` exactly when no entry governs the
frame, and otherwise a pointer that reads that entry. -/
theorem pteForGpa_none_wf {pgd : Pgd} (hwf : pgd.Wf) (gpa : Nat) :
    ∃ p, kvmMipsPteForGpa c pgd none gpa = some ⟨p, pgd, none⟩ ∧
      (p = none ∧ pgd.entry c (gpa / c.pageSize) = none ∨
        ∃ ptep e, p = some ptep ∧ pgd.readPte ptep = some e ∧
          pgd.entry c (gpa / c.pageSize) = some e) := by
  have hent : ∀ pmd, pgd (c.pgdIndex gpa) = some pmd →
      pgd.entry c (gpa / c.pageSize) = (pmd (c.pmdOffset gpa)).entryAt (c.pteOffset gpa) := by
    intro pmd hi
    rw [Pgd.entry, ← c.pgdIndex_eq, hi, Option.some_bind, ← c.pmdOffset_eq, ← c.pteOffset_eq]
  rcases hi : pgd (c.pgdIndex gpa) with _ | pmd
  · refine ⟨none, by simp only [kvmMipsPteForGpa, kvmMipsWalkPgd, hi], .inl ⟨rfl, ?_⟩⟩
    rw [Pgd.entry, ← c.pgdIndex_eq, hi]; rfl
  rcases hj : pmd (c.pmdOffset gpa) with _ | pte | e
  · refine ⟨none, ?_, .inl ⟨rfl, by rw [hent pmd hi, hj]; rfl⟩⟩
    simp only [kvmMipsPteForGpa, kvmMipsWalkPgd, hi, kvmMipsWalkPgd.pmdLevel, hj, pmdHuge_invalid,
      Bool.false_eq_true, if_false]
  · exact ⟨_, pteForGpa_table c hi hj,
      .inr ⟨_, _, rfl, Pgd.readPte_leaf hi hj, by rw [hent pmd hi, hj]; rfl⟩⟩
  · have he := hwf _ pmd hi _ e hj
    exact ⟨_, pteForGpa_huge c hi hj he,
      .inr ⟨_, _, rfl, Pgd.readPte_pmd hi hj, by rw [hent pmd hi, hj]; simp [Pmd.entryAt, he]⟩⟩

/-! ## The fast path -/

/-- **The fast path on a present entry.** Both stores go through the walk's pointer, so the table
afterwards is the old one with that slot holding the entry made young, and dirty on a write fault
to a writable entry. The fault fails only on a write to a clean read-only entry, and the log gains
the frame, or the block, exactly when the dirty bit is set. -/
theorem mapPageFast_present {vm : Vm} {gpa : Nat} (writeFault : Bool) {ptep : PtePtr} {e : Pte}
    (hw : kvmMipsPteForGpa c vm.pgd none gpa = some ⟨some ptep, vm.pgd, none⟩)
    (hread : vm.pgd.readPte ptep = some e) (hp : e.present = true) :
    ∃ pgd', vm.pgd.setPte ptep { e with young := true, dirty := e.dirty || writeFault && e.write } =
        some pgd' ∧
      kvmMipsMapPageFast c vm gpa writeFault =
        some (if writeFault && !e.dirty && !e.write then -EFAULT else 0,
          { vm with pgd := pgd', dirtyLog := fun g => vm.dirtyLog g ||
            (writeFault && !e.dirty && e.write && if e.huge then
              decide (c.pmdMask gpa / c.pageSize ≤ g ∧ g < c.pmdMask gpa / c.pageSize + c.ptrsPerPte)
            else decide (g = gpa / c.pageSize)) }) := by
  -- `pte_mkyoung`, stored only when the entry is old
  obtain ⟨pgd1, hy, hr1, hs1⟩ : ∃ pgd1, (if !e.young then vm.pgd.setPte ptep (pteMkyoung e)
      else some vm.pgd) = some pgd1 ∧ pgd1.readPte ptep = some (pteMkyoung e) ∧
      ∀ v, pgd1.setPte ptep v = vm.pgd.setPte ptep v := by
    cases hyg : e.young
    · obtain ⟨pgd1, h1⟩ := Option.isSome_iff_exists.mp (setPte_isSome hread (pteMkyoung e))
      exact ⟨pgd1, by simp [h1], readPte_setPte h1, setPte_setPte h1⟩
    · have : pteMkyoung e = e := by cases e; simp_all [pteMkyoung]
      exact ⟨vm.pgd, by simp, this ▸ hread, fun _ => rfl⟩
  have hlog := fastLog_eq (c := c) vm.dirtyLog (writeFault && !e.dirty && e.write) e.huge
    (c.pmdMask gpa / c.pageSize) (gpa / c.pageSize)
  simp only [kvmMipsMapPageFast, hw, Option.some_bind, hread, hp, Bool.not_true, Bool.false_eq_true,
    if_false, hy, hr1, pteMkyoung_dirty, pteMkyoung_write]
  by_cases hd : (writeFault && !e.dirty) = true
  · simp only [Bool.and_eq_true, Bool.not_eq_true'] at hd
    obtain ⟨rfl, hd⟩ := hd
    by_cases hwr : e.write = true
    · obtain ⟨pgd2, h2⟩ := Option.isSome_iff_exists.mp
        (setPte_isSome hr1 (pteMkdirty (pteMkyoung e)))
      refine ⟨pgd2, ?_, ?_⟩
      · rw [← hs1, ← h2]; congr 1; simp [pteMkdirty, pteMkyoung, hd, hwr, hp]
      · simp only [hd, hwr, Bool.not_false, Bool.and_self, if_true, Bool.not_true, h2,
          Option.some_bind, readPte_setPte h2, Option.map_some', pteMkdirty_huge, pteMkyoung_huge,
          Bool.true_and, ite_true, Bool.false_eq_true, if_false] at hlog ⊢
        rw [hlog]
    · -- a write to a clean read-only entry: only the young mark stays
      rw [Bool.not_eq_true] at hwr
      refine ⟨pgd1, ?_, ?_⟩
      · rw [← hs1]; convert setPte_self hr1 using 2; simp [pteMkyoung, hd, hwr, hp]
      · simp only [hd, hwr, Bool.not_false, Bool.and_self, if_true, Bool.and_false, Bool.false_eq_true,
          if_false, Bool.or_false] at hlog ⊢
        rw [← hlog]
  · rw [Bool.not_eq_true] at hd
    refine ⟨pgd1, ?_, by simp [hd]⟩
    rw [← hs1]; convert setPte_self hr1 using 2
    cases writeFault <;> simp_all [pteMkyoung]

/-- **`_kvm_mips_map_page_fast` changes at most the entry governing `gpa`.** On a well-formed
table it returns `0` or `-EFAULT`, and `0` exactly when the entry governing `gpa`'s frame is present
and, on a write fault, dirty or writable. When there is no present entry the VM is unchanged.
Otherwise the walk's pointer reads that entry, and the VM afterwards holds, through that pointer,
the entry with its young bit set and, on a write fault to a writable entry, its dirty bit: frame,
present and write bits stay. Its dirty log gains the faulting frame, or every frame of the block
`[(gpa & PMD_MASK) >> PAGE_SHIFT, + PTRS_PER_PTE)` when the entry is huge, exactly when the dirty
bit was set. -/
theorem mapPageFast_touches_entry (c : Config) {vm : Vm} (hwf : vm.pgd.Wf) (gpa : Nat)
    (writeFault : Bool) :
    ∃ r vm', kvmMipsMapPageFast c vm gpa writeFault = some (r, vm') ∧ (r = 0 ∨ r = -EFAULT) ∧
      (r = 0 ↔ ∃ e, vm.pgd.entry c (gpa / c.pageSize) = some e ∧ e.present = true ∧
        (writeFault = true → e.dirty = true ∨ e.write = true)) ∧
      ((∀ e, vm.pgd.entry c (gpa / c.pageSize) = some e → e.present = false) → vm' = vm) ∧
      ∀ e, vm.pgd.entry c (gpa / c.pageSize) = some e → e.present = true →
        ∃ p pgd', kvmMipsPteForGpa c vm.pgd none gpa = some ⟨some p, vm.pgd, none⟩ ∧
          vm.pgd.readPte p = some e ∧
          vm.pgd.setPte p { e with young := true, dirty := e.dirty || writeFault && e.write } =
            some pgd' ∧
          vm' = { vm with pgd := pgd', dirtyLog := fun g => vm.dirtyLog g ||
            (writeFault && !e.dirty && e.write && if e.huge then
              decide (c.pmdMask gpa / c.pageSize ≤ g ∧ g < c.pmdMask gpa / c.pageSize + c.ptrsPerPte)
            else decide (g = gpa / c.pageSize)) } := by
  obtain ⟨p, hw, hcase⟩ := pteForGpa_none_wf (c := c) hwf gpa
  rcases hcase with ⟨rfl, hent⟩ | ⟨ptep, e, rfl, hread, hent⟩
  · refine ⟨_, _, by simp only [kvmMipsMapPageFast, hw, Option.some_bind], .inr rfl, ?_,
      fun _ => rfl, fun e he => by rw [hent] at he; cases he⟩
    exact iff_of_false (by decide) fun ⟨e, he, _⟩ => by rw [hent] at he; cases he
  by_cases hp : e.present = true
  · obtain ⟨pgd', hs, hf⟩ := mapPageFast_present writeFault hw hread hp
    refine ⟨_, _, hf, by split; exacts [.inr rfl, .inl rfl], ?_,
      fun h => absurd (h e hent) (by simp [hp]),
      fun e' he' _ => ?_⟩
    · rw [hent]
      simp only [Option.some.injEq, exists_eq_left', hp, true_and]
      cases writeFault <;> cases e.dirty <;> cases e.write <;> decide
    · rw [hent] at he'; cases he'
      exact ⟨ptep, pgd', hw, hread, hs, rfl⟩
  · refine ⟨_, _, by simp only [kvmMipsMapPageFast, hw, Option.some_bind, hread, hp,
      Bool.not_eq_eq_eq_not, Bool.not_true, ↓reduceIte], .inr rfl, ?_, fun _ => rfl,
      fun e' he' hp' => by rw [hent] at he'; cases he'; exact absurd hp' hp⟩
    exact iff_of_false (by decide) fun ⟨e', he', hp', _⟩ => by
      rw [hent] at he'; cases he'; exact hp hp'

/-- The VM of `markSample`, with a clear log. -/
def markVm : Vm := ⟨markSample, 0, 0, fun _ => false⟩

theorem mapPageFast_touches_entry_sample :
    ∃ r vm', kvmMipsMapPageFast (Config.mips16k false) markVm (2 ^ 25) true = some (r, vm') ∧
      (r = 0 ∨ r = -EFAULT) ∧
      (r = 0 ↔ ∃ e, markVm.pgd.entry (Config.mips16k false)
          (2 ^ 25 / (Config.mips16k false).pageSize) = some e ∧
        e.present = true ∧ (true = true → e.dirty = true ∨ e.write = true)) ∧
      ((∀ e, markVm.pgd.entry (Config.mips16k false) (2 ^ 25 / (Config.mips16k false).pageSize) =
          some e → e.present = false) → vm' = markVm) ∧
      ∀ e, markVm.pgd.entry (Config.mips16k false) (2 ^ 25 / (Config.mips16k false).pageSize) =
          some e → e.present = true →
        ∃ p pgd', kvmMipsPteForGpa (Config.mips16k false) markVm.pgd none (2 ^ 25) =
            some ⟨some p, markVm.pgd, none⟩ ∧
          markVm.pgd.readPte p = some e ∧
          markVm.pgd.setPte p { e with young := true, dirty := e.dirty || true && e.write } =
            some pgd' ∧
          vm' = { markVm with pgd := pgd', dirtyLog := fun g => markVm.dirtyLog g ||
            (true && !e.dirty && e.write && if e.huge then
              decide ((Config.mips16k false).pmdMask (2 ^ 25) / (Config.mips16k false).pageSize ≤ g ∧
                g < (Config.mips16k false).pmdMask (2 ^ 25) / (Config.mips16k false).pageSize +
                  (Config.mips16k false).ptrsPerPte)
            else decide (g = 2 ^ 25 / (Config.mips16k false).pageSize)) } :=
  mapPageFast_touches_entry (Config.mips16k false) markSample_wf (2 ^ 25) true

end LoongsonDune.Proof
