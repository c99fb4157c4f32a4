import LoongsonDune.Mmu.Table

/-!
# What a walk finds

The table means, for each guest frame, *the entry governing it* (`Pgd.entry`); the code reaches
entries through the pointer `kvm_mips_walk_pgd` returns. A walk without a pool changes nothing, and dereferencing
the pointer it returns yields exactly the governing entry, `NULL` and a corrupt middle slot both
reading as no entry. A store through a pointer is read back by the next load.
-/

namespace LoongsonDune.Proof

open LoongsonDune Function

variable (c : Config)

/-- **The read-only walk refines `Pgd.entry`.** `kvm_mips_pte_for_gpa(kvm, NULL, gpa)` always
returns, leaves the table alone, and the entry behind its pointer is the one governing the frame
of `gpa`. -/
theorem pteForGpa_none (pgd : Pgd) (gpa : Nat) :
    ∃ p, kvmMipsPteForGpa c pgd none gpa = some ⟨p, pgd, none⟩ ∧
      p.bind pgd.readPte = pgd.entry c (gpa / c.pageSize) := by
  unfold kvmMipsPteForGpa kvmMipsWalkPgd Pgd.entry
  rw [c.pgdIndex_eq]
  rcases hi : pgd (c.pgdIdx (gpa / c.pageSize)) with _ | pmd
  · exact ⟨none, rfl, rfl⟩
  · simp only [kvmMipsWalkPgd.pmdLevel, c.pgdIndex_eq, c.pmdOffset_eq, c.pteOffset_eq]
    rcases hj : pmd (c.pmdIdx (gpa / c.pageSize)) with _ | pte | e
    · exact ⟨none, rfl, by simp [hj, Pmd.entryAt]⟩
    · exact ⟨some (.leaf _ _ _), rfl,
        by simp only [Option.some_bind, Pgd.readPte_leaf hi hj, hi, hj, Pmd.entryAt]⟩
    · cases hh : e.huge
      · exact ⟨some (.leaf (c.pgdIdx (gpa / c.pageSize)) (c.pmdIdx (gpa / c.pageSize))
          (c.pteIdx (gpa / c.pageSize))), by simp [hh],
          by simp only [Option.some_bind, Pgd.readPte, hi, hj, hh, Pmd.entryAt, Bool.false_eq_true,
            if_false]⟩
      · exact ⟨some (.pmd (c.pgdIdx (gpa / c.pageSize)) (c.pmdIdx (gpa / c.pageSize))),
          by simp [hh],
          by simp only [Option.some_bind, Pgd.readPte_pmd hi hj, hi, hj, hh, Pmd.entryAt, if_true]⟩

/-- The walk over a block whose middle slot holds a leaf table allocates nothing and returns the
frame's leaf slot. -/
theorem pteForGpa_table {pgd : Pgd} {cache : Option Nat} {gpa : Nat} {pmd : PmdTable}
    {pte : PteTable} (hi : pgd (c.pgdIndex gpa) = some pmd)
    (hj : pmd (c.pmdOffset gpa) = .table pte) :
    kvmMipsPteForGpa c pgd cache gpa =
      some ⟨some (.leaf (c.pgdIndex gpa) (c.pmdOffset gpa) (c.pteOffset gpa)), pgd, cache⟩ := by
  cases cache <;> simp [kvmMipsPteForGpa, kvmMipsWalkPgd, kvmMipsWalkPgd.pmdLevel, hi, hj]

/-- The walk over a block whose middle slot is huge returns the middle slot itself. -/
theorem pteForGpa_huge {pgd : Pgd} {cache : Option Nat} {gpa : Nat} {pmd : PmdTable} {e : Pte}
    (hi : pgd (c.pgdIndex gpa) = some pmd) (hj : pmd (c.pmdOffset gpa) = .val e)
    (he : e.huge = true) :
    kvmMipsPteForGpa c pgd cache gpa =
      some ⟨some (.pmd (c.pgdIndex gpa) (c.pmdOffset gpa)), pgd, cache⟩ := by
  cases cache <;> simp [kvmMipsPteForGpa, kvmMipsWalkPgd, kvmMipsWalkPgd.pmdLevel, hi, hj, he]

/-- A store through a pointer is what the pointer then reads. -/
theorem readPte_setPte {pgd pgd' : Pgd} {p : PtePtr} {v : Pte} (h : pgd.setPte p v = some pgd') :
    pgd'.readPte p = some v := by
  cases p with
  | leaf i j k =>
    simp only [Pgd.setPte] at h
    split at h
    · split at h
      · cases h; simp [Pgd.readPte]
      · cases h
    · cases h
  | pmd i j =>
    simp only [Pgd.setPte] at h
    split at h
    · cases h; simp [Pgd.readPte]
    · cases h

/-- A pointer that reads an entry can be stored through. -/
theorem setPte_isSome {pgd : Pgd} {p : PtePtr} {e : Pte} (h : pgd.readPte p = some e) (v : Pte) :
    (pgd.setPte p v).isSome := by
  cases p with
  | leaf i j k =>
    simp only [Pgd.readPte] at h
    split at h
    · split at h
      · rename_i hi _ _ hj; rw [Pgd.setPte_leaf v hi hj]; rfl
      · cases h
    · cases h
  | pmd i j =>
    simp only [Pgd.readPte] at h
    split at h
    · rename_i hi; rw [Pgd.setPte_pmd v hi]; rfl
    · cases h

/-- Storing back what a pointer reads changes nothing. -/
theorem setPte_self {pgd : Pgd} {p : PtePtr} {e : Pte} (h : pgd.readPte p = some e) :
    pgd.setPte p e = some pgd := by
  cases p with
  | leaf i j k =>
    simp only [Pgd.readPte] at h
    split at h
    · split at h
      · rename_i hi _ _ hj
        cases h
        rw [Pgd.setPte_leaf _ hi hj, update_eq_self, ← hj, update_eq_self, ← hi, update_eq_self]
      · cases h
    · cases h
  | pmd i j =>
    simp only [Pgd.readPte] at h
    split at h
    · split at h
      · rename_i hi _ _ hj
        cases h
        rw [Pgd.setPte_pmd _ hi, ← hj, update_eq_self, ← hi, update_eq_self]
      · cases h
    · cases h

/-- A second store through the same pointer overrides the first. -/
theorem setPte_setPte {pgd pgd1 : Pgd} {p : PtePtr} {v : Pte} (h : pgd.setPte p v = some pgd1)
    (v' : Pte) : pgd1.setPte p v' = pgd.setPte p v' := by
  cases p with
  | leaf i j k =>
    simp only [Pgd.setPte] at h
    split at h
    · split at h
      · rename_i hi _ _ hj
        cases h
        rw [Pgd.setPte_leaf _ (update_same _ _ _) (update_same _ _ _), Pgd.setPte_leaf _ hi hj,
          update_idem, update_idem, update_idem]
      · cases h
    · cases h
  | pmd i j =>
    simp only [Pgd.setPte] at h
    split at h
    · rename_i hi
      cases h
      rw [Pgd.setPte_pmd _ (update_same _ _ _), Pgd.setPte_pmd _ hi, update_idem, update_idem]
    · cases h

end LoongsonDune.Proof
