import LoongsonDune.Proof.FlushRange

/-!
# When a flush frees a table

Each flush function returns `safe_to_remove`, and its parent frees the child table when it is
true. The flag starts as `i_min == 0 && i_max == PTRS_PER_x - 1`, and a middle or upper node
clears it whenever a child table it visits is not itself safe to remove. So a node reports true
exactly when the range starts at its first slot and ends at its last, and, through every table on
the walk's two edges, at the first and last entry of each level below: `PmdFrom` and `PmdTo` say
that for a middle table. A range that covers a middle table's index range but cuts a leaf table at
either end leaves that leaf table in place and reports false.

When a flush reports true, no slot of its node is left present, so every table the code frees is
empty, and a true `kvm_mips_flush_gpa_pt` leaves every top-level slot empty.
-/

namespace LoongsonDune.Proof

open LoongsonDune

variable (c : Config)

/-- The range starts at middle table `pmd`'s first slot, and at the first entry of the leaf table
there if it holds one. -/
def PmdFrom (pmd : PmdTable) (s : Nat) : Prop :=
  c.pmdOffset s = 0 ∧ ∀ pte, pmd 0 = .table pte → c.pteOffset s = 0

/-- The range ends at middle table `pmd`'s last slot, and at the last entry of the leaf table
there if it holds one. -/
def PmdTo (pmd : PmdTable) (e : Nat) : Prop :=
  c.pmdOffset e = c.ptrsPerPmd - 1 ∧
    ∀ pte, pmd (c.ptrsPerPmd - 1) = .table pte → c.pteOffset e = c.ptrsPerPte - 1

/-- The range covers the top level's every slot, and reaches through the tables on its two
edges to their first and last entries. -/
def PgdCovered (pgd : Pgd) (s e : Nat) : Prop :=
  c.pgdIndex s = 0 ∧ c.pgdIndex e = c.ptrsPerPgd - 1 ∧
    (∀ pmd, pgd 0 = some pmd → PmdFrom c pmd s) ∧
    (∀ pmd, pgd (c.ptrsPerPgd - 1) = some pmd → PmdTo c pmd e)

variable {c}

theorem pmdFrom_zero (pmd : PmdTable) : PmdFrom c pmd 0 := by simp [PmdFrom]

theorem pmdTo_ulongMax (pmd : PmdTable) : PmdTo c pmd ulongMax := by simp [PmdTo]

/-! ## Leaf tables -/

theorem flushPte_flag_iff {pte pte' : PteTable} {s e : Nat} {r : Bool}
    (h : kvmMipsFlushGpaPte c pte s e = some (pte', r)) :
    r = true ↔ c.pteOffset s = 0 ∧ c.pteOffset e = c.ptrsPerPte - 1 := by
  rw [forSlots_and h]
  simp only [Bool.and_eq_true, beq_iff_eq, and_iff_left_iff_imp]
  intro _ j _ _
  by_cases hp : (pte j).present <;> simp [hp]

/-- **A leaf flush reports true exactly when its range is the whole table**, and then it has left
no entry present. -/
theorem flushPte_safe (pte : PteTable) (s e : Nat) :
    ∃ pte' r, kvmMipsFlushGpaPte c pte s e = some (pte', r) ∧
      (r = true ↔ c.pteOffset s = 0 ∧ c.pteOffset e = c.ptrsPerPte - 1) ∧
      (r = true → ∀ k, k < c.ptrsPerPte → (pte' k).present = false) := by
  obtain ⟨⟨pte', r⟩, h⟩ := Option.isSome_iff_exists.mp (flushPte_isSome (c := c) pte s e)
  refine ⟨pte', r, h, flushPte_flag_iff h, fun hr k hk => ?_⟩
  have hf := (flushPte_flag_iff h).mp hr
  exact (flushPte_visit h k).1 (by omega) (by omega)

/-! ## Middle tables -/

/-- One iteration of the middle loop reports true unless it flushed a leaf table that its range
did not cover whole. -/
theorem flushGpaPmdSlot_true {p : Pmd} (hp : ∀ x, p = .val x → x.huge = true) (s e : Nat) :
    (∃ y, flushGpaPmdSlot c s e p = some (y, true)) ↔
      ∀ pte, p = .table pte → c.pteOffset s = 0 ∧ c.pteOffset e = c.ptrsPerPte - 1 := by
  cases p with
  | invalid => simp [flushGpaPmdSlot, pmdPresent]
  | table pte =>
    obtain ⟨pte', r, h, hr, -⟩ := flushPte_safe (c := c) pte s e
    simp only [flushGpaPmdSlot, pmdPresent, pmdHuge_table, Bool.not_true, Bool.false_eq_true,
      if_false, h, Option.map_some', Option.some.injEq, Prod.mk.injEq, Pmd.table.injEq, forall_eq', ← hr]
    cases r <;> simp
  | val x =>
    have hx := hp x rfl
    cases hxp : x.present <;> simp [flushGpaPmdSlot, pmdPresent, hx, hxp]

/-- The value a slot is left with by an iteration that reported true is not present. -/
theorem flushGpaPmdSlot_true_absent {s e : Nat} {p p' : Pmd}
    (h : flushGpaPmdSlot c s e p = some (p', true)) : pmdPresent p' = false := by
  rcases flushGpaPmdSlot_cases h with ⟨hp, rfl, -⟩ | ⟨_, -, -, rfl, -⟩ | ⟨_, _, _, -, -, rfl, hr⟩
  · exact hp
  · rfl
  · rw [← hr]; rfl

/-- **A middle flush reports true exactly when its range covers the table**, reaching the first
entry of a leaf table in its first slot and the last entry of one in its last slot; and then it
has left no slot present. -/
theorem flushPmd_safe {pmd : PmdTable} (hwf : ∀ j x, pmd j = .val x → x.huge = true) (s e : Nat) :
    ∃ pmd' r, kvmMipsFlushGpaPmd c pmd s e = some (pmd', r) ∧
      (r = true ↔ PmdFrom c pmd s ∧ PmdTo c pmd e) ∧
      (r = true → ∀ j, j < c.ptrsPerPmd → pmdPresent (pmd' j) = false) := by
  obtain ⟨⟨pmd', r⟩, h⟩ := Option.isSome_iff_exists.mp (show (kvmMipsFlushGpaPmd c pmd s e).isSome from
    forSlots_isSome _ fun j _ _ => flushGpaPmdSlot_isSome (hwf j) _ _)
  have hM := c.ptrsPerPmd_pos
  have hflag : r = true ↔ PmdFrom c pmd s ∧ PmdTo c pmd e := by
    rw [forSlots_and h]
    simp only [Bool.and_eq_true, beq_iff_eq, PmdFrom, PmdTo]
    constructor
    · rintro ⟨⟨h0, h1⟩, hall⟩
      have hedge := fun j (hj : j < c.ptrsPerPmd) pte (hpt : pmd j = .table pte) =>
        (flushGpaPmdSlot_true (hwf j) _ _).mp (hall j (by omega) (by omega)) pte hpt
      refine ⟨⟨h0, fun pte hpt => ?_⟩, h1, fun pte hpt => ?_⟩
      · simpa [h0] using (hedge 0 hM pte hpt).1
      · simpa [h1] using (hedge _ (by omega) pte hpt).2
    · rintro ⟨⟨h0, hs⟩, h1, he⟩
      refine ⟨⟨h0, h1⟩, fun j hj1 hj2 => (flushGpaPmdSlot_true (hwf j) _ _).mpr fun pte hpt => ?_⟩
      rw [h0, h1]
      constructor
      · split_ifs with hj
        · exact hs pte (hj ▸ hpt)
        · simp
      · split_ifs with hj
        · exact he pte (hj ▸ hpt)
        · simp
  refine ⟨pmd', r, h, hflag, fun hr j hj => ?_⟩
  have hcov := (hflag.mp hr)
  have h0 := hcov.1.1
  have h1 := hcov.2.1
  obtain ⟨y, hy⟩ := ((forSlots_and h).mp hr).2 j (by omega) (by omega)
  obtain ⟨r', hr'⟩ := (forSlots_eq_some h).1 j (by omega) (by omega)
  rw [hr'] at hy
  obtain ⟨rfl, rfl⟩ := Prod.mk.inj (Option.some.inj hy)
  exact flushGpaPmdSlot_true_absent hr'

/-! ## The upper level and the top -/

/-- **The upper-level flush reports true exactly when its middle table, if any, is covered**, and
then the slot is left empty. -/
theorem flushPud_safe {pud : Option PmdTable}
    (hwf : ∀ pmd, pud = some pmd → ∀ j x, pmd j = .val x → x.huge = true) (s e : Nat) :
    ∃ pud' r, kvmMipsFlushGpaPud c pud s e = some (pud', r) ∧
      (r = true ↔ ∀ pmd, pud = some pmd → PmdFrom c pmd s ∧ PmdTo c pmd e) ∧
      (r = true → pud' = none) := by
  cases pud with
  | none => exact ⟨none, true, rfl, by simp, fun _ => rfl⟩
  | some pmd =>
    obtain ⟨pmd', r, h, hr, -⟩ := flushPmd_safe (c := c) (hwf pmd rfl) s e
    refine ⟨if r then none else some pmd', r, by cases r <;> simp [kvmMipsFlushGpaPud, h], ?_, ?_⟩
    · simp only [Option.some.injEq, forall_eq', hr]
    · intro hr; simp [hr]

/-- **A top-level flush reports true exactly when its range covers the table**: every top slot,
and through the tables on the two edges their first and last entries. Then every top slot is
left empty. -/
theorem flushPgd_safe {pgd : Pgd} (hwf : pgd.Wf) (s e : Nat) :
    ∃ pgd' r, kvmMipsFlushGpaPgd c pgd s e = some (pgd', r) ∧
      (r = true ↔ PgdCovered c pgd s e) ∧
      (r = true → ∀ i, i < c.ptrsPerPgd → pgd' i = none) := by
  obtain ⟨⟨pgd', r⟩, h⟩ := Option.isSome_iff_exists.mp (show (kvmMipsFlushGpaPgd c pgd s e).isSome from
    forSlots_isSome _ fun i _ _ => by
      obtain ⟨_, _, h, -⟩ := flushPud_safe (c := c) (hwf i) (if i = c.pgdIndex s then s else 0)
        (if i = c.pgdIndex e then e else ulongMax)
      simp [h])
  have hG := c.ptrsPerPgd_pos
  have hstep : ∀ i, (∃ y, kvmMipsFlushGpaPud c (pgd i) (if i = c.pgdIndex s then s else 0)
      (if i = c.pgdIndex e then e else ulongMax) = some (y, true)) ↔
      ∀ pmd, pgd i = some pmd → PmdFrom c pmd (if i = c.pgdIndex s then s else 0) ∧
        PmdTo c pmd (if i = c.pgdIndex e then e else ulongMax) := fun i => by
    obtain ⟨pud', r', h', hr', -⟩ := flushPud_safe (c := c) (hwf i) (if i = c.pgdIndex s then s else 0)
      (if i = c.pgdIndex e then e else ulongMax)
    rw [h', ← hr']
    cases r' <;> simp
  have hflag : r = true ↔ PgdCovered c pgd s e := by
    rw [forSlots_and h]
    simp only [Bool.and_eq_true, beq_iff_eq, PgdCovered]
    constructor
    · rintro ⟨⟨h0, h1⟩, hall⟩
      refine ⟨h0, h1, fun pmd hp => ?_, fun pmd hp => ?_⟩
      · simpa [h0] using ((hstep 0).mp (hall 0 (by omega) (by omega)) pmd hp).1
      · simpa [h1] using ((hstep _).mp (hall (c.ptrsPerPgd - 1) (by omega) (by omega)) pmd hp).2
    · rintro ⟨h0, h1, hs, he⟩
      refine ⟨⟨h0, h1⟩, fun i _ _ => (hstep i).mpr fun pmd hp => ⟨?_, ?_⟩⟩
      · split_ifs with hi
        · exact hs pmd (by rw [hi, h0] at hp; exact hp)
        · exact pmdFrom_zero pmd
      · split_ifs with hi
        · exact he pmd (by rw [hi, h1] at hp; exact hp)
        · exact pmdTo_ulongMax pmd
  refine ⟨pgd', r, h, hflag, fun hr i hi => ?_⟩
  have hcov := hflag.mp hr
  have h0 := hcov.1
  have h1 := hcov.2.1
  obtain ⟨y, hy⟩ := ((forSlots_and h).mp hr).2 i (by omega) (by omega)
  obtain ⟨r', hr'⟩ := (forSlots_eq_some h).1 i (by omega) (by omega)
  rw [hr'] at hy
  obtain ⟨rfl, rfl⟩ := Prod.mk.inj (Option.some.inj hy)
  obtain ⟨_, _, h', -, hnone⟩ := flushPud_safe (c := c) (hwf i) (if i = c.pgdIndex s then s else 0)
    (if i = c.pgdIndex e then e else ulongMax)
  rw [h'] at hr'
  obtain ⟨rfl, rfl⟩ := Prod.mk.inj (Option.some.inj hr')
  exact hnone rfl

/-! ## All four levels -/

/-- **When each flush reports "safe to remove".** The leaf flush reports true exactly when its
range is the whole table; the middle, upper and top flushes exactly when their range covers the
node and reaches through the tables on its two edges to their first and last entries. Whenever a
flush reports true, no slot of its node is left present, so every table the code frees is empty
and a true `kvm_mips_flush_gpa_pgd` leaves every top-level slot empty. -/
theorem flush_safe_to_remove (c : Config) :
    (∀ (pte : PteTable) (s e : Nat), ∃ pte' r, kvmMipsFlushGpaPte c pte s e = some (pte', r) ∧
      (r = true ↔ c.pteOffset s = 0 ∧ c.pteOffset e = c.ptrsPerPte - 1) ∧
      (r = true → ∀ k, k < c.ptrsPerPte → (pte' k).present = false)) ∧
    (∀ pmd : PmdTable, (∀ j x, pmd j = .val x → x.huge = true) → ∀ s e,
      ∃ pmd' r, kvmMipsFlushGpaPmd c pmd s e = some (pmd', r) ∧
        (r = true ↔ PmdFrom c pmd s ∧ PmdTo c pmd e) ∧
        (r = true → ∀ j, j < c.ptrsPerPmd → pmdPresent (pmd' j) = false)) ∧
    (∀ pud : Option PmdTable, (∀ pmd, pud = some pmd → ∀ j x, pmd j = .val x → x.huge = true) →
      ∀ s e, ∃ pud' r, kvmMipsFlushGpaPud c pud s e = some (pud', r) ∧
        (r = true ↔ ∀ pmd, pud = some pmd → PmdFrom c pmd s ∧ PmdTo c pmd e) ∧
        (r = true → pud' = none)) ∧
    (∀ pgd : Pgd, pgd.Wf → ∀ s e, ∃ pgd' r, kvmMipsFlushGpaPgd c pgd s e = some (pgd', r) ∧
      (r = true ↔ PgdCovered c pgd s e) ∧ (r = true → ∀ i, i < c.ptrsPerPgd → pgd' i = none)) :=
  ⟨flushPte_safe, fun _ h => flushPmd_safe h, fun _ h => flushPud_safe h,
    fun _ h => flushPgd_safe h⟩

/-- A middle table whose first slot holds a leaf table and whose other slots are empty. -/
def edgeLeafPmd : PmdTable := fun j => if j = 0 then .table clearPage else .invalid

/-- **A middle flush over its whole index range that reports false.** Under `Config.mips16k` the
range `[2^14, ~0ul]` has `i_min = 0` and `i_max = PTRS_PER_PMD - 1` at the middle level, yet it
starts at entry `1` of the leaf table in slot `0`, so `kvm_mips_flush_gpa_pmd` on `edgeLeafPmd`
keeps that table and returns false. -/
theorem flushPmd_cut_leaf :
    (Config.mips16k false).pmdOffset (2 ^ 14) = 0 ∧
      (Config.mips16k false).pmdOffset ulongMax = (Config.mips16k false).ptrsPerPmd - 1 ∧
      ∃ pmd', kvmMipsFlushGpaPmd (Config.mips16k false) edgeLeafPmd (2 ^ 14) ulongMax =
        some (pmd', false) := by
  refine ⟨by decide, by decide, ?_⟩
  obtain ⟨pmd', r, h, hr, -⟩ := flushPmd_safe (c := Config.mips16k false)
    (show ∀ j x, edgeLeafPmd j = .val x → x.huge = true from fun j x hj => by
      simp only [edgeLeafPmd] at hj; split at hj <;> cases hj) (2 ^ 14) ulongMax
  refine ⟨pmd', ?_⟩
  cases r
  · exact h
  · exact absurd ((hr.mp rfl).1.2 clearPage rfl) (by decide)

end LoongsonDune.Proof
