import LoongsonDune.Mmu.Pte

/-!
# The GPA page table and `kvm_mips_walk_pgd`

The table is held by value: a top-level slot owns its middle table, a middle-level slot owns its
leaf table, and the shared `invalid_pmd_table` / `invalid_pte_table` sentinels are the constructors
`none` and `Pmd.invalid`. Every node the code links comes fresh from the vCPU's node pool and is
linked into exactly one slot, so ownership by value is the code's own discipline; the sentinels are
never written because no constructor can be.

A middle-level slot can also hold an entry value (`Pmd.val`). With the huge bit set that is a huge
mapping. Without it the slot holds a leaf-format value the code would follow as a table pointer;
such a slot is *corrupt*, and every access through it is undefined behaviour, modelled as `none`.

`kvm_mips_walk_pgd` returns a pointer (`PtePtr`): a leaf slot, or the middle-level slot itself when
that slot is huge. `Pgd.readPte` and `Pgd.setPte` dereference it. `Pgd.entry` is the abstract view
of the table: the entry governing a guest frame, the huge entry of its block or its leaf entry.
-/

namespace LoongsonDune

open Function

/-- A leaf table (`pte_t[PTRS_PER_PTE]`), indexed by `__pte_offset`. -/
abbrev PteTable := Nat → Pte

/-- The value of a middle-level slot (`pmd_t`). -/
inductive Pmd where
  /-- `invalid_pte_table`: no leaf table below. -/
  | invalid
  /-- A pointer to a leaf table the slot owns. -/
  | table (pte : PteTable)
  /-- An entry value stored in the slot itself; a huge mapping when its huge bit is set. -/
  | val (e : Pte)
deriving Inhabited

/-- A middle table (`pmd_t[PTRS_PER_PMD]`), indexed by `__pmd_offset`. -/
abbrev PmdTable := Nat → Pmd

/-- The top level (`pgd_t[PTRS_PER_PGD]`): a slot is `invalid_pmd_table` (`none`) or owns a
middle table. -/
abbrev Pgd := Nat → Option PmdTable

/-- `pmd_present`: a huge value is present when its present bit is set, anything but
`invalid_pte_table` otherwise. -/
def pmdPresent : Pmd → Bool
  | .invalid => false
  | .table _ => true
  | .val e => if e.huge then e.present else true

/-- `pmd_huge`: the huge bit of the slot's value; table pointers are page aligned. -/
def pmdHuge : Pmd → Bool
  | .val e => e.huge
  | _ => false

@[simp] theorem pmdHuge_invalid : pmdHuge .invalid = false := rfl
@[simp] theorem pmdHuge_table (pte : PteTable) : pmdHuge (.table pte) = false := rfl
@[simp] theorem pmdHuge_val (e : Pte) : pmdHuge (.val e) = e.huge := rfl

/-- The entry a middle-level slot gives the frame at leaf index `k`: the leaf entry below it, or
its own value when that is huge. -/
def Pmd.entryAt : Pmd → Nat → Option Pte
  | .invalid, _ => none
  | .table pte, k => some (pte k)
  | .val e, _ => if e.huge then some e else none

/-- `pmd_init(page, invalid_pte_table)`: a fresh middle table with every slot invalid. -/
def pmdInit : PmdTable := fun _ => .invalid

/-- `clear_page`: a fresh leaf table of zero entries. -/
def clearPage : PteTable := fun _ => Pte.zero

/-- `kvm_pgd_init`: every top-level slot points at `invalid_pmd_table`. -/
def kvmPgdInit : Pgd := fun _ => none

/-- `mmu_memory_cache_alloc`: take one node from a pool of `nobjs`; `none` is the `BUG_ON`. -/
def mmuMemoryCacheAlloc (nobjs : Nat) : Option Nat :=
  if nobjs = 0 then none else some (nobjs - 1)

/-- `mmu_free_memory_cache`: `while (mc->nobjs) free_page(mc->objects[--mc->nobjs])`, on the
count. `kvm_mmu_free_memory_caches` runs it on a vCPU's pool when the vCPU is torn down. -/
def mmuFreeMemoryCache : Nat → Nat
  | 0 => 0
  | nobjs + 1 => mmuFreeMemoryCache nobjs

/-- What a `pte_t *` returned by `kvm_mips_walk_pgd` points at. -/
inductive PtePtr where
  /-- Entry `k` of the leaf table below middle slot `j` of top slot `i` (`pte_offset`). -/
  | leaf (i j k : Nat)
  /-- Middle slot `j` of top slot `i`, returned as `(pte_t *)pmd` for a huge entry. -/
  | pmd (i j : Nat)
deriving DecidableEq, Repr

/-- The result of a walk: the pointer (`none` for `NULL`), the table and the pool after any
allocation. -/
structure Walked where
  ptep : Option PtePtr
  pgd : Pgd
  cache : Option Nat

section Walk
variable (c : Config)

/-- `kvm_mips_walk_pgd(pgd, cache, addr)`. Without a cache (`none`) a missing level returns
`NULL`; with one, each missing level is allocated from it (`none` overall on the pool's `BUG_ON`).
`pgd_none` never holds with the upper level folded, so its `BUG()` branch is dead. -/
def kvmMipsWalkPgd (pgd : Pgd) (cache : Option Nat) (addr : Nat) : Option Walked :=
  match pgd (c.pgdIndex addr), cache with
  | some pmd, _ => pmdLevel pgd pmd cache
  | none, none => some ⟨none, pgd, none⟩
  | none, some n => (mmuMemoryCacheAlloc n).bind fun n =>
      pmdLevel (update pgd (c.pgdIndex addr) (some pmdInit)) pmdInit (some n)
where
  /-- Below the top slot: stop at a huge entry, allocate a leaf table when `pmd_none`. -/
  pmdLevel (pgd : Pgd) (pmd : PmdTable) (cache : Option Nat) : Option Walked :=
    if pmdHuge (pmd (c.pmdOffset addr)) then
      some ⟨some (.pmd (c.pgdIndex addr) (c.pmdOffset addr)), pgd, cache⟩
    else match pmd (c.pmdOffset addr), cache with
      | .invalid, none => some ⟨none, pgd, none⟩
      | .invalid, some n => (mmuMemoryCacheAlloc n).bind fun n =>
          some ⟨some (.leaf (c.pgdIndex addr) (c.pmdOffset addr) (c.pteOffset addr)),
            update pgd (c.pgdIndex addr)
              (some (update pmd (c.pmdOffset addr) (.table clearPage))), some n⟩
      | _, _ => some ⟨some (.leaf (c.pgdIndex addr) (c.pmdOffset addr) (c.pteOffset addr)),
          pgd, cache⟩

/-- `kvm_mips_pte_for_gpa`: the walk over the VM's table. -/
def kvmMipsPteForGpa (pgd : Pgd) (cache : Option Nat) (addr : Nat) : Option Walked :=
  kvmMipsWalkPgd c pgd cache addr

end Walk

/-! ## Table loops

Every loop over a table in `kern/mmu.c` has the shape `for (i = i_min; i <= i_max; ++i)`, and its
iteration `i` reads and writes slot `i` only, then folds a flag into an accumulator with `&&`
(`safe_to_remove`) or `||` (`ret`). `forSlots` is that loop, over `n = i_max + 1 - i_min`
iterations. -/

/-- `for (i = lo; i < lo + n; ++i)` over table `t`: iteration `i` maps slot `i` to a new value and
a flag folded into the accumulator by `op`; `none` as soon as an iteration faults. -/
def forSlots {α : Type} (op : Bool → Bool → Bool) (step : Nat → α → Option (α × Bool)) :
    Nat → Nat → (Nat → α) → Bool → Option ((Nat → α) × Bool)
  | _, 0, t, b => some (t, b)
  | i, n + 1, t, b => (step i (t i)).bind fun r => forSlots op step (i + 1) n (update t i r.1) (op b r.2)

section ForSlots
variable {α : Type} {op : Bool → Bool → Bool} {step : Nat → α → Option (α × Bool)}

/-- **What a finished loop did.** Every visited slot holds its iteration's result, computed from its
old value; every other slot is untouched. -/
theorem forSlots_eq_some : ∀ {i n : Nat} {t t' : Nat → α} {b b' : Bool},
    forSlots op step i n t b = some (t', b') →
    (∀ j, i ≤ j → j < i + n → ∃ r, step j (t j) = some (t' j, r)) ∧
    (∀ j, (j < i ∨ i + n ≤ j) → t' j = t j)
  | _, 0, _, _, _, _, h => by
    simp only [forSlots, Option.some.injEq, Prod.mk.injEq] at h
    obtain ⟨rfl, rfl⟩ := h
    exact ⟨fun j h1 h2 => absurd h2 (by omega), fun _ _ => rfl⟩
  | i, n + 1, t, t', b, b', h => by
    simp only [forSlots] at h
    obtain ⟨⟨y, r⟩, hs, hrec⟩ := Option.bind_eq_some.mp h
    obtain ⟨hin, hout⟩ := forSlots_eq_some hrec
    have hti : t' i = y := by rw [hout i (by omega), update_same]
    refine ⟨fun j h1 h2 => ?_, fun j hj => ?_⟩
    · rcases Nat.eq_or_lt_of_le h1 with rfl | h1
      · exact ⟨r, by rw [hti]; exact hs⟩
      · obtain ⟨r', hr'⟩ := hin j h1 (by omega)
        rw [update_noteq (by omega)] at hr'
        exact ⟨r', hr'⟩
    · rw [hout j (by omega), update_noteq (by omega)]

/-- A property of slots that every iteration keeps holds of the whole table after the loop. -/
theorem forSlots_preserve {Q : α → Prop} (hstep : ∀ j x y r, step j x = some (y, r) → Q x → Q y)
    {i n : Nat} {t t' : Nat → α} {b b' : Bool} (h : forSlots op step i n t b = some (t', b'))
    (ht : ∀ j, Q (t j)) (j : Nat) : Q (t' j) := by
  obtain ⟨hin, hout⟩ := forSlots_eq_some h
  by_cases hj : i ≤ j ∧ j < i + n
  · obtain ⟨r, hr⟩ := hin j hj.1 hj.2
    exact hstep j _ _ r hr (ht j)
  · rw [hout j (by omega)]; exact ht j

/-- A relation between a slot's old and new values that every iteration establishes, and that
holds between a value and itself, holds slot by slot between the tables before and after the loop. -/
theorem forSlots_rel {R : α → α → Prop} (hR : ∀ x, R x x)
    (hstep : ∀ j x y r, step j x = some (y, r) → R x y) {i n : Nat} {t t' : Nat → α} {b b' : Bool}
    (h : forSlots op step i n t b = some (t', b')) (j : Nat) : R (t j) (t' j) := by
  obtain ⟨hin, hout⟩ := forSlots_eq_some h
  by_cases hj : i ≤ j ∧ j < i + n
  · obtain ⟨r, hr⟩ := hin j hj.1 hj.2
    exact hstep j _ _ r hr
  · rw [hout j (by omega)]; exact hR _

/-- A loop over one slot is its single iteration. -/
theorem forSlots_one (i : Nat) (t : Nat → α) (b : Bool) :
    forSlots op step i 1 t b = (step i (t i)).map fun r => (update t i r.1, op b r.2) := by
  simp only [forSlots]; cases step i (t i) <;> rfl

/-- A loop whose iterations over the range all succeed finishes. -/
theorem forSlots_isSome : ∀ {i n : Nat} {t : Nat → α} (b : Bool),
    (∀ j, i ≤ j → j < i + n → (step j (t j)).isSome) → (forSlots op step i n t b).isSome
  | _, 0, _, _, _ => rfl
  | i, n + 1, t, b, h => by
    obtain ⟨⟨y, r⟩, hs⟩ := Option.isSome_iff_exists.mp (h i (Nat.le_refl _) (by omega))
    simp only [forSlots, hs, Option.bind_some]
    exact forSlots_isSome _ fun j h1 h2 => by rw [update_noteq (by omega)]; exact h j (by omega) (by omega)

/-- The `&&` accumulator: it stays true exactly when every iteration reported true. -/
theorem forSlots_and : ∀ {i n : Nat} {t t' : Nat → α} {b b' : Bool},
    forSlots (· && ·) step i n t b = some (t', b') →
    (b' = true ↔ b = true ∧ ∀ j, i ≤ j → j < i + n → ∃ y, step j (t j) = some (y, true))
  | _, 0, _, _, _, _, h => by
    simp only [forSlots, Option.some.injEq, Prod.mk.injEq] at h
    obtain ⟨rfl, rfl⟩ := h
    exact ⟨fun h => ⟨h, fun j h1 h2 => absurd h2 (by omega)⟩, fun h => h.1⟩
  | i, n + 1, t, t', b, b', h => by
    simp only [forSlots] at h
    obtain ⟨⟨y, r⟩, hs, hrec⟩ := Option.bind_eq_some.mp h
    rw [forSlots_and hrec]
    constructor
    · rintro ⟨hb, hall⟩
      simp only [Bool.and_eq_true] at hb
      refine ⟨hb.1, fun j h1 h2 => ?_⟩
      rcases Nat.eq_or_lt_of_le h1 with rfl | h1
      · exact ⟨y, by rw [hs, hb.2]⟩
      · obtain ⟨y', hy'⟩ := hall j h1 (by omega)
        rw [update_noteq (by omega)] at hy'
        exact ⟨y', hy'⟩
    · rintro ⟨hb, hall⟩
      obtain ⟨y', hy'⟩ := hall i (Nat.le_refl _) (by omega)
      rw [hs, Option.some.injEq, Prod.mk.injEq] at hy'
      refine ⟨by simp [hb, hy'.2], fun j h1 h2 => ?_⟩
      rw [update_noteq (by omega)]; exact hall j (by omega) (by omega)

/-- The `||` accumulator: it becomes true exactly when some iteration reported true. -/
theorem forSlots_or : ∀ {i n : Nat} {t t' : Nat → α} {b b' : Bool},
    forSlots (· || ·) step i n t b = some (t', b') →
    (b' = true ↔ b = true ∨ ∃ j, i ≤ j ∧ j < i + n ∧ ∃ y, step j (t j) = some (y, true))
  | _, 0, _, _, _, _, h => by
    simp only [forSlots, Option.some.injEq, Prod.mk.injEq] at h
    obtain ⟨rfl, rfl⟩ := h
    exact ⟨Or.inl, fun h => h.elim id fun ⟨j, h1, h2, _⟩ => absurd h2 (by omega)⟩
  | i, n + 1, t, t', b, b', h => by
    simp only [forSlots] at h
    obtain ⟨⟨y, r⟩, hs, hrec⟩ := Option.bind_eq_some.mp h
    rw [forSlots_or hrec]
    constructor
    · rintro (hb | ⟨j, h1, h2, y', hy'⟩)
      · simp only [Bool.or_eq_true] at hb
        rcases hb with hb | hb
        · exact Or.inl hb
        · exact Or.inr ⟨i, Nat.le_refl _, by omega, y, by rw [hs, hb]⟩
      · rw [update_noteq (by omega)] at hy'
        exact Or.inr ⟨j, by omega, by omega, y', hy'⟩
    · rintro (hb | ⟨j, h1, h2, y', hy'⟩)
      · exact Or.inl (by simp [hb])
      · rcases Nat.eq_or_lt_of_le h1 with rfl | h1
        · rw [hs, Option.some.injEq, Prod.mk.injEq] at hy'
          exact Or.inl (by simp [hy'.2])
        · exact Or.inr ⟨j, h1, by omega, y', by rw [update_noteq (by omega)]; exact hy'⟩

end ForSlots

namespace Pgd

/-- `*ptep`; `none` when the pointer leads through a slot that holds no leaf table. -/
def readPte (pgd : Pgd) : PtePtr → Option Pte
  | .leaf i j k => match pgd i with
    | some pmd => match pmd j with
      | .table pte => some (pte k)
      | _ => none
    | none => none
  | .pmd i j => match pgd i with
    | some pmd => match pmd j with
      | .val e => some e
      | _ => none
    | none => none

/-- `set_pte(ptep, v)`: store `v` where the pointer points. Through a middle-level pointer the
value lands in the middle slot whatever its huge bit. -/
def setPte (pgd : Pgd) (p : PtePtr) (v : Pte) : Option Pgd :=
  match p with
  | .leaf i j k => match pgd i with
    | some pmd => match pmd j with
      | .table pte => some (update pgd i (some (update pmd j (.table (update pte k v)))))
      | _ => none
    | none => none
  | .pmd i j => match pgd i with
    | some pmd => some (update pgd i (some (update pmd j (.val v))))
    | none => none

theorem readPte_leaf {pgd : Pgd} {i j k : Nat} {pmd : PmdTable} {pte : PteTable}
    (hi : pgd i = some pmd) (hj : pmd j = .table pte) : pgd.readPte (.leaf i j k) = some (pte k) := by
  simp only [readPte, hi, hj]

theorem readPte_pmd {pgd : Pgd} {i j : Nat} {pmd : PmdTable} {e : Pte}
    (hi : pgd i = some pmd) (hj : pmd j = .val e) : pgd.readPte (.pmd i j) = some e := by
  simp only [readPte, hi, hj]

theorem setPte_leaf {pgd : Pgd} {i j k : Nat} {pmd : PmdTable} {pte : PteTable} (v : Pte)
    (hi : pgd i = some pmd) (hj : pmd j = .table pte) :
    pgd.setPte (.leaf i j k) v = some (update pgd i (some (update pmd j (.table (update pte k v))))) := by
  simp only [setPte, hi, hj]

theorem setPte_pmd {pgd : Pgd} {i j : Nat} {pmd : PmdTable} (v : Pte) (hi : pgd i = some pmd) :
    pgd.setPte (.pmd i j) v = some (update pgd i (some (update pmd j (.val v)))) := by
  simp only [setPte, hi]

variable (c : Config)

/-- The entry governing guest frame `gfn`: its leaf entry, or the huge entry of its block. -/
def entry (pgd : Pgd) (gfn : Nat) : Option Pte :=
  (pgd (c.pgdIdx gfn)).bind fun pmd => (pmd (c.pmdIdx gfn)).entryAt (c.pteIdx gfn)

/-- No middle-level slot holds a leaf-format value: every slot is `invalid_pte_table`, a leaf
table or a huge entry. -/
def Wf (pgd : Pgd) : Prop := ∀ i pmd, pgd i = some pmd → ∀ j e, pmd j = .val e → e.huge = true

end Pgd

end LoongsonDune
