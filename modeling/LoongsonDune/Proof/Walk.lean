import LoongsonDune.Proof.SetPmdHuge

/-!
# What `kvm_mips_walk_pgd` does, level by level

On the way to `addr`'s leaf slot the walk reads two slots: the top slot `pgd_index(addr)` and the
middle slot `pmd_offset(addr)` below it. How many of the two levels are missing decides the
outcome. Without a pool a missing level returns `NULL`. With one, each missing level takes one
node from the pool and links it (a middle table all of whose slots are `invalid_pte_table`, a leaf
table of zero entries), and the walk returns the slot governing `addr`: the middle slot when it
holds a huge entry, else the leaf slot at `addr`'s indices. At most two levels are missing, and
the callers top the pool up to `KVM_MMU_CACHE_MIN_PAGES = 2` nodes first; a pool with fewer
nodes than missing levels would hit `BUG_ON` in `mmu_memory_cache_alloc`.

Linking fresh nodes changes no entry a load reads: a missing level reads as the zero entries of
`invalid_pte_table`, and so does a fresh leaf table.
-/

namespace LoongsonDune.Proof

open LoongsonDune Function

variable (c : Config)

/-- The levels missing on the way to `addr`'s leaf slot: two when the top slot is
`invalid_pmd_table`, one when the middle slot is `invalid_pte_table`, none otherwise. -/
def missingLevels (pgd : Pgd) (addr : Nat) : Nat :=
  match pgd (c.pgdIndex addr) with
  | none => 2
  | some pmd => match pmd (c.pmdOffset addr) with
    | .invalid => 1
    | _ => 0

/-- The slot governing `addr`: its middle slot when that holds a huge entry, else its leaf slot. -/
def governingSlot (pgd : Pgd) (addr : Nat) : PtePtr :=
  if (pgd (c.pgdIndex addr)).any fun pmd => pmdHuge (pmd (c.pmdOffset addr)) then
    .pmd (c.pgdIndex addr) (c.pmdOffset addr)
  else .leaf (c.pgdIndex addr) (c.pmdOffset addr) (c.pteOffset addr)

/-- The table with `addr`'s missing levels filled from fresh nodes: the middle table of `addr`'s
top slot, a fresh one with every slot `invalid_pte_table` when there is none, gets a fresh leaf
table of zero entries in `addr`'s middle slot. -/
def linkFresh (pgd : Pgd) (addr : Nat) : Pgd :=
  if missingLevels c pgd addr = 0 then pgd
  else update pgd (c.pgdIndex addr)
    (some (update ((pgd (c.pgdIndex addr)).getD pmdInit) (c.pmdOffset addr) (.table clearPage)))

/-! ## Free middle slots -/

section Free
variable {c} {pgd : Pgd}

theorem free_of_missing {addr : Nat} (h : missingLevels c pgd addr ≠ 0) :
    (pgd (c.pgdIndex addr)).getD pmdInit (c.pmdOffset addr) = .invalid := by
  unfold missingLevels at h
  rcases hi : pgd (c.pgdIndex addr) with _ | pmd
  · rfl
  · rw [hi] at h
    rw [Option.getD_some]
    cases hj : pmd (c.pmdOffset addr) <;> simp only [hj, ne_eq, not_true_eq_false] at h ⊢

/-- A free middle slot governs no entry. -/
theorem entry_of_free {x : Nat} (h : (pgd (c.pgdIdx x)).getD pmdInit (c.pmdIdx x) = .invalid) :
    pgd.entry c x = none := by
  rcases hi : pgd (c.pgdIdx x) with _ | pmd
  · simp only [Pgd.entry, hi, Option.none_bind]
  · rw [hi, Option.getD_some] at h
    simp only [Pgd.entry, hi, Option.some_bind, h, Pmd.entryAt]

/-- Linking a zero leaf table into a free middle slot changes no entry a load reads. -/
theorem entry_link_clearPage {i j : Nat} (hj : (pgd i).getD pmdInit j = .invalid) (x : Nat) :
    (Pgd.entry c (update pgd i (some (update ((pgd i).getD pmdInit) j (.table clearPage)))) x).getD
      Pte.zero = (pgd.entry c x).getD Pte.zero := by
  by_cases hx : c.pgdIdx x = i ∧ c.pmdIdx x = j
  · obtain ⟨rfl, rfl⟩ := hx
    rw [entry_of_free hj]
    simp only [Pgd.entry, update_same, Option.some_bind, Pmd.entryAt, clearPage, Option.getD_some,
      Option.getD_none]
  · rw [entry_update_some ((not_and_or.mp hx).imp id fun hj' => update_noteq hj' _ _)]

theorem wf_link_clearPage (hwf : pgd.Wf) {i j : Nat} :
    Pgd.Wf (update pgd i (some (update ((pgd i).getD pmdInit) j (.table clearPage)))) := by
  refine wf_update_some hwf fun j' e hj' => ?_
  by_cases hjj : j' = j
  · subst hjj; rw [update_same] at hj'; cases hj'
  · rw [update_noteq hjj] at hj'
    rcases hi : pgd i with _ | pmd
    · rw [hi] at hj'; cases hj'
    · rw [hi] at hj'; exact hwf i pmd hi j' e hj'

end Free

/-! ## The walk -/

section Walk
variable {pgd : Pgd} (hwf : pgd.Wf)
include hwf

/-- **Without a pool the walk changes nothing**, and returns `NULL` exactly when a level is
missing, else the slot governing `addr`. -/
theorem walk_no_pool (addr : Nat) :
    kvmMipsWalkPgd c pgd none addr = some
      ⟨if missingLevels c pgd addr = 0 then some (governingSlot c pgd addr) else none, pgd, none⟩ := by
  rcases hi : pgd (c.pgdIndex addr) with _ | pmd
  · simp [kvmMipsWalkPgd, missingLevels, hi]
  rcases hj : pmd (c.pmdOffset addr) with _ | pte | e
  · simp [kvmMipsWalkPgd, kvmMipsWalkPgd.pmdLevel, missingLevels, hi, hj]
  · exact (pteForGpa_table c hi hj).trans (by simp [missingLevels, governingSlot, hi, hj])
  · have he := hwf _ _ hi _ _ hj
    exact (pteForGpa_huge c hi hj he).trans
      (by simp [missingLevels, governingSlot, hi, hj, he])

/-- **With a pool of `n` nodes** the walk links one fresh node per missing level and returns the
slot governing `addr`, when `n` covers the missing levels; otherwise it hits `BUG_ON`. -/
theorem walk_pool (addr n : Nat) :
    kvmMipsWalkPgd c pgd (some n) addr =
      if missingLevels c pgd addr ≤ n then
        some ⟨some (governingSlot c pgd addr), linkFresh c pgd addr,
          some (n - missingLevels c pgd addr)⟩
      else none := by
  rcases hi : pgd (c.pgdIndex addr) with _ | pmd
  · rcases n with _ | _ | n
    · simp [kvmMipsWalkPgd, missingLevels, hi, mmuMemoryCacheAlloc]
    · simp [kvmMipsWalkPgd, kvmMipsWalkPgd.pmdLevel, missingLevels, hi, mmuMemoryCacheAlloc,
        pmdInit]
    · simp only [kvmMipsWalkPgd, kvmMipsWalkPgd.pmdLevel, missingLevels, governingSlot, linkFresh,
        hi, mmuMemoryCacheAlloc, pmdInit, pmdHuge_invalid, update_idem, Nat.add_eq_zero,
        one_ne_zero, and_false, if_false, Option.some_bind, Bool.false_eq_true, Nat.add_sub_cancel,
        le_add_iff_nonneg_left, zero_le, if_true, Option.any_none, OfNat.ofNat_ne_zero,
        Option.getD_none, Nat.reduceSubDiff]
  rcases hj : pmd (c.pmdOffset addr) with _ | pte | e
  · rcases n with _ | n
    · simp [kvmMipsWalkPgd, kvmMipsWalkPgd.pmdLevel, missingLevels, hi, hj, mmuMemoryCacheAlloc]
    · simp only [kvmMipsWalkPgd, kvmMipsWalkPgd.pmdLevel, missingLevels, governingSlot, linkFresh,
        hi, hj, mmuMemoryCacheAlloc, pmdHuge_invalid, Bool.false_eq_true, if_false, Nat.add_eq_zero,
        one_ne_zero, and_false, Nat.add_sub_cancel, Option.some_bind, le_add_iff_nonneg_left,
        zero_le, if_true, Option.any_some, Option.getD_some]
  · exact (pteForGpa_table c hi hj).trans
      (by simp [missingLevels, governingSlot, linkFresh, hi, hj])
  · have he := hwf _ _ hi _ _ hj
    exact (pteForGpa_huge c hi hj he).trans
      (by simp [missingLevels, governingSlot, linkFresh, hi, hj, he])

omit hwf in
/-- Linking fresh nodes changes no entry a load reads. -/
theorem entry_linkFresh (addr gfn : Nat) :
    ((linkFresh c pgd addr).entry c gfn).getD Pte.zero = (pgd.entry c gfn).getD Pte.zero := by
  unfold linkFresh
  split_ifs with hm
  · rfl
  · exact entry_link_clearPage (free_of_missing hm) gfn

theorem linkFresh_wf (addr : Nat) : (linkFresh c pgd addr).Wf := by
  unfold linkFresh
  split_ifs
  · exact hwf
  · exact wf_link_clearPage hwf

/-- The slot the walk returns reads the entry governing `addr`'s frame. -/
theorem readPte_governingSlot (addr : Nat) :
    (linkFresh c pgd addr).readPte (governingSlot c pgd addr) =
      some ((pgd.entry c (addr / c.pageSize)).getD Pte.zero) := by
  have hent : pgd.entry c (addr / c.pageSize) = (pgd (c.pgdIndex addr)).bind fun pmd =>
      (pmd (c.pmdOffset addr)).entryAt (c.pteOffset addr) := by
    rw [Pgd.entry, c.pgdIndex_eq, c.pmdOffset_eq, c.pteOffset_eq]
  by_cases hm : missingLevels c pgd addr = 0
  · rw [linkFresh, if_pos hm, hent]
    rcases hi : pgd (c.pgdIndex addr) with _ | pmd
    · simp [missingLevels, hi] at hm
    rcases hj : pmd (c.pmdOffset addr) with _ | pte | e
    · simp [missingLevels, hi, hj] at hm
    · simp [governingSlot, hi, hj, Pgd.readPte_leaf hi hj, Pmd.entryAt]
    · have he := hwf _ _ hi _ _ hj
      simp [governingSlot, hi, hj, he, Pgd.readPte_pmd hi hj, Pmd.entryAt]
  · have hfree := free_of_missing hm
    have hgov : governingSlot c pgd addr =
        .leaf (c.pgdIndex addr) (c.pmdOffset addr) (c.pteOffset addr) := by
      rcases hi : pgd (c.pgdIndex addr) with _ | pmd
      · simp [governingSlot, hi]
      · rw [hi, Option.getD_some] at hfree
        simp [governingSlot, hi, hfree]
    rw [linkFresh, if_neg hm, hgov, Pgd.readPte_leaf (update_same _ _ _) (update_same _ _ _),
      entry_of_free (by rwa [← c.pgdIndex_eq, ← c.pmdOffset_eq])]
    rfl

end Walk

/-! ## The walk as a whole -/

/-- A walk is never more than `KVM_MMU_CACHE_MIN_PAGES` levels short. -/
theorem missingLevels_le (pgd : Pgd) (addr : Nat) :
    missingLevels c pgd addr ≤ KVM_MMU_CACHE_MIN_PAGES := by
  unfold missingLevels KVM_MMU_CACHE_MIN_PAGES
  split
  · exact le_rfl
  · split <;> omega

/-- **What `kvm_mips_walk_pgd` does.** On a well-formed table, for every `addr`: without a pool
the walk changes nothing and returns `NULL` exactly when a level is missing, else the slot governing
`addr`. A walk is at most `KVM_MMU_CACHE_MIN_PAGES` levels short, and with the pool its callers
top up to that many nodes before they take `mmu_lock`, of `n` nodes, it returns the slot governing
`addr`, the table with one fresh node linked per missing level, and `n` less the missing levels.
The linked table loads every entry the old one did, is well formed, and the returned slot reads the
entry governing `addr`'s frame. -/
theorem kvmMipsWalkPgd_links_fresh {pgd : Pgd} (hwf : pgd.Wf) (addr : Nat) :
    kvmMipsWalkPgd c pgd none addr = some
      ⟨if missingLevels c pgd addr = 0 then some (governingSlot c pgd addr) else none, pgd, none⟩ ∧
    missingLevels c pgd addr ≤ KVM_MMU_CACHE_MIN_PAGES ∧
    (∀ n, KVM_MMU_CACHE_MIN_PAGES ≤ n → kvmMipsWalkPgd c pgd (some n) addr =
      some ⟨some (governingSlot c pgd addr), linkFresh c pgd addr,
        some (n - missingLevels c pgd addr)⟩) ∧
    (∀ gfn, ((linkFresh c pgd addr).entry c gfn).getD Pte.zero =
      (pgd.entry c gfn).getD Pte.zero) ∧
    (linkFresh c pgd addr).Wf ∧
    (linkFresh c pgd addr).readPte (governingSlot c pgd addr) =
      some ((pgd.entry c (addr / c.pageSize)).getD Pte.zero) :=
  ⟨walk_no_pool c hwf addr, missingLevels_le c pgd addr,
    fun n hn => (walk_pool c hwf addr n).trans (if_pos ((missingLevels_le c pgd addr).trans hn)),
    entry_linkFresh c addr, linkFresh_wf c hwf addr, readPte_governingSlot c hwf addr⟩

theorem kvmMipsWalkPgd_links_fresh_sample :
    kvmMipsWalkPgd (Config.mips16k false) flushSample none (2 ^ 26) = some
      ⟨if missingLevels (Config.mips16k false) flushSample (2 ^ 26) = 0 then
        some (governingSlot (Config.mips16k false) flushSample (2 ^ 26)) else none,
        flushSample, none⟩ ∧
    missingLevels (Config.mips16k false) flushSample (2 ^ 26) ≤ KVM_MMU_CACHE_MIN_PAGES ∧
    (∀ n, KVM_MMU_CACHE_MIN_PAGES ≤ n →
      kvmMipsWalkPgd (Config.mips16k false) flushSample (some n) (2 ^ 26) =
        some ⟨some (governingSlot (Config.mips16k false) flushSample (2 ^ 26)),
          linkFresh (Config.mips16k false) flushSample (2 ^ 26),
          some (n - missingLevels (Config.mips16k false) flushSample (2 ^ 26))⟩) ∧
    (∀ gfn, ((linkFresh (Config.mips16k false) flushSample (2 ^ 26)).entry
      (Config.mips16k false) gfn).getD Pte.zero =
        (flushSample.entry (Config.mips16k false) gfn).getD Pte.zero) ∧
    (linkFresh (Config.mips16k false) flushSample (2 ^ 26)).Wf ∧
    (linkFresh (Config.mips16k false) flushSample (2 ^ 26)).readPte
        (governingSlot (Config.mips16k false) flushSample (2 ^ 26)) =
      some ((flushSample.entry (Config.mips16k false)
        (2 ^ 26 / (Config.mips16k false).pageSize)).getD Pte.zero) :=
  kvmMipsWalkPgd_links_fresh (Config.mips16k false) flushSample_wf (2 ^ 26)

end LoongsonDune.Proof
