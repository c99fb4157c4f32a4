import LoongsonDune.Mmu.System
import LoongsonDune.Proof.Slot
import LoongsonDune.Proof.Entry

/-!
# `kvm_set_spte_hva`: the host pte lands in the table as it is

`kvm_set_spte_handler` finds the entry of the first frame of the range and stores the host's pte
there. Its comment says the mapping "may need adjusting depending on memslot flags", but nothing
adjusts it: a writable host pte becomes a writable entry of a read-only slot. And nothing calls
`mark_page_dirty`: a dirty host pte becomes a dirty entry of a frame the dirty log does not hold.
-/

namespace LoongsonDune.Proof

open LoongsonDune Function

variable {c : Config}

/-- Where the walk finds a leaf table, `kvm_set_spte_handler` stores the host pte as the frame's
entry. -/
theorem setSpteHandler_leaf {pgd : Pgd} {gfn gfnEnd : Nat} {s : Memslot} {pte : Pte}
    {pmd : PmdTable} {t : PteTable} (hi : pgd (c.pgdIdx gfn) = some pmd)
    (hj : pmd (c.pmdIdx gfn) = .table t) :
    ∃ pgd' r, kvmSetSpteHandler c pte pgd gfn gfnEnd s = some (pgd', r) ∧
      pgd'.entry c gfn = some pte := by
  rw [← c.pgdIndex_gpaOf] at hi
  rw [← c.pmdOffset_gpaOf] at hj
  simp only [kvmSetSpteHandler, pteForGpa_table c hi hj, Option.some_bind, Pgd.readPte_leaf hi hj,
    Pgd.setPte_leaf _ hi hj, Option.map_some', Option.some.injEq, Prod.mk.injEq, exists_and_left,
    exists_eq', true_and]
  simp [Pgd.entry, Pmd.entryAt]

/-- **A host pte change reaches the entry as it is.** Take one slot at a page-aligned host
address whose host range does not wrap, a page-aligned `hva` of it that is not its last page, and
a world in which an invalidation covers `hva`'s page and frame `g` of `hva` has a leaf table. Then
`kvm_set_spte_hva(kvm, hva, pte)` makes `pte` the entry of `g`, whatever the slot's flags, and
leaves the dirty log alone. -/
theorem setSpte_step_leaf {w : World} {s : Memslot} {hva g : Nat} {pte : Pte}
    (hua : s.userspaceAddr % c.pageSize = 0) (hhva : hva % c.pageSize = 0)
    (h1 : s.userspaceAddr ≤ hva) (h3 : hva + c.pageSize < s.userspaceAddr + s.npages * c.pageSize)
    (hwrap : s.userspaceAddr + s.npages * c.pageSize < 2 ^ 64)
    (hgfn : s.baseGfn + s.npages ≤ 2 ^ 64)
    (hg : g = s.baseGfn + (hva - s.userspaceAddr) / c.pageSize)
    (hleaf : ∃ pmd t, w.vm.pgd (c.pgdIdx g) = some pmd ∧ pmd (c.pmdIdx g) = .table t)
    (hinv : w.invalidatingPage c (hva / c.pageSize) = true) :
    ∃ w', step c [s] w (.setSpte hva pte) = some w' ∧ w'.vm.pgd.entry c g = some pte ∧
      w'.vm.dirtyLog = w.vm.dirtyLog := by
  obtain ⟨pmd, t, hi, hj⟩ := hleaf
  have hP := c.pageSize_pos
  obtain ⟨pgd', r, hh, he⟩ := @setSpteHandler_leaf c _ _
    (s.baseGfn + (hva + c.pageSize - s.userspaceAddr) / c.pageSize) s pte _ _ hi hj
  have hone := @handleHvaToGpa_one c (kvmSetSpteHandler c pte) s w.vm.pgd false hva
    (hva + c.pageSize) hua (by rw [Nat.add_mod_right]; exact hhva) h1 (by omega) h3 hwrap hgfn
  rw [← hg, hh] at hone
  let host' : Host := { w.host with pte := update w.host.pte (hva / c.pageSize) pte }
  let w1 : World := { w with vm := { w.vm with pgd := pgd' }, host := host' }
  refine ⟨if r then w1.kvmVzFlushShadowAll c else w1, ?_, ?_, ?_⟩
  · simp [step, hinv, kvmSetSpteHva, u64_of_lt (show hva + c.pageSize < 2 ^ 64 by omega), hone, w1, host']
  · split <;> simpa [w1] using he
  · split <;> simp [w1]

theorem gfnToMemslot_one {s : Memslot} {g : Nat} (h1 : s.baseGfn ≤ g)
    (h2 : g < s.baseGfn + s.npages) : gfnToMemslot [s] g = some s := by
  simp [gfnToMemslot, h1, h2]

/-- A table with one leaf table, of zero entries, under the first middle slot. -/
def firstLeafTable : Pgd := fun i =>
  if i = 0 then some fun j => if j = 0 then .table clearPage else .invalid else none

/-- A world over `firstLeafTable` in which an invalidation of the sample slot's first page is
running. -/
def invalidatingFirstPage : World :=
  ⟨⟨firstLeafTable, 0, 1, fun _ => false⟩, Host.sample, fun _ => ⟨0, [], none⟩,
    [(2 ^ 20, 2 ^ 20 + 2 ^ 14)]⟩

/-! ## A writable entry for a read-only slot -/

/-- **A read-only slot gets a writable entry.** In any world where an invalidation covers a page
of a read-only slot whose frame has a leaf table, the host's change of that page to a present
writable pte leaves a present writable entry for a frame that `gfn_to_hva_memslot_prot` reports
as not writable. -/
theorem setSpte_writable_in_readonly_slot {w : World} {s : Memslot} {hva g : Nat} {pte : Pte}
    (hro : s.readonly = true) (hpw : pte.present = true ∧ pte.write = true)
    (hua : s.userspaceAddr % c.pageSize = 0) (hhva : hva % c.pageSize = 0)
    (h1 : s.userspaceAddr ≤ hva) (h3 : hva + c.pageSize < s.userspaceAddr + s.npages * c.pageSize)
    (hwrap : s.userspaceAddr + s.npages * c.pageSize < 2 ^ 64)
    (hgfn : s.baseGfn + s.npages ≤ 2 ^ 64)
    (hg : g = s.baseGfn + (hva - s.userspaceAddr) / c.pageSize)
    (hleaf : ∃ pmd t, w.vm.pgd (c.pgdIdx g) = some pmd ∧ pmd (c.pmdIdx g) = .table t)
    (hinv : w.invalidatingPage c (hva / c.pageSize) = true) :
    ∃ w', step c [s] w (.setSpte hva pte) = some w' ∧
      (∃ e, w'.vm.pgd.entry c g = some e ∧ e.present = true ∧ e.write = true) ∧
      (gfnToHvaMemslotProt c (gfnToMemslot [s] g) g).map Prod.snd = some false := by
  obtain ⟨w', hs, he, -⟩ := setSpte_step_leaf hua hhva h1 h3 hwrap hgfn hg hleaf hinv
  have hlt : (hva - s.userspaceAddr) / c.pageSize < s.npages := by
    rw [Nat.div_lt_iff_lt_mul c.pageSize_pos]; omega
  refine ⟨w', hs, ⟨pte, he, hpw⟩, ?_⟩
  rw [gfnToMemslot_one (hg ▸ Nat.le_add_right _ _) (by omega)]
  simp [gfnToHvaMemslotProt, hro]

theorem setSpte_writable_in_readonly_slot_sample :
    ∃ w', step (Config.mips16k false) [{ Memslot.sample with readonly := true }]
        invalidatingFirstPage (.setSpte (2 ^ 20) ⟨5000, true, true, false, true, false, 0⟩) = some w' ∧
      (∃ e, w'.vm.pgd.entry (Config.mips16k false) 0 = some e ∧ e.present = true ∧ e.write = true) ∧
      (gfnToHvaMemslotProt (Config.mips16k false)
        (gfnToMemslot [{ Memslot.sample with readonly := true }] 0) 0).map Prod.snd = some false :=
  setSpte_writable_in_readonly_slot rfl ⟨rfl, rfl⟩ (by decide) (by decide) (by decide) (by decide)
    (by decide) (by decide) (by decide) ⟨_, _, rfl, rfl⟩ (by decide)

/-- The same from the empty table: a read fault on frame 0 of a read-only slot maps it read-only;
then the host's `change_pte` of its page to a writable pte, inside the invalidation that brackets
it, makes the entry writable. -/
theorem readonly_slot_writable_run :
    ((run (Config.mips16k false) [{ Memslot.sample with readonly := true }] (World.init Host.sample)
        (faultRun 0 false ++ [.invalidateStart (2 ^ 20) (2 ^ 20 + 2 ^ 14),
          .setSpte (2 ^ 20) ⟨5000, true, true, false, true, false, 0⟩])).map
      fun w => (w.vm.pgd.entry (Config.mips16k false) 0).map fun e => (e.present, e.write)) =
    some (some (true, true)) := by decide

/-! ## A dirty entry the dirty log does not hold -/

/-- **A dirty entry escapes the dirty log.** In any world where an invalidation covers a page of a
slot whose frame has a leaf table and a clear log bit, the host's change of that page to a
present dirty pte leaves a present dirty entry for a frame `mark_page_dirty` was never called
for. -/
theorem setSpte_dirty_unlogged {w : World} {s : Memslot} {hva g : Nat} {pte : Pte}
    (hpd : pte.present = true ∧ pte.dirty = true)
    (hua : s.userspaceAddr % c.pageSize = 0) (hhva : hva % c.pageSize = 0)
    (h1 : s.userspaceAddr ≤ hva) (h3 : hva + c.pageSize < s.userspaceAddr + s.npages * c.pageSize)
    (hwrap : s.userspaceAddr + s.npages * c.pageSize < 2 ^ 64)
    (hgfn : s.baseGfn + s.npages ≤ 2 ^ 64)
    (hg : g = s.baseGfn + (hva - s.userspaceAddr) / c.pageSize)
    (hleaf : ∃ pmd t, w.vm.pgd (c.pgdIdx g) = some pmd ∧ pmd (c.pmdIdx g) = .table t)
    (hinv : w.invalidatingPage c (hva / c.pageSize) = true) (hlog : w.vm.dirtyLog g = false) :
    ∃ w', step c [s] w (.setSpte hva pte) = some w' ∧
      (∃ e, w'.vm.pgd.entry c g = some e ∧ e.present = true ∧ e.dirty = true) ∧
      w'.vm.dirtyLog g = false := by
  obtain ⟨w', hs, he, hl⟩ := setSpte_step_leaf hua hhva h1 h3 hwrap hgfn hg hleaf hinv
  exact ⟨w', hs, ⟨pte, he, hpd⟩, hl ▸ hlog⟩

theorem setSpte_dirty_unlogged_sample :
    ∃ w', step (Config.mips16k false) [Memslot.sample] invalidatingFirstPage
        (.setSpte (2 ^ 20) ⟨5000, true, true, true, true, false, 0⟩) = some w' ∧
      (∃ e, w'.vm.pgd.entry (Config.mips16k false) 0 = some e ∧ e.present = true ∧
        e.dirty = true) ∧ w'.vm.dirtyLog 0 = false :=
  setSpte_dirty_unlogged ⟨rfl, rfl⟩ (by decide) (by decide) (by decide) (by decide) (by decide)
    (by decide) (by decide) ⟨_, _, rfl, rfl⟩ (by decide) rfl

/-- The same from the empty table: a read fault maps frame 0 clean without logging it; the host's
`change_pte` of its page to a dirty pte makes the entry dirty, and the log bit stays clear. -/
theorem dirty_unlogged_run :
    ((run (Config.mips16k false) [Memslot.sample] (World.init Host.sample)
        (faultRun 0 false ++ [.invalidateStart (2 ^ 20) (2 ^ 20 + 2 ^ 14),
          .setSpte (2 ^ 20) ⟨5000, true, true, true, true, false, 0⟩])).map
      fun w => ((w.vm.pgd.entry (Config.mips16k false) 0).map fun e => (e.present, e.dirty),
        w.vm.dirtyLog 0)) =
    some (some (true, true), false) := by decide

end LoongsonDune.Proof
