import LoongsonDune.Mmu.System
import LoongsonDune.Proof.Range
import LoongsonDune.Proof.Slot

/-!
# Aging: `kvm_test_age_hva` and `kvm_age_hva`

Both go through `handle_hva_to_gpa`, and both get its range convention wrong in a different way.

* `kvm_test_age_hva(kvm, hva)` passes `start = end = hva`. The clipped range of every slot,
  `[max(hva, ua), min(hva, ua + size))`, is empty, so every slot is skipped and the answer is
  always "old", whatever the table holds.
* `handle_hva_to_gpa` hands its handler an exclusive `gfn_end`; `kvm_unmap_hva_handler` passes
  `gfn_end - 1` on, but `kvm_age_hva_handler` passes `gfn_end` to `kvm_mips_mkold_gpa_pt`, whose end
  is inclusive. The frame just past the range is aged too, and its being young makes `kvm_age_hva`
  report a young page the range does not hold.
-/

namespace LoongsonDune.Proof

open LoongsonDune

variable {c : Config}

/-- **`kvm_test_age_hva` always answers "old".** -/
theorem kvmTestAgeHva_eq_false (slots : List Memslot) (pgd : Pgd) (hva : Nat) :
    kvmTestAgeHva c slots pgd hva = some false := by
  simp [kvmTestAgeHva, handleHvaToGpa_empty c (Nat.le_refl hva)]

/-- After a read fault on frame 0, which lies in the sample slot at host address `2^20`, the
frame's entry is present and young, and `kvm_test_age_hva` on that address still answers 0. -/
theorem testAge_misses_young_page :
    ((run (Config.mips16k false) [Memslot.sample] (World.init Host.sample) (faultRun 0 false)).map
      fun w => ((gfnToMemslot [Memslot.sample] 0).isSome,
        (w.vm.pgd.entry (Config.mips16k false) 0).map fun e => (e.present, e.young),
        kvmTestAgeHva (Config.mips16k false) [Memslot.sample] w.vm.pgd (2 ^ 20))) =
    some (true, some (true, true), some false) := by decide

theorem pteMkold_ne {e : Pte} (h : e.young = true) : pteMkold e ≠ e := fun he => by
  have := congrArg Pte.young he
  simp [pteMkold, h] at this

/-- **`kvm_age_hva` ages the page past the end of its range.** Take one slot at a page-aligned
host address whose host range does not wrap, and a range `[start, end)` inside it with `end`
page-aligned. The frame `g` whose host page starts at `end`, outside the range, has its present
young leaf entry made old, and `kvm_age_hva` reports a young page. -/
theorem kvmAgeHva_ages_page_past_end {s : Memslot} {pgd : Pgd} {start «end» g : Nat}
    (hwf : pgd.Wf) (hua : s.userspaceAddr % c.pageSize = 0) (hend : «end» % c.pageSize = 0)
    (h1 : s.userspaceAddr ≤ start) (h2 : start < «end»)
    (h3 : «end» < s.userspaceAddr + s.npages * c.pageSize)
    (hwrap : s.userspaceAddr + s.npages * c.pageSize < 2 ^ 64)
    (hspan : s.baseGfn + s.npages ≤ c.spanFrames)
    (hg : g = s.baseGfn + («end» - s.userspaceAddr) / c.pageSize) {e : Pte}
    (hleaf : ∃ pmd pte, pgd (c.pgdIdx g) = some pmd ∧ pmd (c.pmdIdx g) = .table pte ∧
      pte (c.pteIdx g) = e)
    (hp : e.present = true) (hy : e.young = true) :
    gfnToHvaMemslotProt c (some s) g = some («end», !s.readonly) ∧
    ∃ pgd', kvmAgeHva c [s] pgd start «end» = some (pgd', true) ∧
      pgd'.entry c g = some (pteMkold e) := by
  obtain ⟨pmd, pte, hi, hj, rfl⟩ := hleaf
  have hP := c.pageSize_pos
  have hm : c.pageSize ∣ «end» - s.userspaceAddr :=
    Nat.dvd_sub' (Nat.dvd_of_mod_eq_zero hend) (Nat.dvd_of_mod_eq_zero hua)
  have hgs : g < s.baseGfn + s.npages := by
    have : («end» - s.userspaceAddr) / c.pageSize < s.npages := by
      rw [Nat.div_lt_iff_lt_mul hP]; omega
    omega
  have hgfn : s.baseGfn + (start - s.userspaceAddr) / c.pageSize ≤ g :=
    hg ▸ Nat.add_le_add_left (Nat.div_le_div_right (by omega)) _
  refine ⟨?_, ?_⟩
  · simp only [gfnToHvaMemslotProt, Option.map_some', Option.some.injEq, Prod.mk.injEq, and_true]
    rw [hg, Nat.add_sub_cancel_left, Nat.div_mul_cancel hm, u64_of_lt (by omega)]
    omega
  · obtain ⟨⟨pgd', r⟩, hr⟩ := Option.isSome_iff_exists.mp
      (@rangeOpPgd_isSome c pteMkold pmdMkold pgd hwf
        (c.gpaOf (s.baseGfn + (start - s.userspaceAddr) / c.pageSize)) (c.gpaOf g))
    obtain ⟨he, hflag⟩ := rangeOp_leaf hr (by omega) hgfn (Nat.le_refl g) hi hj
    refine ⟨pgd', ?_, by rw [he, if_pos hp]⟩
    rw [kvmAgeHva, handleHvaToGpa_one c hua hend h1 h2 h3 hwrap
      (Nat.le_trans hspan (spanFrames_lt c).le), ← hg]
    simp only [kvmAgeHvaHandler, kvmMipsMkoldGpaPt, kvmMipsMkoldPgd, hr, hflag hp (pteMkold_ne hy),
      Option.some_bind, Bool.false_or]

/-- A table whose one mapping is a present young leaf entry for frame 1. -/
def youngFrameOne : Pgd := fun i =>
  if i = 0 then some fun j =>
    if j = 0 then .table fun k => if k = 1 then ⟨1065, true, true, false, true, false, 0⟩ else Pte.zero
    else .invalid
  else none

/-- Aging the host page of frame 0 of the sample slot ages frame 1, whose host page is the next
one, and reports it young. -/
theorem kvmAgeHva_ages_page_past_end_sample :
    gfnToHvaMemslotProt (Config.mips16k false) (some Memslot.sample) 1 =
      some (2 ^ 20 + 2 ^ 14, true) ∧
    ∃ pgd', kvmAgeHva (Config.mips16k false) [Memslot.sample] youngFrameOne (2 ^ 20)
        (2 ^ 20 + 2 ^ 14) = some (pgd', true) ∧
      pgd'.entry (Config.mips16k false) 1 = some (pteMkold ⟨1065, true, true, false, true, false, 0⟩) :=
  kvmAgeHva_ages_page_past_end
    (fun i pmd hi j e hj => by
      unfold youngFrameOne at hi
      split at hi <;> cases hi
      dsimp only at hj
      split at hj <;> cases hj)
    (by decide) (by decide) (by decide) (by decide) (by decide) (by decide) (by decide) (by decide)
    ⟨_, _, rfl, rfl, rfl⟩ rfl rfl

end LoongsonDune.Proof
