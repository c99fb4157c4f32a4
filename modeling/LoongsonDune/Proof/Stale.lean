import LoongsonDune.Proof.Commit

/-!
# Stale translations from a huge commit

`HostBacked` is the freshness invariant of the GPA table: every present entry maps each frame it
governs to the frame the host maps that frame's slot address to.

`kvm_mips_map_page` decides the page size from the VMA under `mmap_sem`, before it reads
`mmu_notifier_seq` at `retry:`. An invalidation that begins and ends between the decision and the
snapshot leaves no trace that `mmu_notifier_retry` sees. A PMD-size decision then makes the commit
map the whole block from the one frame it resolves, the head's, at consecutive frames: every other
page of the block is taken to be where the VMA put it when the decision was made, whatever the host
has done to it since.

The stale huge entry also leaves the table one fault away from a corrupt middle slot: a frame of
the block whose page has moved to a base-page VMA gets a base-page decision on a read-inhibit
fault, and the base-page commit stores through the huge slot the walk returns.
-/

namespace LoongsonDune.Proof

open LoongsonDune Function

variable (c : Config) (slots : List Memslot)

/-- No stale translation: every present entry maps each frame it governs that lies in a slot to the
present host frame behind the frame's slot address. -/
def HostBacked (w : World) : Prop :=
  ∀ g e s, w.vm.pgd.entry c g = some e → e.present = true → gfnToMemslot slots g = some s →
    let p := w.host.pte (u64 (s.userspaceAddr + (g - s.baseGfn) * c.pageSize) / c.pageSize)
    p.present = true ∧ p.pfn = e.frameOf c g

theorem pageSize_lt_pmdSize (h : 0 < c.pteBits) : c.pageSize < c.pmdSize :=
  Nat.pow_lt_pow_right (by norm_num) (by unfold Config.pmdShift; omega)

/-- **A huge commit maps the block from its head frame alone.** When vCPU `v` commits a PMD-size
decision with no invalidation since its snapshot, the host is left as it was and every frame of
the block is governed by a present entry giving it the resolved frame plus its offset in the
block: the host's translation of the block's other pages is never read. -/
theorem commit_huge_maps_block {w w' : World} {v fuel : Nat} {f : Fault} {d : Decision}
    {s pfn : Nat} {writeable : Bool} (hpte : 0 < c.pteBits)
    (hf : (w.vcpus v).fault = some f) (hpc : f.pc = .commit d s pfn writeable)
    (hd : d.vmaPagesize = c.pmdSize) (hret : mmuNotifierRetry w.vm s = false)
    (hstep : step c slots w (.commit v fuel) = some w') :
    w'.host = w.host ∧ ∀ g, c.pgdIdx g = c.pgdIdx (f.gpa / c.pageSize) →
      c.pmdIdx g = c.pmdIdx (f.gpa / c.pageSize) →
      ∃ e, w'.vm.pgd.entry c g = some e ∧ e.present = true ∧ e.frameOf c g = pfn + c.pteIdx g := by
  obtain ⟨hhost, -, hc⟩ := step_commit c slots hf hpc hstep
  have hinst : mapPageCommit c w.host w.vm (w.vcpus v).cache f.gpa f.writeFault d s pfn writeable
      fuel = mapPageInstall c w.vm (w.vcpus v).cache f.gpa f.writeFault d.gfn c.pmdSize pfn
        writeable fuel := by
    simp [mapPageCommit, hret, mapPageAdjust_eq c (.inl (hd ▸ (pageSize_lt_pmdSize c hpte).ne')), hd]
  refine ⟨hhost, fun g hi hj => ?_⟩
  rcases hc with ⟨hr, -⟩ | ⟨cache, inv, hr⟩
  · obtain ⟨_, _, _, h, -⟩ := mapPageInstall_huge c (hinst ▸ hr)
    cases h
  · obtain ⟨vm', _, _, h, pmd, hs, hm⟩ := mapPageInstall_huge c (hinst ▸ hr)
    cases h
    refine ⟨pmdMkhuge (pfnPmd pfn (mapPageProt c writeable f.writeFault)), ?_, by simp,
      by simp [Pte.frameOf]⟩
    rw [Pgd.entry, hi, hj, ← c.pgdIndex_eq, ← c.pmdOffset_eq, hs, Option.some_bind, hm]
    simp [Pmd.entryAt]

/-- A host that maps host virtual page `p` to frame `p`, all in a PMD-size hugetlbfs VMA. -/
def Host.hugetlb : Host :=
  ⟨fun p => ⟨p, true, true, false, true, false, 0⟩, fun _ => some (2 ^ 25), fun _ => false⟩

/-- A world in which vCPU 0 is about to commit a PMD-size read fault on frame 1 of `Memslot.block`
with the head frame `2048`, over the empty table. -/
def hugeCommitPending : World :=
  ⟨⟨kvmPgdInit, 0, 0, fun _ => false⟩, Host.hugetlb,
    fun v => if v = 0 then ⟨40, [], some ⟨2 ^ 14, false, 0,
      .commit ⟨Memslot.block, 2 ^ 25 + 2 ^ 14, false, 2 ^ 25, 0⟩ 0 2048 true⟩⟩
      else ⟨0, [], none⟩, []⟩

theorem commit_huge_maps_block_sample :
    ∃ w', step (Config.mips16k false) [Memslot.block] hugeCommitPending (.commit 0 1) = some w' ∧
      w'.host = hugeCommitPending.host ∧
      ∃ e, w'.vm.pgd.entry (Config.mips16k false) 1 = some e ∧ e.present = true ∧
        e.frameOf (Config.mips16k false) 1 = 2048 + (Config.mips16k false).pteIdx 1 := by
  obtain ⟨w', hs⟩ : ∃ w', step (Config.mips16k false) [Memslot.block] hugeCommitPending
      (.commit 0 1) = some w' := ⟨_, rfl⟩
  have h := commit_huge_maps_block (Config.mips16k false) [Memslot.block] (w := hugeCommitPending)
    (v := 0) (by decide) rfl rfl rfl rfl hs
  exact ⟨w', hs, h.1, h.2 1 (by decide) (by decide)⟩

/-- vCPU 0 takes a read fault on frame 1 of `Memslot.block` and decides on a huge mapping; before
it reads `mmu_notifier_seq`, an invalidation of the host page of frame 1 runs to its end and moves
that page to frame `5000` in a base-page VMA; then vCPU 0 resumes and commits. -/
def staleDecisionRun : List Action :=
  (faultRun 1 false).take 3 ++
    [.invalidateStart (2 ^ 25 + 2 ^ 14) (2 ^ 25 + 2 ^ 15),
      .hostChange (2 ^ 11 + 1) ⟨5000, true, true, false, true, false, 0⟩ (some (2 ^ 14)),
      .invalidateEnd (2 ^ 25 + 2 ^ 14) (2 ^ 25 + 2 ^ 15)] ++ (faultRun 1 false).drop 3

/-- A present entry that gives a frame of a slot another frame than the host's is stale. -/
theorem not_hostBacked_of_stale {w : World} {g : Nat} {e : Pte} {s : Memslot}
    (hs : gfnToMemslot slots g = some s) (he : w.vm.pgd.entry c g = some e) (hp : e.present = true)
    (hne : (w.host.pte (u64 (s.userspaceAddr + (g - s.baseGfn) * c.pageSize) / c.pageSize)).pfn ≠
      e.frameOf c g) : ¬HostBacked c slots w :=
  fun hb => hne (hb g e s he hp hs).2

/-- **A reachable world with a stale translation.** After `staleDecisionRun` frame 1 is mapped to
frame `2049` by the huge entry of its block, while the host maps its page to frame `5000`. -/
theorem stale_huge_reachable :
    ∃ w, Reachable (Config.mips16k false) [Memslot.block] Host.hugetlb w ∧
      ¬HostBacked (Config.mips16k false) [Memslot.block] w := by
  have h : ((run (Config.mips16k false) [Memslot.block] (World.init Host.hugetlb)
      staleDecisionRun).map fun w =>
        ((w.vm.pgd.entry (Config.mips16k false) 1).map fun e =>
          (e.present, e.frameOf (Config.mips16k false) 1), (w.host.pte (2 ^ 11 + 1)).pfn)) =
      some (some (true, 2049), 5000) := by decide
  obtain ⟨w, hw, hp⟩ := Option.map_eq_some'.mp h
  simp only [Prod.mk.injEq] at hp
  obtain ⟨e, he, hpe⟩ := Option.map_eq_some'.mp hp.1
  simp only [Prod.mk.injEq] at hpe
  have hidx : u64 (Memslot.block.userspaceAddr + (1 - Memslot.block.baseGfn) *
      (Config.mips16k false).pageSize) / (Config.mips16k false).pageSize = 2 ^ 11 + 1 := by decide
  exact ⟨w, run_reachableBy _ _ (fun _ _ => trivial) .init hw,
    not_hostBacked_of_stale _ _ (g := 1) (s := Memslot.block) rfl he hpe.1 (by rw [hidx, hp.2, hpe.2]; decide)⟩

/-- **A reachable world with a corrupt middle slot.** After `staleDecisionRun` the block is mapped
by a huge entry while frame 1's host page sits in a base-page VMA. A read-inhibit fault on frame 1
skips the fast path, decides on a base page and commits it through the walk, which stops at the
huge middle slot: `set_pte` leaves a leaf-format value there. -/
theorem base_over_huge_reachable :
    ∃ w, Reachable (Config.mips16k false) [Memslot.block] Host.hugetlb w ∧ ¬w.vm.pgd.Wf := by
  have h : ((run (Config.mips16k false) [Memslot.block] (World.init Host.hugetlb)
      (staleDecisionRun ++ inhibitFaultRun 1)).map fun w => middleCorrupt w.vm.pgd 0 0) =
      some true := by decide
  obtain ⟨w, hw, hc⟩ := Option.map_eq_some'.mp h
  exact ⟨w, run_reachableBy _ _ (fun _ _ => trivial) .init hw, not_wf_of_middleCorrupt hc⟩

end LoongsonDune.Proof
