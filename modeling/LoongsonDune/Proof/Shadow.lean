import LoongsonDune.Proof.Commit
import LoongsonDune.Proof.Notifier

/-!
# Derived mappings

The hardware copies present GPA entries into per-vCPU derived mappings (shadow and TLB entries).
The code drops them with `kvm_vz_host_tlb_inv` on the faulting vCPU once a fault is handled, and
with `kvm_flush_remote_tlbs` on every vCPU when a notifier or an external caller of the clean and
age operations reports a change. `DerivedBacked` says that every derived mapping is still backed
by a present entry with the same frame and at least its rights.

The commit of `kvm_mips_map_page` returns while a derived mapping outlives what backs it. It
overwrites the leaf entry with `pfn_pte(pfn, prot)` whatever the entry held, and drops no derived
mapping on another vCPU. When two vCPUs fault on one frame, a write fault's commit makes the entry
dirty, the other vCPU's hardware derives a dirty mapping from it, and then a read fault's commit
that decided earlier stores a clean entry over it: the dirty mapping stays. Nothing here depends
on `cpu_has_guestid`.
-/

namespace LoongsonDune.Proof

open LoongsonDune Function

variable (c : Config) (slots : List Memslot)

/-- Every derived mapping is backed: the entry governing its frame is present, gives the same host
frame, and has at least its write and dirty rights. -/
def DerivedBacked (w : World) : Prop :=
  ∀ v x, x ∈ (w.vcpus v).tlb → ∃ e, w.vm.pgd.entry c x.gfn = some e ∧ e.present = true ∧
    e.frameOf c x.gfn = x.pfn ∧ (x.write = true → e.write = true) ∧ (x.dirty = true → e.dirty = true)

/-- A dirty derived mapping whose frame's entry is clean is not backed. -/
theorem not_derivedBacked_of_clean {w : World} {v : Nat} {x : Derived}
    (hx : x ∈ (w.vcpus v).tlb) (hd : x.dirty = true)
    (hc : (w.vm.pgd.entry c x.gfn).map Pte.dirty = some false) : ¬DerivedBacked c w := by
  intro hb
  obtain ⟨e, he, -, -, -, hde⟩ := hb v x hx
  rw [he, Option.map_some', Option.some.injEq, hde hd] at hc
  cases hc

/-! ## A commit over another vCPU's dirty mapping -/

/-- **A read fault's commit revokes a dirty right another vCPU still holds.** Take any world in
which vCPU `v` is about to commit a base-page read fault on a frame under a leaf table, with no
invalidation since its snapshot and a resolved frame that is not part of a transparent huge page,
while vCPU `u` holds a dirty derived mapping of that frame. The commit returns, and vCPU `u`'s
mapping is no longer backed: the new entry is clean. -/
theorem commit_keeps_dirty_derived {w : World} {v u fuel : Nat} {f : Fault} {d : Decision}
    {s pfn : Nat} {writeable : Bool} {pmd : PmdTable} {pte : PteTable} {x : Derived}
    (hf : (w.vcpus v).fault = some f) (hpc : f.pc = .commit d s pfn writeable)
    (hread : f.writeFault = false) (hret : mmuNotifierRetry w.vm s = false)
    (hsize : d.vmaPagesize ≠ c.pmdSize) (hthp : w.host.thp pfn = false)
    (hi : w.vm.pgd (c.pgdIndex f.gpa) = some pmd) (hj : pmd (c.pmdOffset f.gpa) = .table pte)
    (huv : u ≠ v) (hx : x ∈ (w.vcpus u).tlb) (hg : x.gfn = f.gpa / c.pageSize)
    (hd : x.dirty = true) :
    ∃ w', step c slots w (.commit v fuel) = some w' ∧ ¬DerivedBacked c w' := by
  obtain ⟨vm', hin, he⟩ := @mapPageInstall_leaf c w.vm (w.vcpus v).cache f.gpa d.gfn
    d.vmaPagesize pfn fuel f.writeFault writeable pmd pte hsize hi hj
  have hc : mapPageCommit c w.host w.vm (w.vcpus v).cache f.gpa f.writeFault d s pfn writeable
      fuel = some (.done vm' (w.vcpus v).cache none) := by
    simp [mapPageCommit, hret, mapPageAdjust_eq c (.inr hthp), hin]
  obtain ⟨w', hs, hvm, hother⟩ := step_commit_done c slots hf hpc hc
  refine ⟨w', hs, not_derivedBacked_of_clean c (hother u huv ▸ hx) hd ?_⟩
  rw [hvm, hg, he]
  simp [hread]

/-- vCPU 0 is about to commit a read fault on frame 0 of the sample slot, whose leaf table is in
place; vCPU 1 holds a dirty derived mapping of frame 0. -/
def commitOverDirty : World :=
  ⟨⟨firstLeafTable, 0, 0, fun _ => false⟩, Host.sample,
    fun v => if v = 0 then ⟨40, [], some ⟨0, false, 0, .commit ⟨Memslot.sample, 2 ^ 20, false, 2 ^ 14, 0⟩
      0 1064 true⟩⟩ else ⟨0, [⟨0, 1064, true, true⟩], none⟩, []⟩

theorem commit_keeps_dirty_derived_sample :
    ∃ w', step (Config.mips16k false) [Memslot.sample] commitOverDirty (.commit 0 1) = some w' ∧
      ¬DerivedBacked (Config.mips16k false) w' :=
  commit_keeps_dirty_derived (Config.mips16k false) [Memslot.sample] (v := 0) (u := 1)
    (x := ⟨0, 1064, true, true⟩) rfl rfl rfl rfl (by decide) rfl rfl rfl (by decide)
    (List.mem_singleton_self _) rfl rfl

/-- vCPU 0 takes a read fault on frame 0 and leaves the fast path; vCPU 1 takes a write fault on
frame 0, commits a dirty entry, and the hardware derives vCPU 1's mapping from it; then vCPU 0
resumes from its lookup and commits. -/
def racingFaults : List Action :=
  [.fault 0 0 false 0, .fast 0, .fault 1 0 true 0, .fast 1, .lookup 1, .topup 1 40, .snapshot 1,
    .resolve 1 true, .commit 1 1, .finish 1, .refill 1 0] ++ (faultRun 0 false).drop 2

/-- After `racingFaults` vCPU 1 holds a dirty mapping of frame 0 whose entry is clean, whatever
`cpu_has_guestid` is. -/
theorem racingFaults_unbacked (guestid : Bool) :
    ∃ w, Reachable (Config.mips16k guestid) [Memslot.sample] Host.sample w ∧
      ¬DerivedBacked (Config.mips16k guestid) w := by
  have h : ((run (Config.mips16k guestid) [Memslot.sample] (World.init Host.sample)
      racingFaults).map fun w =>
        ((w.vcpus 1).tlb, (w.vm.pgd.entry (Config.mips16k guestid) 0).map Pte.dirty)) =
      some ([⟨0, 1064, true, true⟩], some false) := by
    cases guestid <;> decide
  obtain ⟨w, hw, hp⟩ := Option.map_eq_some'.mp h
  simp only [Prod.mk.injEq] at hp
  exact ⟨w, run_reachableBy _ _ (fun _ _ => trivial) .init hw,
    not_derivedBacked_of_clean _ (v := 1) (hp.1 ▸ List.mem_singleton_self _) rfl hp.2⟩

/-- **A reachable world with an unbacked derived mapping, with and without GuestIDs.** -/
theorem dirty_derived_outlives_commit :
    (∃ w, Reachable (Config.mips16k false) [Memslot.sample] Host.sample w ∧
      ¬DerivedBacked (Config.mips16k false) w) ∧
    (∃ w, Reachable (Config.mips16k true) [Memslot.sample] Host.sample w ∧
      ¬DerivedBacked (Config.mips16k true) w) :=
  ⟨racingFaults_unbacked false, racingFaults_unbacked true⟩

end LoongsonDune.Proof
