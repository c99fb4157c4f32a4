import LoongsonDune.Proof.Pool
import LoongsonDune.Proof.Fast

/-!
# The notifier protocol

`kvm_mips_map_page` resolves the host frame without `mmu_lock`, so a host invalidation can run
between the resolution and the commit. Two counters guard the commit: an invalidation raises
`mmu_notifier_count` when it begins, and when it ends raises `mmu_notifier_seq` and lowers the
count; the fault reads `mmu_notifier_seq` at `retry:` before it resolves the frame, and
`mmu_notifier_retry` at the commit sends it back to `retry:` unless the count is zero and the
sequence number is the one it read. The host changes a page only while an invalidation of it is in
progress.

`NotifierInv` holds in every reachable world, whatever the interleaving: the count is the number of
invalidations in progress, every snapshot is at most the current sequence number, and a vCPU at its
commit whose snapshot passes `mmu_notifier_retry` still holds what `gfn_to_pfn_prot` returns now. A
host change since the resolution needs an invalidation in progress at that time, which is either
still running (the count is not zero) or has ended since (the sequence number moved past the
snapshot).
-/

namespace LoongsonDune.Proof

open LoongsonDune Function

variable (c : Config) (slots : List Memslot)

/-- What the position of a fault thread with write intent `writeFault` says about a world with VM
`vm` and host `host`: a snapshot is at most the current sequence number, and at the commit, when
`mmu_notifier_retry` passes, the frame and writability the thread resolved are what
`gfn_to_pfn_prot` returns now. -/
def SnapOk (vm : Vm) (host : Host) (writeFault : Bool) : Pc → Prop
  | .resolve _ s => s ≤ vm.mmuNotifierSeq
  | .commit d s pfn writeable => s ≤ vm.mmuNotifierSeq ∧
      (mmuNotifierRetry vm s = false →
        gfnToPfnProt c slots host d.gfn writeFault = some (pfn, writeable))
  | _ => True

/-- The notifier invariant. -/
structure NotifierInv (w : World) : Prop where
  /-- `mmu_notifier_count` is the number of invalidations in progress. -/
  count : w.vm.mmuNotifierCount = w.invalidating.length
  /-- Every fault thread's snapshot is in order. -/
  snap : ∀ v f, (w.vcpus v).fault = some f → SnapOk c slots w.vm w.host f.writeFault f.pc

/-! ## `mmu_notifier_retry` -/

section Retry
variable {vm : Vm} {s : Nat}

theorem retry_of_count (h : vm.mmuNotifierCount ≠ 0) (s : Nat) : mmuNotifierRetry vm s = true := by
  simp [mmuNotifierRetry, h]

theorem retry_of_lt (h : s < vm.mmuNotifierSeq) : mmuNotifierRetry vm s = true := by
  simp [mmuNotifierRetry, Nat.ne_of_gt h]

/-- A snapshot that passes `mmu_notifier_retry` is the current sequence number, with no
invalidation running. -/
theorem eq_of_retry_false (h : mmuNotifierRetry vm s = false) :
    vm.mmuNotifierCount = 0 ∧ vm.mmuNotifierSeq = s := by
  simpa [mmuNotifierRetry] using h

end Retry

/-! ## What keeps a snapshot in order -/

section Snap
variable {c slots} {vm vm' : Vm} {host host' : Host} {wf : Bool} {pc : Pc}

/-- A VM with the same counters, over the same host, keeps every snapshot in order. -/
theorem snapOk_congr (hs : vm'.mmuNotifierSeq = vm.mmuNotifierSeq)
    (hc : vm'.mmuNotifierCount = vm.mmuNotifierCount) (h : SnapOk c slots vm host wf pc) :
    SnapOk c slots vm' host wf pc := by
  have hr : ∀ s, mmuNotifierRetry vm' s = mmuNotifierRetry vm s := fun s => by
    simp only [mmuNotifierRetry, hs, hc]
  cases pc <;> simp only [SnapOk, hs, hr] at h ⊢ <;> exact h

/-- **Any host, once the commit must retry.** When every snapshot taken so far fails
`mmu_notifier_retry` in the new VM, every snapshot stays in order, whatever the host does. -/
theorem snapOk_of_retry (h : SnapOk c slots vm host wf pc)
    (hle : vm.mmuNotifierSeq ≤ vm'.mmuNotifierSeq)
    (hr : ∀ s, s ≤ vm.mmuNotifierSeq → mmuNotifierRetry vm' s = true) :
    SnapOk c slots vm' host' wf pc := by
  cases pc with
  | resolve d s => exact Nat.le_trans h hle
  | commit d s pfn writeable =>
    exact ⟨Nat.le_trans h.1 hle, fun h' => absurd h' (by rw [hr s h.1]; decide)⟩
  | _ => trivial

end Snap

/-! ## The VM counters across the fault's pieces -/

section Counters
variable {c} {vm vm' : Vm} {gpa : Nat} {wf : Bool}

/-- The fast path keeps the notifier counters and only adds frames to the dirty log. -/
theorem mapPageFast_vm {r : Int} (h : kvmMipsMapPageFast c vm gpa wf = some (r, vm')) :
    vm'.mmuNotifierSeq = vm.mmuNotifierSeq ∧ vm'.mmuNotifierCount = vm.mmuNotifierCount ∧
      ∀ g, vm.dirtyLog g = true → vm'.dirtyLog g = true := by
  unfold kvmMipsMapPageFast at h
  obtain ⟨w, -, h⟩ := Option.bind_eq_some.mp h
  rcases hq : w.ptep with _ | p <;> simp only [hq] at h
  · cases h; exact ⟨rfl, rfl, fun _ h => h⟩
  obtain ⟨e, -, h⟩ := Option.bind_eq_some.mp h
  by_cases hpres : e.present = true
  swap
  · rw [if_pos (by simpa using hpres)] at h
    cases h; exact ⟨rfl, rfl, fun _ h => h⟩
  rw [if_neg (by simp [hpres])] at h
  obtain ⟨pgd1, -, h⟩ := Option.bind_eq_some.mp h
  obtain ⟨e1, -, h⟩ := Option.bind_eq_some.mp h
  split at h
  · split at h
    · cases h; exact ⟨rfl, rfl, fun _ h => h⟩
    · obtain ⟨pgd2, -, h⟩ := Option.bind_eq_some.mp h
      obtain ⟨_, -, h⟩ := Option.map_eq_some'.mp h
      cases h
      exact ⟨rfl, rfl, fun g hg => by split <;> simp [markBlockDirty_apply, hg]⟩
  · cases h; exact ⟨rfl, rfl, fun _ h => h⟩

/-- The commit keeps the notifier counters and only adds frames to the dirty log. -/
theorem mapPageCommit_vm {host : Host} {cache cache' : Nat} {d : Decision}
    {s pfn fuel : Nat} {writeable : Bool} {inv : Option Nat}
    (h : mapPageCommit c host vm cache gpa wf d s pfn writeable fuel = some (.done vm' cache' inv)) :
    vm'.mmuNotifierSeq = vm.mmuNotifierSeq ∧ vm'.mmuNotifierCount = vm.mmuNotifierCount ∧
      ∀ g, vm.dirtyLog g = true → vm'.dirtyLog g = true := by
  unfold mapPageCommit at h
  split at h
  · cases h
  generalize mapPageAdjust c host d pfn gpa = r at h
  obtain ⟨size, pfn', gpa'⟩ := r
  unfold mapPageInstall at h
  dsimp only at h
  split at h
  · obtain ⟨r, -, h⟩ := Option.map_eq_some'.mp h
    cases h
    exact ⟨rfl, rfl, fun g hg => by split <;> simp [markBlockDirty_apply, hg]⟩
  · obtain ⟨w, -, h⟩ := Option.bind_eq_some.mp h
    split at h
    · obtain ⟨pgd, -, h⟩ := Option.map_eq_some'.mp h
      cases h
      exact ⟨rfl, rfl, fun g hg => by split <;> simp [hg]⟩
    · cases h

end Counters

/-! ## One step -/

namespace NotifierInv
variable {c slots} {w w' : World}

theorem of_eq (hw : NotifierInv c slots w) (hseq : w'.vm.mmuNotifierSeq = w.vm.mmuNotifierSeq)
    (hcnt : w'.vm.mmuNotifierCount = w.vm.mmuNotifierCount) (hhost : w'.host = w.host)
    (hinv : w'.invalidating = w.invalidating) (hf : ∀ v, (w'.vcpus v).fault = (w.vcpus v).fault) :
    NotifierInv c slots w' :=
  ⟨by rw [hcnt, hinv]; exact hw.count, fun v f h => by
    rw [hhost]; exact snapOk_congr hseq hcnt (hw.snap v f (hf v ▸ h))⟩

theorem setVcpu (hw : NotifierInv c slots w) {v : Nat} {x : Vcpu}
    (hx : ∀ f, x.fault = some f → SnapOk c slots w.vm w.host f.writeFault f.pc) :
    NotifierInv c slots (w.setVcpu v x) := by
  refine ⟨hw.count, fun u f hf => ?_⟩
  rw [World.setVcpu_vcpus, update_apply] at hf
  split at hf
  · exact hx f hf
  · exact hw.snap u f hf

theorem setPc (hw : NotifierInv c slots w) {v : Nat} {f : Fault} {pc : Pc}
    (hp : SnapOk c slots w.vm w.host f.writeFault pc) : NotifierInv c slots (w.setPc v f pc) :=
  hw.setVcpu fun _ h => by cases h; exact hp

theorem kvmVzFlushShadowAll (hw : NotifierInv c slots w) :
    NotifierInv c slots (w.kvmVzFlushShadowAll c) := by
  unfold World.kvmVzFlushShadowAll
  split
  · exact hw.of_eq rfl rfl rfl rfl fun _ => rfl
  · exact hw

/-- A host page can change only while an invalidation runs, and then the count is not zero. -/
theorem count_ne_zero (hw : NotifierInv c slots w) {page : Nat}
    (h : w.invalidatingPage c page = true) : w.vm.mmuNotifierCount ≠ 0 := by
  rw [hw.count]
  intro h0
  rw [List.length_eq_zero] at h0
  simp [World.invalidatingPage, h0] at h

/-- A step that changes the host while an invalidation runs keeps every snapshot in order. -/
theorem of_busy (hw : NotifierInv c slots w) (hne : w.vm.mmuNotifierCount ≠ 0)
    (hseq : w'.vm.mmuNotifierSeq = w.vm.mmuNotifierSeq)
    (hcnt : w'.vm.mmuNotifierCount = w.vm.mmuNotifierCount)
    (hinv : w'.invalidating = w.invalidating) (hf : ∀ v, (w'.vcpus v).fault = (w.vcpus v).fault) :
    NotifierInv c slots w' :=
  ⟨by rw [hcnt, hinv]; exact hw.count, fun v f h =>
    snapOk_of_retry (hw.snap v f (hf v ▸ h)) hseq.ge fun s _ => retry_of_count (hcnt ▸ hne) s⟩

end NotifierInv

variable {c slots}

/-- **Each step of a fault thread keeps the notifier invariant**: the snapshot is the sequence
number read at `retry:`, and the resolution hands the commit what `gfn_to_pfn_prot` returned. -/
theorem faultStep_notifierInv {w w' : World} {v : Nat} {f : Fault} {a : Action}
    (hw : NotifierInv c slots w) (hf : (w.vcpus v).fault = some f)
    (h : faultStep c slots w v f a = some w') : NotifierInv c slots w' := by
  cases a with
  | fast =>
    simp only [faultStep] at h
    split at h
    · split at h
      · cases h; exact hw.setPc trivial
      split at h
      · obtain ⟨r, hr, rfl⟩ := Option.map_eq_some'.mp h
        obtain ⟨hs, hc, -⟩ := mapPageFast_vm hr
        refine NotifierInv.setPc ?_ ?_
        · exact hw.of_eq hs hc rfl rfl fun _ => rfl
        · split <;> trivial
      · cases h; exact hw.setPc trivial
    · cases h
  | lookup =>
    simp only [faultStep] at h
    split at h
    · cases h
      refine hw.setPc ?_
      split <;> trivial
    · cases h
  | topup =>
    simp only [faultStep] at h
    split at h
    · cases h
      refine NotifierInv.setPc (NotifierInv.setVcpu hw fun f' h => ?_) ?_
      · exact hw.snap v f' h
      · split <;> trivial
    · cases h
  | snapshot =>
    simp only [faultStep] at h
    split at h
    · cases h; exact hw.setPc (Nat.le_refl _)
    · cases h
  | resolve =>
    simp only [faultStep] at h
    split at h
    · rename_i d s hpc
      have hs := hw.snap v f hf
      rw [hpc] at hs
      cases h
      refine hw.setPc ?_
      split
      · rename_i heq; exact ⟨hs, fun _ => heq⟩
      · trivial
    · cases h
  | commit =>
    simp only [faultStep] at h
    split at h
    · obtain ⟨r, hr, rfl⟩ := Option.map_eq_some'.mp h
      cases r with
      | retry => exact hw.setPc trivial
      | done vm cache inv =>
        dsimp only
        obtain ⟨hs, hc, -⟩ := mapPageCommit_vm hr
        have hw0 : NotifierInv c slots { w with vm := vm } := hw.of_eq hs hc rfl rfl fun _ => rfl
        refine NotifierInv.setPc (NotifierInv.setVcpu hw0 fun f' h => ?_) trivial
        exact hw0.snap v f' h
    · cases h
  | finish =>
    simp only [faultStep] at h
    split at h
    · cases h; exact hw.setVcpu fun _ h => by cases h
    · cases h
  | _ => simp only [faultStep] at h; cases h

/-- **Every step keeps the notifier invariant.** An invalidation raises the count as it begins and
raises the sequence number as it ends; the host and `kvm_set_spte_hva` change pages only while one
runs. -/
theorem step_notifierInv {w w' : World} {a : Action} (hw : NotifierInv c slots w)
    (h : step c slots w a = some w') : NotifierInv c slots w' := by
  cases a with
  | fault v =>
    simp only [step] at h
    split at h
    · cases h; exact hw.setVcpu fun _ h => by cases h; trivial
    · cases h
  | refill v =>
    simp only [step] at h
    split at h
    · split at h
      · cases h; exact hw.setVcpu fun f h => hw.snap v f h
      · cases h
    · cases h
  | invalidateStart =>
    obtain ⟨pgd, -, rfl⟩ := Option.map_eq_some'.mp h
    refine NotifierInv.kvmVzFlushShadowAll ⟨by simp [hw.count], fun v f hf => ?_⟩
    exact snapOk_of_retry (hw.snap v f hf) (Nat.le_refl _) fun s _ =>
      retry_of_count (Nat.succ_ne_zero _) s
  | hostChange =>
    simp only [step] at h
    split at h
    · rename_i hp
      cases h
      exact hw.of_busy (hw.count_ne_zero hp) rfl rfl rfl fun _ => rfl
    · cases h
  | invalidateEnd start «end» =>
    simp only [step] at h
    split at h
    · rename_i hm
      cases h
      refine ⟨by simp [hw.count, List.length_erase_of_mem hm], fun v f hf => ?_⟩
      exact snapOk_of_retry (hw.snap v f hf) (Nat.le_succ _) fun s hs =>
        retry_of_lt (Nat.lt_succ_of_le hs)
    · cases h
  | setSpte =>
    simp only [step] at h
    split at h
    · rename_i hp
      obtain ⟨r, -, rfl⟩ := Option.map_eq_some'.mp h
      have hne := hw.count_ne_zero hp
      split
      · exact NotifierInv.kvmVzFlushShadowAll (hw.of_busy hne rfl rfl rfl fun _ => rfl)
      · exact hw.of_busy hne rfl rfl rfl fun _ => rfl
    · cases h
  | age | harvest =>
    obtain ⟨r, -, rfl⟩ := Option.map_eq_some'.mp h
    split <;> exact hw.of_eq rfl rfl rfl rfl fun _ => rfl
  | testAge => obtain ⟨_, -, rfl⟩ := Option.map_eq_some'.mp h; exact hw
  | flushGpa =>
    obtain ⟨_, -, rfl⟩ := Option.map_eq_some'.mp h
    exact hw.of_eq rfl rfl rfl rfl fun _ => rfl
  | _ =>
    simp only [step, Action.thread] at h
    obtain ⟨f, hf, h⟩ := Option.bind_eq_some.mp h
    exact faultStep_notifierInv hw hf h

theorem notifierInv_reachableBy {ok : Action → Prop} {host : Host} {w : World}
    (hw : ReachableBy c slots ok host w) : NotifierInv c slots w := by
  induction hw with
  | init => exact ⟨rfl, fun _ _ h => by cases h⟩
  | step _ _ _ hs ih => exact step_notifierInv ih hs

variable (c slots)

/-- **The notifier protocol never lets a stale frame through.** In every reachable world, under any
interleaving of vCPUs, host invalidations and external callers, `mmu_notifier_count` is the number
of invalidations in progress, and a vCPU at its commit whose snapshot passes `mmu_notifier_retry`
holds exactly the frame and writability `gfn_to_pfn_prot` returns for its frame now: any host
change since the frame was resolved makes the commit retry. -/
theorem commit_resolves_current_frame {host : Host} {w : World} (hw : Reachable c slots host w) :
    w.vm.mmuNotifierCount = w.invalidating.length ∧
    ∀ v f d s pfn writeable, (w.vcpus v).fault = some f → f.pc = .commit d s pfn writeable →
      mmuNotifierRetry w.vm s = false →
      gfnToPfnProt c slots w.host d.gfn f.writeFault = some (pfn, writeable) := by
  have hi := notifierInv_reachableBy hw
  refine ⟨hi.count, fun v f d s pfn writeable hf hpc hret => ?_⟩
  have hs := hi.snap v f hf
  rw [hpc] at hs
  exact hs.2 hret

/-- vCPU 0 of the sample, stopped at its commit of guest frame 0, holds the frame the host maps
there. -/
theorem commit_resolves_current_frame_sample :
    ∃ w, run (Config.mips16k false) [Memslot.sample] (World.init Host.sample)
        ((faultRun 0 false).take 6) = some w ∧
      (w.vcpus 0).fault.map Fault.pc = some (.commit ⟨Memslot.sample, 2 ^ 20, false, 2 ^ 14, 0⟩ 0 1064 true) ∧
      w.vm.mmuNotifierCount = w.invalidating.length ∧
      ∀ v f d s pfn writeable, (w.vcpus v).fault = some f → f.pc = .commit d s pfn writeable →
        mmuNotifierRetry w.vm s = false →
        gfnToPfnProt (Config.mips16k false) [Memslot.sample] w.host d.gfn f.writeFault =
          some (pfn, writeable) := by
  obtain ⟨w, hr⟩ : ∃ w, run (Config.mips16k false) [Memslot.sample] (World.init Host.sample)
      ((faultRun 0 false).take 6) = some w := ⟨_, rfl⟩
  refine ⟨w, hr, ?_, commit_resolves_current_frame _ _ (run_reachableBy _ _ (fun _ _ => trivial) .init hr)⟩
  obtain rfl := Option.some_inj.mp hr
  rfl

end LoongsonDune.Proof
