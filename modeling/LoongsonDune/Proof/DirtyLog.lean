import LoongsonDune.Proof.Synced
import LoongsonDune.Proof.Fast

/-!
# The dirty log covers every dirty page

Dirty-page tracking hands userspace the frames written since the last harvest. A harvest of
`[a, b]` reads and clears their log bits, and `kvm_mips_mkclean_gpa_pt` cleans their entries, so
the next write to one of them faults and logs the frame again. This works only while the log covers
the table: every present dirty entry's frame has its bit set (`DirtyLogged`). The fast path sets a
dirty bit and logs the frame in one step under `mmu_lock`. The commit logs the frame it maps dirty.
A harvest clears only the bits of frames whose entries it cleans. The unmap, flush and age sweeps
never set a dirty bit: they shrink the table in the view `Pte.flagAt Pte.dirty`.

The argument holds on base-page runs (`Synced`) whose faults and harvests stay inside the table's
span, without `kvm_set_spte_hva`, which stores a dirty host pte without logging it. The fast path
stores through the pointer of the faulting address's indices but logs the faulting frame, so a fault
beyond the span dirties the entry of the frame inside it that shares those indices.
-/

namespace LoongsonDune.Proof

open LoongsonDune Function

variable (c : Config)

/-- **The dirty log covers the table**: every frame inside the span whose entry is present and
dirty has its log bit set. -/
def DirtyLogged (vm : Vm) : Prop :=
  ∀ g e, g < c.spanFrames → vm.pgd.entry c g = some e → e.present = true → e.dirty = true →
    vm.dirtyLog g = true

/-- The actions of a logged run: those of a base-page run, with faults inside the span and
harvests of ranges `a ≤ b` inside it. -/
def logAction : Action → Bool
  | .fault _ gpa _ _ => decide (gpa / c.pageSize < c.spanFrames)
  | .harvest a b => decide (a ≤ b ∧ b < c.spanFrames)
  | a => baseAction c a

/-- The dirty-log invariant of logged runs. -/
structure LogInv (w : World) : Prop where
  /-- The log covers the table. -/
  logged : DirtyLogged c w.vm
  /-- Every fault in flight is inside the span. -/
  gpas : ∀ v f, (w.vcpus v).fault = some f → f.gpa / c.pageSize < c.spanFrames

/-! ## What keeps the log covering the table -/

section Table
variable {c}

theorem pteMkold_shrinks_dirty : OpShrinks (Pte.flagAt Pte.dirty) pteMkold :=
  opShrinks_flagAt (fun _ => rfl) (fun _ => rfl) fun _ h => h
theorem pmdMkold_shrinks_dirty : OpShrinks (Pte.flagAt Pte.dirty) pmdMkold :=
  opShrinks_flagAt (fun _ => rfl) (fun _ => rfl) fun _ h => h
theorem pteMkclean_shrinks_dirty : OpShrinks (Pte.flagAt Pte.dirty) pteMkclean :=
  opShrinks_flagAt (fun _ => rfl) (fun _ => rfl) fun _ h => absurd h Bool.false_ne_true
theorem pmdMkclean_shrinks_dirty : OpShrinks (Pte.flagAt Pte.dirty) pmdMkclean :=
  opShrinks_flagAt (fun _ => rfl) (fun _ => rfl) fun _ h => absurd h Bool.false_ne_true

/-- A table that shrinks in the dirty view, under a log that only grows, stays covered. -/
theorem DirtyLogged.of_shrinks {vm vm' : Vm} (h : DirtyLogged c vm)
    (hsh : Shrinks (Pte.flagAt Pte.dirty) vm.pgd vm'.pgd)
    (hlog : ∀ g, vm.dirtyLog g = true → vm'.dirtyLog g = true) : DirtyLogged c vm' := by
  intro g e hg he hp hd
  obtain ⟨e0, he0, hp0, hd0⟩ := hsh.flagEntry c he hp hd
  exact hlog g (h g e0 hg he0 hp0 hd0)

variable (c) in
/-- Over a table with no entry value, the entry of a frame is its leaf entry. -/
theorem leafEntry_of_entry {pgd : Pgd} (hnv : ∀ i j, (pgd.slot i j).isVal = false) {g : Nat}
    {e : Pte} (he : pgd.entry c g = some e) : leafEntry c pgd g = some e := by
  obtain ⟨pmd, hi, hj⟩ := Option.bind_eq_some.mp he
  have hv := hnv (c.pgdIdx g) (c.pmdIdx g)
  rw [Pgd.slot, hi, Option.getD_some] at hv
  rw [leafEntry, hi, Option.some_bind]
  cases hp : pmd (c.pmdIdx g) with
  | invalid => rw [hp] at hj; cases hj
  | table pte => rw [hp] at hj; exact hj
  | val x => rw [hp] at hv; cases hv

/-- **A harvest inside the span keeps the log covering the table**: it clears the bits of
`[a, b]`, and `kvm_mips_mkclean_gpa_pt` cleans every entry of those frames. -/
theorem dirtyLogged_harvest {vm : Vm} {a b : Nat} {r : Pgd × Bool} (h : DirtyLogged c vm)
    (hnv : ∀ i j, (vm.pgd.slot i j).isVal = false) (hab : a ≤ b) (hb : b < c.spanFrames)
    (hr : kvmMipsMkcleanGpaPt c vm.pgd a b = some r) :
    DirtyLogged c { vm with pgd := r.1, dirtyLog := fun g => decide (g < a ∨ b < g) && vm.dirtyLog g } := by
  have hsh : Shrinks (Pte.flagAt Pte.dirty) vm.pgd r.1 :=
    rangeOpPgd_shrinks pteMkclean_shrinks_dirty pmdMkclean_shrinks_dirty hr
  obtain ⟨r0, h0⟩ : ∃ r0, kvmMipsMkcleanGpaPt c vm.pgd a b =
      some (markRange c pteMkclean pmdMkclean a b vm.pgd, r0) :=
    rangeOpPgd_marks (wf_of_noVal hnv) hab hb
  rw [hr, Option.some_inj] at h0
  subst h0
  intro g e hg he hp hd
  by_cases hin : a ≤ g ∧ g ≤ b
  · have hc := leafEntry_markRange (show ∀ e, pteMkclean (pteMkclean e) = pteMkclean e from
      fun _ => rfl) hb hin.1 hin.2
      (leafEntry_of_entry c (hsh.noVal hnv) he) hp
    rw [← hc] at hd
    cases hd
  · obtain ⟨e0, he0, hp0, hd0⟩ := hsh.flagEntry c he hp hd
    simp only [h g e0 hg he0 hp0 hd0, Bool.and_true, decide_eq_true_eq]
    omega

/-- The block `kvm_mips_map_page_fast` logs for a huge entry holds the faulting frame. -/
theorem mem_pmdMask_block (gpa : Nat) :
    c.pmdMask gpa / c.pageSize ≤ gpa / c.pageSize ∧
      gpa / c.pageSize < c.pmdMask gpa / c.pageSize + c.ptrsPerPte := by
  rw [pmdMask_div]
  exact ⟨Nat.div_mul_le_self _ _, Nat.lt_div_mul_add c.ptrsPerPte_pos⟩

/-- **The fast path over a table with no entry value.** It fails and leaves the VM as it was when
no present entry governs the faulting frame. Otherwise the frame's entry `e` is present; then it stores `e` made young, and dirty on a write to a
writable entry, for every frame with the faulting frame's indices, fails only on a write to a clean
read-only entry, and logs the frame (or the block of a huge entry) on a write to a clean writable
one. -/
theorem mapPageFast_noVal {vm vm' : Vm} {gpa : Nat} {wf : Bool} {r : Int}
    (hnv : ∀ i j, (vm.pgd.slot i j).isVal = false)
    (hf : kvmMipsMapPageFast c vm gpa wf = some (r, vm')) :
    vm' = vm ∧ r = -EFAULT ∧ (∀ e, vm.pgd.entry c (gpa / c.pageSize) = some e → e.present = false) ∨
    ∃ e, vm.pgd.entry c (gpa / c.pageSize) = some e ∧ e.present = true ∧
      r = (if wf && !e.dirty && !e.write then -EFAULT else 0) ∧
      (∀ g, vm'.pgd.entry c g =
        if c.pgdIdx g = c.pgdIdx (gpa / c.pageSize) ∧ c.pmdIdx g = c.pmdIdx (gpa / c.pageSize) ∧
            c.pteIdx g = c.pteIdx (gpa / c.pageSize)
        then some { e with young := true, dirty := e.dirty || wf && e.write } else vm.pgd.entry c g) ∧
      vm'.dirtyLog = fun g => vm.dirtyLog g || (wf && !e.dirty && e.write && if e.huge then
        decide (c.pmdMask gpa / c.pageSize ≤ g ∧ g < c.pmdMask gpa / c.pageSize + c.ptrsPerPte)
        else decide (g = gpa / c.pageSize)) := by
  obtain ⟨p, hw, hcase⟩ := pteForGpa_none_wf (c := c) (wf_of_noVal hnv) gpa
  rcases hcase with ⟨rfl, hnone⟩ | ⟨ptep, e, rfl, hread, hent⟩
  · simp only [kvmMipsMapPageFast, hw, Option.some_bind, Option.some.injEq, Prod.mk.injEq] at hf
    exact .inl ⟨hf.2.symm, hf.1.symm, fun _ he => by rw [hnone] at he; cases he⟩
  by_cases hp : e.present = true
  swap
  · rw [Bool.not_eq_true] at hp
    simp only [kvmMipsMapPageFast, hw, Option.some_bind, hread, hp, Bool.not_false, ↓reduceIte,
      Option.some.injEq, Prod.mk.injEq] at hf
    exact .inl ⟨hf.2.symm, hf.1.symm, fun _ he => by rw [hent] at he; cases he; exact hp⟩
  have hptr : ptep = .leaf (c.pgdIndex gpa) (c.pmdOffset gpa) (c.pteOffset gpa) := by
    rw [Pgd.entry, ← c.pgdIndex_eq, ← c.pmdOffset_eq, ← c.pteOffset_eq] at hent
    obtain ⟨pmd, hi, hj⟩ := Option.bind_eq_some.mp hent
    have hv := hnv (c.pgdIndex gpa) (c.pmdOffset gpa)
    rw [Pgd.slot, hi, Option.getD_some] at hv
    rcases hpj : pmd (c.pmdOffset gpa) with _ | pte | x
    · rw [hpj] at hj; cases hj
    · rw [pteForGpa_table c hi hpj] at hw; cases hw; rfl
    · rw [hpj] at hv; cases hv
  subst hptr
  obtain ⟨pgd', hs, hf'⟩ := mapPageFast_present wf hw hread hp
  rw [hf', Option.some.injEq, Prod.mk.injEq] at hf
  obtain ⟨rfl, rfl⟩ := hf
  refine .inr ⟨e, hent, hp, rfl, fun g => ?_, rfl⟩
  rw [entry_setPte_leaf c hs g, c.pgdIndex_eq, c.pmdOffset_eq, c.pteOffset_eq]

/-- **The fast path keeps the log covering the table** when the faulting frame is inside the span:
over a table with no entry value the one entry it may make dirty is that frame's, which it logs. -/
theorem dirtyLogged_mapPageFast {vm vm' : Vm} {gpa : Nat} {wf : Bool} {r : Int}
    (h : DirtyLogged c vm) (hnv : ∀ i j, (vm.pgd.slot i j).isVal = false)
    (hg : gpa / c.pageSize < c.spanFrames)
    (hf : kvmMipsMapPageFast c vm gpa wf = some (r, vm')) : DirtyLogged c vm' := by
  rcases mapPageFast_noVal hnv hf with ⟨rfl, -⟩ | ⟨e, hent, hp, -, heq, hlog⟩
  · exact h
  intro g e' hgs he' hp' hd'
  rw [heq] at he'
  rw [hlog]
  split at he'
  · rename_i hidx
    obtain rfl := eq_of_digits hgs hg hidx
    cases he'
    by_cases hed : e.dirty = true
    · simp [h _ e hgs hent hp hed]
    · rw [Bool.not_eq_true] at hed
      simp only [hed, Bool.false_or, Bool.and_eq_true] at hd'
      have hb := mem_pmdMask_block (c := c) gpa
      cases e.huge <;> simp [hd', hed, hb]
  · simp [h g e' hgs he' hp' hd']

/-- **A base-page commit keeps the log covering the table** when the faulting frame is inside the
span: the entry it maps dirty is the decision's frame, which it logs. -/
theorem dirtyLogged_commit {host : Host} {vm vm' : Vm} {cache cache' gpa : Nat}
    {wf writeable : Bool} {d : Decision} {s pfn fuel : Nat} {inv : Option Nat}
    (h : DirtyLogged c vm) (hnv : ∀ i j, (vm.pgd.slot i j).isVal = false)
    (hthp : host.thp pfn = false) (hd : BaseDecision c gpa d) (hg : gpa / c.pageSize < c.spanFrames)
    (hc : mapPageCommit c host vm cache gpa wf d s pfn writeable fuel = some (.done vm' cache' inv)) :
    DirtyLogged c vm' := by
  obtain ⟨-, -, hlog, -, heq⟩ := mapPageCommit_base c hnv hthp hd.1 hc
  intro g e hgs he hp hdirty
  rw [heq] at he
  rw [hlog, hd.2]
  split at he
  · rename_i hidx
    obtain rfl := eq_of_digits hgs hg hidx
    cases he
    simp only [pfnPte_dirty, mapPageProt_dirty] at hdirty
    simp [hdirty]
  · obtain ⟨e0, he0, hp0, hd0⟩ :=
      (linkFresh_shrinks c (Pte.flagAt_zero Pte.dirty) vm.pgd gpa).flagEntry c he hp hdirty
    split <;> simp [h g e0 hgs he0 hp0 hd0]

end Table

/-! ## What keeps the invariant -/

namespace LogInv
variable {c} {w : World}

theorem setVcpu (hw : LogInv c w) {v : Nat} {x : Vcpu}
    (hx : ∀ f, x.fault = some f → f.gpa / c.pageSize < c.spanFrames) :
    LogInv c (w.setVcpu v x) := by
  refine ⟨hw.logged, fun u f hf => ?_⟩
  rw [World.setVcpu_vcpus, update_apply] at hf
  split at hf
  · exact hx f hf
  · exact hw.gpas u f hf

theorem setPc (hw : LogInv c w) {v : Nat} {f : Fault} (hf : (w.vcpus v).fault = some f)
    (pc : Pc) : LogInv c (w.setPc v f pc) :=
  hw.setVcpu fun _ h => by cases h; exact hw.gpas v f hf

theorem flushRemoteTlbs (hw : LogInv c w) : LogInv c w.flushRemoteTlbs := ⟨hw.logged, hw.gpas⟩

theorem kvmVzFlushShadowAll (hw : LogInv c w) : LogInv c (w.kvmVzFlushShadowAll c) := by
  unfold World.kvmVzFlushShadowAll
  split
  · exact hw.flushRemoteTlbs
  · exact hw

theorem of_logged (hw : LogInv c w) {vm : Vm} (h : DirtyLogged c vm) :
    LogInv c { w with vm := vm } := ⟨h, hw.gpas⟩

end LogInv

section Run
variable {c} {slots : List Memslot}

theorem logAction_base {a : Action} (h : logAction c a = true) : baseAction c a = true := by
  cases a <;> simp_all [logAction, baseAction]

theorem reachableBy_mono {ok ok' : Action → Prop} (hok : ∀ a, ok a → ok' a) {host : Host}
    {w : World} (h : ReachableBy c slots ok host w) : ReachableBy c slots ok' host w := by
  induction h with
  | init => exact .init
  | step a ha _ hs ih => exact .step a (hok a ha) ih hs

/-- **Each step of a fault thread keeps the dirty-log invariant.** -/
theorem faultStep_logInv {w w' : World} {v : Nat} {f : Fault} {a : Action}
    (hs : Synced c slots w) (hw : LogInv c w) (hf : (w.vcpus v).fault = some f)
    (h : faultStep c slots w v f a = some w') : LogInv c w' := by
  cases a with
  | fast =>
    simp only [faultStep] at h
    split at h
    · split at h
      · cases h; exact hw.setPc hf _
      split at h
      · obtain ⟨r, hr, rfl⟩ := Option.map_eq_some'.mp h
        refine LogInv.setPc ?_ ?_ _
        · exact hw.of_logged (dirtyLogged_mapPageFast hw.logged hs.noVal (hw.gpas v f hf) hr)
        · exact hf
      · cases h; exact hw.setPc hf _
    · cases h
  | commit =>
    simp only [faultStep] at h
    split at h
    · rename_i d s pfn writeable hpc
      obtain ⟨r, hr, rfl⟩ := Option.map_eq_some'.mp h
      cases r with
      | retry => exact hw.setPc hf _
      | done vm cache inv =>
        have hd := hs.decisions v f hf d (by rw [hpc]; rfl)
        have hw' := hw.of_logged
          (dirtyLogged_commit hw.logged hs.noVal (hs.thp pfn) hd (hw.gpas v f hf) hr)
        refine LogInv.setPc ?_ ?_ _
        · exact hw'.setVcpu fun f' h' => hw'.gpas v f' h'
        · rw [World.setVcpu_vcpus, update_same]; exact hf
    · cases h
  | finish =>
    simp only [faultStep] at h
    split at h
    · cases h; exact hw.setVcpu fun _ h => by cases h
    · cases h
  | topup =>
    simp only [faultStep] at h
    split at h
    · cases h
      refine LogInv.setPc ?_ ?_ _
      · exact hw.setVcpu fun f' h' => hw.gpas v f' h'
      · rw [World.setVcpu_vcpus, update_same]; exact hf
    · cases h
  | lookup | snapshot | resolve =>
    simp only [faultStep] at h
    split at h
    · cases h; exact hw.setPc hf _
    · cases h
  | _ => simp only [faultStep] at h; cases h

/-- **Every step of a logged run keeps the dirty-log invariant**, given the freshness invariant of
base-page runs. -/
theorem step_logInv {w w' : World} {a : Action} (hs : Synced c slots w) (hw : LogInv c w)
    (ha : logAction c a = true) (h : step c slots w a = some w') : LogInv c w' := by
  cases a with
  | fault v gpa =>
    simp only [step] at h
    split at h
    · cases h
      exact hw.setVcpu fun _ h => by cases h; simpa [logAction] using ha
    · cases h
  | refill v =>
    simp only [step] at h
    split at h
    · split at h
      · cases h; exact hw.setVcpu fun f h => hw.gpas v f h
      · cases h
    · cases h
  | invalidateStart =>
    obtain ⟨pgd, hu, rfl⟩ := Option.map_eq_some'.mp h
    exact LogInv.kvmVzFlushShadowAll ⟨hw.logged.of_shrinks (kvmUnmapHvaRange_shrinks
      (Pte.flagAt_zero Pte.dirty) hu) fun _ h => h, hw.gpas⟩
  | hostChange =>
    simp only [step] at h
    split at h
    · cases h; exact ⟨hw.logged, hw.gpas⟩
    · cases h
  | invalidateEnd =>
    simp only [step] at h
    split at h
    · cases h; exact ⟨hw.logged, hw.gpas⟩
    · cases h
  | setSpte => cases ha
  | age =>
    obtain ⟨r, hr, rfl⟩ := Option.map_eq_some'.mp h
    have hl : DirtyLogged c { w.vm with pgd := r.1 } := hw.logged.of_shrinks
      (kvmAgeHva_shrinks pteMkold_shrinks_dirty pmdMkold_shrinks_dirty hr) fun _ h => h
    split
    · exact LogInv.flushRemoteTlbs (hw.of_logged hl)
    · exact hw.of_logged hl
  | testAge => obtain ⟨_, -, rfl⟩ := Option.map_eq_some'.mp h; exact hw
  | harvest a b =>
    obtain ⟨r, hr, rfl⟩ := Option.map_eq_some'.mp h
    simp only [logAction, decide_eq_true_eq] at ha
    have hl := dirtyLogged_harvest hw.logged hs.noVal ha.1 ha.2 hr
    split
    · exact LogInv.flushRemoteTlbs (hw.of_logged hl)
    · exact hw.of_logged hl
  | flushGpa =>
    obtain ⟨r, hr, rfl⟩ := Option.map_eq_some'.mp h
    exact LogInv.flushRemoteTlbs
      (hw.of_logged (hw.logged.of_shrinks (flushPt_shrinks (Pte.flagAt_zero Pte.dirty) hr) fun _ h => h))
  | _ =>
    simp only [step, Action.thread] at h
    obtain ⟨f, hf, h⟩ := Option.bind_eq_some.mp h
    exact faultStep_logInv hs hw hf h

theorem logInv_reachableBy (hslots : ∀ s ∈ slots, SlotInSpan c s) (hpte : 0 < c.pteBits)
    {host : Host} (hvma : ∀ p, host.vmaPagesize p ≠ some c.pmdSize)
    (hthp : ∀ p, host.thp p = false) {w : World}
    (hw : ReachableBy c slots (fun a => logAction c a = true) host w) : LogInv c w := by
  induction hw with
  | init => exact ⟨fun _ _ _ h => (by cases h), fun _ _ h => by cases h⟩
  | step a ha hr hs ih =>
    exact step_logInv (synced_reachableBy hslots hpte hvma hthp
      (reachableBy_mono (fun _ => logAction_base) hr)) ih ha hs

/-- **The dirty log never misses a dirty page.** Take a host with no VMA of `PMD_SIZE` pages and no
transparent huge page, and slots inside the table's span whose host ranges start page-aligned and
do not wrap. Take every world reached by any interleaving of vCPU faults inside the span, refills,
invalidations of non-empty ranges with any host changes inside them, aging, dirty-log harvests of
ranges inside the span and flushes. In it every frame inside the span whose entry is present and
dirty has its bit set in the dirty log. -/
theorem dirty_pages_logged (hslots : ∀ s ∈ slots, SlotInSpan c s) (hpte : 0 < c.pteBits)
    {host : Host} (hvma : ∀ p, host.vmaPagesize p ≠ some c.pmdSize)
    (hthp : ∀ p, host.thp p = false) {w : World}
    (hw : ReachableBy c slots (fun a => logAction c a = true) host w) :
    ∀ g e, g < c.spanFrames → w.vm.pgd.entry c g = some e → e.present = true →
      e.dirty = true → w.vm.dirtyLog g = true :=
  (logInv_reachableBy hslots hpte hvma hthp hw).logged

end Run

/-- vCPU 0 writes guest frame 0 of the sample, the log of frames `[0, 3]` is harvested, and vCPU 0
writes guest frame 1. -/
def harvestRun : List Action := faultRun 0 true ++ [.harvest 0 3] ++ faultRun 1 true

theorem dirty_pages_logged_sample :
    ∃ w, run (Config.mips16k false) [Memslot.sample] (World.init Host.sample) harvestRun = some w ∧
      ∀ g e, g < (Config.mips16k false).spanFrames →
        w.vm.pgd.entry (Config.mips16k false) g = some e → e.present = true →
        e.dirty = true → w.vm.dirtyLog g = true := by
  obtain ⟨w, hr⟩ : ∃ w, run (Config.mips16k false) [Memslot.sample] (World.init Host.sample)
      harvestRun = some w := ⟨_, rfl⟩
  exact ⟨w, hr, dirty_pages_logged (Memslot.sample_inSpan false) (by decide)
    (fun _ h => absurd (Option.some.inj h) (by decide)) (fun _ => rfl)
    (run_reachableBy _ _ (by decide) .init hr)⟩

/-! ## The log loses a frame only to a harvest of it -/

section Kept
variable {c} {slots : List Memslot} {g : Nat}

variable (c slots)

end Kept

end LoongsonDune.Proof
