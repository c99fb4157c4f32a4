import LoongsonDune.Proof.Protocol
import LoongsonDune.Proof.Translation
import LoongsonDune.Proof.Stale
import LoongsonDune.Proof.Unmap
import LoongsonDune.Proof.HugeMap

/-!
# Base-page runs keep every translation fresh

The GPA table and each vCPU's derived mappings cache the host's translation of the slots' host
pages. Three things keep that cache right. A commit that passes `mmu_notifier_retry` maps the frame
the host maps now (`commit_resolves_current_frame`). An invalidation unmaps every frame whose host
page meets its range before the host changes any of them. The host changes a page only while an
invalidation of it runs. `Synced` is what follows for a run: every present entry of the table is
fresh, meaning the host page behind its frame is present, holds the entry's frame, and is not under
invalidation. With GuestIDs, where `kvm_vz_flush_shadow_all` flushes every derived mapping as an
invalidation begins, every derived mapping is fresh too.

The run must map base pages only: no VMA of `PMD_SIZE` pages and no transparent huge page on the
host (a huge commit maps frames whose host pages it never resolved, see `Stale`), and no
`kvm_set_spte_hva`, which writes a host pte into the table while its invalidation still runs.
Invalidations are of non-empty ranges, as the host's notifier issues them.
-/

namespace LoongsonDune

/-- The decision a fault thread carries from its top-up to its commit. -/
def Pc.decision : Pc → Option Decision
  | .topup d | .snapshot d | .resolve d _ | .commit d _ _ _ => some d
  | _ => none

end LoongsonDune

namespace LoongsonDune.Proof

open LoongsonDune Function

variable (c : Config) (slots : List Memslot)

/-- The host virtual page behind guest frame `g` of slot `s`: the page of
`__gfn_to_hva_memslot`'s address. -/
def slotPage (s : Memslot) (g : Nat) : Nat :=
  u64 (s.userspaceAddr + (g - s.baseGfn) * c.pageSize) / c.pageSize

/-- The actions of a base-page run: invalidations of non-empty ranges, host changes that make no
VMA of `PMD_SIZE` pages, and no `kvm_set_spte_hva`. -/
def baseAction : Action → Bool
  | .invalidateStart start «end» => decide (start < «end»)
  | .hostChange _ _ vma => vma != some c.pmdSize
  | .setSpte _ _ => false
  | _ => true

/-- A decision for a fault at `gpa` in a base-page run: not a `PMD_SIZE` page, and the frame to
resolve is the faulting frame. -/
def BaseDecision (gpa : Nat) (d : Decision) : Prop :=
  d.vmaPagesize ≠ c.pmdSize ∧ d.gfn = gpa / c.pageSize

/-- Guest frame `g` mapped to host frame `x` is fresh in world `w`: if `g` is in a slot, the host
page behind it is present, holds `x`, and meets no invalidation in progress. -/
def Fresh (w : World) (g x : Nat) : Prop :=
  ∀ s, gfnToMemslot slots g = some s →
    (w.host.pte (slotPage c s g)).present = true ∧ (w.host.pte (slotPage c s g)).pfn = x ∧
      w.invalidatingPage c (slotPage c s g) = false

/-- The freshness invariant of base-page runs. -/
structure Synced (w : World) : Prop where
  /-- Every invalidation in progress is of a non-empty range. -/
  ranges : ∀ r ∈ w.invalidating, r.1 < r.2
  /-- No middle slot holds an entry value: the table has no huge entry. -/
  noVal : ∀ i j, (w.vm.pgd.slot i j).isVal = false
  /-- The host has no VMA of `PMD_SIZE` pages. -/
  vma : ∀ p, w.host.vmaPagesize p ≠ some c.pmdSize
  /-- The host has no transparent huge page. -/
  thp : ∀ p, w.host.thp p = false
  /-- Every fault thread carries a base-page decision. -/
  decisions : ∀ v f, (w.vcpus v).fault = some f → ∀ d, f.pc.decision = some d →
    BaseDecision c f.gpa d
  /-- Every present entry is fresh. -/
  table : ∀ g e, w.vm.pgd.entry c g = some e → e.present = true →
    Fresh c slots w g (e.frameOf c g)
  /-- With GuestIDs, every derived mapping is fresh. -/
  tlb : c.cpuHasGuestid = true → ∀ v, ∀ d ∈ (w.vcpus v).tlb, Fresh c slots w d.gfn d.pfn

/-! ## Frames, host pages and invalidations -/

section Pages
variable {c slots}

theorem slotPage_mul {s : Memslot} {g : Nat} (hs : SlotInSpan c s) (h1 : s.baseGfn ≤ g)
    (h2 : g < s.baseGfn + s.npages) :
    slotPage c s g * c.pageSize = s.userspaceAddr + (g - s.baseGfn) * c.pageSize := by
  obtain ⟨ha, hw, -⟩ := hs
  have hle : (g - s.baseGfn) * c.pageSize + c.pageSize ≤ s.npages * c.pageSize := by
    rw [← Nat.succ_mul]; exact Nat.mul_le_mul_right _ (by omega)
  rw [slotPage, u64_of_lt (by omega)]
  exact Nat.div_mul_cancel (Nat.dvd_add (Nat.dvd_of_mod_eq_zero ha) (Nat.dvd_mul_left _ _))

/-- A host page that meets a non-empty range, behind a frame of a slot, is one the unmap of the
range reaches. -/
theorem hostPageMeets_of_covers {s : Memslot} {g start «end» : Nat} (hs : SlotInSpan c s)
    (h1 : s.baseGfn ≤ g) (h2 : g < s.baseGfn + s.npages) (hlt : start < «end»)
    (hc : start < (slotPage c s g + 1) * c.pageSize ∧ slotPage c s g * c.pageSize < «end») :
    HostPageMeets c s g start «end» := by
  have hP := c.pageSize_pos
  rw [Nat.add_mul, Nat.one_mul, slotPage_mul hs h1 h2] at hc
  refine ⟨h1, h2, ?_⟩
  simp only [max_lt_iff, lt_min_iff]
  omega

theorem lt_span_of_slot (hslots : ∀ s ∈ slots, SlotInSpan c s) {g : Nat} {s : Memslot}
    (hs : gfnToMemslot slots g = some s) : g < c.spanFrames := by
  obtain ⟨hm, -, hlt⟩ := gfnToMemslot_some hs
  exact Nat.lt_of_lt_of_le hlt (hslots s hm).2.2

/-- Inside the span a frame is determined by its indices. -/
theorem eq_of_digits {g g' : Nat} (hg : g < c.spanFrames) (hg' : g' < c.spanFrames)
    (h : c.pgdIdx g = c.pgdIdx g' ∧ c.pmdIdx g = c.pmdIdx g' ∧ c.pteIdx g = c.pteIdx g') :
    g = g' := by
  rw [← frameAt_digits c hg, ← frameAt_digits c hg', h.1, h.2.1, h.2.2]

/-- A frame `gfn_to_pfn_prot` resolves is the present frame behind the frame's host page. -/
theorem gfnToPfnProt_fresh {host : Host} {g pfn : Nat} {wf writeable : Bool}
    (h : gfnToPfnProt c slots host g wf = some (pfn, writeable)) :
    ∃ s, gfnToMemslot slots g = some s ∧ (host.pte (slotPage c s g)).present = true ∧
      (host.pte (slotPage c s g)).pfn = pfn := by
  rcases hs : gfnToMemslot slots g with _ | s
  · simp [gfnToPfnProt, hs] at h
  refine ⟨s, rfl, ?_, (gfnToPfnProt_some c hs h).symm⟩
  by_contra hp
  rw [slotPage, Bool.not_eq_true] at hp
  simp [gfnToPfnProt, hs, hp] at h

theorem invalidatingPage_mono {w w' : World} (hinv : ∀ r ∈ w'.invalidating, r ∈ w.invalidating)
    {p : Nat} (h : w.invalidatingPage c p = false) : w'.invalidatingPage c p = false := by
  rw [Bool.eq_false_iff] at h ⊢
  intro h'
  obtain ⟨r, hr, hp⟩ := List.any_eq_true.mp h'
  exact h (List.any_eq_true.mpr ⟨r, hinv r hr, hp⟩)

/-- Freshness survives fewer invalidations and host changes to pages under invalidation. -/
theorem Fresh.mono {w w' : World} {g x : Nat} (h : Fresh c slots w g x)
    (hinv : ∀ r ∈ w'.invalidating, r ∈ w.invalidating)
    (hhost : ∀ p, w.invalidatingPage c p = false → w'.host.pte p = w.host.pte p) :
    Fresh c slots w' g x := fun s hs => by
  obtain ⟨h1, h2, h3⟩ := h s hs
  rw [hhost _ h3]
  exact ⟨h1, h2, invalidatingPage_mono hinv h3⟩

end Pages

/-- A lookup on a host with no VMA of `PMD_SIZE` pages decides for the faulting base page. -/
theorem mapPageLookup_base {host : Host} {gpa : Nat} {wf : Bool} {err : Int} {d : Decision}
    (hpte : 0 < c.pteBits) (hvma : ∀ p, host.vmaPagesize p ≠ some c.pmdSize)
    (h : mapPageLookup c slots host gpa wf err = .ok d) : BaseDecision c gpa d := by
  obtain ⟨s, vps, -, -, -, hv, -, hsize, hgfn⟩ := mapPageLookup_ok c h
  have hne : d.vmaPagesize ≠ c.pmdSize := by
    rw [hsize]
    split
    · exact (pageSize_lt_pmdSize c hpte).ne
    · rintro rfl; exact hvma _ hv
  exact ⟨hne, by rw [hgfn, if_neg hne]⟩

/-! ## What keeps the world synced -/

theorem synced_init {host : Host} (hvma : ∀ p, host.vmaPagesize p ≠ some c.pmdSize)
    (hthp : ∀ p, host.thp p = false) : Synced c slots (World.init host) :=
  ⟨fun _ h => (by cases h), fun _ _ => rfl, hvma, hthp, fun _ _ h => (by cases h),
    fun _ _ h => (by cases h), fun _ _ _ h => by cases h⟩

namespace Synced
variable {c slots} {w : World}

theorem setVcpu (hw : Synced c slots w) {v : Nat} {x : Vcpu}
    (hd : ∀ f, x.fault = some f → ∀ d, f.pc.decision = some d → BaseDecision c f.gpa d)
    (ht : c.cpuHasGuestid = true → ∀ d ∈ x.tlb, Fresh c slots w d.gfn d.pfn) :
    Synced c slots (w.setVcpu v x) := by
  refine ⟨hw.ranges, hw.noVal, hw.vma, hw.thp, fun u f hf => ?_, hw.table, fun hg u => ?_⟩
  · rw [World.setVcpu_vcpus, update_apply] at hf
    split at hf
    · exact hd f hf
    · exact hw.decisions u f hf
  · rw [World.setVcpu_vcpus, update_apply]
    split
    · exact ht hg
    · exact hw.tlb hg u

theorem setPc (hw : Synced c slots w) {v : Nat} {f : Fault} {pc : Pc}
    (hd : ∀ d, pc.decision = some d → BaseDecision c f.gpa d) : Synced c slots (w.setPc v f pc) :=
  hw.setVcpu (fun _ h => by cases h; exact hd) fun hg => hw.tlb hg v

theorem flushRemoteTlbs (hw : Synced c slots w) : Synced c slots w.flushRemoteTlbs :=
  ⟨hw.ranges, hw.noVal, hw.vma, hw.thp, hw.decisions, hw.table, fun _ _ _ h => by cases h⟩

/-- `kvm_vz_flush_shadow_all` keeps what the flush of every derived mapping keeps: without
GuestIDs there is nothing to say of the derived mappings. -/
theorem kvmVzFlushShadowAll (hw : Synced c slots w.flushRemoteTlbs) :
    Synced c slots (w.kvmVzFlushShadowAll c) := by
  unfold World.kvmVzFlushShadowAll
  split
  · exact hw
  · exact ⟨hw.ranges, hw.noVal, hw.vma, hw.thp, hw.decisions, hw.table, fun hg => absurd hg ‹_›⟩

/-- A table that shrinks the old one, over the same host. -/
theorem of_shrinks (hw : Synced c slots w) {vm : Vm} (hsh : Shrinks Pte.mapAt w.vm.pgd vm.pgd) :
    Synced c slots { w with vm := vm } :=
  ⟨hw.ranges, hsh.noVal hw.noVal, hw.vma, hw.thp, hw.decisions, fun g e he hp => by
    obtain ⟨e0, he0, hp0, hf⟩ := hsh.entry c he hp
    rw [← hf]; exact hw.table g e0 he0 hp0, hw.tlb⟩

end Synced

section Steps
variable {c slots} {w : World}

/-- Beginning an invalidation: the unmap takes every entry whose host page meets the range out of
the table, so what is left meets no invalidation in progress. -/
theorem synced_invalidateStart (hslots : ∀ s ∈ slots, SlotInSpan c s) {start «end» : Nat}
    {pgd : Pgd} (hw : Synced c slots w) (hlt : start < «end»)
    (h : kvmUnmapHvaRange c slots w.vm.pgd start «end» = some pgd) :
    Synced c slots (World.kvmVzFlushShadowAll c { w with
      vm := { w.vm with pgd := pgd, mmuNotifierCount := w.vm.mmuNotifierCount + 1 },
      invalidating := (start, «end») :: w.invalidating }) := by
  obtain ⟨pgd', h', hu⟩ := @kvmUnmapHvaRange_unmapped c start «end» slots w.vm.pgd hslots
    (wf_of_noVal hw.noVal)
  rw [h, Option.some_inj] at h'
  subst h'
  have hsh := kvmUnmapHvaRange_shrinks Pte.mapAt_zero h
  refine Synced.kvmVzFlushShadowAll ⟨List.forall_mem_cons.mpr ⟨hlt, hw.ranges⟩,
    hsh.noVal hw.noVal, hw.vma, hw.thp, hw.decisions, fun g e he hp s hs => ?_,
    fun _ _ _ h => by cases h⟩
  obtain ⟨e0, he0, hp0, hf⟩ := hsh.entry c he hp
  obtain ⟨h1, h2, h3⟩ := hw.table g e0 he0 hp0 s hs
  obtain ⟨hm, hb, hn⟩ := gfnToMemslot_some hs
  refine ⟨h1, hf ▸ h2, ?_⟩
  simp only [World.invalidatingPage, World.flushRemoteTlbs_invalidating, List.any_cons,
    Bool.or_eq_false_iff]
  refine ⟨Bool.eq_false_iff.mpr fun hc => ?_, h3⟩
  simp only [Bool.and_eq_true, decide_eq_true_eq] at hc
  have := hu.1 s hm g (hostPageMeets_of_covers (hslots s hm) hb hn hlt hc) e he
  rw [hp] at this
  cases this

/-- A host change to a page under invalidation touches no fresh frame's host page. -/
theorem synced_hostChange {page : Nat} {pte : Pte} {vma : Option Nat} (hw : Synced c slots w)
    (hp : w.invalidatingPage c page = true) (hvma : vma ≠ some c.pmdSize) :
    Synced c slots { w with host := { w.host with
      pte := update w.host.pte page pte, vmaPagesize := update w.host.vmaPagesize page vma } } := by
  have hhost : ∀ p, w.invalidatingPage c p = false → update w.host.pte page pte p = w.host.pte p :=
    fun p hp' => update_noteq (fun he => by rw [he, hp] at hp'; cases hp') _ _
  refine ⟨hw.ranges, hw.noVal, fun p => ?_, hw.thp, hw.decisions,
    fun g e he hpr => (hw.table g e he hpr).mono (fun _ h => h) hhost,
    fun hg v d hd => (hw.tlb hg v d hd).mono (fun _ h => h) hhost⟩
  show update w.host.vmaPagesize page vma p ≠ _
  rw [update_apply]
  split
  · exact hvma
  · exact hw.vma p

theorem synced_invalidateEnd {start «end» : Nat} (hw : Synced c slots w) :
    Synced c slots { w with
      vm := { w.vm with
        mmuNotifierSeq := w.vm.mmuNotifierSeq + 1, mmuNotifierCount := w.vm.mmuNotifierCount - 1 },
      invalidating := w.invalidating.erase (start, «end») } := by
  have hinv : ∀ r ∈ w.invalidating.erase (start, «end»), r ∈ w.invalidating :=
    fun _ h => List.mem_of_mem_erase h
  exact ⟨fun r h => hw.ranges r (hinv r h), hw.noVal, hw.vma, hw.thp, hw.decisions,
    fun g e he hp => (hw.table g e he hp).mono hinv fun _ _ => rfl,
    fun hg v d hd => (hw.tlb hg v d hd).mono hinv fun _ _ => rfl⟩

/-- A commit maps the faulting frame to the frame the host maps now, with no invalidation in
progress; every other frame of the span keeps its translation. -/
theorem synced_commit (hslots : ∀ s ∈ slots, SlotInSpan c s) {v : Nat} {f : Fault} {d : Decision}
    {s pfn fuel cache : Nat} {writeable : Bool} {vm : Vm} {inv : Option Nat}
    (hn : NotifierInv c slots w) (hw : Synced c slots w) (hf : (w.vcpus v).fault = some f)
    (hpc : f.pc = .commit d s pfn writeable)
    (h : mapPageCommit c w.host w.vm (w.vcpus v).cache f.gpa f.writeFault d s pfn writeable fuel =
      some (.done vm cache inv)) :
    inv = none ∧ Synced c slots { w with vm := vm } := by
  have hd := hw.decisions v f hf d (by rw [hpc]; rfl)
  obtain ⟨hret, hinv, -, hnv, heq⟩ := mapPageCommit_base c hw.noVal (hw.thp pfn) hd.1 h
  have hsnap := hn.snap v f hf
  rw [hpc] at hsnap
  have hres := hsnap.2 hret
  rw [hd.2] at hres
  obtain ⟨s0, hs0, hp0, hpfn0⟩ := gfnToPfnProt_fresh hres
  have hnil : w.invalidating = [] :=
    List.length_eq_zero.mp (by rw [← hn.count]; exact (eq_of_retry_false hret).1)
  refine ⟨hinv, hw.ranges, hnv, hw.vma, hw.thp, hw.decisions, fun g e he hp => ?_, hw.tlb⟩
  rw [heq] at he
  split at he
  · rename_i hidx
    cases he
    intro s' hs'
    obtain rfl := eq_of_digits (lt_span_of_slot hslots hs') (lt_span_of_slot hslots hs0) hidx
    rw [hs0, Option.some_inj] at hs'
    subst hs'
    exact ⟨hp0, hpfn0, by simp [World.invalidatingPage, hnil]⟩
  · obtain ⟨e0, he0, hp0', hf0⟩ :=
      (linkFresh_shrinks c Pte.mapAt_zero w.vm.pgd f.gpa).entry c he hp
    rw [← hf0]
    exact hw.table g e0 he0 hp0'

end Steps

/-! ## Every step of a base-page run -/

section Run
variable {c slots}

/-- **Each step of a fault thread keeps the world synced.** The lookup decides for the base page,
the top-up, snapshot and resolution carry the decision on, and the commit maps a fresh frame. -/
theorem faultStep_synced (hslots : ∀ s ∈ slots, SlotInSpan c s) (hpte : 0 < c.pteBits)
    {w w' : World} {v : Nat} {f : Fault} {a : Action} (hn : NotifierInv c slots w)
    (hw : Synced c slots w) (hf : (w.vcpus v).fault = some f)
    (h : faultStep c slots w v f a = some w') : Synced c slots w' := by
  have hnone : ∀ {pc : Pc}, pc.decision = none → ∀ d, pc.decision = some d →
      BaseDecision c f.gpa d := fun h d h' => by rw [h] at h'; cases h'
  have hkeep : ∀ {d : Decision} {pc : Pc}, f.pc.decision = some d → pc.decision = some d →
      ∀ d', pc.decision = some d' → BaseDecision c f.gpa d' := fun hd hpc d' h' => by
    rw [hpc, Option.some_inj] at h'
    subst h'
    exact hw.decisions v f hf _ hd
  cases a with
  | fast =>
    simp only [faultStep] at h
    split at h
    · split at h
      · cases h; exact hw.setPc (hnone rfl)
      split at h
      · obtain ⟨r, hr, rfl⟩ := Option.map_eq_some'.mp h
        refine Synced.setPc (hw.of_shrinks (mapPageFast_shrinks
          (opShrinks_of_sameMap sameMap_pteMkyoung) (opShrinks_of_sameMap sameMap_pteMkdirty) hr))
          (hnone ?_)
        split <;> rfl
      · cases h; exact hw.setPc (hnone rfl)
    · cases h
  | lookup =>
    simp only [faultStep] at h
    split at h
    · cases h
      refine hw.setPc ?_
      split
      · exact hnone rfl
      · rename_i d hl
        intro d' h'
        cases h'
        exact mapPageLookup_base c slots hpte hw.vma hl
    · cases h
  | topup =>
    simp only [faultStep] at h
    split at h
    · rename_i d hpc
      cases h
      refine Synced.setPc ?_ ?_
      · exact hw.setVcpu (fun f' h' => hw.decisions v f' h') fun hg => hw.tlb hg v
      split
      · exact hkeep (by rw [hpc]; rfl) rfl
      · exact hnone rfl
    · cases h
  | snapshot =>
    simp only [faultStep] at h
    split at h
    · rename_i d hpc
      cases h
      exact hw.setPc (hkeep (by rw [hpc]; rfl) rfl)
    · cases h
  | resolve =>
    simp only [faultStep] at h
    split at h
    · rename_i d s hpc
      cases h
      refine hw.setPc ?_
      split
      · exact hkeep (by rw [hpc]; rfl) rfl
      · exact hnone rfl
    · cases h
  | commit =>
    simp only [faultStep] at h
    split at h
    · rename_i d s pfn writeable hpc
      obtain ⟨r, hr, rfl⟩ := Option.map_eq_some'.mp h
      cases r with
      | retry => exact hw.setPc (hkeep (by rw [hpc]; rfl) rfl)
      | done vm cache inv =>
        obtain ⟨rfl, hw'⟩ := synced_commit hslots hn hw hf hpc hr
        refine Synced.setPc ?_ ?_
        · exact hw'.setVcpu (fun f' h' => hw'.decisions v f' h') fun hg => hw'.tlb hg v
        · exact hnone rfl
    · cases h
  | finish =>
    simp only [faultStep] at h
    split at h
    · cases h
      refine hw.setVcpu (fun _ h => by cases h) fun hg d hd => hw.tlb hg v d ?_
      dsimp only at hd
      split at hd
      · exact List.mem_of_mem_filter hd
      · exact hd
    · cases h
  | _ => simp only [faultStep] at h; cases h

/-- **Every step of a base-page run keeps the world synced**, given the notifier invariant. -/
theorem step_synced (hslots : ∀ s ∈ slots, SlotInSpan c s) (hpte : 0 < c.pteBits)
    {w w' : World} {a : Action} (hn : NotifierInv c slots w) (hw : Synced c slots w)
    (ha : baseAction c a = true) (h : step c slots w a = some w') : Synced c slots w' := by
  cases a with
  | fault v =>
    simp only [step] at h
    split at h
    · cases h; exact hw.setVcpu (fun _ h _ hd => by cases h; cases hd) fun hg => hw.tlb hg v
    · cases h
  | refill v gfn =>
    simp only [step] at h
    split at h
    · rename_i e he
      split at h
      · rename_i hp
        cases h
        refine hw.setVcpu (fun f' h' => hw.decisions v f' h') fun hg d hd => ?_
        rcases List.mem_cons.mp hd with rfl | hd
        · exact hw.table gfn e he hp
        · exact hw.tlb hg v d hd
      · cases h
    · cases h
  | invalidateStart =>
    obtain ⟨pgd, hu, rfl⟩ := Option.map_eq_some'.mp h
    exact synced_invalidateStart hslots hw (by simpa [baseAction] using ha) hu
  | hostChange =>
    simp only [step] at h
    split at h
    · cases h; exact synced_hostChange hw ‹_› (by simpa [baseAction] using ha)
    · cases h
  | invalidateEnd =>
    simp only [step] at h
    split at h
    · cases h; exact synced_invalidateEnd hw
    · cases h
  | setSpte => cases ha
  | age =>
    obtain ⟨r, hr, rfl⟩ := Option.map_eq_some'.mp h
    have hsh := kvmAgeHva_shrinks (opShrinks_of_sameMap sameMap_pteMkold)
      (opShrinks_of_sameMap sameMap_pmdMkold) hr
    split
    · exact Synced.flushRemoteTlbs (hw.of_shrinks hsh)
    · exact hw.of_shrinks hsh
  | testAge => obtain ⟨_, -, rfl⟩ := Option.map_eq_some'.mp h; exact hw
  | harvest =>
    obtain ⟨r, hr, rfl⟩ := Option.map_eq_some'.mp h
    have hsh := rangeOpPgd_shrinks (opShrinks_of_sameMap sameMap_pteMkclean)
      (opShrinks_of_sameMap sameMap_pmdMkclean) hr
    split
    · exact Synced.flushRemoteTlbs (hw.of_shrinks hsh)
    · exact hw.of_shrinks hsh
  | flushGpa =>
    obtain ⟨r, hr, rfl⟩ := Option.map_eq_some'.mp h
    exact Synced.flushRemoteTlbs (hw.of_shrinks (flushPt_shrinks Pte.mapAt_zero hr))
  | _ =>
    simp only [step, Action.thread] at h
    obtain ⟨f, hf, h⟩ := Option.bind_eq_some.mp h
    exact faultStep_synced hslots hpte hn hw hf h

theorem synced_reachableBy (hslots : ∀ s ∈ slots, SlotInSpan c s) (hpte : 0 < c.pteBits)
    {host : Host} (hvma : ∀ p, host.vmaPagesize p ≠ some c.pmdSize)
    (hthp : ∀ p, host.thp p = false) {w : World}
    (hw : ReachableBy c slots (fun a => baseAction c a = true) host w) : Synced c slots w := by
  induction hw with
  | init => exact synced_init c slots hvma hthp
  | step a ha hr hs ih => exact step_synced hslots hpte (notifierInv_reachableBy hr) ih ha hs

end Run

/-! ## No stale translation in a base-page run -/

section Fresh
variable {c slots}

/-- **Base-page runs leave no stale translation in the table.** Take a host with no VMA of
`PMD_SIZE` pages and no transparent huge page, and slots inside the table's span whose host ranges
start page-aligned and do not wrap. Take every world reached by any interleaving of vCPU faults,
hardware refills, invalidations of non-empty ranges with any host changes inside them, aging,
dirty-log harvests and flushes. In it the table holds no huge entry, and every present entry maps
each frame of a slot to the present host frame behind the frame's slot address. -/
theorem hostBacked_base_runs (hslots : ∀ s ∈ slots, SlotInSpan c s) (hpte : 0 < c.pteBits)
    {host : Host} (hvma : ∀ p, host.vmaPagesize p ≠ some c.pmdSize)
    (hthp : ∀ p, host.thp p = false) {w : World}
    (hw : ReachableBy c slots (fun a => baseAction c a = true) host w) :
    (∀ i j, (w.vm.pgd.slot i j).isVal = false) ∧ HostBacked c slots w := by
  have hs := synced_reachableBy hslots hpte hvma hthp hw
  exact ⟨hs.noVal, fun g e s he hp hm => (hs.table g e he hp s hm).imp_right And.left⟩

/-- **With GuestIDs, base-page runs leave no stale derived mapping.** In every world of such a run,
every derived mapping any vCPU holds for a frame of a slot maps it to the present host frame behind
the frame's slot address, and no invalidation in progress meets that host page. Without GuestIDs
`kvm_vz_flush_shadow_all` flushes nothing, and a derived mapping outlives the invalidation of its
page. -/
theorem derived_mappings_fresh (hslots : ∀ s ∈ slots, SlotInSpan c s) (hpte : 0 < c.pteBits)
    {host : Host} (hvma : ∀ p, host.vmaPagesize p ≠ some c.pmdSize)
    (hthp : ∀ p, host.thp p = false) (hg : c.cpuHasGuestid = true) {w : World}
    (hw : ReachableBy c slots (fun a => baseAction c a = true) host w) :
    ∀ v, ∀ d ∈ (w.vcpus v).tlb, Fresh c slots w d.gfn d.pfn :=
  (synced_reachableBy hslots hpte hvma hthp hw).tlb hg

end Fresh

theorem Memslot.sample_inSpan (guestid : Bool) :
    ∀ s ∈ [Memslot.sample], SlotInSpan (Config.mips16k guestid) s := fun s hs => by
  simp only [List.mem_singleton] at hs; subst hs; unfold SlotInSpan; cases guestid <;> decide

/-- vCPU 0 faults on guest frame 0 of the sample and vCPU 1 derives the frame's mapping; inside an
invalidation the host then moves the frame's host page to frame 2000, and vCPU 0 faults on the frame
again and vCPU 1 derives it again. -/
def remapRun : List Action :=
  faultRun 0 false ++ [.refill 1 0, .invalidateStart (2 ^ 20) (2 ^ 20 + 2 ^ 14),
    .hostChange 64 ⟨2000, true, true, false, true, false, 0⟩ (some (2 ^ 14)),
    .invalidateEnd (2 ^ 20) (2 ^ 20 + 2 ^ 14)] ++ faultRun 0 false ++ [.refill 1 0]

theorem hostBacked_base_runs_sample :
    ∃ w, run (Config.mips16k false) [Memslot.sample] (World.init Host.sample) remapRun = some w ∧
      (∀ i j, (w.vm.pgd.slot i j).isVal = false) ∧
      HostBacked (Config.mips16k false) [Memslot.sample] w := by
  obtain ⟨w, hr⟩ : ∃ w, run (Config.mips16k false) [Memslot.sample] (World.init Host.sample)
      remapRun = some w := ⟨_, rfl⟩
  exact ⟨w, hr, hostBacked_base_runs (Memslot.sample_inSpan false) (by decide)
    (fun _ h => absurd (Option.some.inj h) (by decide)) (fun _ => rfl)
    (run_reachableBy _ _ (by decide) .init hr)⟩

theorem derived_mappings_fresh_sample :
    ∃ w, run (Config.mips16k true) [Memslot.sample] (World.init Host.sample) remapRun = some w ∧
      (w.vcpus 1).tlb = [⟨0, 2000, true, false⟩] ∧
      ∀ v, ∀ d ∈ (w.vcpus v).tlb, Fresh (Config.mips16k true) [Memslot.sample] w d.gfn d.pfn := by
  obtain ⟨w, hr⟩ : ∃ w, run (Config.mips16k true) [Memslot.sample] (World.init Host.sample)
      remapRun = some w := ⟨_, rfl⟩
  refine ⟨w, hr, ?_, derived_mappings_fresh (Memslot.sample_inSpan true) (by decide)
    (fun _ h => absurd (Option.some.inj h) (by decide)) (fun _ => rfl) rfl
    (run_reachableBy _ _ (by decide) .init hr)⟩
  obtain rfl := Option.some_inj.mp hr
  rfl

end LoongsonDune.Proof
