import LoongsonDune.Proof.Handler

/-!
# Entries carry the rights the host gives

A guest writes a frame without a fault only through a present writable GPA entry or a writable
derived mapping, so the write bit is what keeps a read-only slot and a read-only host page
read-only. In a base-page run every present entry of a frame of the table's span maps the host
frame, with the write bit, that `gfn_to_pfn_prot` resolves for the frame now; so the frame is in a
slot. `kvm_mips_map_page` installs the frame and `writeable` of `gfn_to_pfn_prot`, and the commit
passes `mmu_notifier_retry` only while that answer is current (`NotifierInv`). No other piece of a
base-page run sets a frame or a write bit: the fast path and the range operations change the young
and dirty bits, and the flush and the unmap clear entries. The host changes a page only under an
invalidation, and no present entry's page is under one (`Synced`). With GuestIDs every derived
mapping is copied from a present entry and flushed as an invalidation begins, so it keeps the same
rights.

So no write that does not fault reaches read-only memory, the table maps only memslot memory, and
the fast path answers a fault as the slow path would. `kvm_set_spte_hva` is left out: it stores the
host's pte with its write bit whatever the slot says (`setSpte_writable_in_readonly_slot`).
-/

namespace LoongsonDune

/-- The host frame and write bit a present entry `e` gives leaf index `k` below it. -/
def Pte.protAt (e : Pte) (k : Nat) : Option (Nat × Bool) := (e.mapAt k).map (·, e.write)

@[simp] theorem Pte.protAt_zero (k : Nat) : Pte.zero.protAt k = none := rfl

theorem Pte.protAt_eq_some (c : Config) {e : Pte} {g x : Nat} {b : Bool} :
    e.protAt (c.pteIdx g) = some (x, b) ↔
      e.present = true ∧ e.frameOf c g = x ∧ e.write = b := by
  simp only [Pte.protAt, Option.map_eq_some', Prod.mk.injEq, Pte.mapAt_eq_some]
  constructor
  · rintro ⟨_, ⟨hp, rfl⟩, rfl, hb⟩; exact ⟨hp, rfl, hb⟩
  · rintro ⟨hp, rfl, hb⟩; exact ⟨_, ⟨hp, rfl⟩, rfl, hb⟩

end LoongsonDune

namespace LoongsonDune.Proof

open LoongsonDune Function

variable (c : Config) (slots : List Memslot)

/-- Guest frame `g`, if it is in the table's span, is one that `gfn_to_pfn_prot` now resolves for
a read, to host frame `x` with `writeable` equal to `b`; so it is a frame of a slot. -/
def Resolves (host : Host) (g x : Nat) (b : Bool) : Prop :=
  g < c.spanFrames → gfnToPfnProt c slots host g false = some (x, b)

/-- The rights invariant of base-page runs. -/
structure Rights (w : World) : Prop where
  /-- Every present entry gives each frame of the span it governs the host frame and write right
  that the host gives the frame now. -/
  table : ∀ g e, w.vm.pgd.entry c g = some e → e.present = true →
    Resolves c slots w.host g (e.frameOf c g) e.write
  /-- With GuestIDs, so does every derived mapping. -/
  tlb : c.cpuHasGuestid = true → ∀ v, ∀ d ∈ (w.vcpus v).tlb,
    Resolves c slots w.host d.gfn d.pfn d.write

/-! ## What `gfn_to_pfn_prot` resolves -/

section Frames
variable {c slots} {host : Host} {g x : Nat}

/-- What `gfn_to_pfn_prot` resolves for a write it resolves alike for a read. -/
theorem gfnToPfnProt_read {wf : Bool} {r : Nat × Bool}
    (h : gfnToPfnProt c slots host g wf = some r) : gfnToPfnProt c slots host g false = some r := by
  unfold gfnToPfnProt at h ⊢
  split at h
  · cases h
  · dsimp only at h ⊢
    split at h
    · cases h
    · rw [if_neg (by simp_all)]; exact h

/-- A frame resolved writeable for a read is resolved alike for a write. -/
theorem gfnToPfnProt_write (h : gfnToPfnProt c slots host g false = some (x, true)) :
    gfnToPfnProt c slots host g true = some (x, true) := by
  unfold gfnToPfnProt at h ⊢
  split at h
  · cases h
  · dsimp only at h ⊢
    split at h
    · cases h
    · obtain ⟨-, h⟩ := Prod.mk.inj (Option.some.inj h)
      rw [if_neg (by simp_all)]
      simp_all

/-- A frame `gfn_to_pfn_prot` resolves as writeable is in a slot without `KVM_MEM_READONLY`, over a
writable host page. -/
theorem gfnToPfnProt_writeOk {s : Memslot} {wf : Bool} (hs : gfnToMemslot slots g = some s)
    (h : gfnToPfnProt c slots host g wf = some (x, true)) :
    s.readonly = false ∧ (host.pte (slotPage c s g)).write = true := by
  simp only [gfnToPfnProt, hs] at h
  split at h
  · cases h
  · obtain ⟨-, h⟩ := Prod.mk.inj (Option.some.inj h)
    simp only [Bool.and_eq_true, Bool.not_eq_true'] at h
    exact ⟨h.2, h.1⟩

/-- `gfn_to_pfn_prot` reads only the host page behind the frame. -/
theorem gfnToPfnProt_congr {host' : Host} {s : Memslot} (hs : gfnToMemslot slots g = some s)
    (hh : host'.pte (slotPage c s g) = host.pte (slotPage c s g)) (wf : Bool) :
    gfnToPfnProt c slots host' g wf = gfnToPfnProt c slots host g wf := by
  unfold slotPage at hh
  simp only [gfnToPfnProt, hs, hh]

/-- A frame's resolution survives host changes away from its host page. -/
theorem Resolves.of_host {host' : Host} {b : Bool} (h : Resolves c slots host g x b)
    (hh : ∀ s, gfnToMemslot slots g = some s →
      host'.pte (slotPage c s g) = host.pte (slotPage c s g)) : Resolves c slots host' g x b :=
  fun hg => by
    obtain ⟨s, hs, -⟩ := gfnToPfnProt_fresh (h hg)
    rw [gfnToPfnProt_congr hs (hh s hs)]
    exact h hg

end Frames

/-! ## The rights view -/

section View
variable {c} {pgd pgd' : Pgd}

/-- An operation that keeps every translation and the write bit shows nothing new in the rights
view. -/
theorem opShrinks_protAt {op : Pte → Pte} (h : ∀ e, SameMap e (op e) ∧ (op e).write = e.write) :
    OpShrinks Pte.protAt op := fun e =>
  ⟨(h e).1.2.1, fun k x hx => by rwa [Pte.protAt, (h e).1.mapAt, (h e).2] at hx⟩

/-- A present entry, in a table that shrinks in the rights view, was a present entry with the same
frame and write bit before. -/
theorem Shrinks.protEntry (c : Config) (h : Shrinks Pte.protAt pgd pgd') {g : Nat} {e' : Pte}
    (he : pgd'.entry c g = some e') (hp : e'.present = true) :
    ∃ e, pgd.entry c g = some e ∧ e.present = true ∧ e.frameOf c g = e'.frameOf c g ∧
      e.write = e'.write := by
  obtain ⟨e, he0, hv⟩ := h.entryView c he ((Pte.protAt_eq_some c).mpr ⟨hp, rfl, rfl⟩)
  exact ⟨e, he0, (Pte.protAt_eq_some c).mp hv⟩

end View

namespace Rights
variable {c slots} {w : World}

theorem setVcpu (hw : Rights c slots w) {v : Nat} {x : Vcpu}
    (ht : c.cpuHasGuestid = true → ∀ d ∈ x.tlb, Resolves c slots w.host d.gfn d.pfn d.write) :
    Rights c slots (w.setVcpu v x) := by
  refine ⟨hw.table, fun hg u => ?_⟩
  rw [World.setVcpu_vcpus, update_apply]
  split
  · exact ht hg
  · exact hw.tlb hg u

theorem setPc (hw : Rights c slots w) {v : Nat} {f : Fault} {pc : Pc} :
    Rights c slots (w.setPc v f pc) :=
  hw.setVcpu fun hg => hw.tlb hg v

theorem flushRemoteTlbs (hw : Rights c slots w) : Rights c slots w.flushRemoteTlbs :=
  ⟨hw.table, fun _ _ _ h => by cases h⟩

theorem kvmVzFlushShadowAll (hw : Rights c slots w.flushRemoteTlbs) :
    Rights c slots (w.kvmVzFlushShadowAll c) := by
  unfold World.kvmVzFlushShadowAll
  split
  · exact hw
  · exact ⟨hw.table, fun hg => absurd hg ‹_›⟩

/-- A table that shrinks the old one in the rights view, over the same host and derived
mappings. -/
theorem of_shrinks (hw : Rights c slots w) {w' : World}
    (hsh : Shrinks Pte.protAt w.vm.pgd w'.vm.pgd) (hh : w'.host = w.host)
    (hv : w'.vcpus = w.vcpus) : Rights c slots w' :=
  ⟨fun g _ he hp => by
    obtain ⟨e0, he0, hp0, hf0, hw0⟩ := hsh.protEntry c he hp
    rw [hh, ← hf0, ← hw0]
    exact hw.table g e0 he0 hp0, hh ▸ hv ▸ hw.tlb⟩

end Rights

/-! ## Every step of a base-page run -/

section Steps
variable {c slots} {w : World}

/-- A host change to a page under invalidation touches no host page behind a present entry or, with
GuestIDs, behind a derived mapping. -/
theorem rights_hostChange {page : Nat} {pte : Pte} {vma : Option Nat} (hs : Synced c slots w)
    (hw : Rights c slots w) (hp : w.invalidatingPage c page = true) :
    Rights c slots { w with host := { w.host with
      pte := update w.host.pte page pte, vmaPagesize := update w.host.vmaPagesize page vma } } := by
  have hkeep : ∀ {g x}, Fresh c slots w g x → ∀ s, gfnToMemslot slots g = some s →
      update w.host.pte page pte (slotPage c s g) = w.host.pte (slotPage c s g) :=
    fun hfr s hs' => update_noteq (fun he => by
      have h3 := (hfr s hs').2.2
      rw [he, hp] at h3
      cases h3) _ _
  exact ⟨fun g e he hpr => (hw.table g e he hpr).of_host (hkeep (hs.table g e he hpr)),
    fun hg v d hd => (hw.tlb hg v d hd).of_host (hkeep (hs.tlb hg v d hd))⟩

/-- A commit maps the faulting frame to the frame and `writeable` that `gfn_to_pfn_prot`, still
current, resolved; every other frame keeps its entry. -/
theorem rights_commit (hslots : ∀ s ∈ slots, SlotInSpan c s) {v : Nat} {f : Fault} {d : Decision}
    {s pfn fuel cache : Nat} {writeable : Bool} {vm : Vm} {inv : Option Nat}
    (hn : NotifierInv c slots w) (hs : Synced c slots w) (hw : Rights c slots w)
    (hf : (w.vcpus v).fault = some f) (hpc : f.pc = .commit d s pfn writeable)
    (h : mapPageCommit c w.host w.vm (w.vcpus v).cache f.gpa f.writeFault d s pfn writeable fuel =
      some (.done vm cache inv)) :
    Rights c slots { w with vm := vm } := by
  have hd := hs.decisions v f hf d (by rw [hpc]; rfl)
  obtain ⟨hret, -, -, -, heq⟩ := mapPageCommit_base c hs.noVal (hs.thp pfn) hd.1 h
  have hsnap := hn.snap v f hf
  rw [hpc] at hsnap
  have hres := hsnap.2 hret
  rw [hd.2] at hres
  refine ⟨fun g e he hp => ?_, hw.tlb⟩
  rw [heq] at he
  split at he
  · rename_i hidx
    cases he
    intro hg
    obtain ⟨s0, hs0, -⟩ := gfnToPfnProt_fresh hres
    obtain rfl := eq_of_digits hg (lt_span_of_slot hslots hs0) hidx
    exact gfnToPfnProt_read hres
  · obtain ⟨e0, he0, hp0, hf0, hw0⟩ :=
      (linkFresh_shrinks c Pte.protAt_zero w.vm.pgd f.gpa).protEntry c he hp
    rw [← hf0, ← hw0]
    exact hw.table g e0 he0 hp0

/-- **Each step of a fault thread keeps the rights invariant.** Only the commit adds an entry, and its
derived mappings lose entries only. -/
theorem faultStep_rights (hslots : ∀ s ∈ slots, SlotInSpan c s) {w' : World} {v : Nat} {f : Fault}
    {a : Action} (hn : NotifierInv c slots w) (hs : Synced c slots w) (hw : Rights c slots w)
    (hf : (w.vcpus v).fault = some f) (h : faultStep c slots w v f a = some w') :
    Rights c slots w' := by
  cases a with
  | fast =>
    simp only [faultStep] at h
    split at h
    · split at h
      · cases h; exact hw.setPc
      split at h
      · obtain ⟨r, hr, rfl⟩ := Option.map_eq_some'.mp h
        refine Rights.setPc ?_
        refine hw.of_shrinks ?_ rfl rfl
        exact mapPageFast_shrinks (opShrinks_protAt fun e => ⟨sameMap_pteMkyoung e, rfl⟩)
          (opShrinks_protAt fun e => ⟨sameMap_pteMkdirty e, rfl⟩) hr
      · cases h; exact hw.setPc
    · cases h
  | commit =>
    simp only [faultStep] at h
    split at h
    · rename_i d s pfn writeable hpc
      obtain ⟨r, hr, rfl⟩ := Option.map_eq_some'.mp h
      cases r with
      | retry => exact hw.setPc
      | done vm cache inv =>
        have hw' := rights_commit hslots hn hs hw hf hpc hr
        obtain ⟨-, rfl, -⟩ := mapPageCommit_base c hs.noVal (hs.thp pfn)
          (hs.decisions v f hf d (by rw [hpc]; rfl)).1 hr
        refine Rights.setPc ?_
        exact hw'.setVcpu fun hg => hw'.tlb hg v
    · cases h
  | topup =>
    simp only [faultStep] at h
    split at h
    · cases h
      refine Rights.setPc ?_
      exact hw.setVcpu fun hg => hw.tlb hg v
    · cases h
  | finish =>
    simp only [faultStep] at h
    split at h
    · cases h
      refine hw.setVcpu fun hg d hd => hw.tlb hg v d ?_
      dsimp only at hd
      split at hd
      · exact List.mem_of_mem_filter hd
      · exact hd
    · cases h
  | lookup | snapshot | resolve =>
    simp only [faultStep] at h
    split at h
    · cases h; exact hw.setPc
    · cases h
  | _ => simp only [faultStep] at h; cases h

/-- **Every step of a base-page run keeps the rights invariant**, given the notifier and freshness
invariants. -/
theorem step_rights (hslots : ∀ s ∈ slots, SlotInSpan c s) {w' : World} {a : Action}
    (hn : NotifierInv c slots w) (hs : Synced c slots w) (hw : Rights c slots w)
    (ha : baseAction c a = true) (h : step c slots w a = some w') : Rights c slots w' := by
  cases a with
  | fault v =>
    simp only [step] at h
    split at h
    · cases h; exact hw.setVcpu fun hg => hw.tlb hg v
    · cases h
  | refill v gfn =>
    simp only [step] at h
    split at h
    · rename_i e he
      split at h
      · rename_i hp
        cases h
        refine hw.setVcpu fun hg d hd => ?_
        rcases List.mem_cons.mp hd with rfl | hd
        · exact hw.table gfn e he hp
        · exact hw.tlb hg v d hd
      · cases h
    · cases h
  | invalidateStart =>
    obtain ⟨pgd, hu, rfl⟩ := Option.map_eq_some'.mp h
    refine Rights.kvmVzFlushShadowAll (Rights.flushRemoteTlbs (hw.of_shrinks ?_ rfl rfl))
    exact kvmUnmapHvaRange_shrinks Pte.protAt_zero hu
  | hostChange =>
    simp only [step] at h
    split at h
    · cases h; exact rights_hostChange hs hw ‹_›
    · cases h
  | invalidateEnd =>
    simp only [step] at h
    split at h
    · cases h; exact ⟨hw.table, hw.tlb⟩
    · cases h
  | setSpte => cases ha
  | age =>
    obtain ⟨r, hr, rfl⟩ := Option.map_eq_some'.mp h
    have hsh := kvmAgeHva_shrinks (opShrinks_protAt fun e => ⟨sameMap_pteMkold e, rfl⟩)
      (opShrinks_protAt fun e => ⟨sameMap_pmdMkold e, rfl⟩) hr
    split
    · exact Rights.flushRemoteTlbs (hw.of_shrinks hsh rfl rfl)
    · exact hw.of_shrinks hsh rfl rfl
  | testAge => obtain ⟨_, -, rfl⟩ := Option.map_eq_some'.mp h; exact hw
  | harvest =>
    obtain ⟨r, hr, rfl⟩ := Option.map_eq_some'.mp h
    have hsh := rangeOpPgd_shrinks (opShrinks_protAt fun e => ⟨sameMap_pteMkclean e, rfl⟩)
      (opShrinks_protAt fun e => ⟨sameMap_pmdMkclean e, rfl⟩) hr
    split
    · exact Rights.flushRemoteTlbs (hw.of_shrinks hsh rfl rfl)
    · exact hw.of_shrinks hsh rfl rfl
  | flushGpa =>
    obtain ⟨r, hr, rfl⟩ := Option.map_eq_some'.mp h
    exact Rights.flushRemoteTlbs
      (hw.of_shrinks (flushPt_shrinks Pte.protAt_zero hr) rfl rfl)
  | _ =>
    simp only [step, Action.thread] at h
    obtain ⟨f, hf, h⟩ := Option.bind_eq_some.mp h
    exact faultStep_rights hslots hn hs hw hf h

variable (c slots)

theorem rights_reachableBy (hslots : ∀ s ∈ slots, SlotInSpan c s) (hpte : 0 < c.pteBits)
    {host : Host} (hvma : ∀ p, host.vmaPagesize p ≠ some c.pmdSize)
    (hthp : ∀ p, host.thp p = false) {w : World}
    (hw : ReachableBy c slots (fun a => baseAction c a = true) host w) : Rights c slots w := by
  induction hw with
  | init => exact ⟨fun _ _ h => (by cases h), fun _ _ _ h => by cases h⟩
  | step a ha hr hs ih =>
    exact step_rights hslots (notifierInv_reachableBy hr)
      (synced_reachableBy hslots hpte hvma hthp hr) ih ha hs

end Steps

/-- **No writable mapping of read-only memory.** Take a host with no VMA of `PMD_SIZE` pages and
no transparent huge page, and slots inside the table's span whose host ranges start page-aligned
and do not wrap. In every world of a base-page run, every present writable GPA entry of a frame of
a slot belongs to a slot without `KVM_MEM_READONLY` and maps a frame whose host page is writable;
with GuestIDs so does every writable derived mapping any vCPU holds. A guest write that does not
fault never reaches read-only memory. -/
theorem no_writable_readonly_mapping (hslots : ∀ s ∈ slots, SlotInSpan c s) (hpte : 0 < c.pteBits)
    {host : Host} (hvma : ∀ p, host.vmaPagesize p ≠ some c.pmdSize)
    (hthp : ∀ p, host.thp p = false) {w : World}
    (hw : ReachableBy c slots (fun a => baseAction c a = true) host w) :
    (∀ g e s, w.vm.pgd.entry c g = some e → e.present = true → e.write = true →
      gfnToMemslot slots g = some s →
      s.readonly = false ∧ (w.host.pte (slotPage c s g)).write = true) ∧
    (c.cpuHasGuestid = true → ∀ v, ∀ d ∈ (w.vcpus v).tlb, d.write = true →
      ∀ s, gfnToMemslot slots d.gfn = some s →
        s.readonly = false ∧ (w.host.pte (slotPage c s d.gfn)).write = true) := by
  have hr := rights_reachableBy c slots hslots hpte hvma hthp hw
  refine ⟨fun g e s he hp hwr hs => ?_, fun hg v d hd hwr s hs => ?_⟩
  · have h := hr.table g e he hp (lt_span_of_slot hslots hs)
    rw [hwr] at h
    exact gfnToPfnProt_writeOk hs h
  · have h := hr.tlb hg v d hd (lt_span_of_slot hslots hs)
    rw [hwr] at h
    exact gfnToPfnProt_writeOk hs h

/-- The sample slot made read-only. -/
def Memslot.readonlySample : Memslot := ⟨0, 4, 2 ^ 20, true⟩

/-- vCPU 0 writes guest frame 0 of the read-only sample slot (the lookup refuses it, and the fault
returns `-EFAULT` as MMIO) and then reads it; the hardware derives a mapping of the frame for
vCPU 1. -/
def readonlyRun : List Action :=
  [.fault 0 0 true 0, .fast 0, .lookup 0, .finish 0] ++ faultRun 0 false ++ [.refill 1 0]

theorem no_writable_readonly_mapping_sample :
    ∃ w, run (Config.mips16k true) [Memslot.readonlySample] (World.init Host.sample) readonlyRun =
        some w ∧
      (w.vcpus 1).tlb = [⟨0, 1064, false, false⟩] ∧
      (∀ g e s, w.vm.pgd.entry (Config.mips16k true) g = some e → e.present = true →
        e.write = true → gfnToMemslot [Memslot.readonlySample] g = some s →
        s.readonly = false ∧ (w.host.pte (slotPage (Config.mips16k true) s g)).write = true) ∧
      ((Config.mips16k true).cpuHasGuestid = true → ∀ v, ∀ d ∈ (w.vcpus v).tlb, d.write = true →
        ∀ s, gfnToMemslot [Memslot.readonlySample] d.gfn = some s →
          s.readonly = false ∧
            (w.host.pte (slotPage (Config.mips16k true) s d.gfn)).write = true) := by
  obtain ⟨w, hr⟩ : ∃ w, run (Config.mips16k true) [Memslot.readonlySample] (World.init Host.sample)
      readonlyRun = some w := ⟨_, rfl⟩
  refine ⟨w, hr, by obtain rfl := Option.some_inj.mp hr; rfl, no_writable_readonly_mapping _ _
    (fun s hs => by simp only [List.mem_singleton] at hs; subst hs; unfold SlotInSpan; decide)
    (by decide)
    (fun _ h => absurd (Option.some.inj h) (by decide)) (fun _ => rfl)
    (run_reachableBy _ _ (by decide) .init hr)⟩

/-- **The fast path answers exactly the faults the slow path would resolve, and alike.** Under
the hypotheses of `no_writable_readonly_mapping`, in every world of a base-page run, take a fault
on a frame of a slot. `_kvm_mips_map_page_fast` answers it with 0 exactly when the frame's entry is
present and `gfn_to_pfn_prot` resolves the fault now, and then to the entry's frame with the
entry's write bit as `writeable`: the slow path would install the same frame with the same
right. -/
theorem fast_path_matches_slow_path (hslots : ∀ s ∈ slots, SlotInSpan c s) (hpte : 0 < c.pteBits)
    {host : Host} (hvma : ∀ p, host.vmaPagesize p ≠ some c.pmdSize)
    (hthp : ∀ p, host.thp p = false) {w : World}
    (hw : ReachableBy c slots (fun a => baseAction c a = true) host w) {gpa : Nat} {wf : Bool}
    {s : Memslot} (hs : gfnToMemslot slots (gpa / c.pageSize) = some s) :
    (∃ vm', kvmMipsMapPageFast c w.vm gpa wf = some (0, vm')) ↔
      ∃ e, w.vm.pgd.entry c (gpa / c.pageSize) = some e ∧ e.present = true ∧
        gfnToPfnProt c slots w.host (gpa / c.pageSize) wf =
          some (e.frameOf c (gpa / c.pageSize), e.write) := by
  have hnv := (synced_reachableBy hslots hpte hvma hthp hw).noVal
  have hr := rights_reachableBy c slots hslots hpte hvma hthp hw
  constructor
  · rintro ⟨vm', h⟩
    rcases mapPageFast_noVal hnv h with ⟨-, h0, -⟩ | ⟨e, he, hp, h0, -⟩
    · exact absurd h0 (by decide)
    have hres := hr.table _ e he hp (lt_span_of_slot hslots hs)
    refine ⟨e, he, hp, ?_⟩
    cases wf
    · exact hres
    -- a write fault passes the fast path only through a dirty or a writable entry
    have hwr : e.write = true := by
      cases hd : e.dirty
      · cases hwe : e.write
        · rw [hd, hwe] at h0; exact absurd h0 (by decide)
        · rfl
      · have hdo : AllPte DirtyOk w.vm.pgd :=
          allPte_reachable dirtyOk_closed (fun a _ _ ha h => by subst h; cases ha) hw
        exact (entry_ok hdo he hd).2
    rw [hwr] at hres ⊢
    exact gfnToPfnProt_write hres
  · rintro ⟨e, he, hp, hres⟩
    obtain ⟨⟨r, vm'⟩, h⟩ := Option.isSome_iff_exists.mp (mapPageFast_isSome (wf_of_noVal hnv) gpa wf)
    refine ⟨vm', ?_⟩
    rcases mapPageFast_noVal hnv h with ⟨-, -, habs⟩ | ⟨e', he', -, h0, -⟩
    · rw [habs e he] at hp; cases hp
    obtain rfl := Option.some.inj (he.symm.trans he')
    cases wf
    · rw [h0] at h; exact h
    · rw [gfnToPfnProt_writeable hres] at h0
      rw [h0] at h
      simpa using h

/-- After the remap of `remapRun`, vCPU 0 writes guest frame 0 again: the fast path answers 0
through the entry to host frame 2000, which `gfn_to_pfn_prot` resolves writeable. -/
theorem fast_path_matches_slow_path_sample :
    ∃ w vm', run (Config.mips16k false) [Memslot.sample] (World.init Host.sample) remapRun =
        some w ∧ kvmMipsMapPageFast (Config.mips16k false) w.vm 0 true = some (0, vm') ∧
      ∃ e, w.vm.pgd.entry (Config.mips16k false) 0 = some e ∧ e.present = true ∧
        gfnToPfnProt (Config.mips16k false) [Memslot.sample] w.host 0 true =
          some (e.frameOf (Config.mips16k false) 0, e.write) := by
  obtain ⟨w, hr⟩ : ∃ w, run (Config.mips16k false) [Memslot.sample] (World.init Host.sample)
      remapRun = some w := ⟨_, rfl⟩
  obtain ⟨vm', hf⟩ : ∃ vm', kvmMipsMapPageFast (Config.mips16k false) w.vm 0 true = some (0, vm') := by
    obtain rfl := Option.some_inj.mp hr; exact ⟨_, rfl⟩
  have hx : (∃ vm', kvmMipsMapPageFast (Config.mips16k false) w.vm 0 true = some (0, vm')) ↔ _ :=
    fast_path_matches_slow_path _ _ (Memslot.sample_inSpan false) (by decide)
      (fun _ h => absurd (Option.some.inj h) (by decide)) (fun _ => rfl)
      (run_reachableBy _ _ (by decide) .init hr) (by rfl)
  exact ⟨w, vm', hr, hf, hx.mp ⟨vm', hf⟩⟩

/-- **The table maps only frames of memslots, and MMIO faults never pass the fast path.** Under
the hypotheses of `no_writable_readonly_mapping`, in every world of a base-page run, no present
entry governs a frame of the table's span that lies in no memslot. On such a frame
`_kvm_mips_map_page_fast` answers `-EFAULT` and changes nothing, so every guest access to it goes on
to the slow path, whose memslot lookup fails and hands the fault to MMIO emulation. -/
theorem table_maps_only_memslots (hslots : ∀ s ∈ slots, SlotInSpan c s) (hpte : 0 < c.pteBits)
    {host : Host} (hvma : ∀ p, host.vmaPagesize p ≠ some c.pmdSize)
    (hthp : ∀ p, host.thp p = false) {w : World}
    (hw : ReachableBy c slots (fun a => baseAction c a = true) host w) :
    (∀ g e, g < c.spanFrames → w.vm.pgd.entry c g = some e → e.present = true →
      (gfnToMemslot slots g).isSome) ∧
    ∀ gpa wf r vm', gpa / c.pageSize < c.spanFrames →
      gfnToMemslot slots (gpa / c.pageSize) = none →
      kvmMipsMapPageFast c w.vm gpa wf = some (r, vm') → r = -EFAULT ∧ vm' = w.vm := by
  have hr := rights_reachableBy c slots hslots hpte hvma hthp hw
  have hin : ∀ g e, g < c.spanFrames → w.vm.pgd.entry c g = some e → e.present = true →
      (gfnToMemslot slots g).isSome := fun g e hg he hp => by
    obtain ⟨s, hs, -⟩ := gfnToPfnProt_fresh (hr.table g e he hp hg)
    rw [hs]; rfl
  refine ⟨hin, fun gpa wf r vm' hg hn h => ?_⟩
  rcases mapPageFast_noVal (synced_reachableBy hslots hpte hvma hthp hw).noVal h with
    ⟨rfl, rfl, -⟩ | ⟨e, he, hp, -⟩
  · exact ⟨rfl, rfl⟩
  · have hs := hin _ e hg he hp
    rw [hn] at hs
    cases hs

/-- vCPU 0 of the sample maps guest frame 0, and frame 4, just past the slot, is MMIO: the fast
path refuses it. -/
theorem table_maps_only_memslots_sample :
    ∃ w, run (Config.mips16k false) [Memslot.sample] (World.init Host.sample) (faultRun 0 true) =
        some w ∧ kvmMipsMapPageFast (Config.mips16k false) w.vm (4 * 2 ^ 14) true =
          some (-EFAULT, w.vm) ∧
      (∀ g e, g < (Config.mips16k false).spanFrames →
        w.vm.pgd.entry (Config.mips16k false) g = some e → e.present = true →
        (gfnToMemslot [Memslot.sample] g).isSome) ∧
      ∀ gpa wf r vm', gpa / (Config.mips16k false).pageSize < (Config.mips16k false).spanFrames →
        gfnToMemslot [Memslot.sample] (gpa / (Config.mips16k false).pageSize) = none →
        kvmMipsMapPageFast (Config.mips16k false) w.vm gpa wf = some (r, vm') →
        r = -EFAULT ∧ vm' = w.vm := by
  obtain ⟨w, hr⟩ : ∃ w, run (Config.mips16k false) [Memslot.sample] (World.init Host.sample)
      (faultRun 0 true) = some w := ⟨_, rfl⟩
  refine ⟨w, hr, by obtain rfl := Option.some_inj.mp hr; rfl, table_maps_only_memslots _ _
    (Memslot.sample_inSpan false) (by decide) (fun _ h => absurd (Option.some.inj h) (by decide))
    (fun _ => rfl) (run_reachableBy _ _ (by decide) .init hr)⟩

end LoongsonDune.Proof
