import LoongsonDune.Proof.DirtyLog
import LoongsonDune.Proof.Dirty
import LoongsonDune.Proof.FaultPath

/-!
# What the fault handler returns

`kvm_mips_handle_vz_root_tlb_fault` runs `kvm_mips_map_page` as a thread of pieces, and two
questions about it are about whole runs.

Does it return? Its one loop is `goto retry`, taken when `mmu_notifier_retry` finds an invalidation
since the snapshot. Run alone with no invalidation in progress, the thread takes that jump at most
once (only a snapshot taken before an earlier invalidation ended fails), and on a base-page run no
piece gets stuck: the table has no entry value, so the walks return, and the pool holds the
reservation at the commit. `Pc.rank` counts the steps left. Nor does anything else that runs
meanwhile hold the thread back: other vCPUs' faults, refills, ageing, harvests and flushes leave
its position and the sequence number alone, and only an invalidation makes the commit retry.

What does success mean? `kvm_mips_map_page` documents that 0 lets the caller resume the guest: the
faulting frame is mapped, and after a write fault mapped writable and dirty with the frame in the
dirty log, so the guest's write is logged. That holds on logged base-page runs for every exception
but `TLBRI` and `TLBXI`; those skip the fast path and return its error of 0 when the lookup fails.
-/

namespace LoongsonDune

/-- The action that runs vCPU `v`'s fault thread at position `pc`, when the host hands the top-up
`avail` pages, `gfn_to_pfn_prot` succeeds when `ok`, and `kvm_mips_set_pmd_huge` gets `fuel`
passes. -/
def Pc.action (v avail : Nat) (ok : Bool) (fuel : Nat) : Pc → Action
  | .fast => .fast v
  | .lookup _ => .lookup v
  | .topup _ => .topup v avail
  | .snapshot _ => .snapshot v
  | .resolve _ _ => .resolve v ok
  | .commit _ _ _ _ => .commit v fuel
  | .ret _ => .finish v

/-- The most steps a thread at `pc` takes alone to return, with no invalidation in progress and
the sequence number at `seq`: a snapshot other than `seq` costs one more pass from `retry:`. -/
def Pc.rank (seq : Nat) : Pc → Nat
  | .fast => 7
  | .lookup _ => 6
  | .topup _ => 5
  | .snapshot _ => 4
  | .resolve _ s => if s = seq then 3 else 6
  | .commit _ s _ _ => if s = seq then 2 else 5
  | .ret _ => 1

theorem Pc.rank_pos (seq : Nat) (pc : Pc) : 0 < pc.rank seq := by
  cases pc <;> simp only [Pc.rank] <;> (try split_ifs) <;> omega

theorem Pc.rank_le (seq : Nat) (pc : Pc) : pc.rank seq ≤ 7 := by
  cases pc <;> simp only [Pc.rank] <;> (try split_ifs) <;> omega

theorem Pc.action_thread (v avail : Nat) (ok : Bool) (fuel : Nat) (pc : Pc) :
    (pc.action v avail ok fuel).thread = some v := by
  cases pc <;> rfl

/-- Whether action `a` leaves vCPU `v`'s fault to its own thread: it starts no invalidation and
takes no new fault on `v`. -/
def Action.spares (v : Nat) : Action → Bool
  | .invalidateStart _ _ => false
  | .fault u _ _ _ => u != v
  | _ => true

end LoongsonDune

namespace LoongsonDune.Proof

open LoongsonDune Function

variable (c : Config) (slots : List Memslot)

/-- vCPU `v`'s fault thread run alone for at most `n` steps, each the action of its position; it
stops once the fault has returned to the guest. -/
def solo (v avail : Nat) (ok : Bool) (fuel : Nat) : Nat → World → Option World
  | 0, w => some w
  | n + 1, w => match (w.vcpus v).fault with
    | none => some w
    | some f => (step c slots w (f.pc.action v avail ok fuel)).bind (solo v avail ok fuel n)

/-- The steps vCPU `v` takes alone to return: none without a fault in flight. -/
def soloRank (w : World) (v : Nat) : Nat :=
  match (w.vcpus v).fault with
  | none => 0
  | some f => f.pc.rank w.vm.mmuNotifierSeq

/-- The fast path's error that a fault thread carries into the lookup is 0 only when the fast path
was skipped on a `TLBRI` or `TLBXI` exception. -/
def LookupOk (w : World) : Prop :=
  ∀ v f, (w.vcpus v).fault = some f → f.pc = .lookup 0 →
    excCode f.cause = EXCCODE_TLBRI ∨ excCode f.cause = EXCCODE_TLBXI

/-! ## The pieces of the thread -/

section Pieces
variable {c slots}

@[simp] theorem setPc_fault_self (w : World) (v : Nat) (f : Fault) (pc : Pc) :
    ((w.setPc v f pc).vcpus v).fault = some { f with pc := pc } := by
  simp [World.setPc, World.setVcpu]

theorem soloRank_setPc (w : World) (v : Nat) (f : Fault) (pc : Pc) :
    soloRank (w.setPc v f pc) v = pc.rank w.vm.mmuNotifierSeq := by
  simp [soloRank]

theorem step_of_thread {w : World} {a : Action} {v : Nat} (ha : a.thread = some v) :
    step c slots w a = (w.vcpus v).fault.bind fun f => faultStep c slots w v f a := by
  cases a <;> simp only [Action.thread, Option.some.injEq, reduceCtorEq] at ha <;> subst ha <;> rfl

theorem logAction_of_thread {a : Action} {v : Nat} (ha : a.thread = some v) :
    logAction c a = true := by
  cases a <;> simp_all [Action.thread, logAction, baseAction]

/-- A step of vCPU `u`'s fault thread leaves every other vCPU, the notifier's counters and the
invalidations in progress as they were. -/
theorem faultStep_frame {w w' : World} {u : Nat} {f : Fault} {a : Action}
    (h : faultStep c slots w u f a = some w') :
    (∀ x, x ≠ u → w'.vcpus x = w.vcpus x) ∧ w'.vm.mmuNotifierSeq = w.vm.mmuNotifierSeq ∧
      w'.vm.mmuNotifierCount = w.vm.mmuNotifierCount ∧ w'.invalidating = w.invalidating := by
  have hpc : ∀ {w : World} {pc : Pc} x, x ≠ u → (w.setPc u f pc).vcpus x = w.vcpus x :=
    fun x hx => update_noteq hx _ _
  cases a with
  | fast =>
    simp only [faultStep] at h
    split at h
    · split at h
      · cases h; exact ⟨fun x hx => hpc x hx, rfl, rfl, rfl⟩
      split at h
      · obtain ⟨r, hr, rfl⟩ := Option.map_eq_some'.mp h
        obtain ⟨hs, hc, -⟩ := mapPageFast_vm hr
        exact ⟨fun x hx => hpc x hx, hs, hc, rfl⟩
      · cases h; exact ⟨fun x hx => hpc x hx, rfl, rfl, rfl⟩
    · cases h
  | commit =>
    simp only [faultStep] at h
    split at h
    · obtain ⟨r, hr, rfl⟩ := Option.map_eq_some'.mp h
      cases r with
      | retry => exact ⟨fun x hx => hpc x hx, rfl, rfl, rfl⟩
      | done vm cache inv =>
        obtain ⟨hs, hc, -⟩ := mapPageCommit_vm hr
        exact ⟨fun x hx => (hpc x hx).trans (update_noteq hx _ _), hs, hc, rfl⟩
    · cases h
  | topup =>
    simp only [faultStep] at h
    split at h
    · cases h; exact ⟨fun x hx => (hpc x hx).trans (update_noteq hx _ _), rfl, rfl, rfl⟩
    · cases h
  | finish =>
    simp only [faultStep] at h
    split at h
    · cases h; exact ⟨fun x hx => update_noteq hx _ _, rfl, rfl, rfl⟩
    · cases h
  | lookup | snapshot | resolve =>
    simp only [faultStep] at h
    split at h
    · cases h; exact ⟨fun x hx => hpc x hx, rfl, rfl, rfl⟩
    · cases h
  | _ => simp only [faultStep] at h; cases h

/-- A step of vCPU `v`'s own thread is the action of its position. -/
theorem faultStep_action {w w' : World} {v : Nat} {f : Fault} {a : Action}
    (ha : a.thread = some v) (h : faultStep c slots w v f a = some w') :
    ∃ avail ok fuel, a = f.pc.action v avail ok fuel := by
  cases a with
  | fast u | lookup u | snapshot u | finish u =>
    obtain rfl : u = v := Option.some.inj ha
    simp only [faultStep] at h
    split at h
    · rename_i hpc; exact ⟨0, true, 0, by rw [hpc]; rfl⟩
    · cases h
  | topup u avail =>
    obtain rfl : u = v := Option.some.inj ha
    simp only [faultStep] at h
    split at h
    · rename_i hpc; exact ⟨avail, true, 0, by rw [hpc]; rfl⟩
    · cases h
  | resolve u ok =>
    obtain rfl : u = v := Option.some.inj ha
    simp only [faultStep] at h
    split at h
    · rename_i hpc; exact ⟨0, ok, 0, by rw [hpc]; rfl⟩
    · cases h
  | commit u fuel =>
    obtain rfl : u = v := Option.some.inj ha
    simp only [faultStep] at h
    split at h
    · rename_i hpc; exact ⟨0, true, fuel, by rw [hpc]; rfl⟩
    · cases h
  | _ => cases ha

/-- On a well-formed table the fast path returns. -/
theorem mapPageFast_isSome {vm : Vm} (hwf : vm.pgd.Wf) (gpa : Nat) (wf : Bool) :
    (kvmMipsMapPageFast c vm gpa wf).isSome := by
  obtain ⟨p, hw, hcase⟩ := pteForGpa_none_wf (c := c) hwf gpa
  rcases hcase with ⟨rfl, -⟩ | ⟨ptep, e, rfl, hread, -⟩
  · simp only [kvmMipsMapPageFast, hw, Option.some_bind]; rfl
  cases hp : e.present
  · simp only [kvmMipsMapPageFast, hw, Option.some_bind, hread, hp, Bool.not_false, ↓reduceIte]
    rfl
  · obtain ⟨_, -, h⟩ := mapPageFast_present wf hw hread hp
    rw [h]; rfl

/-- On a well-formed table and with the reservation, a base-page commit returns, for every fuel. -/
theorem mapPageCommit_isSome_base {host : Host} {vm : Vm} {cache : Nat} (hwf : vm.pgd.Wf)
    (hc : KVM_MMU_CACHE_MIN_PAGES ≤ cache) {d : Decision} {pfn : Nat} (hthp : host.thp pfn = false)
    (hsize : d.vmaPagesize ≠ c.pmdSize) (gpa : Nat) (wf : Bool) (s : Nat) (writeable : Bool)
    (fuel : Nat) : (mapPageCommit c host vm cache gpa wf d s pfn writeable fuel).isSome := by
  unfold mapPageCommit
  split
  · rfl
  rw [mapPageAdjust_eq c (.inr hthp)]
  obtain ⟨p, pgd', n, hw, hs, -⟩ := pteForGpa_alloc (c := c) hwf hc gpa
  obtain ⟨pgd'', hp⟩ := Option.isSome_iff_exists.mp (hs (pfnPte pfn (mapPageProt c writeable wf)))
  simp [mapPageInstall, hsize, hw, hp]

/-- The commit goes back to `retry:` only when `mmu_notifier_retry` says so. -/
theorem mapPageCommit_retry {host : Host} {vm : Vm} {cache gpa : Nat} {wf : Bool} {d : Decision}
    {s pfn : Nat} {writeable : Bool} {fuel : Nat}
    (h : mapPageCommit c host vm cache gpa wf d s pfn writeable fuel = some .retry) :
    mmuNotifierRetry vm s = true := by
  unfold mapPageCommit at h
  split at h
  · assumption
  generalize mapPageAdjust c host d pfn gpa = r at h
  obtain ⟨size, pfn', gpa'⟩ := r
  unfold mapPageInstall at h
  dsimp only at h
  split at h
  · obtain ⟨_, -, h⟩ := Option.map_eq_some'.mp h
    cases h
  · obtain ⟨w, -, h⟩ := Option.bind_eq_some.mp h
    split at h
    · obtain ⟨_, -, h⟩ := Option.map_eq_some'.mp h
      cases h
    · cases h

/-- The lookup fails with the fast path's error or with `-EFAULT`. -/
theorem mapPageLookup_error {host : Host} {gpa : Nat} {wf : Bool} {err e : Int}
    (h : mapPageLookup c slots host gpa wf err = .error e) : e = err ∨ e = -EFAULT := by
  unfold mapPageLookup at h
  dsimp only at h
  split at h
  · split at h
    · cases h; exact .inl rfl
    · split at h
      · cases h; exact .inr rfl
      · cases h
  · cases h; exact .inl rfl

/-- A frame resolved for a write is writable. -/
theorem gfnToPfnProt_writeable {host : Host} {g pfn : Nat} {writeable : Bool}
    (h : gfnToPfnProt c slots host g true = some (pfn, writeable)) : writeable = true := by
  unfold gfnToPfnProt at h
  split at h
  · cases h
  · dsimp only at h
    split at h
    · cases h
    · cases h; simp_all

end Pieces

/-! ## Run alone, the thread returns -/

section Alone
variable {c slots} {w : World} {v : Nat} {f : Fault}

/-- **Each step of a thread run alone lowers its rank**, and keeps the count of invalidations in
progress at zero. -/
theorem solo_step (hs : Synced c slots w) (hp : PoolInv c w) (hcount : w.vm.mmuNotifierCount = 0)
    (hf : (w.vcpus v).fault = some f) (avail : Nat) (ok : Bool) (fuel : Nat) :
    ∃ w', faultStep c slots w v f (f.pc.action v avail ok fuel) = some w' ∧
      w'.vm.mmuNotifierCount = 0 ∧ soloRank w' v < f.pc.rank w.vm.mmuNotifierSeq := by
  rcases hpc : f.pc with _ | err | d | d | ⟨d, s⟩ | ⟨d, s, pfn, writeable⟩ | err <;>
    simp only [Pc.action, faultStep, hpc]
  · -- the visibility test and the fast path
    split
    · exact ⟨_, rfl, hcount, by simp [soloRank_setPc, Pc.rank]⟩
    split
    · obtain ⟨⟨r, vm'⟩, hr⟩ := Option.isSome_iff_exists.mp
        (mapPageFast_isSome (c := c) (wf_of_noVal hs.noVal) f.gpa f.writeFault)
      refine ⟨_, by rw [hr, Option.map_some'], (mapPageFast_vm hr).2.1.trans hcount, ?_⟩
      rw [soloRank_setPc]
      split <;> simp [Pc.rank]
    · exact ⟨_, rfl, hcount, by simp [soloRank_setPc, Pc.rank]⟩
  · refine ⟨_, rfl, hcount, ?_⟩
    rw [soloRank_setPc]
    split <;> simp [Pc.rank]
  · refine ⟨_, rfl, hcount, ?_⟩
    rw [soloRank_setPc]
    split <;> simp [Pc.rank]
  · exact ⟨_, rfl, hcount, by simp [soloRank_setPc, Pc.rank]⟩
  · refine ⟨_, rfl, hcount, ?_⟩
    rw [soloRank_setPc]
    split <;> simp only [Pc.rank] <;> split_ifs <;> omega
  · -- the commit: it returns, and retries only on a snapshot the count of zero makes stale
    have hd := hs.decisions v f hf d (by rw [hpc]; rfl)
    have hres := (hp v).reserved f hf (by rw [hpc]; rfl)
    obtain ⟨r, hr⟩ := Option.isSome_iff_exists.mp (mapPageCommit_isSome_base
      (wf_of_noVal hs.noVal) hres (hs.thp pfn) hd.1 f.gpa f.writeFault s writeable fuel)
    rw [hr, Option.map_some']
    cases r with
    | retry =>
      have hne : w.vm.mmuNotifierSeq ≠ s := by
        simpa [mmuNotifierRetry, hcount] using mapPageCommit_retry hr
      exact ⟨_, rfl, hcount, by simp [soloRank_setPc, Pc.rank, Ne.symm hne]⟩
    | done vm cache inv =>
      refine ⟨_, rfl, (mapPageCommit_vm hr).2.1.trans hcount, ?_⟩
      rw [soloRank_setPc]
      simp only [Pc.rank]
      split_ifs <;> omega
  · exact ⟨_, rfl, hcount, by simp [soloRank, World.setVcpu, Pc.rank]⟩

variable (c slots)

theorem solo_returns (hslots : ∀ s ∈ slots, SlotInSpan c s) (hpte : 0 < c.pteBits) {host : Host}
    (hvma : ∀ p, host.vmaPagesize p ≠ some c.pmdSize) (hthp : ∀ p, host.thp p = false)
    (v avail : Nat) (ok : Bool) (fuel : Nat) :
    ∀ n {w : World}, ReachableBy c slots (fun a => baseAction c a = true) host w →
      w.vm.mmuNotifierCount = 0 → soloRank w v ≤ n →
      ∃ w', solo c slots v avail ok fuel n w = some w' ∧ (w'.vcpus v).fault = none
  | 0, w, _, _, hr => by
    cases hf : (w.vcpus v).fault with
    | none => exact ⟨w, rfl, hf⟩
    | some f =>
      simp only [soloRank, hf] at hr
      exact absurd hr (Nat.not_le.mpr (f.pc.rank_pos _))
  | n + 1, w, hw, hc, hr => by
    cases hf : (w.vcpus v).fault with
    | none => exact ⟨w, by simp [solo, hf], hf⟩
    | some f =>
      obtain ⟨w', h, hc', hlt⟩ := solo_step (synced_reachableBy hslots hpte hvma hthp hw)
        (poolInv_reachable (reachableBy_mono (fun _ _ => trivial) hw)) hc hf avail ok fuel
      have hstep : step c slots w (f.pc.action v avail ok fuel) = some w' := by
        rw [step_of_thread (f.pc.action_thread v avail ok fuel), hf, Option.some_bind, h]
      have hb : baseAction c (f.pc.action v avail ok fuel) = true := by cases f.pc <;> rfl
      simp only [soloRank, hf] at hr
      obtain ⟨w'', h', hn⟩ := solo_returns hslots hpte hvma hthp v avail ok fuel n
        (.step _ hb hw hstep) hc' (by omega)
      exact ⟨w'', by simp [solo, hf, hstep, h'], hn⟩

/-- **A fault run alone returns.** Take a host with no VMA of `PMD_SIZE` pages and no transparent
huge page, and slots inside the table's span whose host ranges start page-aligned and do not
wrap. In every world of a base-page run with no invalidation in progress, a vCPU's fault thread run
alone returns to the guest within seven steps, whatever the host answers: the pages the top-up
gets, whether `gfn_to_pfn_prot` succeeds, and the passes `kvm_mips_set_pmd_huge` may take. No
piece gets stuck, and `goto retry` is taken at most once. -/
theorem fault_returns_alone (hslots : ∀ s ∈ slots, SlotInSpan c s) (hpte : 0 < c.pteBits)
    {host : Host} (hvma : ∀ p, host.vmaPagesize p ≠ some c.pmdSize)
    (hthp : ∀ p, host.thp p = false) {w : World}
    (hw : ReachableBy c slots (fun a => baseAction c a = true) host w)
    (hidle : w.invalidating = []) (v avail : Nat) (ok : Bool) (fuel : Nat) :
    ∃ w', solo c slots v avail ok fuel 7 w = some w' ∧ (w'.vcpus v).fault = none := by
  refine solo_returns c slots hslots hpte hvma hthp v avail ok fuel 7 hw ?_ ?_
  · rw [(notifierInv_reachableBy hw).count, hidle]; rfl
  · unfold soloRank
    split
    · exact Nat.zero_le _
    · exact Pc.rank_le _ _

end Alone

/-- vCPU 0 of the sample, in the middle of a read fault on guest frame 0 (its snapshot taken),
returns alone when the host answers. -/
theorem fault_returns_alone_sample :
    ∃ w, run (Config.mips16k false) [Memslot.sample] (World.init Host.sample)
        ((faultRun 0 false).take 5) = some w ∧ w.invalidating = [] ∧ (w.vcpus 0).fault.isSome ∧
      ∃ w', solo (Config.mips16k false) [Memslot.sample] 0 40 true 1 7 w = some w' ∧
        (w'.vcpus 0).fault = none := by
  obtain ⟨w, hr⟩ : ∃ w, run (Config.mips16k false) [Memslot.sample] (World.init Host.sample)
      ((faultRun 0 false).take 5) = some w := ⟨_, rfl⟩
  have hidle : w.invalidating = [] := by obtain rfl := Option.some_inj.mp hr; rfl
  refine ⟨w, hr, hidle, by obtain rfl := Option.some_inj.mp hr; rfl, fault_returns_alone _ _
    (Memslot.sample_inSpan false) (by decide) (fun _ h => absurd (Option.some.inj h) (by decide))
    (fun _ => rfl) (run_reachableBy _ _ (by decide) .init hr) hidle 0 40 true 1⟩

/-! ## Other steps never hold a thread back -/

section Interleaved
variable {c slots} {w : World} {v : Nat}

/-- With no invalidation in progress, a step that spares `v` and is not of `v`'s thread leaves
`v`'s fault, the sequence number and the idle notifier as they were: a host change or
`kvm_set_spte_hva` needs an invalidation, and every other step touches another vCPU, the table or
the derived mappings. -/
theorem step_other {w' : World} {a : Action} (hidle : w.invalidating = [])
    (ha : a.spares v = true) (hv : a.thread ≠ some v) (h : step c slots w a = some w') :
    (w'.vcpus v).fault = (w.vcpus v).fault ∧ w'.vm.mmuNotifierSeq = w.vm.mmuNotifierSeq ∧
      w'.invalidating = [] := by
  have hpage : ∀ p, w.invalidatingPage c p = false := fun p => by
    simp [World.invalidatingPage, hidle]
  rcases ht : a.thread with _ | u
  · cases a with
    | fault u =>
      simp only [step] at h
      split at h
      · cases h
        have huv : v ≠ u := fun e => by simp [Action.spares, e] at ha
        exact ⟨by rw [World.setVcpu_vcpus, update_noteq huv], rfl, hidle⟩
      · cases h
    | refill u gfn =>
      simp only [step] at h
      split at h
      · split at h
        · cases h
          refine ⟨?_, rfl, hidle⟩
          rw [World.setVcpu_vcpus, update_apply]
          split
          · subst_vars; rfl
          · rfl
        · cases h
      · cases h
    | invalidateStart => cases ha
    | hostChange => simp only [step, hpage] at h; cases h
    | invalidateEnd => simp only [step, hidle, List.not_mem_nil, if_false] at h; cases h
    | setSpte => simp only [step, hpage] at h; cases h
    | age | harvest =>
      obtain ⟨r, -, rfl⟩ := Option.map_eq_some'.mp h
      split <;> exact ⟨rfl, rfl, hidle⟩
    | testAge => obtain ⟨_, -, rfl⟩ := Option.map_eq_some'.mp h; exact ⟨rfl, rfl, hidle⟩
    | flushGpa => obtain ⟨_, -, rfl⟩ := Option.map_eq_some'.mp h; exact ⟨rfl, rfl, hidle⟩
    | _ => cases ht
  · rw [step_of_thread ht] at h
    obtain ⟨f, -, h⟩ := Option.bind_eq_some.mp h
    obtain ⟨hx, hs, -, hi⟩ := faultStep_frame h
    exact ⟨by rw [hx v fun e => hv (e ▸ ht)], hs, hi.trans hidle⟩

variable (c slots)

/-- **Each step of `v`'s thread lowers its rank and every other step keeps it**, along any run of
base-page steps that spare `v` from a world of a base-page run with no invalidation in progress:
`v` takes at most its rank in steps. -/
theorem rank_run (hslots : ∀ s ∈ slots, SlotInSpan c s) (hpte : 0 < c.pteBits) {host : Host}
    (hvma : ∀ p, host.vmaPagesize p ≠ some c.pmdSize) (hthp : ∀ p, host.thp p = false) (v : Nat) :
    ∀ {as : List Action} {w w' : World},
      ReachableBy c slots (fun a => baseAction c a = true) host w → w.invalidating = [] →
      (∀ a ∈ as, baseAction c a = true ∧ a.spares v = true) → run c slots w as = some w' →
      as.countP (fun a => a.thread == some v) + soloRank w' v ≤ soloRank w v ∧
        w'.invalidating = []
  | [], w, w', _, hidle, _, h => by
    simp only [run, Option.some.injEq] at h
    subst h
    exact ⟨by simp, hidle⟩
  | a :: as, w, w', hw, hidle, has, h => by
    simp only [run] at h
    obtain ⟨w1, h1, h⟩ := Option.bind_eq_some.mp h
    obtain ⟨hb, hsp⟩ := has a (List.mem_cons_self a as)
    have ih := fun hi1 => rank_run hslots hpte hvma hthp v (.step a hb hw h1) hi1
      (fun b hb' => has b (List.mem_cons_of_mem a hb')) h
    rw [List.countP_cons]
    by_cases ht : a.thread = some v
    · -- `v`'s own step: the action of its position, which lowers its rank
      rw [step_of_thread ht] at h1
      obtain ⟨f, hf, h1⟩ := Option.bind_eq_some.mp h1
      obtain ⟨avail, ok, fuel, rfl⟩ := faultStep_action ht h1
      have hc : w.vm.mmuNotifierCount = 0 := by
        rw [(notifierInv_reachableBy hw).count, hidle]; rfl
      obtain ⟨w2, h2, -, hlt⟩ := solo_step (synced_reachableBy hslots hpte hvma hthp hw)
        (poolInv_reachable (reachableBy_mono (fun _ _ => trivial) hw)) hc hf avail ok fuel
      obtain rfl := Option.some.inj (h1.symm.trans h2)
      obtain ⟨hle, hi⟩ := ih ((faultStep_frame h1).2.2.2.trans hidle)
      simp only [ht, beq_self_eq_true, if_true, soloRank, hf] at hlt hle ⊢
      exact ⟨by omega, hi⟩
    · -- another step keeps `v`'s fault and the sequence number
      obtain ⟨hf, hs, hi1⟩ := step_other hidle hsp ht h1
      obtain ⟨hle, hi⟩ := ih hi1
      have hne : (a.thread == some v) = false := by simpa using ht
      have hrk : soloRank w1 v = soloRank w v := by unfold soloRank; rw [hf, hs]
      simp only [hne, Bool.false_eq_true, if_false, Nat.add_zero]
      exact ⟨hrk ▸ hle, hi⟩

/-- **A fault returns whatever else runs.** Take a host with no VMA of `PMD_SIZE` pages and no
transparent huge page, and slots inside the table's span whose host ranges start page-aligned and
do not wrap, and a world of a base-page run with no invalidation in progress. Along any run from it
of base-page steps in which no invalidation starts and vCPU `v` takes no new fault, with other
vCPUs' faults, refills, ageing, harvests and GPA flushes interleaved in any order, `v` takes at
most seven steps of its thread, fewer by the rank it has left; and while its fault is in flight its
next step is enabled, whatever the host answers. So the fault returns to the guest within seven of
its own steps: no other step blocks the thread or sends it back to `retry:`. -/
theorem fault_returns_despite_other_steps (hslots : ∀ s ∈ slots, SlotInSpan c s)
    (hpte : 0 < c.pteBits) {host : Host} (hvma : ∀ p, host.vmaPagesize p ≠ some c.pmdSize)
    (hthp : ∀ p, host.thp p = false)
    (hw : ReachableBy c slots (fun a => baseAction c a = true) host w)
    (hidle : w.invalidating = []) (v : Nat) {as : List Action} {w' : World}
    (has : ∀ a ∈ as, baseAction c a = true ∧ a.spares v = true)
    (hr : run c slots w as = some w') :
    as.countP (fun a => a.thread == some v) + soloRank w' v ≤ 7 ∧
    ∀ f, (w'.vcpus v).fault = some f → ∀ avail ok fuel,
      ∃ w'', step c slots w' (f.pc.action v avail ok fuel) = some w'' := by
  obtain ⟨hle, hidle'⟩ := rank_run c slots hslots hpte hvma hthp v hw hidle has hr
  have hrank : soloRank w v ≤ 7 := by
    unfold soloRank
    split
    · exact Nat.zero_le _
    · exact Pc.rank_le _ _
  refine ⟨by omega, fun f hf avail ok fuel => ?_⟩
  have hw' := run_reachableBy c slots (fun a ha => (has a ha).1) hw hr
  have hc : w'.vm.mmuNotifierCount = 0 := by rw [(notifierInv_reachableBy hw').count, hidle']; rfl
  obtain ⟨w'', h, -⟩ := solo_step (synced_reachableBy hslots hpte hvma hthp hw')
    (poolInv_reachable (reachableBy_mono (fun _ _ => trivial) hw')) hc hf avail ok fuel
  exact ⟨w'', by rw [step_of_thread (f.pc.action_thread v avail ok fuel), hf, Option.some_bind, h]⟩

end Interleaved

/-- While vCPU 0 of the sample finishes its read fault on guest frame 0 from its resolution on,
vCPU 1 takes a write fault on frame 1 and runs it up to its snapshot, and the host ages every
page. -/
def interleavedRun : List Action :=
  [.fault 1 (2 ^ 14) true 0, .resolve 0 true, .fast 1, .lookup 1, .commit 0 1, .topup 1 40,
    .age 0 (2 ^ 30), .finish 0, .snapshot 1]

theorem fault_returns_despite_other_steps_sample :
    ∃ w w', run (Config.mips16k false) [Memslot.sample] (World.init Host.sample)
        ((faultRun 0 false).take 5) = some w ∧ w.invalidating = [] ∧
      run (Config.mips16k false) [Memslot.sample] w interleavedRun = some w' ∧
      (w'.vcpus 0).fault = none ∧
      interleavedRun.countP (fun a => a.thread == some 0) + soloRank w' 0 ≤ 7 ∧
      ∀ f, (w'.vcpus 0).fault = some f → ∀ avail ok fuel,
        ∃ w'', step (Config.mips16k false) [Memslot.sample] w' (f.pc.action 0 avail ok fuel) =
          some w'' := by
  obtain ⟨w, hr⟩ : ∃ w, run (Config.mips16k false) [Memslot.sample] (World.init Host.sample)
      ((faultRun 0 false).take 5) = some w := ⟨_, rfl⟩
  have hidle : w.invalidating = [] := by obtain rfl := Option.some_inj.mp hr; rfl
  obtain ⟨w', hr'⟩ : ∃ w', run (Config.mips16k false) [Memslot.sample] w interleavedRun =
      some w' := by
    obtain rfl := Option.some_inj.mp hr; exact ⟨_, rfl⟩
  have hdone : (w'.vcpus 0).fault = none := by
    obtain rfl := Option.some_inj.mp hr; obtain rfl := Option.some_inj.mp hr'; rfl
  exact ⟨w, w', hr, hidle, hr', hdone, fault_returns_despite_other_steps _ _
    (Memslot.sample_inSpan false) (by decide) (fun _ h => absurd (Option.some.inj h) (by decide))
    (fun _ => rfl) (run_reachableBy _ _ (by decide) .init hr) hidle 0 (by decide) hr'⟩

/-! ## Success maps the frame -/

namespace LookupOk
variable {c slots} {w : World}

theorem of_faults {w' : World} (hw : LookupOk w)
    (h : ∀ u, (w'.vcpus u).fault = (w.vcpus u).fault) : LookupOk w' :=
  fun u f hf => hw u f (h u ▸ hf)

theorem setVcpu (hw : LookupOk w) {v : Nat} {x : Vcpu}
    (hx : ∀ f, x.fault = some f → f.pc = .lookup 0 →
      excCode f.cause = EXCCODE_TLBRI ∨ excCode f.cause = EXCCODE_TLBXI) :
    LookupOk (w.setVcpu v x) := by
  intro u f hf
  rw [World.setVcpu_vcpus, update_apply] at hf
  split at hf
  · exact hx f hf
  · exact hw u f hf

theorem setPc (hw : LookupOk w) {v : Nat} {f : Fault} {pc : Pc}
    (hpc : pc = .lookup 0 → excCode f.cause = EXCCODE_TLBRI ∨ excCode f.cause = EXCCODE_TLBXI) :
    LookupOk (w.setPc v f pc) :=
  hw.setVcpu fun _ h => by cases h; exact hpc

theorem kvmVzFlushShadowAll (hw : LookupOk w) : LookupOk (w.kvmVzFlushShadowAll c) := by
  unfold World.kvmVzFlushShadowAll
  split
  · exact hw.of_faults fun _ => rfl
  · exact hw

end LookupOk

section Success
variable {c slots}

theorem faultStep_lookupOk {w w' : World} {v : Nat} {f : Fault} {a : Action} (hw : LookupOk w)
    (h : faultStep c slots w v f a = some w') : LookupOk w' := by
  cases a with
  | fast =>
    simp only [faultStep] at h
    split at h
    · split at h
      · cases h; exact hw.setPc fun h => by cases h
      split at h
      · obtain ⟨r, -, rfl⟩ := Option.map_eq_some'.mp h
        refine LookupOk.setPc ?_ fun hl => ?_
        · exact hw.of_faults fun _ => rfl
        · split at hl
          · cases hl
          · rename_i hr; exact absurd (Pc.lookup.inj hl) hr
      · rename_i hx
        cases h
        exact hw.setPc fun _ => (not_and_or.mp hx).imp Decidable.of_not_not Decidable.of_not_not
    · cases h
  | commit =>
    simp only [faultStep] at h
    split at h
    · obtain ⟨r, -, rfl⟩ := Option.map_eq_some'.mp h
      cases r with
      | retry => exact hw.setPc fun h => by cases h
      | done vm cache inv =>
        dsimp only
        refine LookupOk.setPc ?_ fun h => by cases h
        refine LookupOk.setVcpu ?_ fun f' h' => hw v f' h'
        exact hw.of_faults fun _ => rfl
    · cases h
  | finish =>
    simp only [faultStep] at h
    split at h
    · cases h; exact hw.setVcpu fun _ h => by cases h
    · cases h
  | topup =>
    simp only [faultStep] at h
    split at h
    · cases h
      refine LookupOk.setPc ?_ fun hl => by split at hl <;> cases hl
      exact hw.setVcpu fun f' h' => hw v f' h'
    · cases h
  | lookup | snapshot | resolve =>
    simp only [faultStep] at h
    split at h
    · cases h; exact hw.setPc fun hl => by first | cases hl | (split at hl <;> cases hl)
    · cases h
  | _ => simp only [faultStep] at h; cases h

theorem step_lookupOk {w w' : World} {a : Action} (hw : LookupOk w)
    (h : step c slots w a = some w') : LookupOk w' := by
  cases a with
  | fault v =>
    simp only [step] at h
    split at h
    · cases h; exact hw.setVcpu fun _ h hl => by cases h; cases hl
    · cases h
  | refill v =>
    simp only [step] at h
    split at h
    · split at h
      · cases h; exact hw.setVcpu fun f h => hw v f h
      · cases h
    · cases h
  | invalidateStart =>
    obtain ⟨_, -, rfl⟩ := Option.map_eq_some'.mp h
    exact LookupOk.kvmVzFlushShadowAll (hw.of_faults fun _ => rfl)
  | hostChange | invalidateEnd =>
    simp only [step] at h
    split at h
    · cases h; exact hw.of_faults fun _ => rfl
    · cases h
  | setSpte =>
    simp only [step] at h
    split at h
    · obtain ⟨r, -, rfl⟩ := Option.map_eq_some'.mp h
      split
      · exact LookupOk.kvmVzFlushShadowAll (hw.of_faults fun _ => rfl)
      · exact hw.of_faults fun _ => rfl
    · cases h
  | age | harvest =>
    obtain ⟨r, -, rfl⟩ := Option.map_eq_some'.mp h
    split <;> exact hw.of_faults fun _ => rfl
  | testAge => obtain ⟨_, -, rfl⟩ := Option.map_eq_some'.mp h; exact hw
  | flushGpa =>
    obtain ⟨_, -, rfl⟩ := Option.map_eq_some'.mp h
    exact hw.of_faults fun _ => rfl
  | _ =>
    simp only [step, Action.thread] at h
    obtain ⟨f, -, h⟩ := Option.bind_eq_some.mp h
    exact faultStep_lookupOk hw h

theorem lookupOk_reachableBy {ok : Action → Prop} {host : Host} {w : World}
    (hw : ReachableBy c slots ok host w) : LookupOk w := by
  induction hw with
  | init => intro _ _ h; cases h
  | step _ _ _ hs ih => exact step_lookupOk ih hs

/-- **A step of a fault thread that returns 0 leaves the faulting frame mapped**, and dirty after a
write fault, on a base-page run and for an exception other than `TLBRI` and `TLBXI`: the fast path
answers 0 only from a present entry, which it makes dirty on a write, the commit maps the frame
with the prot bits of a frame resolved for writing, and every other piece answers an error. -/
theorem faultStep_ret_zero {w w' : World} {v : Nat} {f : Fault} {a : Action}
    (hs : Synced c slots w) (hn : NotifierInv c slots w) (hl : LookupOk w)
    (hf : (w.vcpus v).fault = some f)
    (hx : excCode f.cause ≠ EXCCODE_TLBRI ∧ excCode f.cause ≠ EXCCODE_TLBXI)
    (h : faultStep c slots w v f a = some w')
    (hret : (w'.vcpus v).fault = some { f with pc := .ret 0 }) :
    ∃ e, w'.vm.pgd.entry c (f.gpa / c.pageSize) = some e ∧ e.present = true ∧
      (f.writeFault = true → e.dirty = true) := by
  have hidx : ∀ g, c.pgdIdx g = c.pgdIdx g ∧ c.pmdIdx g = c.pmdIdx g ∧ c.pteIdx g = c.pteIdx g :=
    fun _ => ⟨rfl, rfl, rfl⟩
  cases a with
  | fast =>
    simp only [faultStep] at h
    split at h
    · split at h
      · cases h; simp [RESUME_HOST] at hret
      split at h
      · obtain ⟨⟨r, vm'⟩, hr, rfl⟩ := Option.map_eq_some'.mp h
        have hr0 : r = 0 := by
          simp only [setPc_fault_self, Option.some.injEq, Fault.mk.injEq, true_and] at hret
          split at hret
          · assumption
          · cases hret
        subst hr0
        clear hret
        rcases mapPageFast_noVal hs.noVal hr with ⟨-, he, -⟩ | ⟨e, -, hp, hr0, heq, -⟩
        · exact absurd he (by decide)
        refine ⟨_, (heq _).trans (if_pos (hidx _)), hp, fun hwf => ?_⟩
        simp only [hwf, Bool.true_and] at hr0 ⊢
        cases hd : e.dirty
        · cases hw : e.write
          · simp [hd, hw, EFAULT] at hr0
          · rfl
        · rfl
      · cases h; simp at hret
    · cases h
  | lookup =>
    simp only [faultStep] at h
    split at h
    · rename_i err hpc
      cases h
      simp only [setPc_fault_self, Option.some.injEq, Fault.mk.injEq, true_and] at hret
      split at hret
      · rename_i e hlk
        cases hret
        rcases mapPageLookup_error hlk with rfl | he
        · exact ((hl v f hf hpc).elim hx.1 hx.2).elim
        · exact absurd he (by decide)
      · cases hret
    · cases h
  | topup =>
    simp only [faultStep] at h
    split at h
    · cases h
      simp only [setPc_fault_self, Option.some.injEq, Fault.mk.injEq, true_and] at hret
      split at hret
      · cases hret
      · rename_i hr; exact absurd (Pc.ret.inj hret) hr
    · cases h
  | snapshot =>
    simp only [faultStep] at h
    split at h
    · cases h; simp at hret
    · cases h
  | resolve =>
    simp only [faultStep] at h
    split at h
    · cases h
      simp only [setPc_fault_self, Option.some.injEq, Fault.mk.injEq, true_and] at hret
      split at hret
      · cases hret
      · cases hret
    · cases h
  | commit =>
    simp only [faultStep] at h
    split at h
    · rename_i d s pfn writeable hpc
      obtain ⟨r, hr, rfl⟩ := Option.map_eq_some'.mp h
      cases r with
      | retry => simp at hret
      | done vm cache inv =>
        have hd := hs.decisions v f hf d (by rw [hpc]; rfl)
        obtain ⟨hretry, -, -, -, heq⟩ := mapPageCommit_base c hs.noVal (hs.thp pfn) hd.1 hr
        have hsnap := hn.snap v f hf
        rw [hpc] at hsnap
        refine ⟨_, (heq _).trans (if_pos (hidx _)), by simp, fun hwf => ?_⟩
        have hres := hsnap.2 hretry
        rw [hwf] at hres
        simp [gfnToPfnProt_writeable hres, hwf]
    · cases h
  | finish =>
    simp only [faultStep] at h
    split at h
    · cases h; simp [World.setVcpu] at hret
    · cases h
  | _ => simp only [faultStep] at h; cases h

end Success

/-- **Success maps the faulting frame, and logs a write.** Take a host with no VMA of `PMD_SIZE`
pages and no transparent huge page, and slots inside the table's span whose host ranges start
page-aligned and do not wrap. In every world of a logged run (any interleaving of vCPU faults inside
the span, refills, invalidations with host changes, aging, harvests inside the span and flushes),
when a step of vCPU `v`'s fault thread makes `kvm_mips_map_page` return 0 for an exception other
than `TLBRI` and `TLBXI`, the faulting frame's entry is present afterwards; after a write fault it
is also writable and dirty, and the frame's bit is set in the dirty log, so the guest's write that
resumes is logged. -/
theorem fault_success_maps_frame (hslots : ∀ s ∈ slots, SlotInSpan c s) (hpte : 0 < c.pteBits)
    {host : Host} (hvma : ∀ p, host.vmaPagesize p ≠ some c.pmdSize)
    (hthp : ∀ p, host.thp p = false) {w w' : World}
    (hw : ReachableBy c slots (fun a => logAction c a = true) host w) {v : Nat} {f : Fault}
    {a : Action} (hf : (w.vcpus v).fault = some f)
    (hx : excCode f.cause ≠ EXCCODE_TLBRI ∧ excCode f.cause ≠ EXCCODE_TLBXI)
    (ha : a.thread = some v) (h : step c slots w a = some w')
    (hret : (w'.vcpus v).fault = some { f with pc := .ret 0 }) :
    ∃ e, w'.vm.pgd.entry c (f.gpa / c.pageSize) = some e ∧ e.present = true ∧
      (f.writeFault = true →
        e.write = true ∧ e.dirty = true ∧ w'.vm.dirtyLog (f.gpa / c.pageSize) = true) := by
  have hw' : ReachableBy c slots (fun a => logAction c a = true) host w' :=
    .step a (logAction_of_thread ha) hw h
  rw [step_of_thread ha, hf, Option.some_bind] at h
  obtain ⟨e, he, hp, hd⟩ := faultStep_ret_zero
    (synced_reachableBy hslots hpte hvma hthp (reachableBy_mono (fun _ => logAction_base) hw))
    (notifierInv_reachableBy hw) (lookupOk_reachableBy hw) hf hx h hret
  have hok : AllPte DirtyOk w'.vm.pgd := allPte_reachable dirtyOk_closed
    (fun _ _ _ ha h => by subst h; cases ha) hw'
  refine ⟨e, he, hp, fun hwf => ⟨(entry_ok hok he (hd hwf)).2, hd hwf, ?_⟩⟩
  exact (logInv_reachableBy hslots hpte hvma hthp hw').logged _ e
    ((logInv_reachableBy hslots hpte hvma hthp hw).gpas v f hf) he hp (hd hwf)

/-- After vCPU 0 of the sample writes guest frame 0 and the log of frames `[0, 3]` is harvested,
vCPU 0 writes the frame again: the fast path answers 0, and the frame is dirty and logged again. -/
def rewriteRun : List Action := faultRun 0 true ++ [.harvest 0 3, .fault 0 0 true 0]

theorem fault_success_maps_frame_sample :
    ∃ w w', run (Config.mips16k false) [Memslot.sample] (World.init Host.sample) rewriteRun =
        some w ∧ step (Config.mips16k false) [Memslot.sample] w (.fast 0) = some w' ∧
      (w'.vcpus 0).fault = some ⟨0, true, 0, .ret 0⟩ ∧
      ∃ e, w'.vm.pgd.entry (Config.mips16k false) 0 = some e ∧ e.present = true ∧
        e.write = true ∧ e.dirty = true ∧ w'.vm.dirtyLog 0 = true := by
  obtain ⟨w, hr⟩ : ∃ w, run (Config.mips16k false) [Memslot.sample] (World.init Host.sample)
      rewriteRun = some w := ⟨_, rfl⟩
  have hf : (w.vcpus 0).fault = some ⟨0, true, 0, .fast⟩ := by
    obtain rfl := Option.some_inj.mp hr; rfl
  obtain ⟨w', hs⟩ : ∃ w', step (Config.mips16k false) [Memslot.sample] w (.fast 0) = some w' := by
    obtain rfl := Option.some_inj.mp hr; exact ⟨_, rfl⟩
  have hret : (w'.vcpus 0).fault = some ⟨0, true, 0, .ret 0⟩ := by
    obtain rfl := Option.some_inj.mp hr; obtain rfl := Option.some_inj.mp hs; rfl
  obtain ⟨e, he, hp, hwd⟩ := fault_success_maps_frame _ _ (Memslot.sample_inSpan false)
    (by decide) (fun _ h => absurd (Option.some.inj h) (by decide)) (fun _ => rfl)
    (run_reachableBy _ _ (by decide) .init hr) hf (by decide) (by rfl) hs hret
  exact ⟨w, w', hr, hs, hret, e, he, hp, hwd rfl⟩

end LoongsonDune.Proof
