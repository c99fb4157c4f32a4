import LoongsonDune.Mmu.Fault

/-!
# The system: vCPUs, the host notifier and derived mappings

A world holds the VM (its GPA table, notifier counters and dirty log), the host, and for each vCPU
its node pool, its derived mappings (hardware shadow / TLB entries copied from the GPA table) and
the `kvm_mips_map_page` it is running, if any. `step` applies one atomic action; any interleaving of
actions from any vCPUs and the host is a run.

* A vCPU fault runs `kvm_mips_handle_vz_root_tlb_fault` as the pieces of `Fault.lean`, one action
  each; `retry:` is a jump of the thread back to its snapshot.
* A host invalidation is `mmu_notifier_count++` with `kvm_unmap_hva_range` (one step, under
  `mmu_lock` in the notifier), any number of host changes to pages in its range, and
  `mmu_notifier_seq++`, `mmu_notifier_count--`. The host's `change_pte` (`kvm_set_spte_hva`) runs
  inside an invalidation, as the notifier calls it.
* `kvm_age_hva`, `kvm_test_age_hva`, a dirty-log harvest (clear the log bits of `[a, b]`, then
  `kvm_mips_mkclean_gpa_pt`) and `kvm_mips_flush_gpa_pt` are single steps; their external callers
  flush every derived mapping when the call reports a change.
* The hardware derives a mapping for a vCPU from a present GPA entry at any time.

The derived-mapping operations `kvm_vz_host_tlb_inv` and `kvm_flush_remote_tlbs` are outside the
repository and are modelled from the spec: the first drops one page's derived mappings on the
calling vCPU, the second drops every derived mapping on every vCPU.
-/

namespace LoongsonDune

open Function

/-- A derived mapping: the host frame and rights the hardware holds for one guest frame. -/
structure Derived where
  gfn : Nat
  pfn : Nat
  write : Bool
  dirty : Bool
deriving DecidableEq, Repr

/-- Where an in-flight `kvm_mips_map_page` is. -/
inductive Pc where
  /-- Entering `kvm_mips_handle_vz_root_tlb_fault`: the visibility test and the fast path. -/
  | fast
  /-- The memslot and VMA lookup, with `err` as the fast path left it. -/
  | lookup (err : Int)
  | topup (d : Decision)
  /-- `retry:`, about to read `mmu_notifier_seq`. -/
  | snapshot (d : Decision)
  | resolve (d : Decision) (mmuSeq : Nat)
  | commit (d : Decision) (mmuSeq pfn : Nat) (writeable : Bool)
  /-- Returning `err` to `kvm_mips_handle_vz_root_tlb_fault`. -/
  | ret (err : Int)
deriving DecidableEq, Repr

/-- A fault in flight: `badvaddr`, `write_fault`, `host_cp0_cause` and the position. -/
structure Fault where
  gpa : Nat
  writeFault : Bool
  cause : Nat
  pc : Pc
deriving DecidableEq, Repr

structure Vcpu where
  /-- `mmu_page_cache.nobjs`. -/
  cache : Nat
  /-- The derived mappings the hardware holds for this vCPU. -/
  tlb : List Derived
  fault : Option Fault

structure World where
  vm : Vm
  host : Host
  vcpus : Nat → Vcpu
  /-- The host ranges `[start, end)` whose invalidation has begun and not ended. -/
  invalidating : List (Nat × Nat)

/-- One atomic action of a vCPU, the hardware, the host or an external caller. -/
inductive Action where
  /-- vCPU `v` takes a GPA fault. -/
  | fault (v gpa : Nat) (writeFault : Bool) (cause : Nat)
  | fast (v : Nat)
  | lookup (v : Nat)
  /-- The top-up, when the host can hand out `avail` pages. -/
  | topup (v avail : Nat)
  | snapshot (v : Nat)
  /-- `gfn_to_pfn_prot`; `ok = false` when the host allocator fails. -/
  | resolve (v : Nat) (ok : Bool)
  /-- The locked commit, with `fuel` passes for `kvm_mips_set_pmd_huge`. -/
  | commit (v fuel : Nat)
  /-- Back in the root fault handler: `kvm_vz_host_tlb_inv` on success, then guest entry. -/
  | finish (v : Nat)
  /-- The hardware derives a mapping for frame `gfn` on vCPU `v`. -/
  | refill (v gfn : Nat)
  | invalidateStart (start «end» : Nat)
  /-- The host remaps host virtual page `page` to `pte`, with VMA page size `vma`. -/
  | hostChange (page : Nat) (pte : Pte) (vma : Option Nat)
  | invalidateEnd (start «end» : Nat)
  | setSpte (hva : Nat) (pte : Pte)
  | age (start «end» : Nat)
  | testAge (hva : Nat)
  | harvest (a b : Nat)
  | flushGpa (a b : Nat)
deriving DecidableEq, Repr

/-- The frame a present entry gives guest frame `gfn`: its own frame for a leaf entry, the frame
at `gfn`'s offset in the block for a huge one. -/
def Pte.frameOf (c : Config) (e : Pte) (gfn : Nat) : Nat :=
  if e.huge then e.pfn + c.pteIdx gfn else e.pfn

/-- Modelled from the spec: `kvm_vz_host_tlb_inv(vcpu, addr)` drops the derived mappings of one
page on the calling vCPU. -/
def tlbInv (tlb : List Derived) (gfn : Nat) : List Derived := tlb.filter fun d => d.gfn != gfn

namespace World

/-- The VM and host a world starts from: an empty table from `kvm_pgd_alloc`, idle vCPUs with
empty pools. -/
def init (host : Host) : World :=
  ⟨⟨kvmPgdInit, 0, 0, fun _ => false⟩, host, fun _ => ⟨0, [], none⟩, []⟩

/-- Replace vCPU `v`. -/
def setVcpu (w : World) (v : Nat) (x : Vcpu) : World := { w with vcpus := update w.vcpus v x }

/-- Set the position of vCPU `v`'s fault. -/
def setPc (w : World) (v : Nat) (f : Fault) (pc : Pc) : World :=
  w.setVcpu v { w.vcpus v with fault := some { f with pc := pc } }

/-- Modelled from the spec: `kvm_flush_remote_tlbs` drops every derived mapping on every vCPU. -/
def flushRemoteTlbs (w : World) : World :=
  { w with vcpus := fun v => { w.vcpus v with tlb := [] } }

/-- `kvm_vz_flush_shadow_all`: flush remote TLBs when the CPU has GuestIDs. -/
def kvmVzFlushShadowAll (c : Config) (w : World) : World :=
  if c.cpuHasGuestid then w.flushRemoteTlbs else w

@[simp] theorem kvmVzFlushShadowAll_vm (c : Config) (w : World) : (w.kvmVzFlushShadowAll c).vm = w.vm := by
  unfold kvmVzFlushShadowAll; split <;> rfl
@[simp] theorem kvmVzFlushShadowAll_host (c : Config) (w : World) :
    (w.kvmVzFlushShadowAll c).host = w.host := by
  unfold kvmVzFlushShadowAll; split <;> rfl
@[simp] theorem kvmVzFlushShadowAll_invalidating (c : Config) (w : World) :
    (w.kvmVzFlushShadowAll c).invalidating = w.invalidating := by
  unfold kvmVzFlushShadowAll; split <;> rfl

@[simp] theorem setVcpu_vm (w : World) (v : Nat) (x : Vcpu) : (w.setVcpu v x).vm = w.vm := rfl
@[simp] theorem setVcpu_host (w : World) (v : Nat) (x : Vcpu) : (w.setVcpu v x).host = w.host := rfl
@[simp] theorem setVcpu_invalidating (w : World) (v : Nat) (x : Vcpu) :
    (w.setVcpu v x).invalidating = w.invalidating := rfl
@[simp] theorem setVcpu_vcpus (w : World) (v : Nat) (x : Vcpu) :
    (w.setVcpu v x).vcpus = update w.vcpus v x := rfl
@[simp] theorem setPc_vm (w : World) (v : Nat) (f : Fault) (pc : Pc) : (w.setPc v f pc).vm = w.vm :=
  rfl
@[simp] theorem setPc_host (w : World) (v : Nat) (f : Fault) (pc : Pc) :
    (w.setPc v f pc).host = w.host := rfl
@[simp] theorem setPc_invalidating (w : World) (v : Nat) (f : Fault) (pc : Pc) :
    (w.setPc v f pc).invalidating = w.invalidating := rfl
@[simp] theorem flushRemoteTlbs_host (w : World) : w.flushRemoteTlbs.host = w.host := rfl
@[simp] theorem flushRemoteTlbs_invalidating (w : World) :
    w.flushRemoteTlbs.invalidating = w.invalidating := rfl

/-- Whether host virtual page `page` meets an invalidation in progress. -/
def invalidatingPage (c : Config) (w : World) (page : Nat) : Bool :=
  w.invalidating.any fun r => r.1 < (page + 1) * c.pageSize && page * c.pageSize < r.2

end World

variable (c : Config) (slots : List Memslot)

/-- One step of vCPU `v`'s fault thread, from fault `f`. -/
def faultStep (w : World) (v : Nat) (f : Fault) : Action → Option World
  | .fast _ => match f.pc with
    | .fast =>
      if c.loongson3Comp && (gfnToMemslot slots (f.gpa / c.pageSize)).isNone then
        some (w.setPc v f (.ret RESUME_HOST))
      else
        let exccode := f.cause / 2 ^ CAUSEB_EXCCODE % 32
        if exccode ≠ EXCCODE_TLBRI ∧ exccode ≠ EXCCODE_TLBXI then
          (kvmMipsMapPageFast c w.vm f.gpa f.writeFault).map fun r =>
            let w' : World := { w with vm := r.2 }
            w'.setPc v f (if r.1 = 0 then .ret 0 else .lookup r.1)
        else some (w.setPc v f (.lookup 0))
    | _ => none
  | .lookup _ => match f.pc with
    | .lookup err => some (w.setPc v f (match mapPageLookup c slots w.host f.gpa f.writeFault err with
        | .error e => .ret e
        | .ok d => .topup d))
    | _ => none
  | .topup _ avail => match f.pc with
    | .topup d =>
      let r := mmuTopupMemoryCache (w.vcpus v).cache KVM_MMU_CACHE_MIN_PAGES c.nrMemObjs avail
      some ((w.setVcpu v { w.vcpus v with cache := r.2 }).setPc v f
        (if r.1 = 0 then .snapshot d else .ret r.1))
    | _ => none
  | .snapshot _ => match f.pc with
    | .snapshot d => some (w.setPc v f (.resolve d w.vm.mmuNotifierSeq))
    | _ => none
  | .resolve _ ok => match f.pc with
    | .resolve d s => some (w.setPc v f (match ok, gfnToPfnProt c slots w.host d.gfn f.writeFault with
        | true, some (pfn, writeable) => .commit d s pfn writeable
        | _, _ => .ret (-EFAULT)))
    | _ => none
  | .commit _ fuel => match f.pc with
    | .commit d s pfn writeable =>
      (mapPageCommit c w.host w.vm (w.vcpus v).cache f.gpa f.writeFault d s pfn writeable fuel).map
        fun
        | .retry => w.setPc v f (.snapshot d)
        | .done vm cache inv =>
          let x := w.vcpus v
          let tlb := match inv with
            | some g => tlbInv x.tlb g
            | none => x.tlb
          let w' : World := { w with vm := vm }
          (w'.setVcpu v { x with cache := cache, tlb := tlb }).setPc v f (.ret 0)
    | _ => none
  | .finish _ => match f.pc with
    | .ret err =>
      let x := w.vcpus v
      let tlb := if err = 0 then tlbInv x.tlb (f.gpa / c.pageSize) else x.tlb
      some (w.setVcpu v { x with fault := none, tlb := tlb })
    | _ => none
  | _ => none

/-- The vCPU an action belongs to, for the fault-thread actions. -/
def Action.thread : Action → Option Nat
  | .fast v | .lookup v | .topup v _ | .snapshot v | .resolve v _ | .commit v _ | .finish v => some v
  | _ => none

/-- One atomic step of the system. -/
def step (w : World) : Action → Option World
  | .fault v gpa writeFault cause => match (w.vcpus v).fault with
    | none => some (w.setVcpu v { w.vcpus v with fault := some ⟨gpa, writeFault, cause, .fast⟩ })
    | some _ => none
  | .refill v gfn => match w.vm.pgd.entry c gfn with
    | some e => if e.present then
        let x := w.vcpus v
        some (w.setVcpu v { x with tlb := ⟨gfn, e.frameOf c gfn, e.write, e.dirty⟩ :: x.tlb })
      else none
    | none => none
  | .invalidateStart start «end» =>
    (kvmUnmapHvaRange c slots w.vm.pgd start «end»).map fun pgd =>
      World.kvmVzFlushShadowAll c
        { w with vm := { w.vm with pgd := pgd, mmuNotifierCount := w.vm.mmuNotifierCount + 1 },
                 invalidating := (start, «end») :: w.invalidating }
  | .hostChange page pte vma =>
    if w.invalidatingPage c page then
      some { w with host := { w.host with pte := update w.host.pte page pte,
                                          vmaPagesize := update w.host.vmaPagesize page vma } }
    else none
  | .invalidateEnd start «end» =>
    if (start, «end») ∈ w.invalidating then
      some { w with vm := { w.vm with mmuNotifierSeq := w.vm.mmuNotifierSeq + 1,
                                      mmuNotifierCount := w.vm.mmuNotifierCount - 1 },
                    invalidating := w.invalidating.erase (start, «end») }
    else none
  | .setSpte hva pte =>
    if w.invalidatingPage c (hva / c.pageSize) then
      (kvmSetSpteHva c slots w.vm.pgd hva pte).map fun r =>
        let w' := { w with vm := { w.vm with pgd := r.1 },
                           host := { w.host with pte := update w.host.pte (hva / c.pageSize) pte } }
        if r.2 then World.kvmVzFlushShadowAll c w' else w'
    else none
  | .age start «end» => (kvmAgeHva c slots w.vm.pgd start «end»).map fun r =>
      let w' := { w with vm := { w.vm with pgd := r.1 } }
      if r.2 then w'.flushRemoteTlbs else w'
  | .testAge hva => (kvmTestAgeHva c slots w.vm.pgd hva).map fun _ => w
  | .harvest a b =>
    let log := fun g => decide (g < a ∨ b < g) && w.vm.dirtyLog g
    (kvmMipsMkcleanGpaPt c w.vm.pgd a b).map fun r =>
      let w' := { w with vm := { w.vm with pgd := r.1, dirtyLog := log } }
      if r.2 then w'.flushRemoteTlbs else w'
  | .flushGpa a b => (kvmMipsFlushGpaPt c w.vm.pgd a b).map fun r =>
      { w with vm := { w.vm with pgd := r.1 } }.flushRemoteTlbs
  | a => match a.thread with
    | some v => ((w.vcpus v).fault).bind fun f => faultStep c slots w v f a
    | none => none

/-- The worlds reachable from `World.init host` by any interleaving of steps whose actions
satisfy `ok`. -/
inductive ReachableBy (ok : Action → Prop) (host : Host) : World → Prop where
  | init : ReachableBy ok host (World.init host)
  | step {w w' : World} (a : Action) : ok a → ReachableBy ok host w → step c slots w a = some w' →
      ReachableBy ok host w'

/-- The worlds reachable from `World.init host` by any interleaving of steps. -/
def Reachable (host : Host) (w : World) : Prop := ReachableBy c slots (fun _ => True) host w

/-- Run a list of actions in order. -/
def run : World → List Action → Option World
  | w, [] => some w
  | w, a :: as => (step c slots w a).bind fun w' => run w' as

theorem run_reachableBy {ok : Action → Prop} {host : Host} : ∀ {w w' : World} {as : List Action},
    (∀ a ∈ as, ok a) → ReachableBy c slots ok host w → run c slots w as = some w' →
    ReachableBy c slots ok host w'
  | _, _, [], _, h, hr => by simp only [run, Option.some.injEq] at hr; exact hr ▸ h
  | w, w', a :: as, hok, h, hr => by
    simp only [run] at hr
    obtain ⟨w1, h1, hr⟩ := Option.bind_eq_some.mp hr
    exact run_reachableBy (fun b hb => hok b (List.mem_cons_of_mem a hb))
      (ReachableBy.step a (hok a (List.mem_cons_self a as)) h h1) hr

/-! ## A sample for concrete runs -/

/-- A host for concrete runs under `Config.mips16k`: host virtual page `p` maps frame `p + 1000`,
present, writable, young and clean, in VMAs of 16 KiB pages; no frame is part of a transparent
huge page. -/
def Host.sample : Host :=
  ⟨fun p => ⟨p + 1000, true, true, false, true, false, 0⟩, fun _ => some (2 ^ 14), fun _ => false⟩

/-- A writable slot of four frames from guest frame 0, backed from host address `2^20` on. -/
def Memslot.sample : Memslot := ⟨0, 4, 2 ^ 20, false⟩

/-- vCPU 0 takes a fault on guest frame `gfn` of `Config.mips16k` and runs it through its
commit. -/
def faultRun (gfn : Nat) (writeFault : Bool) : List Action :=
  [.fault 0 (gfn * 2 ^ 14) writeFault 0, .fast 0, .lookup 0, .topup 0 40, .snapshot 0,
    .resolve 0 true, .commit 0 1, .finish 0]

end LoongsonDune
