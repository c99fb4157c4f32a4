import LoongsonDune.Mmu.System

/-!
# Faults that report success without a mapping

`kvm_mips_map_page` starts with `err = 0`. For an execute- or read-inhibit exception (`TLBXI`,
`TLBRI`) it skips the fast path, so `err` is still 0 when the memslot check jumps to `out` for an
address no slot covers, or for a write to a read-only slot. The fault then returns 0,
`kvm_mips_handle_vz_root_tlb_fault` reports success, and nothing was mapped.
-/

namespace LoongsonDune.Proof

open LoongsonDune Function

variable {c : Config} {slots : List Memslot}

/-- The exception code `kvm_mips_map_page` reads from `host_cp0_cause`. -/
def excCode (cause : Nat) : Nat := cause / 2 ^ CAUSEB_EXCCODE % 32

theorem mapPageLookup_miss {host : Host} {gpa : Nat} {wf : Bool} {err : Int}
    (h : gfnToMemslot slots (gpa / c.pageSize) = none ∨
      ∃ s, gfnToMemslot slots (gpa / c.pageSize) = some s ∧ s.readonly = true ∧ wf = true) :
    mapPageLookup c slots host gpa wf err = .error err := by
  rcases h with h | ⟨s, hs, hro, rfl⟩ <;> simp [mapPageLookup, gfnToHvaMemslotProt, *]

/-- **An inhibit fault outside every slot, or a write to a read-only slot, succeeds.** From any
world in which vCPU `v` enters the root fault handler on a `TLBRI` or `TLBXI` exception, for an
address no slot covers (on a CPU that is not Loongson-3 compatible) or for a write to a read-only
slot, the fast-path and lookup steps return 0 and leave the VM as it was: nothing is mapped. -/
theorem inhibit_fault_unmapped_returns_zero {w : World} {v : Nat} {f : Fault}
    (hf : (w.vcpus v).fault = some f) (hpc : f.pc = .fast)
    (hex : excCode f.cause = EXCCODE_TLBRI ∨ excCode f.cause = EXCCODE_TLBXI)
    (hmiss : gfnToMemslot slots (f.gpa / c.pageSize) = none ∧ c.loongson3Comp = false ∨
      ∃ s, gfnToMemslot slots (f.gpa / c.pageSize) = some s ∧ s.readonly = true ∧
        f.writeFault = true) :
    ∃ w', run c slots w [.fast v, .lookup v] = some w' ∧
      (w'.vcpus v).fault = some { f with pc := .ret 0 } ∧ w'.vm = w.vm := by
  have hfast : ¬(c.loongson3Comp = true ∧ gfnToMemslot slots (f.gpa / c.pageSize) = none) := by
    rcases hmiss with ⟨_, h⟩ | ⟨s, hs, _⟩ <;> simp [*]
  have hinh : ¬(excCode f.cause ≠ EXCCODE_TLBRI ∧ excCode f.cause ≠ EXCCODE_TLBXI) := by omega
  have hl := @mapPageLookup_miss c slots w.host f.gpa f.writeFault 0
    (hmiss.imp And.left fun ⟨s, hs, hro, hw⟩ => ⟨s, hs, hro, hw⟩)
  let w1 := w.setPc v f (.lookup 0)
  have h1 : step c slots w (.fast v) = some w1 := by
    simp only [excCode] at hinh
    simp [step, Action.thread, hf, faultStep, hpc, hfast, hinh, w1]
  have h2 : step c slots w1 (.lookup v) = some (w1.setPc v { f with pc := .lookup 0 } (.ret 0)) := by
    simp [w1, step, Action.thread, World.setPc, World.setVcpu, faultStep, hl]
  exact ⟨w1.setPc v { f with pc := .lookup 0 } (.ret 0), by simp [run, h1, h2],
    by simp [w1, World.setPc, World.setVcpu], rfl⟩

/-- A read-inhibit fault (`host_cp0_cause = 19 << 2`) at guest address `2^30`, which the sample
slot does not cover, returns 0 and leaves the empty table empty. -/
theorem inhibit_fault_unmapped_returns_zero_sample :
    ∃ w', run (Config.mips16k false) [Memslot.sample]
        ((World.init Host.sample).setVcpu 0 ⟨0, [], some ⟨2 ^ 30, false, 19 * 4, .fast⟩⟩)
        [.fast 0, .lookup 0] = some w' ∧
      (w'.vcpus 0).fault = some ⟨2 ^ 30, false, 19 * 4, .ret 0⟩ ∧ w'.vm = (World.init Host.sample).vm :=
  @inhibit_fault_unmapped_returns_zero (Config.mips16k false) [Memslot.sample] _ 0
    ⟨2 ^ 30, false, 19 * 4, .fast⟩ rfl rfl (.inl (by decide)) (.inl ⟨by decide, rfl⟩)

end LoongsonDune.Proof
