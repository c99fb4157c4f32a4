import LoongsonDune.Proof.Preserve

/-!
# Dirty entries are writable

`_kvm_mips_map_page_fast` answers a write fault to an entry that is already dirty with success,
without reading its write bit: it relies on a dirty entry being writable. Every operation that
writes entry bits keeps that implication (the prot bits set dirty only together with write, the
fast path marks dirty only after checking write, the sweeps only clear bits), so it holds of every
entry value in every reachable world, provided the host hands `kvm_set_spte_hva` only ptes that
satisfy it themselves. The fast path then grants a write only through a present writable entry.
-/

namespace LoongsonDune.Proof

open LoongsonDune

/-- An entry is dirty only if it is present and writable. -/
def DirtyOk (e : Pte) : Prop := e.dirty = true → e.present = true ∧ e.write = true

/-- The host hands `kvm_set_spte_hva` only ptes that are dirty only if present and writable. -/
def HostPteDirtyOk : Action → Prop
  | .setSpte _ pte => DirtyOk pte
  | _ => True

variable {c : Config} {slots : List Memslot}

theorem dirtyOk_closed : EntryClosed c DirtyOk where
  zero := by simp [DirtyOk]
  mkold _ h := h
  mkclean _ _ := by simp [DirtyOk]
  mkyoung _ h := h
  mkdirty _ _ hp hw _ := ⟨hp, hw⟩
  pte _ _ _ := by simp +contextual [DirtyOk]
  pmd _ _ _ := by simp +contextual [DirtyOk]

/-- When every stored dirty entry is writable, the fast path succeeds on a write fault only if the
entry governing the frame is present and writable. -/
theorem mapPageFast_write_ok {vm vm' : Vm} {gpa : Nat} {r : Int} (hp : AllPte DirtyOk vm.pgd)
    (h : kvmMipsMapPageFast c vm gpa true = some (r, vm')) (hr : r = 0) :
    ∃ e, vm.pgd.entry c (gpa / c.pageSize) = some e ∧ e.present = true ∧ e.write = true := by
  obtain ⟨p, hw, hpe⟩ := pteForGpa_none c vm.pgd gpa
  simp only [kvmMipsMapPageFast, hw, Option.some_bind] at h
  rcases p with _ | p
  · cases h; simp [EFAULT] at hr
  · obtain ⟨e, he, h⟩ := Option.bind_eq_some.mp h
    have hent : vm.pgd.entry c (gpa / c.pageSize) = some e := by
      rw [← hpe, Option.some_bind, he]
    refine ⟨e, hent, ?_⟩
    by_cases hpres : e.present = true
    swap
    · rw [if_pos (by simpa using hpres)] at h
      cases h; simp [EFAULT] at hr
    rw [if_neg (by simp [hpres])] at h
    obtain ⟨pgd1, h1, h⟩ := Option.bind_eq_some.mp h
    -- the entry read back after `pte_mkyoung` has the same write and dirty bits
    have hsame : ∀ e1, pgd1.readPte p = some e1 → e1.write = e.write ∧ e1.dirty = e.dirty := by
      intro e1 he1
      split at h1
      · rw [readPte_setPte h1] at he1; cases he1; exact ⟨rfl, rfl⟩
      · cases h1; rw [he] at he1; cases he1; exact ⟨rfl, rfl⟩
    obtain ⟨e1, he1, h⟩ := Option.bind_eq_some.mp h
    obtain ⟨hw1, hd1⟩ := hsame e1 he1
    refine ⟨hpres, ?_⟩
    by_cases hnd : e1.dirty = true
    · exact (entry_ok hp hent (hd1 ▸ hnd)).2
    rw [if_pos (by simpa using hnd)] at h
    by_cases hwr : e1.write = true
    · exact hw1 ▸ hwr
    rw [if_pos (by simpa using hwr)] at h
    cases h; simp [EFAULT] at hr

/-- **Dirty entries are present and writable in every reachable world**, when the host's ptes
for `kvm_set_spte_hva` are; so the fast path's `write_fault && pte_dirty` shortcut never lets a
write through a non-writable entry. -/
theorem dirty_entry_writable {host : Host} {w : World}
    (hw : ReachableBy c slots HostPteDirtyOk host w) :
    (∀ gfn e, w.vm.pgd.entry c gfn = some e → e.dirty = true →
      e.present = true ∧ e.write = true) ∧
    (∀ gpa r vm', kvmMipsMapPageFast c w.vm gpa true = some (r, vm') → r = 0 →
      ∃ e, w.vm.pgd.entry c (gpa / c.pageSize) = some e ∧ e.present = true ∧ e.write = true) := by
  have hp : AllPte DirtyOk w.vm.pgd :=
    allPte_reachable dirtyOk_closed (fun _ _ _ ha h => by subst h; exact ha) hw
  exact ⟨fun _ _ he => entry_ok hp he, fun _ _ _ h hr => mapPageFast_write_ok hp h hr⟩

/-- A write fault on frame 0 of the sample leaves a dirty entry for it. -/
theorem dirty_entry_writable_sample :
    ∃ w, run (Config.mips16k false) [Memslot.sample] (World.init Host.sample) (faultRun 0 true) =
        some w ∧ (∃ e, w.vm.pgd.entry (Config.mips16k false) 0 = some e ∧ e.dirty = true) ∧
      (∀ gfn e, w.vm.pgd.entry (Config.mips16k false) gfn = some e → e.dirty = true →
        e.present = true ∧ e.write = true) ∧
      (∀ gpa r vm', kvmMipsMapPageFast (Config.mips16k false) w.vm gpa true = some (r, vm') →
        r = 0 → ∃ e, w.vm.pgd.entry (Config.mips16k false) (gpa / (Config.mips16k false).pageSize) =
          some e ∧ e.present = true ∧ e.write = true) := by
  obtain ⟨w, hr⟩ : ∃ w, run (Config.mips16k false) [Memslot.sample] (World.init Host.sample)
      (faultRun 0 true) = some w := ⟨_, rfl⟩
  have hw : ReachableBy (Config.mips16k false) [Memslot.sample] HostPteDirtyOk Host.sample w :=
    run_reachableBy _ _ (by simp [faultRun, HostPteDirtyOk]) .init hr
  exact ⟨w, hr, by obtain rfl := Option.some_inj.mp hr; exact ⟨_, rfl, rfl⟩,
    dirty_entry_writable hw⟩

end LoongsonDune.Proof
