import LoongsonDune.Mmu.System
import LoongsonDune.Proof.Entry

/-!
# The locked commit of `kvm_mips_map_page`

What the commit stores, and where. The base-page path stores `pfn_pte(pfn, prot)` through the
pointer the allocating walk returns; the huge path leaves `new_pmd` in the middle slot of the
block, whatever `kvm_mips_set_pmd_huge` found there. Neither looks at what the slot held before.

The walk stops at a huge middle slot and returns the slot itself. So a base-page commit for a frame
of a block that a huge entry maps stores a leaf-format value in the middle level, and the table is
no longer well formed. That happens when a frame that a huge entry already maps takes a read- or
execute-inhibit exception, which skips the fast path, and its page-size decision is a base page:
for instance once the host has moved its page to a base-page VMA under an invalidation the huge
commit did not see (`Stale`).
-/

namespace LoongsonDune.Proof

open LoongsonDune Function

variable (c : Config)

/-! ## What the commit stores -/

/-- `kvm_mips_get_pmd` leaves the middle table it returns in the top slot. -/
theorem getPmd_slot {pgd pgd' : Pgd} {cache cache' addr : Nat} {pmd : PmdTable}
    (h : kvmMipsGetPmd c pgd cache addr = some (pgd', cache', pmd)) :
    pgd' (c.pgdIndex addr) = some pmd := by
  unfold kvmMipsGetPmd at h
  split at h
  · rename_i hs; cases h; exact hs
  · obtain ⟨n, -, h⟩ := Option.map_eq_some'.mp h
    cases h; exact update_same _ _ _

/-- When `kvm_mips_set_pmd_huge` returns, the block's middle slot holds `new_pmd`. -/
theorem setPmdHuge_slot {newPmd : Pte} {addr : Nat} :
    ∀ {fuel : Nat} {pgd pgd' : Pgd} {cache cache' : Nat} {b : Bool},
      kvmMipsSetPmdHuge c pgd cache addr newPmd fuel = some (pgd', cache', b) →
      ∃ pmd, pgd' (c.pgdIndex addr) = some pmd ∧ pmd (c.pmdOffset addr) = .val newPmd
  | 0, _, _, _, _, _, h => by cases h
  | fuel + 1, pgd, pgd', cache, cache', b, h => by
    simp only [kvmMipsSetPmdHuge] at h
    obtain ⟨⟨pgd1, cache1, pmd⟩, hg, h⟩ := Option.bind_eq_some.mp h
    dsimp only at h
    split at h
    · rename_i e hold
      split at h
      · rename_i heq; cases h; exact ⟨pmd, getPmd_slot c hg, heq ▸ hold⟩
      · split at h
        · obtain ⟨r, -, h⟩ := Option.bind_eq_some.mp h
          exact setPmdHuge_slot h
        · cases h; exact ⟨_, update_same _ _ _, update_same _ _ _⟩
    · obtain ⟨r, -, h⟩ := Option.bind_eq_some.mp h
      exact setPmdHuge_slot h
    · cases h; exact ⟨_, update_same _ _ _, update_same _ _ _⟩

/-- The THP step keeps the decision's size and frame when the decision is not a base page, or the
resolved frame is not part of a transparent huge page. -/
theorem mapPageAdjust_eq {host : Host} {d : Decision} {pfn gpa : Nat}
    (h : d.vmaPagesize ≠ c.pageSize ∨ host.thp pfn = false) :
    mapPageAdjust c host d pfn gpa = (d.vmaPagesize, pfn, gpa) := by
  unfold mapPageAdjust transparentHugepageAdjust
  rcases h with h | h <;> simp [h]

/-- A base-page commit over a leaf table returns, keeps the pool, and leaves the new entry as the
one governing the frame. -/
theorem mapPageInstall_leaf {vm : Vm} {cache gpa gfn size pfn fuel : Nat}
    {writeFault writeable : Bool} {pmd : PmdTable} {pte : PteTable} (hsize : size ≠ c.pmdSize)
    (hi : vm.pgd (c.pgdIndex gpa) = some pmd) (hj : pmd (c.pmdOffset gpa) = .table pte) :
    ∃ vm', mapPageInstall c vm cache gpa writeFault gfn size pfn writeable fuel =
        some (.done vm' cache none) ∧
      vm'.pgd.entry c (gpa / c.pageSize) = some (pfnPte pfn (mapPageProt c writeable writeFault)) := by
  refine ⟨_, by simp [mapPageInstall, hsize, pteForGpa_table c hi hj, Pgd.setPte_leaf _ hi hj]; rfl,
    ?_⟩
  rw [Pgd.entry, ← c.pgdIndex_eq, ← c.pmdOffset_eq, ← c.pteOffset_eq]
  simp [Pmd.entryAt]

/-- **A base-page commit over a huge entry corrupts the middle level.** When the block of `gpa`
holds a huge entry, the allocating walk returns the middle slot itself and `set_pte` stores the new
leaf-format entry there: the slot holds a value without the huge bit, and the table is no longer
well formed. -/
theorem mapPageInstall_base_over_huge {vm : Vm} {cache gpa gfn size pfn fuel : Nat}
    {writeFault writeable : Bool} {pmd : PmdTable} {e : Pte} (hsize : size ≠ c.pmdSize)
    (hi : vm.pgd (c.pgdIndex gpa) = some pmd) (hj : pmd (c.pmdOffset gpa) = .val e)
    (he : e.huge = true) :
    ∃ vm', mapPageInstall c vm cache gpa writeFault gfn size pfn writeable fuel =
        some (.done vm' cache none) ∧
      vm'.pgd (c.pgdIndex gpa) =
        some (update pmd (c.pmdOffset gpa) (.val (pfnPte pfn (mapPageProt c writeable writeFault)))) ∧
      ¬vm'.pgd.Wf := by
  refine ⟨_, by simp [mapPageInstall, hsize, pteForGpa_huge c hi hj he, Pgd.setPte_pmd _ hi]; rfl,
    by simp, fun hw => ?_⟩
  have := hw _ _ (update_same _ _ _) (c.pmdOffset gpa) _ (update_same _ _ _)
  simp at this

/-- A huge commit, when it returns, commits, and leaves `new_pmd` in the block's middle slot. -/
theorem mapPageInstall_huge {vm : Vm} {cache gpa gfn pfn fuel : Nat} {writeFault writeable : Bool}
    {r : Commit} (h : mapPageInstall c vm cache gpa writeFault gfn c.pmdSize pfn writeable fuel = some r) :
    ∃ vm' cache' inv, r = .done vm' cache' inv ∧ ∃ pmd, vm'.pgd (c.pgdIndex gpa) = some pmd ∧
      pmd (c.pmdOffset gpa) = .val (pmdMkhuge (pfnPmd pfn (mapPageProt c writeable writeFault))) := by
  simp only [mapPageInstall, if_pos rfl] at h
  obtain ⟨⟨pgd', cache', b⟩, hs, rfl⟩ := Option.map_eq_some'.mp h
  exact ⟨_, _, _, rfl, setPmdHuge_slot c hs⟩

/-- A table whose first block is mapped by a huge entry for frame `2048`. -/
def hugeFirstBlock : Pgd := fun i =>
  if i = 0 then some fun j => if j = 0 then .val ⟨2048, true, true, false, true, true, 0⟩ else .invalid
  else none

theorem mapPageInstall_base_over_huge_sample :
    ∃ vm', mapPageInstall (Config.mips16k false) ⟨hugeFirstBlock, 0, 0, fun _ => false⟩ 40 (2 ^ 14)
        false 1 (2 ^ 14) 2049 true 1 = some (.done vm' 40 none) ∧
      vm'.pgd ((Config.mips16k false).pgdIndex (2 ^ 14)) =
        some (update (fun j => if j = 0 then .val ⟨2048, true, true, false, true, true, 0⟩ else .invalid)
          ((Config.mips16k false).pmdOffset (2 ^ 14))
          (.val (pfnPte 2049 (mapPageProt (Config.mips16k false) true false)))) ∧
      ¬vm'.pgd.Wf :=
  mapPageInstall_base_over_huge (Config.mips16k false) (by decide) rfl rfl rfl

/-! ## The commit step -/

variable (slots : List Memslot)

/-- **What the commit step does.** The host and every other vCPU are left alone; the VM is
unchanged on a retry, and is the committed one otherwise. -/
theorem step_commit {w w' : World} {v fuel : Nat} {f : Fault} {d : Decision} {s pfn : Nat}
    {writeable : Bool} (hf : (w.vcpus v).fault = some f) (hpc : f.pc = .commit d s pfn writeable)
    (h : step c slots w (.commit v fuel) = some w') :
    w'.host = w.host ∧ (∀ u, u ≠ v → w'.vcpus u = w.vcpus u) ∧
      (mapPageCommit c w.host w.vm (w.vcpus v).cache f.gpa f.writeFault d s pfn writeable fuel =
          some .retry ∧ w'.vm = w.vm ∨
        ∃ cache inv, mapPageCommit c w.host w.vm (w.vcpus v).cache f.gpa f.writeFault d s pfn
          writeable fuel = some (.done w'.vm cache inv)) := by
  simp only [step, Action.thread, hf, Option.some_bind, faultStep, hpc] at h
  obtain ⟨r, hr, rfl⟩ := Option.map_eq_some'.mp h
  cases r with
  | retry => exact ⟨rfl, fun u hu => by simp [World.setPc, update_noteq hu], .inl ⟨hr, rfl⟩⟩
  | done vm cache inv =>
    exact ⟨rfl, fun u hu => by simp [World.setPc, update_noteq hu], .inr ⟨cache, inv, hr⟩⟩

/-- A commit that commits is a step, and leaves every other vCPU alone. -/
theorem step_commit_done {w : World} {v fuel : Nat} {f : Fault} {d : Decision} {s pfn : Nat}
    {writeable : Bool} {vm : Vm} {cache : Nat} {inv : Option Nat}
    (hf : (w.vcpus v).fault = some f) (hpc : f.pc = .commit d s pfn writeable)
    (h : mapPageCommit c w.host w.vm (w.vcpus v).cache f.gpa f.writeFault d s pfn writeable fuel =
      some (.done vm cache inv)) :
    ∃ w', step c slots w (.commit v fuel) = some w' ∧ w'.vm = vm ∧
      ∀ u, u ≠ v → w'.vcpus u = w.vcpus u := by
  simp only [step, Action.thread, hf, Option.some_bind, faultStep, hpc, h, Option.map_some']
  exact ⟨_, rfl, rfl, fun u hu => by simp [World.setPc, update_noteq hu]⟩

/-! ## A corrupt middle slot in a run -/

/-- Whether middle slot `j` of top slot `i` holds a value without the huge bit. -/
def middleCorrupt (pgd : Pgd) (i j : Nat) : Bool :=
  match pgd i with
  | some pmd => match pmd j with
    | .val e => !e.huge
    | _ => false
  | none => false

theorem not_wf_of_middleCorrupt {pgd : Pgd} {i j : Nat} (h : middleCorrupt pgd i j = true) :
    ¬pgd.Wf := by
  intro hw
  unfold middleCorrupt at h
  split at h
  · rename_i pmd hi
    split at h
    · rename_i e hj
      simp [hw i pmd hi j e hj] at h
    all_goals cases h
  · cases h

/-- A writable slot of one PMD block, 2048 frames from guest frame 0, backed from the 32 MiB aligned
host address `2^25`. -/
def Memslot.block : Memslot := ⟨0, 2048, 2 ^ 25, false⟩

/-- vCPU 0 takes a read-inhibit fault (`EXCCODE_TLBRI`) on guest frame `gfn`, which skips the fast
path, and runs it through its commit. -/
def inhibitFaultRun (gfn : Nat) : List Action :=
  .fault 0 (gfn * 2 ^ 14) false (EXCCODE_TLBRI * 2 ^ CAUSEB_EXCCODE) :: (faultRun gfn false).tail

end LoongsonDune.Proof
