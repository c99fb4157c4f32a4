import LoongsonDune.Proof.SetPmdHuge

/-!
# The node pool covers every commit

A vCPU's pool (`mmu_page_cache`) is filled by `mmu_topup_memory_cache` outside `mmu_lock` and
drawn from under it, one node per missing level, by `mmu_memory_cache_alloc`, whose
`BUG_ON(!mc->nobjs)` fires on an empty pool. The fault handler tops the pool up to
`KVM_NR_MEM_OBJS` once it is below `KVM_MMU_CACHE_MIN_PAGES = 2`, before its `retry:` label, and
nothing else draws from it until the commit; a retried commit has drawn nothing.

A commit needs at most two nodes on a well-formed table: the base-page walk allocates at most a
middle and a leaf table, and `kvm_mips_set_pmd_huge` at most one middle table over all its passes
(`setPmdHuge_spec`). So from every reachable world a vCPU at its commit holds the reservation, and
on a well-formed table the commit returns without reaching the `BUG_ON`. The pool also stays
within `[0, KVM_NR_MEM_OBJS]`: the top-up stops at the bound, and the commit only draws.
-/

namespace LoongsonDune.Proof

open LoongsonDune Function

variable {c : Config}

/-! ## Filling and freeing -/

theorem topup_fill (max : Nat) : ∀ {nobjs : Nat} (avail : Nat), nobjs ≤ max →
    (mmuTopupMemoryCache.fill max nobjs avail).2 ≤ max ∧
      ((mmuTopupMemoryCache.fill max nobjs avail).1 = 0 →
        (mmuTopupMemoryCache.fill max nobjs avail).2 = max)
  | nobjs, 0, h => by
    by_cases hlt : nobjs < max
    · simp only [mmuTopupMemoryCache.fill, if_pos hlt]
      exact ⟨h, fun he => absurd he (by decide)⟩
    · simp only [mmuTopupMemoryCache.fill, if_neg hlt]; omega
  | nobjs, avail + 1, h => by
    by_cases hlt : nobjs < max
    · simp only [mmuTopupMemoryCache.fill, if_pos hlt]; exact topup_fill max avail hlt
    · simp only [mmuTopupMemoryCache.fill, if_neg hlt]; omega

/-- **The top-up keeps the pool within `max`, and success leaves at least `min` nodes.** -/
theorem topup_spec {nobjs min max : Nat} (avail : Nat) (hmin : min ≤ max) (hn : nobjs ≤ max) :
    (mmuTopupMemoryCache nobjs min max avail).2 ≤ max ∧
      ((mmuTopupMemoryCache nobjs min max avail).1 = 0 →
        min ≤ (mmuTopupMemoryCache nobjs min max avail).2) := by
  unfold mmuTopupMemoryCache
  by_cases hge : nobjs ≥ min
  · simp only [if_pos hge]; exact ⟨hn, fun _ => hge⟩
  · simp only [if_neg hge]
    obtain ⟨h1, h2⟩ := topup_fill max avail hn
    exact ⟨h1, fun h => by rw [h2 h]; exact hmin⟩

/-- Freeing empties the pool. -/
theorem mmuFreeMemoryCache_eq : ∀ nobjs, mmuFreeMemoryCache nobjs = 0
  | 0 => rfl
  | nobjs + 1 => mmuFreeMemoryCache_eq nobjs

/-! ## A commit only draws from the pool -/

theorem alloc_le {m n : Nat} (h : mmuMemoryCacheAlloc m = some n) : n ≤ m := by
  unfold mmuMemoryCacheAlloc at h
  split at h
  · cases h
  · cases h; exact Nat.sub_le m 1

theorem getPmd_cache_le {pgd pgd' : Pgd} {cache cache' addr : Nat} {pmd : PmdTable}
    (h : kvmMipsGetPmd c pgd cache addr = some (pgd', cache', pmd)) : cache' ≤ cache := by
  unfold kvmMipsGetPmd at h
  split at h
  · cases h; exact le_refl _
  · obtain ⟨n, hn, h⟩ := Option.map_eq_some'.mp h
    cases h
    exact alloc_le hn

theorem setPmdHuge_cache_le {addr : Nat} {newPmd : Pte} :
    ∀ {fuel : Nat} {pgd pgd' : Pgd} {cache cache' : Nat} {inv : Bool},
      kvmMipsSetPmdHuge c pgd cache addr newPmd fuel = some (pgd', cache', inv) → cache' ≤ cache
  | 0, _, _, _, _, _, h => by cases h
  | fuel + 1, pgd, pgd', cache, cache', inv, h => by
    simp only [kvmMipsSetPmdHuge] at h
    obtain ⟨⟨pgd1, cache1, pmd⟩, hg, h⟩ := Option.bind_eq_some.mp h
    have h1 := getPmd_cache_le hg
    dsimp only at h
    split at h
    · split at h
      · cases h; exact h1
      · split at h
        · obtain ⟨r, -, h⟩ := Option.bind_eq_some.mp h
          exact (setPmdHuge_cache_le h).trans h1
        · cases h; exact h1
    · obtain ⟨r, -, h⟩ := Option.bind_eq_some.mp h
      exact (setPmdHuge_cache_le h).trans h1
    · cases h; exact h1

theorem walk_cache_le {pgd : Pgd} {cache addr : Nat} {w : Walked}
    (h : kvmMipsWalkPgd c pgd (some cache) addr = some w) {n : Nat} (hn : w.cache = some n) :
    n ≤ cache := by
  have lvl : ∀ {pgd : Pgd} {pmd : PmdTable} {m : Nat},
      kvmMipsWalkPgd.pmdLevel c addr pgd pmd (some m) = some w → n ≤ m := by
    intro pgd pmd m h
    unfold kvmMipsWalkPgd.pmdLevel at h
    split at h
    · cases h; cases hn; exact le_refl _
    · cases hj : pmd (c.pmdOffset addr) <;> simp only [hj] at h
      · obtain ⟨n', hn', h⟩ := Option.bind_eq_some.mp h
        cases h
        exact Option.some.inj hn ▸ alloc_le hn'
      all_goals (cases h; cases hn; exact le_refl _)
  unfold kvmMipsWalkPgd at h
  cases hi : pgd (c.pgdIndex addr) <;> simp only [hi] at h
  · obtain ⟨n', hn', h⟩ := Option.bind_eq_some.mp h
    exact (lvl h).trans (alloc_le hn')
  · exact lvl h

/-- **A commit never adds to the pool.** -/
theorem mapPageCommit_cache_le {host : Host} {vm vm' : Vm} {cache cache' gpa : Nat}
    {wf writeable : Bool} {d : Decision} {s pfn fuel : Nat} {inv : Option Nat}
    (h : mapPageCommit c host vm cache gpa wf d s pfn writeable fuel = some (.done vm' cache' inv)) :
    cache' ≤ cache := by
  unfold mapPageCommit at h
  split at h
  · cases h
  · unfold mapPageInstall at h
    dsimp only at h
    split at h
    · obtain ⟨r, hr, hy⟩ := Option.map_eq_some'.mp h
      cases hy
      exact setPmdHuge_cache_le hr
    · obtain ⟨w, hw, h⟩ := Option.bind_eq_some.mp h
      split at h
      · rename_i hc
        obtain ⟨pgd, -, hy⟩ := Option.map_eq_some'.mp h
        cases hy
        exact walk_cache_le hw hc
      · cases h

/-! ## Two nodes are enough -/

theorem alloc_of_pos {m : Nat} (h : 0 < m) : mmuMemoryCacheAlloc m = some (m - 1) := by
  simp only [mmuMemoryCacheAlloc, Nat.pos_iff_ne_zero.mp h, if_false]

/-- Below a top slot that holds a middle table, the allocating walk with a node in the pool returns
a pointer that a store goes through, and takes at most that node. -/
theorem pmdLevel_alloc {pgd : Pgd} {addr : Nat} {pmd : PmdTable}
    (hi : pgd (c.pgdIndex addr) = some pmd)
    (hj : ∀ e, pmd (c.pmdOffset addr) = .val e → e.huge = true) {cache : Nat} (hc : 0 < cache) :
    ∃ p pgd' n, kvmMipsWalkPgd.pmdLevel c addr pgd pmd (some cache) = some ⟨some p, pgd', some n⟩ ∧
      (∀ v, (pgd'.setPte p v).isSome) ∧ cache ≤ n + 1 := by
  unfold kvmMipsWalkPgd.pmdLevel
  cases hJ : pmd (c.pmdOffset addr) with
  | invalid =>
    refine ⟨.leaf (c.pgdIndex addr) (c.pmdOffset addr) (c.pteOffset addr),
      update pgd (c.pgdIndex addr) (some (update pmd (c.pmdOffset addr) (.table clearPage))),
      cache - 1, ?_, fun v => ?_, by omega⟩
    · simp only [pmdHuge_invalid, Bool.false_eq_true, if_false, alloc_of_pos hc, Option.some_bind]
    · rw [Pgd.setPte_leaf v (update_same _ _ _) (update_same _ _ _)]; rfl
  | table pte =>
    refine ⟨.leaf (c.pgdIndex addr) (c.pmdOffset addr) (c.pteOffset addr), pgd, cache, ?_,
      fun v => by rw [Pgd.setPte_leaf v hi hJ]; rfl, by omega⟩
    simp only [pmdHuge_table, Bool.false_eq_true, if_false]
  | val e =>
    refine ⟨.pmd (c.pgdIndex addr) (c.pmdOffset addr), pgd, cache, ?_,
      fun v => by rw [Pgd.setPte_pmd v hi]; rfl, by omega⟩
    simp only [pmdHuge_val, hj e hJ, if_true]

/-- **The allocating walk takes at most two nodes.** On a well-formed table with two nodes in the
pool, `kvm_mips_pte_for_gpa(kvm, cache, gpa)` returns a pointer that a store goes through. -/
theorem pteForGpa_alloc {pgd : Pgd} (hwf : pgd.Wf) {cache : Nat}
    (hc : KVM_MMU_CACHE_MIN_PAGES ≤ cache) (addr : Nat) :
    ∃ p pgd' n, kvmMipsPteForGpa c pgd (some cache) addr = some ⟨some p, pgd', some n⟩ ∧
      (∀ v, (pgd'.setPte p v).isSome) ∧ cache ≤ n + KVM_MMU_CACHE_MIN_PAGES := by
  unfold kvmMipsPteForGpa kvmMipsWalkPgd KVM_MMU_CACHE_MIN_PAGES at *
  cases hi : pgd (c.pgdIndex addr) with
  | none =>
    obtain ⟨p, pgd', n, h, hs, hn⟩ := pmdLevel_alloc (c := c)
      (update_same (c.pgdIndex addr) (some pmdInit) pgd) (fun e h => by cases h)
      (show 0 < cache - 1 by omega)
    exact ⟨p, pgd', n, by simp only [alloc_of_pos (show 0 < cache by omega), Option.some_bind, h],
      hs, by omega⟩
  | some pmd =>
    obtain ⟨p, pgd', n, h, hs, hn⟩ := pmdLevel_alloc hi (hwf _ pmd hi _) (show 0 < cache by omega)
    exact ⟨p, pgd', n, h, hs, by omega⟩

/-- The THP step only moves the address down, to the head of its block. -/
theorem mapPageAdjust_gpa_le (host : Host) (d : Decision) (pfn gpa : Nat) :
    (mapPageAdjust c host d pfn gpa).2.2 ≤ gpa := by
  unfold mapPageAdjust transparentHugepageAdjust
  split_ifs <;> first | exact le_refl gpa | exact Nat.div_mul_le_self gpa c.pmdSize

/-- **With the reservation, a commit on a well-formed table returns and takes at most
`KVM_MMU_CACHE_MIN_PAGES` nodes**, for every fault and every fuel from `2` on. -/
theorem mapPageCommit_reserve {host : Host} {vm : Vm} (hwf : vm.pgd.Wf) {cache gpa : Nat}
    (hc : KVM_MMU_CACHE_MIN_PAGES ≤ cache) (hgpa : gpa < 2 ^ 64) (wf : Bool) (d : Decision)
    (s pfn : Nat) (writeable : Bool) {fuel : Nat} (hfuel : 2 ≤ fuel) :
    ∃ r, mapPageCommit c host vm cache gpa wf d s pfn writeable fuel = some r ∧
      ∀ vm' cache' inv, r = .done vm' cache' inv → cache ≤ cache' + KVM_MMU_CACHE_MIN_PAGES := by
  unfold mapPageCommit
  split
  · exact ⟨_, rfl, fun _ _ _ h => by cases h⟩
  have hle := mapPageAdjust_gpa_le (c := c) host d pfn gpa
  generalize mapPageAdjust c host d pfn gpa = r at hle ⊢
  rcases r with ⟨size, pfn', gpa'⟩
  dsimp only at hle ⊢
  unfold mapPageInstall
  dsimp only
  split
  · obtain ⟨k, rfl⟩ := Nat.exists_eq_add_of_le' hfuel
    obtain ⟨pmd', cache', inv, hrun, -, -, hc1, -⟩ := setPmdHuge_spec hwf
      (show 0 < cache by unfold KVM_MMU_CACHE_MIN_PAGES at hc; omega) (show gpa' < 2 ^ 64 by omega)
      (pmdMkhuge (pfnPmd pfn' (mapPageProt c writeable wf)))
    rw [hrun k, Option.map_some']
    refine ⟨_, rfl, fun _ _ _ h => ?_⟩
    cases h
    unfold KVM_MMU_CACHE_MIN_PAGES; dsimp only; omega
  · obtain ⟨p, pgd', n, hw, hs, hn⟩ := pteForGpa_alloc hwf hc gpa'
    obtain ⟨pgd'', hpgd⟩ := Option.isSome_iff_exists.mp (hs (pfnPte pfn' (mapPageProt c writeable wf)))
    rw [hw, Option.some_bind]
    dsimp only
    rw [hpgd, Option.map_some']
    exact ⟨_, rfl, fun _ _ _ h => by cases h; exact hn⟩

/-! ## Every reachable world -/

/-- The positions of a fault thread from a successful top-up to the end of its commit: `retry:`,
the frame resolution and the commit. -/
def afterTopup : Pc → Bool
  | .snapshot _ | .resolve _ _ | .commit _ _ _ _ => true
  | _ => false

/-- A vCPU's pool holds at most `KVM_NR_MEM_OBJS` nodes, and the reservation while its fault is
past the top-up. -/
structure PoolOk (c : Config) (x : Vcpu) : Prop where
  bounded : x.cache ≤ c.nrMemObjs
  reserved : ∀ f, x.fault = some f → afterTopup f.pc = true → KVM_MMU_CACHE_MIN_PAGES ≤ x.cache

/-- Every vCPU's pool is in order. -/
def PoolInv (c : Config) (w : World) : Prop := ∀ v, PoolOk c (w.vcpus v)

theorem poolOk_congr {x y : Vcpu} (h : PoolOk c x) (hc : y.cache = x.cache)
    (hf : y.fault = x.fault) : PoolOk c y :=
  ⟨hc ▸ h.bounded, fun f hy hp => hc ▸ h.reserved f (hf ▸ hy) hp⟩

/-- A fault moved to `pc`, over a pool within bounds that holds the reservation if `pc` needs it. -/
theorem poolOk_pc {x : Vcpu} {f : Fault} {pc : Pc} (hb : x.cache ≤ c.nrMemObjs)
    (hr : afterTopup pc = true → KVM_MMU_CACHE_MIN_PAGES ≤ x.cache) :
    PoolOk c { x with fault := some { f with pc := pc } } :=
  ⟨hb, fun _ hf hp => by cases hf; exact hr hp⟩

theorem poolInv_setVcpu {w : World} (hw : PoolInv c w) {v : Nat} {x : Vcpu} (hx : PoolOk c x) :
    PoolInv c (w.setVcpu v x) := by
  intro u
  rw [World.setVcpu_vcpus, update_apply]
  split
  · exact hx
  · exact hw u

theorem poolInv_setPc {w : World} (hw : PoolInv c w) {v : Nat} {f : Fault} {pc : Pc}
    (hr : afterTopup pc = true → KVM_MMU_CACHE_MIN_PAGES ≤ (w.vcpus v).cache) :
    PoolInv c (w.setPc v f pc) :=
  poolInv_setVcpu hw (poolOk_pc (hw v).bounded hr)

theorem setPc_setVcpu (w : World) (v : Nat) (x : Vcpu) (f : Fault) (pc : Pc) :
    (w.setVcpu v x).setPc v f pc = w.setVcpu v { x with fault := some { f with pc := pc } } := by
  simp only [World.setPc, World.setVcpu, update_same, update_idem]

theorem poolInv_flushRemoteTlbs {w : World} (hw : PoolInv c w) : PoolInv c w.flushRemoteTlbs :=
  fun v => poolOk_congr (hw v) rfl rfl

theorem poolInv_kvmVzFlushShadowAll {w : World} (hw : PoolInv c w) :
    PoolInv c (w.kvmVzFlushShadowAll c) := by
  unfold World.kvmVzFlushShadowAll
  split
  · exact poolInv_flushRemoteTlbs hw
  · exact hw

variable {slots : List Memslot}

/-- **Each step of a fault thread keeps the pool in order**: the top-up reports success only with
the reservation in place, the thread keeps its pool untouched from there to the commit, and the
commit only draws from it. -/
theorem faultStep_poolInv {w w' : World} {v : Nat} {f : Fault} {a : Action} (hw : PoolInv c w)
    (hf : (w.vcpus v).fault = some f) (h : faultStep c slots w v f a = some w') : PoolInv c w' := by
  have hres := (hw v).reserved f hf
  have hnot : ∀ {pc : Pc} {b : Prop}, afterTopup pc = false → afterTopup pc = true → b :=
    fun h1 h2 => absurd (h1 ▸ h2) Bool.false_ne_true
  cases a with
  | fast =>
    simp only [faultStep] at h
    split at h
    · split at h
      · cases h; exact poolInv_setPc hw (hnot rfl)
      · split at h
        · obtain ⟨r, -, rfl⟩ := Option.map_eq_some'.mp h
          exact poolInv_setPc hw (by split <;> exact hnot rfl)
        · cases h; exact poolInv_setPc hw (hnot rfl)
    · cases h
  | lookup =>
    simp only [faultStep] at h
    split at h
    · cases h; exact poolInv_setPc hw (by split <;> exact hnot rfl)
    · cases h
  | topup _ avail =>
    simp only [faultStep] at h
    split at h
    · cases h
      rw [setPc_setVcpu]
      have ht := topup_spec avail c.minPages_le (hw v).bounded
      exact poolInv_setVcpu hw (poolOk_pc ht.1 fun hp => by split at hp; exact ht.2 ‹_›; cases hp)
    · cases h
  | snapshot =>
    simp only [faultStep] at h
    split at h
    · rename_i hpc; cases h; exact poolInv_setPc hw fun _ => hres (by rw [hpc]; rfl)
    · cases h
  | resolve =>
    simp only [faultStep] at h
    split at h
    · rename_i hpc; cases h; exact poolInv_setPc hw fun _ => hres (by rw [hpc]; rfl)
    · cases h
  | commit =>
    simp only [faultStep] at h
    split at h
    · rename_i hpc
      obtain ⟨r, hr, rfl⟩ := Option.map_eq_some'.mp h
      cases r with
      | retry => exact poolInv_setPc hw fun _ => hres (by rw [hpc]; rfl)
      | done vm cache inv =>
        dsimp only
        rw [setPc_setVcpu]
        exact poolInv_setVcpu hw
          (poolOk_pc ((mapPageCommit_cache_le hr).trans (hw v).bounded) (hnot rfl))
    · cases h
  | finish =>
    simp only [faultStep] at h
    split at h
    · cases h; exact poolInv_setVcpu hw ⟨(hw v).bounded, fun _ h _ => by cases h⟩
    · cases h
  | _ => simp only [faultStep] at h; cases h

/-- **Every step keeps the pool in order.** -/
theorem step_poolInv {w w' : World} {a : Action} (hw : PoolInv c w)
    (h : step c slots w a = some w') : PoolInv c w' := by
  cases a with
  | fault v =>
    simp only [step] at h
    split at h
    · cases h; exact poolInv_setVcpu hw ⟨(hw v).bounded, fun _ h hp => by cases h; cases hp⟩
    · cases h
  | refill v =>
    simp only [step] at h
    split at h
    · split at h
      · cases h; exact poolInv_setVcpu hw (poolOk_congr (hw v) rfl rfl)
      · cases h
    · cases h
  | invalidateStart =>
    obtain ⟨pgd, -, rfl⟩ := Option.map_eq_some'.mp h
    exact poolInv_kvmVzFlushShadowAll hw
  | hostChange | invalidateEnd =>
    simp only [step] at h
    split at h
    · cases h; exact hw
    · cases h
  | setSpte =>
    simp only [step] at h
    split at h
    · obtain ⟨r, -, rfl⟩ := Option.map_eq_some'.mp h
      split
      · exact poolInv_kvmVzFlushShadowAll hw
      · exact hw
    · cases h
  | age | harvest =>
    obtain ⟨r, -, rfl⟩ := Option.map_eq_some'.mp h
    split
    · exact poolInv_flushRemoteTlbs hw
    · exact hw
  | testAge => obtain ⟨_, -, rfl⟩ := Option.map_eq_some'.mp h; exact hw
  | flushGpa => obtain ⟨_, -, rfl⟩ := Option.map_eq_some'.mp h; exact poolInv_flushRemoteTlbs hw
  | _ =>
    simp only [step, Action.thread] at h
    obtain ⟨f, hf, h⟩ := Option.bind_eq_some.mp h
    exact faultStep_poolInv hw hf h

theorem poolInv_reachable {host : Host} {w : World} (hw : Reachable c slots host w) :
    PoolInv c w := by
  induction hw with
  | init => exact fun _ => ⟨Nat.zero_le _, fun _ h => by cases h⟩
  | step a _ _ hs ih => exact step_poolInv ih hs

/-- **The reservation covers every commit, and each pool stays within `[0, KVM_NR_MEM_OBJS]`.**
A top-up from a pool within bounds stays within them and reports success only with at least
`KVM_MMU_CACHE_MIN_PAGES` nodes; freeing empties the pool. In every reachable world each vCPU's
pool is within bounds, and a vCPU at its commit holds the reservation; on a well-formed table the
commit then returns for every fuel from `2` on, so `mmu_memory_cache_alloc`'s `BUG_ON` is not
reached, and takes at most `KVM_MMU_CACHE_MIN_PAGES` nodes over all the passes of
`kvm_mips_set_pmd_huge` or the allocating walk. -/
theorem pool_reservation_covers_commit (c : Config) (slots : List Memslot) (host : Host) :
    (∀ nobjs avail, nobjs ≤ c.nrMemObjs →
      (mmuTopupMemoryCache nobjs KVM_MMU_CACHE_MIN_PAGES c.nrMemObjs avail).2 ≤ c.nrMemObjs ∧
      ((mmuTopupMemoryCache nobjs KVM_MMU_CACHE_MIN_PAGES c.nrMemObjs avail).1 = 0 →
        KVM_MMU_CACHE_MIN_PAGES ≤
          (mmuTopupMemoryCache nobjs KVM_MMU_CACHE_MIN_PAGES c.nrMemObjs avail).2)) ∧
    (∀ nobjs, mmuFreeMemoryCache nobjs = 0) ∧
    ∀ w, Reachable c slots host w → ∀ v, (w.vcpus v).cache ≤ c.nrMemObjs ∧
      ∀ f d s pfn writeable, (w.vcpus v).fault = some f → f.pc = .commit d s pfn writeable →
        KVM_MMU_CACHE_MIN_PAGES ≤ (w.vcpus v).cache ∧
        (w.vm.pgd.Wf → f.gpa < 2 ^ 64 → ∀ fuel, 2 ≤ fuel →
          ∃ w', step c slots w (.commit v fuel) = some w' ∧
            (w.vcpus v).cache ≤ (w'.vcpus v).cache + KVM_MMU_CACHE_MIN_PAGES) := by
  refine ⟨fun _ avail hn => topup_spec avail c.minPages_le hn, mmuFreeMemoryCache_eq, fun w hw v => ?_⟩
  have hp := poolInv_reachable hw v
  refine ⟨hp.bounded, fun f d s pfn writeable hf hpc => ?_⟩
  have hres := hp.reserved f hf (by rw [hpc]; rfl)
  refine ⟨hres, fun hwf hgpa fuel hfuel => ?_⟩
  obtain ⟨r, hr, hle⟩ := @mapPageCommit_reserve c w.host w.vm hwf (w.vcpus v).cache f.gpa hres hgpa
    f.writeFault d s pfn writeable fuel hfuel
  simp only [step, Action.thread, hf, Option.some_bind, faultStep, hpc, hr, Option.map_some']
  refine ⟨_, rfl, ?_⟩
  cases r with
  | retry => simp [World.setPc, World.setVcpu]
  | done vm cache inv => simpa [World.setPc, World.setVcpu] using hle vm cache inv rfl

end LoongsonDune.Proof
