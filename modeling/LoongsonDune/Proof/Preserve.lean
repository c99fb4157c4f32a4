import LoongsonDune.Mmu.System
import LoongsonDune.Proof.Entry

/-!
# Properties of every stored entry

Several invariants are statements about each entry value the table holds, wherever it sits.
`AllPte P` says it for a property `P` of entries; this file proves once, per operation, what the
operation needs to keep `AllPte P`: the flush and the allocating walk need `P` of the zero entry
(`clear_page`, `__pte(0)`), the range operations need `op` and `op1` to keep `P`, and a store needs
`P` of the stored value. A corrupt middle-level slot counts too: its value is an entry value.
-/

namespace LoongsonDune.Proof

open LoongsonDune Function

/-- Every entry value a middle-level slot holds, in itself or in its leaf table, satisfies `P`. -/
def PmdOk (P : Pte → Prop) : Pmd → Prop
  | .invalid => True
  | .table pte => ∀ k, P (pte k)
  | .val e => P e

/-- A top-level slot whose middle table, if any, satisfies `PmdOk P` everywhere. -/
def PudOk (P : Pte → Prop) (pud : Option PmdTable) : Prop := ∀ pmd, pud = some pmd → ∀ j, PmdOk P (pmd j)

/-- Every entry value the table holds satisfies `P`. -/
def AllPte (P : Pte → Prop) (pgd : Pgd) : Prop := ∀ i, PudOk P (pgd i)

variable {c : Config} {P : Pte → Prop}

theorem allPte_init : AllPte P kvmPgdInit := by intro i pmd h; simp [kvmPgdInit] at h

theorem allPte_update {pgd : Pgd} (h : AllPte P pgd) {i : Nat} {pud : Option PmdTable}
    (hp : PudOk P pud) : AllPte P (update pgd i pud) := by
  intro i'
  rw [update_apply]; split
  · exact hp
  · exact h i'

theorem pudOk_some {pmd : PmdTable} (h : ∀ j, PmdOk P (pmd j)) : PudOk P (some pmd) := by
  rintro _ ⟨⟩; exact h

theorem pmdOk_update {pmd : PmdTable} (h : ∀ j, PmdOk P (pmd j)) {j : Nat} {p : Pmd}
    (hp : PmdOk P p) (j' : Nat) : PmdOk P (update pmd j p j') := by
  rw [update_apply]; split
  · exact hp
  · exact h j'

/-! ## The flush -/

theorem flushPte_ok (hz : P Pte.zero) {pte pte' : PteTable} {s e : Nat} {r : Bool}
    (h : kvmMipsFlushGpaPte c pte s e = some (pte', r)) (hp : ∀ k, P (pte k)) (k : Nat) :
    P (pte' k) :=
  forSlots_preserve (fun _ x y _ h hx => by
    by_cases hx' : x.present <;> simp [hx'] at h <;> rw [← h.1] <;> assumption) h hp k

theorem flushGpaPmdSlot_ok (hz : P Pte.zero) {s e : Nat} {p p' : Pmd} {r : Bool}
    (h : flushGpaPmdSlot c s e p = some (p', r)) (hp : PmdOk P p) : PmdOk P p' := by
  unfold flushGpaPmdSlot at h
  split at h
  · cases h; exact hp
  · split at h
    · cases h; trivial
    · split at h
      · obtain ⟨⟨pte', r'⟩, hf, hy⟩ := Option.map_eq_some'.mp h
        split at hy <;> cases hy
        · trivial
        · exact flushPte_ok hz hf hp
      · cases h

theorem flushPmd_ok (hz : P Pte.zero) {pmd pmd' : PmdTable} {s e : Nat} {r : Bool}
    (h : kvmMipsFlushGpaPmd c pmd s e = some (pmd', r)) (hp : ∀ j, PmdOk P (pmd j)) (j : Nat) :
    PmdOk P (pmd' j) :=
  forSlots_preserve (fun _ _ _ _ h hx => flushGpaPmdSlot_ok hz h hx) h hp j

theorem flushPud_ok (hz : P Pte.zero) {pud pud' : Option PmdTable} {s e : Nat} {r : Bool}
    (h : kvmMipsFlushGpaPud c pud s e = some (pud', r)) (hp : PudOk P pud) : PudOk P pud' := by
  unfold kvmMipsFlushGpaPud at h
  split at h
  · cases h; exact hp
  · obtain ⟨⟨pmd', r'⟩, hf, hy⟩ := Option.map_eq_some'.mp h
    split at hy <;> cases hy
    · rintro _ ⟨⟩
    · exact pudOk_some (flushPmd_ok hz hf (hp _ rfl))

theorem flushPgd_ok (hz : P Pte.zero) {pgd pgd' : Pgd} {s e : Nat} {r : Bool}
    (h : kvmMipsFlushGpaPgd c pgd s e = some (pgd', r)) (hp : AllPte P pgd) : AllPte P pgd' :=
  forSlots_preserve (fun _ _ _ _ h hx => flushPud_ok hz h hx) h hp

theorem flushPt_ok (hz : P Pte.zero) {pgd pgd' : Pgd} {a b : Nat} {r : Bool}
    (h : kvmMipsFlushGpaPt c pgd a b = some (pgd', r)) (hp : AllPte P pgd) : AllPte P pgd' :=
  flushPgd_ok hz h hp

/-! ## The range operations -/

section RangeOp
variable {op op1 : Pte → Pte} (hop : ∀ e, P e → P (op e)) (hop1 : ∀ e, P e → P (op1 e))
include hop

theorem rangeOpPte_ok {pte pte' : PteTable} {s e : Nat} {r : Bool}
    (h : rangeOpPte c op pte s e = some (pte', r)) (hp : ∀ k, P (pte k)) (k : Nat) :
    P (pte' k) :=
  forSlots_preserve (fun _ x y _ h hx => by
    split at h
    · cases h; exact hx
    · split at h <;> cases h
      · exact hx
      · exact hop x hx) h hp k

include hop1

theorem rangeOpPmd_ok {pmd pmd' : PmdTable} {s e : Nat} {r : Bool}
    (h : rangeOpPmd c op op1 pmd s e = some (pmd', r)) (hp : ∀ j, PmdOk P (pmd j)) (j : Nat) :
    PmdOk P (pmd' j) := by
  refine forSlots_preserve (fun i x y r' h hx => ?_) h hp j
  simp only at h
  split at h
  · cases h; exact hx
  · split at h
    · split at h
      · split at h <;> cases h
        · exact hx
        · exact hop1 _ hx
      · cases h
    · obtain ⟨⟨pte', r''⟩, hf, hy⟩ := Option.map_eq_some'.mp h
      cases hy
      exact rangeOpPte_ok hop hf hx
    · cases h; exact hx

theorem rangeOpPgd_ok {pgd pgd' : Pgd} {s e : Nat} {r : Bool}
    (h : rangeOpPgd c op op1 pgd s e = some (pgd', r)) (hp : AllPte P pgd) : AllPte P pgd' := by
  refine forSlots_preserve (fun i x y r' h hx => ?_) h hp
  unfold rangeOpPud at h
  split at h
  · cases h; exact hx
  · obtain ⟨⟨pmd', r''⟩, hf, hy⟩ := Option.map_eq_some'.mp h
    cases hy
    exact pudOk_some (rangeOpPmd_ok hop hop1 hf (hx _ rfl))

end RangeOp

/-! ## Walks and stores -/

theorem walkPmdLevel_ok (hz : P Pte.zero) {pgd : Pgd} {pmd : PmdTable} {cache : Option Nat}
    {addr : Nat} {w : Walked} (h : kvmMipsWalkPgd.pmdLevel c addr pgd pmd cache = some w)
    (hp : AllPte P pgd) (hpmd : ∀ j, PmdOk P (pmd j)) : AllPte P w.pgd := by
  unfold kvmMipsWalkPgd.pmdLevel at h
  split at h
  · cases h; exact hp
  · split at h
    · cases h; exact hp
    · obtain ⟨n', _, hw⟩ := Option.bind_eq_some.mp h
      cases hw
      exact allPte_update hp (pudOk_some (pmdOk_update hpmd (fun _ => hz)))
    · cases h; exact hp

theorem walk_ok (hz : P Pte.zero) {pgd : Pgd} {cache : Option Nat} {addr : Nat} {w : Walked}
    (h : kvmMipsWalkPgd c pgd cache addr = some w) (hp : AllPte P pgd) : AllPte P w.pgd := by
  unfold kvmMipsWalkPgd at h
  split at h
  · rename_i pmd _ hs
    exact walkPmdLevel_ok hz h hp (hp _ _ hs)
  · cases h; exact hp
  · obtain ⟨n', _, hw⟩ := Option.bind_eq_some.mp h
    exact walkPmdLevel_ok hz hw (allPte_update hp (pudOk_some fun _ => trivial)) fun _ => trivial

theorem readPte_ok {pgd : Pgd} {p : PtePtr} {e : Pte} (h : pgd.readPte p = some e)
    (hp : AllPte P pgd) : P e := by
  cases p with
  | leaf i j k =>
    simp only [Pgd.readPte] at h
    split at h
    · rename_i pmd hi
      split at h
      · rename_i pte hj
        cases h
        have := hp i pmd hi j
        rw [hj] at this
        exact this k
      · cases h
    · cases h
  | pmd i j =>
    simp only [Pgd.readPte] at h
    split at h
    · rename_i pmd hi
      split at h
      · rename_i e' hj
        cases h
        have := hp i pmd hi j
        rw [hj] at this
        exact this
      · cases h
    · cases h

theorem setPte_ok {pgd pgd' : Pgd} {p : PtePtr} {v : Pte} (h : pgd.setPte p v = some pgd')
    (hp : AllPte P pgd) (hv : P v) : AllPte P pgd' := by
  cases p with
  | leaf i j k =>
    simp only [Pgd.setPte] at h
    split at h
    · rename_i pmd hi
      split at h
      · rename_i pte hj
        cases h
        have hpte := hp i pmd hi j
        rw [hj] at hpte
        refine allPte_update hp (pudOk_some (pmdOk_update (hp i pmd hi) fun k' => ?_))
        rw [update_apply]; split
        · exact hv
        · exact hpte k'
      · cases h
    · cases h
  | pmd i j =>
    simp only [Pgd.setPte] at h
    split at h
    · rename_i pmd hi
      cases h
      exact allPte_update hp (pudOk_some (pmdOk_update (hp i pmd hi) hv))
    · cases h

/-! ## The notifier entry points -/

/-- A handler that keeps `AllPte P` makes `handle_hva_to_gpa` keep it. -/
theorem handleHvaToGpa_ok {handler : HvaHandler}
    (hh : ∀ pgd gfn gfnEnd s pgd' r, handler pgd gfn gfnEnd s = some (pgd', r) →
      AllPte P pgd → AllPte P pgd') {start «end» : Nat} :
    ∀ {slots : List Memslot} {pgd pgd' : Pgd} {ret r : Bool},
      handleHvaToGpa c start «end» handler slots pgd ret = some (pgd', r) → AllPte P pgd →
      AllPte P pgd'
  | [], _, _, _, _, h, hp => by simp only [handleHvaToGpa, Option.some.injEq, Prod.mk.injEq] at h; exact h.1 ▸ hp
  | _ :: _, _, _, _, _, h, hp => by
    simp only [handleHvaToGpa] at h
    split at h
    · exact handleHvaToGpa_ok hh h hp
    · obtain ⟨⟨pgd1, r1⟩, h1, h2⟩ := Option.bind_eq_some.mp h
      exact handleHvaToGpa_ok hh h2 (hh _ _ _ _ _ _ h1 hp)

theorem unmapHandler_ok (hz : P Pte.zero) {pgd pgd' : Pgd} {gfn gfnEnd : Nat} {s : Memslot}
    {r : Bool} (h : kvmUnmapHvaHandler c pgd gfn gfnEnd s = some (pgd', r)) (hp : AllPte P pgd) :
    AllPte P pgd' := by
  obtain ⟨⟨pgd1, r1⟩, hf, hy⟩ := Option.map_eq_some'.mp h
  cases hy
  exact flushPt_ok hz hf hp

theorem setSpteHandler_ok {hvaPte : Pte} (hv : P hvaPte) {pgd pgd' : Pgd} {gfn gfnEnd : Nat}
    {s : Memslot} {r : Bool} (h : kvmSetSpteHandler c hvaPte pgd gfn gfnEnd s = some (pgd', r))
    (hp : AllPte P pgd) : AllPte P pgd' := by
  obtain ⟨w, _, h⟩ := Option.bind_eq_some.mp h
  split at h
  · cases h; exact hp
  · obtain ⟨old, _, h⟩ := Option.bind_eq_some.mp h
    obtain ⟨pgd1, hs, hy⟩ := Option.map_eq_some'.mp h
    cases hy
    exact setPte_ok hs hp hv

theorem ageHandler_ok (hold : ∀ e, P e → P (pteMkold e)) {pgd pgd' : Pgd} {gfn gfnEnd : Nat}
    {s : Memslot} {r : Bool} (h : kvmAgeHvaHandler c pgd gfn gfnEnd s = some (pgd', r))
    (hp : AllPte P pgd) : AllPte P pgd' :=
  rangeOpPgd_ok hold hold h hp

theorem kvmUnmapHvaRange_ok (hz : P Pte.zero) {slots : List Memslot} {pgd pgd' : Pgd}
    {start «end» : Nat} (h : kvmUnmapHvaRange c slots pgd start «end» = some pgd')
    (hp : AllPte P pgd) : AllPte P pgd' := by
  obtain ⟨⟨pgd1, r⟩, hh, rfl⟩ := Option.map_eq_some'.mp h
  exact handleHvaToGpa_ok (fun _ _ _ _ _ _ h hp => unmapHandler_ok hz h hp) hh hp

/-! ## Huge installs and the commit -/

theorem getPmd_ok {pgd pgd' : Pgd} {cache cache' addr : Nat} {pmd : PmdTable}
    (h : kvmMipsGetPmd c pgd cache addr = some (pgd', cache', pmd)) (hp : AllPte P pgd) :
    AllPte P pgd' ∧ (∀ j, PmdOk P (pmd j)) ∧ pgd' (c.pgdIndex addr) = some pmd := by
  unfold kvmMipsGetPmd at h
  split at h
  · rename_i pmd0 hi
    cases h
    exact ⟨hp, hp _ _ hi, hi⟩
  · obtain ⟨n, _, hy⟩ := Option.map_eq_some'.mp h
    cases hy
    exact ⟨allPte_update hp (pudOk_some fun _ => trivial), fun _ => trivial, update_same _ _ _⟩

theorem setPmdHuge_ok (hz : P Pte.zero) {newPmd : Pte} (hv : P newPmd) {addr : Nat} :
    ∀ {fuel : Nat} {pgd pgd' : Pgd} {cache cache' : Nat} {inv : Bool},
      kvmMipsSetPmdHuge c pgd cache addr newPmd fuel = some (pgd', cache', inv) →
      AllPte P pgd → AllPte P pgd'
  | 0, _, _, _, _, _, h, _ => by simp [kvmMipsSetPmdHuge] at h
  | fuel + 1, pgd, pgd', cache, cache', inv, h, hp => by
    simp only [kvmMipsSetPmdHuge] at h
    obtain ⟨⟨pgd1, cache1, pmd⟩, hg, h⟩ := Option.bind_eq_some.mp h
    obtain ⟨hp1, hpmd, hi⟩ := getPmd_ok hg hp
    have hinstall : AllPte P (update pgd1 (c.pgdIndex addr)
        (some (update pmd (c.pmdOffset addr) (.val newPmd)))) :=
      allPte_update hp1 (pudOk_some (pmdOk_update hpmd hv))
    simp only at h
    split at h
    · split at h
      · cases h; exact hp1
      · split at h
        · obtain ⟨⟨pgd2, r⟩, hf, hrec⟩ := Option.bind_eq_some.mp h
          exact setPmdHuge_ok hz hv hrec (flushPt_ok hz hf hp1)
        · cases h; exact hinstall
    · obtain ⟨⟨pgd2, r⟩, hf, hrec⟩ := Option.bind_eq_some.mp h
      exact setPmdHuge_ok hz hv hrec (flushPt_ok hz hf hp1)
    · cases h; exact hinstall

/-- The install keeps `AllPte P` when `P` holds of the zero entry and of every entry it can
build from the prot bits. -/
theorem mapPageInstall_ok (hz : P Pte.zero) {vm : Vm} {cache gpa gfn size pfn fuel : Nat}
    {wf writeable : Bool} {vm' : Vm} {cache' : Nat} {inv : Option Nat}
    (hpte : P (pfnPte pfn (mapPageProt c writeable wf)))
    (hpmd : P (pmdMkhuge (pfnPmd pfn (mapPageProt c writeable wf))))
    (h : mapPageInstall c vm cache gpa wf gfn size pfn writeable fuel = some (.done vm' cache' inv))
    (hp : AllPte P vm.pgd) : AllPte P vm'.pgd := by
  unfold mapPageInstall at h
  split at h
  · obtain ⟨r, hr, hy⟩ := Option.map_eq_some'.mp h
    cases hy
    exact setPmdHuge_ok hz hpmd hr hp
  · obtain ⟨w, hw, h⟩ := Option.bind_eq_some.mp h
    split at h
    · obtain ⟨pgd, hs, hy⟩ := Option.map_eq_some'.mp h
      cases hy
      exact setPte_ok hs (walk_ok hz hw hp) hpte
    · cases h

/-- `kvm_mips_map_page`'s commit keeps `AllPte P` when `P` holds of the zero entry and of every
entry the commit can build from the prot bits. -/
theorem mapPageCommit_ok (hz : P Pte.zero) {host : Host} {vm vm' : Vm} {cache cache' gpa : Nat}
    {wf writeable : Bool} {d : Decision} {s pfn fuel : Nat} {inv : Option Nat}
    (hpte : ∀ pfn, P (pfnPte pfn (mapPageProt c writeable wf)))
    (hpmd : ∀ pfn, P (pmdMkhuge (pfnPmd pfn (mapPageProt c writeable wf))))
    (h : mapPageCommit c host vm cache gpa wf d s pfn writeable fuel = some (.done vm' cache' inv))
    (hp : AllPte P vm.pgd) : AllPte P vm'.pgd := by
  unfold mapPageCommit at h
  split at h
  · cases h
  · exact mapPageInstall_ok hz (hpte _) (hpmd _) h hp

/-- The fast path keeps `AllPte P` when marking young keeps `P`, and marking a present writable
entry dirty does. -/
theorem mapPageFast_ok (hy : ∀ e, P e → P (pteMkyoung e))
    (hd : ∀ e, P e → e.present = true → e.write = true → P (pteMkdirty e)) {vm vm' : Vm}
    {gpa : Nat} {wf : Bool} {r : Int} (h : kvmMipsMapPageFast c vm gpa wf = some (r, vm'))
    (hp : AllPte P vm.pgd) : AllPte P vm'.pgd := by
  unfold kvmMipsMapPageFast at h
  obtain ⟨w, -, h⟩ := Option.bind_eq_some.mp h
  rcases hq : w.ptep with _ | p <;> simp only [hq] at h
  · cases h; exact hp
  obtain ⟨e, he, h⟩ := Option.bind_eq_some.mp h
  by_cases hpres : e.present = true
  swap
  · rw [if_pos (by simpa using hpres)] at h
    cases h; exact hp
  rw [if_neg (by simp [hpres])] at h
  obtain ⟨pgd1, h1, h⟩ := Option.bind_eq_some.mp h
  -- after `pte_mkyoung` the entry behind the pointer is still present
  have hp1 : AllPte P pgd1 ∧ ∀ e1, pgd1.readPte p = some e1 → e1.present = true := by
    split at h1
    · refine ⟨setPte_ok h1 hp (hy e (readPte_ok he hp)), fun e1 he1 => ?_⟩
      rw [readPte_setPte h1] at he1; cases he1; exact hpres
    · cases h1
      exact ⟨hp, fun e1 he1 => by rw [he] at he1; cases he1; exact hpres⟩
  obtain ⟨e1, he1, h⟩ := Option.bind_eq_some.mp h
  by_cases hc : (wf && !e1.dirty) = true
  swap
  · rw [if_neg hc] at h
    cases h; exact hp1.1
  rw [if_pos hc] at h
  by_cases hw : e1.write = true
  swap
  · rw [if_pos (by simpa using hw)] at h
    cases h; exact hp1.1
  rw [if_neg (by simp [hw])] at h
  obtain ⟨pgd2, h2, h⟩ := Option.bind_eq_some.mp h
  obtain ⟨_, _, h⟩ := Option.map_eq_some'.mp h
  cases h
  exact setPte_ok h2 hp1.1 (hd e1 (readPte_ok he1 hp1.1) (hp1.2 e1 he1) hw)

/-! ## Steps of the system -/

/-- The ways one step of the system can change the GPA table of `vm`: `PgdStep c slots a vm pgd'`
says that action `a` can leave the table `pgd'`. -/
inductive PgdStep (c : Config) (slots : List Memslot) : Action → Vm → Pgd → Prop where
  | same {a vm} : PgdStep c slots a vm vm.pgd
  | unmap {a vm s e pgd'} : kvmUnmapHvaRange c slots vm.pgd s e = some pgd' →
      PgdStep c slots a vm pgd'
  | setSpte {vm hva pte pgd' r} : kvmSetSpteHva c slots vm.pgd hva pte = some (pgd', r) →
      PgdStep c slots (.setSpte hva pte) vm pgd'
  | age {a vm s e pgd' r} : kvmAgeHva c slots vm.pgd s e = some (pgd', r) →
      PgdStep c slots a vm pgd'
  | mkclean {a vm s e pgd' r} : kvmMipsMkcleanGpaPt c vm.pgd s e = some (pgd', r) →
      PgdStep c slots a vm pgd'
  | flush {a vm s e pgd' r} : kvmMipsFlushGpaPt c vm.pgd s e = some (pgd', r) →
      PgdStep c slots a vm pgd'
  | fast {a vm gpa wf r vm'} : kvmMipsMapPageFast c vm gpa wf = some (r, vm') →
      PgdStep c slots a vm vm'.pgd
  | commit {v vm host cache gpa wf d s pfn writeable fuel vm' cache' inv} :
      mapPageCommit c host vm cache gpa wf d s pfn writeable fuel = some (.done vm' cache' inv) →
      PgdStep c slots (.commit v fuel) vm vm'.pgd

theorem faultStep_pgdStep {w w' : World} {v : Nat} {f : Fault} {a : Action}
    (h : faultStep c slots w v f a = some w') : PgdStep c slots a w.vm w'.vm.pgd := by
  cases a with
  | fast =>
    simp only [faultStep] at h
    split at h
    · split at h
      · cases h; exact .same
      · split at h
        · obtain ⟨r, hr, rfl⟩ := Option.map_eq_some'.mp h
          exact .fast hr
        · cases h; exact .same
    · cases h
  | commit =>
    simp only [faultStep] at h
    split at h
    · obtain ⟨r, hr, rfl⟩ := Option.map_eq_some'.mp h
      split
      · exact .same
      · exact .commit hr
    · cases h
  | _ => simp only [faultStep] at h; (try split at h) <;> cases h <;> exact .same

/-- **What one step can do to the GPA table.** -/
theorem step_pgdStep {w w' : World} {a : Action} (h : step c slots w a = some w') :
    PgdStep c slots a w.vm w'.vm.pgd := by
  cases a with
  | fault => simp only [step] at h; split at h <;> cases h; exact .same
  | refill => simp only [step] at h; split at h <;> (try split at h) <;> cases h; exact .same
  | invalidateStart =>
    obtain ⟨pgd, hu, rfl⟩ := Option.map_eq_some'.mp h
    simp only [World.kvmVzFlushShadowAll_vm]
    exact .unmap hu
  | hostChange | invalidateEnd => simp only [step] at h; split at h <;> cases h; exact .same
  | setSpte =>
    simp only [step] at h
    split at h
    · obtain ⟨r, hr, rfl⟩ := Option.map_eq_some'.mp h
      split <;> simp only [World.kvmVzFlushShadowAll_vm] <;> exact .setSpte hr
    · cases h
  | age =>
    obtain ⟨r, hr, rfl⟩ := Option.map_eq_some'.mp h
    split <;> exact .age hr
  | testAge => obtain ⟨_, _, rfl⟩ := Option.map_eq_some'.mp h; exact .same
  | harvest =>
    obtain ⟨r, hr, rfl⟩ := Option.map_eq_some'.mp h
    split <;> exact .mkclean hr
  | flushGpa => obtain ⟨r, hr, rfl⟩ := Option.map_eq_some'.mp h; exact .flush hr
  | _ =>
    simp only [step, Action.thread] at h
    obtain ⟨f, _, h⟩ := Option.bind_eq_some.mp h
    exact faultStep_pgdStep h

/-! ## Every reachable world -/

/-- `P` holds of the zero entry and of every entry value the code builds from entries satisfying
it: the range operations' results, the fast path's young and dirty marks (dirty only on a present
writable entry), and the commit's new leaf and huge entries for any frame and rights. -/
structure EntryClosed (c : Config) (P : Pte → Prop) : Prop where
  zero : P Pte.zero
  mkold : ∀ e, P e → P (pteMkold e)
  mkclean : ∀ e, P e → P (pteMkclean e)
  mkyoung : ∀ e, P e → P (pteMkyoung e)
  mkdirty : ∀ e, P e → e.present = true → e.write = true → P (pteMkdirty e)
  pte : ∀ writeable wf pfn, P (pfnPte pfn (mapPageProt c writeable wf))
  pmd : ∀ writeable wf pfn, P (pmdMkhuge (pfnPmd pfn (mapPageProt c writeable wf)))

theorem pgdStep_ok (hP : EntryClosed c P) {a : Action} (ha : ∀ hva pte, a = .setSpte hva pte → P pte)
    {vm : Vm} {pgd' : Pgd} (h : PgdStep c slots a vm pgd') (hp : AllPte P vm.pgd) : AllPte P pgd' := by
  cases h with
  | same => exact hp
  | unmap h => exact kvmUnmapHvaRange_ok hP.zero h hp
  | setSpte h =>
    exact handleHvaToGpa_ok (fun _ _ _ _ _ _ h hp => setSpteHandler_ok (ha _ _ rfl) h hp) h hp
  | age h => exact handleHvaToGpa_ok (fun _ _ _ _ _ _ h hp => ageHandler_ok hP.mkold h hp) h hp
  | mkclean h => exact rangeOpPgd_ok hP.mkclean hP.mkclean h hp
  | flush h => exact flushPt_ok hP.zero h hp
  | fast h => exact mapPageFast_ok hP.mkyoung hP.mkdirty h hp
  | commit h => exact mapPageCommit_ok hP.zero (hP.pte _ _) (hP.pmd _ _) h hp

/-- **`AllPte P` holds in every reachable world** when `P` is closed under the code's entry
operations and every pte the host hands `kvm_set_spte_hva` satisfies it. -/
theorem allPte_reachable {ok : Action → Prop} (hP : EntryClosed c P)
    (hok : ∀ a hva pte, ok a → a = .setSpte hva pte → P pte) {host : Host} {w : World}
    (hw : ReachableBy c slots ok host w) : AllPte P w.vm.pgd := by
  induction hw with
  | init => exact allPte_init
  | step a ha _ hs ih => exact pgdStep_ok hP (hok a · · ha) (step_pgdStep hs) ih

/-- The entry governing a frame is one of the stored entry values. -/
theorem entry_ok {pgd : Pgd} (hp : AllPte P pgd) {gfn : Nat} {e : Pte}
    (h : pgd.entry c gfn = some e) : P e := by
  obtain ⟨pmd, hi, h⟩ := Option.bind_eq_some.mp h
  have hj := hp _ pmd hi (c.pmdIdx gfn)
  revert hj h
  cases pmd (c.pmdIdx gfn) <;> simp only [Pmd.entryAt, PmdOk]
  · intro h; cases h
  · intro h hj; cases h; exact hj _
  · intro h hj; split at h <;> cases h; exact hj

end LoongsonDune.Proof
