import LoongsonDune.Proof.Preserve
import LoongsonDune.Proof.Walk
import LoongsonDune.Proof.Commit

/-!
# Which steps change a translation

A *view* `V` says what an entry shows each leaf index below it. The translation view `Pte.mapAt`
shows the host frame behind a present entry. `Shrinks V pgd pgd'` says that `pgd'` shows every
frame nothing through `V`, or what `pgd` shows it, and holds an entry value in a middle slot only
where `pgd` did. Most of `kern/mmu.c` shrinks the table in this sense for every view that shows
nothing of an absent entry: the flush zeroes leaf entries and frees tables, and the allocating walk
links nodes that map nothing. The range operations and the fast path shrink it for the views their
bit changes keep: all of them keep the translation.

Each operation is shown to shrink the table once, level by level, with `forSlots_rel` carrying the
slot relation through each loop. A step of the system then adds a translation only in a fault's
commit or in `kvm_set_spte_hva`.
-/

namespace LoongsonDune

/-- The host frame entry `e` gives leaf index `k` below it, when it is present: its own frame for
a leaf entry, the frame at offset `k` of the block for a huge one. -/
def Pte.mapAt (e : Pte) (k : Nat) : Option Nat :=
  if e.present then some (if e.huge then e.pfn + k else e.pfn) else none

/-- What a middle-level slot shows leaf index `k` through a view `V` of its entries. -/
def Pmd.viewAt {α : Type} (V : Pte → Nat → Option α) (p : Pmd) (k : Nat) : Option α :=
  (p.entryAt k).bind fun e => V e k

/-- Whether a middle-level slot holds an entry value. -/
def Pmd.isVal : Pmd → Bool
  | .val _ => true
  | _ => false

/-- Middle slot `j` below top slot `i`; a missing middle table reads as `invalid_pmd_table`, all of
whose slots are `invalid_pte_table`. -/
def Pgd.slot (pgd : Pgd) (i j : Nat) : Pmd := (pgd i).getD pmdInit j

section View
variable {α : Type} (V : Pte → Nat → Option α)

@[simp] theorem Pmd.viewAt_invalid (k : Nat) : Pmd.invalid.viewAt V k = none := rfl
@[simp] theorem Pmd.viewAt_table (pte : PteTable) (k : Nat) :
    (Pmd.table pte).viewAt V k = V (pte k) k := rfl
theorem Pmd.viewAt_val (e : Pte) (k : Nat) :
    (Pmd.val e).viewAt V k = if e.huge then V e k else none := by
  rw [Pmd.viewAt, Pmd.entryAt]; split <;> rfl

/-- The view of a frame's entry is what its middle slot shows its leaf index. -/
theorem Pgd.entry_bind_viewAt (c : Config) (pgd : Pgd) (g : Nat) :
    (pgd.entry c g).bind (V · (c.pteIdx g)) =
      (pgd.slot (c.pgdIdx g) (c.pmdIdx g)).viewAt V (c.pteIdx g) := by
  unfold Pgd.entry Pgd.slot Pmd.viewAt
  cases pgd (c.pgdIdx g) <;> rfl

end View

@[simp] theorem Pte.mapAt_zero (k : Nat) : Pte.zero.mapAt k = none := rfl
@[simp] theorem Pmd.isVal_invalid : Pmd.invalid.isVal = false := rfl
@[simp] theorem Pmd.isVal_table (pte : PteTable) : (Pmd.table pte).isVal = false := rfl
@[simp] theorem Pmd.isVal_val (e : Pte) : (Pmd.val e).isVal = true := rfl

theorem Pte.mapAt_eq_some (c : Config) {e : Pte} {g x : Nat} :
    e.mapAt (c.pteIdx g) = some x ↔ e.present = true ∧ e.frameOf c g = x := by
  unfold Pte.mapAt Pte.frameOf
  split <;> simp [*]

/-- The view of one bit of an entry: a present entry with `flag` set shows it to every leaf index
below it. -/
def Pte.flagAt (flag : Pte → Bool) (e : Pte) (_ : Nat) : Option Unit :=
  if e.present && flag e then some () else none

@[simp] theorem Pte.flagAt_zero (flag : Pte → Bool) (k : Nat) : Pte.zero.flagAt flag k = none :=
  rfl

theorem Pte.flagAt_eq_some {flag : Pte → Bool} {e : Pte} {k : Nat} :
    e.flagAt flag k = some () ↔ e.present = true ∧ flag e = true := by
  unfold Pte.flagAt
  split <;> simp_all

end LoongsonDune

namespace LoongsonDune.Proof

open LoongsonDune Function

/-! ## Shrinking, level by level -/

section Relations
variable {α : Type} (V : Pte → Nat → Option α)

/-- `e'` keeps the translation of `e`: present bit, huge bit and frame agree. -/
def SameMap (e e' : Pte) : Prop := e'.present = e.present ∧ e'.huge = e.huge ∧ e'.pfn = e.pfn

/-- `e'` shows no leaf index anything through `V` that `e` does not show it. -/
def PteShrinks (e e' : Pte) : Prop := ∀ k x, V e' k = some x → V e k = some x

/-- Rewriting an entry with `op` keeps its huge bit and shows nothing new through `V`. -/
def OpShrinks (op : Pte → Pte) : Prop := ∀ e, (op e).huge = e.huge ∧ PteShrinks V e (op e)

/-- Slot `p'` shows no leaf index anything through `V` that `p` does not show it, and holds an
entry value only if `p` does. -/
structure SlotShrinks (p p' : Pmd) : Prop where
  map : ∀ k x, p'.viewAt V k = some x → p.viewAt V k = some x
  val : p'.isVal = true → p.isVal = true

/-- Every middle slot under top slot `pud'` shrinks the one under `pud`. -/
def PudShrinks (pud pud' : Option PmdTable) : Prop :=
  ∀ j, SlotShrinks V (pud.getD pmdInit j) (pud'.getD pmdInit j)

/-- **`pgd'` only takes away from `pgd` what `V` shows**, and adds no entry value to a middle
slot. -/
def Shrinks (pgd pgd' : Pgd) : Prop := ∀ i, PudShrinks V (pgd i) (pgd' i)

variable {V} {e e' : Pte} {p p' p'' : Pmd} {pud pud' pud'' : Option PmdTable} {pgd pgd' pgd'' : Pgd}

theorem SameMap.mapAt (h : SameMap e e') (k : Nat) : e'.mapAt k = e.mapAt k := by
  obtain ⟨h1, h2, h3⟩ := h
  simp only [Pte.mapAt, h1, h2, h3]

/-- An operation that keeps every translation shrinks the table in the translation view. -/
theorem opShrinks_of_sameMap {op : Pte → Pte} (h : ∀ e, SameMap e (op e)) :
    OpShrinks Pte.mapAt op := fun e =>
  ⟨(h e).2.1, fun k x hx => by rwa [← (h e).mapAt]⟩

/-- An operation that keeps the present and huge bits and never sets `flag` shows nothing new in
the flag's view. -/
theorem opShrinks_flagAt {flag : Pte → Bool} {op : Pte → Pte}
    (hp : ∀ e, (op e).present = e.present) (hh : ∀ e, (op e).huge = e.huge)
    (hf : ∀ e, flag (op e) = true → flag e = true) : OpShrinks (Pte.flagAt flag) op :=
  fun e => ⟨hh e, fun k u hu => by
    obtain ⟨h1, h2⟩ := Pte.flagAt_eq_some.mp hu
    exact Pte.flagAt_eq_some.mpr ⟨(hp e).symm.trans h1, hf e h2⟩⟩

theorem PteShrinks.refl (e : Pte) : PteShrinks V e e := fun _ _ h => h

theorem pteShrinks_zero (hz : ∀ k, V Pte.zero k = none) (e : Pte) : PteShrinks V e Pte.zero :=
  fun k _ h => by rw [hz] at h; cases h

theorem SlotShrinks.refl (p : Pmd) : SlotShrinks V p p := ⟨fun _ _ h => h, id⟩

theorem SlotShrinks.trans (h1 : SlotShrinks V p p') (h2 : SlotShrinks V p' p'') :
    SlotShrinks V p p'' :=
  ⟨fun k x h => h1.map k x (h2.map k x h), fun h => h1.val (h2.val h)⟩

theorem slotShrinks_invalid (p : Pmd) : SlotShrinks V p .invalid :=
  ⟨fun _ _ h => (by cases h), fun h => (by cases h)⟩

theorem slotShrinks_table {pte pte' : PteTable} (h : ∀ k, PteShrinks V (pte k) (pte' k)) :
    SlotShrinks V (.table pte) (.table pte') :=
  ⟨fun k x hx => h k k x hx, fun h => by cases h⟩

/-- A fresh leaf table of zero entries shows nothing. -/
theorem slotShrinks_clearPage (hz : ∀ k, V Pte.zero k = none) (p : Pmd) :
    SlotShrinks V p (.table clearPage) :=
  ⟨fun k _ h => (by rw [Pmd.viewAt_table, clearPage, hz] at h; cases h), fun h => (by cases h)⟩

theorem slotShrinks_val (hh : e'.huge = e.huge) (h : PteShrinks V e e') :
    SlotShrinks V (.val e) (.val e') :=
  ⟨fun k x hx => (by
    rw [Pmd.viewAt_val, hh] at hx
    rw [Pmd.viewAt_val]
    split at hx
    · rw [if_pos ‹_›]; exact h k x hx
    · cases hx), fun _ => rfl⟩

theorem PudShrinks.refl (pud : Option PmdTable) : PudShrinks V pud pud := fun _ => .refl _

theorem PudShrinks.trans (h1 : PudShrinks V pud pud') (h2 : PudShrinks V pud' pud'') :
    PudShrinks V pud pud'' := fun j => (h1 j).trans (h2 j)

theorem pudShrinks_none (pud : Option PmdTable) : PudShrinks V pud none :=
  fun _ => slotShrinks_invalid _

theorem pudShrinks_some {pmd pmd' : PmdTable} (h : ∀ j, SlotShrinks V (pmd j) (pmd' j)) :
    PudShrinks V (some pmd) (some pmd') := h

theorem Shrinks.refl (pgd : Pgd) : Shrinks V pgd pgd := fun _ => .refl _

theorem Shrinks.trans (h1 : Shrinks V pgd pgd') (h2 : Shrinks V pgd' pgd'') : Shrinks V pgd pgd'' :=
  fun i => (h1 i).trans (h2 i)

theorem shrinks_update {i : Nat} (h : PudShrinks V (pgd i) pud) : Shrinks V pgd (update pgd i pud) := by
  intro i'
  rw [update_apply]; split
  · subst_vars; exact h
  · exact .refl _

/-- Replacing one middle slot by a slot that shrinks it shrinks the table. -/
theorem shrinks_update_slot {i j : Nat} {pmd : PmdTable} (hi : pgd i = some pmd)
    (hp : SlotShrinks V (pmd j) p) : Shrinks V pgd (update pgd i (some (update pmd j p))) := by
  refine shrinks_update fun j' => ?_
  rw [hi, Option.getD_some, Option.getD_some, update_apply]; split
  · subst_vars; exact hp
  · exact .refl _

theorem Shrinks.slot (h : Shrinks V pgd pgd') (i j : Nat) :
    SlotShrinks V (pgd.slot i j) (pgd'.slot i j) :=
  h i j

/-- What shrinking means for the entry governing a frame: what the entry afterwards shows the
frame, the entry before showed it. -/
theorem Shrinks.entryView (c : Config) (h : Shrinks V pgd pgd') {g : Nat} {x : α}
    (he : pgd'.entry c g = some e') (hx : V e' (c.pteIdx g) = some x) :
    ∃ e, pgd.entry c g = some e ∧ V e (c.pteIdx g) = some x := by
  have h' : (pgd'.entry c g).bind (V · (c.pteIdx g)) = some x := by rw [he, Option.some_bind, hx]
  rw [Pgd.entry_bind_viewAt] at h'
  have h0 := (h.slot _ _).map _ _ h'
  rw [← Pgd.entry_bind_viewAt] at h0
  exact Option.bind_eq_some.mp h0

/-- A present entry with `flag` set, in a table that shrinks in the flag's view, was one before. -/
theorem Shrinks.flagEntry (c : Config) {flag : Pte → Bool} (h : Shrinks (Pte.flagAt flag) pgd pgd')
    {g : Nat} {e' : Pte} (he : pgd'.entry c g = some e') (hp : e'.present = true)
    (hf : flag e' = true) : ∃ e, pgd.entry c g = some e ∧ e.present = true ∧ flag e = true := by
  obtain ⟨e, he0, hv⟩ := h.entryView c he (Pte.flagAt_eq_some.mpr ⟨hp, hf⟩)
  exact ⟨e, he0, Pte.flagAt_eq_some.mp hv⟩

/-- **What shrinking the translations means for the entry governing a frame**: a present entry
afterwards was a present entry before, giving the frame the same host frame. -/
theorem Shrinks.entry (c : Config) (h : Shrinks Pte.mapAt pgd pgd') {g : Nat} {e' : Pte}
    (he : pgd'.entry c g = some e') (hp : e'.present = true) :
    ∃ e, pgd.entry c g = some e ∧ e.present = true ∧ e.frameOf c g = e'.frameOf c g := by
  obtain ⟨e, he0, hm⟩ := h.entryView c he ((Pte.mapAt_eq_some c).mpr ⟨hp, rfl⟩)
  exact ⟨e, he0, (Pte.mapAt_eq_some c).mp hm⟩

/-- Shrinking keeps every middle slot free of entry values. -/
theorem Shrinks.noVal (h : Shrinks V pgd pgd') (hnv : ∀ i j, (pgd.slot i j).isVal = false)
    (i j : Nat) : (pgd'.slot i j).isVal = false :=
  Bool.eq_false_iff.mpr fun hv => by simpa [hnv i j] using (h.slot i j).val hv

end Relations

section Ops
variable {c : Config} {α : Type} {V : Pte → Nat → Option α}

theorem sameMap_pteMkold (e : Pte) : SameMap e (pteMkold e) := ⟨rfl, rfl, rfl⟩
theorem sameMap_pteMkclean (e : Pte) : SameMap e (pteMkclean e) := ⟨rfl, rfl, rfl⟩
theorem sameMap_pteMkyoung (e : Pte) : SameMap e (pteMkyoung e) := ⟨rfl, rfl, rfl⟩
theorem sameMap_pteMkdirty (e : Pte) : SameMap e (pteMkdirty e) := ⟨rfl, rfl, rfl⟩
theorem sameMap_pmdMkold (e : Pte) : SameMap e (pmdMkold e) := ⟨rfl, rfl, rfl⟩
theorem sameMap_pmdMkclean (e : Pte) : SameMap e (pmdMkclean e) := ⟨rfl, rfl, rfl⟩

/-! ## The flush -/

section Flush
variable (hz : ∀ k, V Pte.zero k = none)
include hz

theorem flushPte_shrinks {pte pte' : PteTable} {s e : Nat} {r : Bool}
    (h : kvmMipsFlushGpaPte c pte s e = some (pte', r)) (k : Nat) :
    PteShrinks V (pte k) (pte' k) :=
  forSlots_rel PteShrinks.refl (fun _ _ _ _ h => by
    split at h <;> cases h
    exacts [.refl _, pteShrinks_zero hz _]) h k

theorem flushGpaPmdSlot_shrinks {s e : Nat} {p p' : Pmd} {r : Bool}
    (h : flushGpaPmdSlot c s e p = some (p', r)) : SlotShrinks V p p' := by
  unfold flushGpaPmdSlot at h
  split at h
  · cases h; exact .refl _
  split at h
  · cases h; exact slotShrinks_invalid _
  split at h
  · obtain ⟨⟨pte', r'⟩, hf, hy⟩ := Option.map_eq_some'.mp h
    split at hy <;> cases hy
    exacts [slotShrinks_invalid _, slotShrinks_table (flushPte_shrinks hz hf)]
  · cases h

theorem flushPud_shrinks {pud pud' : Option PmdTable} {s e : Nat} {r : Bool}
    (h : kvmMipsFlushGpaPud c pud s e = some (pud', r)) : PudShrinks V pud pud' := by
  unfold kvmMipsFlushGpaPud at h
  split at h
  · cases h; exact .refl _
  · obtain ⟨⟨pmd', r'⟩, hf, hy⟩ := Option.map_eq_some'.mp h
    split at hy <;> cases hy
    · exact pudShrinks_none _
    · exact pudShrinks_some <|
        forSlots_rel SlotShrinks.refl (fun _ _ _ _ h => flushGpaPmdSlot_shrinks hz h) hf

/-- **The flush only takes away**, over any range and in any view of absent entries as nothing. -/
theorem flushPt_shrinks {pgd pgd' : Pgd} {a b : Nat} {r : Bool}
    (h : kvmMipsFlushGpaPt c pgd a b = some (pgd', r)) : Shrinks V pgd pgd' :=
  forSlots_rel PudShrinks.refl (fun _ _ _ _ h => flushPud_shrinks hz h) h

end Flush

/-! ## The range operations -/

section RangeOp
variable {op op1 : Pte → Pte} (hop : OpShrinks V op) (hop1 : OpShrinks V op1)
include hop

theorem rangeOpPte_shrinks {pte pte' : PteTable} {s e : Nat} {r : Bool}
    (h : rangeOpPte c op pte s e = some (pte', r)) (k : Nat) : PteShrinks V (pte k) (pte' k) :=
  forSlots_rel PteShrinks.refl (fun _ x _ _ h => by
    split at h
    · cases h; exact .refl _
    · split at h <;> cases h
      exacts [.refl _, (hop x).2]) h k

include hop1

theorem rangeOpPmd_shrinks {pmd pmd' : PmdTable} {s e : Nat} {r : Bool}
    (h : rangeOpPmd c op op1 pmd s e = some (pmd', r)) (j : Nat) :
    SlotShrinks V (pmd j) (pmd' j) := by
  refine forSlots_rel SlotShrinks.refl (fun _ _ _ _ h => ?_) h j
  split at h
  · cases h; exact .refl _
  split at h
  · split at h
    · split at h <;> cases h
      exacts [.refl _, slotShrinks_val (hop1 _).1 (hop1 _).2]
    · cases h
  · obtain ⟨⟨pte', r'⟩, hf, hy⟩ := Option.map_eq_some'.mp h
    cases hy
    exact slotShrinks_table (rangeOpPte_shrinks hop hf)
  · cases h; exact .refl _

/-- **The range operations show nothing new** when `op` and `op1` show nothing new, over any
range. -/
theorem rangeOpPgd_shrinks {pgd pgd' : Pgd} {s e : Nat} {r : Bool}
    (h : rangeOpPgd c op op1 pgd s e = some (pgd', r)) : Shrinks V pgd pgd' := by
  refine forSlots_rel PudShrinks.refl (fun _ _ _ _ h => ?_) h
  unfold rangeOpPud at h
  split at h
  · cases h; exact .refl _
  · obtain ⟨⟨pmd', r'⟩, hf, hy⟩ := Option.map_eq_some'.mp h
    cases hy
    exact pudShrinks_some (rangeOpPmd_shrinks hop hop1 hf)

end RangeOp

/-! ## Walks, stores and the notifier handlers -/

variable (c) in
/-- Linking fresh nodes shows nothing new. -/
theorem linkFresh_shrinks (hz : ∀ k, V Pte.zero k = none) (pgd : Pgd) (addr : Nat) :
    Shrinks V pgd (linkFresh c pgd addr) := by
  unfold linkFresh
  split_ifs
  · exact .refl _
  · refine shrinks_update fun j => ?_
    rw [Option.getD_some, update_apply]; split
    · exact slotShrinks_clearPage hz _
    · exact .refl _

/-- A store of a value that keeps the huge bit of the one the pointer reads, and shows nothing new,
shrinks the table. -/
theorem setPte_shrinks {pgd pgd' : Pgd} {p : PtePtr} {e v : Pte} (hr : pgd.readPte p = some e)
    (hv : v.huge = e.huge ∧ PteShrinks V e v) (h : pgd.setPte p v = some pgd') :
    Shrinks V pgd pgd' := by
  cases p with
  | leaf i j k =>
    simp only [Pgd.readPte] at hr
    split at hr
    · rename_i pmd hi
      split at hr
      · rename_i pte hj
        cases hr
        rw [Pgd.setPte_leaf v hi hj, Option.some.injEq] at h
        subst h
        refine shrinks_update_slot hi (hj ▸ slotShrinks_table fun k' => ?_)
        rw [update_apply]; split
        · subst_vars; exact hv.2
        · exact .refl _
      · cases hr
    · cases hr
  | pmd i j =>
    simp only [Pgd.readPte] at hr
    split at hr
    · rename_i pmd hi
      split at hr
      · rename_i e' hj
        cases hr
        rw [Pgd.setPte_pmd v hi, Option.some.injEq] at h
        subst h
        exact shrinks_update_slot hi (hj ▸ slotShrinks_val hv.1 hv.2)
      · cases hr
    · cases hr

/-- A handler that shrinks the table makes `handle_hva_to_gpa` shrink it. -/
theorem handleHvaToGpa_shrinks {handler : HvaHandler}
    (hh : ∀ pgd gfn gfnEnd s pgd' r, handler pgd gfn gfnEnd s = some (pgd', r) → Shrinks V pgd pgd')
    {start «end» : Nat} :
    ∀ {slots : List Memslot} {pgd pgd' : Pgd} {ret r : Bool},
      handleHvaToGpa c start «end» handler slots pgd ret = some (pgd', r) → Shrinks V pgd pgd'
  | [], _, _, _, _, h => by
    simp only [handleHvaToGpa, Option.some.injEq, Prod.mk.injEq] at h
    exact h.1 ▸ .refl _
  | _ :: _, _, _, _, _, h => by
    simp only [handleHvaToGpa] at h
    split at h
    · exact handleHvaToGpa_shrinks hh h
    · obtain ⟨⟨pgd1, r1⟩, h1, h2⟩ := Option.bind_eq_some.mp h
      exact (hh _ _ _ _ _ _ h1).trans (handleHvaToGpa_shrinks hh h2)

theorem kvmUnmapHvaRange_shrinks (hz : ∀ k, V Pte.zero k = none) {slots : List Memslot}
    {pgd pgd' : Pgd} {start «end» : Nat}
    (h : kvmUnmapHvaRange c slots pgd start «end» = some pgd') : Shrinks V pgd pgd' := by
  obtain ⟨⟨pgd1, r⟩, hh, rfl⟩ := Option.map_eq_some'.mp h
  refine handleHvaToGpa_shrinks (fun _ _ _ _ _ _ h => ?_) hh
  obtain ⟨⟨pgd2, r2⟩, hf, hy⟩ := Option.map_eq_some'.mp h
  cases hy
  exact flushPt_shrinks hz hf

theorem kvmAgeHva_shrinks (hop : OpShrinks V pteMkold) (hop1 : OpShrinks V pmdMkold)
    {slots : List Memslot} {pgd pgd' : Pgd} {start «end» : Nat} {r : Bool}
    (h : kvmAgeHva c slots pgd start «end» = some (pgd', r)) : Shrinks V pgd pgd' :=
  handleHvaToGpa_shrinks (fun _ _ _ _ _ _ h => rangeOpPgd_shrinks hop hop1 h) h

/-- The fast path marks the entry young and dirty: it shrinks the table in every view that
`pte_mkyoung` and `pte_mkdirty` shrink. -/
theorem mapPageFast_shrinks (hy : OpShrinks V pteMkyoung) (hd : OpShrinks V pteMkdirty)
    {vm vm' : Vm} {gpa : Nat} {wf : Bool} {r : Int}
    (h : kvmMipsMapPageFast c vm gpa wf = some (r, vm')) : Shrinks V vm.pgd vm'.pgd := by
  unfold kvmMipsMapPageFast at h
  obtain ⟨w, -, h⟩ := Option.bind_eq_some.mp h
  rcases hq : w.ptep with _ | p <;> simp only [hq] at h
  · cases h; exact .refl _
  obtain ⟨e, he, h⟩ := Option.bind_eq_some.mp h
  by_cases hpres : e.present = true
  swap
  · rw [if_pos (by simpa using hpres)] at h
    cases h; exact .refl _
  rw [if_neg (by simp [hpres])] at h
  obtain ⟨pgd1, h1, h⟩ := Option.bind_eq_some.mp h
  have hs1 : Shrinks V vm.pgd pgd1 := by
    split at h1
    · exact setPte_shrinks he (hy e) h1
    · cases h1; exact .refl _
  obtain ⟨e1, he1, h⟩ := Option.bind_eq_some.mp h
  split at h
  · split at h
    · cases h; exact hs1
    · obtain ⟨pgd2, h2, h⟩ := Option.bind_eq_some.mp h
      obtain ⟨_, _, h⟩ := Option.map_eq_some'.mp h
      cases h
      exact hs1.trans (setPte_shrinks he1 (hd e1) h2)
  · cases h; exact hs1

end Ops

/-! ## The base-page commit -/

section Commit
variable {c : Config} {pgd pgd' : Pgd}

/-- A table with no entry value in a middle slot is well formed. -/
theorem wf_of_noVal (hnv : ∀ i j, (pgd.slot i j).isVal = false) : pgd.Wf := by
  intro i pmd hi j e hj
  have h := hnv i j
  rw [Pgd.slot, hi, Option.getD_some, hj] at h
  cases h

variable (c) in
/-- Over such a table the slot governing an address is its leaf slot. -/
theorem governingSlot_of_noVal (hnv : ∀ i j, (pgd.slot i j).isVal = false) (addr : Nat) :
    governingSlot c pgd addr = .leaf (c.pgdIndex addr) (c.pmdOffset addr) (c.pteOffset addr) := by
  have h := hnv (c.pgdIndex addr) (c.pmdOffset addr)
  unfold governingSlot
  unfold Pgd.slot at h
  rcases hi : pgd (c.pgdIndex addr) with _ | pmd
  · rfl
  rw [hi, Option.getD_some] at h
  rcases hj : pmd (c.pmdOffset addr) with _ | _ | e
  · simp [hj]
  · simp [hj]
  · rw [hj] at h; cases h

variable (c) in
/-- A store through a leaf pointer changes the entry of the frames with that pointer's indices. -/
theorem entry_setPte_leaf {i j k : Nat} {v : Pte} (h : pgd.setPte (.leaf i j k) v = some pgd')
    (g : Nat) : pgd'.entry c g =
      if c.pgdIdx g = i ∧ c.pmdIdx g = j ∧ c.pteIdx g = k then some v else pgd.entry c g := by
  simp only [Pgd.setPte] at h
  split at h
  · rename_i pmd hi
    split at h
    · rename_i pte hj
      cases h
      by_cases hij : c.pgdIdx g = i ∧ c.pmdIdx g = j
      · obtain ⟨rfl, rfl⟩ := hij
        by_cases hk : c.pteIdx g = k <;>
          simp [Pgd.entry, hi, hj, hk, Pmd.entryAt, update_apply]
      · rw [if_neg fun h => hij ⟨h.1, h.2.1⟩, entry_update_some ((not_and_or.mp hij).imp id
          fun hj' => by rw [update_noteq hj', hi, Option.getD_some])]
    · cases h
  · cases h

/-- A store through a leaf pointer leaves every middle slot holding an entry value or not as
before. -/
theorem setPte_leaf_isVal {i j k : Nat} {v : Pte} (h : pgd.setPte (.leaf i j k) v = some pgd')
    (i' j' : Nat) : (pgd'.slot i' j').isVal = (pgd.slot i' j').isVal := by
  simp only [Pgd.setPte] at h
  split at h
  · rename_i pmd hi
    split at h
    · rename_i pte hj
      cases h
      unfold Pgd.slot
      rw [update_apply]
      split_ifs with hii
      · subst hii
        rw [hi, Option.getD_some, Option.getD_some, update_apply]
        split_ifs with hjj
        · subst hjj; rw [hj]; rfl
        · rfl
      · rfl
    · cases h
  · cases h

variable (c) in
/-- **A base-page commit adds one translation.** Over a table with no entry value in a middle
slot, a commit of a base-page decision whose resolved frame is not part of a transparent huge page
has passed `mmu_notifier_retry`, drops no derived mapping itself, logs the decision's frame on a
write to a writable page, keeps every middle slot free of entry values, and gives every frame with
the faulting frame's indices the entry `pfn_pte(pfn, prot)`; every other frame keeps its entry in
the table with the walk's fresh nodes linked. -/
theorem mapPageCommit_base {host : Host} {vm vm' : Vm} {cache cache' gpa : Nat}
    {wf writeable : Bool} {d : Decision} {s pfn fuel : Nat} {inv : Option Nat}
    (hnv : ∀ i j, (vm.pgd.slot i j).isVal = false) (hthp : host.thp pfn = false)
    (hsize : d.vmaPagesize ≠ c.pmdSize)
    (h : mapPageCommit c host vm cache gpa wf d s pfn writeable fuel = some (.done vm' cache' inv)) :
    mmuNotifierRetry vm s = false ∧ inv = none ∧
    vm'.dirtyLog = (if writeable && wf then markPageDirty vm.dirtyLog d.gfn else vm.dirtyLog) ∧
    (∀ i j, (vm'.pgd.slot i j).isVal = false) ∧
    ∀ g, vm'.pgd.entry c g =
      if c.pgdIdx g = c.pgdIdx (gpa / c.pageSize) ∧ c.pmdIdx g = c.pmdIdx (gpa / c.pageSize) ∧
          c.pteIdx g = c.pteIdx (gpa / c.pageSize)
      then some (pfnPte pfn (mapPageProt c writeable wf)) else (linkFresh c vm.pgd gpa).entry c g := by
  unfold mapPageCommit at h
  split at h
  · cases h
  rename_i hret
  rw [mapPageAdjust_eq c (.inr hthp)] at h
  simp only [mapPageInstall, if_neg hsize, kvmMipsPteForGpa, walk_pool c (wf_of_noVal hnv)] at h
  split at h
  · simp only [Option.some_bind] at h
    obtain ⟨pgd', hs, hy⟩ := Option.map_eq_some'.mp h
    cases hy
    rw [governingSlot_of_noVal c hnv] at hs
    refine ⟨by simpa using hret, rfl, rfl, fun i j => ?_, fun g => ?_⟩
    · rw [setPte_leaf_isVal hs]
      exact (linkFresh_shrinks c (V := Pte.mapAt) Pte.mapAt_zero vm.pgd gpa).noVal hnv i j
    · rw [entry_setPte_leaf c hs, c.pgdIndex_eq, c.pmdOffset_eq, c.pteOffset_eq]
  · cases h

end Commit

/-! ## Steps of the system -/

variable (c : Config) (slots : List Memslot)

theorem pgdStep_shrinks {a : Action} {vm : Vm} {pgd' : Pgd} (h : PgdStep c slots a vm pgd')
    (hc : ∀ v fuel, a ≠ .commit v fuel) (hs : ∀ hva pte, a ≠ .setSpte hva pte) :
    Shrinks Pte.mapAt vm.pgd pgd' := by
  cases h with
  | same => exact .refl _
  | unmap h => exact kvmUnmapHvaRange_shrinks Pte.mapAt_zero h
  | setSpte => exact absurd rfl (hs _ _)
  | age h =>
    exact kvmAgeHva_shrinks (opShrinks_of_sameMap sameMap_pteMkold)
      (opShrinks_of_sameMap sameMap_pmdMkold) h
  | mkclean h =>
    exact rangeOpPgd_shrinks (opShrinks_of_sameMap sameMap_pteMkclean)
      (opShrinks_of_sameMap sameMap_pmdMkclean) h
  | flush h => exact flushPt_shrinks Pte.mapAt_zero h
  | fast h =>
    exact mapPageFast_shrinks (opShrinks_of_sameMap sameMap_pteMkyoung)
      (opShrinks_of_sameMap sameMap_pteMkdirty) h
  | commit => exact absurd rfl (hc _ _)

/-- Every step other than a commit and `kvm_set_spte_hva` shrinks the table. -/
theorem step_shrinks {w w' : World} {a : Action} (h : step c slots w a = some w')
    (hc : ∀ v fuel, a ≠ .commit v fuel) (hs : ∀ hva pte, a ≠ .setSpte hva pte) :
    Shrinks Pte.mapAt w.vm.pgd w'.vm.pgd :=
  pgdStep_shrinks c slots (step_pgdStep h) hc hs

/-- **Only a fault's commit and `kvm_set_spte_hva` add translations.** For every world and every
step that is neither, each frame the table maps afterwards it mapped before, to the same host
frame, and a middle slot holds an entry value afterwards only if it held one before: the flush, the
unmap, the clean and age operations over any range, the fast path and the hardware's refills take
translations away or keep them, and never put a huge entry in the table. -/
theorem step_adds_no_translation {w w' : World} {a : Action} (h : step c slots w a = some w')
    (hc : ∀ v fuel, a ≠ .commit v fuel) (hs : ∀ hva pte, a ≠ .setSpte hva pte) :
    (∀ g e', w'.vm.pgd.entry c g = some e' → e'.present = true →
      ∃ e, w.vm.pgd.entry c g = some e ∧ e.present = true ∧ e.frameOf c g = e'.frameOf c g) ∧
    ∀ i j, (w'.vm.pgd.slot i j).isVal = true → (w.vm.pgd.slot i j).isVal = true :=
  have hsh := step_shrinks c slots h hc hs
  ⟨fun _ _ he hp => hsh.entry c he hp, fun i j => (hsh.slot i j).val⟩

/-- Aging the host page of frame 0, once a write fault has mapped it, keeps the frame's
translation. -/
theorem step_adds_no_translation_sample :
    ∃ w w', run (Config.mips16k false) [Memslot.sample] (World.init Host.sample)
        (faultRun 0 true) = some w ∧
      step (Config.mips16k false) [Memslot.sample] w (.age (2 ^ 20) (2 ^ 20 + 2 ^ 14)) = some w' ∧
      (∃ e, w'.vm.pgd.entry (Config.mips16k false) 0 = some e ∧ e.present = true ∧
        e.young = false) ∧
      (∀ g e', w'.vm.pgd.entry (Config.mips16k false) g = some e' → e'.present = true →
        ∃ e, w.vm.pgd.entry (Config.mips16k false) g = some e ∧
          e.present = true ∧ e.frameOf (Config.mips16k false) g = e'.frameOf (Config.mips16k false) g) ∧
      ∀ i j, (w'.vm.pgd.slot i j).isVal = true → (w.vm.pgd.slot i j).isVal = true := by
  obtain ⟨w, hr⟩ : ∃ w, run (Config.mips16k false) [Memslot.sample] (World.init Host.sample)
      (faultRun 0 true) = some w := ⟨_, rfl⟩
  obtain ⟨w', hs⟩ : ∃ w', step (Config.mips16k false) [Memslot.sample] w
      (.age (2 ^ 20) (2 ^ 20 + 2 ^ 14)) = some w' := by
    obtain rfl := Option.some_inj.mp hr
    exact ⟨_, rfl⟩
  refine ⟨w, w', hr, hs, ?_,
    step_adds_no_translation _ _ hs (fun _ _ h => by cases h) (fun _ _ h => by cases h)⟩
  obtain rfl := Option.some_inj.mp hr
  obtain rfl := Option.some_inj.mp hs
  exact ⟨_, rfl, rfl, rfl⟩

end LoongsonDune.Proof
