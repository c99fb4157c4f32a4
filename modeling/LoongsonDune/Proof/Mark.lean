import LoongsonDune.Proof.Range

/-!
# Marking a range clean or old

`kvm_mips_mkclean_gpa_pt` and `kvm_mips_mkold_gpa_pt` are the two instances of
`BUILD_PTE_RANGE_OP`. The spec describes their effect entry by entry: every present leaf entry of
a frame in `[a, b]` becomes `op` of itself, every present huge entry whose block meets `[a, b]`
becomes `op1` of itself, and nothing else changes. `markRange` is that description as a function
of the table. Every slot keeps its constructor, so no node is allocated, freed or relinked. On a
well-formed table and a range inside the span the walk computes exactly `markRange`
(`rangeOpPgd_eq_markRange`).

The walk's return value is another matter. The macro's huge branch rewrites the entry and
`continue`s without setting `ret`, so the value reports a change exactly when a *leaf* entry
changed (`rangeOpPgd_flag`): a huge entry that lost its dirty or young bit goes unreported.

Both instances only clear a bit, so a second run over the same range changes nothing and reports
nothing.
-/

namespace LoongsonDune.Proof

open LoongsonDune Function

variable (c : Config)

/-- Leaf slot `(i, j, k)` of the table holds a frame of `[a, b]`. -/
def leafIn (a b i j k : Nat) : Bool :=
  i < c.ptrsPerPgd && j < c.ptrsPerPmd && k < c.ptrsPerPte &&
    (a ≤ frameAt c i j k && frameAt c i j k ≤ b)

/-- Middle slot `(i, j)` of the table governs a block that holds a frame of `[a, b]`. -/
def blockIn (a b i j : Nat) : Bool :=
  i < c.ptrsPerPgd && j < c.ptrsPerPmd &&
    (a ≤ frameAt c i j (c.ptrsPerPte - 1) && frameAt c i j 0 ≤ b)

/-- Modelled from the spec: a middle-level slot after marking, given which of its leaf slots
(`leaf`) and whether its block (`block`) the range selects. A selected present leaf entry
becomes `op` of itself, a selected present huge entry `op1` of itself, and the slot keeps its
constructor. -/
def markSlot (op op1 : Pte → Pte) (leaf : Nat → Bool) (block : Bool) : Pmd → Pmd
  | .invalid => .invalid
  | .table pte => .table fun k => if leaf k && (pte k).present then op (pte k) else pte k
  | .val e => if block && e.present then .val (op1 e) else .val e

/-- Modelled from the spec: mark the frames `[a, b]`, leaf entries with `op` and huge entries
with `op1`. -/
def markRange (op op1 : Pte → Pte) (a b : Nat) (pgd : Pgd) : Pgd := fun i =>
  (pgd i).map fun pmd j => markSlot op op1 (leafIn c a b i j) (blockIn c a b i j) (pmd j)

/-- The leaf entry of frame `x`, when its block holds a leaf table. -/
def leafEntry (pgd : Pgd) (x : Nat) : Option Pte :=
  (pgd (c.pgdIdx x)).bind fun pmd => match pmd (c.pmdIdx x) with
    | .table pte => some (pte (c.pteIdx x))
    | _ => none

theorem markSlot_of_false {op op1 : Pte → Pte} {leaf : Nat → Bool} (hl : ∀ k, leaf k = false)
    (p : Pmd) : markSlot op op1 leaf false p = p := by
  cases p <;> simp [markSlot, hl]

/-! ## The range in the walk's indices -/

theorem visitsBlock_lt {s e i j : Nat} (h : VisitsBlock c s e i j) :
    i < c.ptrsPerPgd ∧ j < c.ptrsPerPmd :=
  ⟨Nat.lt_of_le_of_lt h.2.1 (Nat.mod_lt _ c.ptrsPerPgd_pos),
    Nat.lt_of_le_of_lt h.2.2.2 (Nat.mod_lt _ c.ptrsPerPmd_pos)⟩

/-- Within a slot the walk reaches, it reaches the leaf slots between its two leaf bounds. -/
theorem visits_iff_leaf {s e i j k : Nat} (hb : VisitsBlock c s e i j) :
    Visits c s e i j k ↔
      c.pteOffset (if j = c.pmdOffset (if i = c.pgdIndex s then s else 0) then
          (if i = c.pgdIndex s then s else 0) else 0) ≤ k ∧
        k ≤ c.pteOffset (if j = c.pmdOffset (if i = c.pgdIndex e then e else ulongMax) then
          (if i = c.pgdIndex e then e else ulongMax) else ulongMax) :=
  ⟨fun h => h.2, fun h => ⟨hb, h⟩⟩

section Range
variable {c} {a b : Nat} (hab : a ≤ b) (hb : b < c.spanFrames)
include hab hb

/-- **`leafIn` is the walk's leaf range.** -/
theorem leafIn_iff (i j k : Nat) :
    leafIn c a b i j k = true ↔ Visits c (c.gpaOf a) (c.gpaOf b) i j k := by
  by_cases hijk : i < c.ptrsPerPgd ∧ j < c.ptrsPerPmd ∧ k < c.ptrsPerPte
  · obtain ⟨hy, hi, hj, hk⟩ := digits_mk c hijk.1 hijk.2.1 hijk.2.2
    have hv := visits_iff c hab hb hy
    rw [hi, hj, hk] at hv
    simp [leafIn, hijk, hv]
  · refine ⟨fun h => absurd ?_ hijk, fun hv => absurd ?_ hijk⟩
    · simp only [leafIn, Bool.and_eq_true, decide_eq_true_eq] at h
      exact ⟨h.1.1.1, h.1.1.2, h.1.2⟩
    · have hk := Nat.lt_of_le_of_lt hv.2.2 (Nat.mod_lt _ c.ptrsPerPte_pos)
      exact ⟨(visitsBlock_lt c hv.1).1, (visitsBlock_lt c hv.1).2, hk⟩

/-- **`blockIn` is the walk's middle range.** -/
theorem blockIn_iff (i j : Nat) :
    blockIn c a b i j = true ↔ VisitsBlock c (c.gpaOf a) (c.gpaOf b) i j := by
  simp only [blockIn, Bool.and_eq_true, decide_eq_true_eq]
  constructor
  · rintro ⟨⟨hi, hj⟩, h1, h2⟩
    -- the first frame of the block that lies in `[a, b]`
    have hT := c.ptrsPerPte_pos
    have hk : max a (frameAt c i j 0) - frameAt c i j 0 < c.ptrsPerPte := by
      simp only [frameAt] at h1 ⊢; omega
    obtain ⟨hy, hyi, hyj, hyk⟩ := digits_mk c hi hj hk
    have hv := (visits_iff c hab hb hy).mpr (by simp only [frameAt] at h2 ⊢; omega)
    rw [hyi, hyj, hyk] at hv
    exact hv.1
  · intro hv
    obtain ⟨hi, hj⟩ := visitsBlock_lt c hv
    obtain ⟨y, hay, hyb, hyi, hyj⟩ := visitsBlock_meets c hab hb hi hj hv
    have hy := frameAt_digits c (show y < c.spanFrames by omega)
    have := c.pteIdx_lt y
    rw [hyi, hyj] at hy
    simp only [frameAt] at hy ⊢
    omega

theorem leafIn_eq_false {i j : Nat} (h : ¬VisitsBlock c (c.gpaOf a) (c.gpaOf b) i j) (k : Nat) :
    leafIn c a b i j k = false := by
  rw [← Bool.not_eq_true, leafIn_iff hab hb]
  exact fun hv => h hv.1

theorem blockIn_eq_false {i j : Nat} (h : ¬VisitsBlock c (c.gpaOf a) (c.gpaOf b) i j) :
    blockIn c a b i j = false := by
  rw [← Bool.not_eq_true, blockIn_iff hab hb]
  exact h

end Range

/-! ## What the walk computes -/

section Walk
variable {c} {op op1 : Pte → Pte}

theorem rangeOpPte_apply {pte pte' : PteTable} {s e : Nat} {r : Bool}
    (h : rangeOpPte c op pte s e = some (pte', r)) (k : Nat) :
    pte' k = if (c.pteOffset s ≤ k ∧ k ≤ c.pteOffset e) ∧ (pte k).present = true then op (pte k)
      else pte k := by
  by_cases hk : c.pteOffset s ≤ k ∧ k ≤ c.pteOffset e
  · rw [(rangeOpPte_visit h hk.1 hk.2).1]
    by_cases hp : (pte k).present <;> simp [hk, hp]
  · rw [(forSlots_eq_some h).2 k (by omega), if_neg (by tauto)]

/-- One middle table: a slot in the walk's range is marked with the leaf bounds the walk hands
it, every other slot is left alone. -/
theorem rangeOpPmd_apply {pmd pmd' : PmdTable} {s e : Nat} {r : Bool}
    (h : rangeOpPmd c op op1 pmd s e = some (pmd', r)) (j : Nat) :
    pmd' j = if c.pmdOffset s ≤ j ∧ j ≤ c.pmdOffset e then
      markSlot op op1 (fun k => decide (c.pteOffset (if j = c.pmdOffset s then s else 0) ≤ k ∧
        k ≤ c.pteOffset (if j = c.pmdOffset e then e else ulongMax))) true (pmd j)
      else pmd j := by
  obtain ⟨hin, hout⟩ := forSlots_eq_some h
  by_cases hj : c.pmdOffset s ≤ j ∧ j ≤ c.pmdOffset e
  swap
  · rw [if_neg hj, hout j (by omega)]
  rw [if_pos hj]
  obtain ⟨r', hr⟩ := hin j hj.1 (by omega)
  cases hp : pmd j with
  | invalid =>
    simp only [hp, pmdPresent, Bool.not_false, if_true, Option.some.injEq, Prod.mk.injEq] at hr
    rw [← hr.1, markSlot]
  | table pte =>
    simp only [hp, pmdPresent, Bool.not_true, Bool.false_eq_true, if_false] at hr
    obtain ⟨⟨pte', r2⟩, hpte, hy⟩ := Option.map_eq_some'.mp hr
    simp only [Prod.mk.injEq] at hy
    rw [← hy.1, markSlot]
    congr 1
    funext k
    simp [rangeOpPte_apply hpte k]
  | val x =>
    simp only [hp, pmdPresent] at hr
    cases hh : x.huge <;> simp only [hh, Bool.false_eq_true, if_false, if_true, Bool.not_true]
      at hr
    · cases hr
    · cases hx : x.present <;>
        simp only [hx, Bool.not_false, Bool.not_true, Bool.false_eq_true, if_true, if_false,
          Option.some.injEq, Prod.mk.injEq] at hr
      · simp [← hr.1, markSlot, hx]
      · have hm : ∀ l, markSlot op op1 l true (.val x) = .val (op1 x) := fun _ => by
          simp [markSlot, hx]
        rw [hm]
        split at hr <;> simp only [Option.some.injEq, Prod.mk.injEq] at hr <;> rw [← hr.1]
        rename_i heq
        rw [heq]

/-- **The walk over `[a, b]` computes `markRange`.** -/
theorem rangeOpPgd_eq_markRange {pgd pgd' : Pgd} {a b : Nat} {r : Bool} (hab : a ≤ b)
    (hb : b < c.spanFrames) (h : rangeOpPgd c op op1 pgd (c.gpaOf a) (c.gpaOf b) = some (pgd', r)) :
    pgd' = markRange c op op1 a b pgd := by
  funext i
  obtain ⟨hin, hout⟩ := forSlots_eq_some h
  by_cases hi : c.pgdIndex (c.gpaOf a) ≤ i ∧ i ≤ c.pgdIndex (c.gpaOf b)
  swap
  · -- a top slot outside the range: no slot below it is in the range either
    have hv : ∀ j, ¬VisitsBlock c (c.gpaOf a) (c.gpaOf b) i j := fun j hv => hi ⟨hv.1, hv.2.1⟩
    rw [hout i (by omega), markRange]
    cases pgd i <;> simp [markSlot_of_false (leafIn_eq_false hab hb (hv _)),
      blockIn_eq_false hab hb (hv _)]
  obtain ⟨r1, h1⟩ := hin i hi.1 (by omega)
  rw [markRange]
  cases hpi : pgd i with
  | none =>
    simp only [hpi, rangeOpPud, Option.some.injEq, Prod.mk.injEq] at h1
    rw [← h1.1, Option.map_none']
  | some pmd =>
    simp only [hpi, rangeOpPud] at h1
    obtain ⟨⟨pmd', r2⟩, h2, hy⟩ := Option.map_eq_some'.mp h1
    simp only [Prod.mk.injEq] at hy
    rw [← hy.1, Option.map_some']
    congr 1
    funext j
    rw [rangeOpPmd_apply h2 j]
    by_cases hv : VisitsBlock c (c.gpaOf a) (c.gpaOf b) i j
    · rw [if_pos ⟨hv.2.2.1, hv.2.2.2⟩]
      congr 1
      · funext k
        rw [Bool.eq_iff_iff, leafIn_iff hab hb, visits_iff_leaf c hv, decide_eq_true_iff]
      · exact ((blockIn_iff hab hb i j).mpr hv).symm
    · rw [if_neg fun hj => hv ⟨hi.1, hi.2, hj.1, hj.2⟩, blockIn_eq_false hab hb hv,
        markSlot_of_false (leafIn_eq_false hab hb hv)]

/-! ## What the walk reports -/

theorem rangeOpPte_flag {pte pte' : PteTable} {s e : Nat} {r : Bool}
    (h : rangeOpPte c op pte s e = some (pte', r)) :
    r = true ↔ ∃ k, (c.pteOffset s ≤ k ∧ k ≤ c.pteOffset e) ∧ (pte k).present = true ∧
      op (pte k) ≠ pte k := by
  rw [forSlots_or h]
  constructor
  · rintro (h | ⟨k, h1, h2, y, hy⟩)
    · cases h
    · refine ⟨k, ⟨h1, by omega⟩, ?_⟩
      by_cases hp : (pte k).present <;> by_cases ho : op (pte k) = pte k <;> simp [hp, ho] at hy ⊢
  · rintro ⟨k, hk, hp, ho⟩
    exact .inr ⟨k, hk.1, by omega, op (pte k), by simp [hp, ho]⟩

/-- A middle table reports a change exactly when one of its leaf tables did: its huge branch
never sets `ret`. -/
theorem rangeOpPmd_flag {pmd pmd' : PmdTable} {s e : Nat} {r : Bool}
    (h : rangeOpPmd c op op1 pmd s e = some (pmd', r)) :
    r = true ↔ ∃ j, (c.pmdOffset s ≤ j ∧ j ≤ c.pmdOffset e) ∧ ∃ pte, pmd j = .table pte ∧
      ∃ k, (c.pteOffset (if j = c.pmdOffset s then s else 0) ≤ k ∧
        k ≤ c.pteOffset (if j = c.pmdOffset e then e else ulongMax)) ∧
        (pte k).present = true ∧ op (pte k) ≠ pte k := by
  rw [forSlots_or h]
  constructor
  · rintro (h | ⟨j, h1, h2, y, hy⟩)
    · cases h
    refine ⟨j, ⟨h1, by omega⟩, ?_⟩
    cases hp : pmd j with
    | invalid => simp [hp, pmdPresent] at hy
    | table pte =>
      simp only [hp, pmdPresent, Bool.not_true, Bool.false_eq_true, if_false] at hy
      obtain ⟨⟨pte', r'⟩, hpte, hy⟩ := Option.map_eq_some'.mp hy
      simp only [Prod.mk.injEq] at hy
      exact ⟨pte, rfl, (rangeOpPte_flag hpte).mp hy.2⟩
    | val x =>
      simp only [hp, pmdPresent] at hy
      cases hh : x.huge <;> cases hx : x.present <;> simp [hh, hx] at hy
      split at hy <;> simp at hy
  · rintro ⟨j, hj, pte, hp, hk⟩
    obtain ⟨r', hr⟩ := (forSlots_eq_some h).1 j hj.1 (by omega)
    simp only [hp, pmdPresent, Bool.not_true, Bool.false_eq_true, if_false] at hr
    obtain ⟨⟨pte', r2⟩, hpte, -⟩ := Option.map_eq_some'.mp hr
    refine .inr ⟨j, hj.1, by omega, .table pte', ?_⟩
    simp [hp, pmdPresent, hpte, (rangeOpPte_flag hpte).mpr hk]

/-- **The walk over `[a, b]` reports a change exactly when it changed a leaf entry.** -/
theorem rangeOpPgd_flag {pgd pgd' : Pgd} {a b : Nat} {r : Bool} (hab : a ≤ b)
    (hb : b < c.spanFrames) (h : rangeOpPgd c op op1 pgd (c.gpaOf a) (c.gpaOf b) = some (pgd', r)) :
    r = true ↔ ∃ x, a ≤ x ∧ x ≤ b ∧ ∃ e, leafEntry c pgd x = some e ∧ e.present = true ∧
      op e ≠ e := by
  rw [forSlots_or h]
  constructor
  · rintro (h | ⟨i, h1, h2, y, hy⟩)
    · cases h
    cases hpi : pgd i with
    | none => simp [hpi, rangeOpPud] at hy
    | some pmd =>
      simp only [hpi, rangeOpPud] at hy
      obtain ⟨⟨pmd', r'⟩, hpmd, hy⟩ := Option.map_eq_some'.mp hy
      simp only [Prod.mk.injEq] at hy
      obtain ⟨j, hj, pte, hpj, k, hk, hp, ho⟩ := (rangeOpPmd_flag hpmd).mp hy.2
      have hl := (leafIn_iff hab hb i j k).mpr ⟨⟨h1, by omega, hj.1, hj.2⟩, hk⟩
      simp only [leafIn, Bool.and_eq_true, decide_eq_true_eq] at hl
      obtain ⟨-, hxi, hxj, hxk⟩ := digits_mk c hl.1.1.1 hl.1.1.2 hl.1.2
      exact ⟨frameAt c i j k, hl.2.1, hl.2.2, pte k,
        by rw [leafEntry, hxi, hpi, Option.some_bind, hxj, hpj, hxk],
        hp, ho⟩
  · rintro ⟨x, hax, hxb, e, he, hp, ho⟩
    obtain ⟨pmd, hpi, he⟩ := Option.bind_eq_some.mp he
    split at he
    · rename_i pte hpj
      cases he
      obtain ⟨⟨b1, b2, b3, b4⟩, b5, b6⟩ :=
        (visits_iff c hab hb (Nat.lt_of_le_of_lt hxb hb)).mpr ⟨hax, hxb⟩
      obtain ⟨r1, h1⟩ := (forSlots_eq_some h).1 _ b1 (by omega)
      simp only [hpi, rangeOpPud] at h1
      obtain ⟨⟨pmd', r'⟩, hpmd, -⟩ := Option.map_eq_some'.mp h1
      have hr' : r' = true :=
        (rangeOpPmd_flag hpmd).mpr ⟨c.pmdIdx x, ⟨b3, b4⟩, pte, hpj, c.pteIdx x, ⟨b5, b6⟩, hp, ho⟩
      refine .inr ⟨c.pgdIdx x, b1, by omega, some pmd', ?_⟩
      rw [hpi]
      simp only [rangeOpPud, hpmd, hr', Option.map_some']
    · cases he

/-- On a well-formed table the walk returns, and what it returns is `markRange`. -/
theorem rangeOpPgd_marks {pgd : Pgd} (hwf : pgd.Wf) {a b : Nat} (hab : a ≤ b)
    (hb : b < c.spanFrames) :
    ∃ r, rangeOpPgd c op op1 pgd (c.gpaOf a) (c.gpaOf b) = some (markRange c op op1 a b pgd, r) := by
  obtain ⟨⟨pgd', r⟩, h⟩ :=
    Option.isSome_iff_exists.mp (@rangeOpPgd_isSome c op op1 pgd hwf (c.gpaOf a) (c.gpaOf b))
  exact ⟨r, by rw [h, rangeOpPgd_eq_markRange hab hb h]⟩

end Walk

/-! ## Marking twice -/

section Twice
variable {c} {op op1 : Pte → Pte} (hop : ∀ e, op (op e) = op e)
  (hopp : ∀ e, (op e).present = e.present) (hop1 : ∀ e, op1 (op1 e) = op1 e)
  (hop1p : ∀ e, (op1 e).present = e.present) (hop1h : ∀ e, (op1 e).huge = e.huge)

include hop hopp hop1 hop1p in
theorem markSlot_idem (l : Nat → Bool) (bl : Bool) (p : Pmd) :
    markSlot op op1 l bl (markSlot op op1 l bl p) = markSlot op op1 l bl p := by
  cases p with
  | invalid => rfl
  | table pte =>
    simp only [markSlot, Pmd.table.injEq]
    funext k
    by_cases hl : l k <;> by_cases hp : (pte k).present <;> simp [hl, hp, hop, hopp]
  | val e => by_cases hb : bl <;> by_cases hp : e.present <;> simp [markSlot, hb, hp, hop1, hop1p]

include hop hopp hop1 hop1p in
theorem markRange_idem (a b : Nat) (pgd : Pgd) :
    markRange c op op1 a b (markRange c op op1 a b pgd) = markRange c op op1 a b pgd := by
  funext i
  simp only [markRange]
  cases pgd i <;> simp [markSlot_idem hop hopp hop1 hop1p]

include hop1h in
theorem markRange_wf {pgd : Pgd} (hwf : pgd.Wf) (a b : Nat) : (markRange c op op1 a b pgd).Wf := by
  intro i pmd' hi j e he
  obtain ⟨pmd, hpi, rfl⟩ := Option.map_eq_some'.mp hi
  cases hpj : pmd j with
  | invalid => simp [markSlot, hpj] at he
  | table => simp [markSlot, hpj] at he
  | val x =>
    have hx := hwf i pmd hpi j x hpj
    simp only [markSlot, hpj] at he
    split at he <;> cases he
    · rw [hop1h, hx]
    · exact hx

include hop in
/-- After marking, every present leaf entry of the range is its own `op`. -/
theorem leafEntry_markRange {pgd : Pgd} {a b x : Nat} (hb : b < c.spanFrames) (hax : a ≤ x)
    (hxb : x ≤ b) {e : Pte} (he : leafEntry c (markRange c op op1 a b pgd) x = some e)
    (hp : e.present = true) : op e = e := by
  have hl := (leafIn_iff (Nat.le_trans hax hxb) hb _ _ _).mpr
    ((visits_iff c (Nat.le_trans hax hxb) hb (Nat.lt_of_le_of_lt hxb hb)).mpr ⟨hax, hxb⟩)
  obtain ⟨pmd', hpi, he⟩ := Option.bind_eq_some.mp he
  obtain ⟨pmd, -, rfl⟩ := Option.map_eq_some'.mp hpi
  cases hpj : pmd (c.pmdIdx x) with
  | invalid => simp [hpj, markSlot] at he
  | val y =>
    by_cases hc : (blockIn c a b (c.pgdIdx x) (c.pmdIdx x) && y.present) = true <;>
      simp [hpj, markSlot, hc] at he
  | table pte =>
    simp only [hpj, markSlot, hl, Bool.true_and, Option.some.injEq] at he
    subst he
    split
    · exact hop _
    · rename_i h0; exact absurd (by rwa [if_neg h0] at hp) h0

include hop hopp hop1 hop1p hop1h in
/-- **A second walk over the same range leaves the table and reports nothing.** -/
theorem rangeOpPgd_twice {pgd : Pgd} (hwf : pgd.Wf) {a b : Nat} (hab : a ≤ b)
    (hb : b < c.spanFrames) :
    ∃ pgd1 r, rangeOpPgd c op op1 pgd (c.gpaOf a) (c.gpaOf b) = some (pgd1, r) ∧
      rangeOpPgd c op op1 pgd1 (c.gpaOf a) (c.gpaOf b) = some (pgd1, false) := by
  obtain ⟨r, h1⟩ := @rangeOpPgd_marks c op op1 pgd hwf a b hab hb
  obtain ⟨r2, h2⟩ := @rangeOpPgd_marks c op op1 _ (markRange_wf hop1h hwf a b) a b hab hb
  rw [markRange_idem hop hopp hop1 hop1p] at h2
  refine ⟨_, r, h1, ?_⟩
  cases r2
  · exact h2
  · obtain ⟨x, hax, hxb, e, he, hp, ho⟩ := (rangeOpPgd_flag hab hb h2).mp rfl
    exact absurd (leafEntry_markRange hop hb hax hxb he hp) ho

/-- The walk over `[a, b]` returns on a well-formed table, and reports what `rangeOpPgd_flag`
says. -/
theorem rangeOpPgd_reports {pgd : Pgd} (hwf : pgd.Wf) {a b : Nat} (hab : a ≤ b)
    (hb : b < c.spanFrames) :
    ∃ pgd' r, rangeOpPgd c op op1 pgd (c.gpaOf a) (c.gpaOf b) = some (pgd', r) ∧
      (r = true ↔ ∃ x, a ≤ x ∧ x ≤ b ∧ ∃ e, leafEntry c pgd x = some e ∧ e.present = true ∧
        op e ≠ e) := by
  obtain ⟨r, h⟩ := @rangeOpPgd_marks c op op1 pgd hwf a b hab hb
  exact ⟨_, r, h, rangeOpPgd_flag hab hb h⟩

end Twice

/-! ## The two instances -/

/-- **`kvm_mips_mkclean_pgd` and `kvm_mips_mkold_pgd` mark exactly the range.** On a well-formed
table and frames `a ≤ b` inside the span, the walk over `[a << PAGE_SHIFT, b << PAGE_SHIFT]`
returns `markRange` of the table: every present leaf entry of a frame in `[a, b]` and every
present huge entry whose block meets `[a, b]` is made clean (old), every other entry is kept, and
every slot keeps its constructor. -/
theorem mkclean_mkold_pgd_mark {pgd : Pgd} (hwf : pgd.Wf) {a b : Nat} (hab : a ≤ b)
    (hb : b < c.spanFrames) :
    (∃ r, kvmMipsMkcleanPgd c pgd (c.gpaOf a) (c.gpaOf b) =
      some (markRange c pteMkclean pmdMkclean a b pgd, r)) ∧
    (∃ r, kvmMipsMkoldPgd c pgd (c.gpaOf a) (c.gpaOf b) =
      some (markRange c pteMkold pmdMkold a b pgd, r)) :=
  ⟨rangeOpPgd_marks hwf hab hb, rangeOpPgd_marks hwf hab hb⟩

/-- **The clean and old sweeps report only leaf changes.** On a well-formed table and frames
`a ≤ b` inside the span, `kvm_mips_mkclean_gpa_pt` (`kvm_mips_mkold_gpa_pt`) returns nonzero
exactly when some present leaf entry of a frame in `[a, b]` was dirty (young): a huge entry it
cleans (ages) is never reported. -/
theorem mkclean_mkold_report_leaf {pgd : Pgd} (hwf : pgd.Wf) {a b : Nat} (hab : a ≤ b)
    (hb : b < c.spanFrames) :
    (∃ pgd' r, kvmMipsMkcleanGpaPt c pgd a b = some (pgd', r) ∧
      (r = true ↔ ∃ x, a ≤ x ∧ x ≤ b ∧ ∃ e, leafEntry c pgd x = some e ∧ e.present = true ∧
        pteMkclean e ≠ e)) ∧
    (∃ pgd' r, kvmMipsMkoldGpaPt c pgd a b = some (pgd', r) ∧
      (r = true ↔ ∃ x, a ≤ x ∧ x ≤ b ∧ ∃ e, leafEntry c pgd x = some e ∧ e.present = true ∧
        pteMkold e ≠ e)) :=
  ⟨rangeOpPgd_reports hwf hab hb, rangeOpPgd_reports hwf hab hb⟩

/-- **Cleaning (aging) a range twice is cleaning it once.** The second call leaves the table the
first one returned and returns `0`. -/
theorem mkclean_mkold_idempotent {pgd : Pgd} (hwf : pgd.Wf) {a b : Nat} (hab : a ≤ b)
    (hb : b < c.spanFrames) :
    (∃ pgd1 r, kvmMipsMkcleanGpaPt c pgd a b = some (pgd1, r) ∧
      kvmMipsMkcleanGpaPt c pgd1 a b = some (pgd1, false)) ∧
    (∃ pgd1 r, kvmMipsMkoldGpaPt c pgd a b = some (pgd1, r) ∧
      kvmMipsMkoldGpaPt c pgd1 a b = some (pgd1, false)) :=
  ⟨@rangeOpPgd_twice c pteMkclean pmdMkclean (fun _ => rfl) (fun _ => rfl) (fun _ => rfl)
      (fun _ => rfl) (fun _ => rfl) pgd hwf a b hab hb,
    @rangeOpPgd_twice c pteMkold pmdMkold (fun _ => rfl) (fun _ => rfl) (fun _ => rfl)
      (fun _ => rfl) (fun _ => rfl) pgd hwf a b hab hb⟩

/-! ## A table with a huge and a leaf entry -/

/-- Under `Config.mips16k`: the block of frames `0 .. 2047` is mapped by a present, dirty, young
huge entry; frame `2048` by a present, dirty, young leaf entry. -/
def markSample : Pgd := fun i => if i = 0 then some fun j =>
    if j = 0 then .val ⟨4096, true, true, true, true, true, 0⟩
    else if j = 1 then .table fun k => if k = 0 then ⟨5000, true, true, true, true, false, 0⟩
      else Pte.zero
    else .invalid
  else none

theorem markSample_wf : markSample.Wf := by
  intro i pmd hi j e he
  simp only [markSample] at hi
  split at hi <;> cases hi
  dsimp only at he
  split at he
  · cases he; rfl
  · split at he <;> cases he

theorem mkclean_mkold_pgd_mark_sample :
    (∃ r, kvmMipsMkcleanPgd (Config.mips16k false) markSample ((Config.mips16k false).gpaOf 0)
      ((Config.mips16k false).gpaOf 2048) =
        some (markRange (Config.mips16k false) pteMkclean pmdMkclean 0 2048 markSample, r)) ∧
    (∃ r, kvmMipsMkoldPgd (Config.mips16k false) markSample ((Config.mips16k false).gpaOf 0)
      ((Config.mips16k false).gpaOf 2048) =
        some (markRange (Config.mips16k false) pteMkold pmdMkold 0 2048 markSample, r)) :=
  mkclean_mkold_pgd_mark (Config.mips16k false) markSample_wf (by decide) (by decide)

theorem mkclean_mkold_report_leaf_sample :
    (∃ pgd' r, kvmMipsMkcleanGpaPt (Config.mips16k false) markSample 0 2048 = some (pgd', r) ∧
      (r = true ↔ ∃ x, 0 ≤ x ∧ x ≤ 2048 ∧ ∃ e, leafEntry (Config.mips16k false) markSample x = some e ∧
        e.present = true ∧ pteMkclean e ≠ e)) ∧
    (∃ pgd' r, kvmMipsMkoldGpaPt (Config.mips16k false) markSample 0 2048 = some (pgd', r) ∧
      (r = true ↔ ∃ x, 0 ≤ x ∧ x ≤ 2048 ∧ ∃ e, leafEntry (Config.mips16k false) markSample x = some e ∧
        e.present = true ∧ pteMkold e ≠ e)) :=
  mkclean_mkold_report_leaf (Config.mips16k false) markSample_wf (by decide) (by decide)

/-- **A huge entry loses its dirty (young) bit and the sweep returns `0`.** Cleaning or aging
frame `0` of `markSample` rewrites the huge entry of its block, and both calls report no
change. -/
theorem huge_change_unreported :
    (∃ pgd', kvmMipsMkcleanGpaPt (Config.mips16k false) markSample 0 0 = some (pgd', false) ∧
      pgd'.entry (Config.mips16k false) 0 ≠ markSample.entry (Config.mips16k false) 0) ∧
    (∃ pgd', kvmMipsMkoldGpaPt (Config.mips16k false) markSample 0 0 = some (pgd', false) ∧
      pgd'.entry (Config.mips16k false) 0 ≠ markSample.entry (Config.mips16k false) 0) := by
  have h1 : (kvmMipsMkcleanGpaPt (Config.mips16k false) markSample 0 0).map (fun r =>
      (r.2, decide (r.1.entry (Config.mips16k false) 0 ≠
        markSample.entry (Config.mips16k false) 0))) = some (false, true) := by decide
  have h2 : (kvmMipsMkoldGpaPt (Config.mips16k false) markSample 0 0).map (fun r =>
      (r.2, decide (r.1.entry (Config.mips16k false) 0 ≠
        markSample.entry (Config.mips16k false) 0))) = some (false, true) := by decide
  obtain ⟨⟨pgd1, r1⟩, e1, h1⟩ := Option.map_eq_some'.mp h1
  obtain ⟨⟨pgd2, r2⟩, e2, h2⟩ := Option.map_eq_some'.mp h2
  simp only [Prod.mk.injEq, decide_eq_true_eq] at h1 h2
  exact ⟨⟨pgd1, h1.1 ▸ e1, h1.2⟩, ⟨pgd2, h2.1 ▸ e2, h2.2⟩⟩

theorem mkclean_mkold_idempotent_sample :
    (∃ pgd1 r, kvmMipsMkcleanGpaPt (Config.mips16k false) markSample 0 2048 = some (pgd1, r) ∧
      kvmMipsMkcleanGpaPt (Config.mips16k false) pgd1 0 2048 = some (pgd1, false)) ∧
    (∃ pgd1 r, kvmMipsMkoldGpaPt (Config.mips16k false) markSample 0 2048 = some (pgd1, r) ∧
      kvmMipsMkoldGpaPt (Config.mips16k false) pgd1 0 2048 = some (pgd1, false)) :=
  mkclean_mkold_idempotent (Config.mips16k false) markSample_wf (by decide) (by decide)

end LoongsonDune.Proof
