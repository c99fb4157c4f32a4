import LoongsonDune.Mmu.Flush
import LoongsonDune.Mmu.RangeOp

/-!
# Which slots a range walk visits

The flush and the range operations walk `[start, end]` with the index arithmetic of
`kern/mmu.c`: each level visits `[i_min, i_max]` of its two ends, and each child gets the real end
only at the boundary index and `0` or `~0ul` elsewhere. For a frame range `[a, b]` inside the
table's span this visits exactly the leaf slots of the frames in `[a, b]`: the frames ordered by
number are the index triples ordered lexicographically. This file proves that once and then what
a visit does, level by level, for the range operations.
-/

namespace LoongsonDune.Proof

open LoongsonDune

/-! ## Frame numbers as index triples -/

section MixedRadix
variable {E q q' p p' : Nat} (hp : p < E) (hp' : p' < E)
include hp hp'

theorem mixed_lt_iff : q * E + p < q' * E + p' ↔ q < q' ∨ q = q' ∧ p < p' := by
  constructor
  · intro h
    rcases Nat.lt_trichotomy q q' with hq | rfl | hq
    · exact .inl hq
    · exact .inr ⟨rfl, by omega⟩
    · have : (q' + 1) * E ≤ q * E := Nat.mul_le_mul_right _ hq
      rw [Nat.succ_mul] at this; omega
  · rintro (hq | ⟨rfl, hpp⟩)
    · have : (q + 1) * E ≤ q' * E := Nat.mul_le_mul_right _ hq
      rw [Nat.succ_mul] at this; omega
    · omega

theorem mixed_eq_iff : q * E + p = q' * E + p' ↔ q = q' ∧ p = p' := by
  constructor
  · intro h
    have h1 : ¬(q < q' ∨ q = q' ∧ p < p') := (mixed_lt_iff hp hp').not.mp (by omega)
    have h2 : ¬(q' < q ∨ q' = q ∧ p' < p) := (mixed_lt_iff hp' hp).not.mp (by omega)
    omega
  · rintro ⟨rfl, rfl⟩; rfl

theorem mixed_le_iff : q * E + p ≤ q' * E + p' ↔ q < q' ∨ q = q' ∧ p ≤ p' := by
  rw [Nat.le_iff_lt_or_eq, mixed_lt_iff hp hp', mixed_eq_iff hp hp']
  omega

end MixedRadix

variable (c : Config)

/-- The table's frames are numbered below `2^64`: a page holds more than one byte. -/
theorem spanFrames_lt : c.spanFrames < 2 ^ 64 := by
  have := c.span_le
  have := c.pageShift_pos
  simp only [Config.spanFrames, Config.ptrsPerPte, Config.ptrsPerPmd, Config.ptrsPerPgd,
    ← Nat.pow_add]
  exact Nat.pow_lt_pow_right (by decide) (by omega)

/-- A frame inside the span is its three indices read as digits. -/
theorem frame_digits {x : Nat} (hx : x < c.spanFrames) :
    x = (c.pgdIdx x * c.ptrsPerPmd + c.pmdIdx x) * c.ptrsPerPte + c.pteIdx x := by
  have hG : x / c.ptrsPerPte / c.ptrsPerPmd < c.ptrsPerPgd := by
    rw [Nat.div_lt_iff_lt_mul c.ptrsPerPmd_pos, Nat.div_lt_iff_lt_mul c.ptrsPerPte_pos]
    rwa [Config.spanFrames, Nat.mul_comm c.ptrsPerPte, Nat.mul_comm _ c.ptrsPerPgd,
      ← Nat.mul_assoc] at hx
  simp only [Config.pgdIdx, Config.pmdIdx, Config.pteIdx, Nat.mod_eq_of_lt hG, Nat.div_add_mod']

/-- **Frame order is index order.** Inside the span, `a ≤ x` exactly when the index triple of
`a` is lexicographically at most that of `x`. -/
theorem frame_le_iff {a x : Nat} (ha : a < c.spanFrames) (hx : x < c.spanFrames) :
    a ≤ x ↔ c.pgdIdx a < c.pgdIdx x ∨ c.pgdIdx a = c.pgdIdx x ∧
      (c.pmdIdx a < c.pmdIdx x ∨ c.pmdIdx a = c.pmdIdx x ∧ c.pteIdx a ≤ c.pteIdx x) := by
  conv_lhs => rw [frame_digits c ha, frame_digits c hx]
  rw [mixed_le_iff (c.pteIdx_lt a) (c.pteIdx_lt x), mixed_lt_iff (c.pmdIdx_lt a) (c.pmdIdx_lt x),
    mixed_eq_iff (c.pmdIdx_lt a) (c.pmdIdx_lt x)]
  omega

/-- The walk over the addresses `[s, e]` reaches middle slot `j` of top slot `i`: `i` lies in the
top level's index range and `j` in the range of the sub-range slot `i` is handed. -/
def VisitsBlock (s e i j : Nat) : Prop :=
  c.pgdIndex s ≤ i ∧ i ≤ c.pgdIndex e ∧
    c.pmdOffset (if i = c.pgdIndex s then s else 0) ≤ j ∧
    j ≤ c.pmdOffset (if i = c.pgdIndex e then e else ulongMax)

/-- The walk over the addresses `[s, e]` reaches leaf slot `k` below middle slot `j` of top slot
`i`. -/
def Visits (s e i j k : Nat) : Prop :=
  VisitsBlock c s e i j ∧
    let si := if i = c.pgdIndex s then s else 0
    let ei := if i = c.pgdIndex e then e else ulongMax
    c.pteOffset (if j = c.pmdOffset si then si else 0) ≤ k ∧
      k ≤ c.pteOffset (if j = c.pmdOffset ei then ei else ulongMax)

/-- The lower half of a walk's bounds, read as digits: index `(ix, mx, tx)` is at least the
start's `(ia, ma, ta)` in lexicographic order. -/
theorem lex_lower_iff {ia ma ta ix mx tx : Nat} :
    (ia ≤ ix ∧ (if ix = ia then ma else 0) ≤ mx ∧
      (if mx = (if ix = ia then ma else 0) then (if ix = ia then ta else 0) else 0) ≤ tx) ↔
    (ia < ix ∨ ia = ix ∧ (ma < mx ∨ ma = mx ∧ ta ≤ tx)) := by
  split_ifs <;> omega

/-- The upper half: index `(ix, mx, tx)` is at most the end's `(ib, mb, tb)`, where a child that
is not at the boundary runs to its last slot. -/
theorem lex_upper_iff {ib mb tb ix mx tx M T : Nat} (hmx : mx < M) (htx : tx < T) :
    (ix ≤ ib ∧ mx ≤ (if ix = ib then mb else M - 1) ∧
      tx ≤ (if mx = (if ix = ib then mb else M - 1) then (if ix = ib then tb else T - 1)
        else T - 1)) ↔
    (ix < ib ∨ ix = ib ∧ (mx < mb ∨ mx = mb ∧ tx ≤ tb)) := by
  split_ifs <;> omega

/-- **A walk over the frames `[a, b]` reaches exactly the leaf slots of the frames in
`[a, b]`.** -/
theorem visits_iff {a b x : Nat} (hab : a ≤ b) (hb : b < c.spanFrames) (hx : x < c.spanFrames) :
    Visits c (c.gpaOf a) (c.gpaOf b) (c.pgdIdx x) (c.pmdIdx x) (c.pteIdx x) ↔ a ≤ x ∧ x ≤ b := by
  rw [frame_le_iff c (by omega) hx, frame_le_iff c hx hb, ← lex_lower_iff,
    ← lex_upper_iff (c.pmdIdx_lt x) (c.pteIdx_lt x)]
  simp only [Visits, VisitsBlock, Config.pgdIndex_gpaOf, apply_ite c.pmdOffset,
    apply_ite c.pteOffset, Config.pmdOffset_gpaOf, Config.pteOffset_gpaOf, Config.pmdOffset_zero,
    Config.pteOffset_zero, Config.pmdOffset_ulongMax, Config.pteOffset_ulongMax]
  constructor
  · rintro ⟨⟨h1, h2, h3, h4⟩, h5, h6⟩; exact ⟨⟨h1, h3, h5⟩, h2, h4, h6⟩
  · rintro ⟨⟨h1, h3, h5⟩, h2, h4, h6⟩; exact ⟨⟨h1, h2, h3, h4⟩, h5, h6⟩

/-- The frame whose top, middle and leaf indices are `i`, `j` and `k`. -/
def frameAt (i j k : Nat) : Nat := k + (j + i * c.ptrsPerPmd) * c.ptrsPerPte

/-- Inside the span a frame is the frame of its own indices. -/
theorem frameAt_digits {x : Nat} (hx : x < c.spanFrames) :
    frameAt c (c.pgdIdx x) (c.pmdIdx x) (c.pteIdx x) = x := by
  rw [frameAt]
  conv_rhs => rw [frame_digits c hx]
  ring

/-- Indices in range are the digits of their frame. -/
theorem digits_mk {i j k : Nat} (hi : i < c.ptrsPerPgd) (hj : j < c.ptrsPerPmd)
    (hk : k < c.ptrsPerPte) :
    frameAt c i j k < c.spanFrames ∧ c.pgdIdx (frameAt c i j k) = i ∧
      c.pmdIdx (frameAt c i j k) = j ∧ c.pteIdx (frameAt c i j k) = k := by
  have hE := c.ptrsPerPte_pos
  have hM := c.ptrsPerPmd_pos
  refine ⟨?_, ?_, ?_, ?_⟩
  · have h1 : (j + i * c.ptrsPerPmd + 1) * c.ptrsPerPte ≤
        c.ptrsPerPgd * c.ptrsPerPmd * c.ptrsPerPte := by
      apply Nat.mul_le_mul_right
      have := Nat.mul_le_mul_right c.ptrsPerPmd (show i + 1 ≤ c.ptrsPerPgd by omega)
      rw [Nat.succ_mul] at this; omega
    rw [Nat.succ_mul] at h1
    simp only [frameAt, Config.spanFrames]
    rw [Nat.mul_comm c.ptrsPerPte, Nat.mul_comm _ c.ptrsPerPgd, ← Nat.mul_assoc]
    omega
  · simp only [frameAt, Config.pgdIdx, Nat.add_mul_div_right _ _ hE, Nat.div_eq_of_lt hk,
      Nat.zero_add, Nat.add_mul_div_right _ _ hM, Nat.div_eq_of_lt hj, Nat.mod_eq_of_lt hi]
  · simp only [frameAt, Config.pmdIdx, Nat.add_mul_div_right _ _ hE, Nat.div_eq_of_lt hk,
      Nat.zero_add, Nat.add_mul_mod_self_right, Nat.mod_eq_of_lt hj]
  · simp only [frameAt, Config.pteIdx, Nat.add_mul_mod_self_right, Nat.mod_eq_of_lt hk]

/-- At any middle slot, the leaf bounds a walk hands down are in order when its ends are. -/
theorem lex_bounds_le {ia ma ta ib mb tb i j M T : Nat} (hta : ta < T)
    (hab : ia < ib ∨ ia = ib ∧ (ma < mb ∨ ma = mb ∧ ta ≤ tb)) :
    (if j = (if i = ia then ma else 0) then (if i = ia then ta else 0) else 0) ≤
      (if j = (if i = ib then mb else M - 1) then (if i = ib then tb else T - 1) else T - 1) := by
  split_ifs <;> omega

/-- **A middle slot the walk over `[a, b]` reaches holds a frame of `[a, b]` in its block.** -/
theorem visitsBlock_meets {a b i j : Nat} (hab : a ≤ b) (hb : b < c.spanFrames)
    (hi : i < c.ptrsPerPgd) (hj : j < c.ptrsPerPmd) (hv : VisitsBlock c (c.gpaOf a) (c.gpaOf b) i j) :
    ∃ y, a ≤ y ∧ y ≤ b ∧ c.pgdIdx y = i ∧ c.pmdIdx y = j := by
  let si := if i = c.pgdIndex (c.gpaOf a) then c.gpaOf a else 0
  let k := c.pteOffset (if j = c.pmdOffset si then si else 0)
  obtain ⟨hy, hyi, hyj, hyk⟩ :=
    digits_mk c hi hj (show k < c.ptrsPerPte from Nat.mod_lt _ c.ptrsPerPte_pos)
  refine ⟨frameAt c i j k, ?_⟩
  rw [← and_assoc, ← visits_iff c hab hb hy, hyi, hyj, hyk]
  refine ⟨⟨hv, Nat.le_refl _, ?_⟩, rfl, rfl⟩
  simp only [k, si, Config.pgdIndex_gpaOf, apply_ite c.pmdOffset, apply_ite c.pteOffset,
    Config.pmdOffset_gpaOf, Config.pteOffset_gpaOf, Config.pmdOffset_zero, Config.pteOffset_zero,
    Config.pmdOffset_ulongMax, Config.pteOffset_ulongMax]
  exact lex_bounds_le (c.pteIdx_lt a) ((frame_le_iff c (by omega) hb).mp hab)

/-! ## What the range operations do at a visited slot -/

section RangeOp
variable {c} {op op1 : Pte → Pte}

theorem rangeOpPte_visit {pte pte' : PteTable} {s e k : Nat} {r : Bool}
    (h : rangeOpPte c op pte s e = some (pte', r)) (h1 : c.pteOffset s ≤ k)
    (h2 : k ≤ c.pteOffset e) :
    pte' k = (if (pte k).present then op (pte k) else pte k) ∧
      ((pte k).present = true → op (pte k) ≠ pte k → r = true) := by
  obtain ⟨r', hr'⟩ := (forSlots_eq_some h).1 k h1 (by omega)
  refine ⟨?_, fun hp ho => (forSlots_or h).mpr (.inr ⟨k, h1, by omega, op (pte k), by simp [hp, ho]⟩)⟩
  by_cases hp : (pte k).present <;> by_cases ho : op (pte k) = pte k <;>
    simp only [hp, ho, Bool.not_true, Bool.not_false, if_true, if_false, reduceCtorEq,
      Option.some.injEq, Prod.mk.injEq] at hr' ⊢ <;> simp [hr'.1, ho]

theorem rangeOpPmd_visit {pmd pmd' : PmdTable} {s e j : Nat} {r : Bool} {pte : PteTable}
    (h : rangeOpPmd c op op1 pmd s e = some (pmd', r)) (h1 : c.pmdOffset s ≤ j)
    (h2 : j ≤ c.pmdOffset e) (hj : pmd j = .table pte) :
    ∃ pte' r', pmd' j = .table pte' ∧
      rangeOpPte c op pte (if j = c.pmdOffset s then s else 0)
        (if j = c.pmdOffset e then e else ulongMax) = some (pte', r') ∧ (r' = true → r = true) := by
  obtain ⟨r'', hr'⟩ := (forSlots_eq_some h).1 j h1 (by omega)
  rw [hj] at hr'
  simp only [pmdPresent, Bool.not_true, Bool.false_eq_true, if_false] at hr'
  obtain ⟨⟨pte', r'⟩, hp, hy⟩ := Option.map_eq_some'.mp hr'
  simp only [Prod.mk.injEq] at hy
  refine ⟨pte', r', hy.1.symm, hp, fun hr =>
    (forSlots_or h).mpr (.inr ⟨j, h1, by omega, .table pte', ?_⟩)⟩
  rw [hj]; simp [pmdPresent, hp, hr]

theorem rangeOpPgd_visit {pgd pgd' : Pgd} {s e i : Nat} {r : Bool} {pmd : PmdTable}
    (h : rangeOpPgd c op op1 pgd s e = some (pgd', r)) (h1 : c.pgdIndex s ≤ i)
    (h2 : i ≤ c.pgdIndex e) (hi : pgd i = some pmd) :
    ∃ pmd' r', pgd' i = some pmd' ∧
      rangeOpPmd c op op1 pmd (if i = c.pgdIndex s then s else 0)
        (if i = c.pgdIndex e then e else ulongMax) = some (pmd', r') ∧ (r' = true → r = true) := by
  obtain ⟨r'', hr'⟩ := (forSlots_eq_some h).1 i h1 (by omega)
  rw [hi] at hr'
  obtain ⟨⟨pmd', r'⟩, hp, hy⟩ := Option.map_eq_some'.mp hr'
  simp only [Prod.mk.injEq] at hy
  refine ⟨pmd', r', hy.1.symm, hp, fun hr =>
    (forSlots_or h).mpr (.inr ⟨i, h1, by omega, some pmd', ?_⟩)⟩
  simp [rangeOpPud, hi, hp, hr]

/-- **A range operation applies `op` to the present leaf entry of every frame in `[a, b]`** and
reports a change when it changed one. -/
theorem rangeOp_leaf {pgd pgd' : Pgd} {a b x : Nat} {r : Bool}
    (h : rangeOpPgd c op op1 pgd (c.gpaOf a) (c.gpaOf b) = some (pgd', r))
    (hb : b < c.spanFrames) (hax : a ≤ x) (hxb : x ≤ b) {pmd : PmdTable} {pte : PteTable}
    (hi : pgd (c.pgdIdx x) = some pmd) (hj : pmd (c.pmdIdx x) = .table pte) :
    let e := pte (c.pteIdx x)
    pgd'.entry c x = some (if e.present then op e else e) ∧
      (e.present = true → op e ≠ e → r = true) := by
  obtain ⟨⟨b1, b2, b3, b4⟩, b5, b6⟩ :=
    (visits_iff c (Nat.le_trans hax hxb) hb (by omega)).mpr ⟨hax, hxb⟩
  obtain ⟨pmd', r1, hi', h1, hr1⟩ := rangeOpPgd_visit h b1 b2 hi
  obtain ⟨pte', r2, hj', h2, hr2⟩ := rangeOpPmd_visit h1 b3 b4 hj
  obtain ⟨hk, hr3⟩ := rangeOpPte_visit h2 b5 b6
  refine ⟨?_, fun hp ho => hr1 (hr2 (hr3 hp ho))⟩
  simp only [Pgd.entry, hi', Option.some_bind, hj', Pmd.entryAt, hk]

theorem rangeOpPte_isSome (pte : PteTable) (s e : Nat) : (rangeOpPte c op pte s e).isSome :=
  forSlots_isSome _ fun _ _ _ => by split <;> (try split) <;> rfl

theorem rangeOpPmd_isSome {pmd : PmdTable} (hwf : ∀ j e, pmd j = .val e → e.huge = true)
    (s e : Nat) : (rangeOpPmd c op op1 pmd s e).isSome :=
  forSlots_isSome _ fun j _ _ => by
    split
    · rfl
    · split
      · rename_i old hj
        rw [if_pos (hwf j old hj)]; split <;> rfl
      · simp [rangeOpPte_isSome]
      · rfl

/-- **On a well-formed table a range operation always returns**: it never follows a corrupt
middle-level slot. -/
theorem rangeOpPgd_isSome {pgd : Pgd} (hwf : pgd.Wf) (s e : Nat) :
    (rangeOpPgd c op op1 pgd s e).isSome :=
  forSlots_isSome _ fun i _ _ => by
    dsimp only [rangeOpPud]
    split
    · rfl
    · rename_i pmd hi
      simp [rangeOpPmd_isSome (hwf i pmd hi)]

end RangeOp

end LoongsonDune.Proof
