import LoongsonDune.Proof.Range

/-!
# What `kvm_mips_flush_gpa_pt` does to each frame

A flush of the frames `[a, b]` inside the table's span leaves no present entry for any frame of
`[a, b]`, and leaves the entry of every other frame as it was, except a huge entry whose block
holds a frame of `[a, b]`: that one is cleared, or kept when it is not present, or dropped with a
middle table every visited slot of which the flush emptied.

Freeing is where the care lies. A leaf table is freed only when its own flush covered all its
slots, so all its frames were in `[a, b]`; a middle table only when every slot of it was visited
and each visited slot was absent, huge, or a leaf table freed in turn.
-/

namespace LoongsonDune.Proof

open LoongsonDune

variable {c : Config}

/-! ## One level at a time -/

theorem flushPte_visit {pte pte' : PteTable} {s e : Nat} {r : Bool}
    (h : kvmMipsFlushGpaPte c pte s e = some (pte', r)) (k : Nat) :
    (c.pteOffset s ≤ k → k ≤ c.pteOffset e → (pte' k).present = false) ∧
    (k < c.pteOffset s ∨ c.pteOffset e < k → pte' k = pte k) := by
  obtain ⟨hin, hout⟩ := forSlots_eq_some h
  refine ⟨fun h1 h2 => ?_, fun hk => hout k (by omega)⟩
  obtain ⟨r', hr'⟩ := hin k h1 (by omega)
  by_cases hp : (pte k).present <;>
    simp only [hp, Bool.not_true, Bool.not_false, Bool.false_eq_true, if_true, if_false,
      Option.some.injEq, Prod.mk.injEq] at hr' <;> rw [← hr'.1]
  · rfl
  · simpa using hp

/-- A leaf flush reports "safe to remove" only when it covered the whole table. -/
theorem flushPte_flag {pte pte' : PteTable} {s e : Nat}
    (h : kvmMipsFlushGpaPte c pte s e = some (pte', true)) :
    c.pteOffset s = 0 ∧ c.pteOffset e = c.ptrsPerPte - 1 := by
  simpa using ((forSlots_and h).mp rfl).1

/-- What one iteration of the middle-level loop can do: keep an absent slot, clear a present huge
one, or flush a leaf table and free it when that flush covered all of it. -/
theorem flushGpaPmdSlot_cases {s e : Nat} {p p' : Pmd} {r : Bool}
    (h : flushGpaPmdSlot c s e p = some (p', r)) :
    (pmdPresent p = false ∧ p' = p ∧ r = true) ∨
    (∃ x, p = .val x ∧ x.huge = true ∧ p' = .invalid ∧ r = true) ∨
    (∃ t t' r', p = .table t ∧ kvmMipsFlushGpaPte c t s e = some (t', r') ∧
      p' = (if r' then .invalid else .table t') ∧ r = r') := by
  cases p with
  | invalid =>
    simp only [flushGpaPmdSlot, pmdPresent, Bool.not_false, if_true, Option.some.injEq,
      Prod.mk.injEq] at h
    exact .inl ⟨rfl, h.1.symm, h.2.symm⟩
  | table t =>
    simp only [flushGpaPmdSlot, pmdPresent, pmdHuge_table, Bool.not_true, Bool.false_eq_true,
      if_false] at h
    obtain ⟨⟨t', r'⟩, hf, hy⟩ := Option.map_eq_some'.mp h
    refine .inr (.inr ⟨t, t', r', rfl, hf, ?_⟩)
    cases r' <;> simp only [if_true, if_false, Bool.false_eq_true, Prod.mk.injEq] at hy ⊢ <;>
      exact ⟨hy.1.symm, hy.2.symm⟩
  | val x =>
    simp only [flushGpaPmdSlot, pmdPresent, pmdHuge_val] at h
    cases hh : x.huge <;> simp only [hh, if_true, if_false, Bool.false_eq_true, Bool.not_true] at h
    · cases h
    · cases hp : x.present <;> simp only [hp, Bool.not_false, Bool.not_true, if_true, if_false,
        Bool.false_eq_true, Option.some.injEq, Prod.mk.injEq] at h
      · exact .inl ⟨by simp [pmdPresent, hh, hp], h.1.symm, h.2.symm⟩
      · exact .inr (.inl ⟨x, rfl, hh, h.1.symm, h.2.symm⟩)

theorem flushPud_cases {pud pud' : Option PmdTable} {s e : Nat} {r : Bool}
    (h : kvmMipsFlushGpaPud c pud s e = some (pud', r)) :
    (pud = none ∧ pud' = none) ∨ ∃ pmd pmd' r', pud = some pmd ∧
      kvmMipsFlushGpaPmd c pmd s e = some (pmd', r') ∧ pud' = (if r' then none else some pmd') := by
  cases pud with
  | none =>
    simp only [kvmMipsFlushGpaPud, Option.some.injEq, Prod.mk.injEq] at h
    exact .inl ⟨rfl, h.1.symm⟩
  | some pmd =>
    simp only [kvmMipsFlushGpaPud] at h
    obtain ⟨⟨pmd', r'⟩, hf, hy⟩ := Option.map_eq_some'.mp h
    refine .inr ⟨pmd, pmd', r', rfl, hf, ?_⟩
    cases r' <;> simp only [if_true, if_false, Bool.false_eq_true, Prod.mk.injEq] at hy ⊢ <;>
      exact hy.1.symm

/-! ## Entries through a slot -/

/-- An absent middle-level slot gives no present entry: at most a huge entry that is not
present. -/
theorem entryAt_not_present {p : Pmd} (hp : pmdPresent p = false) {k : Nat} {e : Pte}
    (he : p.entryAt k = some e) : e.present = false ∧ e.huge = true := by
  cases p with
  | invalid => cases he
  | table => simp [pmdPresent] at hp
  | val x =>
    simp only [Pmd.entryAt] at he
    split at he <;> simp_all [pmdPresent]

/-- A middle-level slot that is absent and yet gives an entry holds that entry itself. -/
theorem eq_val_of_entryAt {p : Pmd} (hp : pmdPresent p = false) {k : Nat} {e : Pte}
    (he : p.entryAt k = some e) : p = .val e := by
  cases p with
  | invalid => cases he
  | table => simp [pmdPresent] at hp
  | val x =>
    simp only [Pmd.entryAt] at he
    split at he <;> cases he
    rfl

theorem entry_eq_of_slot {pgd pgd' : Pgd} {x : Nat} (h : pgd' (c.pgdIdx x) = pgd (c.pgdIdx x)) :
    pgd'.entry c x = pgd.entry c x := by
  simp only [Pgd.entry, h]

theorem entry_of_slot {pgd : Pgd} {pmd : PmdTable} {x : Nat} (h : pgd (c.pgdIdx x) = some pmd) :
    pgd.entry c x = (pmd (c.pmdIdx x)).entryAt (c.pteIdx x) := by
  simp only [Pgd.entry, h, Option.some_bind]

theorem entry_none_of_slot {pgd : Pgd} {x : Nat} (h : pgd (c.pgdIdx x) = none) :
    pgd.entry c x = none := by
  simp only [Pgd.entry, h, Option.none_bind]

/-! ## The whole flush -/

/-- **The flush leaves no present entry in its range.** -/
theorem flush_in {pgd pgd' : Pgd} {a b x : Nat} {r : Bool} (hb : b < c.spanFrames)
    (h : kvmMipsFlushGpaPt c pgd a b = some (pgd', r)) (hax : a ≤ x) (hxb : x ≤ b) :
    ∀ e, pgd'.entry c x = some e → e.present = false := by
  obtain ⟨⟨b1, b2, b3, b4⟩, b5, b6⟩ :=
    (visits_iff c (Nat.le_trans hax hxb) hb (by omega)).mpr ⟨hax, hxb⟩
  obtain ⟨r1, h1⟩ := (forSlots_eq_some h).1 _ b1 (by omega)
  rcases flushPud_cases h1 with ⟨-, hn⟩ | ⟨pmd, pmd', r2, -, h2, hpud⟩
  · simp [entry_none_of_slot hn]
  · split at hpud
    · simp [entry_none_of_slot hpud]
    · rw [entry_of_slot hpud]
      obtain ⟨r3, h3⟩ := (forSlots_eq_some h2).1 _ b3 (by omega)
      rcases flushGpaPmdSlot_cases h3 with ⟨hp, hp', -⟩ | ⟨_, -, -, hp', -⟩ |
        ⟨t, t', r4, -, h4, hp', -⟩
      · rw [hp']; exact fun e he => (entryAt_not_present hp he).1
      · simp [hp', Pmd.entryAt]
      · rw [hp']
        split
        · simp [Pmd.entryAt]
        · intro e he
          simp only [Pmd.entryAt, Option.some.injEq] at he
          exact he ▸ (flushPte_visit h4 _).1 b5 b6

/-- **Outside its range the flush changes only frames under a huge entry whose block meets the
range**, and those it leaves without a present entry. -/
theorem flush_out {pgd pgd' : Pgd} {a b x : Nat} {r : Bool} (hab : a ≤ b)
    (hb : b < c.spanFrames) (h : kvmMipsFlushGpaPt c pgd a b = some (pgd', r))
    (hx : x < c.spanFrames) (hout : ¬(a ≤ x ∧ x ≤ b)) :
    pgd'.entry c x = pgd.entry c x ∨
      ((∀ e, pgd'.entry c x = some e → e.present = false) ∧
        ∃ pmd e, pgd (c.pgdIdx x) = some pmd ∧ pmd (c.pmdIdx x) = .val e ∧ e.huge = true ∧
          ∃ y, a ≤ y ∧ y ≤ b ∧ c.pgdIdx y = c.pgdIdx x ∧ c.pmdIdx y = c.pmdIdx x) := by
  have hvis := (visits_iff c hab hb hx).not.mpr hout
  have hmeet := visitsBlock_meets c hab hb (c.pgdIdx_lt x) (c.pmdIdx_lt x)
  have := c.pmdIdx_lt x
  have := c.pteIdx_lt x
  by_cases hi : c.pgdIndex (c.gpaOf a) ≤ c.pgdIdx x ∧ c.pgdIdx x ≤ c.pgdIndex (c.gpaOf b)
  swap
  · exact .inl (entry_eq_of_slot ((forSlots_eq_some h).2 _ (by omega)))
  obtain ⟨r1, h1⟩ := (forSlots_eq_some h).1 _ hi.1 (by omega)
  rcases flushPud_cases h1 with ⟨hn, hn'⟩ | ⟨pmd, pmd', r2, hpmd, h2, hpud⟩
  · exact .inl (by rw [entry_none_of_slot hn', entry_none_of_slot hn])
  rw [entry_of_slot hpmd]
  split at hpud
  · -- the middle table was freed: every slot of it was visited and reported "safe"
    rename_i hr2
    rw [entry_none_of_slot hpud]
    obtain ⟨hinit, hall⟩ := (forSlots_and h2).mp hr2
    simp only [Bool.and_eq_true, beq_iff_eq] at hinit
    have hj : VisitsBlock c (c.gpaOf a) (c.gpaOf b) (c.pgdIdx x) (c.pmdIdx x) :=
      ⟨hi.1, hi.2, by omega, by omega⟩
    obtain ⟨y, hy⟩ := hall (c.pmdIdx x) (by omega) (by omega)
    rcases flushGpaPmdSlot_cases hy with ⟨hp, -, -⟩ | ⟨e, he, hh, -, -⟩ | ⟨t, t', r4, ht, h4, -, hr4⟩
    · cases hq : (pmd (c.pmdIdx x)).entryAt (c.pteIdx x) with
      | none => exact .inl rfl
      | some e =>
        exact .inr ⟨(fun _ h => by cases h), pmd, e, hpmd, eq_val_of_entryAt hp hq,
          (entryAt_not_present hp hq).2, hmeet hj⟩
    · exact .inr ⟨(fun _ h => by cases h), pmd, e, hpmd, he, hh, hmeet hj⟩
    · -- a freed leaf table was covered whole, so `x` would be in the range
      subst hr4
      have hfull := flushPte_flag h4
      exact absurd ⟨hj, by rw [hfull.1]; omega, by rw [hfull.2]; omega⟩ hvis
  · -- the middle table stays
    rw [entry_of_slot hpud]
    by_cases hj : VisitsBlock c (c.gpaOf a) (c.gpaOf b) (c.pgdIdx x) (c.pmdIdx x)
    · obtain ⟨r3, h3⟩ := (forSlots_eq_some h2).1 _ hj.2.2.1 (by have := hj.2.2.2; omega)
      rcases flushGpaPmdSlot_cases h3 with ⟨-, hp', -⟩ | ⟨e, he, hh, hp', -⟩ |
        ⟨t, t', r4, ht, h4, hp', -⟩
      · exact .inl (by rw [hp'])
      · exact .inr ⟨by simp [hp', Pmd.entryAt], pmd, e, hpmd, he, hh, hmeet hj⟩
      · rw [ht, hp']
        split
        · rename_i hr4
          subst hr4
          have hfull := flushPte_flag h4
          exact absurd ⟨hj, by rw [hfull.1]; omega, by rw [hfull.2]; omega⟩ hvis
        · -- `x`'s leaf slot lies outside the leaf range, or `x` would be in the range
          refine .inl ?_
          simp only [Pmd.entryAt, Option.some.injEq]
          refine (flushPte_visit h4 _).2 ?_
          by_contra hk
          exact hvis ⟨hj, by omega, by omega⟩
    · exact .inl (by
        rw [(forSlots_eq_some h2).2 _ (by simp only [VisitsBlock] at hj; omega)])

/-- **No present huge entry survives in a block that meets the range**: the middle slot of every
frame of `[a, b]` is cleared, freed with its middle table, or was absent. -/
theorem flush_block {pgd pgd' : Pgd} {a b y : Nat} {r : Bool} (hb : b < c.spanFrames)
    (h : kvmMipsFlushGpaPt c pgd a b = some (pgd', r)) (hay : a ≤ y) (hyb : y ≤ b)
    {pmd : PmdTable} (hi : pgd' (c.pgdIdx y) = some pmd) {e : Pte}
    (hj : pmd (c.pmdIdx y) = .val e) : e.present = false := by
  obtain ⟨⟨b1, b2, b3, b4⟩, -⟩ :=
    (visits_iff c (Nat.le_trans hay hyb) hb (by omega)).mpr ⟨hay, hyb⟩
  obtain ⟨r1, h1⟩ := (forSlots_eq_some h).1 _ b1 (by omega)
  rcases flushPud_cases h1 with ⟨-, hn⟩ | ⟨pmd0, pmd', r2, -, h2, hpud⟩
  · rw [hn] at hi; cases hi
  split at hpud
  · rw [hpud] at hi; cases hi
  rw [hpud, Option.some.injEq] at hi
  subst hi
  obtain ⟨r3, h3⟩ := (forSlots_eq_some h2).1 _ b3 (by omega)
  rcases flushGpaPmdSlot_cases h3 with ⟨hp, hp', -⟩ | ⟨_, -, -, hp', -⟩ | ⟨_, _, _, -, -, hp', -⟩
  · rw [hp'] at hj
    rw [hj, pmdPresent] at hp
    split at hp
    · exact hp
    · cases hp
  · rw [hp'] at hj; cases hj
  · rw [hp'] at hj; split at hj <;> cases hj

/-! ## The flush on a well-formed table -/

theorem flushPte_isSome (pte : PteTable) (s e : Nat) : (kvmMipsFlushGpaPte c pte s e).isSome :=
  forSlots_isSome _ fun _ _ _ => by split <;> rfl

theorem flushGpaPmdSlot_isSome {p : Pmd} (hp : ∀ x, p = .val x → x.huge = true) (s e : Nat) :
    (flushGpaPmdSlot c s e p).isSome := by
  unfold flushGpaPmdSlot
  split
  · rfl
  · split
    · rfl
    · split
      · simp [flushPte_isSome]
      · rename_i hh _ _
        cases p with
        | invalid => simp [pmdPresent] at *
        | table => simp_all
        | val x => simp [hp x rfl] at hh

/-- **On a well-formed table the flush always returns.** -/
theorem flushPt_isSome {pgd : Pgd} (hwf : pgd.Wf) (a b : Nat) :
    (kvmMipsFlushGpaPt c pgd a b).isSome :=
  forSlots_isSome _ fun i _ _ => by
    unfold kvmMipsFlushGpaPud
    split
    · rfl
    · rename_i pmd hi
      simp only [Option.isSome_map']
      exact forSlots_isSome _ fun j _ _ => flushGpaPmdSlot_isSome (hwf i pmd hi j) _ _

/-- **The flush keeps the table well formed**: it only clears slots and flushes leaf tables. -/
theorem flushPt_wf {pgd pgd' : Pgd} {a b : Nat} {r : Bool}
    (h : kvmMipsFlushGpaPt c pgd a b = some (pgd', r)) (hwf : pgd.Wf) : pgd'.Wf := by
  let Q : Option PmdTable → Prop := fun pud => ∀ pmd, pud = some pmd → ∀ j e, pmd j = .val e → e.huge = true
  have hq : ∀ i, Q (pgd' i) := forSlots_preserve (Q := Q) (fun _ _ _ _ h1 hq => by
    rcases flushPud_cases h1 with ⟨-, rfl⟩ | ⟨pmd, pmd', r', rfl, h2, rfl⟩
    · intro _ h; cases h
    · split
      · intro _ h; cases h
      · rintro _ ⟨⟩
        exact forSlots_preserve (Q := fun p => ∀ e, p = .val e → e.huge = true) (fun _ _ _ _ h3 hp => by
          rcases flushGpaPmdSlot_cases h3 with ⟨-, rfl, -⟩ | ⟨_, -, -, rfl, -⟩ | ⟨_, _, _, -, -, rfl, -⟩
          · exact hp
          · intro _ h; cases h
          · split <;> (intro _ h; cases h)) h2 (hq _ rfl)) h hwf
  exact fun i pmd hi => hq i pmd hi

/-- **What `kvm_mips_flush_gpa_pt` leaves.** On a well-formed table and frames `a ≤ b` inside
the span, the flush returns, and afterwards no frame of `[a, b]` has a present entry, no block
that meets `[a, b]` has a present huge entry in its middle slot, every other frame of the span
keeps its entry unless its block's middle slot is a huge entry that meets the range, and the
table is well formed. -/
theorem flushGpaPt_clears_range (c : Config) {pgd : Pgd} (hwf : pgd.Wf) {a b : Nat} (hab : a ≤ b)
    (hb : b < c.spanFrames) :
    ∃ pgd' r, kvmMipsFlushGpaPt c pgd a b = some (pgd', r) ∧
      (∀ x, a ≤ x → x ≤ b → ∀ e, pgd'.entry c x = some e → e.present = false) ∧
      (∀ y, a ≤ y → y ≤ b → ∀ pmd, pgd' (c.pgdIdx y) = some pmd →
        ∀ e, pmd (c.pmdIdx y) = .val e → e.present = false) ∧
      (∀ x, x < c.spanFrames → ¬(a ≤ x ∧ x ≤ b) → pgd'.entry c x = pgd.entry c x ∨
        ∃ pmd e y, pgd (c.pgdIdx x) = some pmd ∧ pmd (c.pmdIdx x) = .val e ∧ a ≤ y ∧ y ≤ b ∧
          c.pgdIdx y = c.pgdIdx x ∧ c.pmdIdx y = c.pmdIdx x) ∧
      pgd'.Wf := by
  obtain ⟨⟨pgd', r⟩, h⟩ := Option.isSome_iff_exists.mp (flushPt_isSome (c := c) hwf a b)
  refine ⟨pgd', r, h, fun x hax hxb => flush_in hb h hax hxb,
    fun y hay hyb _ hi _ hj => flush_block hb h hay hyb hi hj, fun x hx hout => ?_, flushPt_wf h hwf⟩
  rcases flush_out hab hb h hx hout with he | ⟨-, pmd, e, hi, hj, -, y, hy⟩
  · exact .inl he
  · exact .inr ⟨pmd, e, y, hi, hj, hy⟩

/-- Under `Config.mips16k`: frame `2047`, the last of block `0`, is mapped by a present leaf
entry; block `1` (frames `2048 .. 4095`) holds a huge entry whose present bit is clear. -/
def flushSample : Pgd := fun i => if i = 0 then some fun j =>
    if j = 0 then .table fun k => if k = 2047 then ⟨7, true, true, false, true, false, 0⟩
      else Pte.zero
    else if j = 1 then .val ⟨8, false, false, false, false, true, 0⟩
    else .invalid
  else none

theorem flushSample_wf : flushSample.Wf := by
  intro i pmd hi j e he
  simp only [flushSample] at hi
  split at hi <;> cases hi
  dsimp only at he
  split at he
  · cases he
  · split at he <;> cases he; rfl

theorem flushGpaPt_clears_range_sample :
    ∃ pgd' r, kvmMipsFlushGpaPt (Config.mips16k false) flushSample 2047 2048 = some (pgd', r) ∧
      (∀ x, 2047 ≤ x → x ≤ 2048 → ∀ e, pgd'.entry (Config.mips16k false) x = some e →
        e.present = false) ∧
      (∀ y, 2047 ≤ y → y ≤ 2048 → ∀ pmd, pgd' ((Config.mips16k false).pgdIdx y) = some pmd →
        ∀ e, pmd ((Config.mips16k false).pmdIdx y) = .val e → e.present = false) ∧
      (∀ x, x < (Config.mips16k false).spanFrames → ¬(2047 ≤ x ∧ x ≤ 2048) →
        pgd'.entry (Config.mips16k false) x = flushSample.entry (Config.mips16k false) x ∨
        ∃ pmd e y, flushSample ((Config.mips16k false).pgdIdx x) = some pmd ∧
          pmd ((Config.mips16k false).pmdIdx x) = .val e ∧ 2047 ≤ y ∧ y ≤ 2048 ∧
          (Config.mips16k false).pgdIdx y = (Config.mips16k false).pgdIdx x ∧
          (Config.mips16k false).pmdIdx y = (Config.mips16k false).pmdIdx x) ∧
      pgd'.Wf :=
  flushGpaPt_clears_range (Config.mips16k false) flushSample_wf (by decide) (by decide)

/-- **A flush that keeps a huge entry of its range and changes a frame outside it.** Flushing
`[2047, 2048]` on the well-formed `flushSample` leaves the huge entry that governs frame `2048`,
because it is not present; and it changes the entry of frame `2047 + 2^33`, which lies outside the
range and outside every huge block, because that frame's indices wrap onto frame `2047`'s. -/
theorem flush_keeps_absent_huge_and_alias :
    flushSample.Wf ∧ ∃ pgd' r, kvmMipsFlushGpaPt (Config.mips16k false) flushSample 2047 2048 =
      some (pgd', r) ∧
      (∃ e, pgd'.entry (Config.mips16k false) 2048 = some e ∧ e.huge = true) ∧
      pgd'.entry (Config.mips16k false) (2047 + 2 ^ 33) ≠
        flushSample.entry (Config.mips16k false) (2047 + 2 ^ 33) := by
  refine ⟨flushSample_wf, ?_⟩
  have h : ((kvmMipsFlushGpaPt (Config.mips16k false) flushSample 2047 2048).map fun r =>
      (r.1.entry (Config.mips16k false) 2048, decide (r.1.entry (Config.mips16k false)
        (2047 + 2 ^ 33) ≠ flushSample.entry (Config.mips16k false) (2047 + 2 ^ 33)))) =
      some (some ⟨8, false, false, false, false, true, 0⟩, true) := by decide
  obtain ⟨⟨pgd', r⟩, h1, h2⟩ := Option.map_eq_some'.mp h
  simp only [Prod.mk.injEq, decide_eq_true_eq] at h2
  exact ⟨pgd', r, h1, ⟨_, h2.1, rfl⟩, h2.2⟩

end LoongsonDune.Proof
