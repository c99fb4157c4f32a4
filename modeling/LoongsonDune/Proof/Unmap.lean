import LoongsonDune.Proof.FlushRange
import LoongsonDune.Proof.Slot
import LoongsonDune.Mmu.System

/-!
# `kvm_unmap_hva_range`

Composing what `handle_hva_to_gpa` hands each slot's handler with what the flush does to each
frame: after `kvm_unmap_hva_range(kvm, start, end)` no frame whose host page meets
`[start, end)` has a present entry, and every other frame of the table keeps its entry, except a
huge entry whose block holds such a frame.

This needs every slot to lie inside the table: the flush takes frame numbers modulo the table's
span, so a slot frame beyond it aliases a frame of the table that may belong to another slot. It
also needs each slot's host range to start page-aligned and not to wrap past `2^64`, where
`handle_hva_to_gpa`'s `unsigned long` arithmetic would clip it to nothing.
-/

namespace LoongsonDune.Proof

open LoongsonDune

variable {c : Config} {start «end» : Nat}

/-- A slot `kvm_unmap_hva_range` handles as intended: page-aligned, its host range below `2^64`,
its frames inside the table's span. -/
def SlotInSpan (c : Config) (s : Memslot) : Prop :=
  s.userspaceAddr % c.pageSize = 0 ∧ s.userspaceAddr + s.npages * c.pageSize < 2 ^ 64 ∧
    s.baseGfn + s.npages ≤ c.spanFrames

/-- What the unmap has done once it handled the slots `done`, from the table `pgd0`: no frame
whose host page in one of them meets the range has a present entry, and every other frame of
the table has its old entry, or no present one where its old entry was huge and its block holds
such a frame. -/
def Unmapped (c : Config) (start «end» : Nat) (done : List Memslot) (pgd0 pgd : Pgd) : Prop :=
  (∀ s ∈ done, ∀ g, HostPageMeets c s g start «end» →
    ∀ e, pgd.entry c g = some e → e.present = false) ∧
  (∀ x, x < c.spanFrames → (∀ s ∈ done, ¬HostPageMeets c s x start «end») →
    pgd.entry c x = pgd0.entry c x ∨
      ((∀ e, pgd.entry c x = some e → e.present = false) ∧
        ∃ e, pgd0.entry c x = some e ∧ e.huge = true ∧ ∃ s ∈ done, ∃ y,
          HostPageMeets c s y start «end» ∧ c.pgdIdx y = c.pgdIdx x ∧ c.pmdIdx y = c.pmdIdx x))

theorem unmapped_nil (pgd : Pgd) : Unmapped c start «end» [] pgd pgd :=
  ⟨(fun _ h => by cases h), fun _ _ _ => .inl rfl⟩

theorem unmapped_congr {l l' : List Memslot} (hl : ∀ s, s ∈ l ↔ s ∈ l') {pgd0 pgd : Pgd}
    (h : Unmapped c start «end» l pgd0 pgd) : Unmapped c start «end» l' pgd0 pgd := by
  simp only [Unmapped, ← hl] at h ⊢
  exact h

/-- A slot none of whose pages meets the range changes nothing. -/
theorem unmapped_skip {done : List Memslot} {s : Memslot} {pgd0 pgd : Pgd}
    (hs : ∀ g, ¬HostPageMeets c s g start «end») (h : Unmapped c start «end» done pgd0 pgd) :
    Unmapped c start «end» (s :: done) pgd0 pgd := by
  refine ⟨fun t ht g hg => ?_, fun x hx hn => ?_⟩
  · rcases List.mem_cons.mp ht with rfl | ht
    · exact absurd hg (hs g)
    · exact h.1 t ht g hg
  · rcases h.2 x hx fun t ht => hn t (List.mem_cons_of_mem _ ht) with h | ⟨hp, e, he, hh, t, ht, hy⟩
    · exact .inl h
    · exact .inr ⟨hp, e, he, hh, t, List.mem_cons_of_mem _ ht, hy⟩

/-- **One slot's flush.** The flush of the slot's frames whose host pages meet the range extends
what the unmap has done to that slot. -/
theorem unmapped_flush {done : List Memslot} {s : Memslot} {pgd0 pgd pgd' : Pgd}
    {gfn gfnEnd : Nat} {r : Bool} (hdone : ∀ t ∈ done, t.baseGfn + t.npages ≤ c.spanFrames)
    (hlt : gfn < gfnEnd) (hle : gfnEnd ≤ c.spanFrames)
    (hiff : ∀ g, (gfn ≤ g ∧ g < gfnEnd) ↔ HostPageMeets c s g start «end»)
    (h : kvmMipsFlushGpaPt c pgd gfn (gfnEnd - 1) = some (pgd', r))
    (hu : Unmapped c start «end» done pgd0 pgd) : Unmapped c start «end» (s :: done) pgd0 pgd' := by
  have hb : gfnEnd - 1 < c.spanFrames := by omega
  refine ⟨fun t ht g hg => ?_, fun x hx hn => ?_⟩
  · rcases List.mem_cons.mp ht with rfl | ht
    · have := (hiff g).mpr hg
      exact flush_in hb h this.1 (by omega)
    · by_cases hin : gfn ≤ g ∧ g ≤ gfnEnd - 1
      · exact flush_in hb h hin.1 hin.2
      · have hg' : g < c.spanFrames := by
          have := hdone t ht; obtain ⟨-, h2, -⟩ := hg; omega
        rcases flush_out (by omega) hb h hg' hin with he | ⟨hp, -⟩
        · rw [he]; exact hu.1 t ht g hg
        · exact hp
  · have hout : ¬(gfn ≤ x ∧ x ≤ gfnEnd - 1) := fun hx' =>
      hn s (List.mem_cons_self _ _) ((hiff x).mp ⟨hx'.1, by omega⟩)
    have hold := hu.2 x hx fun t ht => hn t (List.mem_cons_of_mem _ ht)
    rcases flush_out (by omega) hb h hx hout with he | ⟨hp, pmd, e, hpi, hpj, hh, y, hy1, hy2, hyb⟩
    · rw [he]
      rcases hold with h0 | ⟨hp0, e0, he0, hh0, t, ht, hy⟩
      · exact .inl h0
      · exact .inr ⟨hp0, e0, he0, hh0, t, List.mem_cons_of_mem _ ht, hy⟩
    · have he : pgd.entry c x = some e := by rw [entry_of_slot hpi, hpj]; simp [Pmd.entryAt, hh]
      refine .inr ⟨hp, ?_⟩
      rcases hold with h0 | ⟨-, e0, he0, hh0, t, ht, hy⟩
      · exact ⟨e, h0 ▸ he, hh, s, List.mem_cons_self _ _, y, (hiff y).mp ⟨hy1, by omega⟩, hyb⟩
      · exact ⟨e0, he0, hh0, t, List.mem_cons_of_mem _ ht, hy⟩

theorem unmapped_slots {pgd0 : Pgd} :
    ∀ (rest done : List Memslot) (pgd : Pgd) (ret : Bool), (∀ s ∈ rest, SlotInSpan c s) →
      (∀ s ∈ done, SlotInSpan c s) → pgd.Wf → Unmapped c start «end» done pgd0 pgd →
      ∃ pgd' r, handleHvaToGpa c start «end» (kvmUnmapHvaHandler c) rest pgd ret = some (pgd', r) ∧
        Unmapped c start «end» (rest ++ done) pgd0 pgd'
  | [], _, pgd, ret, _, _, _, hu => ⟨pgd, ret, rfl, hu⟩
  | s :: rest, done, pgd, ret, hrest, hdone, hwf, hu => by
    obtain ⟨hua, hwrap, hspan⟩ := hrest s (List.mem_cons_self _ _)
    have hrest' : ∀ t ∈ rest, SlotInSpan c t := fun t ht => hrest t (List.mem_cons_of_mem _ ht)
    have hdone' : ∀ t ∈ s :: done, SlotInSpan c t := fun t ht => by
      rcases List.mem_cons.mp ht with rfl | ht
      · exact ⟨hua, hwrap, hspan⟩
      · exact hdone t ht
    have hperm : ∀ t, t ∈ rest ++ s :: done ↔ t ∈ (s :: rest) ++ done := fun t => by
      simp only [List.mem_append, List.mem_cons]; tauto
    rcases @handleHvaToGpa_cons c (kvmUnmapHvaHandler c) s rest pgd ret start «end» hua hwrap
        (Nat.lt_of_le_of_lt hspan (spanFrames_lt c)) with
      ⟨heq, hskip⟩ | ⟨gfn, gfnEnd, hlt, hle, hiff, heq⟩
    · obtain ⟨pgd', r, h, hu'⟩ := unmapped_slots rest (s :: done) pgd ret hrest' hdone' hwf
        (unmapped_skip hskip hu)
      exact ⟨pgd', r, heq ▸ h, unmapped_congr hperm hu'⟩
    · obtain ⟨⟨pgd1, r1⟩, h1⟩ := Option.isSome_iff_exists.mp
        (flushPt_isSome (c := c) hwf gfn (sub64 gfnEnd 1))
      rw [sub64_of_le (by omega) (by have := spanFrames_lt c; omega)] at h1
      have hu1 := unmapped_flush (fun t ht => (hdone t ht).2.2) hlt (by omega) hiff h1 hu
      obtain ⟨pgd', r, h, hu'⟩ := unmapped_slots rest (s :: done) pgd1 (ret || true) hrest' hdone'
        (flushPt_wf h1 hwf) hu1
      refine ⟨pgd', r, ?_, unmapped_congr hperm hu'⟩
      rw [heq]
      simp only [kvmUnmapHvaHandler, sub64_of_le (show 1 ≤ gfnEnd by omega)
        (show gfnEnd < 2 ^ 64 by have := spanFrames_lt c; omega), h1, Option.map_some',
        Option.some_bind, h]

/-- The unmap over the whole slot list returns, and has done what `Unmapped` says for every slot. -/
theorem kvmUnmapHvaRange_unmapped {slots : List Memslot} {pgd : Pgd}
    (hslots : ∀ s ∈ slots, SlotInSpan c s) (hwf : pgd.Wf) :
    ∃ pgd', kvmUnmapHvaRange c slots pgd start «end» = some pgd' ∧
      Unmapped c start «end» slots pgd pgd' := by
  obtain ⟨pgd', r, h, hu⟩ := @unmapped_slots c start «end» pgd slots [] pgd false hslots
    (fun _ h => by cases h) hwf (unmapped_nil pgd)
  exact ⟨pgd', by simp [kvmUnmapHvaRange, h], by rwa [List.append_nil] at hu⟩

/-- **`kvm_unmap_hva_range` unmaps exactly the frames whose host pages meet the range.** For
slots inside the table's span whose host ranges start page-aligned and do not wrap, and a
well-formed table, the unmap returns; afterwards no frame of a slot whose host page meets
`[start, end)` has a present entry, and every other frame of the table has its old entry, unless
that entry is huge and its block holds such a frame. -/
theorem kvmUnmapHvaRange_unmaps {slots : List Memslot} {pgd : Pgd}
    (hslots : ∀ s ∈ slots, SlotInSpan c s) (hwf : pgd.Wf) :
    ∃ pgd', kvmUnmapHvaRange c slots pgd start «end» = some pgd' ∧
      (∀ s ∈ slots, ∀ g, HostPageMeets c s g start «end» →
        ∀ e, pgd'.entry c g = some e → e.present = false) ∧
      (∀ x, x < c.spanFrames → (∀ s ∈ slots, ¬HostPageMeets c s x start «end») →
        pgd'.entry c x = pgd.entry c x ∨ ∃ e, pgd.entry c x = some e ∧ e.huge = true ∧
          ∃ s ∈ slots, ∃ y, HostPageMeets c s y start «end» ∧ c.pgdIdx y = c.pgdIdx x ∧
            c.pmdIdx y = c.pmdIdx x) := by
  obtain ⟨pgd', h, hu⟩ := kvmUnmapHvaRange_unmapped hslots hwf
  refine ⟨pgd', h, hu.1, fun x hx hn => ?_⟩
  rcases hu.2 x hx hn with h | ⟨-, e, he, hh, hy⟩
  · exact .inl h
  · exact .inr ⟨e, he, hh, hy⟩

/-- A table whose one mapping is a present leaf entry for frame 0. -/
def presentFrameZero : Pgd := fun i =>
  if i = 0 then some fun j =>
    if j = 0 then .table fun k => if k = 0 then ⟨1064, true, true, false, true, false, 0⟩ else Pte.zero
    else .invalid
  else none

theorem kvmUnmapHvaRange_unmaps_sample :
    ∃ pgd', kvmUnmapHvaRange (Config.mips16k false) [Memslot.sample] presentFrameZero (2 ^ 20)
        (2 ^ 20 + 2 ^ 14) = some pgd' ∧
      (∀ s ∈ [Memslot.sample], ∀ g, HostPageMeets (Config.mips16k false) s g (2 ^ 20) (2 ^ 20 + 2 ^ 14) →
        ∀ e, pgd'.entry (Config.mips16k false) g = some e → e.present = false) ∧
      (∀ x, x < (Config.mips16k false).spanFrames →
        (∀ s ∈ [Memslot.sample], ¬HostPageMeets (Config.mips16k false) s x (2 ^ 20) (2 ^ 20 + 2 ^ 14)) →
        pgd'.entry (Config.mips16k false) x = presentFrameZero.entry (Config.mips16k false) x ∨
          ∃ e, presentFrameZero.entry (Config.mips16k false) x = some e ∧ e.huge = true ∧
            ∃ s ∈ [Memslot.sample], ∃ y, HostPageMeets (Config.mips16k false) s y (2 ^ 20) (2 ^ 20 + 2 ^ 14) ∧
              (Config.mips16k false).pgdIdx y = (Config.mips16k false).pgdIdx x ∧
              (Config.mips16k false).pmdIdx y = (Config.mips16k false).pmdIdx x) :=
  kvmUnmapHvaRange_unmaps
    (fun s hs => by simp only [List.mem_singleton] at hs; subst hs; unfold SlotInSpan; decide)
    (fun i pmd hi j e hj => by
      unfold presentFrameZero at hi
      split at hi <;> cases hi
      dsimp only at hj
      split at hj <;> cases hj)

/-- A slot of one frame, `2^33`, one table span above frame 0, backed by host page `2^21`. -/
def aliasSlot : Memslot := ⟨2 ^ 33, 1, 2 ^ 21, false⟩

/-- Unmapping the host page of `aliasSlot`'s frame removes the present leaf entry of frame 0 of the
sample slot, whose host page `2^20` the range does not meet: frame `2^33` and frame 0 share their
slot in a table of `2^33` frames. -/
theorem unmap_clears_aliased_frame :
    ¬HostPageMeets (Config.mips16k false) Memslot.sample 0 (2 ^ 21) (2 ^ 21 + 2 ^ 14) ∧
    (presentFrameZero.entry (Config.mips16k false) 0).map (fun e => (e.present, e.huge)) =
      some (true, false) ∧
    (kvmUnmapHvaRange (Config.mips16k false) [aliasSlot, Memslot.sample] presentFrameZero (2 ^ 21)
        (2 ^ 21 + 2 ^ 14)).map (fun pgd => (pgd.entry (Config.mips16k false) 0).map Pte.present) =
      some (some false) := by
  refine ⟨?_, by decide, by decide⟩
  unfold HostPageMeets; decide

end LoongsonDune.Proof
