import LoongsonDune.Mmu.System

/-!
# What `handle_hva_to_gpa` hands its handler

For each slot, `handle_hva_to_gpa` clips the host range to the slot's host range and turns the
clipped range into the slot's frames `[gfn, gfn_end)`, all in `unsigned long` arithmetic. An empty
host range visits no slot at all. For a slot whose host range does not wrap and a range of whole
pages inside it, the frames are exactly the slot's frames of those pages.
-/

namespace LoongsonDune.Proof

open LoongsonDune

variable (c : Config)

theorem u64_of_lt {x : Nat} (h : x < 2 ^ 64) : u64 x = x := Nat.mod_eq_of_lt h

theorem sub64_of_le {a b : Nat} (h1 : b ≤ a) (h2 : a < 2 ^ 64) : sub64 a b = a - b := by
  unfold sub64 u64
  rw [Nat.mod_eq_of_lt (Nat.lt_of_le_of_lt h1 h2), show a + (2 ^ 64 - b) = a - b + 2 ^ 64 by omega,
    Nat.add_mod_right, Nat.mod_eq_of_lt (by omega)]

theorem pageSize_dvd_word : c.pageSize ∣ 2 ^ 64 :=
  Nat.pow_dvd_pow 2 (by have := c.span_le; omega)

/-- **An empty host range visits no slot**: every clipped range `[max(start, ua), min(end, ..))` is
empty when `end ≤ start`, so the table and the result are handed back untouched. -/
theorem handleHvaToGpa_empty {start «end» : Nat} (h : «end» ≤ start) (handler : HvaHandler) :
    ∀ (slots : List Memslot) (pgd : Pgd) (ret : Bool),
      handleHvaToGpa c start «end» handler slots pgd ret = some (pgd, ret)
  | [], _, _ => rfl
  | _ :: slots, pgd, ret => by
    simp only [handleHvaToGpa]
    rw [if_pos (by omega)]
    exact handleHvaToGpa_empty h handler slots pgd ret

/-- The frame `hva_to_gfn_memslot` gives a host address at or above the slot's start, when nothing
wraps. -/
theorem hvaToGfnMemslot_eq {s : Memslot} {hva : Nat} (h1 : s.userspaceAddr ≤ hva)
    (h2 : hva < 2 ^ 64) (h3 : s.baseGfn + (hva - s.userspaceAddr) / c.pageSize < 2 ^ 64) :
    hvaToGfnMemslot c hva s = s.baseGfn + (hva - s.userspaceAddr) / c.pageSize := by
  rw [hvaToGfnMemslot, sub64_of_le h1 h2, u64_of_lt h3]

/-- Rounding up an address at most a page-aligned bound below `2^64` does not wrap. -/
theorem roundUp_lt_word {x e : Nat} (he : c.pageSize ∣ e) (hlt : e < 2 ^ 64) (hx : x ≤ e) :
    x + c.pageSize - 1 < 2 ^ 64 := by
  obtain ⟨k, hk⟩ := pageSize_dvd_word c
  obtain ⟨q, rfl⟩ := he
  have hqk : q < k := Nat.lt_of_mul_lt_mul_left (show c.pageSize * q < c.pageSize * k by omega)
  have := Nat.mul_le_mul_left c.pageSize hqk
  rw [Nat.mul_succ] at this; omega

/-- **One slot, a range of whole pages inside it.** For a slot at a page-aligned host address
whose host range `[ua, ua + npages * PAGE_SIZE)` does not wrap, and a host range
`[start, end)` with `ua ≤ start < end < ua + npages * PAGE_SIZE` and `end` page-aligned, the handler
gets `gfn = base + (start - ua) / PAGE_SIZE` and `gfn_end = base + (end - ua) / PAGE_SIZE`. -/
theorem handleHvaToGpa_one {handler : HvaHandler} {s : Memslot} {pgd : Pgd} {ret : Bool}
    {start «end» : Nat} (hua : s.userspaceAddr % c.pageSize = 0) (hend : «end» % c.pageSize = 0)
    (h1 : s.userspaceAddr ≤ start) (h2 : start < «end»)
    (h3 : «end» < s.userspaceAddr + s.npages * c.pageSize)
    (hwrap : s.userspaceAddr + s.npages * c.pageSize < 2 ^ 64) (hgfn : s.baseGfn + s.npages ≤ 2 ^ 64) :
    handleHvaToGpa c start «end» handler [s] pgd ret =
      (handler pgd (s.baseGfn + (start - s.userspaceAddr) / c.pageSize)
          (s.baseGfn + («end» - s.userspaceAddr) / c.pageSize) s).bind
        fun r => some (r.1, ret || r.2) := by
  have hP := c.pageSize_pos
  have hsize : u64 (s.userspaceAddr + u64 (s.npages * c.pageSize)) =
      s.userspaceAddr + s.npages * c.pageSize := by
    rw [u64_of_lt (show s.npages * c.pageSize < 2 ^ 64 by omega), u64_of_lt hwrap]
  -- `end + PAGE_SIZE - 1` does not wrap: `end` and `2^64` are both multiples of the page size
  have hround := roundUp_lt_word c (Nat.dvd_of_mod_eq_zero hend) (by omega) (Nat.le_refl «end»)
  have hdiv : («end» + c.pageSize - 1 - s.userspaceAddr) / c.pageSize =
      («end» - s.userspaceAddr) / c.pageSize := by
    obtain ⟨m, hm⟩ : c.pageSize ∣ «end» - s.userspaceAddr :=
      Nat.dvd_sub' (Nat.dvd_of_mod_eq_zero hend) (Nat.dvd_of_mod_eq_zero hua)
    rw [show «end» + c.pageSize - 1 - s.userspaceAddr = c.pageSize * m + (c.pageSize - 1) by omega,
      hm, Nat.mul_add_div hP, Nat.mul_div_cancel_left _ hP, Nat.div_eq_of_lt (by omega),
      Nat.add_zero]
  have hlt : ∀ hva, hva < s.userspaceAddr + s.npages * c.pageSize →
      s.baseGfn + (hva - s.userspaceAddr) / c.pageSize < 2 ^ 64 := fun hva h => by
    have : (hva - s.userspaceAddr) / c.pageSize < s.npages := by
      rw [Nat.div_lt_iff_lt_mul hP]; omega
    omega
  simp only [handleHvaToGpa, hsize, Nat.max_eq_left h1, Nat.min_eq_left (Nat.le_of_lt h3),
    if_neg (Nat.not_le.mpr h2)]
  rw [hvaToGfnMemslot_eq c h1 (by omega) (hlt _ (by omega)), u64_of_lt hround,
    hvaToGfnMemslot_eq c (by omega) hround (by rw [hdiv]; exact hlt _ h3), hdiv]

/-! ## The frames of a slot that a host range meets -/

/-- The pages of a slot that meet the clipped range `[max start ua, min end (ua + n PAGE_SIZE))`:
page `t` meets it exactly when it lies between the clipped start rounded down and the clipped end
rounded up. -/
theorem page_meets_iff {ua n t start «end» : Nat}
    (hne : max start ua < min «end» (ua + n * c.pageSize)) :
    ((max start ua - ua) / c.pageSize ≤ t ∧
      t < (min «end» (ua + n * c.pageSize) + c.pageSize - 1 - ua) / c.pageSize) ↔
    (t < n ∧ max start (ua + t * c.pageSize) < min «end» (ua + t * c.pageSize + c.pageSize)) := by
  have hP := c.pageSize_pos
  have hlo : (max start ua - ua) / c.pageSize < t + 1 ↔
      max start ua - ua < t * c.pageSize + c.pageSize := by
    rw [Nat.div_lt_iff_lt_mul hP, Nat.succ_mul]
  have hhi : t + 1 ≤ (min «end» (ua + n * c.pageSize) + c.pageSize - 1 - ua) / c.pageSize ↔
      t * c.pageSize + c.pageSize ≤ min «end» (ua + n * c.pageSize) + c.pageSize - 1 - ua := by
    rw [Nat.le_div_iff_mul_le hP, Nat.succ_mul]
  have hn : t < n ↔ t * c.pageSize < n * c.pageSize := (Nat.mul_lt_mul_right hP).symm
  simp only [max_lt_iff, lt_min_iff] at hne ⊢
  omega

/-- Frame `g` is a frame of slot `s` whose host page `[ua + (g - base) * PAGE_SIZE, + PAGE_SIZE)`
meets the host range `[start, end)`. -/
def HostPageMeets (s : Memslot) (g start «end» : Nat) : Prop :=
  s.baseGfn ≤ g ∧ g < s.baseGfn + s.npages ∧
    max start (s.userspaceAddr + (g - s.baseGfn) * c.pageSize) <
      min «end» (s.userspaceAddr + (g - s.baseGfn) * c.pageSize + c.pageSize)

/-- The slot's frames between the clipped range's first and last page are those whose host pages
meet the range. -/
theorem frames_meet_iff {s : Memslot} {start «end» g : Nat}
    (hne : max start s.userspaceAddr < min «end» (s.userspaceAddr + s.npages * c.pageSize)) :
    (s.baseGfn + (max start s.userspaceAddr - s.userspaceAddr) / c.pageSize ≤ g ∧
      g < s.baseGfn + (min «end» (s.userspaceAddr + s.npages * c.pageSize) + c.pageSize - 1 -
        s.userspaceAddr) / c.pageSize) ↔ HostPageMeets c s g start «end» := by
  have hpage := page_meets_iff c (t := g - s.baseGfn) hne
  unfold HostPageMeets
  generalize (max start s.userspaceAddr - s.userspaceAddr) / c.pageSize = a at hpage ⊢
  generalize (min «end» (s.userspaceAddr + s.npages * c.pageSize) + c.pageSize - 1 -
    s.userspaceAddr) / c.pageSize = b at hpage ⊢
  constructor
  · rintro ⟨h1, h2⟩
    obtain ⟨h3, h4⟩ := hpage.mp ⟨by omega, by omega⟩
    exact ⟨by omega, by omega, h4⟩
  · rintro ⟨h1, h2, h3⟩
    obtain ⟨h4, h5⟩ := hpage.mpr ⟨by omega, h3⟩
    exact ⟨by omega, by omega⟩

/-- Some frame of the slot has a host page meeting `[start, end)` exactly when `[start, end)` meets
the slot's host range. -/
theorem exists_hostPageMeets_iff {s : Memslot} {start «end» : Nat} :
    (∃ g, HostPageMeets c s g start «end») ↔ ∃ x, start ≤ x ∧ x < «end» ∧
      s.userspaceAddr ≤ x ∧ x < s.userspaceAddr + s.npages * c.pageSize := by
  have hP := c.pageSize_pos
  constructor
  · rintro ⟨g, h1, h2, h3⟩
    have hle := Nat.mul_le_mul_right c.pageSize (show g - s.baseGfn + 1 ≤ s.npages by omega)
    rw [Nat.succ_mul] at hle
    simp only [max_lt_iff, lt_min_iff] at h3
    exact ⟨max start (s.userspaceAddr + (g - s.baseGfn) * c.pageSize), by omega, by omega, by omega,
      by omega⟩
  · rintro ⟨x, h1, h2, h3, h4⟩
    have hlt := (Nat.div_lt_iff_lt_mul hP).mpr
      (show x - s.userspaceAddr < s.npages * c.pageSize by omega)
    have hlo := Nat.div_mul_le_self (x - s.userspaceAddr) c.pageSize
    have hhi := Nat.lt_div_mul_add (a := x - s.userspaceAddr) hP
    generalize (x - s.userspaceAddr) / c.pageSize = t at hlt hlo hhi
    refine ⟨s.baseGfn + t, by omega, by omega, ?_⟩
    rw [Nat.add_sub_cancel_left]
    simp only [max_lt_iff, lt_min_iff]
    omega

/-- **`handle_hva_to_gpa` hands each slot's handler exactly the slot's frames whose host pages
meet the range**, as `[gfn, gfn_end)`, and skips a slot none of whose pages meet it. This needs
the slot's host range to start page-aligned and not to wrap. -/
theorem handleHvaToGpa_cons {handler : HvaHandler} {s : Memslot} {rest : List Memslot} {pgd : Pgd}
    {ret : Bool} {start «end» : Nat} (hua : s.userspaceAddr % c.pageSize = 0)
    (hwrap : s.userspaceAddr + s.npages * c.pageSize < 2 ^ 64)
    (hgfn : s.baseGfn + s.npages < 2 ^ 64) :
    (handleHvaToGpa c start «end» handler (s :: rest) pgd ret =
        handleHvaToGpa c start «end» handler rest pgd ret ∧
      ∀ g, ¬HostPageMeets c s g start «end») ∨
    ∃ gfn gfnEnd, gfn < gfnEnd ∧ gfnEnd ≤ s.baseGfn + s.npages ∧
      (∀ g, (gfn ≤ g ∧ g < gfnEnd) ↔ HostPageMeets c s g start «end») ∧
      handleHvaToGpa c start «end» handler (s :: rest) pgd ret =
        (handler pgd gfn gfnEnd s).bind fun r => handleHvaToGpa c start «end» handler rest r.1 (ret || r.2) := by
  have hP := c.pageSize_pos
  have hsize : u64 (s.userspaceAddr + u64 (s.npages * c.pageSize)) =
      s.userspaceAddr + s.npages * c.pageSize := by
    rw [u64_of_lt (show s.npages * c.pageSize < 2 ^ 64 by omega), u64_of_lt hwrap]
  simp only [handleHvaToGpa, hsize]
  by_cases hskip : max start s.userspaceAddr ≥ min «end» (s.userspaceAddr + s.npages * c.pageSize)
  · refine .inl ⟨by rw [if_pos hskip], fun g hg => ?_⟩
    obtain ⟨x, h1, h2, h3, h4⟩ := (exists_hostPageMeets_iff c).mp ⟨g, hg⟩
    omega
  rw [if_neg hskip]
  have hne := Nat.lt_of_not_le hskip
  -- the slot's end is page-aligned and below `2^64`, so rounding the clipped end up does not wrap
  have hround := roundUp_lt_word c
    (Nat.dvd_add (Nat.dvd_of_mod_eq_zero hua) (Nat.dvd_mul_left _ _)) hwrap
    (Nat.min_le_right «end» _)
  have hframes := fun g => frames_meet_iff c (g := g) hne
  have hA := le_max_right start s.userspaceAddr
  have hB := min_le_right «end» (s.userspaceAddr + s.npages * c.pageSize)
  generalize max start s.userspaceAddr = A at *
  generalize min «end» (s.userspaceAddr + s.npages * c.pageSize) = B at *
  -- the clipped range `[A, B)` covers the pages `[(A - ua) / PAGE_SIZE, ⌈(B - ua) / PAGE_SIZE⌉)`
  have hAlt : (A - s.userspaceAddr) / c.pageSize < s.npages := by
    rw [Nat.div_lt_iff_lt_mul hP]; omega
  have hBle : (B + c.pageSize - 1 - s.userspaceAddr) / c.pageSize ≤ s.npages :=
    Nat.lt_succ_iff.mp ((Nat.div_lt_iff_lt_mul hP).mpr (by rw [Nat.succ_mul]; omega))
  have hAB : (A - s.userspaceAddr) / c.pageSize + 1 ≤
      (B + c.pageSize - 1 - s.userspaceAddr) / c.pageSize := by
    rw [Nat.le_div_iff_mul_le hP, Nat.succ_mul]
    have := Nat.div_mul_le_self (A - s.userspaceAddr) c.pageSize
    omega
  rw [hvaToGfnMemslot_eq c hA (by omega) (by omega), u64_of_lt hround,
    hvaToGfnMemslot_eq c (by omega) hround (by omega)]
  exact .inr ⟨_, _, by omega, by omega, hframes, rfl⟩

/-- A slot's frame numbers do not wrap once its guest-physical range does not: KVM refuses a
memslot whose `guest_phys_addr + memory_size` wraps. -/
theorem gfnEnd_lt_word {s : Memslot} (hgpa : (s.baseGfn + s.npages) * c.pageSize < 2 ^ 64) :
    s.baseGfn + s.npages < 2 ^ 64 :=
  Nat.lt_of_le_of_lt (Nat.le_mul_of_pos_right _ c.pageSize_pos) hgpa

/-- **The handler runs for a slot exactly when the range meets the slot's host range**, and then
gets as `[gfn, gfn_end)` exactly the slot's frames whose host pages meet the range, the identity
the code's comment states. This needs the slot's host range to start page-aligned and not to wrap,
and, as for every KVM memslot, its guest-physical range not to wrap. -/
theorem handleHvaToGpa_slot_frames {handler : HvaHandler} {s : Memslot} {rest : List Memslot}
    {pgd : Pgd} {ret : Bool} {start «end» : Nat} (hua : s.userspaceAddr % c.pageSize = 0)
    (hwrap : s.userspaceAddr + s.npages * c.pageSize < 2 ^ 64)
    (hgpa : (s.baseGfn + s.npages) * c.pageSize < 2 ^ 64) :
    ((∃ x, start ≤ x ∧ x < «end» ∧ s.userspaceAddr ≤ x ∧
        x < s.userspaceAddr + s.npages * c.pageSize) →
      ∃ gfn gfnEnd, (∀ g, (gfn ≤ g ∧ g < gfnEnd) ↔ HostPageMeets c s g start «end») ∧
        handleHvaToGpa c start «end» handler (s :: rest) pgd ret =
          (handler pgd gfn gfnEnd s).bind fun r =>
            handleHvaToGpa c start «end» handler rest r.1 (ret || r.2)) ∧
    (¬(∃ x, start ≤ x ∧ x < «end» ∧ s.userspaceAddr ≤ x ∧
        x < s.userspaceAddr + s.npages * c.pageSize) →
      handleHvaToGpa c start «end» handler (s :: rest) pgd ret =
        handleHvaToGpa c start «end» handler rest pgd ret) := by
  rw [← exists_hostPageMeets_iff]
  rcases @handleHvaToGpa_cons c handler s rest pgd ret start «end» hua hwrap (gfnEnd_lt_word c hgpa) with
    ⟨heq, hno⟩ | ⟨gfn, gfnEnd, hlt, -, hiff, heq⟩
  · exact ⟨fun ⟨g, hg⟩ => absurd hg (hno g), fun _ => heq⟩
  · exact ⟨fun _ => ⟨gfn, gfnEnd, hiff, heq⟩,
      fun hno => absurd ⟨gfn, (hiff gfn).mp ⟨le_rfl, hlt⟩⟩ hno⟩

theorem handleHvaToGpa_slot_frames_sample :
    ((∃ x, 2 ^ 20 ≤ x ∧ x < 2 ^ 20 + 2 ^ 14 ∧ Memslot.sample.userspaceAddr ≤ x ∧
        x < Memslot.sample.userspaceAddr + Memslot.sample.npages * (Config.mips16k false).pageSize) →
      ∃ gfn gfnEnd, (∀ g, (gfn ≤ g ∧ g < gfnEnd) ↔
          HostPageMeets (Config.mips16k false) Memslot.sample g (2 ^ 20) (2 ^ 20 + 2 ^ 14)) ∧
        handleHvaToGpa (Config.mips16k false) (2 ^ 20) (2 ^ 20 + 2 ^ 14)
            (kvmAgeHvaHandler (Config.mips16k false)) [Memslot.sample] kvmPgdInit false =
          (kvmAgeHvaHandler (Config.mips16k false) kvmPgdInit gfn gfnEnd Memslot.sample).bind
            fun r => handleHvaToGpa (Config.mips16k false) (2 ^ 20) (2 ^ 20 + 2 ^ 14)
              (kvmAgeHvaHandler (Config.mips16k false)) [] r.1 (false || r.2)) ∧
    (¬(∃ x, 2 ^ 20 ≤ x ∧ x < 2 ^ 20 + 2 ^ 14 ∧ Memslot.sample.userspaceAddr ≤ x ∧
        x < Memslot.sample.userspaceAddr + Memslot.sample.npages * (Config.mips16k false).pageSize) →
      handleHvaToGpa (Config.mips16k false) (2 ^ 20) (2 ^ 20 + 2 ^ 14)
          (kvmAgeHvaHandler (Config.mips16k false)) [Memslot.sample] kvmPgdInit false =
        handleHvaToGpa (Config.mips16k false) (2 ^ 20) (2 ^ 20 + 2 ^ 14)
          (kvmAgeHvaHandler (Config.mips16k false)) [] kvmPgdInit false) :=
  handleHvaToGpa_slot_frames (Config.mips16k false) (by decide) (by decide) (by decide)

end LoongsonDune.Proof
