import LoongsonDune.Proof.SetPmdHuge

/-!
# When a fault may map a huge block

`fault_supports_huge_mapping(memslot, hva, map_size)` is the test `kvm_mips_map_page` puts in
front of every huge mapping: the guest-physical and host-virtual starts of the slot agree below
`map_size`, and the `map_size` block around `hva` lies inside the slot's host range. The code
computes it with masks and wrapping `unsigned long` arithmetic; for a power-of-two `map_size`, an
`hva` inside the slot, and a slot that ends at least `map_size` below `2 ^ 64`, the masks are the
remainder and the rounding they stand for and no sum wraps, so the test is exactly the two
conditions.
-/

namespace LoongsonDune.Proof

open LoongsonDune

/-! ## Masks on `unsigned long` -/

/-- `map_size - 1` for a power of two that fits the word. -/
theorem sub64_pow_one {m : Nat} (hm : m < 64) : sub64 (2 ^ m) 1 = 2 ^ m - 1 := by
  have h1 := Nat.one_le_two_pow (n := m)
  have h2 : 2 ^ m < 2 ^ 64 := Nat.pow_lt_pow_right (by norm_num) hm
  rw [sub64, u64, u64, Nat.mod_eq_of_lt (by norm_num : 1 < 2 ^ 64),
    show 2 ^ m + (2 ^ 64 - 1) = (2 ^ m - 1) + 2 ^ 64 by omega, Nat.add_mod_right,
    Nat.mod_eq_of_lt (by omega)]

/-- `x & ~(2^m - 1)` on an `unsigned long`: `x` rounded down to a multiple of `2 ^ m`. -/
theorem and_not_mask {x m : Nat} (hx : x < 2 ^ 64) (hm : m ≤ 64) :
    x &&& (ulongMax - (2 ^ m - 1)) = x / 2 ^ m * 2 ^ m := by
  have hmask : ulongMax - (2 ^ m - 1) = 2 ^ m * (2 ^ (64 - m) - 1) := by
    have h1 := Nat.one_le_two_pow (n := m)
    rw [ulongMax, Nat.mul_sub_one, ← Nat.pow_add, Nat.add_sub_cancel' hm]
    omega
  rw [hmask, Nat.mul_comm (x / 2 ^ m)]
  apply Nat.eq_of_testBit_eq
  intro i
  rw [Nat.testBit_and, Nat.testBit_mul_pow_two, Nat.testBit_mul_pow_two, Nat.testBit_two_pow_sub_one,
    ← Nat.shiftRight_eq_div_pow, Nat.testBit_shiftRight]
  by_cases hi : m ≤ i
  · rw [Nat.add_sub_cancel' hi]
    by_cases h64 : i < 64
    · simp [hi, h64, show i - m < 64 - m by omega]
    · have hbit : x.testBit i = false :=
        Nat.testBit_eq_false_of_lt (lt_of_lt_of_le hx (Nat.pow_le_pow_right (by norm_num) (by omega)))
      simp [hbit]
  · simp [hi]

/-- **`(a - b) mod 2^64` is a multiple of `2 ^ m` exactly when `a` and `b` agree below `2 ^ m`.** -/
theorem dvd_sub64_iff {a b m : Nat} (hm : m ≤ 64) :
    2 ^ m ∣ sub64 a b ↔ a % 2 ^ m = b % 2 ^ m := by
  have hd : 2 ^ m ∣ 2 ^ 64 := Nat.pow_dvd_pow 2 hm
  have hb : b % 2 ^ 64 ≤ 2 ^ 64 := (Nat.mod_lt _ (by norm_num)).le
  obtain ⟨k, hk⟩ := hd
  rw [sub64, u64, u64, Nat.dvd_mod_iff ⟨k, hk⟩, ← Nat.add_sub_assoc hb,
    ← Nat.modEq_iff_dvd' (by omega), Nat.ModEq, Nat.mod_mod_of_dvd _ ⟨k, hk⟩, hk,
    Nat.add_mul_mod_self_left, eq_comm]

/-! ## The test -/

/-- An address below `2 ^ 64 - 2 ^ m` leaves room for a `2 ^ m` block, so `m < 64`. -/
theorem lt_64_of_room {a m : Nat} (h : a < 2 ^ 64 - 2 ^ m) : m < 64 := by
  by_contra hm
  have : 2 ^ 64 ≤ 2 ^ m := Nat.pow_le_pow_right (by norm_num) (by omega)
  omega

/-- Under the no-wrap hypotheses the test is its three comparisons on plain numbers. -/
theorem faultSupportsHugeMapping_eq (c : Config) (memslot : Memslot) {hva m : Nat}
    (hva1 : memslot.userspaceAddr ≤ hva)
    (hva2 : hva < memslot.userspaceAddr + memslot.npages * c.pageSize)
    (hend : memslot.userspaceAddr + memslot.npages * c.pageSize ≤ 2 ^ 64 - 2 ^ m) :
    faultSupportsHugeMapping c memslot hva (2 ^ m) =
      (decide (memslot.userspaceAddr ≤ hva / 2 ^ m * 2 ^ m) &&
        decide (hva / 2 ^ m * 2 ^ m + 2 ^ m ≤ memslot.userspaceAddr + memslot.npages * c.pageSize) &&
        decide (memslot.baseGfn * c.pageSize % 2 ^ m = memslot.userspaceAddr % 2 ^ m)) := by
  have hm := lt_64_of_room (show hva < 2 ^ 64 - 2 ^ m by omega)
  have hpos := Nat.one_le_two_pow (n := m)
  have hblock : hva / 2 ^ m * 2 ^ m ≤ hva := Nat.div_mul_le_self hva _
  have hsize : u64 (memslot.npages * c.pageSize) = memslot.npages * c.pageSize :=
    Nat.mod_eq_of_lt (by omega)
  have hend' : u64 (memslot.userspaceAddr + memslot.npages * c.pageSize) =
      memslot.userspaceAddr + memslot.npages * c.pageSize := Nat.mod_eq_of_lt (by omega)
  have htop : u64 (hva / 2 ^ m * 2 ^ m + 2 ^ m) = hva / 2 ^ m * 2 ^ m + 2 ^ m :=
    Nat.mod_eq_of_lt (by omega)
  have hgpa : c.gpaOf memslot.baseGfn % 2 ^ m = memslot.baseGfn * c.pageSize % 2 ^ m :=
    Nat.mod_mod_of_dvd _ (Nat.pow_dvd_pow 2 hm.le)
  unfold faultSupportsHugeMapping
  simp only [sub64_pow_one hm, hsize, hend', Nat.and_pow_two_sub_one_eq_mod, hgpa,
    and_not_mask (show hva < 2 ^ 64 by omega) hm.le, htop]
  by_cases h : memslot.baseGfn * c.pageSize % 2 ^ m = memslot.userspaceAddr % 2 ^ m <;> simp [h]

/-- **`fault_supports_huge_mapping` is exact.** For a power-of-two `map_size = 2 ^ m`, an `hva`
inside the slot's host range, and a slot whose host range ends at or below `2 ^ 64 - map_size`,
the test holds exactly when the `map_size` block containing `hva` lies inside the host range and
`base_gfn << PAGE_SHIFT` and `userspace_addr` differ, modulo `2 ^ 64`, by a multiple of
`map_size`. -/
theorem faultSupportsHugeMapping_iff (c : Config) (memslot : Memslot) {hva m : Nat}
    (hva1 : memslot.userspaceAddr ≤ hva)
    (hva2 : hva < memslot.userspaceAddr + memslot.npages * c.pageSize)
    (hend : memslot.userspaceAddr + memslot.npages * c.pageSize ≤ 2 ^ 64 - 2 ^ m) :
    faultSupportsHugeMapping c memslot hva (2 ^ m) = true ↔
      (memslot.userspaceAddr ≤ hva / 2 ^ m * 2 ^ m ∧
        hva / 2 ^ m * 2 ^ m + 2 ^ m ≤ memslot.userspaceAddr + memslot.npages * c.pageSize) ∧
      2 ^ m ∣ sub64 (memslot.baseGfn * c.pageSize) memslot.userspaceAddr := by
  rw [faultSupportsHugeMapping_eq c memslot hva1 hva2 hend,
    dvd_sub64_iff (lt_64_of_room (show hva < 2 ^ 64 - 2 ^ m by omega)).le]
  simp only [Bool.and_eq_true, decide_eq_true_eq]

/-- `Memslot.sample` (four frames from guest frame `0`, at host `2 ^ 20`) under `Config.mips16k`,
for its second page and a four-page block. -/
theorem faultSupportsHugeMapping_iff_sample :
    Memslot.sample.userspaceAddr ≤ 2 ^ 20 + 2 ^ 14 ∧
    2 ^ 20 + 2 ^ 14 < Memslot.sample.userspaceAddr +
      Memslot.sample.npages * (Config.mips16k false).pageSize ∧
    Memslot.sample.userspaceAddr + Memslot.sample.npages * (Config.mips16k false).pageSize ≤
      2 ^ 64 - 2 ^ 16 ∧
    (faultSupportsHugeMapping (Config.mips16k false) Memslot.sample (2 ^ 20 + 2 ^ 14) (2 ^ 16) = true ↔
      (Memslot.sample.userspaceAddr ≤ (2 ^ 20 + 2 ^ 14) / 2 ^ 16 * 2 ^ 16 ∧
        (2 ^ 20 + 2 ^ 14) / 2 ^ 16 * 2 ^ 16 + 2 ^ 16 ≤
          Memslot.sample.userspaceAddr + Memslot.sample.npages * (Config.mips16k false).pageSize) ∧
      2 ^ 16 ∣ sub64 (Memslot.sample.baseGfn * (Config.mips16k false).pageSize)
        Memslot.sample.userspaceAddr) :=
  ⟨by decide, by decide, by decide,
    faultSupportsHugeMapping_iff (Config.mips16k false) Memslot.sample (by decide) (by decide)
      (by decide)⟩

variable (c : Config)

/-! ## The test in pages -/

/-- **The alignment and window tests, in pages.** A slot holds frames `[B, B + N)` at host address
`u`, and frame `gfn` of it is at `u + (gfn - B) * P`. When the guest and host starts agree below a
block of `T` pages, and the block around that address lies in the slot's host range, the block of
`gfn` lies in the slot and the host page of `gfn` sits at `gfn`'s offset in its block. -/
theorem hugeWindow {P T B N u gfn : Nat} (hP : 0 < P) (hB : B ≤ gfn)
    (hal : B * P % (T * P) = u % (T * P))
    (hlo : u ≤ (u + (gfn - B) * P) / (T * P) * (T * P))
    (hhi : (u + (gfn - B) * P) / (T * P) * (T * P) + T * P ≤ u + N * P) :
    B ≤ gfn / T * T ∧ gfn / T * T + T ≤ B + N ∧ (u / P + (gfn - B)) % T = gfn % T := by
  have hu : u % P = 0 := by
    have h := congrArg (· % P) hal
    simp only [Nat.mod_mod_of_dvd _ (Dvd.intro_left T rfl), Nat.mul_mod_left] at h
    exact h.symm
  obtain ⟨U, rfl⟩ := Nat.dvd_of_mod_eq_zero hu
  have hH : P * U + (gfn - B) * P = (U + (gfn - B)) * P := by ring
  rw [hH, Nat.mul_div_mul_right _ _ hP, ← Nat.mul_assoc] at hlo hhi
  rw [Nat.mul_comm P U, Nat.mul_mod_mul_right, Nat.mul_mod_mul_right] at hal
  have hal' : B % T = U % T := Nat.eq_of_mul_eq_mul_right hP hal
  have hlo' : U ≤ (U + (gfn - B)) / T * T := Nat.le_of_mul_le_mul_right (by rwa [Nat.mul_comm U]) hP
  have hhi' : (U + (gfn - B)) / T * T + T ≤ U + N :=
    Nat.le_of_mul_le_mul_right (by rwa [Nat.add_mul, Nat.add_mul, Nat.mul_comm U]) hP
  have hmod : (U + (gfn - B)) % T = gfn % T := by
    rw [Nat.add_mod, ← hal', ← Nat.add_mod, Nat.add_sub_cancel' hB]
  have h1 := Nat.div_add_mod' (U + (gfn - B)) T
  have h2 := Nat.div_add_mod' gfn T
  exact ⟨by omega, by omega, by rwa [Nat.mul_div_cancel_left U hP]⟩

/-- **The block the test admits, frame by frame.** For a slot that ends `PMD_SIZE` below `2 ^ 64`,
when the test admits the `PMD_SIZE` block at the host address of frame `gfn`, every frame
`head + k` of `gfn`'s block lies in the slot and sits at host page `hb + k`, where `hb`, the host
page of the block's first frame, is a multiple of `PTRS_PER_PTE`. -/
theorem hugeBlock_pages {s : Memslot} {gfn : Nat}
    (hroom : s.userspaceAddr + s.npages * c.pageSize ≤ 2 ^ 64 - c.pmdSize)
    (hB : s.baseGfn ≤ gfn) (hN : gfn < s.baseGfn + s.npages)
    (h : faultSupportsHugeMapping c s (u64 (s.userspaceAddr + (gfn - s.baseGfn) * c.pageSize))
      c.pmdSize = true) :
    (s.userspaceAddr / c.pageSize + (gfn / c.ptrsPerPte * c.ptrsPerPte - s.baseGfn)) %
        c.ptrsPerPte = 0 ∧
      ∀ k < c.ptrsPerPte, s.baseGfn ≤ gfn / c.ptrsPerPte * c.ptrsPerPte + k ∧
        gfn / c.ptrsPerPte * c.ptrsPerPte + k < s.baseGfn + s.npages ∧
        u64 (s.userspaceAddr + (gfn / c.ptrsPerPte * c.ptrsPerPte + k - s.baseGfn) * c.pageSize) /
            c.pageSize =
          s.userspaceAddr / c.pageSize + (gfn / c.ptrsPerPte * c.ptrsPerPte - s.baseGfn) + k := by
  have hP := c.pageSize_pos
  have hpage : ∀ g < s.baseGfn + s.npages, u64 (s.userspaceAddr + (g - s.baseGfn) * c.pageSize) =
      s.userspaceAddr + (g - s.baseGfn) * c.pageSize := fun g hg => by
    have := Nat.mul_lt_mul_of_pos_right (show g - s.baseGfn < s.npages by omega) hP
    exact Nat.mod_eq_of_lt (by have := c.pmdSize_pos; omega)
  have hlt := Nat.mul_lt_mul_of_pos_right (show gfn - s.baseGfn < s.npages by omega) hP
  have hS : c.pmdSize = c.ptrsPerPte * c.pageSize := by rw [Nat.mul_comm]; exact c.pmdSize_eq
  rw [hpage gfn hN, show c.pmdSize = 2 ^ c.pmdShift from rfl,
    faultSupportsHugeMapping_eq c s (Nat.le_add_right _ _) (by omega) hroom] at h
  simp only [Bool.and_eq_true, decide_eq_true_eq, ← show c.pmdSize = 2 ^ c.pmdShift from rfl, hS] at h
  obtain ⟨hb1, hb2, hmod⟩ := hugeWindow hP hB h.2 h.1.1 h.1.2
  clear h hroom
  have h1 := Nat.div_add_mod' (s.userspaceAddr / c.pageSize + (gfn - s.baseGfn)) c.ptrsPerPte
  have h2 := Nat.div_add_mod' gfn c.ptrsPerPte
  refine ⟨?_, fun k hk => ⟨by omega, by omega, ?_⟩⟩
  · rw [show s.userspaceAddr / c.pageSize + (gfn / c.ptrsPerPte * c.ptrsPerPte - s.baseGfn) =
      (s.userspaceAddr / c.pageSize + (gfn - s.baseGfn)) / c.ptrsPerPte * c.ptrsPerPte by omega]
    exact Nat.mul_mod_left _ _
  · rw [hpage _ (by omega), Nat.add_mul_div_right _ _ hP]
    omega

/-! ## The steps of a fault -/

/-- The slot `gfn_to_memslot` finds is one of the slots and holds the frame. -/
theorem gfnToMemslot_some {slots : List Memslot} {g : Nat} {s : Memslot}
    (h : gfnToMemslot slots g = some s) :
    s ∈ slots ∧ s.baseGfn ≤ g ∧ g < s.baseGfn + s.npages := by
  have hp := List.find?_some h
  simp only [Bool.and_eq_true, decide_eq_true_eq] at hp
  exact ⟨List.mem_of_find?_eq_some h, hp⟩

/-- KVM's memslots do not overlap: `__kvm_set_memory_region` refuses a slot that meets another. -/
def SlotsDisjoint (slots : List Memslot) : Prop :=
  slots.Pairwise fun s t => s.baseGfn + s.npages ≤ t.baseGfn ∨ t.baseGfn + t.npages ≤ s.baseGfn

/-- With disjoint slots, the slot found for one frame is the slot of every frame it holds. -/
theorem gfnToMemslot_of_mem {g g' : Nat} {s : Memslot} (h1 : s.baseGfn ≤ g')
    (h2 : g' < s.baseGfn + s.npages) :
    ∀ {slots : List Memslot}, SlotsDisjoint slots → gfnToMemslot slots g = some s →
      gfnToMemslot slots g' = some s
  | [], _, h => by cases h
  | t :: ts, hd, h => by
    rw [SlotsDisjoint, List.pairwise_cons] at hd
    unfold gfnToMemslot at h ⊢
    rw [List.find?_cons] at h ⊢
    cases hb : (decide (t.baseGfn ≤ g) && decide (g < t.baseGfn + t.npages)) <;>
      simp only [hb] at h
    · have hs := hd.1 s (List.mem_of_find?_eq_some h)
      simp only [Bool.and_eq_false_iff, decide_eq_false_iff_not] at hb
      have hf : (decide (t.baseGfn ≤ g') && decide (g' < t.baseGfn + t.npages)) = false := by
        simp only [Bool.and_eq_false_iff, decide_eq_false_iff_not]; omega
      rw [hf]
      exact gfnToMemslot_of_mem h1 h2 hd.2 h
    · cases h
      simp [h1, h2]

/-- What a lookup that goes on to resolve a frame decided: the slot of the faulting frame, its
host address, the VMA's page size cut down by the test, and the frame to resolve. -/
theorem mapPageLookup_ok {slots : List Memslot} {host : Host} {gpa : Nat} {wf : Bool} {err : Int}
    {d : Decision} (h : mapPageLookup c slots host gpa wf err = .ok d) :
    ∃ s vps, gfnToMemslot slots (gpa / c.pageSize) = some s ∧ d.memslot = s ∧
      d.hva = u64 (s.userspaceAddr + (gpa / c.pageSize - s.baseGfn) * c.pageSize) ∧
      host.vmaPagesize (d.hva / c.pageSize) = some vps ∧
      d.forcePte = !faultSupportsHugeMapping c s d.hva vps ∧
      d.vmaPagesize = (if d.forcePte then c.pageSize else vps) ∧
      d.gfn = if d.vmaPagesize = c.pmdSize then c.pmdMask gpa / c.pageSize else gpa / c.pageSize := by
  unfold mapPageLookup at h
  rcases hs : gfnToMemslot slots (gpa / c.pageSize) with _ | s <;>
    simp only [hs, gfnToHvaMemslotProt, Option.map] at h
  · cases h
  split at h
  · cases h
  rcases hv : host.vmaPagesize (u64 (s.userspaceAddr + (gpa / c.pageSize - s.baseGfn) * c.pageSize) /
    c.pageSize) with _ | vps <;> simp only [hv] at h
  · cases h
  cases h
  exact ⟨s, vps, rfl, rfl, rfl, hv, rfl, rfl, rfl⟩

/-- A resolved frame is the host's frame behind the frame's slot address. -/
theorem gfnToPfnProt_some {slots : List Memslot} {host : Host} {g pfn : Nat} {wf writeable : Bool}
    {s : Memslot} (hs : gfnToMemslot slots g = some s)
    (h : gfnToPfnProt c slots host g wf = some (pfn, writeable)) :
    pfn = (host.pte (u64 (s.userspaceAddr + (g - s.baseGfn) * c.pageSize) / c.pageSize)).pfn := by
  simp only [gfnToPfnProt, hs] at h
  split at h
  · cases h
  · cases h; rfl

/-- A commit goes huge on one of two paths: the decision was already `PMD_SIZE` (a hugetlbfs
VMA), or a base-page decision whose block the test admits resolved a frame of a transparent huge
page, which `transparent_hugepage_adjust` moves down. -/
theorem mapPageAdjust_huge {host : Host} {d : Decision} {pfn gpa : Nat}
    (h : (mapPageAdjust c host d pfn gpa).1 = c.pmdSize) :
    d.vmaPagesize = c.pmdSize ∧ mapPageAdjust c host d pfn gpa = (c.pmdSize, pfn, gpa) ∨
      d.vmaPagesize = c.pageSize ∧ faultSupportsHugeMapping c d.memslot d.hva c.pmdSize = true ∧
        host.thp pfn = true ∧
        mapPageAdjust c host d pfn gpa = (c.pmdSize,
          if pfn % c.ptrsPerPmd ≠ 0 then pfn / c.ptrsPerPmd * c.ptrsPerPmd else pfn,
          if pfn % c.ptrsPerPmd ≠ 0 then c.pmdMask gpa else gpa) := by
  by_cases hthp : d.vmaPagesize = c.pageSize ∧ d.forcePte = false ∧
      faultSupportsHugeMapping c d.memslot d.hva c.pmdSize = true ∧ host.thp pfn = true
  · obtain ⟨h1, h2, h3, h4⟩ := hthp
    refine .inr ⟨h1, h3, h4, ?_⟩
    unfold mapPageAdjust transparentHugepageAdjust
    by_cases hm : pfn % c.ptrsPerPmd = 0 <;> simp [h1, h2, h3, h4, hm]
  · have hd : mapPageAdjust c host d pfn gpa = (d.vmaPagesize, pfn, gpa) := by
      unfold mapPageAdjust transparentHugepageAdjust
      split_ifs with h1 h2 <;> try rfl
      all_goals simp only [Bool.and_eq_true, decide_eq_true_eq, Bool.not_eq_true'] at h1
      all_goals exact absurd ⟨h1.1.1, h1.1.2, h1.2, h2⟩ hthp
    rw [hd] at h ⊢
    exact .inl ⟨h, h ▸ rfl⟩

/-- A commit that installs ran the install with the THP step's size, frame and address. -/
theorem mapPageCommit_done {host : Host} {vm vm' : Vm} {cache cache' gpa : Nat}
    {wf writeable : Bool} {d : Decision} {mmuSeq pfn fuel : Nat} {inv : Option Nat}
    (h : mapPageCommit c host vm cache gpa wf d mmuSeq pfn writeable fuel =
      some (.done vm' cache' inv)) :
    mapPageInstall c vm cache (mapPageAdjust c host d pfn gpa).2.2 wf d.gfn
      (mapPageAdjust c host d pfn gpa).1 (mapPageAdjust c host d pfn gpa).2.1 writeable fuel =
        some (.done vm' cache' inv) := by
  unfold mapPageCommit at h
  split at h
  · cases h
  · exact h

/-- Truncating an address to its block keeps its top and middle indices. -/
theorem pmdMask_indices (addr : Nat) :
    c.pgdIndex (c.pmdMask addr) = c.pgdIndex addr ∧ c.pmdOffset (c.pmdMask addr) = c.pmdOffset addr := by
  have h := digits_block c (addr / c.pageSize) c.ptrsPerPte_pos
  rw [Nat.add_zero, ← pmdMask_div] at h
  rw [c.pgdIndex_eq, c.pgdIndex_eq, c.pmdOffset_eq, c.pmdOffset_eq]
  exact ⟨h.2.2, h.2.1⟩

/-- The THP step keeps the address in its middle slot: it only ever moves it to the block's
start. -/
theorem mapPageAdjust_indices (host : Host) (d : Decision) (pfn gpa : Nat) :
    c.pgdIndex (mapPageAdjust c host d pfn gpa).2.2 = c.pgdIndex gpa ∧
      c.pmdOffset (mapPageAdjust c host d pfn gpa).2.2 = c.pmdOffset gpa := by
  unfold mapPageAdjust transparentHugepageAdjust
  split_ifs <;> first | exact ⟨rfl, rfl⟩ | exact pmdMask_indices c gpa

/-- A huge entry in the middle slot of `addr` governs every frame of `addr`'s block. -/
theorem entry_block_of_huge {pgd : Pgd} {pmd : PmdTable} {addr k : Nat} {e : Pte}
    (hi : pgd (c.pgdIndex addr) = some pmd) (hj : pmd (c.pmdOffset addr) = .val e)
    (he : e.huge = true) (hk : k < c.ptrsPerPte) :
    pgd.entry c (addr / c.pageSize / c.ptrsPerPte * c.ptrsPerPte + k) = some e := by
  obtain ⟨-, h2, h3⟩ := digits_block c (addr / c.pageSize) hk
  rw [Pgd.entry, h2, h3, ← c.pgdIndex_eq, ← c.pmdOffset_eq, hi, Option.some_bind, hj]
  simp [Pmd.entryAt, he]

/-! ## Blocks of host frames -/

/-- The host backs the `PMD_SIZE` block of host virtual page `p` by a physically contiguous,
size-aligned run of frames: the first page of the block is at a multiple of `PTRS_PER_PTE`, and
page `i` of the block is at that frame plus `i`. -/
def BlockBacked (host : Host) (p : Nat) : Prop :=
  (host.pte (p / c.ptrsPerPte * c.ptrsPerPte)).pfn % c.ptrsPerPte = 0 ∧
    ∀ i < c.ptrsPerPte, (host.pte (p / c.ptrsPerPte * c.ptrsPerPte + i)).pfn =
      (host.pte (p / c.ptrsPerPte * c.ptrsPerPte)).pfn + i

/-- A frame `j` past a multiple of `T` rounds down to that multiple and leaves `j` over. -/
theorem alignDown_add {F j T : Nat} (hF : F % T = 0) (hj : j < T) :
    (F + j) / T * T = F ∧ (F + j) % T = j := by
  have hd := Nat.dvd_of_mod_eq_zero hF
  refine ⟨?_, ?_⟩
  · rw [Nat.add_div_of_dvd_right hd, Nat.div_eq_of_lt hj, Nat.add_zero, Nat.div_mul_cancel hd]
  · rw [Nat.add_mod, hF, Nat.zero_add, Nat.mod_mod, Nat.mod_eq_of_lt hj]

/-- A block backed as seen from any of its pages is backed from its first page. -/
theorem blockBacked_head {host : Host} {hb j : Nat} (hhb : hb % c.ptrsPerPte = 0)
    (hj : j < c.ptrsPerPte) (h : BlockBacked c host (hb + j)) :
    (host.pte hb).pfn % c.ptrsPerPte = 0 ∧
      ∀ i < c.ptrsPerPte, (host.pte (hb + i)).pfn = (host.pte hb).pfn + i := by
  rwa [BlockBacked, (alignDown_add hhb hj).1] at h

/-! ## A huge commit maps the host's block -/

/-- **The frame a huge commit installs heads the host's run for the block.** After a lookup whose
frame resolves to `pfn`, when the THP step settles on `PMD_SIZE`, the frame `F` it hands the commit
is a multiple of `PTRS_PER_PTE`, and frame `head + k` of `gpa`'s block lies in the slot and is backed
by host frame `F + k`, for every `k < PTRS_PER_PTE`. -/
theorem hugeCommit_frame_run {slots : List Memslot} {host : Host}
    (hdisj : SlotsDisjoint slots)
    (hroom : ∀ s ∈ slots, s.userspaceAddr + s.npages * c.pageSize ≤ 2 ^ 64 - c.pmdSize)
    (hhuge : ∀ p, host.vmaPagesize p = some c.pmdSize → BlockBacked c host p)
    (hthp : ∀ p, host.thp (host.pte p).pfn = true → BlockBacked c host p)
    {gpa pfn : Nat} {wf writeable : Bool} {err : Int} {d : Decision}
    (hl : mapPageLookup c slots host gpa wf err = .ok d)
    (hr : gfnToPfnProt c slots host d.gfn wf = some (pfn, writeable))
    (hsize : (mapPageAdjust c host d pfn gpa).1 = c.pmdSize) :
    ∃ F, (mapPageAdjust c host d pfn gpa).2.1 = F ∧ F % c.ptrsPerPte = 0 ∧ ∀ k < c.ptrsPerPte,
      d.memslot.baseGfn ≤ gpa / c.pageSize / c.ptrsPerPte * c.ptrsPerPte + k ∧
      gpa / c.pageSize / c.ptrsPerPte * c.ptrsPerPte + k < d.memslot.baseGfn + d.memslot.npages ∧
      (host.pte (u64 (d.memslot.userspaceAddr + (gpa / c.pageSize / c.ptrsPerPte * c.ptrsPerPte +
        k - d.memslot.baseGfn) * c.pageSize) / c.pageSize)).pfn = F + k := by
  obtain ⟨s, vps, hs, hds, hhva, hv, hforce, hvps, hgfn⟩ := mapPageLookup_ok c hl
  obtain ⟨hsm, hB, hN⟩ := gfnToMemslot_some hs
  have hT := c.ptrsPerPte_pos
  have hgfn' := Nat.div_add_mod' (gpa / c.pageSize) c.ptrsPerPte
  rw [pmdMask_div] at hgfn
  rw [hds]
  rcases mapPageAdjust_huge c hsize with ⟨hS, hadj⟩ | ⟨-, hfs, hth, hadj⟩
  · rw [hadj]
    rw [if_pos hS] at hgfn
    cases hf : d.forcePte
    · -- hugetlbfs: the test admitted the VMA's block, which the host backs by a run
      have hvS : vps = c.pmdSize := by rwa [hvps, hf, if_neg Bool.false_ne_true] at hS
      obtain ⟨hhb, hpg⟩ := hugeBlock_pages c (hroom _ hsm) hB hN
        (hhva ▸ by simpa [hf, hvS] using hforce)
      have hq := (hpg _ (Nat.mod_lt (gpa / c.pageSize) hT)).2.2
      rw [hgfn', ← hhva] at hq
      obtain ⟨hFal, hrun⟩ := blockBacked_head c hhb (Nat.mod_lt _ hT) (hq ▸ hhuge _ (hvS ▸ hv))
      have hpfn := gfnToPfnProt_some c (gfnToMemslot_of_mem (hpg 0 hT).1 (hpg 0 hT).2.1 hdisj hs)
        (hgfn ▸ hr)
      rw [(hpg 0 hT).2.2, Nat.add_zero] at hpfn
      exact ⟨_, hpfn, hFal, fun k hk =>
        ⟨(hpg k hk).1, (hpg k hk).2.1, by rw [(hpg k hk).2.2, hrun k hk]⟩⟩
    · -- a base page forced to `PMD_SIZE`: the two sizes agree and a block is one frame
      have hT1 : c.ptrsPerPte = 1 := by
        rw [hvps, hf, if_pos rfl, c.pmdSize_eq] at hS
        exact Nat.eq_of_mul_eq_mul_left c.pageSize_pos (by rw [Nat.mul_one]; exact hS.symm)
      rw [hT1, Nat.div_one, Nat.mul_one] at hgfn
      have hpfn := gfnToPfnProt_some c hs (hgfn ▸ hr)
      simp only [hT1, Nat.div_one, Nat.mul_one, Nat.mod_one, Nat.lt_one_iff]
      exact ⟨_, hpfn, trivial, fun k hk => by subst hk; exact ⟨hB, hN, rfl⟩⟩
  · -- a transparent huge page: the frame moves down to the head of its run
    obtain ⟨hhb, hpg⟩ := hugeBlock_pages c (hroom _ hsm) hB hN (hhva ▸ hds ▸ hfs)
    obtain ⟨j, hj, hdj⟩ : ∃ j < c.ptrsPerPte,
        d.gfn = gpa / c.pageSize / c.ptrsPerPte * c.ptrsPerPte + j := by
      rw [hgfn]
      split_ifs
      · exact ⟨0, hT, rfl⟩
      · exact ⟨_, Nat.mod_lt _ hT, hgfn'.symm⟩
    have hpfn := gfnToPfnProt_some c (gfnToMemslot_of_mem (hpg j hj).1 (hpg j hj).2.1 hdisj hs)
      (hdj ▸ hr)
    rw [(hpg j hj).2.2] at hpfn
    obtain ⟨hFal, hrun⟩ := blockBacked_head c hhb hj (hthp _ (hpfn ▸ hth))
    rw [hrun j hj] at hpfn
    refine ⟨_, ?_, hFal, fun k hk =>
      ⟨(hpg k hk).1, (hpg k hk).2.1, by rw [(hpg k hk).2.2, hrun k hk]⟩⟩
    obtain ⟨hdiv, hmod⟩ := alignDown_add hFal hj
    rw [hadj, c.ptrsPerPmd_eq, hpfn]
    dsimp only
    split_ifs with h0
    · exact hdiv
    · rw [hmod] at h0
      rw [not_not.mp h0, Nat.add_zero]

/-- **A huge commit maps each frame of its block to the host's frame.** Let the slots be disjoint
and end at least `PMD_SIZE` below `2 ^ 64`, and let the host back by an aligned run of frames the block of every page of a `PMD_SIZE` VMA and
of every page whose frame is part of a transparent huge page. When a fault's lookup, resolve and
commit, against one host, commit a huge entry, the entry sits in the middle slot of `gpa`, is
present, huge and at a multiple of `PTRS_PER_PTE`, and every frame of the block of `gpa` lies in
the faulting slot and is governed by the entry, which gives it the frame the host backs its slot
address with. -/
theorem hugeCommit_maps_host_frames {slots : List Memslot} {host : Host}
    (hdisj : SlotsDisjoint slots)
    (hroom : ∀ s ∈ slots, s.userspaceAddr + s.npages * c.pageSize ≤ 2 ^ 64 - c.pmdSize)
    (hhuge : ∀ p, host.vmaPagesize p = some c.pmdSize → BlockBacked c host p)
    (hthp : ∀ p, host.thp (host.pte p).pfn = true → BlockBacked c host p)
    {vm vm' : Vm} {cache cache' gpa mmuSeq pfn fuel : Nat} {wf writeable : Bool} {err : Int}
    {d : Decision} {inv : Option Nat}
    (hl : mapPageLookup c slots host gpa wf err = .ok d)
    (hr : gfnToPfnProt c slots host d.gfn wf = some (pfn, writeable))
    (hc : mapPageCommit c host vm cache gpa wf d mmuSeq pfn writeable fuel =
      some (.done vm' cache' inv))
    (hsize : (mapPageAdjust c host d pfn gpa).1 = c.pmdSize) :
    ∃ e, (∃ pmd, vm'.pgd (c.pgdIndex gpa) = some pmd ∧ pmd (c.pmdOffset gpa) = .val e) ∧
      e.huge = true ∧ e.present = true ∧ e.pfn % c.ptrsPerPte = 0 ∧
      ∀ g, c.pmdMask gpa / c.pageSize ≤ g → g < c.pmdMask gpa / c.pageSize + c.ptrsPerPte →
        (d.memslot.baseGfn ≤ g ∧ g < d.memslot.baseGfn + d.memslot.npages) ∧
        vm'.pgd.entry c g = some e ∧
        (host.pte (u64 (d.memslot.userspaceAddr + (g - d.memslot.baseGfn) * c.pageSize) /
          c.pageSize)).pfn = e.frameOf c g := by
  obtain ⟨F, hF, hFal, hblock⟩ := hugeCommit_frame_run c hdisj hroom hhuge hthp hl hr hsize
  obtain ⟨vm'', cache'', inv', hdone, pmd, hpmd, hslot⟩ :=
    mapPageInstall_huge c (hsize ▸ hF ▸ mapPageCommit_done c hc)
  cases hdone
  obtain ⟨hi, hj⟩ := mapPageAdjust_indices c host d pfn gpa
  rw [hi] at hpmd
  rw [hj] at hslot
  rw [pmdMask_div]
  refine ⟨_, ⟨pmd, hpmd, hslot⟩, rfl, rfl, hFal, fun g hg1 hg2 => ?_⟩
  obtain ⟨k, hk, rfl⟩ : ∃ k < c.ptrsPerPte,
      g = gpa / c.pageSize / c.ptrsPerPte * c.ptrsPerPte + k :=
    ⟨_, by omega, (Nat.add_sub_cancel' hg1).symm⟩
  obtain ⟨hb1, hb2, hF'⟩ := hblock k hk
  refine ⟨⟨hb1, hb2⟩, entry_block_of_huge c hpmd hslot rfl hk, ?_⟩
  rw [hF']
  simp [Pte.frameOf, pmdMkhuge, pfnPmd, (digits_block c _ hk).1]

/-- A host that maps host virtual page `p` to frame `p` in base-page VMAs, every frame part of a
transparent huge page. -/
def Host.thpIdentity : Host :=
  ⟨fun p => ⟨p, true, true, false, true, false, 0⟩, fun _ => some c.pageSize, fun _ => true⟩

/-- Frames equal to their pages back every block. -/
theorem blockBacked_thpIdentity (p : Nat) : BlockBacked c (Host.thpIdentity c) p :=
  ⟨Nat.mul_mod_left _ _, fun _ _ => rfl⟩

/-- A transparent huge page under `Config.mips16k`: a read fault on frame 1 of `Memslot.block`,
whose host page is frame `2049` of a run from `2048`, commits the block's huge entry at `2048`. -/
theorem hugeCommit_maps_host_frames_sample :
    ∃ d vm' cache' inv,
      mapPageLookup (Config.mips16k false) [Memslot.block] (Host.thpIdentity (Config.mips16k false))
        (2 ^ 14) false 0 = .ok d ∧
      gfnToPfnProt (Config.mips16k false) [Memslot.block] (Host.thpIdentity (Config.mips16k false))
        d.gfn false = some (2049, true) ∧
      mapPageCommit (Config.mips16k false) (Host.thpIdentity (Config.mips16k false))
        ⟨kvmPgdInit, 0, 0, fun _ => false⟩ 40 (2 ^ 14) false d 0 2049 true 1 =
          some (.done vm' cache' inv) ∧
      (mapPageAdjust (Config.mips16k false) (Host.thpIdentity (Config.mips16k false)) d 2049
        (2 ^ 14)).1 = (Config.mips16k false).pmdSize ∧
      ∃ e, (∃ pmd, vm'.pgd ((Config.mips16k false).pgdIndex (2 ^ 14)) = some pmd ∧
          pmd ((Config.mips16k false).pmdOffset (2 ^ 14)) = .val e) ∧
        e.huge = true ∧ e.present = true ∧ e.pfn % (Config.mips16k false).ptrsPerPte = 0 ∧
        ∀ g, (Config.mips16k false).pmdMask (2 ^ 14) / (Config.mips16k false).pageSize ≤ g →
          g < (Config.mips16k false).pmdMask (2 ^ 14) / (Config.mips16k false).pageSize +
            (Config.mips16k false).ptrsPerPte →
          (d.memslot.baseGfn ≤ g ∧ g < d.memslot.baseGfn + d.memslot.npages) ∧
          vm'.pgd.entry (Config.mips16k false) g = some e ∧
          ((Host.thpIdentity (Config.mips16k false)).pte (u64 (d.memslot.userspaceAddr +
            (g - d.memslot.baseGfn) * (Config.mips16k false).pageSize) /
              (Config.mips16k false).pageSize)).pfn = e.frameOf (Config.mips16k false) g := by
  have hl : mapPageLookup (Config.mips16k false) [Memslot.block]
      (Host.thpIdentity (Config.mips16k false)) (2 ^ 14) false 0 =
        .ok ⟨Memslot.block, 2 ^ 25 + 2 ^ 14, false, 2 ^ 14, 1⟩ := rfl
  obtain ⟨vm', cache', inv, hc⟩ : ∃ vm' cache' inv, mapPageCommit (Config.mips16k false)
      (Host.thpIdentity (Config.mips16k false)) ⟨kvmPgdInit, 0, 0, fun _ => false⟩ 40 (2 ^ 14) false
      ⟨Memslot.block, 2 ^ 25 + 2 ^ 14, false, 2 ^ 14, 1⟩ 0 2049 true 1 =
        some (.done vm' cache' inv) := ⟨_, _, _, by rfl⟩
  exact ⟨_, vm', cache', inv, hl, rfl, hc, rfl,
    hugeCommit_maps_host_frames (Config.mips16k false) (by simp [SlotsDisjoint]) (by decide)
      (fun p _ => blockBacked_thpIdentity _ p) (fun p _ => blockBacked_thpIdentity _ p) hl rfl hc
      rfl⟩

end LoongsonDune.Proof
