import Mathlib.Tactic.IntervalCases
import Jos.KernMap

/-!
# The state `mem_init` leaves

Putting the pieces of `mem_init` together: every page on the free list is unreferenced, the kernel's
directory and its page tables are not on it, `UENVS` shows the `envs` array, and `KERNBASE` maps all of
physical memory. This is the start of every run of the allocator (`MemInit.runStart`).
-/

namespace Jos

open Pmap

variable {l : List Nat} {s s' : Pmap} {b : BootInfo}

/-- The first virtual page of `UENVS`. -/
def UENVSPN : Nat := 977920

/-- The first virtual page of `KERNBASE`. -/
def KERNPN : Nat := 983040

theorem kernPde_iff {i : Nat} : KernPde i ↔ 955 ≤ i ∧ i < 1024 ∧ i ≠ 957 := by
  have h : PDX UVPT = 957 := by decide
  rw [KernPde, NUPDE, h]

instance (i : Nat) : Decidable (KernPde i) := inferInstanceAs (Decidable (_ ∧ _))

theorem paddr_ok {kva pa : Word} (h : paddr kva = .ok pa) :
    KERNBASE ≤ kva ∧ pa.toNat = kva.toNat - 0xF0000000 := by
  unfold paddr at h
  split at h
  · cases h
  · next hge =>
    cases h
    have hge := BitVec.not_lt.mp hge
    have hK : KERNBASE.toNat = 0xF0000000 := by decide
    have hlt := kva.isLt
    refine ⟨hge, ?_⟩
    rw [BitVec.le_def, hK] at hge
    rw [BitVec.toNat_sub, hK]
    omega

theorem paddr_aligned {kva pa : Word} (h : paddr kva = .ok pa) (hal : kva.toNat % PGSIZE = 0) :
    pa.toNat % 4096 = 0 := by
  obtain ⟨hge, hpa⟩ := paddr_ok h
  have hK : KERNBASE.toNat = 0xF0000000 := by decide
  rw [BitVec.le_def, hK] at hge
  unfold PGSIZE at hal
  omega

/-! ## The page table above `UTOP` -/

namespace BootInv

/-- `mmio_map_region`'s bookkeeping is not part of the page tables. -/
theorem setMmio (h : BootInv l s) (base : Word) : BootInv l { s with mmioBase := base } :=
  ⟨h.npages_le, h.free.congr rfl (fun _ => rfl) rfl, h.free_lt, h.free_ref, h.kern_lt, h.kern_free,
    h.kern_user, h.self, h.fresh, h.table, h.inj⟩

/-- `mmio_map_region` of `n` pages when `base` is at virtual page `m`. -/
theorem mmioMapRegion_eq {m n : Nat} {pa size : Word} (hbase : s.mmioBase = pageAddr m)
    (hsize : ROUNDUP (pa + size) PGSIZE - ROUNDDOWN pa PGSIZE = BitVec.ofNat 32 (n * 4096))
    (hmn : m + n < 982016) : mmioMapRegion s pa size = (do
      let s' ← bootMapRegion s s.kernPgdir (pageAddr m) (BitVec.ofNat 32 (n * 4096))
        (ROUNDDOWN pa PGSIZE) (PTE_PCD ||| PTE_PWT ||| PTE_W)
      return (s'.mmioBase + BitVec.ofNat 32 (n * 4096) - BitVec.ofNat 32 (n * 4096),
        { s' with mmioBase := s'.mmioBase + BitVec.ofNat 32 (n * 4096) })) := by
  have hlim : ¬ MMIOLIM ≤ pageAddr m + BitVec.ofNat 32 (n * 4096) := by
    have hM : MMIOLIM.toNat = 982016 * 4096 := by decide
    rw [BitVec.le_def, hM, BitVec.toNat_add, toNat_pageAddr (by omega), BitVec.toNat_ofNat]
    omega
  unfold mmioMapRegion
  simp only [hsize, hbase, hlim, if_false]

/-- `mmio_map_region` panics before it leaves its window, unless the addition in its test overflows. -/
theorem mmioMapRegion_window {m n : Nat} {pa size r : Word} (hbase : s.mmioBase = pageAddr m)
    (hmn : m + n < 1048576)
    (hsize : ROUNDUP (pa + size) PGSIZE - ROUNDDOWN pa PGSIZE = BitVec.ofNat 32 (n * 4096))
    (hok : mmioMapRegion s pa size = .ok (r, s')) : m + n < 982016 := by
  unfold mmioMapRegion at hok
  simp only [hsize, hbase] at hok
  split at hok
  · cases hok
  · next hlim =>
    have hM : MMIOLIM.toNat = 982016 * 4096 := by decide
    rw [BitVec.le_def, hM, BitVec.toNat_add, toNat_pageAddr (by omega), BitVec.toNat_ofNat] at hlim
    omega

/-- `mmio_map_region` changes the entries of its region. -/
theorem mmioMapRegion_ok {m n : Nat} {pa size r : Word} (h : BootInv l s)
    (hbase : s.mmioBase = pageAddr m)
    (hsize : ROUNDUP (pa + size) PGSIZE - ROUNDDOWN pa PGSIZE = BitVec.ofNat 32 (n * 4096))
    (hm : 980992 ≤ m) (hmn : m + n < 982016) (hok : mmioMapRegion s pa size = .ok (r, s')) :
    r = pageAddr m ∧ s'.mmioBase = pageAddr (m + n) ∧ ∃ l', BootInv l' s' ∧ BootFrame l s l' s' ∧
      (∀ w, KernPde (w / 1024) → pteOf s' s.kernPgdir w = if m ≤ w ∧ w < m + n
        then (ROUNDDOWN pa PGSIZE + BitVec.ofNat 32 ((w - m) * PGSIZE)) ||| PTE_P
          ||| (PTE_PCD ||| PTE_PWT ||| PTE_W)
        else pteOf s s.kernPgdir w) ∧
      (0 < n → present (s'.mem s.kernPgdir 958)) ∧ (Guarded s → Guarded s') ∧
      ∀ i, i ≠ 958 ∨ present (s.mem s.kernPgdir i) → s'.mem s.kernPgdir i = s.mem s.kernPgdir i := by
  rw [mmioMapRegion_eq hbase hsize hmn] at hok
  obtain ⟨s₁, hmap, hret⟩ := Except.bind_eq_ok.mp hok
  cases hret
  have hkern : ∀ j < n, KernPde ((m + j) / 1024) := by
    intro j hj
    rw [kernPde_iff]
    omega
  obtain ⟨l', hm₁⟩ := h.bootMapRegion_ok rfl (by rw [BitVec.toNat_ofNat]; omega) (by omega) hkern hmap
  have hbase₁ : s₁.mmioBase = pageAddr m := hm₁.mmio.trans hbase
  have hadd : pageAddr m + BitVec.ofNat 32 (n * 4096) = pageAddr (m + n) := by
    rw [pageAddr, pageAddr, PGSIZE, Nat.add_mul, BitVec.ofNat_add]
  refine ⟨?_, ?_, l', hm₁.inv.setMmio _, ⟨hm₁.frame.npages, hm₁.frame.kern, hm₁.frame.sub,
    hm₁.frame.room⟩, ?_, ?_, ?_, ?_⟩
  · rw [hbase₁, BitVec.add_sub_cancel]
  · rw [← hadd, ← hbase₁]
  · exact hm₁.pte
  · intro hn
    have hpte := hm₁.pte m (hkern 0 hn)
    rw [if_pos ⟨le_rfl, by omega⟩] at hpte
    have hdiv : m / 1024 = 958 := by omega
    by_contra hP
    rw [pteOf, hdiv, if_neg hP] at hpte
    exact not_present_zero (hpte ▸ present_or_left _ (present_or_right _ (by decide)))
  · have hal : (ROUNDDOWN pa PGSIZE).toNat % 4096 = 0 := by
      rw [toNat_ROUNDDOWN]
      omega
    exact hm₁.guarded hal (by decide)
  · intro i hi
    refine hm₁.dir i (hi.imp_left fun hne j hj => ?_)
    omega

theorem mmioMapRegion_exists {m n : Nat} (h : BootInv l s) (pa size : Word)
    (hbase : s.mmioBase = pageAddr m)
    (hsize : ROUNDUP (pa + size) PGSIZE - ROUNDDOWN pa PGSIZE = BitVec.ofNat 32 (n * 4096))
    (hm : 980992 ≤ m) (hmn : m + n < 982016) (hroom : 69 ≤ l.length + kernTables s) :
    ∃ x, mmioMapRegion s pa size = .ok x := by
  have hkern : ∀ j < n, KernPde ((m + j) / 1024) := by
    intro j hj
    rw [kernPde_iff]
    omega
  obtain ⟨s₁, hs₁⟩ := h.bootMapRegion_exists (pageAddr m) (BitVec.ofNat 32 (n * 4096))
    (ROUNDDOWN pa PGSIZE) (PTE_PCD ||| PTE_PWT ||| PTE_W) rfl (by rw [BitVec.toNat_ofNat]; omega)
    (by omega) hkern hroom
  rw [mmioMapRegion_eq hbase hsize hmn, hs₁]
  exact ⟨_, rfl⟩

/-- Clearing an entry in the window of `MMIOBASE`. -/
theorem clearKernPte_spec (h : BootInv l s) (va : Word) (hva : PDX va = 958)
    (hP : present (s.mem s.kernPgdir 958)) :
    ∃ s', clearKernPte s va = .ok s' ∧ BootInv l s' ∧ BootFrame l s l s' ∧
      s'.mmioBase = s.mmioBase ∧ present (s'.mem s.kernPgdir 958) ∧
      (∀ w, KernPde (w / 1024) →
        pteOf s' s.kernPgdir w = if w = PGNUM va then 0#32 else pteOf s s.kernPgdir w) ∧
      (Guarded s → Guarded s') ∧ s'.mem s.kernPgdir = s.mem s.kernPgdir := by
  have hk : KernPde 958 := by decide
  have hP' : present (s.mem s.kernPgdir (PDX va)) := by rw [hva]; exact hP
  have htab := h.table 958 hk hP
  have hwalk := pgdirWalk_present (s := s) false hP'
    (by rw [hva]; exact htab.1)
  rw [hva] at hwalk
  obtain ⟨h', hf, hpte, hdir⟩ := h.store (x := 0#32) hk hP (PTX_lt va)
  refine ⟨_, by rw [clearKernPte, hwalk]; rfl, h', hf, rfl, ?_, ?_, ?_, hdir⟩
  · rw [store_mem_of_ne _ _ _ (Ne.symm htab.2.2)]
    exact hP
  · intro w hw
    rw [hpte w hw, PGNUM_split, hva]
  · intro hg w hw
    rw [hf.kern, hpte w hw]
    split
    · decide
    · exact hg w hw

/-- What the last part of `check_page` leaves. -/
theorem checkMmio_ok (h : BootInv l s) (hbase : s.mmioBase = MMIOBASE)
    (hok : checkMmio s = .ok s') :
    ∃ l', BootInv l' s' ∧ BootFrame l s l' s' ∧ s'.mmioBase = pageAddr 980995 ∧
      (Guarded s → Guarded s') ∧ (∀ w, KernPde (w / 1024) → pteOf s' s.kernPgdir w
        = if 980992 ≤ w ∧ w < 980995 then 0#32 else pteOf s s.kernPgdir w) ∧
      present (s'.mem s.kernPgdir 958) := by
  unfold checkMmio at hok
  obtain ⟨⟨mm₁, s₁⟩, hm₁, hok⟩ := Except.bind_eq_ok.mp hok
  obtain ⟨⟨mm₂, s₂⟩, hm₂, hok⟩ := Except.bind_eq_ok.mp hok
  obtain ⟨s₃, hc₁, hok⟩ := Except.bind_eq_ok.mp hok
  obtain ⟨s₄, hc₂, hc₃⟩ := Except.bind_eq_ok.mp hok
  obtain ⟨rfl, hb₁, l₁, h₁, hf₁, hp₁, -, hg₁, -⟩ := h.mmioMapRegion_ok (m := 980992) (n := 2) hbase
    (by decide) (by omega) (by omega) hm₁
  obtain ⟨rfl, hb₂, l₂, h₂, hf₂, hp₂, hP₂, hg₂, -⟩ := h₁.mmioMapRegion_ok (m := 980994) (n := 1) hb₁
    (by decide) (by omega) (by omega) hm₂
  have hf := hf₁.trans hf₂
  obtain ⟨s₃', hc₁', h₃, hf₃, hb₃, hP₃, hp₃, hg₃, -⟩ := h₂.clearKernPte_spec (pageAddr 980992)
    (by decide) (by rw [hf₂.kern]; exact hP₂ (by omega))
  rw [hc₁] at hc₁'
  cases hc₁'
  obtain ⟨s₄', hc₂', h₄, hf₄, hb₄, hP₄, hp₄, hg₄, -⟩ := h₃.clearKernPte_spec
    (pageAddr 980992 + BitVec.ofNat 32 PGSIZE) (by decide) (by rw [hf₃.kern]; exact hP₃)
  rw [hc₂] at hc₂'
  cases hc₂'
  obtain ⟨s₅', hc₃', h₅, hf₅, hb₅, hP₅, hp₅, hg₅, -⟩ := h₄.clearKernPte_spec (pageAddr 980994)
    (by decide) (by rw [hf₄.kern]; exact hP₄)
  rw [hc₃] at hc₃'
  cases hc₃'
  refine ⟨l₂, h₅, hf.trans (hf₃.trans (hf₄.trans hf₅)), ?_, fun hg => ?_, fun w hw => ?_, ?_⟩
  · rw [hb₅, hb₄, hb₃, hb₂]
  · exact hg₅ (hg₄ (hg₃ (hg₂ (hg₁ hg))))
  · have hn₁ : PGNUM (pageAddr 980992) = 980992 := PGNUM_pageAddr (by omega)
    have hn₂ : PGNUM (pageAddr 980992 + BitVec.ofNat 32 PGSIZE) = 980993 := by
      rw [pageAddr_succ, PGNUM_pageAddr (by omega)]
    have hn₃ : PGNUM (pageAddr 980994) = 980994 := PGNUM_pageAddr (by omega)
    have hk₄ := hf₄.kern.trans (hf₃.kern.trans hf.kern)
    have hp₅ := hp₅ w hw
    rw [hk₄, hn₃] at hp₅
    have hp₄ := hp₄ w hw
    rw [hf₃.kern, hf.kern, hn₂] at hp₄
    have hp₃ := hp₃ w hw
    rw [hf.kern, hn₁] at hp₃
    have hp₂ := hp₂ w hw
    rw [hf₁.kern] at hp₂
    rw [hp₅, hp₄, hp₃, hp₂, hp₁ w hw]
    by_cases hin : 980992 ≤ w ∧ w < 980995
    · rw [if_pos hin]
      obtain rfl | rfl | rfl : w = 980992 ∨ w = 980993 ∨ w = 980994 := by omega
      · rw [if_neg (by omega), if_neg (by omega), if_pos rfl]
      · rw [if_neg (by omega), if_pos rfl]
      · rw [if_pos rfl]
    · rw [if_neg hin, if_neg (by omega), if_neg (by omega), if_neg (by omega), if_neg (by omega),
        if_neg (by omega)]
  · rw [hf₄.kern, hf₃.kern, hf.kern] at hP₅
    exact hP₅

theorem checkMmio_exists (h : BootInv l s) (hbase : s.mmioBase = MMIOBASE)
    (hroom : 69 ≤ l.length + kernTables s) : ∃ s', checkMmio s = .ok s' := by
  obtain ⟨⟨mm₁, s₁⟩, hm₁⟩ := h.mmioMapRegion_exists 0#32 4097#32 (m := 980992)
    (n := 2) hbase (by decide) (by omega) (by omega) hroom
  obtain ⟨rfl, hb₁, l₁, h₁, hf₁, -, -⟩ := h.mmioMapRegion_ok (m := 980992) (n := 2) hbase
    (by decide) (by omega) (by omega) hm₁
  obtain ⟨⟨mm₂, s₂⟩, hm₂⟩ := h₁.mmioMapRegion_exists 0#32 4096#32 (m := 980994)
    (n := 1) hb₁ (by decide) (by omega) (by omega) (by rw [hf₁.room]; exact hroom)
  obtain ⟨rfl, hb₂, l₂, h₂, hf₂, -, hP₂, -⟩ := h₁.mmioMapRegion_ok (m := 980994) (n := 1) hb₁
    (by decide) (by omega) (by omega) hm₂
  obtain ⟨s₃, hc₁, h₃, hf₃, -, hP₃, -⟩ := h₂.clearKernPte_spec (pageAddr 980992)
    (by decide) (by rw [hf₂.kern]; exact hP₂ (by omega))
  obtain ⟨s₄, hc₂, h₄, hf₄, -, hP₄, -⟩ := h₃.clearKernPte_spec
    (pageAddr 980992 + BitVec.ofNat 32 PGSIZE) (by decide) (by rw [hf₃.kern]; exact hP₃)
  obtain ⟨s₅, hc₃, -⟩ := h₄.clearKernPte_spec (pageAddr 980994)
    (by decide) (by rw [hf₄.kern]; exact hP₄)
  refine ⟨s₅, ?_⟩
  simp only [checkMmio, hm₁, Except.ok_bind, hm₂, hc₁, hc₂, hc₃]

/-- The virtual page of the stack of CPU `i`. -/
private theorem kstack_eq {i : Nat} (hi : i < NCPU) :
    KSTACKTOP - BitVec.ofNat 32 KSTKSIZE - BitVec.ofNat 32 (i * (KSTKSIZE + KSTKGAP))
      = pageAddr (983032 - i * 16) := by
  unfold NCPU at hi
  interval_cases i <;> decide

private theorem kstack_kern {i j : Nat} (hi : i < NCPU) (hj : j < 8) :
    KernPde ((983032 - i * 16 + j) / 1024) := by
  unfold NCPU at hi
  rw [kernPde_iff]
  omega

/-- Virtual page `w` belongs to the stack of CPU `i`. -/
def InKstack (i w : Nat) : Prop := 983032 - i * 16 ≤ w ∧ w < 983040 - i * 16

instance (i w : Nat) : Decidable (InKstack i w) := inferInstanceAs (Decidable (_ ∧ _))

/-- `mem_init_mp` maps the stacks of the CPUs. -/
theorem memInitMp_ok (h : BootInv l s) (hok : memInitMp b s = .ok s') :
    ∃ l', BootInv l' s' ∧ BootFrame l s l' s' ∧ s'.mmioBase = s.mmioBase ∧
      (∀ w, KernPde (w / 1024) → (∀ i < NCPU, ¬ InKstack i w) →
        pteOf s' s.kernPgdir w = pteOf s s.kernPgdir w) ∧ (Guarded s → Guarded s') ∧
      (∀ i < NCPU, ∃ pa, paddr (b.percpuKstacks i) = .ok pa ∧ ∀ w, InKstack i w →
        pteOf s' s.kernPgdir w
          = (pa + BitVec.ofNat 32 ((w - (983032 - i * 16)) * PGSIZE)) ||| PTE_P ||| PTE_W) ∧
      ∀ i, present (s.mem s.kernPgdir i) → present (s'.mem s.kernPgdir i) := by
  let I : Nat → Pmap → Prop := fun n s₁ => ∃ l', BootInv l' s₁ ∧ BootFrame l s l' s₁ ∧
    s₁.mmioBase = s.mmioBase ∧ (∀ w, KernPde (w / 1024) → (∀ i < n, ¬ InKstack i w) →
      pteOf s₁ s.kernPgdir w = pteOf s s.kernPgdir w) ∧ (Guarded s → Guarded s₁) ∧
    (∀ i < n, ∃ pa, paddr (b.percpuKstacks i) = .ok pa ∧ ∀ w, InKstack i w →
      pteOf s₁ s.kernPgdir w
        = (pa + BitVec.ofNat 32 ((w - (983032 - i * 16)) * PGSIZE)) ||| PTE_P ||| PTE_W) ∧
    ∀ i, present (s.mem s.kernPgdir i) → present (s₁.mem s.kernPgdir i)
  refine Except.foldlM_range_ok I NCPU hok
    ⟨l, h, .refl l s, rfl, fun _ _ _ => rfl, id, fun _ hi => absurd hi (by omega), fun _ => id⟩ ?_
  rintro i hi s₁ s₂ ⟨l₁, h₁, hf₁, hb₁, hp₁, hg₁, hstk₁, hdir₁⟩ hstep
  obtain ⟨pa, hpa, hmap⟩ := Except.bind_eq_ok.mp hstep
  rw [kstack_eq hi] at hmap
  obtain ⟨l₂, hm⟩ := h₁.bootMapRegion_ok rfl (n := 8) (by decide) (by unfold NCPU at hi; omega)
    (fun j hj => kstack_kern hi hj) hmap
  have hin : ∀ w, (983032 - i * 16 ≤ w ∧ w < 983032 - i * 16 + 8) ↔ InKstack i w := by
    intro w
    unfold NCPU at hi
    unfold InKstack
    omega
  have hpte : ∀ w, KernPde (w / 1024) → pteOf s₂ s.kernPgdir w = if InKstack i w
      then (pa + BitVec.ofNat 32 ((w - (983032 - i * 16)) * PGSIZE)) ||| PTE_P ||| PTE_W
      else pteOf s₁ s.kernPgdir w := by
    intro w hw
    have hp := hm.pte w hw
    rw [hf₁.kern] at hp
    rw [hp]
    by_cases hc : InKstack i w
    · rw [if_pos hc, if_pos ((hin w).mpr hc)]
    · rw [if_neg hc, if_neg fun hc' => hc ((hin w).mp hc')]
  have hkern : ∀ j w, j < NCPU → InKstack j w → KernPde (w / 1024) := by
    intro j w hj hw
    unfold NCPU at hj
    unfold InKstack at hw
    rw [kernPde_iff]
    omega
  refine ⟨l₂, hm.inv, hf₁.trans hm.frame, hm.mmio.trans hb₁, fun w hw hne => ?_, fun hg => ?_,
    fun j hj => ?_, fun j hP => ?_⟩
  · rw [hpte w hw, if_neg (hne i (Nat.lt_succ_self i)),
      hp₁ w hw fun j hj => hne j (Nat.lt_succ_of_lt hj)]
  · exact hm.guarded (paddr_aligned hpa (b.kstacks_aligned i hi)) (by decide) (hg₁ hg)
  · by_cases hji : j = i
    · subst hji
      refine ⟨pa, hpa, fun w hw => ?_⟩
      rw [hpte w (hkern j w hi hw), if_pos hw]
    · obtain ⟨pa', hpa', hstk⟩ := hstk₁ j (by omega)
      refine ⟨pa', hpa', fun w hw => ?_⟩
      rw [hpte w (hkern j w (by omega) hw), if_neg, hstk w hw]
      -- the stacks lie apart
      unfold InKstack at hw ⊢
      unfold NCPU at hi
      omega
  · rw [← hf₁.kern]
    exact hm.present (by rw [hf₁.kern]; exact hdir₁ j hP)

theorem memInitMp_exists (h : BootInv l s) (hstacks : ∀ i < NCPU, KERNBASE ≤ b.percpuKstacks i)
    (hroom : 69 ≤ l.length + kernTables s) : ∃ s', memInitMp b s = .ok s' := by
  let I : Nat → Pmap → Prop := fun _ s₁ => ∃ l', BootInv l' s₁ ∧ BootFrame l s l' s₁
  obtain ⟨s', hs', -⟩ := Except.foldlM_range_invariant (f := fun s i => do
      let pa ← paddr (b.percpuKstacks i)
      bootMapRegion s s.kernPgdir
        (KSTACKTOP - BitVec.ofNat 32 KSTKSIZE - BitVec.ofNat 32 (i * (KSTKSIZE + KSTKGAP)))
        (BitVec.ofNat 32 KSTKSIZE) pa PTE_W) I NCPU (s := s) ⟨l, h, .refl l s⟩ (by
    rintro i hi s₁ ⟨l₁, h₁, hf₁⟩
    have hpa : paddr (b.percpuKstacks i) = .ok (b.percpuKstacks i - KERNBASE) := by
      rw [paddr, if_neg (BitVec.not_lt.mpr (hstacks i hi))]
      rfl
    obtain ⟨s₂, hs₂⟩ := h₁.bootMapRegion_exists _ (BitVec.ofNat 32 KSTKSIZE)
      (b.percpuKstacks i - KERNBASE) PTE_W (kstack_eq hi) (n := 8) (by decide)
      (by unfold NCPU at hi; omega) (fun j hj => kstack_kern hi hj) (by rw [hf₁.room]; exact hroom)
    obtain ⟨l₂, hm⟩ := h₁.bootMapRegion_ok (kstack_eq hi) (n := 8) (by decide)
      (by unfold NCPU at hi; omega) (fun j hj => kstack_kern hi hj) hs₂
    exact ⟨s₂, by simp only [hpa, Except.ok_bind, hs₂], l₂, hm.inv, hf₁.trans hm.frame⟩)
  exact ⟨s', hs'⟩

/-- The regions `mem_init` maps: virtual page, number of pages. -/
private theorem region_kern {v n : Nat}
    (h : (v, n) ∈ [(978944, 1024), (977920, 1024), (983032, 8), (983040, 65536)]) :
    ∀ j < n, KernPde ((v + j) / 1024) := by
  intro j hj
  rw [kernPde_iff]
  simp only [List.mem_cons, Prod.mk.injEq, List.not_mem_nil, or_false] at h
  omega

/-- What the mapping part of `mem_init` leaves. -/
theorem memInitMap_ok {pages envs : Word} (h : BootInv l s)
    (hok : memInitMap b s pages envs = .ok s') :
    ∃ l', BootInv l' s' ∧ BootFrame l s l' s' ∧ s'.npages ≤ 65536 ∧ s'.mmioBase = s.mmioBase ∧
      (∀ p < 65536, pteOf s' s'.kernPgdir (KERNPN + p)
        = BitVec.ofNat 32 (p * PGSIZE) ||| PTE_P ||| PTE_W) ∧
      (∀ j < 1024, pteOf s' s'.kernPgdir (UENVSPN + j)
        = (envs + BitVec.ofNat 32 (j * PGSIZE)) ||| PTE_P ||| PTE_U) ∧
      (pages.toNat % 4096 = 0 → envs.toNat % 4096 = 0 → Guarded s → Guarded s') ∧
      (∀ j < 1024, pteOf s' s'.kernPgdir (978944 + j)
        = (pages + BitVec.ofNat 32 (j * PGSIZE)) ||| PTE_P ||| PTE_U) ∧
      (∀ i < NCPU, ∃ pa, paddr (b.percpuKstacks i) = .ok pa ∧ ∀ w, InKstack i w →
        pteOf s' s'.kernPgdir w
          = (pa + BitVec.ofNat 32 ((w - (983032 - i * 16)) * PGSIZE)) ||| PTE_P ||| PTE_W) ∧
      (∀ w, KernPde (w / 1024) → 979968 ≤ w → w < 983040 → (∀ i < NCPU, ¬ InKstack i w) →
        pteOf s' s'.kernPgdir w = pteOf s s.kernPgdir w) ∧
      ∀ i, present (s.mem s.kernPgdir i) → present (s'.mem s'.kernPgdir i) := by
  unfold memInitMap at hok
  obtain ⟨s₁, hm₁, hok⟩ := Except.bind_eq_ok.mp hok
  obtain ⟨s₂, hm₂, hok⟩ := Except.bind_eq_ok.mp hok
  obtain ⟨stack, hstack, hok⟩ := Except.bind_eq_ok.mp hok
  obtain ⟨s₃, hm₃, hok⟩ := Except.bind_eq_ok.mp hok
  obtain ⟨s₄, hm₄, hok⟩ := Except.bind_eq_ok.mp hok
  obtain ⟨s₅, hm₅, hok⟩ := Except.bind_eq_ok.mp hok
  obtain ⟨l₁, r₁⟩ := h.bootMapRegion_ok (v := 978944) (n := 1024) (by decide) (by decide) (by decide)
    (region_kern (by simp)) hm₁
  obtain ⟨l₂, r₂⟩ := r₁.inv.bootMapRegion_ok (v := 977920) (n := 1024) (by decide) (by decide)
    (by decide) (region_kern (by simp)) hm₂
  obtain ⟨l₃, r₃⟩ := r₂.inv.bootMapRegion_ok (v := 983032) (n := 8) (by decide) (by decide)
    (by decide) (region_kern (by simp)) hm₃
  obtain ⟨l₄, r₄⟩ := r₃.inv.bootMapRegion_ok (v := 983040) (n := 65536) (by decide) (by decide)
    (by decide) (region_kern (by simp)) hm₄
  obtain ⟨l₅, h₅, hf₅, hb₅, hp₅, hg₅, hstk₅, hdir₅⟩ := r₄.inv.memInitMp_ok hm₅
  have hnp : ¬ 65536 < s₅.npages ∧ s' = s₅ := by
    split at hok
    · cases hok
    · next hle =>
      cases hok
      exact ⟨hle, rfl⟩
  obtain ⟨hle, rfl⟩ := hnp
  have hf₃ := r₁.frame.trans (r₂.frame.trans r₃.frame)
  have hapart : ∀ w, w < 982016 ∨ 983040 ≤ w → ∀ i < NCPU, ¬ InKstack i w := by
    intro w hw i hi
    unfold NCPU at hi
    unfold InKstack
    omega
  refine ⟨l₅, h₅, hf₃.trans (r₄.frame.trans hf₅), Nat.not_lt.mp hle, ?_, fun p hp => ?_,
    fun j hj => ?_, fun hpages henvs hg => ?_, fun j hj => ?_, ?_, fun w hw hlo hhi hout => ?_, fun i hP => ?_⟩
  · rw [hb₅, r₄.mmio, r₃.mmio, r₂.mmio, r₁.mmio]
  · have hw : KernPde ((KERNPN + p) / 1024) := by
      rw [kernPde_iff, KERNPN]
      omega
    rw [hf₅.kern, hp₅ _ hw (hapart _ (by rw [KERNPN]; omega)), r₄.frame.kern, r₄.pte _ hw]
    rw [if_pos (by rw [KERNPN]; omega)]
    have he : KERNPN + p - 983040 = p := by
      rw [KERNPN]
      omega
    rw [he, BitVec.zero_add]
  · have hw : KernPde ((UENVSPN + j) / 1024) := by
      rw [kernPde_iff]
      unfold UENVSPN
      omega
    have hv : UENVSPN + j = 977920 + j := by unfold UENVSPN; omega
    rw [hf₅.kern, hp₅ _ hw (hapart _ (by rw [hv]; omega)), r₄.frame.kern, r₄.pte _ hw,
      if_neg (by rw [hv]; omega), r₃.frame.kern, r₃.pte _ hw, if_neg (by rw [hv]; omega),
      r₂.frame.kern, r₂.pte _ hw, if_pos (by rw [hv]; omega)]
    have he : UENVSPN + j - 977920 = j := by
      rw [hv]
      omega
    rw [he]
  · have hg₂ := r₂.guarded henvs (by decide) (r₁.guarded hpages (by decide) hg)
    have hg₃ := r₃.guarded (paddr_aligned hstack b.bootstack_aligned) (by decide) hg₂
    exact hg₅ (r₄.guarded (by decide) (by decide) hg₃)
  · have hw : KernPde ((978944 + j) / 1024) := by
      rw [kernPde_iff]
      omega
    rw [hf₅.kern, hp₅ _ hw (hapart _ (by omega)), r₄.frame.kern, r₄.pte _ hw, if_neg (by omega),
      r₃.frame.kern, r₃.pte _ hw, if_neg (by omega), r₂.frame.kern, r₂.pte _ hw, if_neg (by omega),
      r₁.frame.kern, r₁.pte _ hw, if_pos (by omega), Nat.add_sub_cancel_left]
  · rw [hf₅.kern]
    exact hstk₅
  · -- the boot stack is where the stack of the first CPU goes
    have h₀ := hout 0 (by decide)
    unfold InKstack at h₀
    rw [hf₅.kern, hp₅ _ hw hout, r₄.frame.kern, r₄.pte _ hw, if_neg (by omega), r₃.frame.kern,
      r₃.pte _ hw, if_neg (by omega), r₂.frame.kern, r₂.pte _ hw, if_neg (by omega), r₁.frame.kern,
      r₁.pte _ hw, if_neg (by omega)]
  · have hP₁ : present (s₁.mem s₁.kernPgdir i) := by rw [r₁.frame.kern]; exact r₁.present hP
    have hP₂ : present (s₂.mem s₂.kernPgdir i) := by rw [r₂.frame.kern]; exact r₂.present hP₁
    have hP₃ : present (s₃.mem s₃.kernPgdir i) := by rw [r₃.frame.kern]; exact r₃.present hP₂
    have hP₄ : present (s₄.mem s₄.kernPgdir i) := by rw [r₄.frame.kern]; exact r₄.present hP₃
    rw [hf₅.kern]
    exact hdir₅ i hP₄

theorem memInitMap_exists {pages envs : Word} (h : BootInv l s) (hstack : KERNBASE ≤ b.bootstack)
    (hstacks : ∀ i < NCPU, KERNBASE ≤ b.percpuKstacks i) (hn : s.npages ≤ 65536)
    (hroom : 69 ≤ l.length + kernTables s) : ∃ s', memInitMap b s pages envs = .ok s' := by
  obtain ⟨s₁, hm₁⟩ := h.bootMapRegion_exists UPAGES (BitVec.ofNat 32 PTSIZE) pages PTE_U
    (v := 978944) (n := 1024) (by decide) (by decide) (by decide)
    (region_kern (by simp)) hroom
  obtain ⟨l₁, r₁⟩ := h.bootMapRegion_ok (v := 978944) (n := 1024) (by decide) (by decide) (by decide)
    (region_kern (by simp)) hm₁
  have hroom₁ := r₁.frame.room ▸ hroom
  obtain ⟨s₂, hm₂⟩ := r₁.inv.bootMapRegion_exists UENVS (BitVec.ofNat 32 PTSIZE) envs PTE_U
    (v := 977920) (n := 1024) (by decide) (by decide) (by decide)
    (region_kern (by simp)) hroom₁
  obtain ⟨l₂, r₂⟩ := r₁.inv.bootMapRegion_ok (v := 977920) (n := 1024) (by decide) (by decide)
    (by decide) (region_kern (by simp)) hm₂
  have hroom₂ := r₂.frame.room ▸ hroom₁
  have hpa : paddr b.bootstack = .ok (b.bootstack - KERNBASE) := by
    rw [paddr, if_neg (BitVec.not_lt.mpr hstack)]
    rfl
  obtain ⟨s₃, hm₃⟩ := r₂.inv.bootMapRegion_exists
    (KSTACKTOP - BitVec.ofNat 32 KSTKSIZE) (BitVec.ofNat 32 KSTKSIZE) (b.bootstack - KERNBASE) PTE_W
    (v := 983032) (n := 8) (by decide) (by decide) (by decide) (region_kern (by simp)) hroom₂
  obtain ⟨l₃, r₃⟩ := r₂.inv.bootMapRegion_ok (v := 983032) (n := 8) (by decide) (by decide)
    (by decide) (region_kern (by simp)) hm₃
  have hroom₃ := r₃.frame.room ▸ hroom₂
  obtain ⟨s₄, hm₄⟩ := r₃.inv.bootMapRegion_exists KERNBASE (0xffffffff#32 - KERNBASE) 0#32 PTE_W
    (v := 983040) (n := 65536)
    (by decide) (by decide) (by decide) (region_kern (by simp)) hroom₃
  obtain ⟨l₄, r₄⟩ := r₃.inv.bootMapRegion_ok (v := 983040) (n := 65536) (by decide) (by decide)
    (by decide) (region_kern (by simp)) hm₄
  obtain ⟨s₅, hm₅⟩ := r₄.inv.memInitMp_exists hstacks (r₄.frame.room ▸ hroom₃)
  obtain ⟨l₅, -, hf₅, -⟩ := r₄.inv.memInitMp_ok hm₅
  have hn₅ : ¬ 65536 < s₅.npages := by
    rw [hf₅.npages, r₄.frame.npages, r₃.frame.npages, r₂.frame.npages, r₁.frame.npages]
    omega
  refine ⟨s₅, ?_⟩
  simp only [memInitMap, hm₁, Except.ok_bind, hm₂, hpa, hm₃, hm₄, hm₅, if_neg hn₅]
  rfl

end BootInv

/-! ## Where `boot_alloc` puts things -/

private theorem toNat_bootAlloc (x : Word) (n : Nat) :
    (bootAlloc x n).2.toNat = ((x.toNat + n) % 4294967296 + 4095) / 4096 * 4096 % 4294967296 := by
  have hx := x.isLt
  rw [bootAlloc, toNat_ROUNDUP, BitVec.toNat_add, BitVec.toNat_ofNat]
  omega

theorem page2pa_eq (p : Nat) : page2pa p = BitVec.ofNat 32 (p * PGSIZE) := by
  apply BitVec.eq_of_toNat_eq
  rw [page2pa, BitVec.toNat_shiftLeft, BitVec.toNat_ofNat, BitVec.toNat_ofNat, Nat.shiftLeft_eq,
    PGSIZE]
  omega

theorem eq_page2pa {pa : Word} {p : Nat} (h : pa.toNat = p * 4096) : pa = page2pa p := by
  have hlt := pa.isLt
  apply BitVec.eq_of_toNat_eq
  rw [toNat_page2pa (by omega), h]

/-- The layout after the kernel image: the directory at page `k`, the `pages` array behind it, the `envs`
array at page `ep`, and free memory from page `e` on. -/
structure BootLayout (k ep e : Nat) : Prop where
  image : 256 ≤ k
  envs : k < ep
  size : ep ≤ k + 129
  free : e = ep + 31

/-- The addresses `boot_alloc` hands out, in pages: a wrap-around would end below `KERNBASE`. -/
private theorem layout_arith {end' n a₀ a₁ a₂ a₃ : Nat} (hend : 0xF0100000 ≤ end')
    (hlt : end' < 4294967296) (hn : n ≤ 65536)
    (h₀ : a₀ = (end' + 4095) / 4096 * 4096 % 4294967296) (hge : 0xF0000000 ≤ a₀)
    (h₁ : a₁ = ((a₀ + 4096) % 4294967296 + 4095) / 4096 * 4096 % 4294967296)
    (h₂ : a₂ = ((a₁ + 8 * n) % 4294967296 + 4095) / 4096 * 4096 % 4294967296)
    (h₃ : a₃ = ((a₂ + 126976) % 4294967296 + 4095) / 4096 * 4096 % 4294967296)
    (hge' : 0xF0000000 ≤ a₃) :
    ∃ k ep, BootLayout k ep (ep + 31) ∧ k = (end' + 4095) / 4096 - 983040 ∧ k < 65536 ∧
      a₀ - 0xF0000000 = k * 4096 ∧ a₂ - 0xF0000000 = ep * 4096 ∧
      (a₃ - 0xF0000000) / 4096 = ep + 31 := by
  obtain ⟨A, hA⟩ : ∃ A, a₀ = A * 4096 := ⟨a₀ / 4096, by omega⟩
  have hA' : 983296 ≤ A ∧ A < 1048576 := by omega
  have h₁' : a₁ = (A + 1) * 4096 ∧ A + 1 < 1048576 := by omega
  obtain ⟨P, hP⟩ : ∃ P, P = (8 * n + 4095) / 4096 := ⟨_, rfl⟩
  have h₂' : a₂ = (A + 1 + P) * 4096 ∧ A + 1 + P < 1048576 := by omega
  exact ⟨A - 983040, A + 1 + P - 983040, ⟨by omega, by omega, by omega, rfl⟩, by omega, by omega,
    by omega, by omega, by omega⟩

theorem memInitPages_layout {pages envs : Word} (hn : b.npages ≤ 65536)
    (hok : memInitPages b = .ok (s, pages, envs)) :
    ∃ ep e, BootLayout s.kernPgdir ep e ∧
      s.kernPgdir = (b.kernEnd.toNat + 4095) / 4096 - 983040 ∧ s.kernPgdir < 65536 ∧
      pages.toNat % 4096 = 0 ∧ envs = page2pa ep ∧ ∃ m : Pmap,
      m = ((⟨b.npages, fun _ => ⟨none, 0#16⟩, none, s.kernPgdir, MMIOBASE, b.mem⟩ :
          Pmap).clearPage s.kernPgdir).store ⟨s.kernPgdir, PDX UVPT⟩
            (page2pa s.kernPgdir ||| PTE_U ||| PTE_P) ∧
        s = pageInit m e := by
  unfold memInitPages at hok
  obtain ⟨pa, hpa, hok⟩ := Except.bind_eq_ok.mp hok
  obtain ⟨pe, hpe, hok⟩ := Except.bind_eq_ok.mp hok
  obtain ⟨pp, hpp, hok⟩ := Except.bind_eq_ok.mp hok
  obtain ⟨pv, hpv, hok⟩ := Except.bind_eq_ok.mp hok
  simp only [Except.pure_eq, Except.ok.injEq, Prod.mk.injEq] at hok
  obtain ⟨hs, rfl, rfl⟩ := hok
  -- the four addresses in page units; a wrap-around would end below `KERNBASE`
  obtain ⟨ha, hpa⟩ := paddr_ok hpa
  obtain ⟨he, hpe⟩ := paddr_ok hpe
  obtain ⟨-, hpv⟩ := paddr_ok hpv
  have hK : KERNBASE.toNat = 0xF0000000 := by decide
  have hend := b.end_ge
  rw [BitVec.le_def] at hend ha he
  rw [hK] at ha he
  have hend' : (0xF0100000#32).toNat = 0xF0100000 := by decide
  have hlt := b.kernEnd.isLt
  have h₀ : (bootAlloc (ROUNDUP b.kernEnd PGSIZE) PGSIZE).1.toNat
      = (b.kernEnd.toNat + 4095) / 4096 * 4096 % 4294967296 := toNat_ROUNDUP _
  have h₁ := toNat_bootAlloc (ROUNDUP b.kernEnd PGSIZE) PGSIZE
  have h₂ := toNat_bootAlloc (bootAlloc (ROUNDUP b.kernEnd PGSIZE) PGSIZE).2
    (sizeofPageInfo * b.npages)
  have h₃ := toNat_bootAlloc (bootAlloc (bootAlloc (ROUNDUP b.kernEnd PGSIZE) PGSIZE).2
    (sizeofPageInfo * b.npages)).2 (sizeofEnv * NENV)
  change (ROUNDUP b.kernEnd PGSIZE).toNat = _ at h₀
  change _ ≤ (ROUNDUP b.kernEnd PGSIZE).toNat at ha
  change pa.toNat = (ROUNDUP b.kernEnd PGSIZE).toNat - _ at hpa
  obtain ⟨k, ep, hlay, hkend, hk, hak, hav, hae⟩ := layout_arith (n := b.npages) (by omega) hlt hn h₀ ha h₁
    h₂ h₃ he
  have hpak : pa = page2pa k := eq_page2pa (by omega)
  have hnum : PGNUM pa = k := by rw [hpak, PGNUM_page2pa (by omega)]
  rw [hnum, hpak] at hs
  have hkern : s.kernPgdir = k := by
    rw [← hs]
    exact (pageInit_inv (fun _ => rfl) rfl).kern
  have hpe' : pe.toNat / PGSIZE = ep + 31 := by
    rw [← hae, hpe]
    rfl
  rw [hpe'] at hs
  rw [hkern]
  have hpages : pp.toNat % 4096 = 0 := by
    refine paddr_aligned hpp ?_
    show (bootAlloc (ROUNDUP b.kernEnd PGSIZE) PGSIZE).2.toNat % PGSIZE = 0
    rw [h₁, PGSIZE]
    omega
  exact ⟨ep, ep + 31, hlay, hkend, hk, hpages, eq_page2pa (hpv.trans hav), _, rfl, hs.symm⟩

/-- After `page_init` the kernel's directory is empty but for its own entry. -/
theorem memInitPages_inv {pages envs : Word} (hn : b.npages ≤ 65536)
    (hok : memInitPages b = .ok (s, pages, envs))
    (hext : ∃ p, OnFreeList s p ∧ EXTPHYSMEM / PGSIZE ≤ p) :
    ∃ ep e, BootLayout s.kernPgdir ep e ∧ e ≤ b.npages ∧ pages.toNat % 4096 = 0 ∧
      envs = page2pa ep ∧ BootInv (bootFree e b.npages) s ∧ s.npages = b.npages ∧
      s.kernPgdir = (b.kernEnd.toNat + 4095) / 4096 - 983040 ∧ s.mmioBase = MMIOBASE ∧
      ∀ v, KernPde (v / 1024) → pteOf s s.kernPgdir v = 0#32 := by
  obtain ⟨ep, e, hlay, hkend, hk, hpages, henvs, m, hm, hs⟩ := memInitPages_layout hn hok
  generalize hkk : s.kernPgdir = k at hlay hkend hk hm
  have hinit : PageInitInv e m m.npages (pageInit m e) :=
    pageInit_inv (by rw [hm]; exact fun _ => rfl) (by rw [hm]; rfl)
  rw [← hs] at hinit
  have hnp : m.npages = b.npages := by rw [hm]; rfl
  have hsn : s.npages = b.npages := hinit.npages.trans hnp
  have hmem : ∀ i, s.mem k i = if i = PDX UVPT then page2pa k ||| PTE_U ||| PTE_P else 0#32 := by
    intro i
    rw [hinit.mem, hm, store_mem]
    by_cases hi : i = PDX UVPT
    · rw [if_pos ⟨rfl, hi⟩, if_pos hi]
    · rw [if_neg fun hc => hi hc.2, if_neg hi, clearPage_mem_self]
  have hfi : FreeInv s (bootFree e b.npages) :=
    ⟨hnp ▸ hinit.linked, fun p _ hp => hinit.unlinked p (hnp ▸ hp)⟩
  have hio : IOPHYSMEM / PGSIZE = 160 := by decide
  have hep := hlay.envs
  have himg := hlay.image
  have hfree := hlay.free
  -- there is a free page above the kernel, so everything below it exists
  have hle : e ≤ b.npages := by
    obtain ⟨p, hp, hge⟩ := hext
    obtain ⟨hlt, hres⟩ := mem_bootFree.mp (hfi.onFreeList_iff.mp hp)
    have hx : EXTPHYSMEM / PGSIZE = 256 := by decide
    unfold bootReserved at hres
    omega
  have habs : ∀ i, KernPde i → ¬ present (s.mem s.kernPgdir i) := by
    intro i hi
    rw [hkk, hmem, if_neg hi.2.2]
    exact not_present_zero
  refine ⟨ep, e, hlay, hle, hpages, henvs, ⟨?_, hfi, ?_, ?_, ?_, ?_, ?_, ?_, ?_, ?_, ?_⟩, hsn,
    hkend, ?_, ?_⟩
  · omega
  · exact fun p hp => hsn ▸ (mem_bootFree.mp hp).1
  · exact fun p hp => hinit.ref p (hnp ▸ hp)
  · omega
  · intro hp
    refine (mem_bootFree.mp hp).2 (Or.inr (Or.inl ?_))
    omega
  · intro i hi
    have hne : i ≠ PDX UVPT := by
      have : PDX UVPT = 957 := by decide
      unfold NUPDE at hi
      omega
    rw [hkk, hmem, if_neg hne]
  · rw [hkk, hmem, if_pos rfl]
  · exact fun i hi hP => absurd hP (habs i hi)
  · exact fun i hi hP => absurd hP (habs i hi)
  · exact fun i _ hi _ hP => absurd hP (habs i hi)
  · exact hinit.mmio.trans (by rw [hm]; rfl)
  · intro v hv
    rw [pteOf, ← hkk, if_neg (habs _ hv)]

/-- The self-tests do not write to `kern_pgdir`. -/
theorem BootInv.selfTested_dir (h : BootInv l s) (ht : SelfTested s s') :
    s'.mem s.kernPgdir = s.mem s.kernPgdir :=
  ht.mem _ fun hc => h.kern_free (h.free.onFreeList_iff.mp hc)

/-- The self-tests keep the kernel's page tables. -/
theorem BootInv.selfTested (h : BootInv l s) (ht : SelfTested s s') :
    ∃ l', l.Perm l' ∧ BootInv l' s' ∧
      (∀ w, KernPde (w / 1024) → pteOf s' s'.kernPgdir w = pteOf s s.kernPgdir w) ∧
      kernTables s' = kernTables s := by
  obtain ⟨l₁, l', hl₁, hl', hperm⟩ := ht.free
  have heq : l₁ = l := hl₁.linked.unique h.free.linked
  subst heq
  have hmem := h.selfTested_dir ht
  refine ⟨l', hperm, ⟨?_, hl', ?_, ?_, ?_, ?_, ?_, ?_, ?_, ?_, ?_⟩, ?_, ?_⟩
  · rw [ht.npages]
    exact h.npages_le
  · intro p hp
    rw [ht.npages]
    exact h.free_lt p (hperm.mem_iff.mpr hp)
  · intro p hp
    rw [ht.ref]
    exact h.free_ref p (hperm.mem_iff.mpr hp)
  · rw [ht.kern, ht.npages]
    exact h.kern_lt
  · rw [ht.kern, ← hperm.mem_iff]
    exact h.kern_free
  · rw [ht.kern, hmem]
    exact h.kern_user
  · rw [ht.kern, hmem]
    exact h.self
  · simp only [tableOf, ht.kern, hmem]
    exact h.fresh
  · simp only [tableOf, ht.kern, hmem, ht.npages, ← hperm.mem_iff]
    exact h.table
  · simp only [tableOf, ht.kern, hmem]
    exact h.inj
  · intro w hw
    unfold pteOf
    rw [ht.kern, hmem]
    split
    · next hP =>
      rw [ht.mem _ fun hc => (h.table _ hw hP).2.1 (h.free.onFreeList_iff.mp hc)]
    · rfl
  · unfold kernTables
    rw [ht.kern, hmem]

/-! ## `npages` never changes -/

private theorem pageAlloc_npages {zero : Bool} {r : Option Nat}
    (h : pageAlloc s zero = .ok (r, s')) : s'.npages = s.npages := by
  unfold pageAlloc at h
  split at h
  · cases h
    rfl
  · split at h
    · obtain ⟨kva, -, h⟩ := Except.bind_eq_ok.mp h
      cases h
      rfl
    · cases h
      rfl

private theorem pgdirWalk_npages {d : Nat} {va : Word} {create : Bool} {r : Option PtePtr}
    (h : pgdirWalk s d va create = .ok (r, s')) : s'.npages = s.npages := by
  simp only [pgdirWalk] at h
  split at h
  · split at h
    · obtain ⟨⟨r₁, s₁⟩, hs₁, h⟩ := Except.bind_eq_ok.mp h
      have hn := pageAlloc_npages hs₁
      cases r₁ with
      | none =>
        cases h
        exact hn
      | some pp =>
        obtain ⟨pt, -, h⟩ := Except.bind_eq_ok.mp h
        cases h
        exact hn
    · cases h
      rfl
  · obtain ⟨pt, -, h⟩ := Except.bind_eq_ok.mp h
    cases h
    rfl

private theorem bootMapPages_npages {d n : Nat} {perm va pa : Word}
    (h : bootMapPages s d perm n va pa = .ok s') : s'.npages = s.npages := by
  induction n generalizing s va pa with
  | zero =>
    cases h
    rfl
  | succ n ih =>
    obtain ⟨⟨r, s₁⟩, hs₁, h⟩ := Except.bind_eq_ok.mp h
    cases r with
    | none => cases h
    | some pte =>
      have hn : s₁.npages = s.npages := pgdirWalk_npages hs₁
      exact (ih h).trans hn

private theorem mmioMapRegion_npages {pa size r : Word} (h : mmioMapRegion s pa size = .ok (r, s')) :
    s'.npages = s.npages := by
  simp only [mmioMapRegion] at h
  split at h
  · cases h
  · obtain ⟨s₁, hs₁, h⟩ := Except.bind_eq_ok.mp h
    rw [BootInv.bootMapRegion_eq] at hs₁
    have hn := bootMapPages_npages hs₁
    simp only [Except.pure_eq, Except.ok.injEq, Prod.mk.injEq] at h
    rw [← h.2]
    exact hn

private theorem clearKernPte_npages {va : Word} (h : clearKernPte s va = .ok s') :
    s'.npages = s.npages := by
  obtain ⟨⟨r, s₁⟩, hs₁, h⟩ := Except.bind_eq_ok.mp h
  cases r with
  | none => cases h
  | some pte =>
    have hn : s₁.npages = s.npages := pgdirWalk_npages hs₁
    cases h
    exact hn

theorem checkMmio_npages (h : checkMmio s = .ok s') : s'.npages = s.npages := by
  obtain ⟨⟨mm₁, s₁⟩, hs₁, h⟩ := Except.bind_eq_ok.mp h
  obtain ⟨⟨mm₂, s₂⟩, hs₂, h⟩ := Except.bind_eq_ok.mp h
  obtain ⟨s₃, hs₃, h⟩ := Except.bind_eq_ok.mp h
  obtain ⟨s₄, hs₄, h⟩ := Except.bind_eq_ok.mp h
  rw [clearKernPte_npages h, clearKernPte_npages hs₄, clearKernPte_npages hs₃,
    mmioMapRegion_npages hs₂, mmioMapRegion_npages hs₁]

theorem memInitMap_npages {pages envs : Word} (h : memInitMap b s pages envs = .ok s') :
    s'.npages = s.npages ∧ s'.npages ≤ 65536 := by
  obtain ⟨s₁, hs₁, h⟩ := Except.bind_eq_ok.mp h
  obtain ⟨s₂, hs₂, h⟩ := Except.bind_eq_ok.mp h
  obtain ⟨_, _, h⟩ := Except.bind_eq_ok.mp h
  obtain ⟨s₃, hs₃, h⟩ := Except.bind_eq_ok.mp h
  obtain ⟨s₄, hs₄, h⟩ := Except.bind_eq_ok.mp h
  obtain ⟨s₅, hs₅, h⟩ := Except.bind_eq_ok.mp h
  have hmp : s₅.npages = s₄.npages := by
    refine Except.foldlM_range_ok (fun _ (t : Pmap) => t.npages = s₄.npages) NCPU hs₅ rfl ?_
    intro i _ t t' ht hstep
    obtain ⟨_, _, hstep⟩ := Except.bind_eq_ok.mp hstep
    exact (bootMapPages_npages hstep).trans ht
  split at h
  · cases h
  · next hle =>
    cases h
    refine ⟨?_, Nat.not_lt.mp hle⟩
    rw [hmp, bootMapPages_npages hs₄, bootMapPages_npages hs₃, bootMapPages_npages hs₂,
      bootMapPages_npages hs₁]

private theorem pageInit_npages (s : Pmap) (e : Nat) : (pageInit s e).npages = s.npages := by
  have hloop : ∀ (l : List Nat) (t : Pmap),
      (l.foldl (pageInitPage e) t).npages = t.npages := by
    intro l
    induction l with
    | nil => exact fun _ => rfl
    | cons i l ih =>
      intro t
      refine (ih _).trans ?_
      unfold pageInitPage
      split <;> rfl
  exact hloop _ s

theorem memInitPages_npages {pages envs : Word}
    (h : memInitPages b = .ok (s, pages, envs)) : s.npages = b.npages := by
  unfold memInitPages at h
  obtain ⟨pa, -, h⟩ := Except.bind_eq_ok.mp h
  obtain ⟨pe, -, h⟩ := Except.bind_eq_ok.mp h
  obtain ⟨pp, -, h⟩ := Except.bind_eq_ok.mp h
  obtain ⟨pv, -, h⟩ := Except.bind_eq_ok.mp h
  simp only [Except.pure_eq, Except.ok.injEq, Prod.mk.injEq] at h
  rw [← h.1, pageInit_npages]
  rfl

/-! ## `mem_init` -/

/-- All of memory behind the kernel is free. -/
theorem bootFree_length {e n : Nat} (he : 160 ≤ e) (hen : e ≤ n) :
    n ≤ (bootFree e n).length + e := by
  have hio : IOPHYSMEM / PGSIZE = 160 := by decide
  have hmp : MPENTRY_PADDR / PGSIZE = 7 := by decide
  have hsub : Finset.Ico e n ⊆ (bootFree e n).toFinset := by
    intro p hp
    obtain ⟨hep, hpn⟩ := Finset.mem_Ico.mp hp
    refine List.mem_toFinset.mpr (mem_bootFree.mpr ⟨hpn, ?_⟩)
    unfold bootReserved
    omega
  have hcard := Finset.card_le_card hsub
  have hlen := List.toFinset_card_le (bootFree e n)
  rw [Nat.card_Ico] at hcard
  omega

theorem kernTables_le (s : Pmap) : kernTables s ≤ 69 := by
  have h := Finset.card_filter_le (Finset.Ico NUPDE 1024) fun i => present (s.mem s.kernPgdir i)
  rw [Nat.card_Ico] at h
  unfold NUPDE at h
  exact h

/-- What `mem_init` leaves, with the `envs` array at page `ep`. -/
structure Booted (l : List Nat) (ep : Nat) (s : Pmap) : Prop where
  inv : BootInv l s
  npages_le : s.npages ≤ 65536
  mmio : ∃ m, 980995 ≤ m ∧ m < 982016 ∧ s.mmioBase = pageAddr m
  /-- Boot code uses a few hundred pages behind the kernel image. -/
  length : s.npages ≤ l.length + kernTables s + s.kernPgdir + 160
  /-- The pages of the `envs` array are not free. -/
  envs : ∀ j < 31, ep + j < s.npages ∧ ep + j ∉ l
  uenvs : ∀ j < 1024, pteOf s s.kernPgdir (UENVSPN + j) = page2pa (ep + j) ||| PTE_P ||| PTE_U
  kernbase : ∀ p < 65536, pteOf s s.kernPgdir (KERNPN + p) = page2pa p ||| PTE_P ||| PTE_W
  guarded : Guarded s

theorem MemInit.booted (h : MemInit b s) : ∃ l ep, Booted l ep s ∧ l ≠ [] ∧
    s.npages = b.npages ∧ s.kernPgdir = (b.kernEnd.toNat + 4095) / 4096 - 983040 ∧
    s.mmioBase = pageAddr 980995 := by
  obtain ⟨s₁, s₂, s₃, s₄, pages, envs, hp, ht, hm, hmap, ht'⟩ := h
  have hn : b.npages ≤ 65536 := by
    obtain ⟨hn, hle⟩ := memInitMap_npages hmap
    rwa [hn, checkMmio_npages hm, ht.npages, memInitPages_npages hp] at hle
  obtain ⟨ep, e, hlay, hle, hpages, rfl, h₁, hn₁, hk₁, hb₁, hz₁⟩ := memInitPages_inv hn hp ht.extmem
  obtain ⟨l₂, hperm, h₂, hpte₂, hk₂⟩ := h₁.selfTested ht
  obtain ⟨l₃, h₃, hf₃, hb₃, hg₃, -⟩ := h₂.checkMmio_ok (ht.mmio.trans hb₁) hm
  obtain ⟨l₄, h₄, hf₄, hle₄, hb₄, hkern, huenvs, hg₄, -⟩ := h₃.memInitMap_ok hmap
  obtain ⟨l₅, hperm', h₅, hpte, hk₅⟩ := h₄.selfTested ht'
  have hbase : s.mmioBase = pageAddr 980995 := by rw [ht'.mmio, hb₄, hb₃]
  refine ⟨l₅, ep, ⟨h₅, ?_, ⟨980995, by omega, by omega, hbase⟩, ?_, ?_, ?_, ?_, ?_⟩, ?_, ?_, ?_,
    hbase⟩
  · rw [ht'.npages]
    exact hle₄
  · have hlen := bootFree_length (e := e) (n := b.npages)
      (by have := hlay.image; have := hlay.envs; have := hlay.free; omega) hle
    have hsize := hlay.size
    have hfree := hlay.free
    have hroom := (hf₃.trans hf₄).room
    rw [ht'.npages, hf₄.npages, hf₃.npages, ht.npages, hn₁, ht'.kern, hf₄.kern, hf₃.kern, ht.kern,
      ← hperm'.length_eq, hk₅]
    rw [← hperm.length_eq] at hroom
    omega
  · intro j hj
    have hio : IOPHYSMEM / PGSIZE = 160 := by decide
    have hi := hlay.image
    have he := hlay.envs
    have hf := hlay.free
    refine ⟨?_, fun hc => ?_⟩
    · rw [ht'.npages, hf₄.npages, hf₃.npages, ht.npages, hn₁]
      omega
    · have hmem := hperm.mem_iff.mpr (hf₃.sub (hf₄.sub (hperm'.mem_iff.mpr hc)))
      refine (mem_bootFree.mp hmem).2 (Or.inr (Or.inl ?_))
      omega
  · intro j hj
    have hw : KernPde ((UENVSPN + j) / 1024) := by
      rw [kernPde_iff]
      unfold UENVSPN
      omega
    rw [hpte _ hw, huenvs j hj, page2pa_eq, page2pa_eq, ← BitVec.ofNat_add, ← Nat.add_mul]
  · intro p hp
    have hw : KernPde ((KERNPN + p) / 1024) := by
      rw [kernPde_iff]
      unfold KERNPN
      omega
    rw [hpte _ hw, hkern p hp, page2pa_eq]
  · have hg₂ : Guarded s₂ := fun w hw => by
      rw [hpte₂ w hw, hz₁ w hw]
      decide
    have henvs : (page2pa ep).toNat % 4096 = 0 := by
      rw [page2pa_eq, BitVec.toNat_ofNat, PGSIZE]
      omega
    intro w hw
    rw [hpte w hw]
    exact hg₄ hpages henvs (hg₃ hg₂) w hw
  · rintro rfl
    obtain ⟨p, hp, -⟩ := ht'.basemem
    exact absurd (hperm'.mem_iff.mp (h₄.free.onFreeList_iff.mp hp)) (List.not_mem_nil)
  · rw [ht'.npages, hf₄.npages, hf₃.npages, ht.npages, hn₁]
  · rw [ht'.kern, hf₄.kern, hf₃.kern, ht.kern, hk₁]

/-- The invariant of `pmap.c` holds when `mem_init` is done; no environment exists yet. -/
theorem Booted.pmapInv {ep : Nat} (h : Booted l ep s) : PmapInv (notFree s) ∅ l s := by
  have hfree : ∀ p, p ∈ notFree s ↔ p ∉ l := fun p => not_congr h.inv.free.onFreeList_iff
  have huv : UENVSPN / 1024 = NUPDE := by decide
  have hmod : UENVSPN % 1024 = 0 := by decide
  have hu := h.uenvs 0 (by omega)
  have hP : present (s.mem s.kernPgdir NUPDE) := by
    by_contra hP
    rw [pteOf, Nat.add_zero, huv, if_neg hP] at hu
    exact not_present_zero (hu ▸ present_or_left _ (present_or_right _ (by decide)))
  rw [pteOf, Nat.add_zero, huv, hmod, if_pos hP] at hu
  have henvs := h.envs 0 (by omega)
  have hppn : ppn (page2pa (ep + 0) ||| PTE_P ||| PTE_U) = ep + 0 := by
    rw [ppn_or_flags _ (by decide), ppn_or_flags _ (by decide),
      ppn_page2pa (henvs.1.trans_le (h.npages_le.trans (by norm_num)))]
  have hkern : KernPde NUPDE := by decide
  have hnodir : ∀ {P : Nat → Prop}, ∀ d ∈ (∅ : Finset Nat), P d := fun d hd => absurd hd (Finset.notMem_empty d)
  refine ⟨h.npages_le, hnodir, h.inv.free, ?_, ?_⟩
  · have hnone : ∀ x, target s ∅ x = none := by
      intro x
      cases x <;> simp [target]
    refine ⟨h.inv.free.linked.nodup, ?_, ?_, ?_, ?_, ?_⟩
    · exact fun p hp => ⟨h.inv.free_lt p hp, fun hn => (hfree p).mp hn hp⟩
    · intro p hp
      show (s.pages p).ppRef.toNat = 0
      rw [h.inv.free_ref p hp]
      rfl
    · intro p hp
      have hl : p ∈ l := not_not.mp fun hc => hp.2 ((hfree p).mpr hc)
      show (s.pages p).ppRef.toNat = refCount _ (target s ∅) p
      rw [h.inv.free_ref p hl, refCount_eq_zero.mpr fun x _ => by rw [hnone]; rintro ⟨⟩]
      rfl
    · intro x _ p hx
      change target s ∅ x = some p at hx
      rw [hnone] at hx
      cases hx
    · intro x _ _ p hx
      change target s ∅ x = some p at hx
      rw [hnone] at hx
      cases hx
  · refine ⟨hnodir, hnodir, hnodir, hnodir, ?_, h.inv.kern_user, ?_, ?_, ?_⟩
    · exact ⟨(hfree _).mpr h.inv.kern_free, h.inv.kern_lt⟩
    · intro i hi hi' hPi
      by_cases huvpt : i = PDX UVPT
      · subst huvpt
        have hself : ppn (s.mem s.kernPgdir (PDX UVPT)) = s.kernPgdir := by
          rw [h.inv.self, ppn_or_flags _ (by decide), ppn_or_flags _ (by decide),
            ppn_page2pa (h.inv.kern_lt.trans_le h.inv.npages_le)]
        rw [hself]
        exact ⟨(hfree _).mpr h.inv.kern_free, h.inv.kern_lt⟩
      · obtain ⟨hlt, hnl, -⟩ := h.inv.table i ⟨hi, hi', huvpt⟩ hPi
        exact ⟨(hfree _).mpr hnl, hlt⟩
    · intro i hi hi' hne hPi j hj
      have hdiv : (i * 1024 + j) / 1024 = i := by omega
      have hmod : (i * 1024 + j) % 1024 = j := by omega
      have hg := h.guarded (i * 1024 + j) (by rw [hdiv]; exact ⟨hi, hi', hne⟩)
      rwa [pteOf, hdiv, hmod, if_pos hPi] at hg
    · rw [hu, hppn]
      exact ⟨hP, present_or_left _ (present_or_right _ (by decide)), (hfree _).mpr henvs.2, henvs.1⟩

theorem MemInit.runStart (h : MemInit b s) : RunStart s := by
  obtain ⟨l, ep, hb, -⟩ := h.booted
  exact ⟨l, hb.pmapInv⟩

end Jos
