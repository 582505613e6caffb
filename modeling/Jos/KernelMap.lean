import Jos.Access
import Jos.Allocator

/-!
# The address map of the kernel

When `mem_init` is done, the translation through `kern_pgdir` of every virtual address is the one documented in
`inc/memlayout.h` (`KernelMap`): nothing below `UTOP`, read-only windows on `envs` and `pages`, the directory at
`UVPT`, nothing in the window of `MMIOBASE`, a stack for each CPU with a gap below it, and all of physical
memory at `KERNBASE`. The windows follow each other without a gap, so every address is in one of them.
-/

namespace Jos

open Pmap BootInv

variable {l : List Nat} {s s' : Pmap} {b : BootInfo}

/-! ## Translation -/

/-- Where `va` leads through directory `d`: the physical address and the flags of the page table entry. -/
def xlate (s : Pmap) (d : Nat) (va : Word) : Option (Word × Word) :=
  let pte := pteOf s d (PGNUM va)
  if present pte then some (PTE_ADDR pte + BitVec.ofNat 32 (va.toNat % PGSIZE), pte &&& 0xFFF#32)
  else none

theorem xlate_of_zero {d : Nat} {va : Word} (h : pteOf s d (PGNUM va) = 0#32) : xlate s d va = none := by
  simp only [xlate, h]
  exact if_neg not_present_zero

/-- Flags do not reach the address bits. -/
theorem and_low_of_flags {f : Word} (h : f.toNat < 4096) : f &&& 0xFFF#32 = f := by
  apply BitVec.eq_of_toNat_eq
  rw [BitVec.toNat_and]
  exact (Nat.and_two_pow_sub_one_eq_mod _ 12).trans (Nat.mod_eq_of_lt h)

/-- The parts of an entry made of an aligned address and flags. -/
theorem PTE_ADDR_or {pa f : Word} (hpa : pa.toNat % 4096 = 0) (hf : f.toNat < 4096) :
    PTE_ADDR (pa ||| f) = pa ∧ (pa ||| f) &&& 0xFFF#32 = f := by
  have hlow : pa &&& 0xFFF#32 = 0#32 := and_flags hpa (by decide)
  have hflags := and_low_of_flags hf
  constructor
  · unfold PTE_ADDR
    ext i hi
    have hbit := congrArg (fun w : Word => w.getLsbD i) hlow
    have hbit' := congrArg (fun w : Word => w.getLsbD i) hflags
    simp only [BitVec.getLsbD_and] at hbit hbit'
    simp only [BitVec.getElem_and, BitVec.getElem_or, BitVec.getElem_not]
    rw [← BitVec.getLsbD_eq_getElem, ← BitVec.getLsbD_eq_getElem, ← BitVec.getLsbD_eq_getElem]
    cases hp : pa.getLsbD i <;> cases hf : f.getLsbD i <;> cases hm : (0xFFF#32).getLsbD i <;> simp_all
  · rw [BitVec.and_or_distrib_right, hlow, hflags, BitVec.zero_or]

/-- A window of consecutive pages maps its addresses in order. -/
theorem xlate_window {d v : Nat} {va start base perm : Word} (hstart : start = pageAddr v)
    (hv : v < 1048576) (hva : start ≤ va) (hbase : base.toNat % 4096 = 0) (hperm : perm.toNat < 4096)
    (hpte : pteOf s d (PGNUM va)
      = (base + BitVec.ofNat 32 ((PGNUM va - v) * PGSIZE)) ||| PTE_P ||| perm) :
    xlate s d va = some (base + (va - start), PTE_P ||| perm) := by
  have hle : v * 4096 ≤ va.toNat := by
    rwa [BitVec.le_def, hstart, toNat_pageAddr hv] at hva
  have hlt := va.isLt
  have hnum := PGNUM_eq va
  have hal : (base + BitVec.ofNat 32 ((PGNUM va - v) * PGSIZE)).toNat % 4096 = 0 := by
    rw [BitVec.toNat_add, BitVec.toNat_ofNat, PGSIZE]
    omega
  have hflags : (PTE_P ||| perm).toNat < 4096 := by
    rw [BitVec.toNat_or]
    exact Nat.or_lt_two_pow (n := 12) (by decide) hperm
  obtain ⟨haddr, hlow⟩ := PTE_ADDR_or hal hflags
  have hP : present (pteOf s d (PGNUM va)) := by
    rw [hpte]
    exact present_or_left _ (present_or_right _ (by decide))
  simp only [xlate]
  rw [if_pos hP, hpte, BitVec.or_assoc, haddr, hlow]
  congr 2
  rw [BitVec.add_assoc]
  congr 1
  apply BitVec.eq_of_toNat_eq
  rw [BitVec.toNat_add, BitVec.toNat_sub, hstart, toNat_pageAddr hv, BitVec.toNat_ofNat, BitVec.toNat_ofNat,
    PGSIZE, hnum]
  omega

/-! ## The map -/

/-- The top of the stack of CPU `i`. -/
def kstacktop (i : Nat) : Word := KSTACKTOP - BitVec.ofNat 32 (i * (KSTKSIZE + KSTKGAP))

/-- Address `va` lies in the stack of CPU `i`. -/
def OnKstack (i : Nat) (va : Word) : Prop := kstacktop i - BitVec.ofNat 32 KSTKSIZE ≤ va ∧ va < kstacktop i

/-- The virtual memory map of `inc/memlayout.h`, with the arrays `pages` and `envs` at these physical
addresses. -/
structure KernelMap (b : BootInfo) (pages envs : Word) (s : Pmap) : Prop where
  user : ∀ va, va < UTOP → xlate s s.kernPgdir va = none
  uenvs : ∀ va, UENVS ≤ va → va < UPAGES →
    xlate s s.kernPgdir va = some (envs + (va - UENVS), PTE_P ||| PTE_U)
  upages : ∀ va, UPAGES ≤ va → va < UVPT →
    xlate s s.kernPgdir va = some (pages + (va - UPAGES), PTE_P ||| PTE_U)
  /-- At `UVPT` the directory is its own page table. -/
  uvpt : s.mem s.kernPgdir (PDX UVPT) = page2pa s.kernPgdir ||| PTE_U ||| PTE_P ∧
    ∀ va, UVPT ≤ va → va < ULIM → pteOf s s.kernPgdir (PGNUM va) = s.mem s.kernPgdir (PTX va)
  mmio : ∀ va, MMIOBASE ≤ va → va < MMIOLIM → xlate s s.kernPgdir va = none
  kstacks : ∀ i < NCPU, ∀ va, OnKstack i va → xlate s s.kernPgdir va
    = some (b.percpuKstacks i - KERNBASE + (va - (kstacktop i - BitVec.ofNat 32 KSTKSIZE)), PTE_P ||| PTE_W)
  gaps : ∀ va, MMIOLIM ≤ va → va < KSTACKTOP → (∀ i < NCPU, ¬ OnKstack i va) →
    xlate s s.kernPgdir va = none
  kernbase : ∀ va, KERNBASE ≤ va → xlate s s.kernPgdir va = some (va - KERNBASE, PTE_P ||| PTE_W)

/-! ## `mem_init` builds it -/

/-- The directory is its own page table at `UVPT`. -/
theorem BootInv.tableOf_UVPT (h : BootInv l s) : tableOf s s.kernPgdir (PDX UVPT) = s.kernPgdir := by
  rw [tableOf, h.self, ppn_or_flags _ (by decide), ppn_or_flags _ (by decide),
    ppn_page2pa (h.kern_lt.trans_le h.npages_le)]

/-- The page table entries that `mem_init` leaves, by virtual page. -/
structure KernPtes (b : BootInfo) (pages envs : Word) (s : Pmap) : Prop where
  uenvs : ∀ j < 1024, pteOf s s.kernPgdir (977920 + j)
    = (envs + BitVec.ofNat 32 (j * PGSIZE)) ||| PTE_P ||| PTE_U
  upages : ∀ j < 1024, pteOf s s.kernPgdir (978944 + j)
    = (pages + BitVec.ofNat 32 (j * PGSIZE)) ||| PTE_P ||| PTE_U
  kstacks : ∀ i < NCPU, ∃ pa, paddr (b.percpuKstacks i) = .ok pa ∧ ∀ w, InKstack i w →
    pteOf s s.kernPgdir w
      = (pa + BitVec.ofNat 32 ((w - (983032 - i * 16)) * PGSIZE)) ||| PTE_P ||| PTE_W
  kernbase : ∀ p < 65536, pteOf s s.kernPgdir (983040 + p)
    = BitVec.ofNat 32 (p * PGSIZE) ||| PTE_P ||| PTE_W
  rest : ∀ w, 980992 ≤ w → w < 983040 → (∀ i < NCPU, ¬ InKstack i w) → pteOf s s.kernPgdir w = 0#32
  /-- `check_page` has made the page table of the window of `MMIOBASE`. -/
  mmio : present (s.mem s.kernPgdir (PDX MMIOBASE))

theorem MemInit.kernPtes (h : MemInit b s) : ∃ s₁ pages envs l,
    memInitPages b = .ok (s₁, pages, envs) ∧ pages.toNat % 4096 = 0 ∧ envs.toNat % 4096 = 0 ∧
      BootInv l s ∧ KernPtes b pages envs s := by
  obtain ⟨s₁, s₂, s₃, s₄, pages, envs, hp, ht, hm, hmap, ht'⟩ := h
  have hn : b.npages ≤ 65536 := by
    obtain ⟨hn, hle⟩ := memInitMap_npages hmap
    rwa [hn, checkMmio_npages hm, ht.npages, memInitPages_npages hp] at hle
  obtain ⟨ep, e, hlay, hle, hpages, rfl, h₁, hn₁, -, hb₁, hz₁⟩ := memInitPages_inv hn hp ht.extmem
  obtain ⟨l₂, -, h₂, hpte₂, -⟩ := h₁.selfTested ht
  obtain ⟨l₃, h₃, hf₃, -, -, hpte₃, hP₃⟩ := h₂.checkMmio_ok (ht.mmio.trans hb₁) hm
  obtain ⟨l₄, h₄, -, -, -, hkern, huenvs, -, hupages, hstacks, hrest, hpresent⟩ := h₃.memInitMap_ok hmap
  obtain ⟨l₅, -, h₅, hpte, -⟩ := h₄.selfTested ht'
  have henvs : (page2pa ep).toNat % 4096 = 0 := by
    rw [page2pa_eq, BitVec.toNat_ofNat, PGSIZE]
    omega
  refine ⟨s₁, pages, page2pa ep, l₅, hp, hpages, henvs, h₅, ?_, ?_, fun i hi => ?_, ?_, ?_, ?_⟩
  · intro j hj
    rw [hpte _ (kernPde_iff.mpr (by omega))]
    exact huenvs j hj
  · intro j hj
    rw [hpte _ (kernPde_iff.mpr (by omega))]
    exact hupages j hj
  · obtain ⟨pa, hpa, hstack⟩ := hstacks i hi
    refine ⟨pa, hpa, fun w hw => ?_⟩
    have hkw : KernPde (w / 1024) := by
      rw [kernPde_iff]
      unfold InKstack at hw
      unfold NCPU at hi
      omega
    rw [hpte w hkw, hstack w hw]
  · intro p hp
    rw [hpte _ (kernPde_iff.mpr (by omega))]
    exact hkern p hp
  · intro w hlo hhi hout
    have hkw : KernPde (w / 1024) := kernPde_iff.mpr (by omega)
    rw [hpte w hkw, hrest w hkw (by omega) hhi hout, hf₃.kern, hpte₃ w hkw, hpte₂ w hkw]
    split
    · rfl
    · exact hz₁ w hkw
  · rw [ht'.kern, h₄.selfTested_dir ht']
    exact hpresent _ (by rw [hf₃.kern]; exact hP₃)

theorem kstacktop_eq {i : Nat} (hi : i < NCPU) : kstacktop i = pageAddr (983040 - i * 16) ∧
    kstacktop i - BitVec.ofNat 32 KSTKSIZE = pageAddr (983032 - i * 16) := by
  unfold NCPU at hi
  interval_cases i <;> decide

theorem onKstack_iff {i : Nat} {va : Word} (hi : i < NCPU) : OnKstack i va ↔
    (983032 - i * 16) * 4096 ≤ va.toNat ∧ va.toNat < (983040 - i * 16) * 4096 := by
  obtain ⟨htop, hbot⟩ := kstacktop_eq hi
  unfold NCPU at hi
  rw [OnKstack, hbot, htop, BitVec.le_def, BitVec.lt_def, toNat_pageAddr (by omega), toNat_pageAddr (by omega)]

theorem inKstack_iff {i : Nat} {va : Word} (hi : i < NCPU) : InKstack i (PGNUM va) ↔
    (983032 - i * 16) * 4096 ≤ va.toNat ∧ va.toNat < (983040 - i * 16) * 4096 := by
  have hnum := PGNUM_eq va
  unfold NCPU at hi
  unfold InKstack
  omega

theorem KernPtes.kernelMap {pages envs : Word} (h : KernPtes b pages envs s) (hinv : BootInv l s)
    (hpages : pages.toNat % 4096 = 0) (henvs : envs.toNat % 4096 = 0) : KernelMap b pages envs s where
  user va hva := by
    refine xlate_of_zero ?_
    rw [pteOf_PGNUM, hinv.kern_user _ (PDX_lt_of_lt_UTOP hva), if_neg not_present_zero]
  uenvs va hlo hhi := by
    have hnum := PGNUM_eq va
    have hlo' : UENVS.toNat ≤ va.toNat := hlo
    have hhi' : va.toNat < UPAGES.toNat := hhi
    have h₁ : UENVS.toNat = 977920 * 4096 := by decide
    have h₂ : UPAGES.toNat = 978944 * 4096 := by decide
    have hpte := h.uenvs (PGNUM va - 977920) (by omega)
    rw [show 977920 + (PGNUM va - 977920) = PGNUM va by omega] at hpte
    exact xlate_window (v := 977920) (by decide) (by omega) hlo henvs (by decide) hpte
  upages va hlo hhi := by
    have hnum := PGNUM_eq va
    have hlo' : UPAGES.toNat ≤ va.toNat := hlo
    have hhi' : va.toNat < UVPT.toNat := hhi
    have h₁ : UPAGES.toNat = 978944 * 4096 := by decide
    have h₂ : UVPT.toNat = 979968 * 4096 := by decide
    have hpte := h.upages (PGNUM va - 978944) (by omega)
    rw [show 978944 + (PGNUM va - 978944) = PGNUM va by omega] at hpte
    exact xlate_window (v := 978944) (by decide) (by omega) hlo hpages (by decide) hpte
  uvpt := by
    refine ⟨hinv.self, fun va hlo hhi => ?_⟩
    have hlo' : UVPT.toNat ≤ va.toNat := hlo
    have hhi' : va.toNat < ULIM.toNat := hhi
    have h₁ : UVPT.toNat = 979968 * 4096 := by decide
    have h₂ : ULIM.toNat = 980992 * 4096 := by decide
    have hpdx : PDX va = PDX UVPT := by
      rw [PDX_eq, show PDX UVPT = 957 by decide]
      omega
    have hP : present (s.mem s.kernPgdir (PDX UVPT)) := by
      rw [hinv.self]
      exact present_or_right _ (by decide)
    rw [pteOf_PGNUM, hpdx, if_pos hP, hinv.tableOf_UVPT]
  mmio va hlo hhi := by
    have hnum := PGNUM_eq va
    have hlo' : MMIOBASE.toNat ≤ va.toNat := hlo
    have hhi' : va.toNat < MMIOLIM.toNat := hhi
    have h₁ : MMIOBASE.toNat = 980992 * 4096 := by decide
    have h₂ : MMIOLIM.toNat = 982016 * 4096 := by decide
    refine xlate_of_zero (h.rest _ (by omega) (by omega) fun i hi hc => ?_)
    unfold InKstack at hc
    unfold NCPU at hi
    omega
  kstacks i hi va hva := by
    obtain ⟨pa, hpa, hstack⟩ := h.kstacks i hi
    have hpa' := (paddr_ok hpa).2
    have hge := (paddr_ok hpa).1
    have hnum := PGNUM_eq va
    obtain ⟨htop, hbot⟩ := kstacktop_eq hi
    obtain ⟨hlo, hhi⟩ := (onKstack_iff hi).mp hva
    have hpte := hstack (PGNUM va) ((inKstack_iff hi).mpr ⟨hlo, hhi⟩)
    have hal : pa.toNat % 4096 = 0 := paddr_aligned hpa (b.kstacks_aligned i hi)
    have heq : pa = b.percpuKstacks i - KERNBASE := by
      unfold paddr at hpa
      rw [if_neg (BitVec.not_lt.mpr hge)] at hpa
      exact (Except.ok.inj hpa).symm
    rw [← heq]
    exact xlate_window (v := 983032 - i * 16) hbot (by omega) hva.1 hal (by decide) hpte
  gaps va hlo hhi hout := by
    have hnum := PGNUM_eq va
    have hlo' : MMIOLIM.toNat ≤ va.toNat := hlo
    have hhi' : va.toNat < KSTACKTOP.toNat := hhi
    have h₁ : MMIOLIM.toNat = 982016 * 4096 := by decide
    have h₂ : KSTACKTOP.toNat = 983040 * 4096 := by decide
    refine xlate_of_zero (h.rest _ (by omega) (by omega) fun i hi hc => hout i hi ?_)
    exact (onKstack_iff hi).mpr ((inKstack_iff hi).mp hc)
  kernbase va hlo := by
    have hnum := PGNUM_eq va
    have hlt := va.isLt
    have hlo' : KERNBASE.toNat ≤ va.toNat := hlo
    have h₁ : KERNBASE.toNat = 983040 * 4096 := by decide
    have hpte := h.kernbase (PGNUM va - 983040) (by omega)
    rw [show 983040 + (PGNUM va - 983040) = PGNUM va by omega, ← BitVec.zero_add (BitVec.ofNat 32 _)] at hpte
    have hx : xlate s s.kernPgdir va = some (0#32 + (va - KERNBASE), PTE_P ||| PTE_W) :=
      xlate_window (v := 983040) (by decide) (by omega) hlo (by decide) (by decide) hpte
    rwa [BitVec.zero_add] at hx

/-- The map `mem_init` builds is the documented one, for every amount of memory and kernel image with which it
succeeds. -/
theorem memInit_kernelMap (h : MemInit b s) : ∃ s₁ pages envs,
    memInitPages b = .ok (s₁, pages, envs) ∧ KernelMap b pages envs s := by
  obtain ⟨s₁, pages, envs, l, hp, hpages, henvs, hinv, hptes⟩ := h.kernPtes
  exact ⟨s₁, pages, envs, hp, hptes.kernelMap hinv hpages henvs⟩

theorem memInit_kernelMap_demoBoot : ∃ s s₁ pages envs, MemInit demoBoot s ∧
    memInitPages demoBoot = .ok (s₁, pages, envs) ∧ KernelMap demoBoot pages envs s := by
  obtain ⟨s, h⟩ := demoBoot_memInit
  obtain ⟨s₁, pages, envs, hp, hmap⟩ := memInit_kernelMap h
  exact ⟨s, s₁, pages, envs, h, hp, hmap⟩

end Jos
