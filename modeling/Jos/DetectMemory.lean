import Jos.Allocator

/-!
# The size of memory and the free pages

`i386_detect_memory` computes the number of pages from the CMOS: base memory from one 16-bit word, all of memory
from another two. `page_init` then frees the pages that are not in use.

Two things go wrong on machines the code was not tried on. `page_init` never looks at `npages_basemem`: it
frees all of base memory up to the I/O hole, also the part at its top that the BIOS keeps for itself
(`pageInit_documented_iff`). And nothing limits `npages` to the 256 MB that the kernel can address:
pages behind that are freed as well, and `KADDR` only compares with `npages` (`freeList_addressable_iff`).
-/

namespace Jos

open Pmap

/-! ## `i386_detect_memory` -/

def NVRAM_BASELO : Nat := 0xe + 7
def NVRAM_EXTLO : Nat := 0xe + 9
def NVRAM_EXT16LO : Nat := 0xe + 38

/-- `nvram_read(r)`, where `cmos` is what `mc146818_read` returns. -/
def nvramRead (cmos : Nat → BitVec 8) (r : Nat) : Nat := (cmos r).toNat ||| (cmos (r + 1)).toNat <<< 8

/-- What `i386_detect_memory` stores. -/
structure Detected where
  npages : Nat
  npagesBasemem : Nat
deriving DecidableEq

/-- `i386_detect_memory`. The CMOS counts in units of 1 KB and, above 16 MB, of 64 KB. -/
def i386DetectMemory (cmos : Nat → BitVec 8) : Detected :=
  let basemem := nvramRead cmos NVRAM_BASELO
  let extmem := nvramRead cmos NVRAM_EXTLO
  let ext16mem := nvramRead cmos NVRAM_EXT16LO * 64
  let totalmem :=
    if ext16mem ≠ 0 then 16 * 1024 + ext16mem
    else if extmem ≠ 0 then 1 * 1024 + extmem
    else basemem
  { npages := totalmem / (PGSIZE / 1024), npagesBasemem := basemem / (PGSIZE / 1024) }

/-! ## The pages `page_init` frees -/

/-- The pages the comment in `page_init` calls free: the rest of base memory and what is behind the kernel,
but for the page of the application processors' entry code. -/
def DocumentedFree (npagesBasemem kernelEndPage i : Nat) : Prop :=
  i ≠ 0 ∧ i ≠ MPENTRY_PADDR / PGSIZE ∧ (i < npagesBasemem ∨ kernelEndPage ≤ i)

/-- The free list has the documented pages, each once, and all others are marked as in use. -/
structure FreesDocumented (npagesBasemem kernelEndPage : Nat) (s : Pmap) : Prop where
  free : ∃ l : List Nat, Linked (fun p => (s.pages p).ppLink) s.pageFreeList l ∧ l.Nodup ∧
    ∀ i, i ∈ l ↔ i < s.npages ∧ DocumentedFree npagesBasemem kernelEndPage i
  used : ∀ i < s.npages, ¬ DocumentedFree npagesBasemem kernelEndPage i → s.pages i = ⟨none, 1#16⟩

section PageInit

variable {s : Pmap} {e nb : Nat}

/-- The pages in use after `n` iterations of the loop of `page_init`. -/
theorem pageInit_loop_reserved (s : Pmap) (e n : Nat) {i : Nat} (hi : i < n) (hres : bootReserved e i) :
    ((List.range n).foldl (pageInitPage e) s).pages i = ⟨none, 1#16⟩ := by
  induction n with
  | zero => exact absurd hi (Nat.not_lt_zero i)
  | succ n ih =>
    rw [List.range_succ, List.foldl_append, List.foldl_cons, List.foldl_nil]
    generalize (List.range n).foldl (pageInitPage e) s = t at ih ⊢
    rw [pageInitPage_pages]
    by_cases hin : i = n
    · rw [if_pos hin, if_pos (hin ▸ hres)]
    · rw [if_neg hin, ih (by omega)]

/-- `page_init` from empty arrays: the free list is `bootFree`, and the pages off it are in use. -/
theorem pageInit_spec (hlink : ∀ p, (s.pages p).ppLink = none) (hhead : s.pageFreeList = none) :
    (pageInit s e).npages = s.npages ∧
      Linked (fun p => ((pageInit s e).pages p).ppLink) (pageInit s e).pageFreeList (bootFree e s.npages) ∧
      ∀ i < s.npages, bootReserved e i → (pageInit s e).pages i = ⟨none, 1#16⟩ := by
  have hinv := pageInit_inv (e := e) hlink hhead
  exact ⟨hinv.npages, hinv.linked, fun i hi hres => pageInit_loop_reserved s e s.npages hi hres⟩

/-- The pages `page_init` frees are the documented ones, and those between the end of base memory and the I/O
hole. -/
theorem not_bootReserved_iff (hb : nb ≤ IOPHYSMEM / PGSIZE) (he : EXTPHYSMEM / PGSIZE ≤ e) {i : Nat} :
    ¬ bootReserved e i ↔ DocumentedFree nb e i ∨
      (nb ≤ i ∧ i < IOPHYSMEM / PGSIZE ∧ i ≠ 0 ∧ i ≠ MPENTRY_PADDR / PGSIZE) := by
  have hio : IOPHYSMEM / PGSIZE = 160 := by decide
  have hmp : MPENTRY_PADDR / PGSIZE = 7 := by decide
  have hext : EXTPHYSMEM / PGSIZE = 256 := by decide
  rw [bootReserved, DocumentedFree, hio, hmp]
  omega

/-- A page between the end of base memory and the I/O hole is freed, though it is not documented as free. -/
theorem not_freesDocumented (hlink : ∀ p, (s.pages p).ppLink = none) (hhead : s.pageFreeList = none)
    (hb : nb ≤ IOPHYSMEM / PGSIZE) (he : EXTPHYSMEM / PGSIZE ≤ e) {i : Nat} (hi : i < s.npages)
    (hlow : nb ≤ i) (hhigh : i < IOPHYSMEM / PGSIZE) (h0 : i ≠ 0) (h7 : i ≠ MPENTRY_PADDR / PGSIZE) :
    ¬ FreesDocumented nb e (pageInit s e) := by
  obtain ⟨hn, hlinked, -⟩ := pageInit_spec (e := e) hlink hhead
  intro h
  obtain ⟨l, hl, -, hmem⟩ := h.free
  rw [← hlinked.unique hl] at hmem
  have hfree : i ∈ bootFree e s.npages :=
    mem_bootFree.mpr ⟨hi, (not_bootReserved_iff hb he).mpr (Or.inr ⟨hlow, hhigh, h0, h7⟩)⟩
  have hwhere := ((hmem i).mp hfree).2.2.2
  have hio : IOPHYSMEM / PGSIZE = 160 := by decide
  have hext : EXTPHYSMEM / PGSIZE = 256 := by decide
  omega

/-- For every contents of the CMOS that reports at most 640 KB of base memory, every number of pages and every
kernel: `page_init` frees exactly the documented pages if and only if no page between the end of base memory
and the I/O hole exists, pages 0 and 7 apart. -/
theorem pageInit_documented_iff (cmos : Nat → BitVec 8) (s : Pmap) (e : Nat)
    (hlink : ∀ p, (s.pages p).ppLink = none) (hhead : s.pageFreeList = none)
    (hb : (i386DetectMemory cmos).npagesBasemem ≤ IOPHYSMEM / PGSIZE) (he : EXTPHYSMEM / PGSIZE ≤ e) :
    FreesDocumented (i386DetectMemory cmos).npagesBasemem e (pageInit s e) ↔
      ∀ i < s.npages, (i386DetectMemory cmos).npagesBasemem ≤ i → i < IOPHYSMEM / PGSIZE →
        i = 0 ∨ i = MPENTRY_PADDR / PGSIZE := by
  constructor
  · intro h i hi hlow hhigh
    by_contra hne
    rw [not_or] at hne
    exact not_freesDocumented hlink hhead hb he hi hlow hhigh hne.1 hne.2 h
  · intro h
    obtain ⟨hn, hlinked, hres⟩ := pageInit_spec (e := e) hlink hhead
    have hdoc : ∀ i < s.npages, ¬ bootReserved e i ↔
        DocumentedFree (i386DetectMemory cmos).npagesBasemem e i := by
      intro i hi
      rw [not_bootReserved_iff hb he]
      refine ⟨?_, Or.inl⟩
      rintro (hd | ⟨hlow, hhigh, h0, h7⟩)
      · exact hd
      · rcases h i hi hlow hhigh with h' | h'
        · exact absurd h' h0
        · exact absurd h' h7
    refine ⟨⟨bootFree e s.npages, hlinked, hlinked.nodup, fun i => ?_⟩, fun i hi hd => ?_⟩
    · rw [hn, mem_bootFree]
      constructor
      · rintro ⟨hi, hr⟩
        exact ⟨hi, (hdoc i hi).mp hr⟩
      · rintro ⟨hi, hd⟩
        exact ⟨hi, (hdoc i hi).mpr hd⟩
    · rw [hn] at hi
      refine hres i hi ?_
      by_contra hr
      exact hd ((hdoc i hi).mp hr)

end PageInit

/-! ### A machine with 64 MB -/

/-- The CMOS of a machine with 64 MB of memory of which `basemem` KB, below 768, are base memory. -/
def cmos64 (basemem : BitVec 8) (r : Nat) : BitVec 8 :=
  if r = NVRAM_BASELO then basemem
  else if r = NVRAM_BASELO + 1 then 2
  else if r = NVRAM_EXT16LO + 1 then 3
  else 0

/-- Its page tables before `page_init`. -/
def pages64 : Pmap := ⟨16384, fun _ => ⟨none, 0#16⟩, none, 640, MMIOBASE, fun _ _ => 0#32⟩

/-- With 640 KB of base memory the documented pages are freed. -/
theorem pageInit_documented_640 : FreesDocumented 160 704 (pageInit pages64 704) := by
  refine (pageInit_documented_iff (cmos64 0x80) pages64 704 (fun _ => rfl) rfl (by decide) (by decide)).mpr ?_
  intro i _ hlow hhigh
  have hnb : (i386DetectMemory (cmos64 0x80)).npagesBasemem = 160 := by decide
  have hio : IOPHYSMEM / PGSIZE = 160 := by decide
  omega

/-- With 639 KB of base memory, the last of 640 being the BIOS's, page 159 is freed as well. -/
theorem pageInit_frees_ebda :
    (i386DetectMemory (cmos64 0x7f)).npages = pages64.npages ∧
      ¬ FreesDocumented (i386DetectMemory (cmos64 0x7f)).npagesBasemem 704 (pageInit pages64 704) := by
  refine ⟨by decide, ?_⟩
  have hi : 159 < pages64.npages := by decide
  exact not_freesDocumented (fun _ => rfl) rfl (by decide) (by decide) hi (by decide) (by decide) (by decide)
    (by decide)

/-! ## Kernel addresses of free pages -/

/-- `KADDR(pa)`, the address itself. -/
def KADDR (s : Pmap) (pa : Word) : Except Panic Word :=
  if PGNUM pa ≥ s.npages then throw .kaddr else pure (pa + KERNBASE)

/-- The page `kaddr` finds is the one at that address. -/
theorem kaddr_eq_KADDR (s : Pmap) (pa : Word) :
    kaddr s pa = (KADDR s pa).map fun va => PGNUM (va - KERNBASE) := by
  rw [kaddr, KADDR]
  by_cases h : s.npages ≤ PGNUM pa
  · rw [if_pos h, if_pos h]
    rfl
  · rw [if_neg h, if_neg h]
    show _ = Except.ok (PGNUM (pa + KERNBASE - KERNBASE))
    rw [BitVec.add_sub_cancel]
    rfl

/-- Page `pp` has a kernel address, which leads back to it. -/
structure Addressable (s : Pmap) (pp : Nat) (va : Word) : Prop where
  lt : (page2pa pp).toNat + KERNBASE.toNat < 2 ^ 32
  kva : KADDR s (page2pa pp) = .ok va
  ge : KERNBASE ≤ va
  paddr : paddr va = .ok (page2pa pp)
  pa2page : pa2page s (page2pa pp) = .ok pp

/-- Every free page has a kernel address, and those of two pages do not overlap. -/
def FreeAddressable (s : Pmap) : Prop :=
  (∀ pp, OnFreeList s pp → ∃ va, Addressable s pp va) ∧
    ∀ pp qq va wa, OnFreeList s pp → OnFreeList s qq → pp ≠ qq → Addressable s pp va → Addressable s qq wa →
      va.toNat + PGSIZE ≤ wa.toNat ∨ wa.toNat + PGSIZE ≤ va.toNat

section Addressable

variable {s : Pmap} {pp qq : Nat} {va wa : Word}

theorem Addressable.toNat_eq (h : Addressable s pp va) : va.toNat = (page2pa pp).toNat + KERNBASE.toNat := by
  have hkva := h.kva
  rw [KADDR] at hkva
  split at hkva
  · cases hkva
  · obtain rfl := Except.ok.inj hkva
    rw [BitVec.toNat_add, Nat.mod_eq_of_lt h.lt]

/-- The pages of the first 256 MB have kernel addresses. -/
theorem addressable_of_lt (h : pp < 65536) (hn : pp < s.npages) :
    Addressable s pp (page2pa pp + KERNBASE) := by
  have hpa : (page2pa pp).toNat = pp * 4096 := toNat_page2pa (by omega)
  have hK : KERNBASE.toNat = 0xF0000000 := by decide
  have hnum : PGNUM (page2pa pp) = pp := PGNUM_page2pa (by omega)
  have hge : KERNBASE ≤ page2pa pp + KERNBASE := by
    rw [BitVec.le_def, BitVec.toNat_add, hpa, hK]
    omega
  exact {
    lt := by omega
    kva := by
      rw [KADDR, hnum, if_neg (by omega)]
      rfl
    ge := hge
    paddr := by rw [paddr_of_le hge, BitVec.add_sub_cancel]
    pa2page := by rw [pa2page_ok (by rw [hnum]; exact hn), hnum] }

/-- The first page behind 256 MB has none: its address would be `2^32`. -/
theorem not_addressable_65536 : ¬ Addressable s 65536 va := by
  intro h
  have hlt := h.lt
  revert hlt
  decide

end Addressable

/-- Physical addresses of kernel addresses are below 256 MB. -/
theorem paddr_lt {kva pa : Word} (h : paddr kva = .ok pa) : pa.toNat < 0x10000000 := by
  obtain ⟨-, hpa⟩ := paddr_ok h
  have hK : KERNBASE.toNat = 0xF0000000 := by decide
  have hlt := kva.isLt
  omega

/-- `mem_init` calls `page_init` on empty arrays, with a kernel that ends below 256 MB. -/
theorem memInitPages_pageInit {b : BootInfo} {s : Pmap} {pages envs : Word}
    (h : memInitPages b = .ok (s, pages, envs)) :
    ∃ m e, e < 65536 ∧ m.npages = b.npages ∧ (∀ p, (m.pages p).ppLink = none) ∧ m.pageFreeList = none ∧
      s = pageInit m e := by
  unfold memInitPages at h
  obtain ⟨pa, -, h⟩ := Except.bind_eq_ok.mp h
  obtain ⟨pe, hpe, h⟩ := Except.bind_eq_ok.mp h
  obtain ⟨pp, -, h⟩ := Except.bind_eq_ok.mp h
  obtain ⟨pv, -, h⟩ := Except.bind_eq_ok.mp h
  simp only [Except.pure_eq, Except.ok.injEq, Prod.mk.injEq] at h
  have hend : pe.toNat / PGSIZE < 65536 := by
    rw [show PGSIZE = 4096 from rfl]
    have hlt := paddr_lt hpe
    omega
  exact ⟨_, _, hend, rfl, fun _ => rfl, rfl, h.1.symm⟩

/-- The pages that are free then. -/
theorem onFreeList_pageInit {m : Pmap} {e p : Nat} (hlink : ∀ p, (m.pages p).ppLink = none)
    (hhead : m.pageFreeList = none) :
    OnFreeList (pageInit m e) p ↔ p < m.npages ∧ ¬ bootReserved e p := by
  obtain ⟨-, hlinked, -⟩ := pageInit_spec (e := e) hlink hhead
  rw [← mem_bootFree]
  constructor
  · rintro ⟨l, hl, hp⟩
    rwa [hlinked.unique hl]
  · exact fun hp => ⟨_, hlinked, hp⟩

/-- The first page behind 256 MB is free if it exists. -/
theorem onFreeList_65536 {b : BootInfo} {s : Pmap} {pages envs : Word}
    (hok : memInitPages b = .ok (s, pages, envs)) (hn : 65536 < b.npages) : OnFreeList s 65536 := by
  obtain ⟨m, e, he, hm, hlink, hhead, rfl⟩ := memInitPages_pageInit hok
  refine (onFreeList_pageInit hlink hhead).mpr ⟨by omega, ?_⟩
  have hio : IOPHYSMEM / PGSIZE = 160 := by decide
  have hmp : MPENTRY_PADDR / PGSIZE = 7 := by decide
  unfold bootReserved
  omega

/-- For every memory size the CMOS can report: after `page_init` every free page has a kernel address of its own
if and only if there are at most 65536 pages, 256 MB. -/
theorem freeList_addressable_iff (cmos : Nat → BitVec 8) (b : BootInfo) (s : Pmap) (pages envs : Word)
    (hn : b.npages = (i386DetectMemory cmos).npages) (hok : memInitPages b = .ok (s, pages, envs)) :
    FreeAddressable s ↔ (i386DetectMemory cmos).npages ≤ 65536 := by
  rw [← hn]
  constructor
  · intro h
    by_contra hlarge
    obtain ⟨va, hva⟩ := h.1 65536 (onFreeList_65536 hok (by omega))
    exact not_addressable_65536 hva
  · intro hle
    obtain ⟨m, e, he, hm, hlink, hhead, rfl⟩ := memInitPages_pageInit hok
    have hlt : ∀ p, OnFreeList (pageInit m e) p → p < b.npages := by
      intro p hp
      rw [← hm]
      exact ((onFreeList_pageInit hlink hhead).mp hp).1
    have hnp : (pageInit m e).npages = m.npages := (pageInit_spec hlink hhead).1
    refine ⟨fun pp hpp => ?_, fun pp qq va wa hpp hqq hne hva hwa => ?_⟩
    · have hp := hlt pp hpp
      exact ⟨_, addressable_of_lt (by omega) (by omega)⟩
    · have hp := hlt pp hpp
      have hq := hlt qq hqq
      have hpa : (page2pa pp).toNat = pp * 4096 := toNat_page2pa (by omega)
      have hqa : (page2pa qq).toNat = qq * 4096 := toNat_page2pa (by omega)
      have hsize : PGSIZE = 4096 := rfl
      rw [hva.toNat_eq, hwa.toNat_eq, hpa, hqa]
      omega

/-- The free pages of a machine with 64 MB have kernel addresses. -/
theorem freeList_addressable_64 :
    ∃ s pages envs, memInitPages demoBoot = .ok (s, pages, envs) ∧ FreeAddressable s := by
  obtain ⟨s, pages, envs, hok⟩ := demoBoot_memInitPages
  refine ⟨s, pages, envs, hok, ?_⟩
  exact (freeList_addressable_iff (cmos64 0x80) demoBoot s pages envs (by decide) hok).mpr (by decide)

/-! ### A machine with more than 256 MB -/

/-- The CMOS of a machine with 256 MB and 64 KB. -/
def cmos256 (r : Nat) : BitVec 8 :=
  if r = NVRAM_BASELO then 0x80
  else if r = NVRAM_BASELO + 1 then 2
  else if r = NVRAM_EXT16LO then 1
  else if r = NVRAM_EXT16LO + 1 then 0xf
  else 0

/-- `demoBoot` with that much memory. -/
def largeBoot : BootInfo := { demoBoot with npages := 65552 }

/-- Page 65536 is free and has no kernel address. -/
theorem freeList_not_addressable :
    largeBoot.npages = (i386DetectMemory cmos256).npages ∧
      ∃ s pages envs, memInitPages largeBoot = .ok (s, pages, envs) ∧ ¬ FreeAddressable s := by
  refine ⟨by decide, ?_⟩
  obtain ⟨s, pages, envs, hok⟩ : ∃ s pages envs, memInitPages largeBoot = .ok (s, pages, envs) :=
    memInitPages_ok rfl rfl rfl (by decide)
  refine ⟨s, pages, envs, hok, fun h => ?_⟩
  obtain ⟨va, hva⟩ := h.1 65536 (onFreeList_65536 hok (by decide))
  exact not_addressable_65536 hva

end Jos
