import Mathlib.Data.BitVec
import Mathlib.Data.Nat.Bitwise
import Mathlib.Tactic.NormNum

/-!
# Addresses, page table entries and the memory layout

The constants and macros of `inc/mmu.h`, `inc/memlayout.h` and `inc/types.h` that the kernel's memory
code uses. Addresses and page table entries are 32-bit words with the source's wrap-around arithmetic.
Page directory and page table indices and page numbers are natural numbers, since the code only ever
uses them to index arrays.

The second half of the module is the arithmetic of entries: which page an entry names (`ppn`), and that
the two ways the kernel builds entries, `page2pa(pp) | perm | PTE_P` and `*pde |= perm`, name the page
they should.
-/

namespace Jos

/-- `uint32_t`, and with it `pte_t`, `pde_t`, `physaddr_t` and `uintptr_t`. -/
abbrev Word := BitVec 32

/-! ## Page table constants (`inc/mmu.h`) -/

/-- Bytes mapped by a page. -/
def PGSIZE : Nat := 4096

/-- Entries of a page directory. -/
def NPDENTRIES : Nat := 1024

/-- Entries of a page table. -/
def NPTENTRIES : Nat := 1024

/-- Bytes mapped by a page directory entry. -/
def PTSIZE : Nat := PGSIZE * NPTENTRIES

def PTE_P : Word := 0x001#32
def PTE_W : Word := 0x002#32
def PTE_U : Word := 0x004#32
def PTE_PWT : Word := 0x008#32
def PTE_PCD : Word := 0x010#32

/-- The bits left to software. -/
def PTE_AVAIL : Word := 0xE00#32

/-- The flags a system call may pass. -/
def PTE_SYSCALL : Word := PTE_AVAIL ||| PTE_P ||| PTE_W ||| PTE_U

/-- Page number field of an address. -/
def PGNUM (la : Word) : Nat := (la >>> 12).toNat

/-- Page directory index of an address. -/
def PDX (la : Word) : Nat := ((la >>> 22) &&& 0x3FF#32).toNat

/-- Page table index of an address. -/
def PTX (la : Word) : Nat := ((la >>> 12) &&& 0x3FF#32).toNat

/-- The address with the given directory index, table index and offset. -/
def PGADDR (d t o : Nat) : Word :=
  BitVec.ofNat 32 d <<< 22 ||| BitVec.ofNat 32 t <<< 12 ||| BitVec.ofNat 32 o

/-- Address field of a page table or page directory entry. -/
def PTE_ADDR (pte : Word) : Word := pte &&& ~~~0xFFF#32

/-! ## The memory layout (`inc/memlayout.h`) -/

def KERNBASE : Word := 0xF0000000#32
def KSTACKTOP : Word := KERNBASE
def KSTKSIZE : Nat := 8 * PGSIZE
def KSTKGAP : Nat := 8 * PGSIZE
def MMIOLIM : Word := KSTACKTOP - BitVec.ofNat 32 PTSIZE
def MMIOBASE : Word := MMIOLIM - BitVec.ofNat 32 PTSIZE
def ULIM : Word := MMIOBASE
def UVPT : Word := ULIM - BitVec.ofNat 32 PTSIZE
def UPAGES : Word := UVPT - BitVec.ofNat 32 PTSIZE
def UENVS : Word := UPAGES - BitVec.ofNat 32 PTSIZE
def UTOP : Word := UENVS
def UXSTACKTOP : Word := UTOP
def USTACKTOP : Word := UTOP - BitVec.ofNat 32 (2 * PGSIZE)
def UTEMP : Word := BitVec.ofNat 32 PTSIZE
def PFTEMP : Word := UTEMP + BitVec.ofNat 32 PTSIZE - BitVec.ofNat 32 PGSIZE
def IOPHYSMEM : Nat := 0x0A0000
def EXTPHYSMEM : Nat := 0x100000
def MPENTRY_PADDR : Nat := 0x7000

/-- The number of page directory entries below `UTOP`. -/
def NUPDE : Nat := 955

theorem PDX_UTOP : PDX UTOP = NUPDE := by decide

/-! ## Rounding (`inc/types.h`) -/

/-- Round down to a multiple of `n`. -/
def ROUNDDOWN (a : Word) (n : Nat) : Word := a - a % BitVec.ofNat 32 n

/-- Round up to a multiple of `n`; like the macro, it wraps past `2 ^ 32`. -/
def ROUNDUP (a : Word) (n : Nat) : Word := ROUNDDOWN (a + BitVec.ofNat 32 n - 1#32) n

/-! ## Values of the constants and macros as numbers -/

@[simp] theorem toNat_UTOP : UTOP.toNat = 0xeec00000 := by decide
@[simp] theorem toNat_ULIM : ULIM.toNat = 0xef800000 := by decide
@[simp] theorem toNat_USTACKTOP : USTACKTOP.toNat = 0xeebfe000 := by decide
@[simp] theorem toNat_UVPT : UVPT.toNat = 0xef400000 := by decide
@[simp] theorem toNat_PFTEMP : PFTEMP.toNat = 0x7ff000 := by decide

private theorem and_mask10 (n : Nat) : n &&& 1023 = n % 1024 :=
  Nat.and_two_pow_sub_one_eq_mod n 10

theorem PGNUM_eq (la : Word) : PGNUM la = la.toNat / 4096 := by
  simp [PGNUM, BitVec.toNat_ushiftRight, Nat.shiftRight_eq_div_pow]

theorem PDX_eq (la : Word) : PDX la = la.toNat / 4194304 := by
  have hlt := la.isLt
  simp only [PDX, BitVec.toNat_and, BitVec.toNat_ushiftRight, BitVec.toNat_ofNat,
    Nat.shiftRight_eq_div_pow]
  norm_num [and_mask10]
  omega

theorem PTX_eq (la : Word) : PTX la = la.toNat / 4096 % 1024 := by
  simp only [PTX, BitVec.toNat_and, BitVec.toNat_ushiftRight, BitVec.toNat_ofNat,
    Nat.shiftRight_eq_div_pow]
  norm_num [and_mask10]

theorem PDX_lt (la : Word) : PDX la < 1024 := by
  have := la.isLt
  rw [PDX_eq]
  omega

theorem PTX_lt (la : Word) : PTX la < 1024 := by
  rw [PTX_eq]
  omega

/-- Below `UTOP` the directory index is one of the user entries. -/
theorem PDX_lt_of_lt_UTOP {va : Word} (h : va < UTOP) : PDX va < NUPDE := by
  have h : va.toNat < 0xeec00000 := by simpa [BitVec.lt_def] using h
  rw [PDX_eq, NUPDE]
  omega

/-- A page number splits into the two indices of its addresses. -/
theorem PGNUM_split (la : Word) : PGNUM la = PDX la * 1024 + PTX la := by
  rw [PGNUM_eq, PDX_eq, PTX_eq]
  omega

theorem PGNUM_div (la : Word) : PGNUM la / 1024 = PDX la := by
  have := PTX_lt la
  rw [PGNUM_split]
  omega

theorem PGNUM_mod (la : Word) : PGNUM la % 1024 = PTX la := by
  have := PTX_lt la
  rw [PGNUM_split]
  omega

theorem toNat_ROUNDDOWN (a : Word) : (ROUNDDOWN a PGSIZE).toNat = a.toNat - a.toNat % 4096 := by
  have hlt := a.isLt
  have hmod : (a % BitVec.ofNat 32 PGSIZE).toNat = a.toNat % 4096 := by
    simp [BitVec.toNat_umod, PGSIZE]
  rw [ROUNDDOWN, BitVec.toNat_sub, hmod]
  omega

theorem toNat_ROUNDUP (a : Word) :
    (ROUNDUP a PGSIZE).toNat = (a.toNat + 4095) / 4096 * 4096 % 4294967296 := by
  have hlt := a.isLt
  have hadd : (a + BitVec.ofNat 32 PGSIZE - 1#32).toNat = (a.toNat + 4095) % 4294967296 := by
    simp only [BitVec.toNat_sub, BitVec.toNat_add, BitVec.toNat_ofNat, PGSIZE]
    norm_num
    omega
  rw [ROUNDUP, toNat_ROUNDDOWN, hadd]
  omega

/-! ## Addresses of virtual pages -/

/-- The address of virtual page `v`. -/
def pageAddr (v : Nat) : Word := BitVec.ofNat 32 (v * PGSIZE)

theorem toNat_pageAddr {v : Nat} (h : v < 1048576) : (pageAddr v).toNat = v * 4096 := by
  rw [pageAddr, BitVec.toNat_ofNat, PGSIZE]
  omega

theorem eq_pageAddr {a : Word} {v : Nat} (h : a.toNat = v * 4096) : a = pageAddr v := by
  have hlt := a.isLt
  apply BitVec.eq_of_toNat_eq
  rw [toNat_pageAddr (by omega), h]

theorem pageAddr_lt {v w : Nat} (hv : v < 1048576) (hw : w < 1048576) :
    pageAddr v < pageAddr w ↔ v < w := by
  rw [BitVec.lt_def, toNat_pageAddr hv, toNat_pageAddr hw]
  omega

theorem pageAddr_succ (v : Nat) : pageAddr v + BitVec.ofNat 32 PGSIZE = pageAddr (v + 1) := by
  apply BitVec.eq_of_toNat_eq
  simp only [pageAddr, PGSIZE, BitVec.toNat_add, BitVec.toNat_ofNat]
  omega

theorem PGNUM_pageAddr {v : Nat} (h : v < 1048576) : PGNUM (pageAddr v) = v := by
  rw [PGNUM_eq, toNat_pageAddr h]
  omega

theorem PDX_pageAddr {v : Nat} (h : v < 1048576) : PDX (pageAddr v) = v / 1024 := by
  rw [← PGNUM_div, PGNUM_pageAddr h]

theorem PTX_pageAddr {v : Nat} (h : v < 1048576) : PTX (pageAddr v) = v % 1024 := by
  rw [← PGNUM_mod, PGNUM_pageAddr h]

/-! ## Page table entries -/

/-- `*pte & PTE_P`: the entry is present. -/
def present (pte : Word) : Prop := pte &&& PTE_P ≠ 0#32

instance (pte : Word) : Decidable (present pte) := inferInstanceAs (Decidable (_ ≠ _))

/-- User code may write through the entry. -/
def userWritable (pte : Word) : Prop := pte &&& (PTE_U ||| PTE_W) = PTE_U ||| PTE_W

instance (pte : Word) : Decidable (userWritable pte) := inferInstanceAs (Decidable (_ = _))

/-- The physical page an entry names, `PGNUM(PTE_ADDR(pte))`. -/
def ppn (pte : Word) : Nat := PGNUM (PTE_ADDR pte)

/-- Physical address of page number `pp`. -/
def page2pa (pp : Nat) : Word := BitVec.ofNat 32 pp <<< 12

/-- The entry that `page_insert` and `boot_map_region` build for page `pp`. -/
def mkPte (pp : Nat) (perm : Word) : Word := page2pa pp ||| perm ||| PTE_P

theorem ppn_eq (pte : Word) : ppn pte = pte.toNat / 4096 := by
  have h : (pte &&& ~~~0xFFF#32) >>> 12 = pte >>> 12 := by
    ext i hi
    simp only [BitVec.getElem_ushiftRight, BitVec.getLsbD_and, BitVec.getLsbD_not]
    by_cases h20 : i < 20
    · have : (0xFFF#32).getLsbD (12 + i) = false := by
        simp [BitVec.getLsbD]
        exact Nat.testBit_lt_two_pow (lt_of_lt_of_le (by norm_num : 4095 < 2 ^ 12)
          (Nat.pow_le_pow_right (by norm_num) (by omega)))
      simp [this]
      omega
    · rw [BitVec.getLsbD_of_ge _ _ (by omega)]
      simp
  rw [ppn, PTE_ADDR, PGNUM, h, ← PGNUM, PGNUM_eq]

theorem ppn_lt (pte : Word) : ppn pte < 1048576 := by
  have := pte.isLt
  rw [ppn_eq]
  omega

theorem not_present_zero : ¬ present 0#32 := by decide

@[simp] theorem ppn_zero : ppn 0#32 = 0 := by decide

private theorem ppn_or (a b : Word) : ppn (a ||| b) = ppn a ||| ppn b := by
  simp only [ppn_eq, BitVec.toNat_or]
  rw [← Nat.shiftRight_eq_div_pow _ 12, ← Nat.shiftRight_eq_div_pow _ 12,
    ← Nat.shiftRight_eq_div_pow _ 12, Nat.shiftRight_or_distrib]

/-- A permission argument that only has flag bits names no page. -/
private theorem ppn_flags {perm : Word} (h : perm.toNat < 4096) : ppn perm = 0 := by
  rw [ppn_eq]
  omega

theorem toNat_page2pa {pp : Nat} (h : pp < 1048576) : (page2pa pp).toNat = pp * 4096 := by
  rw [page2pa, BitVec.toNat_shiftLeft, BitVec.toNat_ofNat, Nat.shiftLeft_eq]
  omega

theorem ppn_page2pa {pp : Nat} (h : pp < 1048576) : ppn (page2pa pp) = pp := by
  rw [ppn_eq, toNat_page2pa h]
  omega

theorem present_or_right (a : Word) {b : Word} (h : present b) : present (a ||| b) := by
  intro h0
  refine h ?_
  ext i hi
  have hbit := congrArg (fun w : Word => w.getLsbD i) h0
  simp only [BitVec.getLsbD_and, BitVec.getLsbD_or] at hbit
  simp only [BitVec.getElem_and]
  rw [← BitVec.getLsbD_eq_getElem, ← BitVec.getLsbD_eq_getElem]
  cases ha : a.getLsbD i <;> cases hb : b.getLsbD i <;> simp_all

theorem present_or_left {a : Word} (b : Word) (h : present a) : present (a ||| b) := by
  rw [BitVec.or_comm]
  exact present_or_right b h

theorem present_mkPte (pp : Nat) (perm : Word) : present (mkPte pp perm) :=
  present_or_right _ (by decide)

theorem ppn_mkPte {pp : Nat} {perm : Word} (hpp : pp < 1048576) (hperm : perm.toNat < 4096) :
    ppn (mkPte pp perm) = pp := by
  have hP : ppn PTE_P = 0 := by decide
  rw [mkPte, ppn_or, ppn_or, ppn_page2pa hpp, ppn_flags hperm, hP, Nat.or_zero, Nat.or_zero]

/-- `pgdir[PDX(va)] |= perm` does not move the page table. -/
theorem ppn_or_flags (pde : Word) {perm : Word} (hperm : perm.toNat < 4096) :
    ppn (pde ||| perm) = ppn pde := by
  rw [ppn_or, ppn_flags hperm, Nat.or_zero]

/-- A page-aligned address has no flags. -/
theorem and_flags {pa mask : Word} (hpa : pa.toNat % 4096 = 0) (hmask : mask = 0xFFF#32 &&& mask) :
    pa &&& mask = 0#32 := by
  have hlow : pa &&& 0xFFF#32 = 0#32 := by
    apply BitVec.eq_of_toNat_eq
    rw [BitVec.toNat_and]
    exact (Nat.and_two_pow_sub_one_eq_mod _ 12).trans hpa
  rw [hmask, ← BitVec.and_assoc, hlow, BitVec.zero_and]

/-- The permission of an entry is the one that was asked for. -/
theorem mkPte_and_W {pp : Nat} {perm : Word} (hpp : pp < 1048576) :
    mkPte pp perm &&& PTE_W = perm &&& PTE_W := by
  have hpa : page2pa pp &&& PTE_W = 0#32 := by
    refine and_flags ?_ (by decide)
    rw [toNat_page2pa hpp]
    omega
  have hP : PTE_P &&& PTE_W = 0#32 := by decide
  rw [mkPte, BitVec.and_or_distrib_right, BitVec.and_or_distrib_right, hpa, hP, BitVec.zero_or,
    BitVec.or_zero]

theorem userWritable_or {pa perm : Word} (hpa : pa.toNat % 4096 = 0) :
    userWritable (pa ||| PTE_P ||| perm) ↔ userWritable perm := by
  have hzero : pa &&& (PTE_U ||| PTE_W) = 0#32 := and_flags hpa (by decide)
  have hP : PTE_P &&& (PTE_U ||| PTE_W) = 0#32 := by decide
  have heq : (pa ||| PTE_P ||| perm) &&& (PTE_U ||| PTE_W) = perm &&& (PTE_U ||| PTE_W) := by
    rw [BitVec.and_comm, BitVec.and_or_distrib_left, BitVec.and_or_distrib_left,
      BitVec.and_comm _ pa, BitVec.and_comm _ PTE_P, BitVec.and_comm _ perm, hzero, hP,
      BitVec.zero_or, BitVec.zero_or]
  unfold userWritable
  rw [heq]

/-- The flags that `perm & ~PTE_SYSCALL` lets through lie in the flag bits. -/
theorem toNat_lt_of_syscall {perm : Word} (h : perm &&& ~~~PTE_SYSCALL = 0#32) :
    perm.toNat < 4096 := by
  have heq : perm = perm &&& PTE_SYSCALL := by
    ext i hi
    have hbit := congrArg (fun w : Word => w.getLsbD i) h
    simp only [BitVec.getLsbD_and, BitVec.getLsbD_not] at hbit
    rw [BitVec.getElem_and, ← BitVec.getLsbD_eq_getElem, ← BitVec.getLsbD_eq_getElem]
    cases hp : perm.getLsbD i <;> cases hm : PTE_SYSCALL.getLsbD i <;> simp_all
  have hsys : PTE_SYSCALL.toNat = 0xE07 := by decide
  have hle : perm.toNat ≤ PTE_SYSCALL.toNat := by
    rw [heq, BitVec.toNat_and]
    exact Nat.and_le_right
  omega

end Jos
