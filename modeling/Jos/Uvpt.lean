import Jos.PageLookup

/-!
# The page tables as user code sees them

Entry `PDX(UVPT)` of a directory points back at the directory, with `PTE_P` and `PTE_U` but without `PTE_W`. An
access at `UVPT` thus walks the directory as a page table, and one level short of an ordinary access: what it
reaches are the page tables themselves. User code reads them as the arrays `uvpt`, indexed by page number, and
`uvpd`, indexed by directory entry (`lib/entry.S`); `fork` and its fault handler depend on both.
-/

namespace Jos

open Pmap

variable {s s₀ : Pmap} {d n i : Nat} {va : Word} {m : MemState}

/-- Read an aligned word; `none` is a page fault. -/
def loadWord (s : Pmap) (d : Nat) (va flags : Word) : Option Word :=
  (translate s d va flags).map fun p => s.mem p (wordOf va)

/-- The address of `uvpt[n]`. -/
def uvpt (n : Nat) : Word := UVPT + BitVec.ofNat 32 (4 * n)

/-- The address of `uvpd[i]`. -/
def uvpd (i : Nat) : Word := UVPT + (UVPT >>> 12) * 4#32 + BitVec.ofNat 32 (4 * i)

/-- The entry at `UVPT` maps the directory itself, for reading by user code. -/
def SelfMapped (s : Pmap) (d : Nat) : Prop := s.mem d (PDX UVPT) = page2pa d ||| PTE_P ||| PTE_U

/-! ## Addresses in the window -/

theorem toNat_uvpt (h : n < 1048576) : (uvpt n).toNat = 0xef400000 + 4 * n := by
  have hU : UVPT.toNat = 0xef400000 := by decide
  rw [uvpt, BitVec.toNat_add, BitVec.toNat_ofNat, hU]
  omega

/-- `uvpd` is the page of `uvpt` that maps the window itself. -/
theorem uvpd_eq (i : Nat) : uvpd i = uvpt (PDX UVPT * 1024 + i) := by
  have hbase : UVPT + (UVPT >>> 12) * 4#32 = UVPT + BitVec.ofNat 32 (4 * (PDX UVPT * 1024)) := by decide
  rw [uvpd, uvpt, hbase, Nat.mul_add, BitVec.ofNat_add, BitVec.add_assoc]

theorem PDX_uvpt (h : n < 1048576) : PDX (uvpt n) = PDX UVPT := by
  have hU : PDX UVPT = 957 := by decide
  rw [PDX_eq, toNat_uvpt h, hU]
  omega

theorem PTX_uvpt (h : n < 1048576) : PTX (uvpt n) = n / 1024 := by
  rw [PTX_eq, toNat_uvpt h]
  omega

theorem wordOf_uvpt (h : n < 1048576) : wordOf (uvpt n) = n % 1024 := by
  rw [wordOf, toNat_uvpt h, PGSIZE]
  omega

/-! ## Accesses through the window -/

/-- The flags of the entry at `UVPT`: user code may read through it and not write. -/
theorem SelfMapped.entry_flags (h : SelfMapped s d) (hd : d < 1048576) :
    ppn (s.mem d (PDX UVPT)) = d ∧ s.mem d (PDX UVPT) &&& USER_R = USER_R ∧
      s.mem d (PDX UVPT) &&& USER_W ≠ USER_W := by
  have halign : (page2pa d).toNat % 4096 = 0 := by
    rw [toNat_page2pa hd]
    omega
  have hself : s.mem d (PDX UVPT) = page2pa d ||| (PTE_P ||| PTE_U) := by
    rw [h, BitVec.or_assoc]
  have hmask : ∀ mask : Word, mask = 0xFFF#32 &&& mask →
      s.mem d (PDX UVPT) &&& mask = (PTE_P ||| PTE_U) &&& mask := by
    intro mask hm
    rw [hself, BitVec.and_or_distrib_right, and_flags halign hm, BitVec.zero_or]
  refine ⟨?_, ?_, ?_⟩
  · rw [hself, ppn_or_flags _ (by decide), ppn_page2pa hd]
  · rw [hmask USER_R (by decide)]
    decide
  · rw [hmask USER_W (by decide)]
    decide

/-- A read through the window stops at the directory entry of what it reads about: that entry has to allow user
reads, and the word found is the page table's. -/
theorem SelfMapped.loadWord_uvpt (h : SelfMapped s d) (hd : d < 1048576) (hn : n < 1048576) :
    loadWord s d (uvpt n) USER_R =
      if s.mem d (n / 1024) &&& USER_R = USER_R then some (s.mem (ppn (s.mem d (n / 1024))) (n % 1024))
      else none := by
  obtain ⟨hppn, hread, -⟩ := h.entry_flags hd
  simp only [loadWord, translate, PDX_uvpt hn, PTX_uvpt hn, wordOf_uvpt hn]
  rw [if_pos hread, hppn]
  split <;> rfl

/-- The directory itself can be read. -/
theorem SelfMapped.loadWord_uvpd (h : SelfMapped s d) (hd : d < 1048576) (hi : i < 1024) :
    loadWord s d (uvpd i) USER_R = some (s.mem d i) := by
  obtain ⟨hppn, hread, -⟩ := h.entry_flags hd
  have hU : PDX UVPT = 957 := by decide
  have hdiv : (PDX UVPT * 1024 + i) / 1024 = PDX UVPT := by omega
  have hmod : (PDX UVPT * 1024 + i) % 1024 = i := by omega
  rw [uvpd_eq, h.loadWord_uvpt hd (by omega), hdiv, hmod, if_pos hread, hppn]

/-- No user write in the window is permitted. -/
theorem SelfMapped.translate_write (h : SelfMapped s d) (hd : d < 1048576) (hva : PDX va = PDX UVPT) :
    translate s d va USER_W = none := by
  obtain ⟨-, -, hwrite⟩ := h.entry_flags hd
  simp only [translate, hva]
  rw [if_neg hwrite]

/-! ## Runs -/

/-- The directories of a run stay mapped into themselves. -/
theorem LookupInv.selfMapped (h : LookupInv s₀ m) (hd : d ∈ m.dirs) : SelfMapped m.pmap d ∧ d < 1048576 := by
  obtain ⟨l, hinv⟩ := h.inv
  have hself := hinv.map.self d hd
  rw [withReserved_mem (hinv.dir_managed hd).2] at hself
  exact ⟨hself, (hinv.dirs_lt d hd).trans_le hinv.npages_le'⟩

/-- In every state that a run from `mem_init` reaches, and for every directory of an environment: user code reads
`uvpt[PGNUM(va)]` just if the directory entry of `va` is present and allows user accesses, and finds the page table
entry of `va`; it reads every directory entry in `uvpd`; and it cannot write anywhere in the window. -/
theorem uvpt_shows_pageTables {b : BootInfo} (h₀ : MemInit b s₀) (h : LookupRun s₀ m) (hd : d ∈ m.dirs) :
    (∀ va : Word,
      (loadWord m.pmap d (uvpt (PGNUM va)) USER_R = none ↔ ¬ m.pmap.mem d (PDX va) &&& USER_R = USER_R) ∧
        (m.pmap.mem d (PDX va) &&& USER_R = USER_R →
          loadWord m.pmap d (uvpt (PGNUM va)) USER_R = some (pteOf m.pmap d (PGNUM va)))) ∧
      (∀ i < 1024, loadWord m.pmap d (uvpd i) USER_R = some (m.pmap.mem d i)) ∧
      ∀ va : Word, UVPT ≤ va → va < UVPT + BitVec.ofNat 32 PTSIZE → translate m.pmap d va USER_W = none := by
  obtain ⟨hself, hlt⟩ := (h.inv h₀.kernTables).selfMapped hd
  refine ⟨fun va => ?_, fun i hi => ?_, fun va hlow hhigh => ?_⟩
  · have hnum : PGNUM va < 1048576 := by
      have := va.isLt
      rw [PGNUM_eq]
      omega
    rw [hself.loadWord_uvpt hlt hnum, PGNUM_div, PGNUM_mod]
    by_cases hread : m.pmap.mem d (PDX va) &&& USER_R = USER_R
    · have hpte : pteOf m.pmap d (PGNUM va) = m.pmap.mem (ppn (m.pmap.mem d (PDX va))) (PTX va) := by
        rw [pteOf_PGNUM, if_pos (UserFlags.read.entry hread)]
      rw [if_pos hread, hpte]
      exact ⟨iff_of_false nofun (not_not_intro hread), fun _ => rfl⟩
    · rw [if_neg hread]
      exact ⟨iff_of_true rfl hread, fun hc => absurd hc hread⟩
  · exact hself.loadWord_uvpd hlt hi
  · have hpdx : PDX va = PDX UVPT := by
      have hU : UVPT.toNat = 0xef400000 := by decide
      have htop : (UVPT + BitVec.ofNat 32 PTSIZE).toNat = 0xef800000 := by decide
      rw [BitVec.le_def, hU] at hlow
      rw [BitVec.lt_def, htop] at hhigh
      rw [PDX_eq, PDX_eq, hU]
      omega
    exact hself.translate_write hlt hpdx

/-- A directory right after `env_setup_vm` shows itself in `uvpd`. -/
theorem uvpt_shows_pageTables_demoBoot : ∃ s₀ m d, MemInit demoBoot s₀ ∧ LookupRun s₀ m ∧ d ∈ m.dirs ∧
    loadWord m.pmap d (uvpd 0) USER_R = some 0#32 ∧ loadWord m.pmap d (uvpt 0) USER_R = none := by
  obtain ⟨s₀, m, d, p, h₀, hrun, hd, hz, -⟩ := demoBoot_dataPage
  obtain ⟨hpte, hpde, -⟩ := uvpt_shows_pageTables h₀ hrun hd
  have hpdx : PDX 0#32 = 0 := by decide
  have hzero : ¬ m.pmap.mem d (PDX 0#32) &&& USER_R = USER_R := by
    rw [hpdx, hz]
    decide
  refine ⟨s₀, m, d, h₀, hrun, hd, ?_, (hpte 0#32).1.mpr hzero⟩
  rw [hpde 0 (by decide), hz]

end Jos
