import Jos.KernelMap
import Jos.Reserved

/-!
# `page_lookup` and the hardware walk

`page_lookup` takes an entry for unmapped if it is zero, the hardware if its present bit is clear. The two agree as
long as every entry of every page table is zero or present (`TablesWf`). This is kept by a run in which page tables
are written by the functions of `pmap.c` and `env.c` only: the operations of `PmapOp` below `UTOP`, `pgdir_walk` and
`boot_map_region` above it, and stores to any page that holds no page table. Above `UTOP` the window at `UVPT` is left
out: there a directory is its own page table, and a mapping made in it turns a page of data into a page table.
-/

namespace Jos

open Pmap

variable {D : Finset Nat} {l : List Nat} {s s₀ s' : Pmap} {d : Nat} {va : Word} {b : BootInfo} {m m' : MemState}

/-- `check_va2pa`; all ones if `va` is not mapped. -/
def checkVa2pa (s : Pmap) (pgdir : Nat) (va : Word) : Except Panic Word := do
  let pde := s.load ⟨pgdir, PDX va⟩
  if ¬ present pde then
    return ~~~0#32
  else
    let p ← kaddr s (PTE_ADDR pde)
    if ¬ present (s.load ⟨p, PTX va⟩) then
      return ~~~0#32
    else
      return PTE_ADDR (s.load ⟨p, PTX va⟩)

/-- `page_lookup` returns `NULL` where `check_va2pa` finds nothing, and otherwise the page that `check_va2pa` finds. -/
def LookupAgrees (s : Pmap) (d : Nat) (va : Word) : Prop :=
  ∃ w, checkVa2pa s d va = .ok w ∧ (pageLookup s d va = .ok none ↔ w = ~~~0#32) ∧
    (w ≠ ~~~0#32 → PGNUM w < s.npages → ∃ pp pte, pageLookup s d va = .ok (some (pp, pte)) ∧ page2pa pp = w)

/-- An entry that is zero or present. -/
def EntryWf (w : Word) : Prop := w = 0#32 ∨ present w

/-- The page tables that a walk can get to. -/
def TablesWf (D : Finset Nat) (s : Pmap) : Prop :=
  ∀ d ∈ insert s.kernPgdir D, ∀ i < 1024, present (s.mem d i) →
    tableOf s d i < s.npages ∧ ∀ j < 1024, EntryWf (s.mem (tableOf s d i) j)

/-! ## One walk -/

theorem PTE_ADDR_ne (w : Word) : PTE_ADDR w ≠ ~~~0#32 := by
  intro hc
  have hbit := congrArg (fun x : Word => x.getLsbD 0) hc
  simp [PTE_ADDR] at hbit

theorem page2pa_ppn (w : Word) : page2pa (ppn w) = PTE_ADDR w := by
  have hpa := toNat_page2pa (ppn_lt w)
  rw [ppn_eq] at hpa
  have hor : page2pa (ppn w) ||| BitVec.ofNat 32 (w.toNat % 4096) = w := by
    apply BitVec.eq_of_toNat_eq
    have hsum := Nat.two_pow_add_eq_or_of_lt (i := 12) (b := w.toNat % 4096) (by omega) (w.toNat / 4096)
    rw [BitVec.toNat_or, BitVec.toNat_ofNat, ppn_eq, hpa, Nat.mod_eq_of_lt (by omega), Nat.mul_comm,
      ← hsum]
    omega
  have halign : (page2pa (ppn w)).toNat % 4096 = 0 := by
    rw [ppn_eq, hpa]
    omega
  have hflags : (BitVec.ofNat 32 (w.toNat % 4096)).toNat < 4096 := by
    rw [BitVec.toNat_ofNat]
    omega
  have haddr := (PTE_ADDR_or halign hflags).1
  rw [hor] at haddr
  exact haddr.symm

/-- Only a zero entry counts as unmapped. -/
theorem pageLookup_eq_none (hP : present (s.mem d (PDX va))) (hlt : tableOf s d (PDX va) < s.npages)
    (h : pageLookup s d va = .ok none) : s.mem (tableOf s d (PDX va)) (PTX va) = 0#32 := by
  by_contra hne
  unfold pageLookup at h
  rw [pgdirWalk_present false hP hlt] at h
  have hne' : s.load ⟨ppn (s.mem d (PDX va)), PTX va⟩ ≠ 0#32 := hne
  simp only [Except.ok_bind] at h
  rw [if_neg hne'] at h
  obtain ⟨pp, -, hsome⟩ := Except.bind_eq_ok.mp h
  cases hsome

/-- With a page table in memory, the two agree just if the entry is zero or present. -/
theorem lookupAgrees_iff (hP : present (s.mem d (PDX va))) (hlt : tableOf s d (PDX va) < s.npages) :
    LookupAgrees s d va ↔ EntryWf (s.mem (tableOf s d (PDX va)) (PTX va)) := by
  have hk : kaddr s (PTE_ADDR (s.mem d (PDX va))) = .ok (tableOf s d (PDX va)) := kaddr_ok hlt
  have hcheck : checkVa2pa s d va = if ¬ present (s.mem (tableOf s d (PDX va)) (PTX va)) then .ok (~~~0#32)
      else .ok (PTE_ADDR (s.mem (tableOf s d (PDX va)) (PTX va))) := by
    simp only [checkVa2pa, load, hP, not_true_eq_false, if_false, hk, Except.ok_bind]
    rfl
  constructor
  · rintro ⟨w, hw, hnone, -⟩
    by_cases hpte : present (s.mem (tableOf s d (PDX va)) (PTX va))
    · exact Or.inr hpte
    · rw [if_pos hpte] at hcheck
      have hones : w = ~~~0#32 := Except.ok.inj (hw.symm.trans hcheck)
      exact Or.inl (pageLookup_eq_none hP hlt (hnone.mpr hones))
  · rintro (hz | hpte)
    · refine ⟨~~~0#32, ?_, iff_of_true (pageLookup_zero hP hlt hz) rfl, fun hc => absurd rfl hc⟩
      rw [hcheck, hz, if_pos not_present_zero]
    · rw [if_neg (not_not_intro hpte)] at hcheck
      have hne : s.mem (tableOf s d (PDX va)) (PTX va) ≠ 0#32 := fun hc => not_present_zero (hc ▸ hpte)
      refine ⟨_, hcheck, iff_of_false (fun hc => ?_) (PTE_ADDR_ne _), fun _ hw => ?_⟩
      · exact hne (pageLookup_eq_none hP hlt hc)
      · exact ⟨_, _, pageLookup_some hP hlt hne hw, page2pa_ppn _⟩

theorem lookupAgrees_absent (hP : ¬ present (s.mem d (PDX va))) : LookupAgrees s d va := by
  refine ⟨~~~0#32, ?_, iff_of_true (pageLookup_absent hP) rfl, fun hc => absurd rfl hc⟩
  simp only [checkVa2pa, load, hP, not_false_eq_true, if_true]
  rfl

theorem TablesWf.agrees (h : TablesWf D s) (hd : d ∈ insert s.kernPgdir D) (va : Word) : LookupAgrees s d va := by
  by_cases hP : present (s.mem d (PDX va))
  · obtain ⟨hlt, hwf⟩ := h d hd _ (PDX_lt va) hP
    exact (lookupAgrees_iff hP hlt).mpr (hwf _ (PTX_lt va))
  · exact lookupAgrees_absent hP

/-! ## What `mem_init` leaves -/

/-- The page tables of the kernel after `mem_init`. -/
structure KernTables (s₀ : Pmap) : Prop where
  inv : ∃ l, PmapInv (notFree s₀) ∅ l s₀
  present : ∀ i, KernPde i → present (s₀.mem s₀.kernPgdir i)
  self : tableOf s₀ s₀.kernPgdir (PDX UVPT) = s₀.kernPgdir
  selfPresent : Jos.present (s₀.mem s₀.kernPgdir (PDX UVPT))
  ne : ∀ i, KernPde i → tableOf s₀ s₀.kernPgdir i ≠ s₀.kernPgdir
  wf : ∀ i, KernPde i → ∀ j < 1024, EntryWf (s₀.mem (tableOf s₀ s₀.kernPgdir i) j)

theorem KernPtes.wf {pages envs : Word} (h : KernPtes b pages envs s) {v : Nat} (hv : KernPde (v / 1024)) :
    EntryWf (pteOf s s.kernPgdir v) := by
  have hP : ∀ w f : Word, EntryWf (w ||| PTE_P ||| f) := fun w f =>
    Or.inr (present_or_left _ (present_or_right _ (by decide)))
  obtain ⟨hlo, hhi, hne⟩ := hv
  have huvpt : PDX UVPT = 957 := by decide
  rw [huvpt] at hne
  unfold NUPDE at hlo
  by_cases h955 : v < 978944
  · obtain ⟨j, rfl⟩ : ∃ j, v = 977920 + j := ⟨v - 977920, by omega⟩
    rw [h.uenvs j (by omega)]
    exact hP _ _
  · by_cases h956 : v < 979968
    · obtain ⟨j, rfl⟩ : ∃ j, v = 978944 + j := ⟨v - 978944, by omega⟩
      rw [h.upages j (by omega)]
      exact hP _ _
    · by_cases hbase : v < 983040
      · by_cases hstack : ∃ i < NCPU, BootInv.InKstack i v
        · obtain ⟨i, hi, hin⟩ := hstack
          obtain ⟨pa, -, hpte⟩ := h.kstacks i hi
          rw [hpte v hin]
          exact hP _ _
        · refine Or.inl (h.rest v (by omega) hbase fun i hi hin => hstack ⟨i, hi, hin⟩)
      · obtain ⟨p, rfl⟩ : ∃ p, v = 983040 + p := ⟨v - 983040, by omega⟩
        rw [h.kernbase p (by omega)]
        exact hP _ _

/-- Each of the windows has a page that is mapped. -/
theorem KernPtes.present {pages envs : Word} (h : KernPtes b pages envs s) {i : Nat} (hi : KernPde i) :
    present (s.mem s.kernPgdir i) := by
  have hpde : ∀ v, Jos.present (pteOf s s.kernPgdir v) → Jos.present (s.mem s.kernPgdir (v / 1024)) := by
    intro v hv
    by_contra hP
    rw [pteOf, if_neg hP] at hv
    exact not_present_zero hv
  have hP : ∀ w f : Word, Jos.present (w ||| PTE_P ||| f) := fun w f =>
    present_or_left _ (present_or_right _ (by decide))
  obtain ⟨hlo, hhi, hne⟩ := hi
  have huvpt : PDX UVPT = 957 := by decide
  have hmmio : PDX MMIOBASE = 958 := by decide
  rw [huvpt] at hne
  unfold NUPDE at hlo
  by_cases h955 : i = 955
  · have hv := hpde 977920 (by rw [h.uenvs 0 (by omega)]; exact hP _ _)
    rwa [h955]
  · by_cases h956 : i = 956
    · have hv := hpde 978944 (by rw [h.upages 0 (by omega)]; exact hP _ _)
      rwa [h956]
    · by_cases h958 : i = 958
      · rw [h958, ← hmmio]
        exact h.mmio
      · by_cases h959 : i = 959
        · obtain ⟨pa, -, hpte⟩ := h.kstacks 0 (by decide)
          have hv := hpde 983032 (by rw [hpte 983032 (by decide)]; exact hP _ _)
          rwa [h959]
        · have hv := hpde (983040 + (i - 960) * 1024) (by
            rw [h.kernbase _ (by omega)]
            exact hP _ _)
          have hdiv : (983040 + (i - 960) * 1024) / 1024 = i := by omega
          rwa [hdiv] at hv

theorem MemInit.kernTables (h : MemInit b s₀) : KernTables s₀ := by
  obtain ⟨s₁, pages, envs, l, -, -, -, hinv, hptes⟩ := h.kernPtes
  refine ⟨h.runStart.inv, fun i hi => hptes.present hi, hinv.tableOf_UVPT, ?_, fun i hi => ?_, fun i hi j hj => ?_⟩
  · rw [hinv.self]
    exact present_or_right _ (by decide)
  · exact (hinv.table i hi (hptes.present hi)).2.2
  · have hdiv : (i * 1024 + j) / 1024 = i := by omega
    have hmod : (i * 1024 + j) % 1024 = j := by omega
    have hwf := hptes.wf (v := i * 1024 + j) (by rwa [hdiv])
    rwa [pteOf, hdiv, hmod, if_pos (hptes.present hi)] at hwf

/-! ## Runs -/

/-- What may happen to memory. -/
inductive LookupOp
  /-- An operation below `UTOP`. -/
  | below (op : PmapOp)
  /-- `pgdir_walk` with `create`, above `UTOP`. -/
  | walkAbove (d : Nat) (va : Word)
  /-- `boot_map_region`. -/
  | bootMap (d : Nat) (va size pa perm : Word)
  /-- A store by anyone else. -/
  | write (p i : Nat) (w : Word)

/-- The code an operation runs. -/
def LookupOp.exec (m : MemState) : LookupOp → Except Panic MemState
  | .below op => op.exec m
  | .walkAbove d va => do return { m with pmap := (← pgdirWalk m.pmap d va true).2 }
  | .bootMap d va size pa perm => do return { m with pmap := ← bootMapRegion m.pmap d va size pa perm }
  | .write p i w => return { m with pmap := m.pmap.store ⟨p, i⟩ w }

/-- The page is a directory or a page table. -/
def HoldsTable (m : MemState) (p : Nat) : Prop :=
  ∃ d ∈ insert m.pmap.kernPgdir m.dirs, p = d ∨ ∃ i < 1024, named (m.pmap.mem d i) = some p

/-- What the caller has to see to: `boot_map_region` is for static mappings above `UTOP`, and other code does not
write to page tables. -/
def LookupOp.Enabled (s₀ : Pmap) (m : MemState) : LookupOp → Prop
  | .below op => op.Enabled s₀ m
  | .walkAbove d va => d ∈ insert m.pmap.kernPgdir m.dirs ∧ UTOP ≤ va
  | .bootMap d va size _ _ => d ∈ insert m.pmap.kernPgdir m.dirs ∧
      ∀ j < (size.toNat + 4095) / 4096, KernPde (PDX (va + BitVec.ofNat 32 (j * PGSIZE)))
  | .write p _ _ => ¬ HoldsTable m p

/-- The states that can be reached from `s₀`. -/
inductive LookupRun (s₀ : Pmap) : MemState → Prop
  | init : LookupRun s₀ ⟨s₀, ∅⟩
  | step {m m' : MemState} (op : LookupOp) : LookupRun s₀ m → op.Enabled s₀ m → op.exec m = .ok m' → LookupRun s₀ m'

/-- The entries of directories below `UTOP`. -/
def DirsWf (D : Finset Nat) (s : Pmap) : Prop := ∀ d ∈ D, ∀ i < NUPDE, EntryWf (s.mem d i)

/-- What a run keeps, apart from the contents of the kernel's page tables. -/
structure LookupInv (s₀ : Pmap) (m : MemState) : Prop where
  inv : ∃ l, PmapInv (notFree s₀) m.dirs l (m.pmap.withReserved (notFree s₀) s₀.mem)
  npages : m.pmap.npages = s₀.npages
  kern : m.pmap.kernPgdir = s₀.kernPgdir
  kernMem : m.pmap.mem s₀.kernPgdir = s₀.mem s₀.kernPgdir
  kernWf : ∀ i, KernPde i → ∀ j < 1024, EntryWf (m.pmap.mem (tableOf s₀ s₀.kernPgdir i) j)
  dirsWf : DirsWf m.dirs m.pmap

/-- The entries of `kern_pgdir`. -/
theorem KernTables.entry (h₀ : KernTables s₀) {j : Nat} (hj : j < 1024) : EntryWf (s₀.mem s₀.kernPgdir j) := by
  by_cases hlo : j < NUPDE
  · obtain ⟨l, hinv⟩ := h₀.inv
    exact Or.inl (hinv.map.kern_user j hlo)
  · by_cases huvpt : j = PDX UVPT
    · rw [huvpt]
      exact Or.inr h₀.selfPresent
    · exact Or.inr (h₀.present j ⟨not_lt.mp hlo, hj, huvpt⟩)

theorem KernTables.start (h₀ : KernTables s₀) : LookupInv s₀ ⟨s₀, ∅⟩ where
  inv := by
    obtain ⟨l, hl⟩ := h₀.inv
    exact ⟨l, by rw [withReserved_self]; exact hl⟩
  npages := rfl
  kern := rfl
  kernMem := rfl
  kernWf := h₀.wf
  dirsWf := nofun

namespace LookupInv

variable {i j p : Nat}

theorem kernPgdir_reserved (h : LookupInv s₀ m) : s₀.kernPgdir ∈ notFree s₀ := by
  obtain ⟨l, hinv⟩ := h.inv
  have hres := hinv.map.kern_res.1
  rwa [withReserved_kernPgdir, h.kern] at hres

/-- Above `UTOP` a directory has the entries of `kern_pgdir`. -/
theorem upper (h : LookupInv s₀ m) (hd : d ∈ insert m.pmap.kernPgdir m.dirs) (hi : KernPde i) :
    m.pmap.mem d i = s₀.mem s₀.kernPgdir i := by
  rcases Finset.mem_insert.mp hd with rfl | hd
  · rw [h.kern, h.kernMem]
  · obtain ⟨l, hinv⟩ := h.inv
    have hup := hinv.map.upper d hd i hi.1 hi.2.1 hi.2.2
    rw [withReserved_mem (hinv.dir_managed hd).2] at hup
    rw [hup, withReserved_kernPgdir, h.kern, withReserved_mem_reserved h.kernPgdir_reserved]

/-- In the window at `UVPT` it is its own page table. -/
theorem self (h : LookupInv s₀ m) (h₀ : KernTables s₀) (hd : d ∈ insert m.pmap.kernPgdir m.dirs) :
    Jos.present (m.pmap.mem d (PDX UVPT)) ∧ tableOf m.pmap d (PDX UVPT) = d := by
  rcases Finset.mem_insert.mp hd with rfl | hd
  · rw [tableOf, h.kern, h.kernMem]
    exact ⟨h₀.selfPresent, h₀.self⟩
  · obtain ⟨l, hinv⟩ := h.inv
    have hself := hinv.map.self d hd
    rw [withReserved_mem (hinv.dir_managed hd).2] at hself
    rw [tableOf, hself]
    refine ⟨present_or_left _ (present_or_right _ (by decide)), ?_⟩
    rw [ppn_or_flags _ (by decide), ppn_or_flags _ (by decide),
      ppn_page2pa ((hinv.dirs_lt d hd).trans_le hinv.npages_le')]

theorem dir_lt (h : LookupInv s₀ m) (hd : d ∈ insert m.pmap.kernPgdir m.dirs) : d < m.pmap.npages := by
  obtain ⟨l, hinv⟩ := h.inv
  rcases Finset.mem_insert.mp hd with rfl | hd
  · exact hinv.map.kern_res.2
  · exact hinv.dirs_lt d hd

theorem kernTable_lt (h : LookupInv s₀ m) (h₀ : KernTables s₀) (hi : KernPde i) :
    tableOf s₀ s₀.kernPgdir i ∈ notFree s₀ ∧ tableOf s₀ s₀.kernPgdir i < m.pmap.npages := by
  obtain ⟨l, hinv⟩ := h₀.inv
  rw [h.npages]
  exact hinv.map.kern_upper i hi.1 hi.2.1 (h₀.present i hi)

/-- Every page table has entries that are zero or present. -/
theorem tablesWf (h : LookupInv s₀ m) (h₀ : KernTables s₀) : TablesWf m.dirs m.pmap := by
  intro d hd i hi hP
  by_cases huvpt : i = PDX UVPT
  · subst huvpt
    rw [(h.self h₀ hd).2]
    refine ⟨h.dir_lt hd, fun j hj => ?_⟩
    -- the entries of the directory itself
    by_cases hlo : j < NUPDE
    · rcases Finset.mem_insert.mp hd with rfl | hd
      · rw [h.kern, h.kernMem]
        exact h₀.entry hj
      · exact h.dirsWf d hd j hlo
    · by_cases hj957 : j = PDX UVPT
      · rw [hj957]
        exact Or.inr (h.self h₀ hd).1
      · rw [h.upper hd ⟨not_lt.mp hlo, hj, hj957⟩]
        exact h₀.entry hj
  · by_cases hlo : i < NUPDE
    · rcases Finset.mem_insert.mp hd with rfl | hd
      · exfalso
        obtain ⟨l, hinv⟩ := h₀.inv
        rw [h.kern, h.kernMem, hinv.map.kern_user i hlo] at hP
        exact not_present_zero hP
      · obtain ⟨l, hinv⟩ := h.inv
        obtain ⟨htab, hlt, -⟩ := hinv.offReserved.tables d hd i hlo hP
        refine ⟨hlt, fun j hj => ?_⟩
        have hdiv : (i * 1024 + j) / 1024 = i := by omega
        have hmod : (i * 1024 + j) % 1024 = j := by omega
        have hwf := hinv.map.pte_wf d hd (i * 1024 + j) (by unfold NUVPN; omega)
        rwa [pteOf, hdiv, hmod, withReserved_mem (hinv.dir_managed hd).2, if_pos hP, withReserved_mem htab] at hwf
    · have hk : KernPde i := ⟨not_lt.mp hlo, hi, huvpt⟩
      rw [tableOf, h.upper hd hk]
      exact ⟨(h.kernTable_lt h₀ hk).2, h.kernWf i hk⟩

end LookupInv

/-! ## Operations below `UTOP` -/

section Dirs

variable {p : Nat} {R : Set Nat} {t : Pmap} {perm : Word}

theorem DirsWf.congr (h : DirsWf D s) (hmem : ∀ e ∈ D, s'.mem e = s.mem e) : DirsWf D s' := by
  intro d hd i hi
  rw [hmem d hd]
  exact h d hd i hi

theorem DirsWf.newTable (hwf : DirsWf D s) (h : PmapInv R D (p :: l) s) (i : Nat) :
    DirsWf D (s.newTable d i p) := by
  intro e he k hk
  rw [h.newTable_dir he]
  split
  · exact Or.inr (present_freshPde p)
  · exact hwf e he k hk

theorem DirsWf.insertMapped (hwf : DirsWf D s) (h : PmapInv R D l s) (hd : d ∈ D) (hva : va < UTOP)
    (hpde : Jos.present (s.mem d (PDX va))) : DirsWf D (s.insertMapped d p va perm) := by
  intro e he k hk
  have hne := h.sep.table_ne_dir d hd e he _ (PDX_lt_of_lt_UTOP hva) hpde
  rw [insertMapped_mem, Pmap.setPte, store_mem]
  split
  · exact Or.inr (present_or_left _ hpde)
  · rw [store_mem_of_ne _ _ _ hne.symm]
    exact hwf e he k hk

theorem DirsWf.pageInsert (hwf : DirsWf D s) (h : PmapInv R D l s) (hd : d ∈ D) (hva : va < UTOP) {r : Int}
    (hok : pageInsert s d p va perm = .ok (r, s')) : s'.kernPgdir = s.kernPgdir ∧ DirsWf D s' := by
  by_cases hpde : Jos.present (s.mem d (PDX va))
  · rw [h.pageInsert_mapped hd hva hpde] at hok
    cases hok
    exact ⟨swapRef_kernPgdir _ _, hwf.insertMapped h hd hva hpde⟩
  · cases l with
    | nil =>
      rw [pageInsert_noMem hpde h.free.head_none] at hok
      cases hok
      exact ⟨rfl, hwf⟩
    | cons q l =>
      have hnew := h.newTable hd (PDX_lt_of_lt_UTOP hva) hpde
      have hP := h.newTable_present (i := PDX va) hd
      rw [pageInsert_create hpde h.free.head_some h.head_managed.1 h.npages_le',
        hnew.pageInsert_mapped hd hva hP] at hok
      cases hok
      exact ⟨swapRef_kernPgdir _ _, (hwf.newTable h _).insertMapped hnew hd hva hP⟩

theorem DirsWf.newDir (hwf : DirsWf D s) (h : PmapInv R D (p :: l) s) : DirsWf (insert p D) (s.newDir p) := by
  intro e he k hk
  have hun := h.free_unnamed (List.mem_cons_self ..)
  rcases Finset.mem_insert.mp he with rfl | he
  · exact Or.inl (h.newDir_pde hk)
  · rw [newDir_mem_of_ne (h.dir_ne_of_unnamed hun he)]
    exact hwf e he k hk

/-- An operation below `UTOP` keeps the entries of directories zero or present. -/
theorem DirsWf.exec {op : PmapOp} (hwf : DirsWf m.dirs m.pmap) (h : PmapInv R m.dirs l m.pmap)
    (hen : op.Enabled s₀ m) (hok : op.exec m = .ok m') :
    m'.pmap.kernPgdir = m.pmap.kernPgdir ∧ DirsWf m'.dirs m'.pmap := by
  cases op with
  | alloc zero =>
    obtain ⟨⟨r, t⟩, hcode, hend⟩ := Except.bind_eq_ok.mp hok
    cases hend
    cases l with
    | nil =>
      rw [pageAlloc_none zero h.free.head_none] at hcode
      cases hcode
      exact ⟨rfl, hwf⟩
    | cons p l =>
      have hun := h.free_unnamed (List.mem_cons_self ..)
      rw [pageAlloc_some zero h.free.head_some h.head_managed.1 h.npages_le'] at hcode
      cases hcode
      cases zero with
      | false => exact ⟨rfl, hwf⟩
      | true => exact ⟨rfl, hwf.congr fun e he => clearPage_mem_of_ne _ _ (h.dir_ne_of_unnamed hun he)⟩
  | free p =>
    obtain ⟨t, hcode, hend⟩ := Except.bind_eq_ok.mp hok
    cases hend
    unfold pageFree at hcode
    split at hcode
    · cases hcode
    · cases hcode
      exact ⟨rfl, hwf⟩
  | walk d va =>
    obtain ⟨⟨r, t⟩, hcode, hend⟩ := Except.bind_eq_ok.mp hok
    cases hend
    obtain ⟨hd, hva⟩ := hen
    have hi := PDX_lt_of_lt_UTOP hva
    by_cases hP : Jos.present (m.pmap.mem d (PDX va))
    · rw [pgdirWalk_present true hP (h.table_managed hd hi hP).1] at hcode
      cases hcode
      exact ⟨rfl, hwf⟩
    · cases l with
      | nil =>
        rw [pgdirWalk_noMem hP h.free.head_none] at hcode
        cases hcode
        exact ⟨rfl, hwf⟩
      | cons p l =>
        rw [pgdirWalk_create hP h.free.head_some h.head_managed.1 h.npages_le'] at hcode
        cases hcode
        exact ⟨rfl, hwf.newTable h _⟩
  | insert d p va perm =>
    obtain ⟨⟨r, t⟩, hcode, hend⟩ := Except.bind_eq_ok.mp hok
    cases hend
    exact hwf.pageInsert h hen.1 hen.2.1 hcode
  | remove d va =>
    obtain ⟨t, hcode, hend⟩ := Except.bind_eq_ok.mp hok
    cases hend
    obtain ⟨hd, hva⟩ := hen
    by_cases hP : Jos.present (pteOf m.pmap d (PGNUM va))
    · rw [h.pageRemove_mapped hd hva hP] at hcode
      cases hcode
      have hpde := (present_pde_of_pte hP).1
      refine ⟨decref_kernPgdir _ _, hwf.congr fun e he => ?_⟩
      have hne := h.sep.table_ne_dir d hd e he _ (PDX_lt_of_lt_UTOP hva) hpde
      rw [Pmap.unmap, store_mem_of_ne _ _ _ hne.symm, decref_mem]
    · rw [h.pageRemove_unmapped hd hva hP] at hcode
      cases hcode
      exact ⟨rfl, hwf⟩
  | setupVm =>
    obtain ⟨⟨r, t⟩, hcode, hend⟩ := Except.bind_eq_ok.mp hok
    cases l with
    | nil =>
      rw [envSetupVm_none h.free.head_none] at hcode
      cases hcode
      cases hend
      exact ⟨rfl, hwf⟩
    | cons p l =>
      rw [envSetupVm_some h.free.head_some h.head_managed.1 h.npages_le'] at hcode
      cases hcode
      cases hend
      exact ⟨rfl, hwf.newDir h⟩
  | freeVm d =>
    obtain ⟨t, hcode, hend⟩ := Except.bind_eq_ok.mp hok
    cases hend
    obtain ⟨s', l', hcode', -, hff⟩ := h.envFreeVm_spec hen
    obtain rfl : s' = t := Except.ok.inj (hcode'.symm.trans hcode)
    refine ⟨hff.frame.kern, fun e he k hk => ?_⟩
    obtain ⟨hne, he⟩ := Finset.mem_erase.mp he
    rw [hff.mem e hne fun i hi hn => ?_]
    · exact hwf e he k hk
    · obtain ⟨hP, hpage⟩ := named_eq_some.mp hn
      exact h.sep.table_ne_dir d hen e he i hi hP hpage

end Dirs

namespace LookupInv

theorem below_step {op : PmapOp} (h : LookupInv s₀ m) (h₀ : KernTables s₀) (hen : op.Enabled s₀ m)
    (hok : op.exec m = .ok m') : LookupInv s₀ m' := by
  obtain ⟨l, hinv⟩ := h.inv
  have hkern : s₀.mem m.pmap.kernPgdir = m.pmap.mem m.pmap.kernPgdir := by
    rw [h.kern, h.kernMem]
  have hres := hinv.exec_reserved hen hok
  have hcode := hinv.exec_withReserved (g := s₀.mem) hen hkern
  rw [hok] at hcode
  have hfree : ∀ p, OnFreeList s₀ p → p < s₀.npages := by
    obtain ⟨l, hl⟩ := h₀.inv
    exact fun p hp => (hl.consistent.free_managed p (hl.free.onFreeList_iff.mp hp)).1
  obtain ⟨t, l', hcode', hinv', hn'⟩ := PmapInv.exec_step (m := m.withReserved (notFree s₀) s₀.mem) hinv h.npages
    hfree (hinv.enabled_withReserved hen)
  have heq : t = m'.withReserved (notFree s₀) s₀.mem := Except.ok.inj (hcode'.symm.trans hcode)
  subst heq
  have hdirs : DirsWf m.dirs (m.pmap.withReserved (notFree s₀) s₀.mem) :=
    h.dirsWf.congr fun e he => withReserved_mem (hinv.dir_managed he).2
  obtain ⟨hkern', hdirs'⟩ := DirsWf.exec (m := m.withReserved (notFree s₀) s₀.mem) hdirs hinv
    (hinv.enabled_withReserved hen) hcode'
  refine ⟨⟨l', hinv'⟩, hn', hkern'.trans h.kern, ?_, fun i hi j hj => ?_, ?_⟩
  · rw [hres _ h.kernPgdir_reserved]
    exact h.kernMem
  · rw [hres _ (h.kernTable_lt h₀ hi).1]
    exact h.kernWf i hi j hj
  · exact DirsWf.congr hdirs' fun e he => (withReserved_mem (hinv'.dir_managed he).2).symm

/-! ## Operations above `UTOP`, and stores -/

/-- A walk above `UTOP` finds the page table of the kernel, or the directory itself. -/
theorem walk_above (h : LookupInv s₀ m) (h₀ : KernTables s₀) (hd : d ∈ insert m.pmap.kernPgdir m.dirs)
    (hva : UTOP ≤ va) : pgdirWalk m.pmap d va true = .ok (some ⟨tableOf m.pmap d (PDX va), PTX va⟩, m.pmap) := by
  have hlo : NUPDE ≤ PDX va := by
    rw [BitVec.le_def, toNat_UTOP] at hva
    rw [PDX_eq, NUPDE]
    omega
  have hP : Jos.present (m.pmap.mem d (PDX va)) := by
    by_cases huvpt : PDX va = PDX UVPT
    · rw [huvpt]
      exact (h.self h₀ hd).1
    · have hk : KernPde (PDX va) := ⟨hlo, PDX_lt va, huvpt⟩
      rw [h.upper hd hk]
      exact h₀.present _ hk
  exact pgdirWalk_present true hP (h.tablesWf h₀ d hd _ (PDX_lt va) hP).1

/-- A new entry in a page table of the kernel. -/
theorem store_kernTable (h : LookupInv s₀ m) (h₀ : KernTables s₀) (hi : KernPde i) {w : Word} (hw : Jos.present w) :
    LookupInv s₀ { m with pmap := m.pmap.store ⟨tableOf s₀ s₀.kernPgdir i, j⟩ w } := by
  obtain ⟨l, hinv⟩ := h.inv
  have hres := (h.kernTable_lt h₀ hi).1
  refine ⟨⟨l, ?_⟩, h.npages, h.kern, ?_, fun k hk j' hj' => ?_, ?_⟩
  · rw [store_reserved (a := ⟨tableOf s₀ s₀.kernPgdir i, j⟩) hres]
    exact hinv
  · rw [store_mem_of_ne _ _ _ (h₀.ne i hi).symm]
    exact h.kernMem
  · rw [store_mem]
    split
    · exact Or.inr hw
    · exact h.kernWf k hk j' hj'
  · refine h.dirsWf.congr fun e he => store_mem_of_ne _ _ _ ?_
    rintro rfl
    exact (hinv.dir_managed he).2 hres

theorem bootMapPages_step (h₀ : KernTables s₀) {n : Nat} {pa perm : Word} (h : LookupInv s₀ m)
    (hd : d ∈ insert m.pmap.kernPgdir m.dirs)
    (hn : ∀ j < n, KernPde (PDX (va + BitVec.ofNat 32 (j * PGSIZE))))
    (hok : bootMapPages m.pmap d perm n va pa = .ok s') : LookupInv s₀ { m with pmap := s' } := by
  induction n generalizing va pa m with
  | zero =>
    cases hok
    exact h
  | succ n ih =>
    have hk : KernPde (PDX va) := by
      have h := hn 0 (Nat.succ_pos n)
      rwa [Nat.zero_mul, BitVec.add_zero] at h
    have hP : Jos.present (m.pmap.mem d (PDX va)) := by
      rw [h.upper hd hk]
      exact h₀.present _ hk
    have htab : tableOf m.pmap d (PDX va) = tableOf s₀ s₀.kernPgdir (PDX va) := by
      rw [tableOf, h.upper hd hk]
    have hwalk := pgdirWalk_present true hP (h.tablesWf h₀ d hd _ (PDX_lt va) hP).1
    rw [bootMapPages, hwalk] at hok
    simp only [Except.ok_bind] at hok
    have hnext : LookupInv s₀
        { m with pmap := m.pmap.store ⟨tableOf m.pmap d (PDX va), PTX va⟩ (pa ||| PTE_P ||| perm) } := by
      rw [htab]
      exact h.store_kernTable h₀ hk (present_or_left _ (present_or_right _ (by decide)))
    refine ih (m := { m with pmap := m.pmap.store ⟨tableOf m.pmap d (PDX va), PTX va⟩ (pa ||| PTE_P ||| perm) })
      hnext hd (fun j hj => ?_) hok
    have h := hn (j + 1) (Nat.succ_lt_succ hj)
    rwa [Nat.succ_mul, Nat.add_comm, BitVec.ofNat_add, ← BitVec.add_assoc] at h

/-- A store to a page that holds no page table. -/
theorem write_step (h : LookupInv s₀ m) (h₀ : KernTables s₀) (hp : ¬ HoldsTable m p) (i : Nat) (w : Word) :
    LookupInv s₀ { m with pmap := m.pmap.store ⟨p, i⟩ w } := by
  obtain ⟨l, hinv⟩ := h.inv
  have hmemK : m.pmap.kernPgdir ∈ insert m.pmap.kernPgdir m.dirs := Finset.mem_insert_self ..
  have hkern : s₀.kernPgdir ≠ p := by
    rintro rfl
    exact hp ⟨_, hmemK, Or.inl h.kern.symm⟩
  have htables : ∀ k, KernPde k → tableOf s₀ s₀.kernPgdir k ≠ p := by
    rintro k hk rfl
    refine hp ⟨_, hmemK, Or.inr ⟨k, hk.2.1, ?_⟩⟩
    rw [h.upper hmemK hk]
    exact named_present (h₀.present k hk)
  have hdirs : ∀ e ∈ m.dirs, e ≠ p := by
    rintro e he rfl
    exact hp ⟨e, Finset.mem_insert_of_mem he, Or.inl rfl⟩
  refine ⟨⟨l, ?_⟩, h.npages, h.kern, ?_, fun k hk j hj => ?_, ?_⟩
  · by_cases hres : p ∈ notFree s₀
    · rw [store_reserved (a := ⟨p, i⟩) hres]
      exact hinv
    · rw [← store_withReserved (a := ⟨p, i⟩) hres]
      refine hinv.of_mem rfl rfl rfl rfl (fun q hq => ?_) (fun e he => ?_) fun e he k hk hP => ?_
      · refine store_mem_of_ne _ _ _ ?_
        rintro rfl
        exact hres hq
      · exact store_mem_of_ne _ _ _ (hdirs e he)
      · refine store_mem_of_ne _ _ _ ?_
        rintro rfl
        refine hp ⟨e, Finset.mem_insert_of_mem he, Or.inr ⟨k, hk.trans (by decide), ?_⟩⟩
        rw [withReserved_mem (hinv.dir_managed he).2] at hP ⊢
        exact named_present hP
  · rw [store_mem_of_ne _ _ _ hkern]
    exact h.kernMem
  · rw [store_mem_of_ne _ _ _ (htables k hk)]
    exact h.kernWf k hk j hj
  · exact h.dirsWf.congr fun e he => store_mem_of_ne _ _ _ (hdirs e he)

theorem step {op : LookupOp} (h : LookupInv s₀ m) (h₀ : KernTables s₀) (hen : op.Enabled s₀ m)
    (hok : op.exec m = .ok m') : LookupInv s₀ m' := by
  cases op with
  | below op => exact h.below_step h₀ hen hok
  | walkAbove d va =>
    obtain ⟨⟨r, t⟩, hcode, hend⟩ := Except.bind_eq_ok.mp hok
    cases hend
    rw [h.walk_above h₀ hen.1 hen.2] at hcode
    cases hcode
    exact h
  | bootMap d va size pa perm =>
    obtain ⟨t, hcode, hend⟩ := Except.bind_eq_ok.mp hok
    cases hend
    rw [BootInv.bootMapRegion_eq] at hcode
    exact h.bootMapPages_step h₀ hen.1 hen.2 hcode
  | write p i w =>
    cases hok
    exact h.write_step h₀ hen i w

end LookupInv

theorem LookupRun.inv (h₀ : KernTables s₀) (h : LookupRun s₀ m) : LookupInv s₀ m := by
  induction h with
  | init => exact h₀.start
  | step op _ hen hok ih => exact ih.step h₀ hen hok

/-- In every state that a run from `mem_init` reaches, all page tables are well-formed, and `page_lookup` agrees with
the hardware walk in every directory and at every address. -/
theorem memInit_lookup_agrees (h₀ : MemInit b s₀) (h : LookupRun s₀ m) :
    TablesWf m.dirs m.pmap ∧ ∀ d ∈ insert m.pmap.kernPgdir m.dirs, ∀ va, LookupAgrees m.pmap d va := by
  have hwf := (h.inv h₀.kernTables).tablesWf h₀.kernTables
  exact ⟨hwf, fun d hd va => hwf.agrees hd va⟩

/-- What `mem_init` maps at `UENVS`. -/
theorem memInit_lookup_agrees_demoBoot : ∃ s₀, MemInit demoBoot s₀ ∧ LookupRun s₀ ⟨s₀, ∅⟩ ∧
    LookupAgrees s₀ s₀.kernPgdir UENVS := by
  obtain ⟨s₀, h₀⟩ := demoBoot_memInit
  exact ⟨s₀, h₀, .init, (memInit_lookup_agrees h₀ .init).2 _ (Finset.mem_insert_self ..) UENVS⟩

/-! ## The window at `UVPT` -/

/-- A directory that maps nothing, and an allocated page whose first word is neither zero nor a present entry. -/
theorem demoBoot_dataPage : ∃ s₀ m d p, MemInit demoBoot s₀ ∧ LookupRun s₀ m ∧ d ∈ m.dirs ∧
    m.pmap.mem d 0 = 0#32 ∧ Allocated s₀ m.pmap p ∧ p < m.pmap.npages ∧ p ≠ d ∧ m.pmap.mem p 0 = 2#32 := by
  obtain ⟨s₀, l, ep, h₀, hb, hroom, -, -⟩ := demoBoot_booted
  have htables := kernTables_le s₀
  obtain ⟨d, p, l, rfl⟩ : ∃ d p l', l = d :: p :: l' := by
    match l with
    | d :: p :: l => exact ⟨d, p, l, rfl⟩
    | [] | [_] =>
      simp only [List.length_nil, List.length_cons] at hroom
      omega
  have hinv := hb.pmapInv
  have hkt := h₀.kernTables
  have hmem : p ∈ d :: p :: l := List.mem_cons_of_mem d (List.mem_cons_self ..)
  have hp : Managed s₀.npages (notFree s₀) p := hinv.consistent.free_managed p hmem
  have hpd : p ≠ d := fun he => hinv.head_notMem (he ▸ List.mem_cons_self ..)
  -- `env_setup_vm`, `page_alloc`, and a word of data
  have hinv₁ := hinv.newDir
  have hrun₁ : LookupRun s₀ ⟨s₀.newDir d, {d}⟩ := by
    refine .step (.below .setupVm) .init trivial ?_
    simp only [LookupOp.exec, PmapOp.exec, envSetupVm_some hinv.free.head_some hinv.head_managed.1 hinv.npages_le',
      Except.ok_bind]
    rfl
  have hrun₂ : LookupRun s₀ ⟨(s₀.newDir d).takeFree p, {d}⟩ := by
    refine .step (.below (.alloc false)) hrun₁ trivial ?_
    simp only [LookupOp.exec, PmapOp.exec,
      pageAlloc_some false hinv₁.free.head_some hinv₁.head_managed.1 hinv₁.npages_le', Except.ok_bind]
    rfl
  have hl := hrun₂.inv hkt
  have hdirs : ∀ e ∈ insert s₀.kernPgdir ({d} : Finset Nat), p ≠ e := by
    intro e he
    rcases Finset.mem_insert.mp he with rfl | he
    · exact fun hc => hp.2 (hc ▸ hl.kernPgdir_reserved)
    · rwa [Finset.mem_singleton.mp he]
  have hzero : ∀ i < NUPDE, (s₀.newDir d).mem d i = 0#32 := fun i hi => hinv.newDir_pde hi
  have hnot : ¬ HoldsTable ⟨(s₀.newDir d).takeFree p, {d}⟩ p := by
    rintro ⟨e, he, rfl | ⟨i, hi, hn⟩⟩
    · exact hdirs _ he rfl
    · obtain ⟨hP, hpage⟩ := named_eq_some.mp hn
      by_cases huvpt : i = PDX UVPT
      · subst huvpt
        exact hdirs e he (hpage.symm.trans (hl.self hkt he).2)
      · by_cases hlo : i < NUPDE
        · have hez : (s₀.newDir d).mem e i = 0#32 := by
            rcases Finset.mem_insert.mp he with rfl | he
            · exact hinv₁.map.kern_user i hlo
            · rw [Finset.mem_singleton.mp he]
              exact hzero i hlo
          rw [takeFree_mem, hez] at hP
          exact not_present_zero hP
        · have hk : KernPde i := ⟨not_lt.mp hlo, hi, huvpt⟩
          rw [hl.upper he hk] at hpage
          exact hp.2 (hpage ▸ (hl.kernTable_lt hkt hk).1)
  have hrun₃ : LookupRun s₀ ⟨((s₀.newDir d).takeFree p).store ⟨p, 0⟩ 2#32, {d}⟩ :=
    .step (.write p 0 2#32) hrun₂ hnot rfl
  refine ⟨s₀, _, d, p, h₀, hrun₃, Finset.mem_singleton_self d, ?_, ⟨hinv.free.onFreeList_iff.mpr hmem, ?_⟩, hp.1,
    hpd, ?_⟩
  · rw [store_mem_of_ne _ _ _ hpd.symm, takeFree_mem]
    exact hzero 0 (by decide)
  · have hfree : FreeInv (((s₀.newDir d).takeFree p).store ⟨p, 0⟩ 2#32) l :=
      hinv₁.free.takeFree.congr rfl (fun _ => rfl) rfl
    rw [hfree.onFreeList_iff]
    exact hinv₁.head_notMem
  · rw [store_mem, if_pos ⟨rfl, rfl⟩]

/-- At `UVPT` the entry that `page_insert` writes is the first one of the directory. -/
theorem LookupInv.pageInsert_UVPT (h : LookupInv s₀ m) (h₀ : KernTables s₀) (hd : d ∈ m.dirs) {p : Nat} (hpd : p ≠ d)
    (hz : m.pmap.mem d 0 = 0#32) (perm : Word) : ∃ s', pageInsert m.pmap d p UVPT perm = .ok (0, s') ∧
      s'.npages = m.pmap.npages ∧ s'.mem d 0 = mkPte p perm ∧ s'.mem p = m.pmap.mem p := by
  have hmem : d ∈ insert m.pmap.kernPgdir m.dirs := Finset.mem_insert_of_mem hd
  have hwalk := h.walk_above h₀ hmem (show UTOP ≤ UVPT by decide)
  have hptx : PTX UVPT = 0 := by decide
  have hpdx : PDX UVPT ≠ 0 := by decide
  rw [(h.self h₀ hmem).2, hptx] at hwalk
  have hold : ¬ present ((m.pmap.setRef p ((m.pmap.pages p).ppRef + 1#16)).load ⟨d, 0⟩) := by
    rw [load, setRef_mem, hz]
    exact not_present_zero
  refine ⟨OffReserved.insertEnd d p UVPT perm ⟨d, 0⟩ (m.pmap.setRef p ((m.pmap.pages p).ppRef + 1#16)), ?_, rfl,
    ?_, ?_⟩
  · simp only [pageInsert, hwalk, Except.ok_bind]
    rw [if_neg hold]
    rfl
  · rw [OffReserved.insertEnd, store_mem, if_neg fun hc => hpdx hc.2.symm, store_mem, if_pos ⟨rfl, rfl⟩]
  · rw [OffReserved.insertEnd, store_mem_of_ne _ _ _ hpd, store_mem_of_ne _ _ _ hpd, setRef_mem]

/-- A page of data, inserted at `UVPT`, becomes the first page table of the directory. Its first word is not a page
table entry, and `page_lookup` takes it for one. -/
theorem pageInsert_at_UVPT : ∃ s₀ m d p s', MemInit demoBoot s₀ ∧ LookupRun s₀ m ∧ d ∈ m.dirs ∧
    Allocated s₀ m.pmap p ∧ pageInsert m.pmap d p UVPT PTE_U = .ok (0, s') ∧ ¬ LookupAgrees s' d 0#32 := by
  obtain ⟨s₀, m, d, p, h₀, hrun, hd, hz, hp, hlt, hpd, hdata⟩ := demoBoot_dataPage
  have hinv := hrun.inv h₀.kernTables
  obtain ⟨s', hins, hn, hpde, hpage⟩ := hinv.pageInsert_UVPT h₀.kernTables hd hpd hz PTE_U
  refine ⟨s₀, m, d, p, s', h₀, hrun, hd, hp, hins, ?_⟩
  have hpdx : PDX 0#32 = 0 := by decide
  have hptx : PTX 0#32 = 0 := by decide
  have htab : tableOf s' d (PDX 0#32) = p := by
    obtain ⟨l, hl⟩ := hinv.inv
    rw [tableOf, hpdx, hpde, ppn_mkPte (hlt.trans_le hl.npages_le') (by decide)]
  have hP : present (s'.mem d (PDX 0#32)) := by
    rw [hpdx, hpde]
    exact present_mkPte p PTE_U
  rw [lookupAgrees_iff hP (by rw [htab, hn]; exact hlt), htab, hptx, hpage, hdata]
  exact not_or.mpr ⟨by decide, by decide⟩

end Jos
