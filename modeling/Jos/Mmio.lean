import Jos.KernelMap

/-!
# Mapping device memory

`mmio_map_region` hands out the window of `MMIOBASE` from bottom to top. As long as the physical address is
aligned to a page, the limit test does not overflow and the page table of the window is there, the address it
returns maps what was asked for, the regions of all calls lie apart, and nothing outside the window changes.

The code rounds the physical address down and returns the start of the region, so an address that is not aligned
comes out too low. And the test `base + size >= MMIOLIM` is made in 32 bits: a request that is large enough to
overflow passes it. A page table that the call has to make shows at `UVPT`; `check_page` makes it in the first
call of all.
-/

namespace Jos

open Pmap BootInv

variable {l : List Nat} {s s' s₀ : Pmap} {b : BootInfo}

/-- A call of `mmio_map_region` that has returned. -/
structure MmioCall where
  pa : Word
  size : Word
  ret : Word

/-- Calls of `mmio_map_region` that return, the latest first, each in a state and with arguments that satisfy
`P`. -/
inductive MmioRun (P : Pmap → Word → Word → Prop) (s₀ : Pmap) : List MmioCall → Pmap → Prop
  | start : MmioRun P s₀ [] s₀
  | call {cs : List MmioCall} {s s' : Pmap} {pa size r : Word} : MmioRun P s₀ cs s → 1#32 ≤ size →
      pa.toNat + size.toNat ≤ 2 ^ 32 → P s pa size → mmioMapRegion s pa size = .ok (r, s') →
      MmioRun P s₀ (⟨pa, size, r⟩ :: cs) s'

/-- The flags of device memory. -/
def MMIO_FLAGS : Word := PTE_P ||| (PTE_PCD ||| PTE_PWT ||| PTE_W)

/-- What the calls `cs` have done between `s₀` and `s`. -/
structure MmioLaw (s₀ : Pmap) (cs : List MmioCall) (s : Pmap) : Prop where
  mapped : ∀ c ∈ cs, ∀ k < c.size, xlate s s.kernPgdir (c.ret + k) = some (c.pa + k, MMIO_FLAGS)
  window : ∀ c ∈ cs, MMIOBASE ≤ c.ret ∧ c.ret.toNat + c.size.toNat ≤ MMIOLIM.toNat
  disjoint : cs.Pairwise fun c c' => c'.ret.toNat + c'.size.toNat ≤ c.ret.toNat ∨
    c.ret.toNat + c.size.toNat ≤ c'.ret.toNat
  outside : ∀ va, va < MMIOBASE ∨ MMIOLIM ≤ va → xlate s s.kernPgdir va = xlate s₀ s₀.kernPgdir va

/-- The page table of the window is there, the physical address is aligned, and the addition in the limit test
does not overflow. -/
def MmioFits (s : Pmap) (pa size : Word) : Prop :=
  present (s.mem s.kernPgdir (PDX MMIOBASE)) ∧ pa.toNat % PGSIZE = 0 ∧
    s.mmioBase.toNat + (pa.toNat + size.toNat + (PGSIZE - 1)) / PGSIZE * PGSIZE < pa.toNat + 2 ^ 32

/-- A state of the kernel's page tables in which `mmio_map_region` may be called: `base` is an address of a page
in the window. -/
def MmioReady (s : Pmap) : Prop :=
  ∃ l m, BootInv l s ∧ s.mmioBase = pageAddr m ∧ 980992 ≤ m ∧ m ≤ 982016

theorem MemInit.mmioReady (h : MemInit b s) : MmioReady s := by
  obtain ⟨l, ep, hb, -, -, -, hbase⟩ := h.booted
  exact ⟨l, 980995, hb.inv, hbase, by omega, by omega⟩

/-! ## The invariant of the calls -/

/-- The pages a call has mapped, among the first `m`. -/
structure MmioMapped (s : Pmap) (m : Nat) (c : MmioCall) (j n : Nat) : Prop where
  ret : c.ret = pageAddr j
  lo : 980992 ≤ j
  hi : j + n ≤ m
  size : c.size.toNat ≤ n * 4096
  aligned : c.pa.toNat % 4096 = 0
  pte : ∀ w, j ≤ w → w < j + n → pteOf s s.kernPgdir w
    = (c.pa + BitVec.ofNat 32 ((w - j) * PGSIZE)) ||| PTE_P ||| (PTE_PCD ||| PTE_PWT ||| PTE_W)

/-- What holds after any number of calls: `base` is at page `m`. -/
structure MmioInv (s₀ : Pmap) (cs : List MmioCall) (s : Pmap) (m : Nat) : Prop where
  inv : ∃ l, BootInv l s
  kern : s.kernPgdir = s₀.kernPgdir
  base : s.mmioBase = pageAddr m
  lo : 980992 ≤ m
  hi : m ≤ 982016
  calls : ∀ c ∈ cs, ∃ j n, MmioMapped s m c j n
  /-- A later call starts where the earlier ones have ended. -/
  apart : cs.Pairwise fun c c' => c'.ret.toNat + c'.size.toNat ≤ c.ret.toNat
  outside : ∀ w, KernPde (w / 1024) → w < 980992 ∨ 982016 ≤ w →
    pteOf s s.kernPgdir w = pteOf s₀ s₀.kernPgdir w
  dir : ∀ i, s.mem s.kernPgdir i = s₀.mem s₀.kernPgdir i

/-- The size the code computes for an aligned address. -/
theorem mmio_size {pa size : Word} {n : Nat} (hal : pa.toNat % 4096 = 0)
    (hn : (pa.toNat + size.toNat + 4095) / 4096 * 4096 = pa.toNat + n * 4096) :
    ROUNDUP (pa + size) PGSIZE - ROUNDDOWN pa PGSIZE = BitVec.ofNat 32 (n * 4096) := by
  have hpa := pa.isLt
  have hsz := size.isLt
  apply BitVec.eq_of_toNat_eq
  rw [BitVec.toNat_sub, toNat_ROUNDUP, toNat_ROUNDDOWN, BitVec.toNat_add, BitVec.toNat_ofNat]
  omega

theorem MmioInv.call {cs : List MmioCall} {m : Nat} {pa size r : Word} (h : MmioInv s₀ cs s m)
    (hsize : 1#32 ≤ size) (hfits : MmioFits s pa size)
    (hok : mmioMapRegion s pa size = .ok (r, s')) :
    ∃ m', MmioInv s₀ (⟨pa, size, r⟩ :: cs) s' m' := by
  obtain ⟨l, hinv⟩ := h.inv
  obtain ⟨htable, hal, hfits⟩ := hfits
  have hlo := h.lo
  have hhi := h.hi
  have hone : 1 ≤ size.toNat := hsize
  rw [h.base, toNat_pageAddr (by omega)] at hfits
  unfold PGSIZE at hal hfits
  obtain ⟨n, hn⟩ : ∃ n, (pa.toNat + size.toNat + 4095) / 4096 * 4096 = pa.toNat + n * 4096 :=
    ⟨(pa.toNat + size.toNat + 4095) / 4096 - pa.toNat / 4096, by omega⟩
  have hrounded := mmio_size hal hn
  have hwin := mmioMapRegion_window h.base (by omega) hrounded hok
  obtain ⟨rfl, hbase, l', hinv', hf, hpte, -, -, hdir⟩ := hinv.mmioMapRegion_ok h.base hrounded hlo hwin hok
  have hdown : ROUNDDOWN pa PGSIZE = pa := by
    apply BitVec.eq_of_toNat_eq
    rw [toNat_ROUNDDOWN]
    omega
  rw [hdown] at hpte
  have hkw : ∀ w, m ≤ w → w < m + n → KernPde (w / 1024) := fun w hw hw' => kernPde_iff.mpr (by omega)
  refine ⟨m + n, ⟨l', hinv'⟩, hf.kern.trans h.kern, hbase, by omega, by omega, ?_, ?_, ?_, ?_⟩
  · intro c hc
    rcases List.mem_cons.mp hc with rfl | hc
    · refine ⟨m, n, rfl, hlo, le_rfl, by show size.toNat ≤ n * 4096; omega, hal, fun w hw hw' => ?_⟩
      rw [hf.kern, hpte w (hkw w hw hw'), if_pos ⟨hw, hw'⟩]
    · obtain ⟨j, n', hc⟩ := h.calls c hc
      have hj := hc.lo
      have hj' := hc.hi
      refine ⟨j, n', hc.ret, hc.lo, by omega, hc.size, hc.aligned, fun w hw hw' => ?_⟩
      rw [hf.kern, hpte w (kernPde_iff.mpr (by omega)), if_neg (by omega), hc.pte w hw hw']
  · refine List.pairwise_cons.mpr ⟨fun c hc => ?_, h.apart⟩
    obtain ⟨j, n', hc⟩ := h.calls c hc
    have hj' := hc.hi
    have hs := hc.size
    show c.ret.toNat + c.size.toNat ≤ (pageAddr m).toNat
    rw [hc.ret, toNat_pageAddr (by omega), toNat_pageAddr (by omega)]
    omega
  · intro w hw hout
    rw [hf.kern, hpte w hw, if_neg (by omega), h.outside w hw hout]
  · intro i
    have hi : i ≠ 958 ∨ present (s.mem s.kernPgdir i) := by
      by_cases hi : i = 958
      · exact Or.inr (hi ▸ htable)
      · exact Or.inl hi
    rw [hf.kern, hdir i hi, h.dir i]

theorem MmioRun.inv {cs : List MmioCall} (h₀ : MmioReady s₀) (h : MmioRun MmioFits s₀ cs s) :
    ∃ m, MmioInv s₀ cs s m := by
  induction h with
  | start =>
    obtain ⟨l, m, hinv, hbase, hlo, hhi⟩ := h₀
    exact ⟨m, ⟨l, hinv⟩, rfl, hbase, hlo, hhi, nofun, .nil, fun _ _ _ => rfl, fun _ => rfl⟩
  | call _ hsize _ hfits hok ih =>
    obtain ⟨m, hm⟩ := ih
    exact hm.call hsize hfits hok

/-! ## The law -/

/-- What a call has mapped. -/
theorem MmioMapped.xlate {c : MmioCall} {m j n : Nat} {k : Word} (h : MmioMapped s m c j n) (hm : m ≤ 982016)
    (hk : k < c.size) : xlate s s.kernPgdir (c.ret + k) = some (c.pa + k, MMIO_FLAGS) := by
  have hlo := h.lo
  have hhi := h.hi
  have hsize := h.size
  have hk' : k.toNat < c.size.toNat := hk
  have hsum : (c.ret + k).toNat = j * 4096 + k.toNat := by
    rw [h.ret, BitVec.toNat_add, toNat_pageAddr (by omega)]
    omega
  have hle : c.ret ≤ c.ret + k := by
    rw [BitVec.le_def, hsum, h.ret, toNat_pageAddr (by omega)]
    omega
  have hnum := PGNUM_eq (c.ret + k)
  have hpte := h.pte (PGNUM (c.ret + k)) (by omega) (by omega)
  have hx := xlate_window h.ret (by omega) hle h.aligned (by decide) hpte
  rwa [show c.ret + k - c.ret = k by rw [BitVec.add_comm, BitVec.add_sub_cancel]] at hx

/-- The part of the address space that is not in the window. -/
theorem MmioInv.xlate_outside {cs : List MmioCall} {m : Nat} {va : Word} (h₀ : BootInv l s₀)
    (h : MmioInv s₀ cs s m) (hva : va < MMIOBASE ∨ MMIOLIM ≤ va) :
    xlate s s.kernPgdir va = xlate s₀ s₀.kernPgdir va := by
  obtain ⟨l', hinv⟩ := h.inv
  have hnum := PGNUM_eq va
  have hlt := va.isLt
  have hpte : pteOf s s.kernPgdir (PGNUM va) = pteOf s₀ s₀.kernPgdir (PGNUM va) := by
    by_cases hk : KernPde (PGNUM va / 1024)
    · refine h.outside _ hk ?_
      have h₁ : MMIOBASE.toNat = 980992 * 4096 := by decide
      have h₂ : MMIOLIM.toNat = 982016 * 4096 := by decide
      rw [BitVec.lt_def, BitVec.le_def, h₁, h₂] at hva
      omega
    · rw [pteOf_PGNUM, pteOf_PGNUM, h.dir (PDX va)]
      have hpdx := PDX_eq va
      rw [kernPde_iff] at hk
      by_cases hself : PDX va = PDX UVPT
      · -- the directory is the page table here
        rw [hself, hinv.tableOf_UVPT, h₀.tableOf_UVPT, h.dir]
      · have huvpt : PDX UVPT = 957 := by decide
        have hnupde : NUPDE = 955 := by decide
        rw [h₀.kern_user _ (by omega), if_neg not_present_zero, if_neg not_present_zero]
  simp only [xlate, hpte]

/-- As long as every call fits, `mmio_map_region` maps what it is asked for, each time in a new part of the
window. -/
theorem mmioMapRegion_law {cs : List MmioCall} (h₀ : MmioReady s₀) (h : MmioRun MmioFits s₀ cs s) :
    MmioLaw s₀ cs s := by
  obtain ⟨m, hinv⟩ := h.inv h₀
  obtain ⟨l, -, hboot, -⟩ := h₀
  have hm := hinv.hi
  refine ⟨fun c hc k hk => ?_, fun c hc => ?_, hinv.apart.imp fun hle => Or.inl hle, fun va hva => ?_⟩
  · obtain ⟨j, n, hc⟩ := hinv.calls c hc
    exact hc.xlate hm hk
  · obtain ⟨j, n, hc⟩ := hinv.calls c hc
    have hlo := hc.lo
    have hhi := hc.hi
    have hsize := hc.size
    have h₁ : MMIOBASE.toNat = 980992 * 4096 := by decide
    have h₂ : MMIOLIM.toNat = 982016 * 4096 := by decide
    rw [BitVec.le_def, h₁, h₂, hc.ret, toNat_pageAddr (by omega)]
    omega
  · exact hinv.xlate_outside hboot hva

/-- On the machine of `demoBoot` there is room for a page of the window. -/
theorem demoBoot_mmioMapRegion (pa size : Word)
    (hsize : ROUNDUP (pa + size) PGSIZE - ROUNDDOWN pa PGSIZE = BitVec.ofNat 32 (1 * 4096)) :
    ∃ s r s', MemInit demoBoot s ∧ mmioMapRegion s pa size = .ok (r, s') := by
  obtain ⟨s, l, ep, h, hb, hroom, -, hbase⟩ := demoBoot_booted
  obtain ⟨⟨r, s'⟩, hs'⟩ := hb.inv.mmioMapRegion_exists pa size hbase hsize (by omega) (by omega) (by omega)
  exact ⟨s, r, s', h, hs'⟩

/-- The registers of a local APIC are mapped. -/
theorem mmioMapRegion_law_demoBoot : ∃ s r s', MemInit demoBoot s ∧
    MmioRun MmioFits s [⟨0xFEE00000#32, 4096#32, r⟩] s' ∧ MmioLaw s [⟨0xFEE00000#32, 4096#32, r⟩] s' := by
  obtain ⟨s, r, s', h, hs'⟩ := demoBoot_mmioMapRegion 0xFEE00000#32 4096#32 (by decide)
  obtain ⟨l, ep, hb, -, -, -, hbase⟩ := h.booted
  obtain ⟨s₁, pages, envs, l', -, -, -, -, hptes⟩ := h.kernPtes
  have hfits : MmioFits s 0xFEE00000#32 4096#32 := by
    refine ⟨hptes.mmio, by decide, ?_⟩
    rw [hbase]
    decide
  have hrun : MmioRun MmioFits s [⟨0xFEE00000#32, 4096#32, r⟩] s' :=
    .call .start (by decide) (by decide) hfits hs'
  exact ⟨s, r, s', h, hrun, mmioMapRegion_law h.mmioReady hrun⟩

/-- Four bytes at `0xFEE00010` are asked for, and the address that is returned leads to `0xFEE00000`. -/
theorem mmioMapRegion_unaligned : ¬ ∀ b s₀ cs s, MemInit b s₀ → MmioRun (fun _ _ _ => True) s₀ cs s →
    MmioLaw s₀ cs s := by
  intro hall
  obtain ⟨s, r, s', h, hs'⟩ := demoBoot_mmioMapRegion 0xFEE00010#32 4#32 (by decide)
  obtain ⟨l, ep, hb, -, -, -, hbase⟩ := h.booted
  have hlaw := hall demoBoot s _ s' h (.call .start (by decide) (by decide) trivial hs')
  have hgood := hlaw.mapped _ (List.mem_singleton_self _) 0#32 (show 0#32 < 4#32 by decide)
  obtain ⟨rfl, -, l', -, hf, hpte, -⟩ := hb.inv.mmioMapRegion_ok (n := 1) hbase (by decide) (by omega)
    (by omega) hs'
  have hbad : xlate s' s'.kernPgdir (pageAddr 980995 + 0#32) = some (0xFEE00000#32, MMIO_FLAGS) := by
    have hnum : PGNUM (pageAddr 980995 + 0#32) = 980995 := by decide
    have hentry := hpte 980995 (kernPde_iff.mpr (by omega))
    rw [if_pos ⟨le_rfl, by omega⟩] at hentry
    simp only [xlate]
    rw [hnum, hf.kern, hentry]
    decide
  rw [hbad] at hgood
  exact absurd hgood (by decide)

end Jos
