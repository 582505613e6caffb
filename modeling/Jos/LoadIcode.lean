import Jos.Boot
import Jos.ExcStack

/-!
# What `load_icode` leaves

`load_icode` fills a fresh address space: `region_alloc` maps the pages of a segment one by one, each to a page off the
free list, and the segment is then copied through the new mappings. `Filled` is the invariant of this: `V` are the
pages mapped so far, each of them has a physical page of its own, and everything that has been written to, the
directory apart, was free to begin with. From it the contents follow (`loadIcode_loads`): a segment is written to its
own pages only, and what comes later does not touch them.
-/

namespace Jos

open Pmap ByteMem

variable {R : Set Nat} {D : Finset Nat} {l l₀ : List Nat} {s s₀ s' : Pmap} {d p pp : Nat} {va perm : Word}

/-! ## What `page_insert` writes -/

namespace PmapInv

theorem insertMapped_dir (h : PmapInv R D l s) (hd : d ∈ D) (hva : va < UTOP) (hpde : present (s.mem d (PDX va)))
    (i : Nat) : (s.insertMapped d pp va perm).mem d i
      = if i = PDX va then s.mem d (PDX va) ||| perm else s.mem d i := by
  rw [insertMapped_mem, Pmap.setPte, store_mem]
  by_cases hi : i = PDX va
  · rw [if_pos ⟨rfl, hi⟩, if_pos hi]
  · rw [if_neg fun hc => hi hc.2, if_neg hi,
      store_mem_of_ne _ _ _ (h.sep.table_ne_dir d hd d hd _ (PDX_lt_of_lt_UTOP hva) hpde).symm]

/-- `page_insert` writes to the directory entry of `va`, and to the page table that this entry named or that has come
off the free list. -/
theorem pageInsert_writes (h : PmapInv R D l s) (hd : d ∈ D) (hva : va < UTOP) (hperm : perm.toNat < 4096)
    (hok : pageInsert s d pp va perm = .ok (0, s')) :
    (∀ i, i ≠ PDX va → s'.mem d i = s.mem d i) ∧
      (present (s.mem d (PDX va)) ∧ ppn (s'.mem d (PDX va)) = ppn (s.mem d (PDX va)) ∨
        ppn (s'.mem d (PDX va)) ∈ l) ∧
      ∀ q, q ≠ d → q ≠ ppn (s'.mem d (PDX va)) → s'.mem q = s.mem q := by
  have hi := PDX_lt_of_lt_UTOP hva
  by_cases hpde : present (s.mem d (PDX va))
  · rw [h.pageInsert_mapped hd hva hpde] at hok
    obtain rfl := (Prod.mk.inj (Except.ok.inj hok)).2
    have hppn : ppn ((s.insertMapped d pp va perm).mem d (PDX va)) = ppn (s.mem d (PDX va)) := by
      rw [h.insertMapped_dir hd hva hpde, if_pos rfl, ppn_or_flags _ hperm]
    refine ⟨fun i hne => ?_, Or.inl ⟨hpde, hppn⟩, fun q hqd hqt => ?_⟩
    · rw [h.insertMapped_dir hd hva hpde, if_neg hne]
    · rw [hppn] at hqt
      exact insertMapped_mem_of_ne q hqd hqt
  · cases l with
    | nil =>
      rw [pageInsert_noMem hpde h.free.head_none] at hok
      exact absurd (Prod.mk.inj (Except.ok.inj hok)).1 (by decide)
    | cons p l =>
      have h₁ := h.newTable hd hi hpde
      have hpde₁ : present ((s.newTable d (PDX va) p).mem d (PDX va)) := h.newTable_present hd
      rw [pageInsert_create hpde h.free.head_some h.head_managed.1 h.npages_le',
        h₁.pageInsert_mapped hd hva hpde₁] at hok
      obtain rfl := (Prod.mk.inj (Except.ok.inj hok)).2
      have hnew : ppn ((s.newTable d (PDX va) p).mem d (PDX va)) = p := by
        rw [h.newTable_dir hd, if_pos ⟨rfl, rfl⟩, ppn_freshPde (h.head_managed.1.trans_le h.npages_le')]
      have hppn : ppn (((s.newTable d (PDX va) p).insertMapped d pp va perm).mem d (PDX va)) = p := by
        rw [h₁.insertMapped_dir hd hva hpde₁, if_pos rfl, ppn_or_flags _ hperm, hnew]
      refine ⟨fun i hne => ?_, Or.inr ?_, fun q hqd hqt => ?_⟩
      · rw [h₁.insertMapped_dir hd hva hpde₁, if_neg hne, h.newTable_dir hd, if_neg fun hc => hne hc.2]
      · rw [hppn]
        exact List.mem_cons_self ..
      · rw [hppn] at hqt
        have hqt' : q ≠ tableOf (s.newTable d (PDX va) p) d (PDX va) := fun hc => hqt (hc.trans hnew)
        rw [insertMapped_mem_of_ne q hqd hqt', Pmap.newTable, store_mem_of_ne _ _ _ hqd, setRef_mem,
          clearPage_mem_of_ne _ _ hqt, takeFree_mem]

end PmapInv

/-- A copy writes to the pages of the addresses it is for. -/
theorem PmapInv.copyTo_writes (h : PmapInv R D l s) (hd : d ∈ D) {bs : List (BitVec 8)}
    (hva : va.toNat + bs.length ≤ UTOP.toNat) (hok : Jos.copyTo d bs va s = .ok s') (q : Nat)
    (hq : ∀ i < bs.length, q ≠ ppn (pteOf s d (PGNUM (va + BitVec.ofNat 32 i)))) :
    s'.mem q = s.mem q := by
  induction bs generalizing s va with
  | nil =>
    cases hok
    rfl
  | cons b bs ih =>
    rw [List.length_cons] at hva
    obtain ⟨hva', hnext⟩ := copyTo_bounds hva
    obtain ⟨s₁, hs₁, hok⟩ := copyTo_cons hok
    obtain ⟨hP, -, rfl⟩ := h.storeByte_below .kernWrite hd hva' hs₁
    obtain ⟨hinv, -, hpte⟩ := h.storePage hd (PGNUM_lt_NUVPN hva') hP (wordOf va)
      (setByte (s.mem (ppn (pteOf s d (PGNUM va))) (wordOf va)) (va.toNat % 4) b)
    have hfirst := hq 0 (Nat.succ_pos _)
    rw [show BitVec.ofNat 32 0 = 0#32 from rfl, BitVec.add_zero] at hfirst
    rw [ih hinv (by omega) hok fun i hi => ?_, store_mem_of_ne _ _ _ hfirst]
    have hlater : va + 1#32 + BitVec.ofNat 32 i = va + BitVec.ofNat 32 (i + 1) := by
      rw [BitVec.add_assoc, BitVec.add_comm 1#32, ← BitVec.ofNat_add]
    have hlt : va + BitVec.ofNat 32 (i + 1) < UTOP := by
      rw [BitVec.lt_def, BitVec.toNat_add, BitVec.toNat_ofNat]
      omega
    rw [hlater, hpte d hd _ (PGNUM_lt_NUVPN hlt)]
    exact hq (i + 1) (Nat.succ_lt_succ hi)

/-! ## The invariant -/

/-- The page tables for a set of pages. -/
def tablesOf (V : Finset Nat) : Finset Nat := V.image (· / 1024)

/-- The physical pages it takes to map `V` in a fresh address space. -/
def pagesFor (V : Finset Nat) : Nat := V.card + (tablesOf V).card

/-- The directory `d`, fresh in state `s₀` with the free list `l₀`, maps the pages `V` in state `s`. -/
structure Filled (R : Set Nat) (D : Finset Nat) (l₀ : List Nat) (s₀ : Pmap) (d : Nat) (V : Finset Nat)
    (l : List Nat) (s : Pmap) : Prop where
  inv : PmapInv R D l s
  frame : Frame R D s₀ s
  sub : ∀ q ∈ l, q ∈ l₀
  room : l₀.length ≤ l.length + pagesFor V
  lt : ∀ v ∈ V, v < NUVPN
  mapped : ∀ v ∈ V, ∃ q ∈ l₀, q < 1048576 ∧ pteOf s d v = mkPte q (PTE_U ||| PTE_W)
  unmapped : ∀ v < NUVPN, v ∉ V → pteOf s d v = 0#32
  /-- No two pages share a physical page. -/
  inj : ∀ u ∈ V, ∀ v ∈ V, ppn (pteOf s d u) = ppn (pteOf s d v) → u = v
  table : ∀ i < NUPDE, present (s.mem d i) ↔ i ∈ tablesOf V
  table_new : ∀ i < NUPDE, present (s.mem d i) → ppn (s.mem d i) ∈ l₀
  kept : ∀ q, q ∉ l₀ → q ≠ d → s.mem q = s₀.mem q

/-- What user code finds in the pages `V` is the same in both states. -/
def SameData (d : Nat) (V : Finset Nat) (s s' : Pmap) : Prop :=
  ∀ a : Word, PGNUM a ∈ V → userByte s' d a = userByte s d a

theorem SameData.trans {V V' : Finset Nat} {s₁ s₂ s₃ : Pmap} (h : SameData d V s₁ s₂) (h' : SameData d V' s₂ s₃)
    (hsub : V ⊆ V') : SameData d V s₁ s₃ := fun a ha => (h' a (hsub ha)).trans (h a ha)

variable {V : Finset Nat}

theorem pagesFor_mono {W : Finset Nat} (h : V ⊆ W) : pagesFor V ≤ pagesFor W :=
  Nat.add_le_add (Finset.card_le_card h) (Finset.card_le_card (Finset.image_subset_image h))

theorem mkPte_userW {q : Nat} (hq : q < 1048576) : mkPte q (PTE_U ||| PTE_W) &&& USER_W = USER_W := by
  have halign : (page2pa q).toNat % 4096 = 0 := by
    rw [toNat_page2pa hq]
    omega
  have hsplit : mkPte q (PTE_U ||| PTE_W) = page2pa q ||| USER_W := by
    rw [mkPte, BitVec.or_assoc]
    rfl
  rw [hsplit, BitVec.and_or_distrib_right, and_flags halign (by decide), BitVec.zero_or]
  decide

theorem lt_UTOP_of_PGNUM {a : Word} (h : PGNUM a < NUVPN) : a < UTOP := by
  have heq := PGNUM_eq a
  unfold NUVPN NUPDE at h
  rw [BitVec.lt_def, toNat_UTOP]
  omega

namespace Filled

/-- A directory that has no page tables maps nothing. -/
theorem start (h : PmapInv R D l₀ s₀) (hfresh : ∀ i < NUPDE, ¬ present (s₀.mem d i)) :
    Filled R D l₀ s₀ d ∅ l₀ s₀ where
  inv := h
  frame := .refl s₀
  sub _ hq := hq
  room := Nat.le_add_right ..
  lt v hv := absurd hv (Finset.notMem_empty v)
  mapped v hv := absurd hv (Finset.notMem_empty v)
  unmapped v hv _ := if_neg (hfresh _ (by unfold NUVPN NUPDE at *; omega))
  inj u hu := absurd hu (Finset.notMem_empty u)
  table i hi := iff_of_false (hfresh i hi) (Finset.notMem_empty i)
  table_new i hi hP := absurd hP (hfresh i hi)
  kept _ _ _ := rfl

theorem mapped_present (h : Filled R D l₀ s₀ d V l s) {v : Nat} (hv : v ∈ V) : present (pteOf s d v) := by
  obtain ⟨q, -, -, hpte⟩ := h.mapped v hv
  rw [hpte]
  exact present_mkPte q _

theorem mapped_page (h : Filled R D l₀ s₀ d V l s) {v : Nat} (hv : v ∈ V) : ppn (pteOf s d v) ∈ l₀ := by
  obtain ⟨q, hq, hlt, hpte⟩ := h.mapped v hv
  rwa [hpte, ppn_mkPte hlt (by decide)]

theorem mapped_userW (h : Filled R D l₀ s₀ d V l s) {v : Nat} (hv : v ∈ V) :
    pteOf s d v &&& USER_W = USER_W := by
  obtain ⟨q, -, hlt, hpte⟩ := h.mapped v hv
  rw [hpte, mkPte_userW hlt]

/-- A byte of a page that is mapped. -/
theorem userByte_eq (h : Filled R D l₀ s₀ d V l s) (hd : d ∈ D) {a : Word} (ha : PGNUM a ∈ V) :
    userByte s d a = byteOf (s.mem (ppn (pteOf s d (PGNUM a))) (wordOf a)) (a.toNat % 4) := by
  have hlt : a < UTOP := lt_UTOP_of_PGNUM (h.lt _ ha)
  have hmod : a.toNat % PGSIZE % 4 = a.toNat % 4 := by
    unfold PGSIZE
    omega
  rw [userByte, physAddr, physBytes, h.inv.pageOf_PGNUM hd hlt (h.mapped_present ha), wordOf, hmod]

/-- User code can read it. -/
theorem loadByte_read (h : Filled R D l₀ s₀ d V l s) (hd : d ∈ D) {a : Word} (ha : PGNUM a ∈ V) :
    loadByte s d a USER_R = some (userByte s d a) := by
  have hread : pteOf s d (PGNUM a) &&& USER_R = USER_R := by
    have hsub : USER_W &&& USER_R = USER_R := by decide
    rw [← hsub, ← BitVec.and_assoc, h.mapped_userW ha]
  rw [loadByte, h.inv.translate_below .read hd (lt_UTOP_of_PGNUM (h.lt _ ha)), if_pos hread, h.userByte_eq hd ha]
  rfl

/-! ## `region_alloc` -/

theorem pagesFor_insert {v : Nat} (hv : v ∉ V) :
    pagesFor (insert v V) = pagesFor V + 1 + if v / 1024 ∈ tablesOf V then 0 else 1 := by
  unfold pagesFor tablesOf
  rw [Finset.card_insert_of_notMem hv, Finset.image_insert]
  by_cases hmem : v / 1024 ∈ V.image (· / 1024)
  · rw [if_pos hmem, Finset.insert_eq_of_mem hmem]
    omega
  · rw [if_neg hmem, Finset.card_insert_of_notMem hmem]
    omega

/-- One page of `region_alloc`: it comes off the free list and goes into the address space. -/
theorem page (h : Filled R D l₀ s₀ d V l s) (hd : d ∈ D) {v : Nat} (hv : v < NUVPN) (hnew : v ∉ V)
    (hroom : pagesFor (insert v V) ≤ l₀.length) :
    ∃ p s' l', pageAlloc s false = .ok (some p, s.takeFree p) ∧
      pageInsert (s.takeFree p) d p (pageAddr v) (PTE_U ||| PTE_W) = .ok (0, s') ∧
      Filled R D l₀ s₀ d (insert v V) l' s' ∧ SameData d V s s' := by
  have hv' : v < 1048576 := by
    unfold NUVPN NUPDE at hv
    omega
  have hnum := PGNUM_pageAddr hv'
  have hpdx := PDX_pageAddr hv'
  have hva : pageAddr v < UTOP := lt_UTOP_of_PGNUM (by rwa [hnum])
  have hi : v / 1024 < NUPDE := by
    unfold NUVPN NUPDE at *
    omega
  have hroom₀ := h.room
  rw [pagesFor_insert hnew] at hroom
  obtain ⟨p, l, rfl⟩ : ∃ p l', l = p :: l' := by
    cases l with
    | nil =>
      rw [List.length_nil] at hroom₀
      omega
    | cons p l => exact ⟨p, l, rfl⟩
  rw [List.length_cons] at hroom₀
  have hp := h.inv.head_managed
  have hplt : p < 1048576 := hp.1.trans_le h.inv.npages_le'
  have hfree := h.inv.takeFree
  have href : ((s.takeFree p).pages p).ppRef.toNat = 0 := by
    rw [takeFree_pages, if_pos rfl]
    exact h.inv.head_ref
  refine ⟨p, ?_⟩
  have halloc := pageAlloc_some false h.inv.free.head_some hp.1 h.inv.npages_le'
  have hperm : (PTE_U ||| PTE_W).toNat < 4096 := by decide
  have hcases := hfree.pageInsert_cases hd hva hperm hp h.inv.head_notMem
    (fun x hx _ => hfree.unnamed_of_ref_zero hp href x hx)
  rw [hpdx, takeFree_mem] at hcases
  rcases hcases with ⟨s', hcode, hins, hinv⟩ | ⟨-, hpde, rfl⟩
  · obtain ⟨l', hinv', hlen⟩ := hinv (by omega)
    obtain ⟨hdir, htab, hmem⟩ := hfree.pageInsert_writes hd hva (by decide) hcode
    rw [hpdx, takeFree_mem] at hdir htab hmem
    -- Nothing was mapped here, so nothing is freed.
    have hsub : ∀ q ∈ l', q ∈ l := by
      obtain ⟨l'', hl'', hsub⟩ := hins.free
      rw [hl''.linked.unique hinv'.free.linked] at hsub
      intro q hq
      refine (hsub q hq).resolve_right fun hc => ?_
      have hzero : pteOf (s.takeFree p) d (PGNUM (pageAddr v)) = 0#32 := by
        rw [hnum]
        exact h.unmapped v hv hnew
      rw [hzero] at hc
      exact not_present_zero hc.1
    have hpte : ∀ u < NUVPN, pteOf s' d u = if u = v then mkPte p (PTE_U ||| PTE_W) else pteOf s d u := by
      intro u hu
      rw [hins.pte d hd u hu, hnum]
      by_cases huv : u = v
      · rw [if_pos ⟨rfl, huv⟩, if_pos huv]
      · rw [if_neg fun hc => huv hc.2, if_neg huv]
        rfl
    have hold : ∀ u ∈ V, pteOf s' d u = pteOf s d u := fun u hu => by
      rw [hpte u (h.lt u hu), if_neg (show u ≠ v from fun hc => hnew (hc ▸ hu))]
    have hself : pteOf s' d v = mkPte p (PTE_U ||| PTE_W) := by rw [hpte v hv, if_pos rfl]
    have htable : ppn (s'.mem d (v / 1024)) ∈ l₀ := by
      rcases htab with ⟨hP, heq⟩ | hmem'
      · rw [heq]
        exact h.table_new _ hi hP
      · exact h.sub _ (List.mem_cons_of_mem p hmem')
    have hfilled : Filled R D l₀ s₀ d (insert v V) l' s' := by
      refine ⟨hinv', h.frame.trans (h.inv.takeFree_frame.trans hins.frame), ?_, ?_, ?_, ?_, ?_, ?_, ?_, ?_, ?_⟩
      · exact fun q hq => h.sub q (List.mem_cons_of_mem p (hsub q hq))
      · rw [pagesFor_insert hnew]
        by_cases hmem' : v / 1024 ∈ tablesOf V
        · rw [if_pos ((h.table _ hi).mpr hmem')] at hlen
          rw [if_pos hmem']
          omega
        · rw [if_neg fun hc => hmem' ((h.table _ hi).mp hc)] at hlen
          rw [if_neg hmem']
          omega
      · exact fun u hu => (Finset.mem_insert.mp hu).elim (fun he => he ▸ hv) (h.lt u)
      · intro u hu
        rcases Finset.mem_insert.mp hu with rfl | hu
        · exact ⟨p, h.sub p (List.mem_cons_self ..), hplt, hself⟩
        · rw [hold u hu]
          exact h.mapped u hu
      · intro u hu hne
        rw [Finset.mem_insert, not_or] at hne
        rw [hpte u hu, if_neg hne.1]
        exact h.unmapped u hu hne.2
      · -- A page off the free list is not one that is mapped.
        have hfresh : ∀ u ∈ V, ppn (pteOf s d u) ≠ p := fun u hu he =>
          h.inv.page_notMem_free hd (h.lt u hu) (h.mapped_present hu) (he ▸ List.mem_cons_self ..)
        have hp' : ppn (mkPte p (PTE_U ||| PTE_W)) = p := ppn_mkPte hplt (by decide)
        intro u hu w hw heq
        rcases Finset.mem_insert.mp hu with rfl | hu'
        · rcases Finset.mem_insert.mp hw with rfl | hw
          · rfl
          · rw [hself, hold w hw, hp'] at heq
            exact absurd heq.symm (hfresh w hw)
        · rcases Finset.mem_insert.mp hw with rfl | hw
          · rw [hself, hold u hu', hp'] at heq
            exact absurd heq (hfresh u hu')
          · rw [hold u hu', hold w hw] at heq
            exact h.inj u hu' w hw heq
      · intro i hi'
        rw [tablesOf, Finset.image_insert, Finset.mem_insert]
        by_cases hiv : i = v / 1024
        · refine iff_of_true ?_ (Or.inl hiv)
          rw [hiv, ← hpdx]
          exact hins.pde
        · rw [hdir i hiv]
          exact (h.table i hi').trans (or_iff_right hiv).symm
      · intro i hi' hP
        by_cases hiv : i = v / 1024
        · rw [hiv]
          exact htable
        · rw [hdir i hiv] at hP ⊢
          exact h.table_new i hi' hP
      · intro q hq hqd
        rw [hmem q hqd fun hc => hq (hc ▸ htable)]
        exact h.kept q hq hqd
    refine ⟨s', l', halloc, hcode, hfilled, fun a ha => ?_⟩
    have hP := h.mapped_present ha
    have hpage := hins.page_mem _ (fun hc => h.inv.page_notMem_free hd (h.lt _ ha) hP (List.mem_cons_of_mem p hc))
      (hfree.page_shared hd (h.lt _ ha) hP)
    rw [hfilled.userByte_eq hd (Finset.mem_insert_of_mem ha), h.userByte_eq hd ha, hold _ ha, hpage]
    rfl
  · rw [if_neg fun hc => hpde ((h.table _ hi).mpr hc)] at hroom
    rw [List.length_nil] at hroom₀
    omega

/-- The loop of `region_alloc` over the pages from `a` to `b`. -/
theorem regionAllocFrom (h : Filled R D l₀ s₀ d V l s) (hd : d ∈ D) {a b fuel : Nat} (hab : a ≤ b)
    (hb : b ≤ NUVPN) (hfuel : b ≤ a + fuel) (hdisj : Disjoint V (Finset.Ico a b))
    (hroom : pagesFor (V ∪ Finset.Ico a b) ≤ l₀.length) :
    ∃ s' l', Jos.regionAllocFrom d (pageAddr b) fuel (pageAddr a) s = .ok s' ∧
      Filled R D l₀ s₀ d (V ∪ Finset.Ico a b) l' s' ∧ SameData d V s s' := by
  -- On the fuel: a round maps page `a` and goes on with page `a + 1`.
  induction fuel generalizing a V l s with
  | zero =>
    rw [Finset.Ico_eq_empty_of_le (show b ≤ a from hfuel), Finset.union_empty]
    exact ⟨s, l, rfl, h, fun _ _ => rfl⟩
  | succ fuel ih =>
    have hN : NUVPN ≤ 1048575 := by decide
    rw [Jos.regionAllocFrom]
    rcases eq_or_lt_of_le hab with rfl | hab
    · rw [if_neg (BitVec.lt_irrefl _), Finset.Ico_self, Finset.union_empty]
      exact ⟨s, l, rfl, h, fun _ _ => rfl⟩
    · have hlt : pageAddr a < pageAddr b := by
        rw [BitVec.lt_def, toNat_pageAddr (by omega), toNat_pageAddr (by omega)]
        omega
      have hmem : a ∈ Finset.Ico a b := Finset.mem_Ico.mpr ⟨le_rfl, hab⟩
      have hset : insert a V ∪ Finset.Ico (a + 1) b = V ∪ Finset.Ico a b := by
        ext v
        by_cases hv : v ∈ V
        · simp [hv]
        · simp only [Finset.mem_union, Finset.mem_insert, Finset.mem_Ico, hv, or_false, false_or]
          omega
      have hnew : a ∉ V := fun ha => Finset.disjoint_left.mp hdisj ha hmem
      have hsub : insert a V ⊆ V ∪ Finset.Ico a b := by
        rw [← hset]
        exact Finset.subset_union_left
      obtain ⟨p, s₁, l₁, halloc, hins, h₁, hdata⟩ :=
        h.page hd (by omega) hnew ((pagesFor_mono hsub).trans hroom)
      have hdisj₁ : Disjoint (insert a V) (Finset.Ico (a + 1) b) := by
        rw [Finset.disjoint_insert_left]
        refine ⟨fun hc => ?_, hdisj.mono_right (Finset.Ico_subset_Ico_left (by omega))⟩
        have := (Finset.mem_Ico.mp hc).1
        omega
      obtain ⟨s', l', hcode, h', hdata'⟩ := ih h₁ hab (by omega) hdisj₁ (by rwa [hset])
      rw [hset] at h'
      refine ⟨s', l', ?_, h', hdata.trans hdata' (Finset.subset_insert a V)⟩
      rw [if_pos hlt, halloc, Except.ok_bind]
      simp only
      rw [hins, Except.ok_bind]
      simp only
      rw [pageAddr_succ, hcode]

end Filled

/-- The pages from that of `va` on up to the rounded end of `[va, va + len)`. -/
def regionPages (va len : Word) : Finset Nat := Finset.Ico (va.toNat / 4096) ((va.toNat + len.toNat + 4095) / 4096)

namespace Filled

theorem regionAlloc (h : Filled R D l₀ s₀ d V l s) (hd : d ∈ D) {len : Word}
    (hva : va.toNat + len.toNat ≤ UTOP.toNat) (hdisj : Disjoint V (regionPages va len))
    (hroom : pagesFor (V ∪ regionPages va len) ≤ l₀.length) :
    ∃ s' l', Jos.regionAlloc s d va len = .ok s' ∧ Filled R D l₀ s₀ d (V ∪ regionPages va len) l' s' ∧
      SameData d V s s' := by
  have hU : UTOP.toNat = 0xeec00000 := toNat_UTOP
  have hstart : ROUNDDOWN va PGSIZE = pageAddr (va.toNat / 4096) := by
    refine eq_pageAddr ?_
    rw [toNat_ROUNDDOWN]
    omega
  have hstop : ROUNDUP (va + len) PGSIZE = pageAddr ((va.toNat + len.toNat + 4095) / 4096) := by
    refine eq_pageAddr ?_
    rw [toNat_ROUNDUP, BitVec.toNat_add]
    omega
  have hfuel : NPDENTRIES * NPTENTRIES = 1048576 := by decide
  have hN : NUVPN = 977920 := by decide
  rw [Jos.regionAlloc, hstart, hstop]
  exact h.regionAllocFrom hd (by omega) (by omega) (by omega) hdisj hroom

/-! ## Copies -/

/-- A copy to pages that are mapped. -/
theorem copyTo (h : Filled R D l₀ s₀ d V l s) (hd : d ∈ D) (bs : List (BitVec 8)) (va : Word)
    (hva : va.toNat + bs.length ≤ UTOP.toNat) (hin : ∀ i < bs.length, PGNUM (va + BitVec.ofNat 32 i) ∈ V) :
    ∃ s', Jos.copyTo d bs va s = .ok s' ∧ Filled R D l₀ s₀ d V l s' ∧
      ∀ a, PGNUM a ∈ V → userByte s' d a = storeBytes (userByte s d) va bs a := by
  have hU : UTOP.toNat = 0xeec00000 := toNat_UTOP
  have hwrite : canWrite (accessOf s d) va bs.length = true := by
    refine canWrite_iff.mpr fun i hi => accessOf_eq_write.mpr ?_
    have hlt := lt_UTOP_of_PGNUM (h.lt _ (hin i hi))
    exact (h.inv.translate_write_iff hd hlt).mpr (h.mapped_userW (hin i hi))
  obtain ⟨s', hok⟩ := h.inv.copyTo_returns hd bs va hva hwrite
  obtain ⟨hinv, hframe, hpte⟩ := h.inv.copyTo_pteOf hd hva hok
  have hmem := h.inv.copyTo_writes hd hva hok
  obtain ⟨hphys, hpage, -⟩ := h.inv.copyTo_phys hd hva hok
  have hpte' : ∀ v < NUVPN, pteOf s' d v = pteOf s d v := hpte d hd
  have hdir : s'.mem d = s.mem d :=
    hmem d fun i hi => (h.inv.page_ne_dir hd (h.lt _ (hin i hi)) (h.mapped_present (hin i hi)) hd).symm
  have hkept : ∀ q, q ∉ l₀ → s'.mem q = s.mem q := fun q hq =>
    hmem q fun i hi he => hq (he ▸ h.mapped_page (hin i hi))
  refine ⟨s', hok, ⟨hinv, h.frame.trans hframe, h.sub, h.room, h.lt, ?_, ?_, ?_, ?_, ?_, ?_⟩, fun a ha => ?_⟩
  · intro v hv
    rw [hpte' v (h.lt v hv)]
    exact h.mapped v hv
  · intro v hv hne
    rw [hpte' v hv]
    exact h.unmapped v hv hne
  · intro u hu v hv heq
    rw [hpte' u (h.lt u hu), hpte' v (h.lt v hv)] at heq
    exact h.inj u hu v hv heq
  · intro i hi
    rw [hdir]
    exact h.table i hi
  · intro i hi
    rw [hdir]
    exact h.table_new i hi
  · exact fun q hq hqd => (hkept q hq).trans (h.kept q hq hqd)
  · have hpageOf : ∀ c : Word, PGNUM c ∈ V → pageOf s d (PGNUM c) = ppn (pteOf s d (PGNUM c)) := fun c hc =>
      h.inv.pageOf_PGNUM hd (lt_UTOP_of_PGNUM (h.lt _ hc)) (h.mapped_present hc)
    -- Two addresses with the same physical byte are the same.
    have hclear : Clear (physAddr (pageOf s d)) va bs.length a := by
      intro i hi hne heq
      refine hne (BitVec.eq_of_toNat_eq ?_)
      have hin' := hin i hi
      generalize va + BitVec.ofNat 32 i = c at hin' heq
      obtain ⟨hpages, hoffset⟩ := Prod.mk.inj heq
      rw [hpageOf _ hin', hpageOf a ha] at hpages
      have hsame := h.inj _ hin' _ ha hpages
      rw [PGNUM_eq, PGNUM_eq] at hsame
      unfold PGSIZE at hoffset
      omega
    rw [userByte, hpage, hphys, storeThrough_apply hclear (by omega)]
    rfl

end Filled

/-! ## Segments -/

/-- The pages of a segment. -/
def Segment.pages (seg : Segment) : Finset Nat := regionPages seg.va seg.memsz

/-- The file contents of a segment are where they belong, and zeros follow. -/
def Segment.InPlace (seg : Segment) (s : Pmap) (d : Nat) : Prop :=
  ∀ i < seg.memsz.toNat, userByte s d (seg.va + BitVec.ofNat 32 i) = seg.file.getD i 0#8

/-- The pages of a list of segments. -/
def segPages (segs : List Segment) : Finset Nat := segs.foldr (fun seg V => seg.pages ∪ V) ∅

theorem mem_segPages {segs : List Segment} {v : Nat} : v ∈ segPages segs ↔ ∃ seg ∈ segs, v ∈ seg.pages := by
  induction segs with
  | nil => simp [segPages]
  | cons seg segs ih =>
    rw [segPages, List.foldr_cons, Finset.mem_union]
    simp only [List.mem_cons, exists_eq_or_imp]
    exact or_congr_right ih

variable {seg : Segment}

theorem Segment.toNat_addr (hva : seg.va.toNat + seg.memsz.toNat ≤ UTOP.toNat) {i : Nat} (hi : i ≤ seg.memsz.toNat) :
    (seg.va + BitVec.ofNat 32 i).toNat = seg.va.toNat + i := by
  rw [toNat_UTOP] at hva
  rw [BitVec.toNat_add, BitVec.toNat_ofNat]
  omega

theorem Segment.mem_pages (hva : seg.va.toNat + seg.memsz.toNat ≤ UTOP.toNat) {i : Nat} (hi : i < seg.memsz.toNat) :
    PGNUM (seg.va + BitVec.ofNat 32 i) ∈ seg.pages := by
  rw [Segment.pages, regionPages, Finset.mem_Ico, PGNUM_eq, seg.toNat_addr hva hi.le]
  omega

theorem Segment.InPlace.same (h : seg.InPlace s d) (hva : seg.va.toNat + seg.memsz.toNat ≤ UTOP.toNat)
    (hdata : SameData d V s s') (hsub : seg.pages ⊆ V) : seg.InPlace s' d := fun i hi =>
  (hdata _ (hsub (seg.mem_pages hva hi))).trans (h i hi)

/-- The bytes a segment writes: its file contents, then zeros. -/
theorem Segment.storeBytes_apply {m : Word → BitVec 8} (hva : seg.va.toNat + seg.memsz.toNat ≤ UTOP.toNat)
    (hfile : seg.file.length ≤ seg.memsz.toNat) :
    (∀ i < seg.memsz.toNat, storeBytes (storeBytes m seg.va seg.file) (seg.va + BitVec.ofNat 32 seg.file.length)
        (List.replicate (seg.memsz.toNat - seg.file.length) 0#8) (seg.va + BitVec.ofNat 32 i) = seg.file.getD i 0#8) ∧
      ∀ a : Word, PGNUM a ∉ seg.pages → storeBytes (storeBytes m seg.va seg.file)
        (seg.va + BitVec.ofNat 32 seg.file.length) (List.replicate (seg.memsz.toNat - seg.file.length) 0#8) a = m a := by
  have hU : UTOP.toNat = 0xeec00000 := toNat_UTOP
  have hstart := seg.toNat_addr hva hfile
  constructor
  · intro i hi
    have haddr := seg.toNat_addr hva hi.le
    by_cases hlt : i < seg.file.length
    · have hfar : (seg.va + BitVec.ofNat 32 i - (seg.va + BitVec.ofNat 32 seg.file.length)).toNat
          = 2 ^ 32 - (seg.file.length - i) := by
        rw [BitVec.toNat_sub, hstart, haddr]
        omega
      have hnear : (seg.va + BitVec.ofNat 32 i - seg.va).toNat = i := by
        rw [BitVec.toNat_sub, haddr]
        omega
      rw [storeBytes_of_le (by rw [List.length_replicate, hfar]; omega), storeBytes, hnear, List.getD_eq_getElem?_getD,
        List.getElem?_eq_getElem hlt]
      rfl
    · have hzero : (seg.va + BitVec.ofNat 32 i - (seg.va + BitVec.ofNat 32 seg.file.length)).toNat
          = i - seg.file.length := by
        rw [BitVec.toNat_sub, hstart, haddr]
        omega
      rw [storeBytes, hzero, List.getElem?_replicate, if_pos (by omega), List.getD_eq_default _ _ (by omega)]
      rfl
  · intro a ha
    have hout : a.toNat < seg.va.toNat ∨ seg.va.toNat + seg.memsz.toNat ≤ a.toNat := by
      rw [Segment.pages, regionPages, Finset.mem_Ico, PGNUM_eq] at ha
      omega
    have hlt := a.isLt
    have hfar : seg.memsz.toNat ≤ (a - seg.va).toNat := by
      rw [BitVec.toNat_sub]
      omega
    have hfar' : seg.memsz.toNat - seg.file.length ≤ (a - (seg.va + BitVec.ofNat 32 seg.file.length)).toNat := by
      rw [BitVec.toNat_sub, hstart]
      omega
    rw [storeBytes_of_le (by rwa [List.length_replicate]), storeBytes_of_le (by omega)]

/-- A segment can be loaded. -/
structure Segment.Fits (seg : Segment) : Prop where
  below : seg.va.toNat + seg.memsz.toNat ≤ UTOP.toNat
  file : seg.file.length ≤ seg.memsz.toNat

namespace Filled

/-- The body of the loop of `load_icode`. -/
theorem loadSegment (h : Filled R D l₀ s₀ d V l s) (hd : d ∈ D) (hseg : seg.Fits) (hdisj : Disjoint V seg.pages)
    (hroom : pagesFor (V ∪ seg.pages) ≤ l₀.length) :
    ∃ s' l', Jos.loadSegment d s seg = .ok s' ∧ Filled R D l₀ s₀ d (V ∪ seg.pages) l' s' ∧ seg.InPlace s' d ∧
      SameData d V s s' := by
  have hU : UTOP.toNat = 0xeec00000 := toNat_UTOP
  have hva := hseg.below
  have hfile := hseg.file
  have hstart := seg.toNat_addr hva hfile
  obtain ⟨s₁, l₁, hcode₁, h₁, hdata₁⟩ := h.regionAlloc hd hva hdisj hroom
  have hmem : ∀ i < seg.memsz.toNat, PGNUM (seg.va + BitVec.ofNat 32 i) ∈ V ∪ regionPages seg.va seg.memsz :=
    fun i hi => Finset.mem_union_right _ (seg.mem_pages hva hi)
  obtain ⟨s₂, hcode₂, h₂, hdata₂⟩ := h₁.copyTo hd seg.file seg.va (by omega) fun i hi => hmem i (by omega)
  obtain ⟨s₃, hcode₃, h₃, hdata₃⟩ := h₂.copyTo hd (List.replicate (seg.memsz.toNat - seg.file.length) 0#8)
    (seg.va + BitVec.ofNat 32 seg.file.length) (by rw [List.length_replicate]; omega) (by
      intro i hi
      rw [List.length_replicate] at hi
      rw [BitVec.add_assoc, ← BitVec.ofNat_add]
      exact hmem _ (by omega))
  have hbytes : ∀ a, PGNUM a ∈ V ∪ seg.pages → userByte s₃ d a = storeBytes (storeBytes (userByte s₁ d) seg.va seg.file)
      (seg.va + BitVec.ofNat 32 seg.file.length) (List.replicate (seg.memsz.toNat - seg.file.length) 0#8) a := by
    intro a ha
    rw [hdata₃ a ha]
    exact storeBytes_congr (hdata₂ a ha)
  obtain ⟨hin, hout⟩ := seg.storeBytes_apply (m := userByte s₁ d) hva hfile
  refine ⟨s₃, l₁, ?_, h₃, fun i hi => ?_, fun a ha => ?_⟩
  · rw [Jos.loadSegment, hcode₁, Except.ok_bind, hcode₂, Except.ok_bind, hcode₃]
  · rw [hbytes _ (hmem i hi), hin i hi]
  · rw [hbytes a (Finset.mem_union_left _ ha), hout a (Finset.disjoint_left.mp hdisj ha), hdata₁ a ha]

/-- The loop of `load_icode`. -/
theorem loadSegments (hd : d ∈ D) {segs : List Segment} (hfits : ∀ seg ∈ segs, seg.Fits)
    (hpair : segs.Pairwise fun a b => Disjoint a.pages b.pages) (h : Filled R D l₀ s₀ d V l s)
    (hdisj : ∀ seg ∈ segs, Disjoint V seg.pages) (hroom : pagesFor (V ∪ segPages segs) ≤ l₀.length) :
    ∃ s' l', segs.foldlM (Jos.loadSegment d) s = .ok s' ∧ Filled R D l₀ s₀ d (V ∪ segPages segs) l' s' ∧
      (∀ seg ∈ segs, seg.InPlace s' d) ∧ SameData d V s s' := by
  -- On the segments: what has been loaded joins the pages that the rest leaves alone.
  induction segs generalizing V l s with
  | nil =>
    rw [show segPages [] = ∅ from rfl, Finset.union_empty]
    exact ⟨s, l, rfl, h, nofun, fun _ _ => rfl⟩
  | cons seg segs ih =>
    obtain ⟨hhead, htail⟩ := List.pairwise_cons.mp hpair
    have hset : V ∪ segPages (seg :: segs) = V ∪ seg.pages ∪ segPages segs := by
      rw [Finset.union_assoc]
      rfl
    rw [hset] at hroom ⊢
    have hfit := hfits seg (List.mem_cons_self ..)
    obtain ⟨s₁, l₁, hcode, h₁, hplace, hdata⟩ := h.loadSegment hd hfit (hdisj seg (List.mem_cons_self ..))
      ((pagesFor_mono Finset.subset_union_left).trans hroom)
    have hdisj₁ : ∀ x ∈ segs, Disjoint (V ∪ seg.pages) x.pages := fun x hx =>
      Finset.disjoint_union_left.mpr ⟨hdisj x (List.mem_cons_of_mem _ hx), hhead x hx⟩
    obtain ⟨s', l', hcode', h', hplace', hdata'⟩ :=
      ih (fun x hx => hfits x (List.mem_cons_of_mem _ hx)) htail h₁ hdisj₁ hroom
    refine ⟨s', l', ?_, h', fun x hx => ?_, hdata.trans hdata' Finset.subset_union_left⟩
    · rw [List.foldlM_cons, hcode, Except.ok_bind, hcode']
    · rcases List.mem_cons.mp hx with rfl | hx
      · exact hplace.same hfit.below hdata' Finset.subset_union_right
      · exact hplace' x hx

end Filled

/-! ## Other address spaces -/

/-- The address space of `d` is the same in both states: its mappings, and its contents below `UTOP`. -/
def SameSpace (d : Nat) (s s' : Pmap) : Prop :=
  ∀ flags, UserFlags flags → (∀ va, translate s' d va flags = translate s d va flags) ∧
    ∀ va, va < UTOP → loadByte s' d va flags = loadByte s d va flags

namespace PmapInv

/-- Reserved pages are neither free nor directories. -/
theorem kept_reserved (h : PmapInv R D l s) (hd : d ∈ D) (hkept : ∀ q, q ∉ l → q ≠ d → s'.mem q = s.mem q) :
    ∀ q ∈ R, s'.mem q = s.mem q := fun q hq =>
  hkept q (fun hc => (h.consistent.free_managed q hc).2 hq) fun hc => (h.dir_managed hd).2 (hc ▸ hq)

/-- An address space stays the same where only free pages and another directory are written. -/
theorem sameSpace (h : PmapInv R D l s) {e : Nat} (he : e ∈ D) (hd : d ∈ D) (hne : e ≠ d)
    (hkept : ∀ q, q ∉ l → q ≠ d → s'.mem q = s.mem q) : SameSpace e s s' := by
  intro flags hf
  have hres := h.kept_reserved hd hkept
  have hdir : s'.mem e = s.mem e := hkept e (h.dir_notMem_free he) hne
  have htab : ∀ i < NUPDE, present (s.mem e i) → s'.mem (ppn (s.mem e i)) = s.mem (ppn (s.mem e i)) :=
    fun i hi hP => hkept _ (h.table_notMem_free he hi hP) (h.sep.table_ne_dir e he d hd i hi hP)
  have htrans := h.translate_congr hf he hres hdir htab
  refine ⟨htrans, fun va hva => ?_⟩
  rw [loadByte, loadByte, htrans va, h.translate_below hf he hva]
  split
  · next hpte =>
    have hP := hf.entry hpte
    have hv := PGNUM_lt_NUVPN hva
    rw [Option.map_some, Option.map_some, hkept _ (h.page_notMem_free he hv hP) (h.page_ne_dir he hv hP hd)]
  · rfl

/-- So does the kernel's. -/
theorem kern_same (h : PmapInv R D l s) (hd : d ∈ D) (hkept : ∀ q, q ∉ l → q ≠ d → s'.mem q = s.mem q) :
    s'.mem s.kernPgdir = s.mem s.kernPgdir ∧ ∀ flags, UserFlags flags → ∀ va,
      translate s' s.kernPgdir va flags = translate s s.kernPgdir va flags := by
  have hres := h.kept_reserved hd hkept
  have hdir := hres _ h.map.kern_res.1
  refine ⟨hdir, fun flags hf va => ?_⟩
  simp only [translate, hdir]
  by_cases hpde : s.mem s.kernPgdir (PDX va) &&& flags = flags
  · rw [hres _ (h.kern_table (PDX_lt va) (hf.entry hpde)).1]
  · rw [if_neg hpde, if_neg hpde]

end PmapInv

/-! ## `load_icode` -/

/-- The pages that a program has when it starts: those of its segments, and one for the stack. -/
def Program.pages (b : Program) : Finset Nat := segPages b.segments ∪ {STACKPN}

/-- A program that `load_icode` may be given: its segments lie below the stack, their file contents fit, and no two of
them have a page in common. -/
structure Program.Loadable (b : Program) : Prop where
  below : ∀ seg ∈ b.segments, seg.va.toNat + seg.memsz.toNat ≤ (USTACKTOP - BitVec.ofNat 32 PGSIZE).toNat
  file : ∀ seg ∈ b.segments, seg.file.length ≤ seg.memsz.toNat
  disjoint : b.segments.Pairwise fun x y => Disjoint x.pages y.pages

/-- What `load_icode` has done in state `k'` to environment `e` with directory `d`. -/
structure Loaded (k : Kernel) (e d : Nat) (b : Program) (k' : Kernel) : Prop where
  /-- Segments are where they belong, as user code reads them. -/
  segments : ∀ seg ∈ b.segments, ∀ i < seg.memsz.toNat,
    loadByte k'.pmap d (seg.va + BitVec.ofNat 32 i) USER_R = some (seg.file.getD i 0#8)
  mapped : ∀ v ∈ b.pages, pteOf k'.pmap d v &&& USER_W = USER_W
  unmapped : ∀ v < NUVPN, v ∉ b.pages → ¬ present (pteOf k'.pmap d v)
  eip : (k'.envs e).envTf.eip = b.entry
  kern : k'.pmap.kernPgdir = k.pmap.kernPgdir ∧
    k'.pmap.mem k.pmap.kernPgdir = k.pmap.mem k.pmap.kernPgdir ∧
    ∀ flags, UserFlags flags → ∀ va,
      translate k'.pmap k.pmap.kernPgdir va flags = translate k.pmap k.pmap.kernPgdir va flags
  others : ∀ i, i ≠ e → k'.envs i = k.envs i ∧
    ∀ d', (k.envs i).envPgdir = some d' → SameSpace d' k.pmap k'.pmap

theorem regionPages_stack :
    regionPages (USTACKTOP - BitVec.ofNat 32 PGSIZE) (BitVec.ofNat 32 PGSIZE) = {STACKPN} := by
  have hva : (USTACKTOP - BitVec.ofNat 32 PGSIZE).toNat = 977917 * 4096 := by decide
  have hlen : (BitVec.ofNat 32 PGSIZE).toNat = 4096 := by decide
  have hstack : STACKPN = 977917 := by decide
  ext v
  rw [regionPages, Finset.mem_Ico, Finset.mem_singleton, hva, hlen, hstack]
  omega

/-- The page for the stack. -/
theorem Filled.regionAlloc_stack (h : Filled R D l₀ s₀ d V l s) (hd : d ∈ D) (hdisj : Disjoint V {STACKPN})
    (hroom : pagesFor (V ∪ {STACKPN}) ≤ l₀.length) :
    ∃ s' l', Jos.regionAlloc s d (USTACKTOP - BitVec.ofNat 32 PGSIZE) (BitVec.ofNat 32 PGSIZE) = .ok s' ∧
      Filled R D l₀ s₀ d (V ∪ {STACKPN}) l' s' ∧ SameData d V s s' := by
  rw [← regionPages_stack] at hdisj hroom ⊢
  exact h.regionAlloc hd (by decide) hdisj hroom

theorem Program.Loadable.disjoint_stack {b : Program} (hb : b.Loadable) :
    Disjoint (segPages b.segments) {STACKPN} := by
  have hstack : STACKPN = 977917 := by decide
  have hbase : (USTACKTOP - BitVec.ofNat 32 PGSIZE).toNat = 977917 * 4096 := by decide
  rw [Finset.disjoint_singleton_right, mem_segPages]
  rintro ⟨seg, hseg, hmem⟩
  have hbelow := hb.below seg hseg
  rw [Segment.pages, regionPages, Finset.mem_Ico, hstack] at hmem
  omega

/-- `load_icode` of a program that may be loaded, into an address space that is fresh, with enough free pages. -/
theorem MemInv.loadIcode_loads {k : Kernel} {e : Nat} {b : Program} (h : MemInv R D l k)
    (hpg : (k.envs e).envPgdir = some d) (hfresh : ∀ i < NUPDE, ¬ present (k.pmap.mem d i)) (hb : b.Loadable)
    (hroom : pagesFor b.pages ≤ l.length) : ∃ k', loadIcode k e b = .ok k' ∧ Loaded k e d b k' := by
  have hd : d ∈ D := h.envs.dir e d hpg
  have hU : UTOP.toNat = 0xeec00000 := toNat_UTOP
  have hbase : (USTACKTOP - BitVec.ofNat 32 PGSIZE).toNat = 977917 * 4096 := by decide
  have hfits : ∀ seg ∈ b.segments, seg.Fits := fun seg hseg =>
    ⟨by have := hb.below seg hseg; omega, hb.file seg hseg⟩
  have hsub : ∅ ∪ segPages b.segments ⊆ b.pages := by
    rw [Finset.empty_union]
    exact Finset.subset_union_left
  obtain ⟨s₁, l₁, hcode₁, h₁, hplace, -⟩ := Filled.loadSegments hd hfits hb.disjoint (.start h.pmap hfresh)
    (fun _ _ => Finset.disjoint_empty_left _) ((pagesFor_mono hsub).trans hroom)
  rw [Finset.empty_union] at h₁
  obtain ⟨s₂, l₂, hcode₂, h₂, hdata⟩ := h₁.regionAlloc_stack hd hb.disjoint_stack hroom
  refine ⟨{ ({ k with pmap := s₁ } : Kernel).setEnv e
      { k.envs e with envTf := { (k.envs e).envTf with eip := b.entry } } with pmap := s₂ }, ?_, ?_⟩
  · rw [loadIcode, pgdirOf_some hpg, Except.ok_bind, hcode₁, Except.ok_bind]
    dsimp only
    rw [Kernel.setEnv_pmap, hcode₂]
    rfl
  · refine ⟨fun seg hseg i hi => ?_, fun v hv => h₂.mapped_userW hv, fun v hv hne => ?_, ?_, ?_, fun i hi => ?_⟩
    · have hmem : PGNUM (seg.va + BitVec.ofNat 32 i) ∈ segPages b.segments :=
        mem_segPages.mpr ⟨seg, hseg, seg.mem_pages (hfits seg hseg).below hi⟩
      rw [h₂.loadByte_read hd (Finset.mem_union_left _ hmem), hdata _ hmem, hplace seg hseg i hi]
    · show ¬ present (pteOf s₂ d v)
      rw [h₂.unmapped v hv hne]
      exact not_present_zero
    · show ((Kernel.setEnv _ e _).envs e).envTf.eip = _
      rw [Kernel.setEnv_envs, if_pos rfl]
    · exact ⟨h₂.frame.kern, h.pmap.kern_same hd h₂.kept⟩
    · refine ⟨?_, fun d' hd' => h.pmap.sameSpace (h.envs.dir i d' hd') hd ?_ h₂.kept⟩
      · show (Kernel.setEnv _ e _).envs i = _
        rw [Kernel.setEnv_envs, if_neg hi]
      · rintro rfl
        exact hi (h.envs.inj i e d' hd' hpg)

/-- `load_icode` right after `env_alloc`. -/
theorem KernelInv.loadIcode_fresh {k k₁ : Kernel} {e : Nat} {pid : Word} {b : Program} (h : KernelInv R D l k)
    (halloc : envAlloc k pid = .ok (.ok e, k₁)) (hb : b.Loadable) (hroom : pagesFor b.pages < l.length) :
    ∃ d k₂, (k₁.envs e).envPgdir = some d ∧ loadIcode k₁ e b = .ok k₂ ∧ Loaded k₁ e d b k₂ := by
  rcases h.envAlloc_cases pid with ⟨e', p, l', -, -, -, rfl, hcode, hinv⟩ | ⟨-, err, hcode⟩
  · rw [halloc] at hcode
    obtain ⟨he, rfl⟩ := Prod.mk.inj (Except.ok.inj hcode)
    obtain rfl : e = e' := Except.ok.inj he
    have hpg : ((k.newEnv e p (k.pmap.newDir p) pid).envs e).envPgdir = some p := by
      rw [newEnv_envs_self]
    have hfresh : ∀ i < NUPDE, ¬ present ((k.newEnv e p (k.pmap.newDir p) pid).pmap.mem p i) := by
      intro i hi
      show ¬ present ((k.pmap.newDir p).mem p i)
      rw [h.pmap.newDir_pde hi]
      exact not_present_zero
    obtain ⟨k₂, hk₂, hloaded⟩ := hinv.toMemInv.loadIcode_loads hpg hfresh hb (Nat.le_of_lt_succ hroom)
    exact ⟨p, k₂, hpg, hk₂, hloaded⟩
  · rw [halloc] at hcode
    cases hcode

end Jos
