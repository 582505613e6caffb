import Jos.PageInsert
import Jos.EnvTable

/-!
# `env_free` gives back what an environment held

`env_free` walks the page tables of an environment below `UTOP`, removes every mapping, frees every page table
and then the directory. The first part of this module reads off what that does to the counts and to the free
list: all references held through the directory are gone, those held elsewhere are as before. The second part
follows an environment from `env_alloc` through any number of `sys_page_alloc` calls to `env_free`, and finds
the free pages as they were.
-/

namespace Jos

open Pmap

variable {R : Set Nat} {D : Finset Nat} {l l₀ : List Nat} {s s' : Pmap} {k k' : Kernel} {c d e : Nat}

/-! ## References through a directory -/

/-- The directory a slot belongs to. -/
def Slot.owner : Slot → Nat
  | .dir d => d
  | .pde d _ => d
  | .pte d _ => d

theorem target_owner {x : Slot} {q : Nat} (h : target s D x = some q) : x.owner ∈ D := by
  cases x with
  | dir e =>
    simp only [target] at h
    split at h
    · next he => exact he
    · cases h
  | pde e i =>
    simp only [target] at h
    split at h
    · next he => exact he.1
    · cases h
  | pte e v =>
    simp only [target] at h
    split at h
    · next he => exact he.1
    · cases h

theorem target_mem_slots {x : Slot} {q n : Nat} (hlt : ∀ d ∈ D, d < n) (h : target s D x = some q) :
    x ∈ slots n := by
  have how := hlt _ (target_owner h)
  cases x with
  | dir e => exact dir_mem_slots.mpr how
  | pde e i =>
    simp only [target] at h
    split at h
    · next he => exact pde_mem_slots.mpr ⟨how, he.2⟩
    · cases h
  | pte e v =>
    simp only [target] at h
    split at h
    · next he => exact pte_mem_slots.mpr ⟨how, he.2⟩
    · cases h

/-- The number of present page table entries below `UTOP` through which directory `d` maps page `p`. -/
def userPtes (s : Pmap) (d p : Nat) : Nat :=
  ((Finset.range NUVPN).filter fun v => named (pteOf s d v) = some p).card

/-- No directory but `d` loses an entry. -/
theorem PmapInv.freeFrame_dir (h : PmapInv R D l s) (hd : d ∈ D) (hff : FreeFrame R D d s s')
    {e : Nat} (he : e ∈ D) (hne : e ≠ d) : s'.mem e = s.mem e := by
  refine hff.mem e hne fun i hi hn => ?_
  obtain ⟨hP, hppn⟩ := named_eq_some.mp hn
  exact h.sep.table_ne_dir d hd e he i hi hP hppn

/-- The slots of `d` are empty, the others hold what they held. -/
theorem PmapInv.freeFrame_target (h : PmapInv R D l s) (hd : d ∈ D) (hff : FreeFrame R D d s s')
    (x : Slot) : target s' (D.erase d) x = if x.owner = d then none else target s D x := by
  by_cases hx : x.owner = d
  · rw [if_pos hx]
    by_contra hne
    obtain ⟨q, hq⟩ := Option.ne_none_iff_exists'.mp hne
    have how := target_owner hq
    rw [hx] at how
    exact Finset.notMem_erase d D how
  · rw [if_neg hx]
    cases x with
    | dir e => simp [target, show e ≠ d from hx]
    | pde e i =>
      simp only [target, Finset.mem_erase, show e ≠ d from hx, ne_eq, not_false_eq_true, true_and]
      by_cases he : e ∈ D ∧ i < NUPDE
      · rw [if_pos he, if_pos he, h.freeFrame_dir hd hff he.1 hx]
      · rw [if_neg he, if_neg he]
    | pte e v =>
      simp only [target, Finset.mem_erase, show e ≠ d from hx, ne_eq, not_false_eq_true, true_and]
      by_cases he : e ∈ D ∧ v < NUVPN
      · rw [if_pos he, if_pos he, hff.pte e he.1 hx v he.2]
      · rw [if_neg he, if_neg he]

/-- What `env_free` leaves of the memory when it has torn down the address space of directory `d`. -/
structure AddrSpaceFreed (D : Finset Nat) (d : Nat) (s s' : Pmap) : Prop where
  dir : OnFreeList s' d
  tables : ∀ i < NUPDE, present (s.mem d i) → OnFreeList s' (ppn (s.mem d i))
  /-- Every other page has lost one reference for each entry that mapped it. -/
  refs : ∀ p < s.npages, p ≠ d → (∀ i < NUPDE, named (s.mem d i) ≠ some p) →
    (s'.pages p).ppRef.toNat + userPtes s d p = (s.pages p).ppRef.toNat
  /-- Pages come onto the free list when their count becomes zero, -/
  newly : ∀ p < s.npages, (OnFreeList s' p ∧ ¬ OnFreeList s p) ↔
    (0 < (s.pages p).ppRef.toNat ∧ (s'.pages p).ppRef.toNat = 0)
  /-- none leaves it, -/
  kept : ∀ p, OnFreeList s p → OnFreeList s' p
  /-- and none is on it twice. -/
  once : ∃ l, Linked (fun q => (s'.pages q).ppLink) s'.pageFreeList l ∧ l.Nodup
  /-- The other address spaces translate every address as before. -/
  others : ∀ e ∈ D, e ≠ d → ∀ v < 1048576, pteOf s' e v = pteOf s e v

namespace PmapInv

/-- A page of the allocator is counted by the slots that name it. -/
theorem ref_slots (h : PmapInv R D l s) {p : Nat} (hp : Managed s.npages R p) :
    (s.pages p).ppRef.toNat = refCount (slots s.npages) (target s D) p := h.consistent.ref_eq p hp

theorem ref_zero_of_unnamed (h : PmapInv R D l s) {p : Nat} (hp : Managed s.npages R p)
    (hun : ∀ x ∈ slots s.npages, target s D x ≠ some p) : (s.pages p).ppRef.toNat = 0 := by
  rw [h.ref_slots hp]
  exact refCount_eq_zero.mpr hun

/-- The references that go are the entries of the directory. -/
theorem freeFrame_refs (h : PmapInv R D l s) (hd : d ∈ D) {l' : List Nat}
    (h' : PmapInv R (D.erase d) l' s') (hff : FreeFrame R D d s s') {p : Nat} (hp : p < s.npages)
    (hpd : p ≠ d) (htab : ∀ i < NUPDE, named (s.mem d i) ≠ some p) :
    (s'.pages p).ppRef.toNat + userPtes s d p = (s.pages p).ppRef.toNat := by
  by_cases hR : p ∈ R
  · -- a reserved page is not mapped below `UTOP`
    have hzero : userPtes s d p = 0 := by
      refine Finset.card_eq_zero.mpr (Finset.filter_eq_empty_iff.mpr fun v hv hn => ?_)
      obtain ⟨hP, rfl⟩ := named_eq_some.mp hn
      exact (h.page_managed hd (Finset.mem_range.mp hv) hP).2 hR
    rw [hzero, hff.frame.res_pages p hR, Nat.add_zero]
  · have hn : s'.npages = s.npages := hff.frame.npages
    rw [h.ref_slots ⟨hp, hR⟩, h'.ref_slots ⟨by rw [hn]; exact hp, hR⟩, hn]
    have hptes : userPtes s d p
        = ((slots s.npages).filter fun x => x.owner = d ∧ target s D x = some p).card := by
      rw [userPtes, ← Finset.card_image_of_injective _ fun v w hvw => (Slot.pte.inj hvw).2]
      congr 1
      ext x
      simp only [Finset.mem_image, Finset.mem_filter, Finset.mem_range]
      constructor
      · rintro ⟨v, ⟨hv, hn⟩, rfl⟩
        exact ⟨h.pte_mem hd hv, rfl, (target_pte hd hv).trans hn⟩
      · rintro ⟨hx, how, ht⟩
        cases x with
        | dir e =>
          obtain rfl : e = d := how
          have hself : target s D (.dir e) = some e := if_pos hd
          exact absurd (Option.some.inj (ht.symm.trans hself)) hpd
        | pde e i =>
          obtain rfl : e = d := how
          have hi := (pde_mem_slots.mp hx).2
          exact absurd ((target_pde hd hi).symm.trans ht) (htab i hi)
        | pte e v =>
          obtain rfl : e = d := how
          have hv := (pte_mem_slots.mp hx).2
          exact ⟨v, ⟨hv, (target_pte hd hv).symm.trans ht⟩, rfl⟩
    have hunion : (slots s.npages).filter (fun x => target s D x = some p)
        = (slots s.npages).filter (fun x => target s' (D.erase d) x = some p)
          ∪ (slots s.npages).filter fun x => x.owner = d ∧ target s D x = some p := by
      ext x
      simp only [Finset.mem_union, Finset.mem_filter, h.freeFrame_target hd hff x]
      by_cases hx : x.owner = d
      · simp [hx]
      · simp [hx]
    have hdisj : Disjoint ((slots s.npages).filter fun x => target s' (D.erase d) x = some p)
        ((slots s.npages).filter fun x => x.owner = d ∧ target s D x = some p) := by
      rw [Finset.disjoint_left]
      intro x hx hy
      obtain ⟨-, hx⟩ := Finset.mem_filter.mp hx
      obtain ⟨-, how, -⟩ := Finset.mem_filter.mp hy
      rw [h.freeFrame_target hd hff x, if_pos how] at hx
      cases hx
    rw [hptes, refCount, refCount, hunion, Finset.card_union_of_disjoint hdisj]

/-- From `UTOP` up an address space is the kernel's, and its own directory at `UVPT`. -/
theorem freeFrame_pteOf (h : PmapInv R D l s) (hd : d ∈ D) (hff : FreeFrame R D d s s') {e v : Nat}
    (he : e ∈ D) (hne : e ≠ d) (hv : v < 1048576) : pteOf s' e v = pteOf s e v := by
  have hdir := h.freeFrame_dir hd hff he hne
  by_cases hlow : v < NUVPN
  · exact hff.pte e he hne v hlow
  · have hi : NUPDE ≤ v / 1024 := by
      unfold NUVPN at hlow
      omega
    have hi' : v / 1024 < 1024 := by omega
    unfold pteOf
    rw [hdir]
    split
    · next hP =>
      rcases h.table_kinds he hi' hP with hlow' | hself | ⟨hres, -⟩
      · omega
      · rw [hself, hdir]
      · rw [hff.frame.res_mem _ hres]
    · rfl

/-- The effect of `env_free` on memory. -/
theorem freeFrame_freed (h : PmapInv R D l s) (hd : d ∈ D) {l' : List Nat}
    (h' : PmapInv R (D.erase d) l' s') (hff : FreeFrame R D d s s') : AddrSpaceFreed D d s s' := by
  have hn : s'.npages = s.npages := hff.frame.npages
  -- a page whose only reference was held through `d`
  have hfreed : ∀ x ∈ slots s.npages, x.Excl → x.owner = d → ∀ p, target s D x = some p →
      OnFreeList s' p := by
    intro x hx hX how p ht
    have hM := h.consistent.target_managed x hx p ht
    refine (hff.freed p).mpr (Or.inr ⟨h.consistent.ref_pos hx ht, ?_⟩)
    refine h'.ref_zero_of_unnamed (by rw [hn]; exact hM) fun y hy hty => ?_
    rw [h.freeFrame_target hd hff y] at hty
    split at hty
    · cases hty
    · next hyd =>
      rw [hn] at hy
      have hxy := h.consistent.excl_unique hx hX ht hy hty
      exact hyd (hxy ▸ how)
  refine ⟨?_, ?_, ?_, ?_, ?_, ?_, ?_⟩
  · exact hfreed (.dir d) (h.dir_mem hd) trivial rfl d (if_pos hd)
  · intro i hi hP
    exact hfreed (.pde d i) (h.pde_mem hd hi) trivial rfl _ (target_table (l := l) hd hi hP)
  · exact fun p hp hpd htab => h.freeFrame_refs hd h' hff hp hpd htab
  · intro p _
    rw [hff.freed p]
    constructor
    · rintro ⟨hor, hnot⟩
      exact hor.resolve_left hnot
    · intro hc
      refine ⟨Or.inr hc, fun hon => ?_⟩
      have hzero := h.consistent.free_ref p (h.free.onFreeList_iff.mp hon)
      change (s.pages p).ppRef.toNat = 0 at hzero
      omega
  · exact fun p hp => (hff.freed p).mpr (Or.inl hp)
  · exact ⟨l', h'.free.linked, h'.consistent.nodup⟩
  · exact fun e he hne v hv => h.freeFrame_pteOf hd hff he hne hv

end PmapInv

/-! ## From `env_alloc` to `env_free` -/

/-- The page is free or referenced. Between calls only a page that `page_alloc` has just handed out is
neither. -/
def Held (s : Pmap) (p : Nat) : Prop := OnFreeList s p ∨ 0 < (s.pages p).ppRef.toNat

section Insert

variable {pp : Nat} {va perm : Word}

/-- Where the references after `page_insert` come from, and that it loses no page. -/
structure InsertEffect (D : Finset Nat) (l : List Nat) (s : Pmap) (d pp : Nat) (va : Word) (s' : Pmap) :
    Prop where
  held : ∀ q, Held s q → Held s' q
  new : 0 < (s'.pages pp).ppRef.toNat
  source : ∀ x q, target s' D x = some q → (x = .pte d (PGNUM va) ∧ q = pp) ∨
    (x = .pde d (PDX va) ∧ q ∈ l) ∨ target s D x = some q

namespace PmapInv

theorem held_iff (h : PmapInv R D l s) {q : Nat} :
    Held s q ↔ q ∈ (absStore s D l).free ∨ 0 < (absStore s D l).ref q := by
  rw [Held, h.free.onFreeList_iff]
  rfl

theorem insertMapped_effect (h : PmapInv R D l s) (hd : d ∈ D) (hva : va < UTOP)
    (hpde : present (s.mem d (PDX va))) (hperm : perm.toNat < 4096) (hM : Managed s.npages R pp)
    (hpp : pp ∉ l) (hshared : ∀ x ∈ slots s.npages, x.Excl → target s D x ≠ some pp)
    (href : (s.pages pp).ppRef.toNat ≠ 65535) :
    InsertEffect D l s d pp va (s.insertMapped d pp va perm) := by
  have hv := PGNUM_lt_NUVPN hva
  obtain ⟨hinv, habs⟩ := h.insertMapped hd hva hpde hperm hM hpp hshared href
  have hpte : pteOf (s.insertMapped d pp va perm) d (PGNUM va) = mkPte pp perm := by
    rw [h.insertMapped_pteOf hd hva hpde hperm hd hv, if_pos ⟨rfl, rfl⟩]
  have hlt : pp < 1048576 := hM.1.trans_le h.npages_le'
  have hP : present (pteOf (s.insertMapped d pp va perm) d (PGNUM va)) := by
    rw [hpte]
    exact present_mkPte pp perm
  refine ⟨fun q hq => ?_, ?_, fun x q hx => ?_⟩
  · rw [hinv.held_iff, habs]
    exact RefStore.held_relink _ pp (h.held_iff.mp hq)
  · have hpos := hinv.page_ref_pos hd hv hP
    rwa [hpte, ppn_mkPte hlt hperm] at hpos
  · by_cases hxs : x = .pte d (PGNUM va)
    · refine Or.inl ⟨hxs, ?_⟩
      rw [hxs, target_pte hd hv, named_present hP, hpte, ppn_mkPte hlt hperm] at hx
      exact (Option.some.inj hx).symm
    · refine Or.inr (Or.inr ?_)
      have htarget : target (s.insertMapped d pp va perm) D
          = ((absStore s D l).relink (.pte d (PGNUM va)) pp).target :=
        congrArg RefStore.target habs
      rwa [htarget, RefStore.relink_target_of_ne hxs] at hx

theorem newTable_effect {p : Nat} (h : PmapInv R D (p :: l) s) (hd : d ∈ D) (hva : va < UTOP)
    (hpde : ¬ present (s.mem d (PDX va)))
    (heff : InsertEffect D l (s.newTable d (PDX va) p) d pp va s') :
    InsertEffect D (p :: l) s d pp va s' := by
  have hi := PDX_lt_of_lt_UTOP hva
  have h₁ := h.newTable hd hi hpde
  have hlt : p < 1048576 := h.head_managed.1.trans_le h.npages_le'
  refine ⟨fun q hq => heff.held q ?_, heff.new, fun x q hx => ?_⟩
  · by_cases hqp : q = p
    · have hone := h₁.table_ref hd hi (h.newTable_present hd)
      rw [h.newTable_dir hd, if_pos ⟨rfl, rfl⟩, ppn_freshPde hlt, ← hqp] at hone
      exact Or.inr (by rw [hqp] at hone ⊢; omega)
    · rw [Held, newTable_pages_of_ne hqp, h₁.free.onFreeList_iff]
      refine hq.imp_left fun hon => ?_
      exact (List.mem_cons.mp (h.free.onFreeList_iff.mp hon)).resolve_left hqp
  · rcases heff.source x q hx with hx | ⟨hx, hq⟩ | hx
    · exact Or.inl hx
    · exact Or.inr (Or.inl ⟨hx, List.mem_cons_of_mem p hq⟩)
    · rw [h.newTable_target hd hi hpde x] at hx
      split at hx
      · next hxi => exact Or.inr (Or.inl ⟨hxi, Option.some.inj hx ▸ List.mem_cons_self ..⟩)
      · exact Or.inr (Or.inr hx)

theorem pageInsert_effect (h : PmapInv R D l s) (hd : d ∈ D) (hva : va < UTOP)
    (hperm : perm.toNat < 4096) (hM : Managed s.npages R pp) (hpp : pp ∉ l)
    (hshared : ∀ x ∈ slots s.npages, x.Excl → target s D x ≠ some pp)
    (href : (s.pages pp).ppRef.toNat ≠ 65535) (hcode : pageInsert s d pp va perm = .ok (0, s')) :
    InsertEffect D l s d pp va s' := by
  have hi := PDX_lt_of_lt_UTOP hva
  by_cases hpde : present (s.mem d (PDX va))
  · rw [h.pageInsert_mapped hd hva hpde] at hcode
    cases hcode
    exact h.insertMapped_effect hd hva hpde hperm hM hpp hshared href
  · cases l with
    | nil =>
      rw [pageInsert_noMem hpde h.free.head_none] at hcode
      cases hcode
    | cons p l =>
      have hpne : pp ≠ p := fun he => hpp (by simp [he])
      have h₁ := h.newTable hd hi hpde
      have hpde₁ : present ((s.newTable d (PDX va) p).mem d (PDX va)) := h.newTable_present hd
      rw [pageInsert_create hpde h.free.head_some h.head_managed.1 h.npages_le',
        h₁.pageInsert_mapped hd hva hpde₁] at hcode
      cases hcode
      refine h.newTable_effect hd hva hpde (h₁.insertMapped_effect hd hva hpde₁ hperm hM
        (fun hmem => hpp (by simp [hmem])) (h.newTable_shared hd hi hpde hpne hshared) ?_)
      rw [newTable_pages_of_ne hpne]
      exact href

end PmapInv

end Insert

/-- A page that `page_alloc` hands out is in no slot. -/
theorem PmapInv.fresh_target {p : Nat} (h : PmapInv R D (p :: l) s) :
    target (s.fresh p) D = target s D := by
  have hun := h.free_unnamed (List.mem_cons_self ..)
  exact target_congr (fun e he => fresh_mem_of_ne (h.dir_ne_of_unnamed hun he))
    fun e he i hi hP => fresh_mem_of_ne (h.table_ne_of_unnamed hun he hi hP)

theorem PmapInv.fresh_held {p q : Nat} (h : PmapInv R D (p :: l) s) (hqp : q ≠ p) (hq : Held s q) :
    Held (s.fresh p) q := by
  rw [Held, h.fresh.free.onFreeList_iff]
  refine hq.imp (fun hon => ?_) fun hpos => ?_
  · exact (List.mem_cons.mp (h.free.onFreeList_iff.mp hon)).resolve_left hqp
  · rwa [Pmap.fresh, clearPage_pages, takeFree_pages, if_neg hqp]

/-- What a successful `sys_page_alloc` below `UTOP` does to the references and to the free list. -/
theorem MemInv.sysPageAlloc_effect {cur : Nat} {envid va perm : Word} (h : MemInv R D l k)
    (he : envid2env k cur envid true = some e) (hpg : (k.envs e).envPgdir = some d) (hva : va ≠ UTOP)
    (hcode : sysPageAlloc k cur envid va perm = .ok (0, k')) :
    ∃ s l', k' = { k with pmap := s } ∧ PmapInv R D l' s ∧ s.npages = k.pmap.npages ∧
      (∀ q ∈ l', q ∈ l ∨ ∃ x, x.owner = d ∧ target k.pmap D x = some q) ∧
      (∀ q, Held k.pmap q → Held s q) ∧
      ∀ x q, target s D x = some q → target k.pmap D x = some q ∨ (x.owner = d ∧ q ∈ l) := by
  have hd := h.envs.dir e d hpg
  by_cases ha : PageAllocArgs k cur e envid va perm
  · have hlt : va < UTOP := not_not.mp fun hc => hva (eq_UTOP ha.2.1 hc)
    cases l with
    | nil =>
      rw [h.sysPageAlloc_noMem ha] at hcode
      cases hcode
    | cons p l =>
      have hfresh := h.pmap.fresh
      have href : ((k.pmap.fresh p).pages p).ppRef.toNat ≠ 65535 := by
        rw [h.pmap.fresh_ref]
        decide
      have hperm := ha.2.2.2.toNat_lt
      have hshared : ∀ x ∈ slots (k.pmap.fresh p).npages, x.Excl →
          target (k.pmap.fresh p) D x ≠ some p := fun x hx _ => h.pmap.fresh_unnamed x hx
      rw [sysPageAlloc_eq ha hpg h.pmap.pageAlloc_fresh] at hcode
      rcases hfresh.pageInsert_cases hd hlt hperm h.pmap.head_managed h.pmap.head_notMem hshared with
        ⟨s, hins, hI, hinv⟩ | ⟨hins, -, rfl⟩
      · obtain ⟨l', hinv, -⟩ := hinv href
        have heff := hfresh.pageInsert_effect hd hlt hperm h.pmap.head_managed h.pmap.head_notMem hshared
          href hins
        rw [hins] at hcode
        cases hcode
        refine ⟨s, l', rfl, hinv, hI.frame.npages, fun q hq => ?_, fun q hq => ?_, fun x q hx => ?_⟩
        · obtain ⟨l'', hfree, hmem⟩ := hI.free
          rcases hmem q (hfree.onFreeList_iff.mp (hinv.free.onFreeList_iff.mpr hq)) with hq | ⟨hP, rfl⟩
          · exact Or.inl (List.mem_cons_of_mem p hq)
          · refine Or.inr ⟨.pte d (PGNUM va), rfl, ?_⟩
            rw [← h.pmap.fresh_target]
            exact PmapInv.target_page (l := l) hd (PGNUM_lt_NUVPN hlt) hP
        · by_cases hqp : q = p
          · exact Or.inr (hqp ▸ heff.new)
          · exact heff.held q (h.pmap.fresh_held hqp hq)
        · rcases heff.source x q hx with ⟨rfl, rfl⟩ | ⟨rfl, hq⟩ | hx
          · exact Or.inr ⟨rfl, List.mem_cons_self ..⟩
          · exact Or.inr ⟨rfl, List.mem_cons_of_mem p hq⟩
          · rw [h.pmap.fresh_target] at hx
            exact Or.inl hx
      · have hne : (-E_NO_MEM : Int) ≠ 0 := by decide
        rw [hins] at hcode
        simp only [Except.ok_bind] at hcode
        rw [if_pos hne, h.pmap.fresh_putFree] at hcode
        cases hcode
  · have hno : ∀ e', ¬ PageAllocArgs k cur e' envid va perm := by
      intro e' ha'
      obtain rfl : e = e' := Option.some.inj (he.symm.trans ha'.1)
      exact ha ha'
    obtain ⟨r, hr, hrefused⟩ := sysPageAlloc_refused hno
    rw [hrefused] at hcode
    cases hcode
    exact absurd hr (lt_irrefl 0)

/-- Successful calls of `sys_page_alloc` that put pages into environment `e`, at the addresses `vas`. -/
inductive PageAllocs (e : Nat) : Kernel → List Word → Kernel → Prop
  | none (k : Kernel) : PageAllocs e k [] k
  | call {k k₁ k₂ : Kernel} {vas : List Word} (cur : Nat) (envid va perm : Word) :
      PageAllocs e k vas k₁ → envid2env k₁ cur envid true = some e →
      sysPageAlloc k₁ cur envid va perm = .ok (0, k₂) → PageAllocs e k (va :: vas) k₂

/-- The state on the way from `env_alloc`, which found the free list `l₀` and made directory `d`: pages that
were free are still free or in use, and those the new environment uses are among them. -/
structure Borrowing (R : Set Nat) (D : Finset Nat) (l₀ : List Nat) (d : Nat) (l : List Nat) (s : Pmap) :
    Prop where
  inv : PmapInv R (insert d D) l s
  managed : ∀ q ∈ l₀, Managed s.npages R q
  free : ∀ q ∈ l, q ∈ l₀
  held : ∀ q ∈ l₀, Held s q
  owner : ∀ x q, target s (insert d D) x = some q → (q ∈ l₀ ↔ x.owner = d)

namespace Borrowing

/-- `env_alloc` starts it. -/
theorem newDir {p : Nat} (h : PmapInv R D (p :: l) s) : Borrowing R D (p :: l) p l (s.newDir p) where
  inv := h.newDir
  managed q hq := h.consistent.free_managed q hq
  free q hq := List.mem_cons_of_mem p hq
  held q hq := by
    rcases List.mem_cons.mp hq with rfl | hq
    · refine Or.inr ?_
      rw [h.newDir.dir_ref (Finset.mem_insert_self ..)]
      exact one_pos
    · exact Or.inl (h.newDir.free.onFreeList_iff.mpr hq)
  owner x q hx := by
    rw [h.newDir_target] at hx
    by_cases hxp : x = .dir p
    · subst hxp
      rw [Function.update_self] at hx
      exact iff_of_true (Option.some.inj hx ▸ List.mem_cons_self ..) rfl
    · rw [Function.update_of_ne hxp] at hx
      have how := target_owner hx
      have hne : x.owner ≠ p := by
        rintro rfl
        exact h.dir_notMem_free how (List.mem_cons_self ..)
      refine iff_of_false (fun hq => ?_) hne
      exact h.free_unnamed hq x (target_mem_slots h.dirs_lt hx) hx

/-- Each successful `sys_page_alloc` below `UTOP` keeps it. -/
theorem call {cur : Nat} {envid va perm : Word} (h : Borrowing R D l₀ d l k.pmap)
    (henvs : EnvsOk (insert d D) k) (he : envid2env k cur envid true = some e)
    (hpg : (k.envs e).envPgdir = some d) (hva : va ≠ UTOP)
    (hcode : sysPageAlloc k cur envid va perm = .ok (0, k')) :
    ∃ s l', k' = { k with pmap := s } ∧ Borrowing R D l₀ d l' s := by
  have hinv : MemInv R (insert d D) l k := ⟨h.inv, henvs⟩
  obtain ⟨s, l', rfl, hs, hn, hfree, hheld, hsource⟩ := hinv.sysPageAlloc_effect he hpg hva hcode
  refine ⟨s, l', rfl, hs, fun q hq => hn ▸ h.managed q hq, fun q hq => ?_,
    fun q hq => hheld q (h.held q hq), fun x q hx => ?_⟩
  · rcases hfree q hq with hq | ⟨x, hx, ht⟩
    · exact h.free q hq
    · exact (h.owner x q ht).mpr hx
  · rcases hsource x q hx with hx | ⟨hx, hq⟩
    · exact h.owner x q hx
    · exact iff_of_true (h.free q hq) hx

theorem calls {vas : List Word} (hcalls : PageAllocs e k vas k') (h : Borrowing R D l₀ d l k.pmap)
    (henvs : EnvsOk (insert d D) k) (hpg : (k.envs e).envPgdir = some d) (hvas : UTOP ∉ vas) :
    ∃ s l', k' = { k with pmap := s } ∧ Borrowing R D l₀ d l' s := by
  induction hcalls with
  | none => exact ⟨k.pmap, l, rfl, h⟩
  | call cur envid va perm _ he hcode ih =>
    obtain ⟨hva, hvas⟩ := not_or.mp (List.mem_cons.not.mp hvas)
    obtain ⟨s, l', rfl, hs⟩ := ih hvas
    exact call (k := { k with pmap := s }) hs (henvs.congr (.of_envs rfl rfl)) he hpg (Ne.symm hva) hcode

/-- `env_free` ends it: the free pages are those of the start. -/
theorem freed {l' : List Nat} (h : Borrowing R D l₀ d l s)
    (h' : PmapInv R ((insert d D).erase d) l' s') (hff : FreeFrame R (insert d D) d s s') (q : Nat) :
    OnFreeList s' q ↔ q ∈ l₀ := by
  have hd : d ∈ insert d D := Finset.mem_insert_self ..
  have hn : s'.npages = s.npages := hff.frame.npages
  have htarget := h.inv.freeFrame_target hd hff
  constructor
  · intro hon
    have hM := h'.consistent.free_managed q (h'.free.onFreeList_iff.mp hon)
    rw [hn] at hM
    rcases (hff.freed q).mp hon with hon | ⟨hpos, hzero⟩
    · exact h.free q (h.inv.free.onFreeList_iff.mp hon)
    · -- some slot names the page, and it is one that `env_free` cleared
      rw [h.inv.ref_slots hM] at hpos
      obtain ⟨x, hx⟩ := Finset.card_pos.mp hpos
      obtain ⟨hx, ht⟩ := Finset.mem_filter.mp hx
      refine (h.owner x q ht).mpr (not_not.mp fun hne => ?_)
      refine h'.unnamed_of_ref_zero (by rw [hn]; exact hM) hzero x (by rw [hn]; exact hx) ?_
      rw [htarget, if_neg hne]
      exact ht
  · intro hq
    rcases h.held q hq with hon | hpos
    · exact (hff.freed q).mpr (Or.inl hon)
    · refine (hff.freed q).mpr (Or.inr ⟨hpos, ?_⟩)
      refine h'.ref_zero_of_unnamed (by rw [hn]; exact h.managed q hq) fun x _ ht => ?_
      rw [htarget] at ht
      split at ht
      · cases ht
      · next hne => exact hne ((h.owner x q ht).mp hq)

end Borrowing

/-- `env_free` neither leaks nor frees too much. For any environment the references it held are gone and no
others. And `env_alloc`, any number of successful `sys_page_alloc` calls below `UTOP` into the new environment
and `env_free` leave the free pages as they were. -/
theorem envFree_accounts (h : MemInv R D l k) :
    (∀ c e d, (k.envs e).envPgdir = some d →
      ∃ k', envFree k c e = .ok k' ∧ AddrSpaceFreed D d k.pmap k'.pmap) ∧
    ∀ pid e k₁ vas k₂ c, envAlloc k pid = .ok (.ok e, k₁) → PageAllocs e k₁ vas k₂ → UTOP ∉ vas →
      ∃ k₃, envFree k₂ c e = .ok k₃ ∧ ∀ q, OnFreeList k₃.pmap q ↔ OnFreeList k.pmap q := by
  constructor
  · intro c e d hpg
    obtain ⟨s, l', hcode, h', hff⟩ := h.envFree_spec hpg c
    exact ⟨_, hcode, h.pmap.freeFrame_freed (h.envs.dir e d hpg) h'.pmap hff⟩
  · intro pid e k₁ vas k₂ c halloc hcalls hvas
    rcases h.envAlloc_cases pid with ⟨e', p, l', -, -, -, rfl, hcode, h₁⟩ | ⟨-, err, hcode⟩
    · rw [halloc] at hcode
      cases hcode
      have hpg : ((k.newEnv e p (k.pmap.newDir p) pid).envs e).envPgdir = some p := by
        rw [newEnv_envs_self]
      have hstart : Borrowing R D (p :: l') p l' (k.newEnv e p (k.pmap.newDir p) pid).pmap :=
        .newDir h.pmap
      obtain ⟨s, l₂, rfl, h₂⟩ := Borrowing.calls hcalls hstart h₁.envs hpg hvas
      have hinv : MemInv R (insert p D) l₂ { k.newEnv e p (k.pmap.newDir p) pid with pmap := s } :=
        ⟨h₂.inv, h₁.envs.congr (.of_envs rfl rfl)⟩
      obtain ⟨s', l₃, hfree, h₃, hff⟩ := hinv.envFree_spec hpg c
      refine ⟨_, hfree, fun q => ?_⟩
      rw [h.pmap.free.onFreeList_iff]
      exact h₂.freed h₃.pmap hff q
    · rw [halloc] at hcode
      cases hcode

/-! ## A new environment of `demoSystem` -/

/-- `env_alloc` on behalf of an environment, which may then name the new one. -/
theorem newEnv_envid2env {p : Nat} {pmap : Pmap} {cur : Nat} (he : e < NENV) (hne : e ≠ cur) :
    envid2env (k.newEnv e p pmap (k.envs cur).envId) cur
      ((k.newEnv e p pmap (k.envs cur).envId).envs e).envId true = some e := by
  obtain ⟨k₁, hk₁⟩ : ∃ k₁, k₁ = k.newEnv e p pmap (k.envs cur).envId := ⟨_, rfl⟩
  have hid : (k₁.envs e).envId = nextEnvId (k.envs e).envId e := by rw [hk₁, newEnv_envs_self]
  have hst : (k₁.envs e).envStatus = .runnable := by rw [hk₁, newEnv_envs_self]
  have hparent : (k₁.envs e).envParentId = (k₁.envs cur).envId := by
    rw [hk₁, newEnv_envs_self, newEnv_envs_of_ne hne.symm]
  have hx : ENVX (k₁.envs e).envId = e := by rw [hid, ENVX_nextEnvId _ he]
  have hnz : (k₁.envs e).envId ≠ 0#32 := by
    rw [hid]
    exact nextEnvId_ne_zero _ he
  rw [← hk₁, envid2env, if_neg hnz]
  simp only [hx, hst, hparent]
  simp

/-- `demoSystem` has room for a third environment. -/
theorem DemoBooted.envAlloc {d₀ d₁ : Nat} (h : DemoBooted R D l d₀ d₁ k) (pid : Word) :
    ∃ e p l', l = p :: l' ∧ e < NENV ∧ e ≠ 0 ∧
      envAlloc k pid = .ok (.ok e, k.newEnv e p (k.pmap.newDir p) pid) ∧
      MemInv R (insert p D) l' (k.newEnv e p (k.pmap.newDir p) pid) := by
  have hinv := h.started.inv
  rcases hinv.toMemInv.envAlloc_cases pid with ⟨e, p, l', -, helt, hpg, hl, hcode, h₁⟩ | ⟨hno, -⟩
  · refine ⟨e, p, l', hl, helt, ?_, hcode, h₁⟩
    rintro rfl
    rw [h.pgdir₀] at hpg
    cases hpg
  · exfalso
    rcases hno with hno | rfl
    · obtain ⟨fl, hfl, hmem⟩ := hinv.envs.list
      rw [hno] at hfl
      have htwo : 2 ∈ fl := by
        refine (hmem 2).mpr ⟨by decide, (hinv.life 2).mp ?_⟩
        rw [h.started.status 2]
        rfl
      cases fl with
      | nil => cases htwo
      | cons a fl => cases hfl.1
    · exact absurd h.room (by simp)

/-- The first environment of `demoSystem` is freed; and a third one is made, given a page at address 0, and
freed. -/
theorem envFree_accounts_demoSystem : ∃ s₀ D l d₀ k k' e k₁ k₂ k₃, I386Init demoSystem k ∧
    MemInv (notFree s₀) D l k ∧ envFree k 0 0 = .ok k' ∧ AddrSpaceFreed D d₀ k.pmap k'.pmap ∧
    envAlloc k (k.envs 0).envId = .ok (.ok e, k₁) ∧ PageAllocs e k₁ [0#32] k₂ ∧
    envFree k₂ 0 e = .ok k₃ ∧ ∀ q, OnFreeList k₃.pmap q ↔ OnFreeList k.pmap q := by
  obtain ⟨s₀, D, l, d₀, d₁, k, h⟩ := demoSystem_boots
  have hinv := h.started.inv.toMemInv
  obtain ⟨e, p, l', hl, helt, hne, halloc, h₁⟩ := h.envAlloc (k.envs 0).envId
  obtain ⟨p', q, r, l', hfree⟩ := h.free
  obtain ⟨rfl, rfl⟩ := List.cons.inj (hl.symm.trans hfree)
  have ha : PageAllocArgs (k.newEnv e p (k.pmap.newDir p) (k.envs 0).envId) 0 e
      ((k.newEnv e p (k.pmap.newDir p) (k.envs 0).envId).envs e).envId 0#32 (PTE_P ||| PTE_U ||| PTE_W) :=
    ⟨newEnv_envid2env helt hne, by decide, by decide, by decide⟩
  rcases h₁.sysPageAlloc_below ha (Finset.mem_insert_self ..) (by rw [newEnv_envs_self]) (by decide) with
    ⟨s, l'', hcall, -, -⟩ | ⟨hnil, -⟩
  · have hcalls := PageAllocs.call 0 _ _ _ (.none _) ha.1 hcall
    obtain ⟨k₃, hfree, hsame⟩ := (envFree_accounts hinv).2 _ e _ _ _ 0 halloc hcalls (by decide)
    obtain ⟨k', hfree', hspace⟩ := (envFree_accounts hinv).1 0 0 d₀ h.pgdir₀
    exact ⟨s₀, D, l, d₀, k, k', e, _, _, k₃, h.init, hinv, hfree', hspace, halloc, hcalls, hfree, hsame⟩
  · cases hnil

/-- An address space without page tables below `UTOP` is only its directory. -/
theorem envFreeVm_empty (hempty : ∀ i < NUPDE, ¬ present (s.mem d i)) (hd : d < s.npages)
    (hn : s.npages ≤ 1048576) (hlink : (s.pages d).ppLink = none) : envFreeVm s d = .ok (s.decref d) := by
  obtain ⟨s₁, hloop, rfl⟩ := Except.foldlM_range_invariant (f := envFreePde d) (fun _ s₁ => s₁ = s) NUPDE
    (s := s) rfl fun i hi s₁ hs₁ => ⟨s, by rw [hs₁, envFreePde, if_pos (hempty i hi)]; rfl, rfl⟩
  have hnum : PGNUM (page2pa d) = d := PGNUM_page2pa (hd.trans_le hn)
  have hpp : pa2page s₁ (page2pa d) = .ok d := by
    rw [pa2page_ok (by rw [hnum]; exact hd), hnum]
  simp only [envFreeVm, hloop, Except.ok_bind, hpp, pageDecref_ok hlink]

/-- The page `sys_page_alloc` maps at `UTOP` is in a page table that `env_free` does not walk, so it is lost:
`env_alloc`, this one call and `env_free` do not leave the free pages as they were. -/
theorem sysPageAlloc_UTOP_leaks : ∃ s₀ D l k e k₁ k₂ k₃, I386Init demoSystem k ∧
    MemInv (notFree s₀) D l k ∧ envAlloc k (k.envs 0).envId = .ok (.ok e, k₁) ∧
    PageAllocs e k₁ [UTOP] k₂ ∧ envFree k₂ 0 e = .ok k₃ ∧
    ¬ ∀ q, OnFreeList k₃.pmap q ↔ OnFreeList k.pmap q := by
  obtain ⟨s₀, D, l, d₀, d₁, k, h⟩ := demoSystem_boots
  have hinv := h.started.inv.toMemInv
  obtain ⟨e, d, l', hl, helt, hne, halloc, h₁⟩ := h.envAlloc (k.envs 0).envId
  obtain ⟨d', p, q, l'', hfree⟩ := h.free
  obtain ⟨rfl, rfl⟩ := List.cons.inj (hl.symm.trans hfree)
  obtain ⟨l', hl'⟩ : ∃ l', l' = q :: l'' := ⟨_, rfl⟩
  rw [← hl'] at hl h₁
  obtain ⟨k₁, hk₁⟩ : ∃ k₁, k₁ = k.newEnv e d (k.pmap.newDir d) (k.envs 0).envId := ⟨_, rfl⟩
  have hpg : (k₁.envs e).envPgdir = some d := by rw [hk₁, newEnv_envs_self]
  have hempty : ∀ i < NUPDE, k₁.pmap.mem d i = 0#32 := by
    intro i hi
    rw [hk₁]
    exact (hl ▸ hinv.pmap : PmapInv _ _ (d :: p :: l') _).newDir_pde hi
  rw [← hk₁] at halloc h₁
  have hd : d ∈ insert d D := Finset.mem_insert_self ..
  have ha : PageAllocArgs k₁ 0 e (k₁.envs e).envId UTOP (PTE_P ||| PTE_U ||| PTE_W) := by
    refine ⟨?_, by decide, by decide, by decide⟩
    rw [hk₁]
    exact newEnv_envid2env helt hne
  have hcall := h₁.sysPageAlloc_UTOP ha hd hpg
  obtain ⟨s₂, hs₂⟩ : ∃ s₂, s₂ = (k₁.pmap.fresh p).insertMapped d p UTOP (PTE_P ||| PTE_U ||| PTE_W) :=
    ⟨_, rfl⟩
  rw [← hs₂] at hcall
  -- the directory still holds no page table below `UTOP`
  have hfresh := h₁.pmap.fresh
  have hdp : d ≠ p := h₁.pmap.dir_ne_of_unnamed (h₁.pmap.free_unnamed (List.mem_cons_self ..)) hd
  obtain ⟨-, -, htR, -, -, hold, hoR, -⟩ := hfresh.uenvs_entry hd
  have hmem : ∀ i < NUPDE, ¬ present (s₂.mem d i) := by
    intro i hi
    have htd : tableOf (k₁.pmap.fresh p) d (PDX UTOP) ≠ d := by
      intro hc
      exact (hfresh.dir_managed hd).2 (hc ▸ htR)
    have hi' : i ≠ PDX UTOP := by
      rw [PDX_UTOP]
      exact hi.ne
    rw [hs₂, insertMapped_mem, setPte, store_mem, if_neg fun hc => hi' hc.2,
      store_mem_of_ne _ _ _ htd.symm, fresh_mem_of_ne hdp, hempty i hi]
    exact not_present_zero
  -- the new page is not on the free list, whatever happens to the page it replaces
  have hold : ∀ q, named (pteOf (k₁.pmap.fresh p) d (PGNUM UTOP)) = some q → q ∉ l' := by
    intro q hq hql
    obtain ⟨-, rfl⟩ := named_eq_some.mp hq
    exact (hfresh.consistent.free_managed _ hql).2 hoR
  obtain ⟨l₂, hl₂, hl₂mem⟩ := hfresh.free.swapRef p hold
  have hl₂ : FreeInv s₂ l₂ := by
    rw [hs₂]
    exact hl₂.congr rfl (fun _ => rfl) rfl
  have hnot : ∀ q, Managed k₁.pmap.npages (notFree s₀) q → q ∉ l' → q ∉ l₂ := by
    intro q hq hql hql₂
    refine (hl₂mem q hql₂).elim hql fun hc => ?_
    obtain ⟨-, rfl⟩ := named_eq_some.mp hc
    exact hq.2 hoR
  have hn₂ : s₂.npages = k₁.pmap.npages := by
    rw [hs₂]
    exact swapRef_npages _ _
  have hdl : d ∉ l₂ := hnot d (h₁.pmap.dir_managed hd) (hfresh.dir_notMem_free hd)
  have hdlt : d < s₂.npages := by
    rw [hn₂]
    exact h₁.pmap.dirs_lt d hd
  have hpl : p ∉ l₂ := hnot p h₁.pmap.head_managed h₁.pmap.head_notMem
  have hvm := envFreeVm_empty hmem hdlt (by rw [hn₂]; exact h₁.pmap.npages_le')
    (hl₂.unlinked d hdlt hdl)
  have hfree : envFree { k₁ with pmap := s₂ } 0 e
      = .ok (({ k₁ with pmap := s₂ } : Kernel).freeEnv 0 e (s₂.decref d)) := by
    simp only [envFree, Kernel.record_envs, Kernel.record_pmap, hpg, hvm, Except.ok_bind]
    rfl
  refine ⟨s₀, D, l, k, e, k₁, _, _, h.init, hinv, halloc, .call 0 _ _ _ (.none _) ha.1 hcall, hfree,
    fun hsame => ?_⟩
  have hon : OnFreeList k.pmap p := by
    rw [hinv.pmap.free.onFreeList_iff, hl]
    simp
  have hon' : OnFreeList (s₂.decref d) p := (hsame p).mpr hon
  rw [(hl₂.decref hdl).onFreeList_iff] at hon'
  split at hon'
  · exact (List.mem_cons.mp hon').elim hdp.symm hpl
  · exact hpl hon'

end Jos
