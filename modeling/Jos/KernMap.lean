import Mathlib.Order.Interval.Finset.Nat
import Jos.MemInit

/-!
# `boot_map_region` and the kernel's page tables

While `mem_init` fills the part of `kern_pgdir` above `UTOP`, every directory entry there except `UVPT` is
either absent or names a page table of its own (`BootInv`). `boot_map_region` then changes exactly the
entries of the region (`bootMapPages_spec`). It can only fail for want of page tables, and there are at most
as many of them as directory entries, so the number of free pages plus the number of tables bounds what it
needs.
-/

namespace Jos

open Pmap

variable {l : List Nat} {s s' : Pmap}

/-- The directory entries above `UTOP` that hold page tables: all but `UVPT`. -/
def KernPde (i : Nat) : Prop := NUPDE ≤ i ∧ i < 1024 ∧ i ≠ PDX UVPT

/-- The shape of `kern_pgdir` and the free list `l` while `mem_init` runs. -/
structure BootInv (l : List Nat) (s : Pmap) : Prop where
  npages_le : s.npages ≤ 1048576
  free : FreeInv s l
  free_lt : ∀ p ∈ l, p < s.npages
  free_ref : ∀ p ∈ l, (s.pages p).ppRef = 0#16
  kern_lt : s.kernPgdir < s.npages
  kern_free : s.kernPgdir ∉ l
  kern_user : ∀ i < NUPDE, s.mem s.kernPgdir i = 0#32
  self : s.mem s.kernPgdir (PDX UVPT) = page2pa s.kernPgdir ||| PTE_U ||| PTE_P
  fresh : ∀ i, KernPde i → present (s.mem s.kernPgdir i) →
    s.mem s.kernPgdir i = freshPde (tableOf s s.kernPgdir i)
  table : ∀ i, KernPde i → present (s.mem s.kernPgdir i) → tableOf s s.kernPgdir i < s.npages ∧
    tableOf s s.kernPgdir i ∉ l ∧ tableOf s s.kernPgdir i ≠ s.kernPgdir
  inj : ∀ i j, KernPde i → KernPde j → present (s.mem s.kernPgdir i) →
    present (s.mem s.kernPgdir j) → tableOf s s.kernPgdir i = tableOf s s.kernPgdir j → i = j

/-- The number of page tables under `kern_pgdir` above `UTOP`, the directory's own entry included. -/
def kernTables (s : Pmap) : Nat :=
  ((Finset.Ico NUPDE 1024).filter fun i => present (s.mem s.kernPgdir i)).card

/-- What setting up page tables keeps. -/
structure BootFrame (l : List Nat) (s : Pmap) (l' : List Nat) (s' : Pmap) : Prop where
  npages : s'.npages = s.npages
  kern : s'.kernPgdir = s.kernPgdir
  sub : l' ⊆ l
  /-- Every page taken off the free list becomes a page table. -/
  room : l'.length + kernTables s' = l.length + kernTables s

namespace BootFrame

theorem refl (l : List Nat) (s : Pmap) : BootFrame l s l s :=
  ⟨rfl, rfl, List.Subset.refl l, rfl⟩

theorem trans {l₁ l₂ l₃ : List Nat} {s₁ s₂ s₃ : Pmap} (h : BootFrame l₁ s₁ l₂ s₂)
    (h' : BootFrame l₂ s₂ l₃ s₃) : BootFrame l₁ s₁ l₃ s₃ :=
  ⟨h'.npages.trans h.npages, h'.kern.trans h.kern, List.Subset.trans h'.sub h.sub,
    h'.room.trans h.room⟩

end BootFrame

/-- What `boot_map_region` leaves after mapping `n` pages from virtual page `v` on to `pa`. -/
structure RegionMapped (v n : Nat) (pa perm : Word) (l : List Nat) (s : Pmap) (l' : List Nat)
    (s' : Pmap) : Prop where
  inv : BootInv l' s'
  frame : BootFrame l s l' s'
  mmio : s'.mmioBase = s.mmioBase
  pte : ∀ w, KernPde (w / 1024) → pteOf s' s.kernPgdir w
    = if v ≤ w ∧ w < v + n then (pa + BitVec.ofNat 32 ((w - v) * PGSIZE)) ||| PTE_P ||| perm
      else pteOf s s.kernPgdir w
  /-- Page tables are added where the region needs them and none is there. -/
  dir : ∀ i, (∀ j < n, (v + j) / 1024 ≠ i) ∨ present (s.mem s.kernPgdir i) →
    s'.mem s.kernPgdir i = s.mem s.kernPgdir i

/-- Page tables stay. -/
theorem RegionMapped.present {v n i : Nat} {pa perm : Word} {l' : List Nat}
    (h : RegionMapped v n pa perm l s l' s') (hP : Jos.present (s.mem s.kernPgdir i)) :
    Jos.present (s'.mem s.kernPgdir i) := by
  rw [h.dir i (Or.inr hP)]
  exact hP

/-- User code may write through no entry of the kernel's page tables. -/
def Guarded (s : Pmap) : Prop :=
  ∀ v, KernPde (v / 1024) → ¬ userWritable (pteOf s s.kernPgdir v)

/-- Regions are mapped for the user or for writing, not both. -/
theorem RegionMapped.guarded {v n : Nat} {pa perm : Word} {l' : List Nat}
    (h : RegionMapped v n pa perm l s l' s') (hpa : pa.toNat % 4096 = 0)
    (hperm : ¬ userWritable perm) (hs : Guarded s) : Guarded s' := by
  intro w hw
  rw [h.frame.kern, h.pte w hw]
  split
  · rwa [userWritable_or]
    rw [BitVec.toNat_add, BitVec.toNat_ofNat, PGSIZE]
    omega
  · exact hs w hw

namespace BootInv

section Table

variable {i j p w : Nat} {x : Word}

/-- A new page table under an absent entry. -/
theorem newTable (h : BootInv (p :: l) s) (hi : KernPde i) (hP : ¬ present (s.mem s.kernPgdir i)) :
    BootInv l (s.newTable s.kernPgdir i p) ∧
      BootFrame (p :: l) s l (s.newTable s.kernPgdir i p) ∧
      (∀ v, KernPde (v / 1024) →
        pteOf (s.newTable s.kernPgdir i p) s.kernPgdir v = pteOf s s.kernPgdir v) ∧
      ∀ k, k ≠ i → (s.newTable s.kernPgdir i p).mem s.kernPgdir k = s.mem s.kernPgdir k := by
  have hp : p < s.npages := h.free_lt p (List.mem_cons_self ..)
  have hlt : p < 1048576 := hp.trans_le h.npages_le
  have hkp : s.kernPgdir ≠ p := fun he => h.kern_free (by simp [he])
  have hnd := List.nodup_cons.mp h.free.linked.nodup
  have hdir : ∀ k, (s.newTable s.kernPgdir i p).mem s.kernPgdir k
      = if k = i then freshPde p else s.mem s.kernPgdir k := by
    intro k
    rw [Pmap.newTable, store_mem, setRef_mem, clearPage_mem_of_ne _ _ hkp, takeFree_mem]
    simp
  have hother : ∀ q, q ≠ s.kernPgdir → q ≠ p → (s.newTable s.kernPgdir i p).mem q = s.mem q := by
    intro q hqk hqp
    rw [Pmap.newTable, store_mem_of_ne _ _ _ hqk, setRef_mem, clearPage_mem_of_ne _ _ hqp,
      takeFree_mem]
  have hnew : ∀ k, (s.newTable s.kernPgdir i p).mem p k = 0#32 := by
    intro k
    rw [Pmap.newTable, store_mem_of_ne _ _ _ (Ne.symm hkp), setRef_mem, clearPage_mem_self]
  have hpages : ∀ q, q ≠ p → (s.newTable s.kernPgdir i p).pages q = s.pages q := by
    intro q hq
    rw [Pmap.newTable, store_pages, setRef_pages, if_neg hq, clearPage_pages, takeFree_pages,
      if_neg hq]
  have hppn : ppn (freshPde p) = p := ppn_freshPde hlt
  -- an old table is neither the new page nor `kern_pgdir`
  have hold : ∀ k, KernPde k → present (s.mem s.kernPgdir k) → tableOf s s.kernPgdir k ≠ p :=
    fun k hk hPk he => (h.table k hk hPk).2.1 (by simp [he])
  refine ⟨⟨h.npages_le, ?_, ?_, ?_, h.kern_lt, ?_, ?_, ?_, ?_, ?_, ?_⟩, ⟨rfl, rfl, ?_, ?_⟩, ?_,
    fun k hk => by rw [hdir, if_neg hk]⟩
  · exact (h.free.takeFree.setRef p ((s.pages p).ppRef + 1#16)).congr rfl (fun _ => rfl) rfl
  · exact fun q hq => h.free_lt q (List.mem_cons_of_mem p hq)
  · intro q hq
    rw [hpages q fun he => hnd.1 (he ▸ hq)]
    exact h.free_ref q (List.mem_cons_of_mem p hq)
  · exact fun hk => h.kern_free (List.mem_cons_of_mem p hk)
  · intro k hk
    show (s.newTable s.kernPgdir i p).mem s.kernPgdir k = 0#32
    rw [hdir, if_neg]
    · exact h.kern_user k hk
    · rintro rfl
      exact absurd hk (Nat.not_lt.mpr hi.1)
  · show (s.newTable s.kernPgdir i p).mem s.kernPgdir (PDX UVPT) = _
    rw [hdir, if_neg (Ne.symm hi.2.2)]
    exact h.self
  · intro k hk hPk
    show (s.newTable s.kernPgdir i p).mem s.kernPgdir k
      = freshPde (ppn ((s.newTable s.kernPgdir i p).mem s.kernPgdir k))
    change present ((s.newTable s.kernPgdir i p).mem s.kernPgdir k) at hPk
    rw [hdir] at hPk ⊢
    split
    · rw [hppn]
    · next hki =>
      rw [if_neg hki] at hPk
      exact h.fresh k hk hPk
  · intro k hk hPk
    show ppn ((s.newTable s.kernPgdir i p).mem s.kernPgdir k) < s.npages ∧
      ppn ((s.newTable s.kernPgdir i p).mem s.kernPgdir k) ∉ l ∧
      ppn ((s.newTable s.kernPgdir i p).mem s.kernPgdir k) ≠ s.kernPgdir
    change present ((s.newTable s.kernPgdir i p).mem s.kernPgdir k) at hPk
    rw [hdir] at hPk ⊢
    split
    · rw [hppn]
      exact ⟨hp, hnd.1, Ne.symm hkp⟩
    · next hki =>
      rw [if_neg hki] at hPk
      obtain ⟨hlt', hfree, hne⟩ := h.table k hk hPk
      exact ⟨hlt', fun hl => hfree (List.mem_cons_of_mem p hl), hne⟩
  · intro k k' hk hk' hPk hPk' he
    change present ((s.newTable s.kernPgdir i p).mem s.kernPgdir k) at hPk
    change present ((s.newTable s.kernPgdir i p).mem s.kernPgdir k') at hPk'
    change ppn ((s.newTable s.kernPgdir i p).mem s.kernPgdir k)
      = ppn ((s.newTable s.kernPgdir i p).mem s.kernPgdir k') at he
    rw [hdir] at hPk hPk'
    rw [hdir, hdir] at he
    by_cases hki : k = i
    · by_cases hki' : k' = i
      · rw [hki, hki']
      · rw [if_neg hki'] at hPk'
        rw [if_pos hki, if_neg hki', hppn] at he
        exact absurd he.symm (hold k' hk' hPk')
    · rw [if_neg hki] at hPk he
      by_cases hki' : k' = i
      · rw [if_pos hki', hppn] at he
        exact absurd he (hold k hk hPk)
      · rw [if_neg hki'] at hPk' he
        exact h.inj k k' hk hk' hPk hPk' he
  · exact List.subset_cons_self p l
  · have hset : (Finset.Ico NUPDE 1024).filter
          (fun k => present ((s.newTable s.kernPgdir i p).mem s.kernPgdir k))
        = insert i ((Finset.Ico NUPDE 1024).filter fun k => present (s.mem s.kernPgdir k)) := by
      ext k
      rw [Finset.mem_filter, Finset.mem_insert, Finset.mem_filter, hdir]
      by_cases hki : k = i
      · rw [if_pos hki]
        exact iff_of_true ⟨by rw [hki]; exact Finset.mem_Ico.mpr ⟨hi.1, hi.2.1⟩,
          present_freshPde p⟩ (Or.inl hki)
      · rw [if_neg hki]
        simp [hki]
    show l.length + ((Finset.Ico NUPDE 1024).filter
      (fun k => present ((s.newTable s.kernPgdir i p).mem s.kernPgdir k))).card = _
    rw [hset, Finset.card_insert_of_notMem (by simp [hP]), List.length_cons, kernTables]
    omega
  · intro v hv
    unfold pteOf
    rw [hdir]
    by_cases hvi : v / 1024 = i
    · have hPv : ¬ present (s.mem s.kernPgdir (v / 1024)) := by rw [hvi]; exact hP
      rw [if_pos hvi, if_pos (present_freshPde p), hppn, hnew, if_neg hPv]
    · rw [if_neg hvi]
      split
      · next hPv => rw [hother _ (h.table _ hv hPv).2.2 (hold _ hv hPv)]
      · rfl

/-- A store to a page table of the kernel changes one entry. -/
theorem store (h : BootInv l s) (hi : KernPde i) (hP : present (s.mem s.kernPgdir i))
    (hj : j < 1024) :
    BootInv l (s.store ⟨tableOf s s.kernPgdir i, j⟩ x) ∧
      BootFrame l s l (s.store ⟨tableOf s s.kernPgdir i, j⟩ x) ∧
      (∀ v, KernPde (v / 1024) → pteOf (s.store ⟨tableOf s s.kernPgdir i, j⟩ x) s.kernPgdir v
        = if v = i * 1024 + j then x else pteOf s s.kernPgdir v) ∧
      (s.store ⟨tableOf s s.kernPgdir i, j⟩ x).mem s.kernPgdir = s.mem s.kernPgdir := by
  have hdir : (s.store ⟨tableOf s s.kernPgdir i, j⟩ x).mem s.kernPgdir = s.mem s.kernPgdir :=
    store_mem_of_ne _ _ _ (Ne.symm (h.table i hi hP).2.2)
  have htab : ∀ k, tableOf (s.store ⟨tableOf s s.kernPgdir i, j⟩ x) s.kernPgdir k
      = tableOf s s.kernPgdir k := fun k => congrArg ppn (congrFun hdir k)
  refine ⟨⟨h.npages_le, h.free.congr rfl (fun _ => rfl) rfl, h.free_lt, h.free_ref, h.kern_lt,
    h.kern_free, ?_, ?_, ?_, ?_, ?_⟩, ⟨rfl, rfl, List.Subset.refl l, ?_⟩, ?_, hdir⟩
  · intro k hk
    exact (congrFun hdir k).trans (h.kern_user k hk)
  · exact (congrFun hdir _).trans h.self
  · intro k
    rw [store_kernPgdir, hdir, htab]
    exact h.fresh k
  · intro k
    rw [store_kernPgdir, hdir, htab]
    exact h.table k
  · intro k k'
    rw [store_kernPgdir, hdir, htab, htab]
    exact h.inj k k'
  · rw [kernTables, store_kernPgdir, hdir, kernTables]
  · intro v hv
    unfold pteOf
    rw [hdir]
    by_cases hPv : present (s.mem s.kernPgdir (v / 1024))
    · rw [if_pos hPv, if_pos hPv, store_mem]
      by_cases hvi : v = i * 1024 + j
      · subst hvi
        have hdiv : (i * 1024 + j) / 1024 = i := by omega
        have hmod : (i * 1024 + j) % 1024 = j := by omega
        simp [hdiv, hmod]
      · rw [if_neg hvi, if_neg]
        rintro ⟨htab, hmod⟩
        have hk := h.inj _ i hv hi hPv hP htab
        change v % 1024 = j at hmod
        omega
    · rw [if_neg hPv, if_neg hPv, if_neg]
      rintro rfl
      have hdiv : (i * 1024 + j) / 1024 = i := by omega
      rw [hdiv] at hPv
      exact hPv hP

end Table

/-- `pgdir_walk` with `create` above `UTOP`. -/
theorem walk (h : BootInv l s) {va : Word} (hva : KernPde (PDX va)) :
    (∃ s' l', pgdirWalk s s.kernPgdir va true
        = .ok (some ⟨tableOf s' s.kernPgdir (PDX va), PTX va⟩, s') ∧
      present (s'.mem s.kernPgdir (PDX va)) ∧ s'.mmioBase = s.mmioBase ∧ BootInv l' s' ∧
      BootFrame l s l' s' ∧
      (∀ v, KernPde (v / 1024) → pteOf s' s.kernPgdir v = pteOf s s.kernPgdir v) ∧
      ∀ i, i ≠ PDX va ∨ present (s.mem s.kernPgdir i) → s'.mem s.kernPgdir i = s.mem s.kernPgdir i) ∨
    (pgdirWalk s s.kernPgdir va true = .ok (none, s) ∧ l.length + kernTables s < 69) := by
  by_cases hP : present (s.mem s.kernPgdir (PDX va))
  · exact Or.inl ⟨s, l, pgdirWalk_present true hP (h.table _ hva hP).1, hP, rfl, h, .refl l s,
      fun _ _ => rfl, fun _ _ => rfl⟩
  · cases l with
    | nil =>
      refine Or.inr ⟨pgdirWalk_noMem hP h.free.head_none, ?_⟩
      have hsub : (Finset.Ico NUPDE 1024).filter (fun i => present (s.mem s.kernPgdir i))
          ⊂ Finset.Ico NUPDE 1024 := by
        refine Finset.filter_ssubset.mpr ⟨PDX va, Finset.mem_Ico.mpr ⟨hva.1, hva.2.1⟩, hP⟩
      have hcard := Finset.card_lt_card hsub
      rw [Nat.card_Ico] at hcard
      rw [List.length_nil, kernTables]
      unfold NUPDE at hcard ⊢
      omega
    | cons p l =>
      obtain ⟨hinv, hframe, hpte, hdir⟩ := h.newTable hva hP
      have hp := h.free_lt p (List.mem_cons_self ..)
      have hentry : (s.newTable s.kernPgdir (PDX va) p).mem s.kernPgdir (PDX va) = freshPde p := by
        rw [Pmap.newTable, store_mem, if_pos ⟨rfl, rfl⟩]
      refine Or.inl ⟨s.newTable s.kernPgdir (PDX va) p, l, ?_, ?_, rfl, hinv, hframe, hpte,
        fun i hi => hdir i (hi.elim id fun hPi he => hP (he ▸ hPi))⟩
      · rw [pgdirWalk_create hP h.free.head_some hp h.npages_le, tableOf, hentry,
          ppn_freshPde (hp.trans_le h.npages_le)]
      · rw [hentry]
        exact present_freshPde p

/-- `boot_map_region` maps its region and nothing else, or runs out of page tables. -/
theorem bootMapPages_spec {n v : Nat} {perm : Word} (pa : Word) (h : BootInv l s)
    (hvn : v + n ≤ 1048576) (hkern : ∀ j < n, KernPde ((v + j) / 1024)) :
    (∃ s' l', bootMapPages s s.kernPgdir perm n (pageAddr v) pa = .ok s' ∧
      RegionMapped v n pa perm l s l' s') ∨
    (bootMapPages s s.kernPgdir perm n (pageAddr v) pa = .error .bootMapRegion ∧
      l.length + kernTables s < 69) := by
  induction n generalizing s l v pa with
  | zero =>
    refine Or.inl ⟨s, l, rfl, h, .refl l s, rfl, fun w _ => ?_, fun _ _ => rfl⟩
    rw [if_neg (by omega)]
  | succ n ih =>
    have hv : v < 1048576 := by omega
    have hpdx : PDX (pageAddr v) = v / 1024 := PDX_pageAddr hv
    have hptx : PTX (pageAddr v) = v % 1024 := PTX_pageAddr hv
    have hva : KernPde (PDX (pageAddr v)) := by
      rw [hpdx]
      exact hkern 0 (Nat.succ_pos n)
    rcases h.walk hva with ⟨s₁, l₁, hwalk, hP₁, hmm₁, h₁, hf₁, hpte₁, hdir₁⟩ | ⟨hwalk, hroom⟩
    · rw [← hf₁.kern] at hP₁
      obtain ⟨h₂, hf₂, hpte₂, hdir₂⟩ := h₁.store (x := pa ||| PTE_P ||| perm) hva hP₁ (PTX_lt _)
      rw [hf₁.kern] at h₂ hf₂ hpte₂ hdir₂
      have hcode : bootMapPages s s.kernPgdir perm (n + 1) (pageAddr v) pa
          = bootMapPages
            (s₁.store ⟨tableOf s₁ s.kernPgdir (PDX (pageAddr v)), PTX (pageAddr v)⟩
              (pa ||| PTE_P ||| perm)) s.kernPgdir perm n (pageAddr (v + 1))
            (pa + BitVec.ofNat 32 PGSIZE) := by
        rw [bootMapPages, hwalk]
        simp only [Except.ok_bind]
        rw [pageAddr_succ]
      have hmm₂ : (s₁.store ⟨tableOf s₁ s.kernPgdir (PDX (pageAddr v)), PTX (pageAddr v)⟩
          (pa ||| PTE_P ||| perm)).mmioBase = s.mmioBase := hmm₁
      rw [hcode]
      generalize s₁.store ⟨tableOf s₁ s.kernPgdir (PDX (pageAddr v)), PTX (pageAddr v)⟩
        (pa ||| PTE_P ||| perm) = s₂ at h₂ hf₂ hpte₂ hmm₂ hdir₂
      have hf := hf₁.trans hf₂
      have hrec := ih (v := v + 1) (pa + BitVec.ofNat 32 PGSIZE) h₂ (by omega)
        (fun j hj => by
          have hk := hkern (j + 1) (by omega)
          have he : v + (j + 1) = v + 1 + j := by omega
          rwa [he] at hk)
      rw [hf.kern] at hrec
      rcases hrec with ⟨s', l', hcode', h', hf', hmm', hpte', hdir'⟩ | ⟨hcode', hroom⟩
      · rw [hf.kern] at hpte' hdir'
        refine Or.inl ⟨s', l', hcode', h', hf.trans hf', hmm'.trans hmm₂, fun w hw => ?_, fun i hi => ?_⟩
        swap
        · have hi₁ : i ≠ PDX (pageAddr v) ∨ present (s.mem s.kernPgdir i) := by
            refine hi.imp_left fun hout => ?_
            rw [hpdx]
            exact (hout 0 (Nat.succ_pos n)).symm
          have hsame : s₂.mem s.kernPgdir i = s.mem s.kernPgdir i := by
            rw [hdir₂]
            exact hdir₁ i hi₁
          rw [hdir' i, hsame]
          refine hi.imp (fun hout j hj => ?_) fun hP => by rw [hsame]; exact hP
          rw [show v + 1 + j = v + (j + 1) by omega]
          exact hout (j + 1) (by omega)
        rw [hpte' w hw]
        by_cases hin : v + 1 ≤ w ∧ w < v + 1 + n
        · rw [if_pos hin, if_pos (by omega), BitVec.add_assoc, ← BitVec.ofNat_add]
          have he : PGSIZE + (w - (v + 1)) * PGSIZE = (w - v) * PGSIZE := by
            unfold PGSIZE
            omega
          rw [he]
        · rw [if_neg hin, hpte₂ w hw, hpdx, hptx]
          by_cases hwv : w = v
          · subst hwv
            rw [if_pos (by omega), if_pos (by omega), Nat.sub_self, Nat.zero_mul]
            simp
          · rw [if_neg (by omega), if_neg (by omega)]
            exact hpte₁ w hw
      · refine Or.inr ⟨hcode', ?_⟩
        rw [← hf.room]
        exact hroom
    · refine Or.inr ⟨?_, hroom⟩
      rw [bootMapPages, hwalk]
      rfl

/-- `boot_map_region` rounds its size up to whole pages. -/
theorem bootMapRegion_eq (s : Pmap) (k : Nat) (va size pa perm : Word) :
    bootMapRegion s k va size pa perm
      = bootMapPages s k perm ((size.toNat + 4095) / 4096) va pa := by
  have hpgs : (if size.toNat % PGSIZE ≠ 0 then size.toNat / PGSIZE + 1 else size.toNat / PGSIZE)
      = (size.toNat + 4095) / 4096 := by
    unfold PGSIZE
    split <;> omega
  simp only [bootMapRegion, hpgs]

section Region

variable {v n : Nat} {va size pa perm : Word}

theorem bootMapRegion_ok (h : BootInv l s) (hva : va = pageAddr v)
    (hn : (size.toNat + 4095) / 4096 = n) (hvn : v + n ≤ 1048576)
    (hkern : ∀ j < n, KernPde ((v + j) / 1024))
    (hok : bootMapRegion s s.kernPgdir va size pa perm = .ok s') :
    ∃ l', RegionMapped v n pa perm l s l' s' := by
  rw [bootMapRegion_eq, hn, hva] at hok
  rcases h.bootMapPages_spec _ hvn hkern with ⟨s₁, l', hcode, hm⟩ | ⟨hcode, -⟩
  · rw [hok] at hcode
    cases hcode
    exact ⟨l', hm⟩
  · rw [hok] at hcode
    cases hcode

/-- With a page for every missing table the mapping succeeds. -/
theorem bootMapRegion_exists (h : BootInv l s) (va size pa perm : Word) (hva : va = pageAddr v)
    (hn : (size.toNat + 4095) / 4096 = n) (hvn : v + n ≤ 1048576)
    (hkern : ∀ j < n, KernPde ((v + j) / 1024)) (hroom : 69 ≤ l.length + kernTables s) :
    ∃ s', bootMapRegion s s.kernPgdir va size pa perm = .ok s' := by
  rw [bootMapRegion_eq, hn, hva]
  rcases h.bootMapPages_spec _ hvn hkern with ⟨s', l', hcode, -⟩ | ⟨-, hlt⟩
  · exact ⟨s', hcode⟩
  · omega

end Region

end BootInv

end Jos
