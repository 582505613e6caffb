import Jos.PmapOps

/-!
# `page_insert`

`page_insert` increments the count of the new page before it removes the old mapping, so that inserting a
page where it already is mapped does not free it on the way. `insertMapped` is the state it leaves once
the page table exists; on the reference-counted store it is `relink`. The equation for the resulting
state and the page table entries it changes do not depend on the counts, so they also hold when the 16-bit
counter wraps; keeping the invariant needs that it does not.
-/

namespace Jos

open Pmap

variable {R : Set Nat} {D : Finset Nat} {l : List Nat} {s s' : Pmap}

/-- `pp->pp_ref++` followed by `page_remove`'s `page_decref` if a page was mapped. -/
def Pmap.swapRef (s : Pmap) (pp : Nat) (old : Option Nat) : Pmap :=
  match old with
  | none => s.setRef pp ((s.pages pp).ppRef + 1#16)
  | some q => (s.setRef pp ((s.pages pp).ppRef + 1#16)).decref q

/-- The memory writes of `page_insert`: the page table entry, then the directory entry's flags. -/
def Pmap.setPte (s : Pmap) (d pp : Nat) (va perm : Word) : Pmap :=
  (s.store ⟨tableOf s d (PDX va), PTX va⟩ (mkPte pp perm)).store ⟨d, PDX va⟩
    (s.mem d (PDX va) ||| perm)

/-- The state after `page_insert` when the page table exists. -/
def Pmap.insertMapped (s : Pmap) (d pp : Nat) (va perm : Word) : Pmap :=
  (s.swapRef pp (named (pteOf s d (PGNUM va)))).setPte d pp va perm

@[simp] theorem swapRef_mem (pp : Nat) (old : Option Nat) : (s.swapRef pp old).mem = s.mem := by
  cases old
  · rfl
  · exact decref_mem _ _

@[simp] theorem swapRef_npages (pp : Nat) (old : Option Nat) :
    (s.swapRef pp old).npages = s.npages := by
  cases old
  · rfl
  · exact decref_npages _ _

@[simp] theorem swapRef_kernPgdir (pp : Nat) (old : Option Nat) :
    (s.swapRef pp old).kernPgdir = s.kernPgdir := by
  cases old
  · rfl
  · exact decref_kernPgdir _ _

/-- Only the old page may come onto the free list. -/
theorem FreeInv.swapRef (pp : Nat) {old : Option Nat} (h : FreeInv s l) (hold : ∀ q, old = some q → q ∉ l) :
    ∃ l', FreeInv (s.swapRef pp old) l' ∧ ∀ q ∈ l', q ∈ l ∨ old = some q := by
  have hset := h.setRef pp ((s.pages pp).ppRef + 1#16)
  cases old with
  | none => exact ⟨l, hset, fun q hq => Or.inl hq⟩
  | some b =>
    refine ⟨_, hset.decref (hold b rfl), fun q hq => ?_⟩
    split at hq
    · rcases List.mem_cons.mp hq with rfl | hq
      · exact Or.inr rfl
      · exact Or.inl hq
    · exact Or.inl hq

theorem insertMapped_mem (d pp : Nat) (va perm : Word) :
    (s.insertMapped d pp va perm).mem = (s.setPte d pp va perm).mem := by
  unfold Pmap.insertMapped Pmap.setPte Pmap.store
  simp only [tableOf, swapRef_mem]

/-! ## The code computes it -/

/-- Writing an entry twice is writing it once. -/
private theorem store_store (s : Pmap) (a : PtePtr) (w w' : Word) :
    (s.store a w).store a w' = s.store a w' := by
  unfold Pmap.store
  simp

private theorem load_store_of_ne (s : Pmap) {a b : PtePtr} (w : Word) (h : b.page ≠ a.page) :
    (s.store a w).load b = s.load b := by
  rw [load, store_mem_of_ne _ _ _ h, load]

/-- `page_insert` with the page table present. -/
theorem pageInsert_present {d pp : Nat} {va perm : Word} (hpde : present (s.mem d (PDX va)))
    (hlt : tableOf s d (PDX va) < s.npages) (htd : tableOf s d (PDX va) ≠ d)
    (hold : present (pteOf s d (PGNUM va)) → ppn (pteOf s d (PGNUM va)) < s.npages ∧
      (s.pages (ppn (pteOf s d (PGNUM va)))).ppLink = none) :
    pageInsert s d pp va perm = .ok (0, s.insertMapped d pp va perm) := by
  have hpte : pteOf s d (PGNUM va) = s.mem (tableOf s d (PDX va)) (PTX va) := by
    rw [pteOf_PGNUM, if_pos hpde]
  have hwalk := pgdirWalk_present true hpde hlt
  have hmem : (s.setRef pp ((s.pages pp).ppRef + 1#16)).mem = s.mem := rfl
  by_cases hP : present (pteOf s d (PGNUM va))
  · obtain ⟨hq, hlink⟩ := hold hP
    have hnz : s.mem (tableOf s d (PDX va)) (PTX va) ≠ 0#32 := by
      intro hz
      rw [hpte, hz] at hP
      exact not_present_zero hP
    have hlook := pageLookup_some (s := s.setRef pp ((s.pages pp).ppRef + 1#16)) hpde hlt hnz
      (by rw [hmem, ← hpte]; exact hq)
    have hlink' : ((s.setRef pp ((s.pages pp).ppRef + 1#16)).pages
        (ppn (pteOf s d (PGNUM va)))).ppLink = none := by
      rw [setRef_pages]
      split
      · next heq => rw [heq] at hlink; exact hlink
      · exact hlink
    have hrem := pageRemove_some hlook (by rw [hmem, ← hpte]; exact hlink')
    rw [hmem, ← hpte] at hrem
    have hPl : present ((s.setRef pp ((s.pages pp).ppRef + 1#16)).load
        ⟨ppn (s.mem d (PDX va)), PTX va⟩) := by
      rw [hpte] at hP
      exact hP
    have hnamed : named (pteOf s d (PGNUM va)) = some (ppn (pteOf s d (PGNUM va))) :=
      named_present hP
    simp only [pageInsert, hwalk, Except.ok_bind]
    rw [if_pos hPl, hrem]
    simp only [Except.ok_bind, Except.pure_eq]
    rw [store_store, load_store_of_ne _ _ (Ne.symm htd), insertMapped, setPte, hnamed]
    simp only [swapRef, tableOf, load, decref_mem, setRef_mem]
  · have hPl : ¬ present ((s.setRef pp ((s.pages pp).ppRef + 1#16)).load
        ⟨ppn (s.mem d (PDX va)), PTX va⟩) := by
      rw [hpte] at hP
      exact hP
    have hnamed : named (pteOf s d (PGNUM va)) = none := if_neg hP
    simp only [pageInsert, hwalk, Except.ok_bind]
    rw [if_neg hPl]
    simp only [Except.ok_bind, Except.pure_eq]
    rw [load_store_of_ne _ _ (Ne.symm htd), insertMapped, setPte, hnamed]
    simp only [swapRef, tableOf, load, setRef_mem]

/-- `page_insert` without memory for the page table it needs. -/
theorem pageInsert_noMem {d pp : Nat} {va perm : Word} (hpde : ¬ present (s.mem d (PDX va)))
    (hfree : s.pageFreeList = none) : pageInsert s d pp va perm = .ok (-E_NO_MEM, s) := by
  simp [pageInsert, pgdirWalk_noMem hpde hfree]

/-- `page_insert` first makes the page table and then goes on as if it had always been there. -/
theorem pageInsert_create {d pp p : Nat} {va perm : Word} (hpde : ¬ present (s.mem d (PDX va)))
    (hfree : s.pageFreeList = some p) (hp : p < s.npages) (hn : s.npages ≤ 1048576) :
    pageInsert s d pp va perm = pageInsert (s.newTable d (PDX va) p) d pp va perm := by
  have hmem : (s.newTable d (PDX va) p).mem d (PDX va) = freshPde p := by
    rw [Pmap.newTable, store_mem, if_pos ⟨rfl, rfl⟩]
  have hppn : ppn ((s.newTable d (PDX va) p).mem d (PDX va)) = p := by
    rw [hmem, ppn_freshPde (by omega)]
  have hwalk := pgdirWalk_present (s := s.newTable d (PDX va) p) true
    (by rw [hmem]; exact present_freshPde p) (by rw [hppn]; exact hp)
  rw [hppn] at hwalk
  simp only [pageInsert, pgdirWalk_create hpde hfree hp hn, hwalk]

namespace PmapInv

section Insert

variable {d pp : Nat} {va perm : Word}

/-! ## Entries and frame -/

/-- Flag bits added to a directory entry do not change what it names. -/
private theorem named_or_flags {w : Word} (hP : present w) (hperm : perm.toNat < 4096) :
    named (w ||| perm) = named w := by
  rw [named_present hP, named_present (present_or_left _ hP), ppn_or_flags _ hperm]

/-- `page_insert` changes the entry of `va` only. -/
theorem insertMapped_pteOf (h : PmapInv R D l s) (hd : d ∈ D) (hva : va < UTOP)
    (hpde : present (s.mem d (PDX va))) (hperm : perm.toNat < 4096) {e v : Nat} (he : e ∈ D)
    (hv : v < NUVPN) :
    pteOf (s.insertMapped d pp va perm) e v
      = if e = d ∧ v = PGNUM va then mkPte pp perm else pteOf s e v := by
  have hi := PDX_lt_of_lt_UTOP hva
  have hmem := h.sep.mem_dir_store_table (j := PTX va) (w := mkPte pp perm) hd hi hpde hd
  have hsep := h.sep.store_table (j := PTX va) (w := mkPte pp perm) hd hi hpde
  rw [pteOf_of_mem_eq (insertMapped_mem d pp va perm), Pmap.setPte]
  rw [hsep.pteOf_store_flags hd (by rw [hmem]; exact named_or_flags hpde hperm)
    (by rw [hmem]; exact hpde) he hv]
  rw [h.sep.pteOf_store_table hd hi hpde (PTX_lt va) he hv, ← PGNUM_split]

/-- `page_insert` only writes to the directory and to the page table. -/
theorem insertMapped_mem_of_ne (p : Nat) (hpd : p ≠ d) (hpt : p ≠ tableOf s d (PDX va)) :
    (s.insertMapped d pp va perm).mem p = s.mem p := by
  rw [insertMapped_mem, Pmap.setPte, store_mem_of_ne _ _ _ hpd, store_mem_of_ne _ _ _ hpt]

theorem insertMapped_frame (h : PmapInv R D l s) (hd : d ∈ D) (hva : va < UTOP)
    (hpde : present (s.mem d (PDX va))) (hpp : pp ∉ R) :
    Frame R D s (s.insertMapped d pp va perm) := by
  have hi := PDX_lt_of_lt_UTOP hva
  refine ⟨swapRef_npages _ _, swapRef_kernPgdir _ _, ?_, ?_, ?_⟩
  · intro p hp
    refine insertMapped_mem_of_ne p ?_ ?_
    · exact fun he => (h.dir_managed hd).2 (he ▸ hp)
    · rintro rfl
      exact (h.table_managed hd hi hpde).2 hp
  · intro p hp
    have hne : p ≠ pp := fun he => hpp (he ▸ hp)
    show (s.swapRef pp (named (pteOf s d (PGNUM va)))).pages p = s.pages p
    by_cases hP : present (pteOf s d (PGNUM va))
    · have hq : p ≠ ppn (pteOf s d (PGNUM va)) :=
        fun he => (h.page_managed hd (PGNUM_lt_NUVPN hva) hP).2 (he ▸ hp)
      rw [named_present hP, swapRef, decref_pages_of_ne hq, setRef_pages, if_neg hne]
    · rw [named, if_neg hP, swapRef, setRef_pages, if_neg hne]
  · intro e he i hi'
    have het := h.sep.table_ne_dir d hd e he _ hi hpde
    rw [insertMapped_mem, Pmap.setPte, store_mem, if_neg]
    · rw [store_mem_of_ne _ _ _ het.symm]
    · rintro ⟨-, rfl⟩
      exact absurd hi (Nat.not_lt.mpr hi')

/-! ## Counts and free list -/

private theorem or_perm {w : Word} (h : w &&& (PTE_U ||| PTE_W) = PTE_U ||| PTE_W) (x : Word) :
    (w ||| x) &&& (PTE_U ||| PTE_W) = PTE_U ||| PTE_W := by
  ext i hi
  have hbit := congrArg (fun w : Word => w.getLsbD i) h
  simp only [BitVec.getLsbD_and, BitVec.getLsbD_or] at hbit
  simp only [BitVec.getElem_or, BitVec.getElem_and]
  rw [← BitVec.getLsbD_eq_getElem, ← BitVec.getLsbD_eq_getElem, ← BitVec.getLsbD_eq_getElem,
    ← BitVec.getLsbD_eq_getElem]
  cases hw : w.getLsbD i <;> cases hx : x.getLsbD i <;> simp_all

/-- The free list and the counts after `page_insert` are those of `relink`. -/
private theorem swapRef_abs (h : PmapInv R D l s) (hd : d ∈ D) (hva : va < UTOP) (hpp : pp ∉ l)
    (href : (s.pages pp).ppRef.toNat ≠ 65535) :
    (fun p => ((s.swapRef pp (named (pteOf s d (PGNUM va)))).pages p).ppRef.toNat)
        = ((absStore s D l).relink (.pte d (PGNUM va)) pp).ref ∧
      FreeInv (s.swapRef pp (named (pteOf s d (PGNUM va))))
        ((absStore s D l).relink (.pte d (PGNUM va)) pp).free ∧
      ((absStore s D l).relink (.pte d (PGNUM va)) pp).target
        = Function.update (target s D) (.pte d (PGNUM va)) (some pp) := by
  have hv := PGNUM_lt_NUVPN hva
  have htgt : (absStore s D l).target (.pte d (PGNUM va)) = named (pteOf s d (PGNUM va)) :=
    target_pte hd hv
  have hinc := ref_setRef_succ href
  by_cases hP : present (pteOf s d (PGNUM va))
  · have hq := h.page_notMem_free hd hv hP
    have hpos := h.page_ref_pos hd hv hP
    rw [named_present hP] at htgt ⊢
    generalize ppn (pteOf s d (PGNUM va)) = q at htgt hq hpos
    have hfree := (h.free.setRef pp ((s.pages pp).ppRef + 1#16)).decref hq
    have hrefq := congrFun hinc q
    rw [RefStore.relink, htgt]
    simp only [swapRef]
    by_cases hqp : q = pp
    · -- the page was already mapped here: up and down again
      subst hqp
      rw [Function.update_self] at hrefq
      rw [if_pos rfl, ref_decref (by omega), hrefq, hinc, Function.update_idem,
        Nat.add_sub_cancel, Function.update_eq_self]
      refine ⟨rfl, ?_, ?_⟩
      · rw [if_neg (by omega)] at hfree
        exact hfree
      · rw [← htgt]
        exact (Function.update_eq_self _ _).symm
    · rw [Function.update_of_ne hqp] at hrefq
      rw [if_neg hqp, ref_decref (by omega), hrefq, hinc]
      rw [hrefq] at hfree
      refine ⟨?_, hfree, ?_⟩
      · show _ = Function.update (Function.update _ q _) pp _
        rw [Function.update_comm hqp]
        have hpp' : ((absStore s D l).unlink (.pte d (PGNUM va)) q).ref pp
            = (s.pages pp).ppRef.toNat := Function.update_of_ne (Ne.symm hqp) _ _
        rw [hpp']
        rfl
      · show Function.update (Function.update _ _ _) _ _ = _
        rw [Function.update_idem]
        rfl
  · have hnone : named (pteOf s d (PGNUM va)) = none := if_neg hP
    rw [hnone] at htgt ⊢
    rw [RefStore.relink, htgt]
    exact ⟨hinc, h.free.setRef _ _, rfl⟩

/-- `page_insert` of a page that is not a directory or page table keeps the invariant as long as its
counter does not wrap. -/
theorem insertMapped (h : PmapInv R D l s) (hd : d ∈ D) (hva : va < UTOP)
    (hpde : present (s.mem d (PDX va))) (hperm : perm.toNat < 4096) (hM : Managed s.npages R pp)
    (hpp : pp ∉ l) (hshared : ∀ x ∈ slots s.npages, x.Excl → target s D x ≠ some pp)
    (href : (s.pages pp).ppRef.toNat ≠ 65535) :
    PmapInv R D ((absStore s D l).relink (.pte d (PGNUM va)) pp).free
        (s.insertMapped d pp va perm) ∧
      absStore (s.insertMapped d pp va perm) D
          ((absStore s D l).relink (.pte d (PGNUM va)) pp).free
        = (absStore s D l).relink (.pte d (PGNUM va)) pp := by
  have hi := PDX_lt_of_lt_UTOP hva
  have hv := PGNUM_lt_NUVPN hva
  obtain ⟨hrefs, hfree, htarget⟩ := h.swapRef_abs hd hva hpp href
  have hmem := h.sep.mem_dir_store_table (j := PTX va) (w := mkPte pp perm) hd hi hpde hd
  have hsep := h.sep.store_table (j := PTX va) (w := mkPte pp perm) hd hi hpde
  have hlt : pp < 1048576 := hM.1.trans_le h.npages_le'
  have habs : absStore (s.insertMapped d pp va perm) D
      ((absStore s D l).relink (.pte d (PGNUM va)) pp).free
      = (absStore s D l).relink (.pte d (PGNUM va)) pp := by
    refine RefStore.ext ?_ hrefs rfl
    rw [htarget]
    show target _ D = _
    rw [target_of_mem_eq (insertMapped_mem d pp va perm), Pmap.setPte]
    rw [hsep.target_store_flags hd (by rw [hmem]; exact named_or_flags hpde hperm)
      (by rw [hmem]; exact hpde)]
    rw [h.sep.target_store_table hd hi hpde (PTX_lt va), ← PGNUM_split,
      named_present (present_mkPte pp perm), ppn_mkPte hlt hperm]
  have hn : (s.insertMapped d pp va perm).npages = s.npages := swapRef_npages _ _
  refine ⟨⟨?_, ?_, ?_, ?_, ?_⟩, habs⟩
  · exact hn.trans_le h.npages_le
  · exact fun e he => (h.dirs_lt e he).trans_eq hn.symm
  · exact hfree.congr rfl (fun _ => rfl) rfl
  · rw [habs, hn]
    exact h.consistent.relink (h.pte_mem hd hv) (fun hX => hX) hM hpp hshared
  · refine h.map.frame (h.insertMapped_frame hd hva hpde hM.2) ?_ ?_
    · intro e he k hk hPk
      have het := h.sep.table_ne_dir d hd e he _ hi hpde
      rw [insertMapped_mem, Pmap.setPte, store_mem] at hPk ⊢
      split
      · exact or_perm (h.map.pde_perm d hd _ hi hpde) perm
      · next hne =>
        rw [if_neg hne, store_mem_of_ne _ _ _ het.symm] at hPk
        rw [store_mem_of_ne _ _ _ het.symm]
        exact h.map.pde_perm e he k hk hPk
    · intro e he v hv
      rw [h.insertMapped_pteOf hd hva hpde hperm he hv]
      split
      · exact Or.inr (present_mkPte pp perm)
      · exact h.map.pte_wf e he v hv

/-! ## `page_insert` end to end -/

end Insert

end PmapInv

/-- What a successful `page_insert` has done, whatever the counter of the page was: `va` maps `pp` with
exactly the given flags, every other entry below `UTOP` is as before, and no page other than page tables
and free pages was written. -/
structure Inserted (R : Set Nat) (D : Finset Nat) (l : List Nat) (s : Pmap) (d pp : Nat)
    (va perm : Word) (s' : Pmap) : Prop where
  frame : Frame R D s s'
  pte : ∀ e ∈ D, ∀ v < NUVPN,
    pteOf s' e v = if e = d ∧ v = PGNUM va then mkPte pp perm else pteOf s e v
  pde : present (s'.mem d (PDX va))
  pde_mono : ∀ e ∈ D, ∀ i < NUPDE, present (s.mem e i) → present (s'.mem e i)
  page_mem : ∀ p, p ∉ l → (∀ x ∈ slots s.npages, x.Excl → target s D x ≠ some p) →
    s'.mem p = s.mem p
  /-- The counter moves as the source says, modulo its width. -/
  ref : ¬ present (pteOf s d (PGNUM va)) → (s'.pages pp).ppRef = (s.pages pp).ppRef + 1#16
  /-- Only the page that was mapped at `va` may come onto the free list. -/
  free : ∃ l', FreeInv s' l' ∧ ∀ q ∈ l', q ∈ l ∨
    (present (pteOf s d (PGNUM va)) ∧ q = ppn (pteOf s d (PGNUM va)))

namespace PmapInv

variable {d pp : Nat} {va perm : Word}

private theorem inserted_present (h : PmapInv R D l s) (hd : d ∈ D) (hva : va < UTOP)
    (hpde : present (s.mem d (PDX va))) (hperm : perm.toNat < 4096) (hM : Managed s.npages R pp) :
    Inserted R D l s d pp va perm (s.insertMapped d pp va perm) := by
  have hi := PDX_lt_of_lt_UTOP hva
  have hmono : ∀ e ∈ D, ∀ i < NUPDE, present (s.mem e i) →
      present ((s.insertMapped d pp va perm).mem e i) := by
    intro e he i _ hPi
    rw [insertMapped_mem, Pmap.setPte, store_mem]
    split
    · exact present_or_left _ hpde
    · rw [store_mem_of_ne _ _ _ (h.sep.table_ne_dir d hd e he _ hi hpde).symm]
      exact hPi
  refine ⟨h.insertMapped_frame hd hva hpde hM.2, ?_, ?_, hmono, ?_, ?_, ?_⟩
  · exact fun e he v hv => h.insertMapped_pteOf hd hva hpde hperm he hv
  · exact hmono d hd _ hi hpde
  · intro p _ hp
    refine insertMapped_mem_of_ne p ?_ ?_
    · rintro rfl
      exact hp _ (h.dir_mem hd) trivial (if_pos hd)
    · rintro rfl
      exact hp _ (h.pde_mem hd hi) trivial (target_table (l := l) hd hi hpde)
  · intro hP
    show ((s.swapRef pp (named (pteOf s d (PGNUM va)))).pages pp).ppRef = _
    rw [named, if_neg hP, swapRef, setRef_pages, if_pos rfl]
  · have hold : ∀ q, named (pteOf s d (PGNUM va)) = some q → q ∉ l := by
      intro q hq
      obtain ⟨hP, rfl⟩ := named_eq_some.mp hq
      exact h.page_notMem_free hd (PGNUM_lt_NUVPN hva) hP
    obtain ⟨l', hl', hmem⟩ := h.free.swapRef pp hold
    refine ⟨l', hl'.congr rfl (fun _ => rfl) rfl, fun q hq => (hmem q hq).imp_right fun ho => ?_⟩
    obtain ⟨hP, rfl⟩ := named_eq_some.mp ho
    exact ⟨hP, rfl⟩

/-- `page_insert` when the page table exists. -/
theorem pageInsert_mapped (h : PmapInv R D l s) (hd : d ∈ D) (hva : va < UTOP)
    (hpde : present (s.mem d (PDX va))) :
    pageInsert s d pp va perm = .ok (0, s.insertMapped d pp va perm) := by
  have hi := PDX_lt_of_lt_UTOP hva
  have hv := PGNUM_lt_NUVPN hva
  refine pageInsert_present hpde (h.table_managed hd hi hpde).1
    (h.sep.table_ne_dir d hd d hd _ hi hpde) fun hP => ?_
  have hq := h.page_managed hd hv hP
  exact ⟨hq.1, h.link_none hq.1 (h.page_notMem_free hd hv hP)⟩

section NewTable

variable {i p : Nat}

/-- The directories after `pgdir_walk` has added a page table. -/
theorem newTable_dir (h : PmapInv R D (p :: l) s) {e : Nat} (he : e ∈ D) (k : Nat) :
    (s.newTable d i p).mem e k = if e = d ∧ k = i then freshPde p else s.mem e k := by
  have hun := h.free_unnamed (List.mem_cons_self ..)
  rw [Pmap.newTable, store_mem, setRef_mem, clearPage_mem_of_ne _ _ (h.dir_ne_of_unnamed hun he),
    takeFree_mem]

theorem newTable_present (h : PmapInv R D (p :: l) s) (hd : d ∈ D) :
    present ((s.newTable d i p).mem d i) := by
  rw [h.newTable_dir hd, if_pos ⟨rfl, rfl⟩]
  exact present_freshPde p

/-- The new page table is held by one slot, and the others hold what they held. -/
theorem newTable_target (h : PmapInv R D (p :: l) s) (hd : d ∈ D) (hi : i < NUPDE)
    (hpde : ¬ present (s.mem d i)) (x : Slot) : target (s.newTable d i p) D x
      = if x = .pde d i then some p else target s D x := by
  have hlt : p < 1048576 := h.head_managed.1.trans_le h.npages_le'
  cases x with
  | dir e => rw [if_neg (by simp)]; rfl
  | pde e k =>
    simp only [target]
    by_cases hek : e ∈ D ∧ k < NUPDE
    · rw [if_pos hek, if_pos hek, h.newTable_dir hek.1]
      by_cases hx : e = d ∧ k = i
      · rw [if_pos hx, if_pos (by simpa using hx), named_present (present_freshPde p),
          ppn_freshPde hlt]
      · rw [if_neg hx, if_neg (by simpa using hx)]
    · have hx : ¬ (e = d ∧ k = i) := by
        rintro ⟨rfl, rfl⟩
        exact hek ⟨hd, hi⟩
      rw [if_neg hek, if_neg hek, if_neg (by simpa using hx)]
  | pte e v =>
    rw [if_neg (by simp)]
    simp only [target]
    by_cases hev : e ∈ D ∧ v < NUVPN
    · rw [if_pos hev, if_pos hev, h.newTable_pteOf hd hpde hev.1 hev.2]
    · rw [if_neg hev, if_neg hev]

/-- A page that is neither directory nor page table does not become one unless it was free. -/
theorem newTable_shared (h : PmapInv R D (p :: l) s) (hd : d ∈ D) (hi : i < NUPDE)
    (hpde : ¬ present (s.mem d i)) {q : Nat} (hq : q ≠ p)
    (hshared : ∀ x ∈ slots s.npages, x.Excl → target s D x ≠ some q) :
    ∀ x ∈ slots (s.newTable d i p).npages, x.Excl → target (s.newTable d i p) D x ≠ some q := by
  intro x hx hX
  rw [h.newTable_target hd hi hpde x]
  split
  · simpa using Ne.symm hq
  · exact hshared x hx hX

end NewTable

/-- Page tables come off the free list; `page_insert` itself only adds to it. -/
private theorem length_le_relink (r : RefStore Slot Nat) (x : Slot) (a : Nat) :
    r.free.length ≤ (r.relink x a).free.length := by
  unfold RefStore.relink
  split
  · exact le_rfl
  · split
    · exact le_rfl
    · show _ ≤ (if r.ref _ = 1 then _ :: r.free else r.free).length
      split
      · exact Nat.le_succ _
      · exact le_rfl

/-- `page_insert` that makes its page table first. -/
private theorem inserted_newTable {p : Nat} (h : PmapInv R D (p :: l) s) (hd : d ∈ D) (hva : va < UTOP)
    (hpde : ¬ present (s.mem d (PDX va))) (hpp : pp ≠ p)
    (hins : Inserted R D l (s.newTable d (PDX va) p) d pp va perm s') :
    Inserted R D (p :: l) s d pp va perm s' := by
  have hi := PDX_lt_of_lt_UTOP hva
  have hv := PGNUM_lt_NUVPN hva
  have hpte : ∀ e ∈ D, ∀ v < NUVPN, pteOf (s.newTable d (PDX va) p) e v = pteOf s e v :=
    fun e he v hv => h.newTable_pteOf hd hpde he hv
  refine ⟨(h.newTable_frame hd hi).trans hins.frame, ?_, hins.pde, ?_, ?_, ?_, ?_⟩
  · intro e he v hv
    rw [hins.pte e he v hv, hpte e he v hv]
  · intro e he i hi' hPi
    refine hins.pde_mono e he i hi' ?_
    rw [h.newTable_dir he]
    split
    · exact present_freshPde p
    · exact hPi
  · intro q hq hX
    have hqp : q ≠ p := fun he => hq (by simp [he])
    have hqd : q ≠ d := by
      rintro rfl
      exact hX _ (h.dir_mem hd) trivial (if_pos hd)
    rw [hins.page_mem q (fun hql => hq (by simp [hql])) (h.newTable_shared hd hi hpde hqp hX),
      Pmap.newTable, store_mem_of_ne _ _ _ hqd, setRef_mem, clearPage_mem_of_ne _ _ hqp, takeFree_mem]
  · intro hP
    rw [hins.ref (by rw [hpte d hd _ hv]; exact hP), newTable_pages_of_ne hpp]
  · obtain ⟨l', hl', hmem'⟩ := hins.free
    rw [hpte d hd _ hv] at hmem'
    exact ⟨l', hl', fun q hq => (hmem' q hq).imp_left (List.mem_cons_of_mem p)⟩

/-- `page_insert` below `UTOP` never panics. It fails only for want of a page table page, and then
changes nothing. -/
theorem pageInsert_cases (h : PmapInv R D l s) (hd : d ∈ D) (hva : va < UTOP)
    (hperm : perm.toNat < 4096) (hM : Managed s.npages R pp) (hpp : pp ∉ l)
    (hshared : ∀ x ∈ slots s.npages, x.Excl → target s D x ≠ some pp) :
    (∃ s', pageInsert s d pp va perm = .ok (0, s') ∧ Inserted R D l s d pp va perm s' ∧
      ((s.pages pp).ppRef.toNat ≠ 65535 → ∃ l', PmapInv R D l' s' ∧
        l.length ≤ l'.length + if present (s.mem d (PDX va)) then 0 else 1)) ∨
    (pageInsert s d pp va perm = .ok (-E_NO_MEM, s) ∧ ¬ present (s.mem d (PDX va)) ∧ l = []) := by
  have hi := PDX_lt_of_lt_UTOP hva
  by_cases hpde : present (s.mem d (PDX va))
  · refine Or.inl ⟨_, h.pageInsert_mapped hd hva hpde, h.inserted_present hd hva hpde hperm hM,
      fun href => ?_⟩
    obtain ⟨hinv, -⟩ := h.insertMapped hd hva hpde hperm hM hpp hshared href
    refine ⟨_, hinv, ?_⟩
    rw [if_pos hpde]
    exact length_le_relink (absStore s D l) _ _
  · cases l with
    | nil => exact Or.inr ⟨pageInsert_noMem hpde h.free.head_none, hpde, rfl⟩
    | cons p l =>
      have hpne : pp ≠ p := fun he => hpp (by simp [he])
      have h₁ := h.newTable hd hi hpde
      have hpde₁ : present ((s.newTable d (PDX va) p).mem d (PDX va)) := h.newTable_present hd
      have hcode : pageInsert s d pp va perm
          = .ok (0, (s.newTable d (PDX va) p).insertMapped d pp va perm) := by
        rw [pageInsert_create hpde h.free.head_some h.head_managed.1 h.npages_le',
          h₁.pageInsert_mapped hd hva hpde₁]
      refine Or.inl ⟨_, hcode, h.inserted_newTable hd hva hpde hpne
        (h₁.inserted_present hd hva hpde₁ hperm hM), fun href => ?_⟩
      obtain ⟨hinv, -⟩ := h₁.insertMapped hd hva hpde₁ hperm hM (fun hmem => hpp (by simp [hmem]))
        (h.newTable_shared hd hi hpde hpne hshared) (by rw [newTable_pages_of_ne hpne]; exact href)
      refine ⟨_, hinv, ?_⟩
      rw [if_neg hpde, List.length_cons]
      exact Nat.succ_le_succ (length_le_relink (absStore _ D l) _ _)

end PmapInv

end Jos
