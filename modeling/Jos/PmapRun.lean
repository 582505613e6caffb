import Mathlib.Logic.Relation
import Jos.AddrSpace

/-!
# Runs of the page allocator and the page tables

A run starts in the state `mem_init` leaves and applies the operations of `pmap.c` and the two address
space operations of `env.c` in any order, each under the condition its callers have to meet. `MemState`
adds to the state of `pmap.c` the set of directories that environments hold.

The reserved pages of a run are those that are not on the free list when it starts. With that reading
`PmapInv` holds all along a run (`PmapRun.inv`), no operation panics (`PmapRun.exec_ok`), and the counts are
numbers of page table entries, directory entries and directories (`refCount_slots`).
-/

namespace Jos

open Pmap

/-! ## Operations -/

/-- The state of `pmap.c` and the directories of environments. -/
structure MemState where
  pmap : Pmap
  dirs : Finset Nat

/-- The operations a run is made of. -/
inductive PmapOp
  /-- `page_alloc`. -/
  | alloc (zero : Bool)
  /-- `page_free`. -/
  | free (p : Nat)
  /-- `pgdir_walk` with `create`. -/
  | walk (d : Nat) (va : Word)
  /-- `page_insert`. -/
  | insert (d p : Nat) (va perm : Word)
  /-- `page_remove`. -/
  | remove (d : Nat) (va : Word)
  /-- `env_setup_vm`. -/
  | setupVm
  /-- `env_free`. -/
  | freeVm (d : Nat)

/-- The code an operation runs. -/
def PmapOp.exec (m : MemState) : PmapOp → Except Panic MemState
  | .alloc zero => do return { m with pmap := (← pageAlloc m.pmap zero).2 }
  | .free p => do return { m with pmap := ← pageFree m.pmap p }
  | .walk d va => do return { m with pmap := (← pgdirWalk m.pmap d va true).2 }
  | .insert d p va perm => do return { m with pmap := (← pageInsert m.pmap d p va perm).2 }
  | .remove d va => do return { m with pmap := ← pageRemove m.pmap d va }
  | .setupVm => do
    match ← envSetupVm m.pmap with
    | (none, s) => return { m with pmap := s }
    | (some d, s) => return { pmap := s, dirs := Insert.insert d m.dirs }
  | .freeVm d => do return { pmap := ← envFreeVm m.pmap d, dirs := m.dirs.erase d }

/-- `page_alloc` has handed the page out since the state `s₀`. -/
def Allocated (s₀ s : Pmap) (p : Nat) : Prop := OnFreeList s₀ p ∧ ¬ OnFreeList s p

/-- The page serves as a page table below `UTOP`. -/
def IsTable (m : MemState) (p : Nat) : Prop :=
  ∃ d ∈ m.dirs, ∃ i < NUPDE, named (m.pmap.mem d i) = some p

/-- What the caller of an operation has to see to. -/
def PmapOp.Enabled (s₀ : Pmap) (m : MemState) : PmapOp → Prop
  | .alloc _ => True
  | .free p => Allocated s₀ m.pmap p ∧ (m.pmap.pages p).ppRef = 0#16
  | .walk d va => d ∈ m.dirs ∧ va < UTOP
  | .insert d p va perm => d ∈ m.dirs ∧ va < UTOP ∧ perm.toNat < 4096 ∧ Allocated s₀ m.pmap p ∧
      ¬ IsTable m p ∧ p ∉ m.dirs ∧ (m.pmap.pages p).ppRef.toNat ≠ 65535
  | .remove d va => d ∈ m.dirs ∧ va < UTOP
  | .setupVm => True
  | .freeVm d => d ∈ m.dirs

/-- The states a run from `s₀` can reach. -/
inductive PmapRun (s₀ : Pmap) : MemState → Prop
  | init : PmapRun s₀ ⟨s₀, ∅⟩
  | step {m m' : MemState} (op : PmapOp) : PmapRun s₀ m → op.Enabled s₀ m → op.exec m = .ok m' →
      PmapRun s₀ m'

/-- A page that is neither a page table nor a directory is in no exclusive slot. -/
theorem shared_of_not_table {m : MemState} {p n : Nat} (htab : ¬ IsTable m p) (hdir : p ∉ m.dirs) :
    ∀ x ∈ slots n, x.Excl → target m.pmap m.dirs x ≠ some p := by
  intro x _ hX ht
  cases x with
  | dir e =>
    simp only [target] at ht
    split at ht
    · next he => exact hdir (Option.some.inj ht ▸ he)
    · cases ht
  | pde e i =>
    simp only [target] at ht
    split at ht
    · next he => exact htab ⟨e, he.1, i, he.2, ht⟩
    · cases ht
  | pte e v => exact hX

/-! ## Every operation keeps the invariant -/

variable {R : Set Nat} {D : Finset Nat} {l : List Nat} {s s' s₀ : Pmap}

/-- The pages that were not free when a run started. -/
def notFree (s₀ : Pmap) : Set Nat := {p | ¬ OnFreeList s₀ p}

namespace PmapInv

theorem pageAlloc_step (h : PmapInv R D l s) (zero : Bool) :
    ∃ r s' l', pageAlloc s zero = .ok (r, s') ∧ PmapInv R D l' s' ∧ s'.npages = s.npages := by
  cases l with
  | nil => exact ⟨_, _, _, pageAlloc_none _ h.free.head_none, h, rfl⟩
  | cons p l =>
    have hp := h.head_managed
    refine ⟨_, _, l, pageAlloc_some zero h.free.head_some hp.1 h.npages_le', ?_, ?_⟩
    · cases zero
      · exact h.takeFree
      · refine h.takeFree.clearPage hp ?_
        rw [takeFree_pages, if_pos rfl]
        exact h.head_ref
    · cases zero <;> rfl

theorem pageFree_step (h : PmapInv R D l s) {p : Nat} (hp : Managed s.npages R p) (hl : p ∉ l)
    (href : (s.pages p).ppRef = 0#16) :
    ∃ s' l', pageFree s p = .ok s' ∧ PmapInv R D l' s' ∧ s'.npages = s.npages :=
  ⟨_, _, pageFree_ok href (h.link_none hp.1 hl), h.putFree hp hl (by rw [href]; rfl), rfl⟩

theorem pgdirWalk_step (h : PmapInv R D l s) {d : Nat} {va : Word} (hd : d ∈ D) (hva : va < UTOP) :
    ∃ r s' l', pgdirWalk s d va true = .ok (r, s') ∧ PmapInv R D l' s' ∧ s'.npages = s.npages := by
  have hi := PDX_lt_of_lt_UTOP hva
  by_cases hP : present (s.mem d (PDX va))
  · exact ⟨_, s, l, pgdirWalk_present true hP (h.table_managed hd hi hP).1, h, rfl⟩
  · cases l with
    | nil => exact ⟨_, s, [], pgdirWalk_noMem hP h.free.head_none, h, rfl⟩
    | cons p l =>
      exact ⟨_, _, l, pgdirWalk_create hP h.free.head_some h.head_managed.1 h.npages_le',
        h.newTable hd hi hP, rfl⟩

theorem pageRemove_step (h : PmapInv R D l s) {d : Nat} {va : Word} (hd : d ∈ D) (hva : va < UTOP) :
    ∃ s' l', pageRemove s d va = .ok s' ∧ PmapInv R D l' s' ∧ s'.npages = s.npages := by
  by_cases hP : present (pteOf s d (PGNUM va))
  · exact ⟨_, _, h.pageRemove_mapped hd hva hP, h.unmap hd hva hP,
      (h.unmap_frame hd hva hP).npages⟩
  · exact ⟨s, l, h.pageRemove_unmapped hd hva hP, h, rfl⟩

theorem pageInsert_step (h : PmapInv R D l s) {d p : Nat} {va perm : Word} (hd : d ∈ D)
    (hva : va < UTOP) (hperm : perm.toNat < 4096) (hM : Managed s.npages R p) (hp : p ∉ l)
    (hshared : ∀ x ∈ slots s.npages, x.Excl → target s D x ≠ some p)
    (href : (s.pages p).ppRef.toNat ≠ 65535) :
    ∃ r s' l', pageInsert s d p va perm = .ok (r, s') ∧ PmapInv R D l' s' ∧
      s'.npages = s.npages := by
  rcases h.pageInsert_cases hd hva hperm hM hp hshared with ⟨s', hcode, hins, hinv⟩ | ⟨hcode, -⟩
  · obtain ⟨l', hinv, -⟩ := hinv href
    exact ⟨0, s', l', hcode, hinv, hins.frame.npages⟩
  · exact ⟨_, s, l, hcode, h, rfl⟩

theorem envSetupVm_step (h : PmapInv R D l s) :
    (envSetupVm s = .ok (none, s)) ∨
      ∃ p s' l', envSetupVm s = .ok (some p, s') ∧ PmapInv R (insert p D) l' s' ∧
        s'.npages = s.npages := by
  cases l with
  | nil => exact Or.inl (envSetupVm_none h.free.head_none)
  | cons p l =>
    exact Or.inr ⟨p, _, l, envSetupVm_some h.free.head_some h.head_managed.1 h.npages_le', h.newDir,
      rfl⟩

/-- An enabled operation returns and keeps the invariant. -/
theorem exec_step {m : MemState} {op : PmapOp} (h : PmapInv (notFree s₀) m.dirs l m.pmap)
    (hn : m.pmap.npages = s₀.npages) (hs₀ : ∀ p, OnFreeList s₀ p → p < s₀.npages)
    (hen : op.Enabled s₀ m) :
    ∃ m' l', op.exec m = .ok m' ∧ PmapInv (notFree s₀) m'.dirs l' m'.pmap ∧
      m'.pmap.npages = s₀.npages := by
  -- pages handed out by the allocator are managed and not on the free list
  have halloc : ∀ p, Allocated s₀ m.pmap p → Managed m.pmap.npages (notFree s₀) p ∧ p ∉ l :=
    fun p hp => ⟨⟨hn ▸ hs₀ p hp.1, not_not.mpr hp.1⟩, fun hl => hp.2 (h.free.onFreeList_iff.mpr hl)⟩
  cases op with
  | alloc zero =>
    obtain ⟨r, s', l', hcode, hinv, hn'⟩ := h.pageAlloc_step zero
    exact ⟨_, l', by simp only [PmapOp.exec, hcode, Except.ok_bind]; rfl, hinv, hn'.trans hn⟩
  | free p =>
    obtain ⟨hp, href⟩ := hen
    obtain ⟨s', l', hcode, hinv, hn'⟩ := h.pageFree_step (halloc p hp).1 (halloc p hp).2 href
    exact ⟨_, l', by simp only [PmapOp.exec, hcode, Except.ok_bind]; rfl, hinv, hn'.trans hn⟩
  | walk d va =>
    obtain ⟨r, s', l', hcode, hinv, hn'⟩ := h.pgdirWalk_step hen.1 hen.2
    exact ⟨_, l', by simp only [PmapOp.exec, hcode, Except.ok_bind]; rfl, hinv, hn'.trans hn⟩
  | insert d p va perm =>
    obtain ⟨hd, hva, hperm, hp, htab, hdir, href⟩ := hen
    obtain ⟨r, s', l', hcode, hinv, hn'⟩ := h.pageInsert_step hd hva hperm (halloc p hp).1 (halloc p hp).2
      (shared_of_not_table htab hdir) href
    exact ⟨_, l', by simp only [PmapOp.exec, hcode, Except.ok_bind]; rfl, hinv, hn'.trans hn⟩
  | remove d va =>
    obtain ⟨s', l', hcode, hinv, hn'⟩ := h.pageRemove_step hen.1 hen.2
    exact ⟨_, l', by simp only [PmapOp.exec, hcode, Except.ok_bind]; rfl, hinv, hn'.trans hn⟩
  | setupVm =>
    rcases h.envSetupVm_step with hcode | ⟨p, s', l', hcode, hinv, hn'⟩
    · exact ⟨_, l, by simp only [PmapOp.exec, hcode, Except.ok_bind]; rfl, h, hn⟩
    · exact ⟨_, l', by simp only [PmapOp.exec, hcode, Except.ok_bind]; rfl, hinv, hn'.trans hn⟩
  | freeVm d =>
    obtain ⟨s', l', hcode, hinv, hff⟩ := h.envFreeVm_spec hen
    exact ⟨_, l', by simp only [PmapOp.exec, hcode, Except.ok_bind]; rfl, hinv,
      hff.frame.npages.trans hn⟩

end PmapInv

/-- A state that a run may start in. -/
structure RunStart (s₀ : Pmap) : Prop where
  inv : ∃ l, PmapInv (notFree s₀) ∅ l s₀

theorem RunStart.free_lt (h : RunStart s₀) {p : Nat} (hp : OnFreeList s₀ p) : p < s₀.npages := by
  obtain ⟨l, hl⟩ := h.inv
  exact (hl.consistent.free_managed p (hl.free.onFreeList_iff.mp hp)).1

namespace PmapRun

/-- `PmapInv` holds all along a run. -/
theorem inv (h₀ : RunStart s₀) {m : MemState} (h : PmapRun s₀ m) :
    ∃ l, PmapInv (notFree s₀) m.dirs l m.pmap ∧ m.pmap.npages = s₀.npages := by
  induction h with
  | init =>
    obtain ⟨l, hl⟩ := h₀.inv
    exact ⟨l, hl, rfl⟩
  | step op _ hen hex ih =>
    obtain ⟨l, hinv, hn⟩ := ih
    obtain ⟨m', l', hcode, hinv', hn'⟩ := hinv.exec_step hn (fun _ => h₀.free_lt) hen
    rw [hex] at hcode
    cases hcode
    exact ⟨l', hinv', hn'⟩

end PmapRun

/-! ## Counts as numbers of entries -/

/-- The number of present page table entries below `UTOP` that map page `p`. -/
def mappings (m : MemState) (p : Nat) : Nat :=
  ((m.dirs ×ˢ Finset.range NUVPN).filter fun x => named (pteOf m.pmap x.1 x.2) = some p).card

/-- The number of present directory entries below `UTOP` that use `p` as a page table. -/
def tableUses (m : MemState) (p : Nat) : Nat :=
  ((m.dirs ×ˢ Finset.range NUPDE).filter fun x => named (m.pmap.mem x.1 x.2) = some p).card

/-- The references to a page are its mappings, its uses as a page table and its use as a directory. -/
theorem refCount_slots (m : MemState) (hlt : ∀ d ∈ m.dirs, d < m.pmap.npages) (p : Nat) :
    refCount (slots m.pmap.npages) (target m.pmap m.dirs) p
      = mappings m p + tableUses m p + if p ∈ m.dirs then 1 else 0 := by
  let M := (m.dirs ×ˢ Finset.range NUVPN).filter fun x => named (pteOf m.pmap x.1 x.2) = some p
  let T := (m.dirs ×ˢ Finset.range NUPDE).filter fun x => named (m.pmap.mem x.1 x.2) = some p
  have hset : (slots m.pmap.npages).filter (fun x => target m.pmap m.dirs x = some p)
      = (M.image (fun x => Slot.pte x.1 x.2) ∪ T.image fun x => Slot.pde x.1 x.2)
        ∪ if p ∈ m.dirs then {Slot.dir p} else ∅ := by
    ext x
    rw [Finset.mem_filter]
    cases x with
    | dir d =>
      rw [dir_mem_slots]
      by_cases hp : p ∈ m.dirs
      · rw [if_pos hp]
        simp only [target, Finset.mem_union, Finset.mem_image, Finset.mem_singleton, Slot.dir.injEq]
        constructor
        · rintro ⟨-, ht⟩
          split at ht
          · exact Or.inr (Option.some.inj ht)
          · cases ht
        · rintro ((⟨_, -, hx⟩ | ⟨_, -, hx⟩) | rfl)
          · cases hx
          · cases hx
          · exact ⟨hlt d hp, if_pos hp⟩
      · rw [if_neg hp]
        simp only [target, Finset.mem_union, Finset.mem_image, Finset.notMem_empty, or_false]
        constructor
        · rintro ⟨-, ht⟩
          split at ht
          · next hd => exact absurd (Option.some.inj ht ▸ hd) hp
          · cases ht
        · rintro (⟨_, -, hx⟩ | ⟨_, -, hx⟩) <;> cases hx
    | pde d i =>
      have hif : (Slot.pde d i ∈ if p ∈ m.dirs then ({Slot.dir p} : Finset Slot) else ∅) ↔ False := by
        split <;> simp
      rw [pde_mem_slots, Finset.mem_union, hif, or_false]
      simp only [target, T, Finset.mem_union, Finset.mem_image, Finset.mem_filter,
        Finset.mem_product, Finset.mem_range, Prod.exists, Slot.pde.injEq, reduceCtorEq, and_false,
        exists_false, false_or]
      constructor
      · rintro ⟨-, ht⟩
        split at ht
        · next hdi => exact ⟨d, i, ⟨hdi, ht⟩, rfl, rfl⟩
        · cases ht
      · rintro ⟨d, i, ⟨hdi, ht⟩, rfl, rfl⟩
        exact ⟨⟨hlt d hdi.1, hdi.2⟩, by rw [if_pos hdi]; exact ht⟩
    | pte d v =>
      have hif : (Slot.pte d v ∈ if p ∈ m.dirs then ({Slot.dir p} : Finset Slot) else ∅) ↔ False := by
        split <;> simp
      rw [pte_mem_slots, Finset.mem_union, hif, or_false]
      simp only [target, M, Finset.mem_union, Finset.mem_image, Finset.mem_filter,
        Finset.mem_product, Finset.mem_range, Prod.exists, Slot.pte.injEq, reduceCtorEq, and_false,
        exists_false, or_false]
      constructor
      · rintro ⟨-, ht⟩
        split at ht
        · next hdv => exact ⟨d, v, ⟨hdv, ht⟩, rfl, rfl⟩
        · cases ht
      · rintro ⟨d, v, ⟨hdv, ht⟩, rfl, rfl⟩
        exact ⟨⟨hlt d hdv.1, hdv.2⟩, by rw [if_pos hdv]; exact ht⟩
  have hM : (M.image fun x => Slot.pte x.1 x.2).card = mappings m p :=
    Finset.card_image_of_injective _ fun x y hxy => Prod.ext (Slot.pte.inj hxy).1 (Slot.pte.inj hxy).2
  have hT : (T.image fun x => Slot.pde x.1 x.2).card = tableUses m p :=
    Finset.card_image_of_injective _ fun x y hxy => Prod.ext (Slot.pde.inj hxy).1 (Slot.pde.inj hxy).2
  have hdisj : Disjoint (M.image fun x => Slot.pte x.1 x.2) (T.image fun x => Slot.pde x.1 x.2) := by
    rw [Finset.disjoint_left]
    intro x hx hy
    obtain ⟨_, -, rfl⟩ := Finset.mem_image.mp hx
    obtain ⟨_, -, hy⟩ := Finset.mem_image.mp hy
    cases hy
  have hdisj' : Disjoint ((M.image fun x => Slot.pte x.1 x.2) ∪ T.image fun x => Slot.pde x.1 x.2)
      (if p ∈ m.dirs then {Slot.dir p} else ∅) := by
    split
    · simp
    · simp
  have hcard : (if p ∈ m.dirs then ({Slot.dir p} : Finset Slot) else ∅).card
      = if p ∈ m.dirs then 1 else 0 := by
    split <;> simp
  rw [refCount, hset, Finset.card_union_of_disjoint hdisj', Finset.card_union_of_disjoint hdisj, hM,
    hT, hcard]

/-- The count of a page that is mapped below `UTOP` is the number of its mappings. -/
theorem PmapInv.ref_eq_mappings {m : MemState} (h : PmapInv R m.dirs l m.pmap) {d v : Nat}
    (hd : d ∈ m.dirs) (hv : v < NUVPN) (hP : present (pteOf m.pmap d v)) :
    (m.pmap.pages (ppn (pteOf m.pmap d v))).ppRef.toNat = mappings m (ppn (pteOf m.pmap d v)) := by
  have hexcl := h.page_shared hd hv hP
  have hcount := h.consistent.ref_eq _ (h.page_managed hd hv hP)
  have hslots := refCount_slots m h.dirs_lt (ppn (pteOf m.pmap d v))
  have htable : tableUses m (ppn (pteOf m.pmap d v)) = 0 := by
    refine Finset.card_eq_zero.mpr (Finset.filter_eq_empty_iff.mpr ?_)
    rintro ⟨d', i⟩ hx ht
    obtain ⟨hd', hi⟩ := Finset.mem_product.mp hx
    have hi := Finset.mem_range.mp hi
    exact hexcl (.pde d' i) (h.pde_mem hd' hi) trivial ((target_pde hd' hi).trans ht)
  have hdir : ppn (pteOf m.pmap d v) ∉ m.dirs := fun hc =>
    hexcl (.dir _) (h.dir_mem hc) trivial (if_pos hc)
  rw [htable, if_neg hdir, Nat.add_zero] at hslots
  exact hcount.trans hslots

/-- The kernel's directory maps nothing below `UTOP`. -/
theorem PmapInv.kern_pteOf (h : PmapInv R D l s) {v : Nat} (hv : v < NUVPN) :
    pteOf s s.kernPgdir v = 0#32 := by
  rw [pteOf, h.map.kern_user _ (div_lt_NUPDE hv), if_neg not_present_zero]

end Jos
