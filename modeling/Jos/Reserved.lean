import Jos.PmapRun

/-!
# Operations below `UTOP` and the reserved pages

The operations of a run read and write the directories of environments, their page tables and free pages. Of the
reserved pages, which hold the kernel's page tables, they only read `kern_pgdir`. So they do the same in a state
that differs in the reserved pages (`exec_withReserved`), and leave them as they are (`exec_reserved`). With that,
`PmapInv` need only hold of the state as it would be had nobody written to these pages since boot.
-/

namespace Jos

open Pmap

variable {R : Set Nat} {D : Finset Nat} {l : List Nat} {s s' : Pmap} {g g₀ : Nat → Nat → Word} {d p : Nat} {va : Word}

open Classical in
/-- The state with the contents `g` in the reserved pages. -/
noncomputable def Pmap.withReserved (R : Set Nat) (g : Nat → Nat → Word) (s : Pmap) : Pmap :=
  { s with mem := fun p => if p ∈ R then g p else s.mem p }

/-! ## Primitive steps -/

@[simp] theorem withReserved_pages : (s.withReserved R g).pages = s.pages := rfl
@[simp] theorem withReserved_npages : (s.withReserved R g).npages = s.npages := rfl
@[simp] theorem withReserved_pageFreeList : (s.withReserved R g).pageFreeList = s.pageFreeList := rfl
@[simp] theorem withReserved_kernPgdir : (s.withReserved R g).kernPgdir = s.kernPgdir := rfl

theorem withReserved_mem (hp : p ∉ R) : (s.withReserved R g).mem p = s.mem p := if_neg hp

theorem withReserved_mem_reserved (hp : p ∈ R) : (s.withReserved R g).mem p = g p := if_pos hp

theorem withReserved_self (s : Pmap) : s.withReserved R s.mem = s := by
  have hmem : (s.withReserved R s.mem).mem = s.mem := funext fun p => ite_self (s.mem p)
  show { s with mem := (s.withReserved R s.mem).mem } = s
  rw [hmem]

theorem store_withReserved {a : PtePtr} (ha : a.page ∉ R) (w : Word) :
    (s.withReserved R g).store a w = (s.store a w).withReserved R g := by
  have hmem : ((s.withReserved R g).store a w).mem = ((s.store a w).withReserved R g).mem := by
    funext q
    by_cases hq : q ∈ R
    · have hne : q ≠ a.page := fun he => ha (he ▸ hq)
      rw [store_mem_of_ne _ _ _ hne, withReserved_mem_reserved hq, withReserved_mem_reserved hq]
    · funext i
      rw [withReserved_mem hq, store_mem, store_mem, withReserved_mem hq]
  show { s with mem := ((s.withReserved R g).store a w).mem } = _
  rw [hmem]
  rfl

/-- A store to a reserved page is not seen. -/
theorem store_reserved {a : PtePtr} (ha : a.page ∈ R) (w : Word) :
    (s.store a w).withReserved R g = s.withReserved R g := by
  have hmem : ((s.store a w).withReserved R g).mem = (s.withReserved R g).mem := by
    funext q
    by_cases hq : q ∈ R
    · rw [withReserved_mem_reserved hq, withReserved_mem_reserved hq]
    · have hne : q ≠ a.page := fun he => hq (he ▸ ha)
      rw [withReserved_mem hq, withReserved_mem hq, store_mem_of_ne _ _ _ hne]
  show { s with mem := ((s.store a w).withReserved R g).mem } = _
  rw [hmem]
  rfl

theorem clearPage_withReserved (hp : p ∉ R) :
    (s.withReserved R g).clearPage p = (s.clearPage p).withReserved R g := by
  have hmem : ((s.withReserved R g).clearPage p).mem = ((s.clearPage p).withReserved R g).mem := by
    funext q
    by_cases hq : q ∈ R
    · have hne : q ≠ p := fun he => hp (he ▸ hq)
      rw [clearPage_mem_of_ne _ _ hne, withReserved_mem_reserved hq, withReserved_mem_reserved hq]
    · rw [withReserved_mem hq]
      by_cases hqp : q = p
      · subst hqp
        funext i
        rw [clearPage_mem_self, clearPage_mem_self]
      · rw [clearPage_mem_of_ne _ _ hqp, clearPage_mem_of_ne _ _ hqp, withReserved_mem hq]
  show { s with mem := ((s.withReserved R g).clearPage p).mem } = _
  rw [hmem]
  rfl

theorem pageFree_withReserved (s : Pmap) (p : Nat) :
    pageFree (s.withReserved R g) p = Pmap.withReserved R g <$> pageFree s p := by
  by_cases hp : (s.pages p).ppRef ≠ 0#16 ∨ (s.pages p).ppLink ≠ none
  · have herr : ∀ t : Pmap, t.pages = s.pages → pageFree t p = .error .pageFree := by
      intro t ht
      rw [pageFree, ht, if_pos hp]
      rfl
    rw [herr (s.withReserved R g) rfl, herr s rfl]
    rfl
  · rw [not_or, not_not, not_not] at hp
    rw [pageFree_ok (s := s.withReserved R g) hp.1 hp.2, pageFree_ok hp.1 hp.2]
    rfl

theorem pageDecref_withReserved (s : Pmap) (p : Nat) :
    pageDecref (s.withReserved R g) p = Pmap.withReserved R g <$> pageDecref s p := by
  have hcode : ∀ t : Pmap, pageDecref t p = if (t.pages p).ppRef - 1#16 = 0#16 then
      pageFree (t.setRef p ((t.pages p).ppRef - 1#16)) p else .ok (t.setRef p ((t.pages p).ppRef - 1#16)) := by
    intro t
    rw [pageDecref, setRef_pages, if_pos rfl]
    rfl
  rw [hcode, hcode s, withReserved_pages]
  by_cases hz : (s.pages p).ppRef - 1#16 = 0#16
  · rw [if_pos hz, if_pos hz]
    exact pageFree_withReserved (s.setRef p _) p
  · rw [if_neg hz, if_neg hz]
    rfl

/-! ## Operations -/

/-- What the invariant says of a state apart from its reserved pages. -/
structure OffReserved (R : Set Nat) (D : Finset Nat) (s : Pmap) : Prop where
  npages_le : s.npages ≤ 1048576
  dirs : ∀ d ∈ D, d ∉ R
  tables : ∀ d ∈ D, ∀ i < NUPDE, present (s.mem d i) → tableOf s d i ∉ R ∧ tableOf s d i < s.npages ∧
    tableOf s d i ∉ D
  head : ∀ p, s.pageFreeList = some p → p ∉ R ∧ p < s.npages ∧ p ∉ D

theorem PmapInv.offReserved (h : PmapInv R D l (s.withReserved R g)) : OffReserved R D s where
  npages_le := h.npages_le'
  dirs d hd := (h.dir_managed hd).2
  tables d hd i hi hP := by
    have hmem : (s.withReserved R g).mem d = s.mem d := withReserved_mem (h.dir_managed hd).2
    have hP' : present ((s.withReserved R g).mem d i) := by rwa [hmem]
    have ht := h.table_managed hd hi hP'
    have hsep := fun e he => h.sep.table_ne_dir d hd e he i hi hP'
    rw [hmem] at ht hsep
    exact ⟨ht.2, ht.1, fun hD => hsep _ hD rfl⟩
  head p hp := by
    cases l with
    | nil => exact absurd (h.free.head_none.symm.trans hp) nofun
    | cons q l =>
      obtain rfl : q = p := Option.some.inj (h.free.head_some.symm.trans hp)
      exact ⟨h.head_managed.2, h.head_managed.1, fun hD => h.dir_notMem_free hD (List.mem_cons_self ..)⟩

namespace OffReserved

variable {perm : Word}

theorem mem_dir (h : OffReserved R D s) (hd : d ∈ D) : (s.withReserved R g).mem d = s.mem d :=
  withReserved_mem (h.dirs d hd)

theorem pageAlloc (h : OffReserved R D s) (zero : Bool) : pageAlloc (s.withReserved R g) zero
    = Prod.map id (Pmap.withReserved R g) <$> pageAlloc s zero := by
  cases hfree : s.pageFreeList with
  | none =>
    rw [pageAlloc_none (s := s.withReserved R g) zero hfree, pageAlloc_none zero hfree]
    rfl
  | some p =>
    obtain ⟨hp, hlt, -⟩ := h.head p hfree
    rw [pageAlloc_some (s := s.withReserved R g) zero hfree hlt h.npages_le,
      pageAlloc_some zero hfree hlt h.npages_le]
    cases zero with
    | false => rfl
    | true => exact congrArg (fun t => Except.ok (some p, t)) (clearPage_withReserved (s := s.takeFree p) hp)

theorem newTable_withReserved {i : Nat} (hd : d ∉ R) (hp : p ∉ R) :
    (s.withReserved R g).newTable d i p = (s.newTable d i p).withReserved R g := by
  have hclear : ((s.withReserved R g).takeFree p).clearPage p = ((s.takeFree p).clearPage p).withReserved R g :=
    clearPage_withReserved (s := s.takeFree p) hp
  rw [Pmap.newTable, hclear]
  exact store_withReserved (s := ((s.takeFree p).clearPage p).setRef p ((s.pages p).ppRef + 1#16)) (a := ⟨d, i⟩) hd
    (freshPde p)

theorem pgdirWalk (h : OffReserved R D s) (hd : d ∈ D) (hva : va < UTOP) (create : Bool) :
    pgdirWalk (s.withReserved R g) d va create
      = Prod.map id (Pmap.withReserved R g) <$> pgdirWalk s d va create := by
  have hmem : (s.withReserved R g).mem d = s.mem d := h.mem_dir hd
  by_cases hP : present (s.mem d (PDX va))
  · have hlt := (h.tables d hd _ (PDX_lt_of_lt_UTOP hva) hP).2.1
    rw [pgdirWalk_present create hP hlt, pgdirWalk_present (s := s.withReserved R g) create (by rwa [hmem])
      (by rwa [hmem]), hmem]
    rfl
  · have hP' : ¬ present ((s.withReserved R g).mem d (PDX va)) := by rwa [hmem]
    cases create with
    | false =>
      rw [pgdirWalk_absent hP, pgdirWalk_absent hP']
      rfl
    | true =>
      cases hfree : s.pageFreeList with
      | none =>
        rw [pgdirWalk_noMem hP hfree, pgdirWalk_noMem hP' hfree]
        rfl
      | some p =>
        obtain ⟨hp, hlt, -⟩ := h.head p hfree
        rw [pgdirWalk_create hP hfree hlt h.npages_le, pgdirWalk_create hP' hfree hlt h.npages_le,
          newTable_withReserved (h.dirs d hd) hp]
        rfl

/-- The entry that a walk returns is in no reserved page. -/
theorem walk_notMem (h : OffReserved R D s) (hd : d ∈ D) (hva : va < UTOP) {create : Bool} {pte : PtePtr}
    (hwalk : Jos.pgdirWalk s d va create = .ok (some pte, s')) : pte.page ∉ R := by
  by_cases hP : present (s.mem d (PDX va))
  · have htab := h.tables d hd _ (PDX_lt_of_lt_UTOP hva) hP
    rw [pgdirWalk_present create hP htab.2.1] at hwalk
    cases hwalk
    exact htab.1
  · cases create with
    | false =>
      rw [pgdirWalk_absent hP] at hwalk
      cases hwalk
    | true =>
      cases hfree : s.pageFreeList with
      | none =>
        rw [pgdirWalk_noMem hP hfree] at hwalk
        cases hwalk
      | some p =>
        obtain ⟨hp, hlt, -⟩ := h.head p hfree
        rw [pgdirWalk_create hP hfree hlt h.npages_le] at hwalk
        cases hwalk
        exact hp

theorem pageLookup (h : OffReserved R D s) (hd : d ∈ D) (hva : va < UTOP) :
    pageLookup (s.withReserved R g) d va = pageLookup s d va := by
  unfold Jos.pageLookup
  rw [h.pgdirWalk hd hva false]
  cases hwalk : Jos.pgdirWalk s d va false with
  | error e => rfl
  | ok r =>
    obtain ⟨pte, t⟩ := r
    cases pte with
    | none => rfl
    | some pte =>
      have hload : (s.withReserved R g).load pte = s.load pte := by
        rw [load, withReserved_mem (h.walk_notMem hd hva hwalk), load]
      show (if (s.withReserved R g).load pte = 0#32 then _ else _) = _
      rw [hload]
      rfl

theorem lookup_notMem (h : OffReserved R D s) (hd : d ∈ D) (hva : va < UTOP) {pte : PtePtr}
    (hlook : Jos.pageLookup s d va = .ok (some (p, pte))) : pte.page ∉ R := by
  obtain ⟨⟨q, t⟩, hwalk, hrest⟩ := Except.bind_eq_ok.mp hlook
  cases q with
  | none => cases hrest
  | some q =>
    simp only at hrest
    split at hrest
    · cases hrest
    · obtain ⟨pp, -, hend⟩ := Except.bind_eq_ok.mp hrest
      cases hend
      exact h.walk_notMem hd hva hwalk

theorem pageRemove (h : OffReserved R D s) (hd : d ∈ D) (hva : va < UTOP) :
    pageRemove (s.withReserved R g) d va = Pmap.withReserved R g <$> pageRemove s d va := by
  unfold Jos.pageRemove
  rw [h.pageLookup hd hva]
  cases hlook : Jos.pageLookup s d va with
  | error e => rfl
  | ok r =>
    cases r with
    | none => rfl
    | some r =>
      obtain ⟨p, pte⟩ := r
      simp only [Except.ok_bind]
      rw [pageDecref_withReserved]
      cases hdec : pageDecref s p with
      | error e => rfl
      | ok t => exact congrArg Except.ok (store_withReserved (h.lookup_notMem hd hva hlook) 0#32)

theorem setRef (h : OffReserved R D s) (p : Nat) (r : BitVec 16) : OffReserved R D (s.setRef p r) :=
  ⟨h.npages_le, h.dirs, h.tables, h.head⟩

/-- The end of `page_insert`: the new entry, and the flags of the directory entry. -/
def insertEnd (d p : Nat) (va perm : Word) (pte : PtePtr) (s : Pmap) : Pmap :=
  (s.store pte (mkPte p perm)).store ⟨d, PDX va⟩ ((s.store pte (mkPte p perm)).load ⟨d, PDX va⟩ ||| perm)

theorem insertEnd_withReserved (hd : d ∉ R) {pte : PtePtr} (hpte : pte.page ∉ R) (s : Pmap) :
    insertEnd d p va perm pte (s.withReserved R g) = (insertEnd d p va perm pte s).withReserved R g := by
  have hload : ((s.store pte (mkPte p perm)).withReserved R g).load ⟨d, PDX va⟩
      = (s.store pte (mkPte p perm)).load ⟨d, PDX va⟩ := by
    rw [load, withReserved_mem hd, load]
  rw [insertEnd, store_withReserved hpte, hload]
  exact store_withReserved (a := ⟨d, PDX va⟩) hd _

/-- A page table that was just made has no entry to remove. -/
theorem walk_old (h : OffReserved R D s) (hd : d ∈ D) {pte : PtePtr}
    (hwalk : Jos.pgdirWalk s d va true = .ok (some pte, s')) (hpres : present (s'.load pte)) : s' = s := by
  by_cases hP : present (s.mem d (PDX va))
  · by_cases hlt : ppn (s.mem d (PDX va)) < s.npages
    · rw [pgdirWalk_present true hP hlt] at hwalk
      cases hwalk
      rfl
    · rw [pgdirWalk_far true hP (not_lt.mp hlt)] at hwalk
      cases hwalk
  · cases hfree : s.pageFreeList with
    | none =>
      rw [pgdirWalk_noMem hP hfree] at hwalk
      cases hwalk
    | some p =>
      obtain ⟨-, hlt, hpD⟩ := h.head p hfree
      rw [pgdirWalk_create hP hfree hlt h.npages_le] at hwalk
      cases hwalk
      have hne : p ≠ d := fun he => hpD (he ▸ hd)
      have hzero : (s.newTable d (PDX va) p).load ⟨p, PTX va⟩ = 0#32 := by
        rw [load, Pmap.newTable, store_mem_of_ne _ _ _ hne, setRef_mem, clearPage_mem_self]
      rw [hzero] at hpres
      exact absurd hpres not_present_zero

theorem pageInsert (h : OffReserved R D s) (hd : d ∈ D) (hva : va < UTOP) :
    pageInsert (s.withReserved R g) d p va perm
      = Prod.map id (Pmap.withReserved R g) <$> pageInsert s d p va perm := by
  unfold Jos.pageInsert
  rw [h.pgdirWalk hd hva true]
  cases hwalk : Jos.pgdirWalk s d va true with
  | error e => rfl
  | ok r =>
    obtain ⟨pte, t⟩ := r
    cases pte with
    | none => rfl
    | some pte =>
      have hpte := h.walk_notMem hd hva hwalk
      obtain ⟨t₁, ht₁⟩ : ∃ t₁, t₁ = t.setRef p ((t.pages p).ppRef + 1#16) := ⟨_, rfl⟩
      have hload : (t₁.withReserved R g).load pte = t₁.load pte := by
        rw [load, withReserved_mem hpte, load]
      have hremove : (if present ((t₁.withReserved R g).load pte) then Jos.pageRemove (t₁.withReserved R g) d va
            else pure (t₁.withReserved R g))
          = Pmap.withReserved R g <$> (if present (t₁.load pte) then Jos.pageRemove t₁ d va else pure t₁) := by
        rw [hload]
        split
        · next hpres =>
          rw [ht₁] at hpres ⊢
          rw [h.walk_old hd hwalk hpres]
          exact (h.setRef p _).pageRemove hd hva
        · rfl
      have htail : ∀ x : Except Panic Pmap, ((Pmap.withReserved R g <$> x) >>= fun u =>
            Except.ok ((0 : Int), insertEnd d p va perm pte u))
          = Prod.map id (Pmap.withReserved R g) <$> (x >>= fun u =>
            Except.ok ((0 : Int), insertEnd d p va perm pte u)) := by
        intro x
        cases x with
        | error e => rfl
        | ok u => exact congrArg (fun u => Except.ok ((0 : Int), u)) (insertEnd_withReserved (h.dirs d hd) hpte u)
      have hcode : ∀ u : Pmap, (do
            let s ← if present ((u.setRef p ((u.pages p).ppRef + 1#16)).load pte) then
                Jos.pageRemove (u.setRef p ((u.pages p).ppRef + 1#16)) d va
              else pure (u.setRef p ((u.pages p).ppRef + 1#16))
            let s := s.store pte (mkPte p perm)
            let s := s.store ⟨d, PDX va⟩ (s.load ⟨d, PDX va⟩ ||| perm)
            return ((0 : Int), s)) = (if present ((u.setRef p ((u.pages p).ppRef + 1#16)).load pte) then
                Jos.pageRemove (u.setRef p ((u.pages p).ppRef + 1#16)) d va
              else pure (u.setRef p ((u.pages p).ppRef + 1#16))) >>= fun u =>
            Except.ok ((0 : Int), insertEnd d p va perm pte u) := by
        intro u
        dsimp only
        split <;> rfl
      refine (hcode (t.withReserved R g)).trans (Eq.trans ?_ (congrArg _ (hcode t)).symm)
      rw [← ht₁, ← htail, ← hremove, ht₁]
      rfl

theorem envSetupVm (h : OffReserved R D s) (hkR : s.kernPgdir ∈ R) (hkern : g s.kernPgdir = s.mem s.kernPgdir) :
    envSetupVm (s.withReserved R g) = Prod.map id (Pmap.withReserved R g) <$> envSetupVm s := by
  cases hfree : s.pageFreeList with
  | none =>
    rw [envSetupVm_none (s := s.withReserved R g) hfree, envSetupVm_none hfree]
    rfl
  | some p =>
    obtain ⟨hp, hlt, -⟩ := h.head p hfree
    have hne : s.kernPgdir ≠ p := fun he => hp (he ▸ hkR)
    have hmem : ((s.withReserved R g).newDir p).mem = ((s.newDir p).withReserved R g).mem := by
      funext q
      by_cases hqp : q = p
      · subst hqp
        funext i
        rw [withReserved_mem hp, newDir_mem_self hne, newDir_mem_self (s := s.withReserved R g) hne,
          withReserved_kernPgdir, withReserved_mem_reserved hkR, hkern]
      · rw [newDir_mem_of_ne hqp]
        by_cases hq : q ∈ R
        · rw [withReserved_mem_reserved hq, withReserved_mem_reserved hq]
        · rw [withReserved_mem hq, withReserved_mem hq, newDir_mem_of_ne hqp]
    have hstate : (s.withReserved R g).newDir p = (s.newDir p).withReserved R g := by
      show { (s.withReserved R g).newDir p with mem := ((s.withReserved R g).newDir p).mem } = _
      rw [hmem]
      rfl
    rw [envSetupVm_some (s := s.withReserved R g) hfree hlt h.npages_le, envSetupVm_some hfree hlt h.npages_le,
      hstate]
    rfl

end OffReserved

/-! ## `env_free` -/

namespace PmapInv

theorem pageRemove_off (h : PmapInv R D l (s.withReserved R g₀)) (hd : d ∈ D) (hva : va < UTOP)
    (hok : pageRemove s d va = .ok s') :
    ∃ l', PmapInv R D l' (s'.withReserved R g₀) := by
  have hcode := h.offReserved.pageRemove (g := g₀) hd hva
  rw [hok] at hcode
  obtain ⟨t, l', hcode', ht, -⟩ := h.pageRemove_step hd hva
  have heq : t = s'.withReserved R g₀ := Except.ok.inj (hcode'.symm.trans hcode)
  exact ⟨l', heq ▸ ht⟩

theorem envFreePtes_withReserved (h : PmapInv R D l (s.withReserved R g₀)) (hd : d ∈ D) {i : Nat} (hi : i < NUPDE)
    (hP : present (s.mem d i)) : envFreePtes (s.withReserved R g) d i (tableOf s d i)
      = Pmap.withReserved R g <$> envFreePtes s d i (tableOf s d i) := by
  have htab := (h.offReserved.tables d hd i hi hP).1
  refine Except.foldlM_commutes (fun t => ∃ l', PmapInv R D l' (t.withReserved R g₀)) ⟨l, h⟩ fun j hj t ht => ?_
  obtain ⟨l', ht⟩ := ht
  obtain ⟨hva, -, -⟩ := PDX_PGADDR hi (List.mem_range.mp hj)
  rw [withReserved_mem htab]
  split
  · exact ⟨ht.offReserved.pageRemove hd hva, fun t' hok => ht.pageRemove_off hd hva hok⟩
  · refine ⟨rfl, fun t' hok => ?_⟩
    cases hok
    exact ⟨l', ht⟩

theorem envFreePde_withReserved (h : PmapInv R D l (s.withReserved R g₀)) (hd : d ∈ D) {i : Nat} (hi : i < NUPDE) :
    envFreePde d (s.withReserved R g) i = Pmap.withReserved R g <$> envFreePde d s i := by
  have hdR := (h.dir_managed hd).2
  have hmem : (s.withReserved R g).mem d = s.mem d := withReserved_mem hdR
  by_cases hP : present (s.mem d i)
  · have hlt := (h.offReserved.tables d hd i hi hP).2.1
    have hk : ∀ t : Pmap, t.npages = s.npages → kaddr t (PTE_ADDR (s.mem d i)) = .ok (tableOf s d i) :=
      fun t ht => kaddr_ok (by rw [ht]; exact hlt)
    unfold envFreePde
    rw [hmem, if_neg (not_not_intro hP), if_neg (not_not_intro hP)]
    simp only [hk _ rfl, hk (s.withReserved R g) rfl, Except.ok_bind]
    rw [h.envFreePtes_withReserved hd hi hP]
    cases envFreePtes s d i (tableOf s d i) with
    | error e => rfl
    | ok t =>
      have hpp : pa2page ((t.store ⟨d, i⟩ 0#32).withReserved R g) (PTE_ADDR (s.mem d i))
          = pa2page (t.store ⟨d, i⟩ 0#32) (PTE_ADDR (s.mem d i)) := rfl
      show (do
        let pp ← pa2page ((t.withReserved R g).store ⟨d, i⟩ 0#32) (PTE_ADDR (s.mem d i))
        pageDecref ((t.withReserved R g).store ⟨d, i⟩ 0#32) pp) = Pmap.withReserved R g <$> (do
        let pp ← pa2page (t.store ⟨d, i⟩ 0#32) (PTE_ADDR (s.mem d i))
        pageDecref (t.store ⟨d, i⟩ 0#32) pp)
      rw [store_withReserved (a := ⟨d, i⟩) hdR, hpp]
      cases pa2page (t.store ⟨d, i⟩ 0#32) (PTE_ADDR (s.mem d i)) with
      | error e => rfl
      | ok pp => exact pageDecref_withReserved _ pp
  · have hP' : ¬ present ((s.withReserved R g).mem d i) := by rwa [hmem]
    rw [envFreePde, if_pos hP', envFreePde, if_pos hP]
    rfl

theorem envFreeVm_withReserved (h : PmapInv R D l (s.withReserved R g₀)) (hd : d ∈ D) :
    envFreeVm (s.withReserved R g) d = Pmap.withReserved R g <$> envFreeVm s d := by
  have hloop : (List.range NUPDE).foldlM (envFreePde d) (s.withReserved R g)
      = Pmap.withReserved R g <$> (List.range NUPDE).foldlM (envFreePde d) s := by
    refine Except.foldlM_commutes (fun t => ∃ l', PmapInv R D l' (t.withReserved R g₀)) ⟨l, h⟩
      fun i hi t ht => ?_
    obtain ⟨l', ht⟩ := ht
    have hi := List.mem_range.mp hi
    refine ⟨ht.envFreePde_withReserved hd hi, fun t' hok => ?_⟩
    obtain ⟨t₁, l₁, hcode, h₁, -, -, -⟩ := ht.envFreePde_spec hd hi
    rw [ht.envFreePde_withReserved hd hi, hok] at hcode
    have heq : t'.withReserved R g₀ = t₁ := Except.ok.inj hcode
    exact ⟨l₁, heq ▸ h₁⟩
  unfold envFreeVm
  rw [hloop]
  cases (List.range NUPDE).foldlM (envFreePde d) s with
  | error e => rfl
  | ok t =>
    show (do
      let pp ← pa2page (t.withReserved R g) (page2pa d)
      pageDecref (t.withReserved R g) pp) = Pmap.withReserved R g <$> (do
      let pp ← pa2page t (page2pa d)
      pageDecref t pp)
    have hpp : pa2page (t.withReserved R g) (page2pa d) = pa2page t (page2pa d) := rfl
    rw [hpp]
    cases pa2page t (page2pa d) with
    | error e => rfl
    | ok pp => exact pageDecref_withReserved t pp

end PmapInv

/-! ## Runs -/

/-- The state with the contents `g` in the reserved pages. -/
noncomputable def MemState.withReserved (R : Set Nat) (g : Nat → Nat → Word) (m : MemState) : MemState :=
  { m with pmap := m.pmap.withReserved R g }

section Exec

variable {s₀ : Pmap} {m m' : MemState} {op : PmapOp}

/-- The operations do not depend on the contents of reserved pages other than `kern_pgdir`. -/
theorem PmapInv.exec_withReserved (h : PmapInv R m.dirs l (m.pmap.withReserved R g₀)) (hen : op.Enabled s₀ m)
    (hkern : g m.pmap.kernPgdir = m.pmap.mem m.pmap.kernPgdir) :
    op.exec (m.withReserved R g) = MemState.withReserved R g <$> op.exec m := by
  have hoff := h.offReserved
  cases op with
  | alloc zero =>
    simp only [PmapOp.exec, MemState.withReserved, hoff.pageAlloc zero]
    cases pageAlloc m.pmap zero with
    | error e => rfl
    | ok r => rfl
  | free p =>
    simp only [PmapOp.exec, MemState.withReserved, pageFree_withReserved]
    cases pageFree m.pmap p with
    | error e => rfl
    | ok r => rfl
  | walk d va =>
    simp only [PmapOp.exec, MemState.withReserved, hoff.pgdirWalk hen.1 hen.2 true]
    cases pgdirWalk m.pmap d va true with
    | error e => rfl
    | ok r => rfl
  | insert d p va perm =>
    simp only [PmapOp.exec, MemState.withReserved, hoff.pageInsert hen.1 hen.2.1]
    cases pageInsert m.pmap d p va perm with
    | error e => rfl
    | ok r => rfl
  | remove d va =>
    simp only [PmapOp.exec, MemState.withReserved, hoff.pageRemove hen.1 hen.2]
    cases pageRemove m.pmap d va with
    | error e => rfl
    | ok r => rfl
  | setupVm =>
    simp only [PmapOp.exec, MemState.withReserved, hoff.envSetupVm h.map.kern_res.1 hkern]
    cases envSetupVm m.pmap with
    | error e => rfl
    | ok r =>
      obtain ⟨d, s⟩ := r
      cases d <;> rfl
  | freeVm d =>
    simp only [PmapOp.exec, MemState.withReserved, h.envFreeVm_withReserved hen]
    cases envFreeVm m.pmap d with
    | error e => rfl
    | ok r => rfl

/-- They leave the reserved pages alone. -/
theorem PmapInv.exec_reserved (h : PmapInv R m.dirs l (m.pmap.withReserved R g₀)) (hen : op.Enabled s₀ m)
    (hok : op.exec m = .ok m') : ∀ p ∈ R, m'.pmap.mem p = m.pmap.mem p := by
  have hcode := h.exec_withReserved (g := m.pmap.mem) hen rfl
  have hself : m.withReserved R m.pmap.mem = m := by
    rw [MemState.withReserved, withReserved_self]
  rw [hself, hok] at hcode
  have heq : m' = m'.withReserved R m.pmap.mem := Except.ok.inj hcode
  intro p hp
  rw [heq]
  exact withReserved_mem_reserved hp

/-- The caller's obligations are about other pages. -/
theorem PmapInv.enabled_withReserved (h : PmapInv R m.dirs l (m.pmap.withReserved R g₀)) (hen : op.Enabled s₀ m) :
    op.Enabled s₀ (m.withReserved R g) := by
  have htab : ∀ p, IsTable (m.withReserved R g) p → IsTable m p := by
    rintro p ⟨d, hd, i, hi, hp⟩
    rw [MemState.withReserved, withReserved_mem (h.dir_managed hd).2] at hp
    exact ⟨d, hd, i, hi, hp⟩
  cases op with
  | insert d p va perm =>
    obtain ⟨hd, hva, hperm, hp, ht, hrest⟩ := hen
    exact ⟨hd, hva, hperm, hp, fun hc => ht (htab p hc), hrest⟩
  | alloc zero => exact hen
  | free p => exact hen
  | walk d va => exact hen
  | remove d va => exact hen
  | setupVm => exact hen
  | freeVm d => exact hen

end Exec

end Jos
