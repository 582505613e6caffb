import Jos.Ipc
import Jos.Sharing
import Jos.UpcallEntry

/-!
# The pages of environments

What steps of the kernel do to the pages that environments have mapped below `UTOP`: `Remaps` says that at most one
entry has changed and that mapped pages hold what they held, `Kept` that the environments themselves are as they
were, apart from who runs.
-/

namespace Jos

open Pmap Kernel Except

variable {R : Set Nat} {D : Finset Nat} {l : List Nat} {sys : System} {k k' k₀ k₁ : Kernel} {c cur d e v : Nat}
  {w : Word}

/-! ## Entries -/

/-- The entry of page `v` in the address space of environment `e`. -/
def Kernel.pte (k : Kernel) (e v : Nat) : Word := (k.envs e).envPgdir.elim 0#32 fun d => pteOf k.pmap d v

theorem pte_eq (hd : (k.envs e).envPgdir = some d) (v : Nat) : k.pte e v = pteOf k.pmap d v := by
  rw [Kernel.pte, hd]
  rfl

theorem pte_of_none (hd : (k.envs e).envPgdir = none) (v : Nat) : k.pte e v = 0#32 := by
  rw [Kernel.pte, hd]
  rfl

/-- Who has a page mapped has a page directory. -/
theorem exists_dir (hP : present (k.pte e v)) : ∃ d, (k.envs e).envPgdir = some d := by
  cases hd : (k.envs e).envPgdir with
  | none =>
    rw [pte_of_none hd] at hP
    exact absurd hP not_present_zero
  | some d => exact ⟨d, rfl⟩

/-- Below `UTOP`, the entry of page `v` of environment `e` has become `w` and no other has changed, and mapped pages
hold what they held. -/
structure Remaps (k k' : Kernel) (e v : Nat) (w : Word) : Prop where
  pte : ∀ e' v', v' < NUVPN → k'.pte e' v' = if e' = e ∧ v' = v then w else k.pte e' v'
  mem : ∀ e' v', v' < NUVPN → present (k.pte e' v') →
    k'.pmap.mem (ppn (k.pte e' v')) = k.pmap.mem (ppn (k.pte e' v'))

/-- The environment has its old status, apart from the scheduler. -/
def SameStatus (k k' : Kernel) (i : Nat) : Prop :=
  (k'.envs i).envStatus = (k.envs i).envStatus ∨
    ((k.envs i).envStatus = .runnable ∨ (k.envs i).envStatus = .running) ∧
      ((k'.envs i).envStatus = .runnable ∨ (k'.envs i).envStatus = .running)

theorem SameStatus.of_eq {i : Nat} (h : SameStatus k₁ k' i) (heq : (k₁.envs i).envStatus = (k.envs i).envStatus) :
    SameStatus k k' i := by
  unfold SameStatus at h ⊢
  rwa [heq] at h

/-- The environments are the same, apart from which of those that may run are running. -/
structure Kept (k k' : Kernel) : Prop where
  id : ∀ i, (k'.envs i).envId = (k.envs i).envId
  pgdir : ∀ i, (k'.envs i).envPgdir = (k.envs i).envPgdir
  status : ∀ i, SameStatus k k' i

namespace Kept

theorem refl (k : Kernel) : Kept k k := ⟨fun _ => rfl, fun _ => rfl, fun _ => Or.inl rfl⟩

theorem trans (h : Kept k k₁) (h' : Kept k₁ k') : Kept k k' where
  id i := (h'.id i).trans (h.id i)
  pgdir i := (h'.pgdir i).trans (h.pgdir i)
  status i := by
    rcases h.status i with hs | hs <;> rcases h'.status i with hs' | hs'
    · exact Or.inl (hs'.trans hs)
    · exact Or.inr ⟨by rw [← hs]; exact hs'.1, hs'.2⟩
    · exact Or.inr ⟨hs.1, by rw [hs']; exact hs.2⟩
    · exact Or.inr ⟨hs.1, hs'.2⟩

theorem onlyTf (ht : OnlyTf k k') : Kept k k' where
  id i := by
    obtain ⟨tf, htf⟩ := ht.envs i
    rw [htf]
  pgdir := ht.pgdir
  status i := Or.inl (ht.status i)

theorem withPmap (k : Kernel) (s : Pmap) : Kept k { k with pmap := s } :=
  ⟨fun _ => rfl, fun _ => rfl, fun _ => Or.inl rfl⟩

theorem runs (hr : CanRun k c e) : Kept k (k.runs c e) where
  id i := (runs_sameEnv i).id
  pgdir := runs_sameDirs.pgdir
  status i := by
    unfold SameStatus
    rw [runs_status]
    split
    · next hi =>
      rw [hi]
      refine Or.inr ⟨?_, Or.inr rfl⟩
      exact hr.2.imp_right And.right
    · split
      · next hst => exact Or.inr ⟨Or.inr hst.2, Or.inl rfl⟩
      · exact Or.inl rfl

theorem halts : Kept k (k.halts c) := ⟨fun _ => rfl, fun _ => rfl, fun _ => Or.inl rfl⟩

/-- The entries of an environment depend on its page directory. -/
theorem pte (h : Kept k k') (hs : k'.pmap = k.pmap) (e v : Nat) : k'.pte e v = k.pte e v := by
  rw [Kernel.pte, Kernel.pte, h.pgdir, hs]

end Kept

namespace Remaps

theorem congr (h : Remaps k₀ k₁ e v w) (h₀ : Kept k k₀) (hs₀ : k₀.pmap = k.pmap) (h₁ : Kept k₁ k')
    (hs₁ : k'.pmap = k₁.pmap) : Remaps k k' e v w where
  pte e' v' hv' := by rw [h₁.pte hs₁, h.pte e' v' hv', h₀.pte hs₀]
  mem e' v' hv' hP := by
    rw [← h₀.pte hs₀] at hP ⊢
    rw [hs₁, h.mem e' v' hv' hP, hs₀]

/-- Nothing has changed. -/
theorem of_same (h : Kept k k') (hs : k'.pmap = k.pmap) : Remaps k k' e v (k.pte e v) where
  pte e' v' _ := by
    rw [h.pte hs]
    split
    · next heq => rw [heq.1, heq.2]
    · rfl
  mem _ _ _ _ := by rw [hs]

end Remaps

/-! ## Leaving the kernel -/

/-- The environments and the memory are as in `k`, apart from which environments are running. -/
structure Rests (k k' : Kernel) : Prop extends Kept k k' where
  pmap : k'.pmap = k.pmap

namespace Rests

theorem trans (h : Rests k k₁) (h' : Rests k₁ k') : Rests k k' := ⟨h.toKept.trans h'.toKept, h'.pmap.trans h.pmap⟩

theorem onlyTf (ht : OnlyTf k k') : Rests k k' := ⟨.onlyTf ht, ht.pmap⟩

theorem leaveRules (k : Kernel) (c : Nat) :
    LeaveRules c (fun k' => (∀ e, (k'.envs e).envPgdir ≠ none → e < NENV) ∧ Rests k k') (Rests k) where
  lt k' h := h.1
  onlyTf k₁ k₂ h ht := by
    refine ⟨fun e he => h.1 e ?_, h.2.trans (.onlyTf ht)⟩
    rwa [← ht.pgdir]
  run k₁ e h hr := ⟨h.2.toKept.trans (.runs hr), h.2.pmap⟩
  halt k₁ h _ := ⟨h.2.toKept.trans .halts, h.2.pmap⟩

theorem trapReturn (hlt : ∀ e, (k.envs e).envPgdir ≠ none → e < NENV) (hx : trapReturn k c = .ok (.left k')) :
    Rests k k' :=
  (leaveRules k c).trapReturn ⟨hlt, .refl k, rfl⟩ _ hx

end Rests

/-! ## System calls on pages -/

namespace MemInv

variable {s : Pmap} {p : Nat} {envid va perm srcenvid srcva dstenvid dstva : Word} {r : Int}

/-- Mapped pages are not on the free list. -/
theorem pte_notMem_free (h : MemInv R D l k) (hv : v < NUVPN) (hP : present (k.pte e v)) : ppn (k.pte e v) ∉ l := by
  obtain ⟨d, hd⟩ := exists_dir hP
  rw [pte_eq hd] at hP ⊢
  exact h.pmap.page_notMem_free (h.envs.dir e d hd) hv hP

/-- An entry under the directory of one environment. -/
theorem remaps_pte (h : MemInv R D l k) (hd : (k.envs e).envPgdir = some d)
    (hpte : ∀ d' ∈ D, ∀ v' < NUVPN, pteOf s d' v' = if d' = d ∧ v' = v then w else pteOf k.pmap d' v') (e' v' : Nat)
    (hv' : v' < NUVPN) :
    Kernel.pte { k with pmap := s } e' v' = if e' = e ∧ v' = v then w else k.pte e' v' := by
  cases hd' : (k.envs e').envPgdir with
  | none =>
    have hne : ¬ (e' = e ∧ v' = v) := by
      rintro ⟨rfl, -⟩
      rw [hd] at hd'
      cases hd'
    rw [if_neg hne, pte_of_none hd', pte_of_none (k := { k with pmap := s }) hd']
  | some d' =>
    rw [pte_eq hd', pte_eq (k := { k with pmap := s }) hd', hpte d' (h.envs.dir e' d' hd') v' hv']
    refine if_congr ?_ rfl rfl
    refine and_congr_left fun _ => ⟨?_, ?_⟩
    · rintro rfl
      exact h.envs.inj e' e d' hd' hd
    · rintro rfl
      exact Option.some.inj (hd'.symm.trans hd)

/-- `page_insert` into the address space of an environment. -/
theorem remaps_inserted (h : MemInv R D l k) (hd : (k.envs e).envPgdir = some d)
    (hins : Inserted R D l k.pmap d p va perm s) :
    Remaps k { k with pmap := s } e (PGNUM va) (mkPte p perm) where
  pte := h.remaps_pte hd hins.pte
  mem e' v' hv' hP := by
    obtain ⟨d', hd'⟩ := exists_dir hP
    rw [pte_eq hd'] at hP ⊢
    have hD := h.envs.dir e' d' hd'
    exact hins.page_mem _ (h.pmap.page_notMem_free hD hv' hP) (h.pmap.page_shared hD hv' hP)

/-- A successful `sys_page_map`. -/
theorem sysPageMap_remaps (h : MemInv R D l k)
    (hok : sysPageMap k cur srcenvid srcva dstenvid dstva perm = .ok (r, k')) (hr : 0 ≤ r) :
    ∃ src dst, envid2env k cur srcenvid true = some src ∧ envid2env k cur dstenvid true = some dst ∧
      present (k.pte src (PGNUM srcva)) ∧ r = 0 ∧ Kept k k' ∧
      Remaps k k' dst (PGNUM dstva) (mkPte (ppn (k.pte src (PGNUM srcva))) perm) := by
  rcases h.sysPageMap_cases cur srcenvid srcva dstenvid dstva perm with
    ⟨r', hr', hcode⟩ | ⟨src, dst, sd, dd, s, ha, -, -, hcode, hins, -⟩ | ⟨-, hcode⟩
  · obtain rfl := (Prod.mk.inj (Except.ok.inj (hcode.symm.trans hok))).1
    exact absurd hr' (not_lt.mpr hr)
  · cases hcode.symm.trans hok
    rw [← pte_eq ha.srcdir] at hins
    have hP := ha.page.1
    rw [← pte_eq ha.srcdir] at hP
    exact ⟨src, dst, ha.srcenv, ha.dstenv, hP, rfl, .withPmap k s, h.remaps_inserted ha.dstdir hins⟩
  · rw [hcode] at hok
    cases hok

/-- A successful `sys_page_alloc` maps a page that was mapped nowhere. -/
theorem sysPageAlloc_remaps (h : MemInv R D l k) (hva : va < UTOP)
    (hok : sysPageAlloc k cur envid va perm = .ok (r, k')) (hr : 0 ≤ r) :
    ∃ e p, envid2env k cur envid true = some e ∧ p < 1048576 ∧
      (∀ e' v', v' < NUVPN → present (k.pte e' v') → ppn (k.pte e' v') ≠ p) ∧ r = 0 ∧ Kept k k' ∧
      Remaps k k' e (PGNUM va) (mkPte p perm) := by
  have hno : ¬ AllocAtUTOP k cur (.pageAlloc envid va perm) := by
    rintro ⟨_, _, heq, -⟩
    cases heq
    exact absurd hva (BitVec.lt_irrefl _)
  rcases h.sysPageAlloc_cases hno hok with
    ⟨hr', -⟩ | ⟨hr', -⟩ | ⟨e, d, p, l₁, l', s, ha, hd, -, rfl, hins, -, hr₀, rfl⟩
  · exact absurd hr' (not_lt.mpr hr)
  · exact absurd hr' (not_lt.mpr hr)
  · have hne : ∀ e' v', v' < NUVPN → present (k.pte e' v') → ppn (k.pte e' v') ≠ p := by
      rintro e' v' hv' hP rfl
      exact h.pte_notMem_free hv' hP (List.mem_cons_self ..)
    have hfresh : MemInv R D l₁ { k with pmap := k.pmap.fresh p } :=
      ⟨h.pmap.fresh, h.envs.congr (.of_envs rfl rfl)⟩
    have hpte : ∀ e' v', v' < NUVPN → Kernel.pte { k with pmap := k.pmap.fresh p } e' v' = k.pte e' v' := by
      intro e' v' hv'
      cases hd' : (k.envs e').envPgdir with
      | none => rw [pte_of_none hd', pte_of_none (k := { k with pmap := k.pmap.fresh p }) hd']
      | some d' =>
        rw [pte_eq hd', pte_eq (k := { k with pmap := k.pmap.fresh p }) hd',
          h.pmap.fresh_pteOf (h.envs.dir e' d' hd') hv']
    have hremaps := hfresh.remaps_inserted hd hins
    have hmanaged := h.pmap.head_managed.1
    have hn := h.pmap.npages_le
    refine ⟨e, p, ha.1, by omega, hne, hr₀, .withPmap k s, fun e' v' hv' => ?_, fun e' v' hv' hP => ?_⟩
    · rw [← hpte e' v' hv']
      exact hremaps.pte e' v' hv'
    · have hmem := hremaps.mem e' v' hv'
      rw [hpte e' v' hv'] at hmem
      exact (hmem hP).trans (fresh_mem_of_ne (hne e' v' hv' hP))

/-- A successful `sys_page_unmap`. -/
theorem sysPageUnmap_remaps (h : MemInv R D l k) (hok : sysPageUnmap k cur envid va = .ok (r, k')) (hr : 0 ≤ r) :
    ∃ e w, envid2env k cur envid true = some e ∧ ¬ present w ∧ Kept k k' ∧ Remaps k k' e (PGNUM va) w := by
  rcases h.sysPageUnmap_cases cur envid va with
    ⟨r', hr', hcode⟩ | ⟨e, d, he, hva, -, hD, hd, ⟨hP, hcode⟩ | ⟨hP, hcode⟩⟩ | ⟨-, hcode⟩
  · obtain rfl := (Prod.mk.inj (Except.ok.inj (hcode.symm.trans hok))).1
    exact absurd hr' (not_lt.mpr hr)
  · cases hcode.symm.trans hok
    rw [← pte_eq hd] at hP
    exact ⟨e, _, he, hP, .refl k, .of_same (.refl k) rfl⟩
  · cases hcode.symm.trans hok
    refine ⟨e, 0#32, he, not_present_zero, .withPmap k _, h.remaps_pte hd fun d' hd' v' hv' => ?_,
      fun e' v' hv' hP' => ?_⟩
    · exact h.pmap.unmap_pteOf hD hva hP hd' hv'
    · obtain ⟨d', hd'⟩ := exists_dir hP'
      rw [pte_eq hd'] at hP' ⊢
      have hshared := h.pmap.page_shared (h.envs.dir e' d' hd') hv' hP'
      have hpde : present (k.pmap.mem d (PDX va)) := by
        by_contra hc
        rw [pteOf_PGNUM, if_neg hc] at hP
        exact not_present_zero hP
      have hi := PDX_lt_of_lt_UTOP hva
      have hne : ppn (pteOf k.pmap d' v') ≠ tableOf k.pmap d (PDX va) := by
        intro hc
        refine hshared (.pde d (PDX va)) (h.pmap.pde_mem hD hi) trivial ?_
        rw [hc]
        exact PmapInv.target_table (l := l) hD hi hpde
      show (k.pmap.unmap d va).mem _ = _
      rw [Pmap.unmap, store_mem_of_ne _ _ _ hne, decref_mem]
  · rw [hcode] at hok
    cases hok

/-- `sys_exofork` gives the new environment no pages. -/
theorem sysExofork_remaps (h : MemInv R D l k) (hok : sysExofork k cur = .ok (r, k')) :
    ∃ c, c < NENV ∧ (k.envs c).envPgdir = none ∧ (∃ d, (k'.envs c).envPgdir = some d) ∧
      (k'.envs c).envStatus = .notRunnable ∧ (∀ i, i ≠ c → k'.envs i = k.envs i) ∧
      ((k'.envs c).envId ≠ 0#32 ∧ ENVX (k'.envs c).envId = c) ∧ r = (k'.envs c).envId.toInt ∧
      Remaps k k' c 0 0#32 := by
  unfold sysExofork at hok
  rcases h.envAlloc_cases (k.envs cur).envId with
    ⟨c, p, l', hhead, hlt, hpg, rfl, hcode, -⟩ | ⟨-, err, hcode⟩
  · simp only [hcode, Except.ok_bind, Except.pure_eq, Except.ok.injEq, Prod.mk.injEq] at hok
    obtain ⟨hr, hk⟩ := hok
    obtain rfl : k.forks cur c p = k' := hk
    have hself : (k.forks cur c p).envs c = { (k.newEnv c p (k.pmap.newDir p) (k.envs cur).envId).envs c with
        envStatus := .notRunnable
        envTf := ((k.forks cur c p).envs c).envTf } := by
      unfold Kernel.forks
      rw [setEnv_envs, if_pos rfl]
    have henvs : ∀ i, i ≠ c → (k.forks cur c p).envs i = k.envs i := by
      intro i hi
      unfold Kernel.forks
      rw [setEnv_envs, if_neg hi, newEnv_envs_of_ne hi]
    have hdir : ((k.forks cur c p).envs c).envPgdir = some p := by
      rw [hself, newEnv_envs_self]
    have hpmap : (k.forks cur c p).pmap = k.pmap.newDir p := rfl
    refine ⟨c, hlt, hpg, ⟨p, hdir⟩, by rw [hself], henvs, ?_, hr.symm, fun e' v' hv' => ?_, fun e' v' hv' hP => ?_⟩
    · rw [hself, newEnv_envs_self]
      exact indexed_nextEnvId _ hlt
    · have hzero : k.pte c v' = 0#32 := pte_of_none hpg v'
      by_cases hc : e' = c
      · subst hc
        rw [pte_eq hdir, hpmap, h.pmap.newDir_pteOf_self hv', hzero, ite_self]
      · rw [if_neg fun hcv => hc hcv.1]
        cases hd' : (k.envs e').envPgdir with
        | none => rw [pte_of_none hd', pte_of_none (by rw [henvs e' hc, hd'])]
        | some d' =>
          have hd'' : ((k.forks cur c p).envs e').envPgdir = some d' := by rw [henvs e' hc, hd']
          rw [pte_eq hd', pte_eq hd'', hpmap, h.pmap.newDir_pteOf_of_ne (h.envs.dir e' d' hd') hv']
    · have hne : ppn (k.pte e' v') ≠ p := by
        intro hc
        refine h.pte_notMem_free hv' hP ?_
        rw [hc]
        exact List.mem_cons_self ..
      rw [hpmap, newDir_mem_of_ne hne]
  · simp only [hcode, Except.ok_bind] at hok
    cases hok

end MemInv

/-! ## Results -/

section Results

variable {envid va perm srcenvid srcva dstenvid dstva : Word}

/-- User code sees the sign of a result. -/
theorem eax_nonneg {r : Int} (h : -2147483648 ≤ r) (h' : 0 ≤ (BitVec.ofInt 32 r).toInt) : 0 ≤ r := by
  by_contra hc
  rw [BitVec.toInt_ofInt, Int.bmod_eq_of_le (by omega) (by omega)] at h'
  exact hc h'

/-- The codes that these calls return. -/
theorem codes_ge : (-2147483648 : Int) ≤ 0 ∧ -2147483648 ≤ -E_BAD_ENV ∧ -2147483648 ≤ -E_INVAL ∧
    -2147483648 ≤ -E_NO_MEM := by decide

theorem sysPageMap_ret : Post (sysPageMap k cur srcenvid srcva dstenvid dstva perm) fun x => -2147483648 ≤ x.1 := by
  unfold sysPageMap
  split
  · split
    · exact .ok codes_ge.2.2.1
    split
    · exact .ok codes_ge.2.2.1
    refine .bind' fun sd _ => .bind' fun o _ => ?_
    cases o with
    | none => exact .ok codes_ge.2.2.1
    | some p =>
      simp only
      split
      · exact .ok codes_ge.2.2.1
      refine .bind' fun dd _ => .bind' fun ⟨r, s⟩ _ => ?_
      simp only
      split
      · exact .ok codes_ge.2.2.2
      · exact .ok codes_ge.1
  · exact .ok codes_ge.2.1

theorem sysPageAlloc_ret : Post (sysPageAlloc k cur envid va perm) fun x => -2147483648 ≤ x.1 := by
  unfold sysPageAlloc
  split
  · exact .ok codes_ge.2.1
  split
  · exact .ok codes_ge.2.2.1
  split
  · exact .ok codes_ge.2.2.1
  refine .bind' fun ⟨p, s⟩ _ => ?_
  cases p with
  | none => exact .ok codes_ge.2.2.2
  | some p =>
    refine .bind' fun d _ => .bind' fun ⟨r, s'⟩ _ => ?_
    simp only
    split
    · exact .bind' fun _ _ => .ok codes_ge.2.2.2
    · exact .ok codes_ge.1

theorem sysPageUnmap_ret : Post (sysPageUnmap k cur envid va) fun x => -2147483648 ≤ x.1 := by
  unfold sysPageUnmap
  split
  · exact .ok codes_ge.2.1
  split
  · exact .ok codes_ge.2.2.1
  · exact .bind' fun d _ => .bind' fun s _ => .ok codes_ge.1

theorem sysEnvSetPgfaultUpcall_cases (k : Kernel) (cur : Nat) (envid func : Word) :
    sysEnvSetPgfaultUpcall k cur envid func = (-E_BAD_ENV, k) ∨ ∃ i, sysEnvSetPgfaultUpcall k cur envid func
      = (0, k.setEnv i { k.envs i with envPgfaultUpcall := func }) := by
  unfold sysEnvSetPgfaultUpcall
  split
  · exact Or.inl rfl
  · next i _ => exact Or.inr ⟨i, rfl⟩

theorem sysEnvSetStatus_cases (k : Kernel) (cur : Nat) (envid : Word) :
    sysEnvSetStatus k cur envid ENV_RUNNABLE = (-E_BAD_ENV, k) ∨
      ∃ i, envid2env k cur envid true = some i ∧
        sysEnvSetStatus k cur envid ENV_RUNNABLE = (0, k.setStatus i .runnable) := by
  unfold sysEnvSetStatus
  split
  · exact Or.inl rfl
  · next i hi => exact Or.inr ⟨i, hi, if_pos rfl⟩

end Results

/-! ## Steps of the machine -/

section Steps

variable {a : Action} {call : Call}

/-- A system call runs with the registers saved; when it has returned, the kernel is left. -/
theorem exec_call (hen : Enabled sys k a) (hcur : k.curenv c = some e) (hst : (k.envs e).envStatus ≠ .dying)
    (hcall : IsCall c call a) (hx : Jos.exec k a = .ok (.left k')) :
    ∃ k₀ input f, OnlyTf k k₀ ∧
      syscall k₀ c e input call.syscallno call.a1 call.a2 call.a3 call.a4 call.a5 = .ok f ∧
      ∀ r k₁, f = .ret r k₁ → trapReturn (setEax k₁ e r) c = .ok (.left k') := by
  cases a with
  | trap c' gate faultVa input tf =>
    obtain ⟨rfl, hno, rfl⟩ := hcall
    have hx' : Jos.trap k c' gate faultVa input tf = .ok (.left k') := hx
    have htf := hen.2.2.2
    rw [trap_syscall (trap_interruptGate htf hx') htf.cs hno hcur hst] at hx'
    obtain ⟨f, hf, hrest⟩ := bind_eq_ok.mp hx'
    refine ⟨_, input, f, .setEnv k e tf, hf, ?_⟩
    rintro r k₁ rfl
    exact hrest
  | store c va b => exact hcall.elim
  | irq c gate trapno => exact hcall.elim
  | start c => exact hcall.elim

/-- A system call that returns: the result is in `eax`, and the environments are left as the call leaves them. -/
theorem MemInv.exec_ret (h : MemInv R D l k) (hen : Enabled sys k a) (hcur : k.curenv c = some e)
    (hst : (k.envs e).envStatus ≠ .dying) (hcall : IsCall c call a) (hx : Jos.exec k a = .ok (.left k'))
    {x : Kernel → Except Panic (Int × Kernel)}
    (hsys : ∀ k₀ input, syscall k₀ c e input call.syscallno call.a1 call.a2 call.a3 call.a4 call.a5
      = Flow.ofRet <$> x k₀) :
    ∃ k₀ r k₁, OnlyTf k k₀ ∧ MemInv R D l k₀ ∧ x k₀ = .ok (r, k₁) ∧
      (k'.envs e).envTf.regs.eax = BitVec.ofInt 32 r ∧
      ((∀ i, (k₁.envs i).envPgdir ≠ none → i < NENV) → Rests k₁ k') := by
  obtain ⟨k₀, input, f, htf, hf, hret⟩ := exec_call hen hcur hst hcall hx
  rw [hsys] at hf
  obtain ⟨⟨r, k₁⟩, hok, rfl⟩ := map_eq_ok.mp hf
  have hleave := hret r k₁ rfl
  have hmem : MemInv R D l k₀ := h.congr htf.sameDirs htf.pmap
  refine ⟨k₀, r, k₁, htf, hmem, hok, ?_, fun hlt => ?_⟩
  · rw [(mailSame_trapReturn hleave e).eax]
    simp only [setEax, setEnv_envs, if_true]
  · have hrest := Rests.trapReturn (fun i hi => hlt i ?_) hleave
    · exact (Rests.onlyTf (.setEax k₁ e r)).trans hrest
    · rwa [← (OnlyTf.setEax k₁ e r).pgdir]

def SYS_cgetc : Word := 1#32
def SYS_getenvid : Word := 2#32

section Numbers

variable (k : Kernel) (c cur : Nat) (input a1 a2 a3 a4 a5 : Word)

theorem syscall_cgetc : syscall k c cur input SYS_cgetc a1 a2 a3 a4 a5 = .ok (.ret input.toInt k) := rfl

theorem syscall_getenvid :
    syscall k c cur input SYS_getenvid a1 a2 a3 a4 a5 = .ok (.ret (k.envs cur).envId.toInt k) := rfl

theorem syscall_yield : syscall k c cur input SYS_yield a1 a2 a3 a4 a5 = schedYield k c := rfl

end Numbers

/-- The step is an interrupt, or a system call that only reads or gives up the CPU. -/
def Quiet (k : Kernel) : Action → Prop
  | .store .. => False
  | .trap c _ _ _ tf => (∀ e, k.curenv c = some e → (k.envs e).envStatus ≠ .dying) ∧
      (tf.trapno = IRQ_OFFSET + IRQ_TIMER ∨ tf.trapno = IRQ_OFFSET + IRQ_SPURIOUS ∨
        tf.trapno = T_SYSCALL ∧ ((callOf tf.regs).syscallno = SYS_cgetc ∨
          (callOf tf.regs).syscallno = SYS_getenvid ∨ (callOf tf.regs).syscallno = SYS_yield))
  | _ => True

theorem SysInv.dir_lt (h : SysInv R none k) (e : Nat) (he : (k.envs e).envPgdir ≠ none) : e < NENV := by
  obtain ⟨D, l, hmem⟩ := h.mem
  obtain ⟨d, hd⟩ := Option.ne_none_iff_exists'.mp he
  exact hmem.envs.lt e d hd

theorem SysInv.exec_quiet (h : SysInv R none k) (hen : Enabled sys k a) (hq : Quiet k a)
    (hx : Jos.exec k a = .ok (.left k')) : Rests k k' := by
  have hself : (∀ e, (k.envs e).envPgdir ≠ none → e < NENV) ∧ Rests k k := ⟨h.dir_lt, .refl k, rfl⟩
  cases a with
  | store c va b => exact hq.elim
  | trap c gate faultVa input tf =>
    obtain ⟨hdying, hcases⟩ := hq
    have hx' : Jos.trap k c gate faultVa input tf = .ok (.left k') := hx
    have htf := hen.2.2.2
    have hgate := trap_interruptGate htf hx'
    have hcs : tf.cs &&& 3#32 = 3#32 := by
      rw [htf.cs]
      decide
    obtain ⟨cur, hcur⟩ := Option.ne_none_iff_exists'.mp ((h.cpus.mode c nofun).mp hen.2.1)
    unfold Jos.trap at hx'
    rw [if_neg (not_not.mpr (Gate.eflags_if hgate tf)), if_pos hcs, hcur] at hx'
    simp only at hx'
    rw [if_neg (hdying cur hcur)] at hx'
    have hL := Rests.leaveRules k c
    refine hL.trapBody (hL.trapDispatch (hL.onlyTf _ _ hself (.setEnv k cur tf)) ?_ ?_ ?_) _ hx'
    · intro hno
      rcases hcases with hno' | hno' | hno'
      · exact absurd (hno.symm.trans hno') (by decide)
      · exact absurd (hno.symm.trans hno') (by decide)
      · exact absurd (hno.symm.trans hno'.1) (by decide)
    · intro hno cur' hcur'
      have hmid := hL.onlyTf _ _ hself (.setEnv k cur tf)
      have hcall : (callOf tf.regs).syscallno = SYS_cgetc ∨ (callOf tf.regs).syscallno = SYS_getenvid ∨
          (callOf tf.regs).syscallno = SYS_yield := by
        rcases hcases with hno' | hno' | hno'
        · exact absurd (hno.symm.trans hno') (by decide)
        · exact absurd (hno.symm.trans hno') (by decide)
        · exact hno'.2
      unfold Jos.syscallOf
      rcases hcall with hcall | hcall | hcall
      · rw [show tf.regs.eax = SYS_cgetc from hcall, syscall_cgetc]
        exact .ok hmid
      · rw [show tf.regs.eax = SYS_getenvid from hcall, syscall_getenvid]
        exact .ok hmid
      · rw [show tf.regs.eax = SYS_yield from hcall, syscall_yield]
        exact hL.schedYield hmid
    · rintro ⟨h₁, -, h₃, h₄, h₅⟩
      rcases hcases with hno | hno | hno
      · exact absurd hno h₅
      · exact absurd hno h₄
      · exact absurd hno.1 h₃
  | irq c gate trapno =>
    have hnone : k.curenv c = none := h.curenv_none (by rw [hen.2.1]; exact nofun)
    have hx' : Jos.trap k c gate 0#32 0#32 (idleFrame trapno) = .ok (.left k') := hx
    unfold Jos.trap at hx'
    split at hx'
    · cases hx'
    rw [if_neg (idleFrame_kern trapno)] at hx'
    have hL := Rests.leaveRules k c
    refine hL.trapBody
      (hL.trapDispatch hself (fun hno => ?_) (fun hno => absurd hno hen.2.2.2) fun _ cur hcur => ?_) _ hx'
    · unfold Jos.pageFaultHandler
      rw [if_pos (idleFrame_cs trapno)]
      exact .error _
    · rw [hnone] at hcur
      cases hcur
  | start c => exact (Rests.leaveRules k c).schedYield hself _ hx

/-! ## Stores -/

/-- Environment `e` has stored the byte `b` at `va`. -/
structure Stores (k k' : Kernel) (e : Nat) (va : Word) (b : BitVec 8) : Prop where
  below : va < UTOP
  writable : k.pte e (PGNUM va) &&& USER_W = USER_W
  kept : Kept k k'
  pte : ∀ e' v', v' < NUVPN → k'.pte e' v' = k.pte e' v'
  bytes : physBytes k'.pmap
    = Function.update (physBytes k.pmap) (ppn (k.pte e (PGNUM va)), va.toNat % PGSIZE) b

theorem pte_withPmap {s : Pmap} (h : MemInv R D l k) (hpte : ∀ d ∈ D, ∀ v < NUVPN, pteOf s d v = pteOf k.pmap d v)
    (e v : Nat) (hv : v < NUVPN) : Kernel.pte { k with pmap := s } e v = k.pte e v := by
  cases hd : (k.envs e).envPgdir with
  | none => rw [pte_of_none hd, pte_of_none (k := { k with pmap := s }) hd]
  | some d =>
    rw [pte_eq hd, pte_eq (k := { k with pmap := s }) hd, hpte d (h.envs.dir e d hd) v hv]

theorem SysInv.exec_store (h : SysInv R none k) {va : Word} {b : BitVec 8} (hen : Enabled sys k (.store c va b))
    (hcur : k.curenv c = some e) (hx : Jos.exec k (.store c va b) = .ok (.left k')) : Stores k k' e va b := by
  obtain ⟨D, l, hmem⟩ := h.mem
  obtain ⟨-, -, hne⟩ := hen
  obtain ⟨s, hs⟩ := Option.ne_none_iff_exists'.mp hne
  obtain rfl : { k with pmap := s } = k' := by
    have hx' := Flow.left.inj (Except.ok.inj hx)
    rwa [hs] at hx'
  have hdir := h.cpus.cr3 c e hcur
  have hd := hmem.envs.dir e _ hdir
  generalize (k.cpus c).cr3 = d at hdir hd hs
  have hva : va < UTOP := by
    by_contra hva
    rw [storeByte, hmem.pmap.translate_above hd hva] at hs
    cases hs
  obtain ⟨hP, hW, -⟩ := hmem.pmap.storeByte_below .write hd hva hs
  have hphys := hmem.pmap.storeByte_phys .write hd hva hs
  rw [physAddr, hmem.pmap.pageOf_PGNUM hd hva hP, ← pte_eq hdir] at hphys
  rw [← pte_eq hdir] at hW
  exact ⟨hva, hW, .withPmap k s, pte_withPmap hmem.toMemInv (hmem.pmap.userStore hd hs).2.2, hphys⟩

/-! ## Page faults -/

/-- A page fault of environment `e` has been passed on to its upcall: what has been written lies above the
stack. -/
structure Upcalls (k k' : Kernel) (e : Nat) : Prop where
  kept : Kept k k'
  pte : ∀ e' v', v' < NUVPN → k'.pte e' v' = k.pte e' v'
  mem : ∀ p, (∀ v, PGNUM USTACKTOP ≤ v → v < NUVPN → present (k.pte e v) → ppn (k.pte e v) ≠ p) →
    k'.pmap.mem p = k.pmap.mem p

/-- A copy by the kernel leaves pages alone that are not mapped where it writes. -/
theorem PmapInv.copyTo_mem {s s' : Pmap} (h : PmapInv R D l s) (hd : d ∈ D) {bs : List (BitVec 8)} {va : Word}
    {n p : Nat} (hn : n ≤ PGNUM va) (hva : va.toNat + bs.length ≤ UTOP.toNat)
    (hp : ∀ v, n ≤ v → v < NUVPN → present (pteOf s d v) → ppn (pteOf s d v) ≠ p)
    (hok : Jos.copyTo d bs va s = .ok s') : s'.mem p = s.mem p := by
  induction bs generalizing s va with
  | nil =>
    cases hok
    rfl
  | cons b bs ih =>
    rw [List.length_cons] at hva
    obtain ⟨hva', hnext⟩ := copyTo_bounds hva
    obtain ⟨s₁, hs₁, hok⟩ := copyTo_cons hok
    obtain ⟨hP, -, rfl⟩ := h.storeByte_below .kernWrite hd hva' hs₁
    have hv := PGNUM_lt_NUVPN hva'
    obtain ⟨h₁, -, hpte⟩ := h.storePage hd hv hP (wordOf va)
      (setByte (s.mem (ppn (pteOf s d (PGNUM va))) (wordOf va)) (va.toNat % 4) b)
    have hle : PGNUM va ≤ PGNUM (va + 1#32) := by
      rw [PGNUM_eq, PGNUM_eq, hnext]
      omega
    rw [ih h₁ (hn.trans hle) (by omega) (fun v hnv hv' hP' => ?_) hok]
    · exact store_mem_of_ne _ _ _ (hp _ hn hv hP).symm
    · rw [hpte d hd v hv'] at hP' ⊢
      exact hp v hnv hv' hP'

/-- An environment that its own CPU destroys is freed. -/
theorem MemInv.envDestroy_own (h : MemInv R D l k) (hcur : k.curenv c = some e) {f : Flow}
    (hok : Jos.envDestroy k c e = .ok f) :
    (∀ r k₁, f ≠ .ret r k₁) ∧ ∀ k', f = .left k' → (k'.envs e).envStatus = .free := by
  unfold Jos.envDestroy at hok
  simp only at hok
  rw [if_neg fun hc => hc.2 hcur] at hok
  obtain ⟨k₁, hfree, hok⟩ := bind_eq_ok.mp hok
  have hrec : MemInv R D l (k.record (.destroy e)) := h.congr (.of_envs rfl rfl) rfl
  obtain ⟨d, s, l', -, rfl, hmem⟩ := hrec.envFree_step hfree
  have hcur' : ((k.record (.destroy e)).freeEnv c e s).curenv c = some e := hcur
  rw [if_pos hcur'] at hok
  refine ⟨fun r k₂ hf => schedYield_ne_ret r k₂ (hf ▸ hok), fun k' hf => ?_⟩
  have hlt : ∀ i, ((((k.record (.destroy e)).freeEnv c e s).setCurenv c none).envs i).envPgdir ≠ none → i < NENV := by
    intro i hi
    obtain ⟨d', hd'⟩ := Option.ne_none_iff_exists'.mp hi
    exact hmem.envs.lt i d' hd'
  have hrest := (Rests.leaveRules _ c).schedYield ⟨hlt, .refl _, rfl⟩ _ (hf ▸ hok)
  have hstatus : ((((k.record (.destroy e)).freeEnv c e s).setCurenv c none).envs e).envStatus = .free := by
    show (((k.record (.destroy e)).freeEnv c e s).envs e).envStatus = .free
    rw [freeEnv_envs_self]
  rcases hrest.status e with hst | ⟨hst, -⟩
  · rw [hst, hstatus]
  · rw [hstatus] at hst
    rcases hst with hst | hst <;> cases hst

theorem Upcalls.after (ht : OnlyTf k k₀) (h : Upcalls k₀ k' e) : Upcalls k k' e := by
  have hpte := (Kept.onlyTf ht).pte ht.pmap
  refine ⟨(Kept.onlyTf ht).trans h.kept, fun e' v' hv' => ?_, fun p hp => ?_⟩
  · rw [h.pte e' v' hv', hpte]
  · rw [h.mem p fun v hv hv' => ?_, ht.pmap]
    rw [hpte]
    exact hp v hv hv'

/-- The frame is copied to the exception stack, and the environment goes on. -/
theorem MemInv.upcalls (h : MemInv R D l k) (hd : (k.envs e).envPgdir = some d)
    (hst : (k.envs e).envStatus = .running) (hcur : k.curenv c = some e) {bs : List (BitVec 8)} {va : Word} {s : Pmap}
    (hlow : PGNUM USTACKTOP ≤ PGNUM va) (htop : va.toNat + bs.length ≤ UTOP.toNat)
    (hs : Jos.copyTo d bs va k.pmap = .ok s) (ht : OnlyTf { k with pmap := s } k₁) : Upcalls k (k₁.runs c e) e := by
  have hD := h.envs.dir e d hd
  have hcur₁ : k₁.curenv c = some e := by
    rw [Kernel.curenv, ht.cpus]
    exact hcur
  have hrun : CanRun k₁ c e := ⟨h.envs.lt e d hd, Or.inr ⟨hcur₁, (ht.status e).trans hst⟩⟩
  have hkept : Kept { k with pmap := s } (k₁.runs c e) := (Kept.onlyTf ht).trans (.runs hrun)
  refine ⟨(Kept.withPmap k s).trans hkept, fun e' v' hv' => ?_, fun p hp => ?_⟩
  · rw [hkept.pte ht.pmap]
    exact pte_withPmap h (h.pmap.copyTo_pteOf hD htop hs).2.2 e' v' hv'
  · rw [runs_pmap, ht.pmap]
    refine h.pmap.copyTo_mem hD hlow htop (fun v hv hv' hP => ?_) hs
    rw [← pte_eq hd] at hP ⊢
    exact hp v hv hv' hP

/-- A page fault, unless it is the end of the environment. -/
theorem SysInv.exec_fault (h : SysInv R none k) {gate : Gate} {faultVa input : Word} {tf : Trapframe}
    (hen : Enabled sys k (.trap c gate faultVa input tf)) (hcur : k.curenv c = some e)
    (hst : (k.envs e).envStatus ≠ .dying) (hno : tf.trapno = T_PGFLT)
    (hx : Jos.exec k (.trap c gate faultVa input tf) = .ok (.left k')) (hlive : (k'.envs e).envStatus ≠ .free) :
    Upcalls k k' e := by
  obtain ⟨D, l, hmem⟩ := h.mem
  have hx' : Jos.trap k c gate faultVa input tf = .ok (.left k') := hx
  have htf := hen.2.2.2
  have hgate := trap_interruptGate htf hx'
  have hcs : tf.cs &&& 3#32 = 3#32 := by
    rw [htf.cs]
    decide
  unfold Jos.trap at hx'
  rw [if_neg (not_not.mpr (Gate.eflags_if hgate tf)), if_pos hcs, hcur] at hx'
  simp only at hx'
  rw [if_neg hst] at hx'
  obtain ⟨k₀, hk₀⟩ : ∃ k₀, k₀ = k.setEnv e { k.envs e with envTf := tf } := ⟨_, rfl⟩
  have htf₀ : OnlyTf k k₀ := by
    rw [hk₀]
    exact .setEnv k e tf
  have hmem₀ : MemInv R D l k₀ := hmem.toMemInv.congr htf₀.sameDirs htf₀.pmap
  have hcur₀ : k₀.curenv c = some e := by rw [Kernel.curenv, htf₀.cpus]; exact hcur
  rw [← hk₀] at hx'
  unfold Jos.trapBody Jos.trapDispatch at hx'
  rw [if_pos hno] at hx'
  obtain ⟨f, hf, hx'⟩ := bind_eq_ok.mp hx'
  -- the environment is not destroyed
  have hnot : Jos.envDestroy k₀ c e ≠ .ok f := by
    intro hd
    obtain ⟨hret, hleft⟩ := hmem₀.envDestroy_own hcur₀ hd
    cases f with
    | ret r k₁ => exact hret r k₁ rfl
    | left k₁ =>
      obtain rfl := Flow.left.inj (Except.ok.inj hx')
      exact hlive (hleft k₁ rfl)
    | monitor k₁ => cases hx'
  unfold Jos.pageFaultHandler at hf
  rw [if_neg (by rw [hcs]; decide), hcur₀] at hf
  simp only at hf
  split at hf
  · obtain ⟨b, -, hf⟩ := bind_eq_ok.mp hf
    split at hf
    · exact absurd hf hnot
    · obtain ⟨s, hs, hf⟩ := bind_eq_ok.mp hf
      obtain ⟨⟨d, hd₁⟩, rfl⟩ := envRun_ok hf
      obtain rfl := Flow.left.inj (Except.ok.inj hx')
      have htf₁ := OnlyTf.setEnv { k₀ with pmap := s } e
        { (k₀.envs e).envTf with eip := (k₀.envs e).envPgfaultUpcall, esp := utfAddr tf }
      have hd : (k₀.envs e).envPgdir = some d := by rw [← hd₁, htf₁.pgdir]
      have hcr3 : (k₀.cpus c).cr3 = d := by
        rw [htf₀.cpus]
        rw [htf₀.pgdir, h.cpus.cr3 c e hcur] at hd
        exact Option.some.inj hd
      rw [hcr3] at hs
      have hat := utfAddr_frameAt tf
      have hrun : (k₀.envs e).envStatus = .running :=
        (htf₀.status e).trans ((h.cpus.status c e (Option.some_ne_none c) hcur).resolve_right hst)
      refine .after htf₀ (hmem₀.upcalls hd hrun hcur₀ ?_ ?_ hs htf₁)
      · rw [PGNUM_eq, PGNUM_eq, toNat_USTACKTOP]
        have := hat.bottom
        omega
      · rw [utrapframe_length, toNat_UTOP]
        have := hat.top
        omega
  · exact absurd hf hnot

end Steps

end Jos
