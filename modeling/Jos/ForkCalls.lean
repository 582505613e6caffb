import Mathlib.Algebra.Order.BigOperators.Group.Finset
import Jos.Fork

/-!
# The system calls of `fork` and `pgfault`
-/

namespace Jos

open Pmap Kernel Except

variable {R : Set Nat} {sys : System} {k k' : Kernel} {c e e' v p : Nat}

/-! ## Reading page tables -/

section Reads

variable {w : Word}

/-- User code sees its own page tables. -/
theorem read_pte (h : SysInv R none k) (hcur : k.curenv c = some e) (hv : v < NUVPN)
    (hr : readPte k.pmap (k.cpus c).cr3 v = some w) : w = k.pte e v := by
  have hlt : NUVPN < 1048576 := by decide
  obtain ⟨D, l, hmem⟩ := h.mem
  have hdir := h.cpus.cr3 c e hcur
  have hd := hmem.envs.dir e _ hdir
  have hself : SelfMapped k.pmap (k.cpus c).cr3 := hmem.pmap.map.self _ hd
  rw [readPte, hself.loadWord_uvpt ((hmem.pmap.dirs_lt _ hd).trans_le hmem.pmap.npages_le') (hv.trans hlt)] at hr
  split at hr
  · next hread =>
    rw [pte_eq hdir, pteOf, if_pos (UserFlags.read.entry hread), Option.some.inj hr]
  · cases hr

/-- A page of a table that is not there is not mapped. -/
theorem read_pde (h : SysInv R none k) (hcur : k.curenv c = some e) (hv : v < NUVPN)
    (hr : readPde k.pmap (k.cpus c).cr3 (v / 1024) = some w) (hw : w &&& PTE_P ≠ PTE_P) : ¬ present (k.pte e v) := by
  obtain ⟨D, l, hmem⟩ := h.mem
  have hdir := h.cpus.cr3 c e hcur
  have hd := hmem.envs.dir e _ hdir
  have hself : SelfMapped k.pmap (k.cpus c).cr3 := hmem.pmap.map.self _ hd
  have hlt : NUVPN = 955 * 1024 := by decide
  have hi : v / 1024 < 1024 := by omega
  rw [readPde, hself.loadWord_uvpd ((hmem.pmap.dirs_lt _ hd).trans_le hmem.pmap.npages_le') hi] at hr
  have hP : ¬ present (k.pmap.mem (k.cpus c).cr3 (v / 1024)) := by
    rw [Option.some.inj hr]
    exact fun hc => hw (present_iff.mp hc)
  rw [pte_eq hdir, pteOf, if_neg hP]
  decide

end Reads

/-! ## System calls -/

theorem Machine.sysInv {a : Action} (hm : Machine sys k a k') (h : SysInv R none k) (hs : Safe k a) :
    SysInv R none k' := h.exec hm.enabled hs hm.exec

theorem Machine.indexed {a : Action} (hm : Machine sys k a k') (h : SysInv R none k)
    (hi : ∀ e, Indexed e (k.envs e)) : ∀ e, Indexed e (k'.envs e) := h.exec_indexed hm.enabled hm.exec hi

/-- A safe system call. -/
theorem safe_call {a : Action} {call : Call} (hcur : k.curenv c = some e) (hcall : IsCall c call a)
    (hm : MemSafe k e call) (hst : StatusSafe k c e call) : Safe k a := by
  cases a with
  | trap c' gate faultVa input tf =>
    obtain ⟨rfl, -, rfl⟩ := hcall
    intro _ cur hcur'
    obtain rfl := Option.some.inj (hcur.symm.trans hcur')
    exact ⟨hm, hst⟩
  | store c va b => exact hcall.elim
  | irq c gate trapno => exact hcall.elim
  | start c => exact hcall.elim

theorem envid2env_eq {cur : Nat} {envid : Word} {b : Bool} (h : envid2env k cur envid b = some e) :
    (envid = 0#32 ∧ e = cur) ∨ (envid ≠ 0#32 ∧ e = ENVX envid) := by
  unfold envid2env at h
  split at h
  · next h0 => exact Or.inl ⟨h0, (Option.some.inj h).symm⟩
  · next h0 =>
    simp only at h
    split at h
    · cases h
    · split at h
      · cases h
      · exact Or.inr ⟨h0, (Option.some.inj h).symm⟩

/-- `sys_getenvid()` names the caller. -/
theorem envid2env_self {b : Bool} (hi : Indexed e (k.envs e)) (hst : (k.envs e).envStatus ≠ .free)
    (h : envid2env k e (k.envs e).envId b = some e') : e' = e := by
  rcases envid2env_eq h with ⟨-, he⟩ | ⟨-, he⟩
  · exact he
  · rw [he, (hi hst).2]

namespace Calls

variable {id va perm src sva dst dva ret func : Word}

/-- A system call that returns. -/
theorem run {call : Call} (hc : Calls sys k e call ret k') (h : SysInv R none k) (hst : (k.envs e).envStatus ≠ .dying)
    {x : Kernel → Except Panic (Int × Kernel)}
    (hsys : ∀ k₀ c input, syscall k₀ c e input call.syscallno call.a1 call.a2 call.a3 call.a4 call.a5
      = Flow.ofRet <$> x k₀)
    (hret : ∀ k₀, Post (x k₀) fun y => -2147483648 ≤ y.1) :
    ∃ D l k₀ r k₁, OnlyTf k k₀ ∧ MemInv R D l k₀ ∧ x k₀ = .ok (r, k₁) ∧ 0 ≤ r ∧ ret = BitVec.ofInt 32 r ∧
      ((∀ i, (k₁.envs i).envPgdir ≠ none → i < NENV) → Rests k₁ k') := by
  obtain ⟨D, l, hmem⟩ := h.mem
  obtain ⟨c, a, hcur, hcall, hm⟩ := hc.machine
  obtain ⟨k₀, r, k₁, htf, hmem₀, hok, heax, hrest⟩ := hmem.toMemInv.exec_ret hm.enabled hcur hst hcall hm.exec
    (x := x) fun k₀ input => hsys k₀ c input
  have heax' : ret = BitVec.ofInt 32 r := hc.eax.symm.trans heax
  have hsucceeds := hc.succeeds
  rw [heax'] at hsucceeds
  exact ⟨D, l, k₀, r, k₁, htf, hmem₀, hok, eax_nonneg (hret k₀ _ hok) hsucceeds, heax', hrest⟩

/-- `sys_page_map`. -/
theorem map (hc : Calls sys k e (pageMapCall src sva dst dva perm) ret k') (h : SysInv R none k)
    (hst : (k.envs e).envStatus ≠ .dying) :
    ∃ i j, envid2env k e src true = some i ∧ envid2env k e dst true = some j ∧ present (k.pte i (PGNUM sva)) ∧
      ret = 0#32 ∧ Kept k k' ∧ Remaps k k' j (PGNUM dva) (mkPte (ppn (k.pte i (PGNUM sva))) perm) := by
  obtain ⟨D, l, k₀, r, k₁, htf, hmem₀, hok, hr, hret, hrest⟩ := hc.run h hst
    (x := fun k₀ => sysPageMap k₀ e src sva dst dva perm) (fun _ _ _ => rfl) fun _ => sysPageMap_ret
  obtain ⟨i, j, hi, hj, hP, rfl, hkept, hremaps⟩ := hmem₀.sysPageMap_remaps hok hr
  have hrest' := hrest fun i hi => h.dir_lt i (by rwa [hkept.pgdir, htf.pgdir] at hi)
  rw [htf.envid2env] at hi hj
  rw [(Kept.onlyTf htf).pte htf.pmap] at hP hremaps
  exact ⟨i, j, hi, hj, hP, hret, ((Kept.onlyTf htf).trans hkept).trans hrest'.toKept,
    hremaps.congr (.onlyTf htf) htf.pmap hrest'.toKept hrest'.pmap⟩

/-- `sys_page_alloc`. -/
theorem alloc (hc : Calls sys k e (pageAllocCall id va perm) ret k') (h : SysInv R none k)
    (hst : (k.envs e).envStatus ≠ .dying) (hva : va < UTOP) :
    ∃ i p, envid2env k e id true = some i ∧ p < 1048576 ∧
      (∀ e' v', v' < NUVPN → present (k.pte e' v') → ppn (k.pte e' v') ≠ p) ∧ ret = 0#32 ∧ Kept k k' ∧
      Remaps k k' i (PGNUM va) (mkPte p perm) := by
  obtain ⟨D, l, k₀, r, k₁, htf, hmem₀, hok, hr, hret, hrest⟩ := hc.run h hst
    (x := fun k₀ => sysPageAlloc k₀ e id va perm) (fun _ _ _ => rfl) fun _ => sysPageAlloc_ret
  obtain ⟨i, p, hi, hp, hfresh, rfl, hkept, hremaps⟩ := hmem₀.sysPageAlloc_remaps hva hok hr
  have hrest' := hrest fun i hi => h.dir_lt i (by rwa [hkept.pgdir, htf.pgdir] at hi)
  rw [htf.envid2env] at hi
  simp only [(Kept.onlyTf htf).pte htf.pmap] at hfresh
  exact ⟨i, p, hi, hp, hfresh, hret, ((Kept.onlyTf htf).trans hkept).trans hrest'.toKept,
    hremaps.congr (.onlyTf htf) htf.pmap hrest'.toKept hrest'.pmap⟩

/-- `sys_page_unmap`. -/
theorem unmap (hc : Calls sys k e (pageUnmapCall id va) ret k') (h : SysInv R none k)
    (hst : (k.envs e).envStatus ≠ .dying) :
    ∃ i w, envid2env k e id true = some i ∧ ¬ present w ∧ Kept k k' ∧ Remaps k k' i (PGNUM va) w := by
  obtain ⟨D, l, k₀, r, k₁, htf, hmem₀, hok, hr, hret, hrest⟩ := hc.run h hst
    (x := fun k₀ => sysPageUnmap k₀ e id va) (fun _ _ _ => rfl) fun _ => sysPageUnmap_ret
  obtain ⟨i, w, hi, hw, hkept, hremaps⟩ := hmem₀.sysPageUnmap_remaps hok hr
  have hrest' := hrest fun i hi => h.dir_lt i (by rwa [hkept.pgdir, htf.pgdir] at hi)
  rw [htf.envid2env] at hi
  exact ⟨i, w, hi, hw, ((Kept.onlyTf htf).trans hkept).trans hrest'.toKept,
    hremaps.congr (.onlyTf htf) htf.pmap hrest'.toKept hrest'.pmap⟩

/-- `sys_exofork`. -/
theorem exofork (hc : Calls sys k e exoforkCall ret k') (h : SysInv R none k)
    (hst : (k.envs e).envStatus ≠ .dying) :
    ∃ i, (k.envs i).envPgdir = none ∧ (k'.envs i).envStatus = .notRunnable ∧ ENVX ret = i ∧ ret ≠ 0#32 ∧
      (∀ j, j ≠ i → SameStatus k k' j) ∧ Remaps k k' i 0 0#32 := by
  have hge : ∀ k₀, Post (sysExofork k₀ e) fun y => -2147483648 ≤ y.1 := by
    intro k₀
    unfold sysExofork
    refine .bind' fun ⟨x, k₂⟩ _ => ?_
    cases x with
    | error r => exact .error _
    | ok i => exact .ok (BitVec.le_toInt _)
  obtain ⟨D, l, k₀, r, k₁, htf, hmem₀, hok, hr, hret, hrest⟩ := hc.run h hst
    (x := fun k₀ => sysExofork k₀ e) (fun _ _ _ => rfl) hge
  obtain ⟨i, hlt, hdir, -, hstatus, hothers, ⟨hne, hid⟩, rfl, hremaps⟩ := hmem₀.sysExofork_remaps hok
  have hrest' := hrest fun j hj => by
    by_cases hji : j = i
    · rw [hji]
      exact hlt
    · rw [hothers j hji] at hj
      exact h.dir_lt j (by rwa [htf.pgdir] at hj)
  rw [BitVec.ofInt_toInt] at hret
  refine ⟨i, by rw [← htf.pgdir, hdir], ?_, by rw [hret, hid], by rwa [hret], fun j hji => ?_,
    hremaps.congr (.onlyTf htf) htf.pmap hrest'.toKept hrest'.pmap⟩
  · rcases hrest'.status i with hst' | ⟨hst', -⟩
    · rw [hst', hstatus]
    · rw [hstatus] at hst'
      rcases hst' with hst' | hst' <;> cases hst'
  · refine (hrest'.status j).of_eq ?_
    rw [hothers j hji, htf.status]

/-- `sys_env_set_pgfault_upcall`. -/
theorem upcall (hc : Calls sys k e (upcallCall id func) ret k') (h : SysInv R none k)
    (hst : (k.envs e).envStatus ≠ .dying) : ret = 0#32 ∧ Rests k k' := by
  obtain ⟨D, l, k₀, r, k₁, htf, hmem₀, hok, hr, hret, hrest⟩ := hc.run h hst
    (x := fun k₀ => .ok (sysEnvSetPgfaultUpcall k₀ e id func)) (fun _ _ _ => rfl) fun k₀ => by
      rcases sysEnvSetPgfaultUpcall_cases k₀ e id func with heq | ⟨i, heq⟩
      · rw [heq]
        exact .ok codes_ge.2.1
      · rw [heq]
        exact .ok codes_ge.1
  have hok' := Except.ok.inj hok
  rcases sysEnvSetPgfaultUpcall_cases k₀ e id func with heq | ⟨i, heq⟩
  · obtain rfl := (Prod.mk.inj (heq.symm.trans hok')).1
    exact absurd hr (by decide)
  · obtain ⟨rfl, rfl⟩ := Prod.mk.inj (heq.symm.trans hok')
    have henv : ∀ j, ((k₀.setEnv i { k₀.envs i with envPgfaultUpcall := func }).envs j)
        = { k₀.envs j with envPgfaultUpcall := if j = i then func else (k₀.envs j).envPgfaultUpcall } := by
      intro j
      rw [setEnv_envs]
      split
      · next hj => rw [hj]
      · rfl
    have hrests : Rests k₀ (k₀.setEnv i { k₀.envs i with envPgfaultUpcall := func }) := by
      refine ⟨⟨fun j => ?_, fun j => ?_, fun j => Or.inl ?_⟩, rfl⟩
      · rw [henv]
      · rw [henv]
      · rw [henv]
    refine ⟨hret, ((Rests.onlyTf htf).trans hrests).trans (hrest fun j hj => h.dir_lt j ?_)⟩
    rwa [hrests.pgdir, htf.pgdir] at hj

/-- `sys_env_set_status`. -/
theorem status (hc : Calls sys k e (statusCall id) ret k') (h : SysInv R none k)
    (hst : (k.envs e).envStatus ≠ .dying) :
    ∃ i, envid2env k e id true = some i ∧ ret = 0#32 ∧ k'.pmap = k.pmap ∧
      (∀ j, (k'.envs j).envPgdir = (k.envs j).envPgdir) ∧
      ((k'.envs i).envStatus = .runnable ∨ (k'.envs i).envStatus = .running) ∧ ∀ j, j ≠ i → SameStatus k k' j := by
  obtain ⟨D, l, k₀, r, k₁, htf, hmem₀, hok, hr, hret, hrest⟩ := hc.run h hst
    (x := fun k₀ => .ok (sysEnvSetStatus k₀ e id ENV_RUNNABLE)) (fun _ _ _ => rfl) fun k₀ => by
      rcases sysEnvSetStatus_cases k₀ e id with heq | ⟨i, -, heq⟩
      · rw [heq]
        exact .ok codes_ge.2.1
      · rw [heq]
        exact .ok codes_ge.1
  have hok' := Except.ok.inj hok
  rcases sysEnvSetStatus_cases k₀ e id with heq | ⟨i, hi, heq⟩
  · obtain rfl := (Prod.mk.inj (heq.symm.trans hok')).1
    exact absurd hr (by decide)
  · obtain ⟨rfl, rfl⟩ := Prod.mk.inj (heq.symm.trans hok')
    have hdir : ∀ j, ((k₀.setStatus i .runnable).envs j).envPgdir = (k₀.envs j).envPgdir := by
      intro j
      rw [setStatus_envs]
      split
      · next hj => rw [hj]
      · rfl
    have hrest' := hrest fun j hj => h.dir_lt j (by rwa [hdir, htf.pgdir] at hj)
    refine ⟨i, by rwa [htf.envid2env] at hi, hret, hrest'.pmap.trans htf.pmap, fun j => ?_, ?_, fun j hj => ?_⟩
    · rw [hrest'.pgdir, hdir, htf.pgdir]
    · rcases hrest'.status i with hst' | ⟨-, hst'⟩
      · rw [hst', setStatus_envs, if_pos rfl]
        exact Or.inl rfl
      · exact hst'
    · refine (hrest'.status j).of_eq ?_
      rw [setStatus_envs, if_neg hj, htf.status]

end Calls

/-! ## Safety -/

theorem card_dirsOf_le (k : Kernel) : (dirsOf k).card ≤ NENV := by
  unfold dirsOf
  refine (Finset.card_biUnion_le_card_mul _ _ 1 fun e _ => ?_).trans ?_
  · cases (k.envs e).envPgdir with
    | none => exact Nat.zero_le _
    | some d => exact (Finset.card_singleton d).le
  · rw [Finset.card_range, Nat.mul_one]

/-- A page that is mapped as page `v` only is mapped at most once for each environment. -/
theorem roomFor_of_place (h : ∀ e' v', v' < NUVPN → present (k.pte e' v') → ppn (k.pte e' v') = p → v' = v) :
    RoomFor k p := by
  have hsub : ((dirsOf k ×ˢ Finset.range NUVPN).filter fun x => named (pteOf k.pmap x.1 x.2) = some p)
      ⊆ dirsOf k ×ˢ {v} := by
    intro x hx
    obtain ⟨hmem, hnamed⟩ := Finset.mem_filter.mp hx
    obtain ⟨hd, hv⟩ := Finset.mem_product.mp hmem
    obtain ⟨hP, hp⟩ := named_eq_some.mp hnamed
    obtain ⟨e', -, hdir⟩ := mem_dirsOf.mp hd
    rw [← pte_eq hdir] at hP hp
    exact Finset.mem_product.mpr ⟨hd, Finset.mem_singleton.mpr (h e' x.2 (Finset.mem_range.mp hv) hP hp)⟩
  have hcard := (Finset.card_le_card hsub).trans_eq (Finset.card_product _ _)
  rw [Finset.card_singleton, Nat.mul_one] at hcard
  have hlt : NENV < 65535 := by decide
  exact (hcard.trans (card_dirsOf_le k)).trans_lt hlt

namespace Calls

variable {id va perm src sva dst dva ret func : Word} {call : Call}

/-- A safe call keeps the invariant of the kernel. -/
theorem sysInv (hc : Calls sys k e call ret k') (h : SysInv R none k) (hi : ∀ e, Indexed e (k.envs e))
    (hm : MemSafe k e call) (hst : ∀ c, StatusSafe k c e call) :
    SysInv R none k' ∧ ∀ e, Indexed e (k'.envs e) := by
  obtain ⟨c, a, hcur, hcall, hmach⟩ := hc.machine
  exact ⟨hmach.sysInv h (safe_call hcur hcall hm (hst c)), hmach.indexed h hi⟩

/-- A call that is not about the status of an environment. -/
theorem statusSafe (hno : call.syscallno ≠ SYS_env_destroy ∧ call.syscallno ≠ SYS_env_set_status ∧
    call.syscallno ≠ SYS_ipc_try_send) (c : Nat) : StatusSafe k c e call :=
  ⟨fun hc => absurd hc hno.1, fun hc => absurd hc hno.2.1, fun hc => absurd hc hno.2.2⟩

/-- A call that maps no page. -/
theorem memSafe (hno : call.syscallno ≠ SYS_page_alloc ∧ call.syscallno ≠ SYS_page_map ∧
    call.syscallno ≠ SYS_ipc_try_send) : MemSafe k e call :=
  ⟨⟨fun hc => absurd hc hno.2.1, fun hc => absurd hc hno.2.2⟩, fun hc => absurd hc hno.1, fun hc => absurd hc hno.2.2⟩

/-- A call that neither maps a page nor changes the status of an environment. -/
theorem harmless_sysInv (hc : Calls sys k e call ret k') (h : SysInv R none k) (hi : ∀ e, Indexed e (k.envs e))
    {m : Word} (hno : call.syscallno = m) (hm : m ≠ SYS_page_alloc ∧ m ≠ SYS_page_map ∧ m ≠ SYS_ipc_try_send)
    (hst : m ≠ SYS_env_destroy ∧ m ≠ SYS_env_set_status) : SysInv R none k' ∧ ∀ e, Indexed e (k'.envs e) := by
  subst hno
  exact hc.sysInv h hi (memSafe hm) (statusSafe ⟨hst.1, hst.2, hm.2.2⟩)

theorem alloc_sysInv (hc : Calls sys k e (pageAllocCall id va perm) ret k') (h : SysInv R none k)
    (hi : ∀ e, Indexed e (k.envs e)) (hva : va < UTOP) : SysInv R none k' ∧ ∀ e, Indexed e (k'.envs e) := by
  have hmap : SYS_page_alloc ≠ SYS_page_map := by decide
  have hsend : SYS_page_alloc ≠ SYS_ipc_try_send := by decide
  have hstatus : SYS_page_alloc ≠ SYS_env_destroy ∧ SYS_page_alloc ≠ SYS_env_set_status := by decide
  refine hc.sysInv h hi ⟨⟨fun hc => absurd hc hmap, fun hc => absurd hc hsend⟩, fun _ => ?_,
    fun hc => absurd hc hsend⟩ (statusSafe ⟨hstatus.1, hstatus.2, hsend⟩)
  rintro ⟨_, _, heq, -⟩
  obtain ⟨-, rfl, -⟩ := MapCall.pageAlloc.inj heq
  exact absurd hva (BitVec.lt_irrefl _)

/-- A page that is mapped in one place only can be shared. -/
theorem map_sysInv (hc : Calls sys k e (pageMapCall src sva dst dva perm) ret k') (h : SysInv R none k)
    (hi : ∀ e, Indexed e (k.envs e)) {i : Nat} (hsrc : envid2env k e src true = some i)
    (hplace : ∀ e' v', v' < NUVPN → present (k.pte e' v') → ppn (k.pte e' v') = ppn (k.pte i (PGNUM sva)) → v' = v) :
    SysInv R none k' ∧ ∀ e, Indexed e (k'.envs e) := by
  have halloc : SYS_page_map ≠ SYS_page_alloc := by decide
  have hsend : SYS_page_map ≠ SYS_ipc_try_send := by decide
  have hstatus : SYS_page_map ≠ SYS_env_destroy ∧ SYS_page_map ≠ SYS_env_set_status := by decide
  refine hc.sysInv h hi ⟨⟨fun _ src' dst' sd dd ha => ?_, fun hc => absurd hc hsend⟩, fun hc => absurd hc halloc,
    fun hc => absurd hc hsend⟩ (statusSafe ⟨hstatus.1, hstatus.2, hsend⟩)
  obtain rfl := Option.some.inj (hsrc.symm.trans ha.srcenv)
  rw [← pte_eq ha.srcdir]
  exact roomFor_of_place hplace

/-- A child that nobody runs can be made runnable. -/
theorem status_sysInv (hc : Calls sys k e (statusCall id) ret k') (h : SysInv R none k)
    (hi : ∀ e, Indexed e (k.envs e))
    (hidle : ∀ j, envid2env k e id true = some j → (k.envs j).envStatus = .notRunnable) :
    SysInv R none k' ∧ ∀ e, Indexed e (k'.envs e) := by
  have hno : SYS_env_set_status ≠ SYS_page_alloc ∧ SYS_env_set_status ≠ SYS_page_map ∧
      SYS_env_set_status ≠ SYS_ipc_try_send ∧ SYS_env_set_status ≠ SYS_env_destroy := by decide
  refine hc.sysInv h hi (memSafe ⟨hno.1, hno.2.1, hno.2.2.1⟩) fun c =>
    ⟨fun hc => absurd hc hno.2.2.2, fun _ _ j hj => ?_, fun hc => absurd hc hno.2.2.1⟩
  rintro ⟨c', -, hcur⟩
  have hst := h.cpus.status c' j (fun hc => by cases hc) hcur
  rw [hidle j hj] at hst
  rcases hst with hst | hst
  · cases hst
  · cases hst

end Calls

/-- These steps are safe. -/
theorem Quiet.safe {a : Action} (hq : Quiet k a) : Safe k a := by
  cases a with
  | trap c gate faultVa input tf =>
    intro hno cur _
    obtain ⟨-, hq⟩ := hq
    rw [hno] at hq
    have htimer : T_SYSCALL ≠ IRQ_OFFSET + IRQ_TIMER := by decide
    have hspurious : T_SYSCALL ≠ IRQ_OFFSET + IRQ_SPURIOUS := by decide
    rcases hq with hq | hq | ⟨-, hq⟩
    · exact absurd hq htimer
    · exact absurd hq hspurious
    · rcases hq with hq | hq | hq
      all_goals
        refine ⟨Calls.memSafe ?_, Calls.statusSafe ?_ c⟩
        · rw [hq]
          decide
        · rw [hq]
          decide
  | store c va b => exact hq.elim
  | irq c gate trapno => trivial
  | start c => trivial

end Jos
