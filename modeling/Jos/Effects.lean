import Jos.Machine

/-!
# What kernel entries change

Every kernel entry is put together from a few changes of the state: memory changes within its invariant,
a message is delivered, an environment is made, freed, dispatched, or gets another status. The lemmas here
say which of these a call that succeeds has made. They assume the invariant of the memory and nothing about
the status of environments, and `MemSafe` of the calls that edit page tables.
-/

namespace Jos

open Pmap Kernel

variable {R : Set Nat} {D : Finset Nat} {l : List Nat} {k k' : Kernel} {c e cur d p : Nat}

/-! ## Counting mappings -/

theorem MemInv.dirsOf_eq (h : MemInv R D l k) : dirsOf k = D := by
  ext d
  rw [mem_dirsOf]
  constructor
  · rintro ⟨e, -, hpg⟩
    exact h.envs.dir e d hpg
  · intro hd
    obtain ⟨e, hpg⟩ := h.envs.owner d hd
    exact ⟨e, h.envs.lt e d hpg, hpg⟩

theorem MemInv.memState (h : MemInv R D l k) : PmapInv R k.memState.dirs l k.memState.pmap := by
  have hD : k.memState.dirs = D := h.dirsOf_eq
  rw [hD]
  exact h.pmap

theorem MemInv.ref_of_room (h : MemInv R D l k) {va : Word} (hd : d ∈ D) (hva : va < UTOP)
    (hP : present (pteOf k.pmap d (PGNUM va)))
    (hroom : RoomFor k (ppn (pteOf k.pmap d (PGNUM va)))) :
    (k.pmap.pages (ppn (pteOf k.pmap d (PGNUM va)))).ppRef.toNat ≠ 65535 := by
  have hd' : d ∈ k.memState.dirs := by
    rw [Kernel.memState, h.dirsOf_eq]
    exact hd
  have href := PmapInv.ref_eq_mappings (m := k.memState) h.memState hd' (PGNUM_lt_NUVPN hva) hP
  exact fun hc => absurd (href.symm.trans hc) (Nat.ne_of_lt hroom)

/-! ## Memory -/

/-- Only the memory has changed, within its invariant. -/
structure PmapStep (R : Set Nat) (D : Finset Nat) (k k' : Kernel) : Prop where
  inv : ∃ l, PmapInv R D l k'.pmap
  rest : k' = { k with pmap := k'.pmap }

theorem MemInv.stay (h : MemInv R D l k) : PmapStep R D k k := ⟨⟨l, h.pmap⟩, rfl⟩

theorem PmapStep.memInv (hs : PmapStep R D k k') (h : MemInv R D l k) :
    ∃ l', MemInv R D l' k' := by
  obtain ⟨l', hinv⟩ := hs.inv
  refine ⟨l', ?_⟩
  rw [hs.rest]
  exact h.withPmap hinv

theorem PmapStep.envs (hs : PmapStep R D k k') : k'.envs = k.envs := by rw [hs.rest]
theorem PmapStep.cpus (hs : PmapStep R D k k') : k'.cpus = k.cpus := by rw [hs.rest]
theorem PmapStep.log (hs : PmapStep R D k k') : k'.log = k.log := by rw [hs.rest]

section Calls

variable {envid va perm srcenvid srcva dstenvid dstva value : Word} {r : Int}

/-- A successful result is the one that was computed. -/
private theorem eq_of_ok {x y : Int × Kernel} {code : Except Panic (Int × Kernel)}
    (h : code = .ok x) (hok : code = .ok y) : x = y := by
  rw [h] at hok
  exact Except.ok.inj hok

private theorem sysPageAlloc_orphan {s : Pmap} (ha : PageAllocArgs k cur e envid va perm)
    (hpg : (k.envs e).envPgdir = none) (hp : pageAlloc k.pmap true = .ok (some p, s)) :
    sysPageAlloc k cur envid va perm = .error .kernelFault := by
  obtain ⟨he, hva, hal, hperm⟩ := ha
  rw [sysPageAlloc, he]
  simp only
  rw [if_neg (not_or.mpr ⟨hva, not_not.mpr hal⟩), if_neg (not_not.mpr hperm), hp]
  simp only [Except.ok_bind, pgdirOf_none hpg, Except.error_bind]

/-- `sys_page_alloc` below `UTOP` changes nothing, clears the last free page, or maps a fresh one. -/
theorem MemInv.sysPageAlloc_cases (h : MemInv R D l k)
    (hno : ¬ AllocAtUTOP k cur (.pageAlloc envid va perm))
    (hok : sysPageAlloc k cur envid va perm = .ok (r, k')) :
    (r < 0 ∧ k' = k) ∨ (r < 0 ∧ ∃ p, l = [p] ∧ k' = { k with pmap := k.pmap.clearPage p }) ∨
    ∃ e d p l₁ l' s, PageAllocArgs k cur e envid va perm ∧ (k.envs e).envPgdir = some d ∧ va < UTOP ∧
      l = p :: l₁ ∧ Inserted R D l₁ (k.pmap.fresh p) d p va perm s ∧ PmapInv R D l' s ∧ r = 0 ∧
      k' = { k with pmap := s } := by
  by_cases harg : ∀ e, ¬ PageAllocArgs k cur e envid va perm
  · obtain ⟨r', hr', hcode⟩ := sysPageAlloc_refused harg
    cases eq_of_ok hcode hok
    exact Or.inl ⟨hr', rfl⟩
  push Not at harg
  obtain ⟨e, ha⟩ := harg
  cases l with
  | nil =>
    cases eq_of_ok (h.sysPageAlloc_noMem ha) hok
    exact Or.inl ⟨by decide, rfl⟩
  | cons p l =>
    have hva : va < UTOP := by
      by_contra hva
      obtain rfl := eq_UTOP ha.2.1 hva
      refine hno ⟨envid, perm, rfl, ?_, ha.2.2.2, ?_⟩
      · rw [ha.1]
        exact nofun
      · rw [h.pmap.free.head_some]
        exact nofun
    cases hpg : (k.envs e).envPgdir with
    | none =>
      rw [sysPageAlloc_orphan ha hpg h.pmap.pageAlloc_fresh] at hok
      cases hok
    | some d =>
      rcases h.sysPageAlloc_below ha (h.envs.dir _ _ hpg) hpg hva with
        ⟨s, l', hcode, hins, hinv⟩ | ⟨rfl, hcode⟩
      · cases eq_of_ok hcode hok
        exact Or.inr (Or.inr ⟨e, d, p, l, l', s, ha, hpg, hva, rfl, hins, hinv, rfl, rfl⟩)
      · cases eq_of_ok hcode hok
        exact Or.inr (Or.inl ⟨by decide, p, rfl, rfl⟩)

theorem MemInv.sysPageAlloc_step (h : MemInv R D l k)
    (hno : ¬ AllocAtUTOP k cur (.pageAlloc envid va perm))
    (hok : sysPageAlloc k cur envid va perm = .ok (r, k')) : PmapStep R D k k' := by
  rcases h.sysPageAlloc_cases hno hok with
    ⟨-, rfl⟩ | ⟨-, p, rfl, rfl⟩ | ⟨e, d, p, l₁, l', s, -, -, -, -, -, hinv, -, rfl⟩
  · exact h.stay
  · exact ⟨⟨[p], h.pmap.clearPage h.pmap.head_managed h.pmap.head_ref⟩, rfl⟩
  · exact ⟨⟨l', hinv⟩, rfl⟩

theorem MemInv.sysPageMap_step (h : MemInv R D l k)
    (hroom : ∀ src dst sd dd, PageMapArgs k cur src dst srcenvid srcva dstenvid dstva perm sd dd →
      RoomFor k (ppn (pteOf k.pmap sd (PGNUM srcva))))
    (hok : sysPageMap k cur srcenvid srcva dstenvid dstva perm = .ok (r, k')) :
    PmapStep R D k k' := by
  rcases h.sysPageMap_cases cur srcenvid srcva dstenvid dstva perm with
    ⟨r', -, hcode⟩ | ⟨src, dst, sd, dd, s, ha, hsd, hdd, hcode, -, hinv⟩ | ⟨-, hcode⟩
  · cases eq_of_ok hcode hok
    exact h.stay
  · cases eq_of_ok hcode hok
    exact ⟨hinv (h.ref_of_room hsd ha.src_lt ha.page.1 (hroom src dst sd dd ha)), rfl⟩
  · rw [hcode] at hok
    cases hok

theorem MemInv.sysPageUnmap_step (h : MemInv R D l k)
    (hok : sysPageUnmap k cur envid va = .ok (r, k')) : PmapStep R D k k' := by
  rcases h.sysPageUnmap_cases cur envid va with
    ⟨r', -, hcode⟩ | ⟨e, d, -, hva, -, hd, -, ⟨-, hcode⟩ | ⟨hP, hcode⟩⟩ | ⟨-, hcode⟩
  · cases eq_of_ok hcode hok
    exact h.stay
  · cases eq_of_ok hcode hok
    exact h.stay
  · cases eq_of_ok hcode hok
    exact ⟨⟨_, h.pmap.unmap hd hva hP⟩, rfl⟩
  · rw [hcode] at hok
    cases hok

/-- A send fails and changes nothing, or delivers a message. -/
theorem MemInv.sysIpcTrySend_step (h : MemInv R D l k)
    (hbelow : ∀ e sd dd, SendPageArgs k cur e envid srcva perm sd dd →
      (k.envs e).envIpcDstva < UTOP)
    (hroom : ∀ e sd dd, SendPageArgs k cur e envid srcva perm sd dd →
      RoomFor k (ppn (pteOf k.pmap sd (PGNUM srcva))))
    (hok : sysIpcTrySend k cur envid value srcva perm = .ok (r, k')) :
    k' = k ∨ ∃ e k₁ perm', envid2env k cur envid false = some e ∧
      (k.envs e).envIpcRecving = true ∧
      (srcva < UTOP → ∃ sd dd, SendPageArgs k cur e envid srcva perm sd dd) ∧
      PmapStep R D k k₁ ∧ k' = deliver k₁ cur e value perm' := by
  rcases h.sysIpcTrySend_cases cur envid value srcva perm with
    ⟨r', -, hcode⟩ | ⟨e, he, hr, ⟨hsrc, hcode⟩ | ⟨sd, hsd, dd, hdd, ha, hins⟩⟩ | ⟨-, hcode⟩
  · cases eq_of_ok hcode hok
    exact Or.inl rfl
  · cases eq_of_ok hcode hok
    exact Or.inr ⟨e, k, 0#32, he, hr, fun hc => absurd hc hsrc, h.stay, rfl⟩
  · obtain ⟨s, hcode, -, hinv⟩ := hins (hbelow e sd dd ha)
    cases eq_of_ok hcode hok
    refine Or.inr ⟨e, { k with pmap := s }, perm, he, hr, fun _ => ⟨sd, dd, ha⟩,
      ⟨?_, rfl⟩, rfl⟩
    exact hinv (h.ref_of_room hsd ha.src_lt ha.page.1 (hroom e sd dd ha))
  · rw [hcode] at hok
    cases hok

end Calls

/-! ## Environments -/

/-- The state after `sys_exofork` by `cur` has made environment `e` with directory `p`. -/
def Kernel.forks (k : Kernel) (cur e p : Nat) : Kernel :=
  let k' := k.newEnv e p (k.pmap.newDir p) (k.envs cur).envId
  let tf := (k'.envs cur).envTf
  k'.setEnv e { k'.envs e with
    envStatus := .notRunnable
    envTf := { tf with regs := { tf.regs with eax := 0#32 } } }

/-- `sys_exofork` panics or makes an environment. -/
theorem MemInv.sysExofork_step (h : MemInv R D l k) {r : Int}
    (hok : sysExofork k cur = .ok (r, k')) : ∃ e p l', k.envFreeList = some e ∧ e < NENV ∧
      (k.envs e).envPgdir = none ∧ l = p :: l' ∧ k' = k.forks cur e p ∧
      MemInv R (insert p D) l' k' := by
  unfold sysExofork at hok
  rcases h.envAlloc_cases (k.envs cur).envId with
    ⟨e, p, l', hhead, hlt, hpg, hl, hcode, hinv⟩ | ⟨-, err, hcode⟩
  · simp only [hcode, Except.ok_bind, Except.pure_eq, Except.ok.injEq, Prod.mk.injEq] at hok
    obtain rfl : k.forks cur e p = k' := hok.2
    refine ⟨e, p, l', hhead, hlt, hpg, hl, rfl, hinv.congr (.setEnv rfl rfl) rfl⟩
  · simp only [hcode, Except.ok_bind] at hok
    cases hok

theorem MemInv.envFree_step (h : MemInv R D l k) (hok : envFree k c e = .ok k') :
    ∃ d s l', (k.envs e).envPgdir = some d ∧ k' = k.freeEnv c e s ∧
      MemInv R (D.erase d) l' k' := by
  cases hpg : (k.envs e).envPgdir with
  | none =>
    simp only [envFree, record_envs, hpg] at hok
    cases hok
  | some d =>
    obtain ⟨s, l', hcode, hinv, -⟩ := h.envFree_spec hpg c
    rw [hcode] at hok
    obtain rfl : k.freeEnv c e s = k' := Except.ok.inj hok
    exact ⟨d, s, l', rfl, rfl, hinv⟩

/-! ## Registers -/

/-- Only registers saved in environments have changed. -/
structure OnlyTf (k k' : Kernel) : Prop where
  envs : ∀ i, ∃ tf, k'.envs i = { k.envs i with envTf := tf }
  pmap : k'.pmap = k.pmap
  list : k'.envFreeList = k.envFreeList
  cpus : k'.cpus = k.cpus
  log : k'.log = k.log

namespace OnlyTf

theorem setEnv (k : Kernel) (e : Nat) (tf : Trapframe) :
    OnlyTf k (k.setEnv e { k.envs e with envTf := tf }) := by
  refine ⟨fun i => ?_, rfl, rfl, rfl, rfl⟩
  rw [setEnv_envs]
  split
  · next hi =>
    subst hi
    exact ⟨tf, rfl⟩
  · exact ⟨(k.envs i).envTf, rfl⟩

theorem setEax (k : Kernel) (e : Nat) (r : Int) : OnlyTf k (setEax k e r) := setEnv k e _

variable (h : OnlyTf k k') (i : Nat)
include h

theorem status : (k'.envs i).envStatus = (k.envs i).envStatus := by
  obtain ⟨tf, htf⟩ := h.envs i
  rw [htf]

theorem pgdir : (k'.envs i).envPgdir = (k.envs i).envPgdir := by
  obtain ⟨tf, htf⟩ := h.envs i
  rw [htf]

theorem recving : (k'.envs i).envIpcRecving = (k.envs i).envIpcRecving := by
  obtain ⟨tf, htf⟩ := h.envs i
  rw [htf]

theorem dstva : (k'.envs i).envIpcDstva = (k.envs i).envIpcDstva := by
  obtain ⟨tf, htf⟩ := h.envs i
  rw [htf]

omit i

theorem sameDirs : SameDirs k k' where
  link i := by
    obtain ⟨tf, htf⟩ := h.envs i
    rw [htf]
  pgdir := h.pgdir
  list := h.list

theorem envid2env (cur : Nat) (envid : Word) (checkperm : Bool) :
    envid2env k' cur envid checkperm = envid2env k cur envid checkperm := by
  have hid : ∀ i, (k'.envs i).envId = (k.envs i).envId := fun i => by
    obtain ⟨tf, htf⟩ := h.envs i
    rw [htf]
  have hpar : ∀ i, (k'.envs i).envParentId = (k.envs i).envParentId := fun i => by
    obtain ⟨tf, htf⟩ := h.envs i
    rw [htf]
  simp only [Jos.envid2env, h.status, hid, hpar]

theorem roomFor {p : Nat} : RoomFor k' p ↔ RoomFor k p := by
  have hdirs : dirsOf k' = dirsOf k := by
    ext d
    simp only [mem_dirsOf, h.pgdir]
  simp only [RoomFor, Kernel.memState, hdirs, h.pmap]

theorem pageMapArgs {cur src dst sd dd : Nat} {srcenvid srcva dstenvid dstva perm : Word} :
    PageMapArgs k' cur src dst srcenvid srcva dstenvid dstva perm sd dd ↔
      PageMapArgs k cur src dst srcenvid srcva dstenvid dstva perm sd dd := by
  simp only [pageMapArgs_iff, h.envid2env, h.pgdir, h.pmap]

theorem sendPageArgs {cur e sd dd : Nat} {envid srcva perm : Word} :
    SendPageArgs k' cur e envid srcva perm sd dd ↔ SendPageArgs k cur e envid srcva perm sd dd := by
  simp only [sendPageArgs_iff, h.envid2env, h.pgdir, h.pmap, h.recving]

theorem allocAtUTOP {cur : Nat} {call : MapCall} :
    AllocAtUTOP k' cur call ↔ AllocAtUTOP k cur call := by
  simp only [AllocAtUTOP, h.envid2env, h.pmap]

theorem memSafe {cur : Nat} {call : Call} (hs : MemSafe k cur call) : MemSafe k' cur call where
  map hno src dst sd dd ha := by
    rw [h.roomFor, h.pmap]
    exact hs.map hno src dst sd dd (h.pageMapArgs.mp ha)
  send hno e sd dd ha := by
    rw [h.roomFor, h.pmap]
    exact hs.send hno e sd dd (h.sendPageArgs.mp ha)
  alloc hno hc := hs.alloc hno (h.allocAtUTOP.mp hc)
  below hno e sd dd ha := by
    rw [h.dstva]
    exact hs.below hno e sd dd (h.sendPageArgs.mp ha)

theorem statusSafe {c cur : Nat} {call : Call} (hs : StatusSafe k c cur call) :
    StatusSafe k' c cur call := by
  have hcur : ∀ i, k'.curenv i = k.curenv i := fun i => by rw [Kernel.curenv, h.cpus]; rfl
  refine ⟨?_, ?_, ?_⟩
  · simp only [h.envid2env, h.status]
    exact hs.destroy
  · simp only [h.envid2env, RunsElsewhere, hcur]
    exact hs.setStatus
  · simp only [h.envid2env, h.recving, h.sendPageArgs, RunsElsewhere, hcur]
    exact hs.send

end OnlyTf

/-! ## Scheduling -/

theorem envRun_ok {f : Flow} (hok : envRun k c e = .ok f) :
    (∃ d, (k.envs e).envPgdir = some d) ∧ f = .left (k.runs c e) := by
  cases hpg : (k.envs e).envPgdir with
  | some d =>
    rw [envRun_eq hpg] at hok
    exact ⟨⟨d, rfl⟩, (Except.ok.inj hok).symm⟩
  | none =>
    rw [envRun_null hpg] at hok
    cases hok

/-- What `sched_yield` does, as long as only slots of the table have directories. -/
theorem schedYield_ok (hlt : ∀ e, (k.envs e).envPgdir ≠ none → e < NENV) {f : Flow}
    (hok : schedYield k c = .ok f) :
    (∃ e, Dispatchable k c e ∧ f = .left (k.runs c e)) ∨
    (NoRunnable k ∧ (∀ e, k.curenv c = some e → (k.envs e).envStatus ≠ .running) ∧
      f = .left (k.halts c)) ∨
    f = .monitor k := by
  unfold schedYield at hok
  split at hok
  · next e hpick =>
    obtain ⟨hlt, hst⟩ := schedPick_some hpick
    exact Or.inl ⟨e, ⟨hlt, Or.inl hst⟩, (envRun_ok hok).2⟩
  · next hpick =>
    have hno := schedPick_none hpick
    split at hok
    · next cur hcur =>
      split at hok
      · next hrun =>
        obtain ⟨⟨d, hpg⟩, rfl⟩ := envRun_ok hok
        have hcurlt := hlt cur (by rw [hpg]; exact nofun)
        exact Or.inl ⟨cur, ⟨hcurlt, Or.inr ⟨hcur, hrun, hno⟩⟩, rfl⟩
      · next hrun =>
        rcases schedHalt_cases (c := c) hno with ⟨-, hh⟩ | ⟨-, hh⟩
        · rw [hh] at hok
          refine Or.inr (Or.inl ⟨hno, ?_, (Except.ok.inj hok).symm⟩)
          intro e he
          obtain rfl : cur = e := Option.some.inj (hcur.symm.trans he)
          exact hrun
        · rw [hh] at hok
          exact Or.inr (Or.inr (Except.ok.inj hok).symm)
    · next hcur =>
      rcases schedHalt_cases (c := c) hno with ⟨-, hh⟩ | ⟨-, hh⟩
      · rw [hh] at hok
        refine Or.inr (Or.inl ⟨hno, ?_, (Except.ok.inj hok).symm⟩)
        intro e he
        rw [hcur] at he
        cases he
      · rw [hh] at hok
        exact Or.inr (Or.inr (Except.ok.inj hok).symm)

/-! ## Leaving the kernel -/

/-- Where a kernel function leaves the state: in `Mid` if it returns, in `Out` if the CPU leaves the
kernel. -/
def Flow.Sat (Mid Out : Kernel → Prop) : Flow → Prop
  | .ret _ k => Mid k
  | .left k => Out k
  | .monitor _ => True

/-- CPU `c` may give itself to environment `e`. -/
def CanRun (k : Kernel) (c e : Nat) : Prop :=
  e < NENV ∧ ((k.envs e).envStatus = .runnable ∨
    (k.curenv c = some e ∧ (k.envs e).envStatus = .running))

theorem Dispatchable.canRun (h : Dispatchable k c e) : CanRun k c e := by
  refine ⟨h.1, ?_⟩
  rcases h.2 with hst | ⟨hcur, hst, -⟩
  · exact Or.inl hst
  · exact Or.inr ⟨hcur, hst⟩

/-- A trap that nobody expects: `trap_dispatch` destroys the environment. -/
def Unexpected (trapno : Nat) : Prop :=
  trapno ≠ T_PGFLT ∧ trapno ≠ T_BRKPT ∧ trapno ≠ T_SYSCALL ∧ trapno ≠ IRQ_OFFSET + IRQ_SPURIOUS ∧
    trapno ≠ IRQ_OFFSET + IRQ_TIMER

/-- The two ways out of the kernel lead CPU `c` from `Mid` to `Out`, and `Mid` says nothing about registers. -/
structure LeaveRules (c : Nat) (Mid Out : Kernel → Prop) : Prop where
  lt : ∀ k, Mid k → ∀ e, (k.envs e).envPgdir ≠ none → e < NENV
  onlyTf : ∀ k k', Mid k → OnlyTf k k' → Mid k'
  run : ∀ k e, Mid k → CanRun k c e → Out (k.runs c e)
  halt : ∀ k, Mid k → (∀ e, k.curenv c = some e → (k.envs e).envStatus ≠ .running) → Out (k.halts c)

namespace LeaveRules

open Except

variable {Mid Out : Kernel → Prop} {f : Flow}

theorem schedYield (h : LeaveRules c Mid Out) (hk : Mid k) :
    Post (schedYield k c) (Flow.Sat Mid Out) := by
  intro f hok
  rcases schedYield_ok (h.lt k hk) hok with ⟨e, hd, rfl⟩ | ⟨-, hst, rfl⟩ | rfl
  · exact h.run k e hk hd.canRun
  · exact h.halt k hk hst
  · trivial

/-- `env_run(curenv)`. -/
theorem envRun (h : LeaveRules c Mid Out) (hk : Mid k) (hcur : k.curenv c = some e)
    (hst : (k.envs e).envStatus = .running) : Post (envRun k c e) (Flow.Sat Mid Out) := by
  intro f hok
  obtain ⟨⟨d, hpg⟩, rfl⟩ := envRun_ok hok
  exact h.run k e hk ⟨h.lt k hk e (by rw [hpg]; exact nofun), Or.inr ⟨hcur, hst⟩⟩

theorem trapReturn (h : LeaveRules c Mid Out) (hk : Mid k) :
    Post (trapReturn k c) (Flow.Sat Mid Out) := by
  unfold Jos.trapReturn
  split
  · next cur hcur =>
    split
    · next hst => exact h.envRun hk hcur hst
    · exact h.schedYield hk
  · exact h.schedYield hk

/-- The cases of `trap_dispatch`: page faults, system calls and traps that destroy the environment. -/
theorem trapDispatch (h : LeaveRules c Mid Out) (hk : Mid k) {faultVa input : Word} {tf : Trapframe}
    (hpf : tf.trapno = T_PGFLT → Post (pageFaultHandler k c faultVa tf) (Flow.Sat Mid Out))
    (hsys : tf.trapno = T_SYSCALL → ∀ cur, k.curenv c = some cur →
      Post (syscallOf k c cur input tf.regs) (Flow.Sat Mid Out))
    (hdestroy : Unexpected tf.trapno → ∀ cur, k.curenv c = some cur →
      Post (envDestroy k c cur) (Flow.Sat Mid Out)) :
    Post (trapDispatch k c faultVa input tf) (Flow.Sat Mid Out) := by
  unfold Jos.trapDispatch
  split
  · next hno => exact hpf hno
  next hpgflt =>
  split
  · exact .ok trivial
  next hbrkpt =>
  split
  · next hno =>
    split
    · exact .error _
    · next cur hcur =>
      refine (hsys hno cur hcur).bind fun f hf => ?_
      cases f with
      | ret r k₁ => exact .ok (h.onlyTf k₁ _ hf (.setEax k₁ cur r))
      | left k₁ => exact .ok hf
      | monitor k₁ => exact .ok trivial
  next hcall =>
  split
  · exact .ok hk
  next hspurious =>
  split
  · exact h.schedYield hk
  next htimer =>
  split
  · exact .error _
  split
  · exact .error _
  · next cur hcur => exact hdestroy ⟨hpgflt, hbrkpt, hcall, hspurious, htimer⟩ cur hcur

/-- After the handler, the kernel is left. -/
theorem trapBody (h : LeaveRules c Mid Out) {faultVa input : Word} {tf : Trapframe}
    (hd : Post (Jos.trapDispatch k c faultVa input tf) (Flow.Sat Mid Out)) :
    Post (trapBody k c faultVa input tf) (Flow.Sat Mid Out) := by
  refine hd.bind fun f hf => ?_
  cases f with
  | ret r k => exact h.trapReturn hf
  | left k => exact .ok hf
  | monitor k => exact .ok trivial

end LeaveRules

/-! ## System calls -/

section Syscall

variable {gate : Gate} {faultVa input : Word} {tf : Trapframe} {r : Int}

/-- An interrupt gate disables interrupts. -/
theorem Gate.eflags_if (hg : gate.istrap = false) (tf : Trapframe) :
    gate.eflags tf &&& FL_IF = 0#32 := by
  rw [Gate.eflags, hg]
  simp only [Bool.false_eq_true, if_false, BitVec.and_assoc]
  rw [show ~~~FL_IF &&& FL_IF = 0#32 by decide, BitVec.and_zero]

/-- Past the checks of `trap`, a system call runs with the registers saved. -/
theorem trap_syscall (hg : gate.istrap = false) (hcs : tf.cs = GD_UT ||| 3#32)
    (hno : tf.trapno = T_SYSCALL) (hcur : k.curenv c = some cur)
    (hst : (k.envs cur).envStatus ≠ .dying) :
    trap k c gate faultVa input tf = (do
      match ← syscallOf (k.setEnv cur { k.envs cur with envTf := tf }) c cur input tf.regs with
      | .ret r k => trapReturn (setEax k cur r) c
      | flow => return flow) := by
  have hcs' : tf.cs &&& 3#32 = 3#32 := by
    rw [hcs]
    decide
  have hcur' : (k.setEnv cur { k.envs cur with envTf := tf }).curenv c = some cur := hcur
  unfold trap
  rw [if_neg (not_not.mpr (Gate.eflags_if hg tf)), if_pos hcs', hcur]
  simp only
  rw [if_neg hst]
  unfold trapBody trapDispatch
  rw [if_neg (by rw [hno]; decide), if_neg (by rw [hno]; decide), if_pos hno, hcur']
  simp only [bind_assoc]
  congr 1
  funext f
  cases f <;> rfl

/-- A system call that returns to an environment that is still running. -/
theorem trap_syscall_ret (hg : gate.istrap = false) (hcs : tf.cs = GD_UT ||| 3#32)
    (hno : tf.trapno = T_SYSCALL) (hcur : k.curenv c = some cur)
    (hst : (k.envs cur).envStatus ≠ .dying)
    (hcall : syscallOf (k.setEnv cur { k.envs cur with envTf := tf }) c cur input tf.regs
      = .ok (.ret r k'))
    (hcur' : k'.curenv c = some cur) (hst' : (k'.envs cur).envStatus = .running)
    (hpg : (k'.envs cur).envPgdir = some d) :
    trap k c gate faultVa input tf = .ok (.left ((setEax k' cur r).runs c cur)) := by
  have htf := OnlyTf.setEax k' cur r
  have hcur'' : (setEax k' cur r).curenv c = some cur := hcur'
  rw [trap_syscall hg hcs hno hcur hst, hcall]
  simp only [Except.ok_bind, trapReturn, hcur'']
  rw [if_pos ((htf.status cur).trans hst'), envRun_eq ((htf.pgdir cur).trans hpg)]

/-- A system call that gives up the CPU. -/
theorem trap_syscall_left (hg : gate.istrap = false) (hcs : tf.cs = GD_UT ||| 3#32)
    (hno : tf.trapno = T_SYSCALL) (hcur : k.curenv c = some cur)
    (hst : (k.envs cur).envStatus ≠ .dying)
    (hcall : syscallOf (k.setEnv cur { k.envs cur with envTf := tf }) c cur input tf.regs
      = .ok (.left k')) :
    trap k c gate faultVa input tf = .ok (.left k') := by
  rw [trap_syscall hg hcs hno hcur hst, hcall]
  rfl

end Syscall

end Jos
