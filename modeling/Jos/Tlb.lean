import Jos.CallFrame
import Jos.Sharing
import Jos.Smp

/-!
# Translations that CPUs hold (`tlb_invalidate`)

A CPU in user mode keeps translations that it has read from its page tables in its TLB, and goes on using them.
The kernel empties the TLB with `lcr3` and takes single translations out of it with `invlpg`, but only that of the
CPU it runs on: `env_run` and `sched_halt` execute `lcr3` whenever they leave the kernel, and nobody tells the
other CPUs.

So a translation becomes stale exactly when a CPU in the kernel changes page tables that another CPU has loaded.
`Spares` is the condition on a step that it does not: the calls on pages may add mappings to the address space of
an environment that another CPU runs, but replace or remove none, and no such environment is freed. In every run of
such steps all translations below `UTOP` are current (`tlbReach_coherent`).

A translation that is read while another CPU is in the kernel is read before or after that CPU changes the entry,
so it is enough to let CPUs read translations between kernel entries. Memory accesses of user code go through the
page tables here, which is what they do as long as no translation is stale.
-/

namespace Jos

open Pmap Kernel Except

variable {R : Set Nat} {D : Finset Nat} {l : List Nat} {k₀ k k' : Kernel} {s : Pmap} {c cur e d v : Nat}

/-! ## TLBs -/

/-- What the kernel does to the TLB of the CPU it runs on. -/
inductive TlbOp
  | lcr3
  | invlpg (v : Nat)

/-- A TLB holds pairs of a virtual page and its page table entry. -/
def TlbOp.apply (tlb : List (Nat × Word)) : TlbOp → List (Nat × Word)
  | .lcr3 => []
  | .invlpg v => tlb.filter fun t => t.1 ≠ v

/-- The TLB of a CPU that has done `ops` in the kernel and leaves it, with the `lcr3` of `env_run` or
`sched_halt`. -/
def leaveTlb (ops : List TlbOp) (tlb : List (Nat × Word)) : List (Nat × Word) :=
  TlbOp.apply (ops.foldl TlbOp.apply tlb) .lcr3

/-- The CPU that is in the kernel during a step. -/
def Action.kernelCpu : Action → Option Nat
  | .store .. => none
  | .trap c .. => some c
  | .irq c .. => some c
  | .start c => some c

/-- The states, with the TLBs of all CPUs, that runs of steps with `P` lead to. -/
inductive TlbReach (sys : System) (P : Kernel → Action → Prop) :
    Kernel → (Nat → List (Nat × Word)) → Prop
  | boot {k₀ k : Kernel} : I386Init sys k₀ → schedYield k₀ 0 = .ok (.left k) → TlbReach sys P k fun _ => []
  /-- A CPU in user mode reads a translation from the page directory it has loaded. -/
  | fill {k : Kernel} {tlbs : Nat → List (Nat × Word)} {c v : Nat} : TlbReach sys P k tlbs →
      (k.cpus c).mode = .user → present (pteOf k.pmap (k.cpus c).cr3 v) →
      TlbReach sys P k (Function.update tlbs c ((v, pteOf k.pmap (k.cpus c).cr3 v) :: tlbs c))
  /-- User code runs. -/
  | user {k k' : Kernel} {tlbs : Nat → List (Nat × Word)} {a : Action} : TlbReach sys P k tlbs →
      Enabled sys k a → P k a → exec k a = .ok (.left k') → a.kernelCpu = none → TlbReach sys P k' tlbs
  /-- CPU `c` enters the kernel, where it does `ops` to its TLB, and leaves it. -/
  | entry {k k' : Kernel} {tlbs : Nat → List (Nat × Word)} {a : Action} {c : Nat} (ops : List TlbOp) :
      TlbReach sys P k tlbs → Enabled sys k a → P k a → exec k a = .ok (.left k') → a.kernelCpu = some c →
      TlbReach sys P k' (Function.update tlbs c (leaveTlb ops (tlbs c)))

/-- Below `UTOP`, every translation that a CPU in user mode holds is what its page directory says, and none is to a
free page. -/
def TlbCoherent (k : Kernel) (tlbs : Nat → List (Nat × Word)) : Prop :=
  ∀ c, (k.cpus c).mode = .user → ∀ t ∈ tlbs c, t.1 < NUVPN →
    t.2 = pteOf k.pmap (k.cpus c).cr3 t.1 ∧ ¬ OnFreeList k.pmap (ppn t.2)

/-! ## Sparing the other CPUs -/

/-- A system call that replaces and removes no mapping of an environment that another CPU runs, and frees no such
environment. -/
structure SparesMaps (k : Kernel) (c cur : Nat) (call : Call) : Prop where
  alloc : call.syscallno = SYS_page_alloc → ∀ e d, PageAllocArgs k cur e call.a1 call.a2 call.a3 →
    (k.envs e).envPgdir = some d → RunsElsewhere k c e → ¬ present (pteOf k.pmap d (PGNUM call.a2))
  map : call.syscallno = SYS_page_map → ∀ src dst sd dd,
    PageMapArgs k cur src dst call.a1 call.a2 call.a3 call.a4 call.a5 sd dd → RunsElsewhere k c dst →
    present (pteOf k.pmap dd (PGNUM call.a4)) →
      pteOf k.pmap dd (PGNUM call.a4) = mkPte (ppn (pteOf k.pmap sd (PGNUM call.a2))) call.a5
  unmap : call.syscallno = SYS_page_unmap → ∀ e d, envid2env k cur call.a1 true = some e →
    call.a2 < UTOP → aligned call.a2 → (k.envs e).envPgdir = some d → RunsElsewhere k c e →
      ¬ present (pteOf k.pmap d (PGNUM call.a2))
  send : call.syscallno = SYS_ipc_try_send → ∀ e sd dd,
    SendPageArgs k cur e call.a1 call.a3 call.a4 sd dd → RunsElsewhere k c e →
    present (pteOf k.pmap dd (PGNUM (k.envs e).envIpcDstva)) →
      pteOf k.pmap dd (PGNUM (k.envs e).envIpcDstva)
        = mkPte (ppn (pteOf k.pmap sd (PGNUM call.a3))) call.a4
  destroy : call.syscallno = SYS_env_destroy → ∀ e, envid2env k cur call.a1 true = some e →
    RunsElsewhere k c e → (k.envs e).envStatus = .running ∧ k.curenv c ≠ some e

/-- A trap that may end the environment it comes from: a page fault, `sys_cputs`, or a trap that nobody expects. -/
def MayEnd (tf : Trapframe) : Prop :=
  tf.trapno = T_PGFLT ∨ (tf.trapno = T_SYSCALL ∧ (callOf tf.regs).syscallno = SYS_cputs) ∨
    Unexpected tf.trapno

/-- A step that keeps memory safe, and changes no page tables that another CPU uses. -/
def Spares (k : Kernel) : Action → Prop
  | .trap c _ _ _ tf => ∀ cur, k.curenv c = some cur →
      (RunsElsewhere k c cur → (k.envs cur).envStatus ≠ .dying ∧ ¬ MayEnd tf) ∧
      (tf.trapno = T_SYSCALL → MemSafe k cur (callOf tf.regs) ∧ SparesMaps k c cur (callOf tf.regs))
  | _ => True

/-- The environments that run on CPUs other than `c` still have their directories and all their mappings. -/
structure Spared (c : Nat) (k k' : Kernel) : Prop where
  dir : ∀ e d, RunsElsewhere k c e → (k.envs e).envPgdir = some d → (k'.envs e).envPgdir = some d
  pte : ∀ e d, RunsElsewhere k c e → (k.envs e).envPgdir = some d → ∀ v < NUVPN,
    present (pteOf k.pmap d v) → pteOf k'.pmap d v = pteOf k.pmap d v

namespace Spared

theorem refl (c : Nat) (k : Kernel) : Spared c k k := ⟨fun _ _ _ hd => hd, fun _ _ _ _ _ _ _ => rfl⟩

/-- Changes outside the page tables and page directories. -/
theorem congr (h : Spared c k₀ k) (hpg : ∀ e, (k'.envs e).envPgdir = (k.envs e).envPgdir)
    (hp : k'.pmap = k.pmap) : Spared c k₀ k' := by
  refine ⟨fun e d he hd => ?_, fun e d he hd v hv hP => ?_⟩
  · rw [hpg]
    exact h.dir e d he hd
  · rw [hp]
    exact h.pte e d he hd v hv hP

/-- The environment `e`, with the directory `d`, gets the entry `w` for page `v`. -/
theorem pteSet {w : Word} {s s' : Pmap} (hinv : EnvsOk D k) (hd : (k.envs e).envPgdir = some d)
    (hs : k.pmap = s) (hset : PteSet D s s' d v w)
    (hspare : RunsElsewhere k c e → present (pteOf s d v) → pteOf s d v = w) :
    Spared c k { k with pmap := s' } := by
  subst hs
  refine ⟨fun _ _ _ hd => hd, fun e' d' he' hd' v' hv' hP => ?_⟩
  show pteOf s' d' v' = _
  rw [hset d' (hinv.dir e' d' hd') v' hv']
  split
  · next heq =>
    obtain ⟨rfl, rfl⟩ := heq
    rw [hspare (hinv.inj e' e d' hd' hd ▸ he') hP]
  · rfl

end Spared

/-! ## In the kernel -/

/-- What CPU `c` keeps while it is in the kernel, which it has entered at `k₀`. -/
structure TlbMid (R : Set Nat) (c : Nat) (k₀ k : Kernel) : Prop where
  inv : ∃ D l, KernelInv R D l k
  own : ∀ e, k.curenv c = some e → Live k e
  spared : Spared c k₀ k

/-- What CPU `c` leaves behind. -/
structure TlbOut (R : Set Nat) (c : Nat) (k₀ k : Kernel) : Prop where
  inv : ∃ D l, KernelInv R D l k
  spared : Spared c k₀ k
  mode : (k.cpus c).mode = .user ↔ k.curenv c ≠ none
  cr3 : ∀ e, k.curenv c = some e → (k.envs e).envPgdir = some (k.cpus c).cr3

namespace TlbMid

/-- Changes that concern neither page tables nor the life of environments. -/
theorem sameLife (h : TlbMid R c k₀ k) (hs : SameLife k k') (hp : k'.pmap = k.pmap)
    (hc : k'.cpus = k.cpus) : TlbMid R c k₀ k' := by
  obtain ⟨D, l, hinv⟩ := h.inv
  refine ⟨⟨D, l, hinv.congr hs hp⟩, fun e he => ?_, h.spared.congr hs.pgdir hp⟩
  rw [hs.live]
  rw [Kernel.curenv, hc] at he
  exact h.own e he

theorem onlyTf (h : TlbMid R c k₀ k) (ht : OnlyTf k k') : TlbMid R c k₀ k' :=
  h.sameLife ⟨ht.sameDirs, fun e => by rw [ht.status]⟩ ht.pmap ht.cpus

/-- CPU `c` goes to user mode. -/
theorem runs (h : TlbMid R c k₀ k) (hlive : Live k e) : TlbOut R c k₀ (k.runs c e) := by
  obtain ⟨D, l, hinv⟩ := h.inv
  obtain ⟨d, -, hd⟩ := hinv.pgdir hlive
  have hcur : (k.runs c e).curenv c = some e := by
    rw [Kernel.curenv, runs_cpus, if_pos rfl]
  refine ⟨⟨D, l, hinv.runs hlive h.own⟩, h.spared.congr (fun i => (runs_sameEnv i).pgdir) rfl, ?_, ?_⟩
  · rw [hcur, runs_cpus, if_pos rfl]
    exact iff_of_true rfl (by rintro ⟨⟩)
  · intro i hi
    obtain rfl : e = i := Option.some.inj (hcur.symm.trans hi)
    rw [(runs_sameEnv e).pgdir, runs_cpus, if_pos rfl, hd]
    rfl

theorem leaveRules (R : Set Nat) (c : Nat) (k₀ : Kernel) :
    LeaveRules c (TlbMid R c k₀) (TlbOut R c k₀) where
  lt k h e he := by
    obtain ⟨D, l, hinv⟩ := h.inv
    obtain ⟨d, hd⟩ := Option.ne_none_iff_exists'.mp he
    exact hinv.envs.lt e d hd
  onlyTf _ _ h ht := h.onlyTf ht
  run k e h hr := by
    refine h.runs ⟨hr.1, ?_⟩
    rcases hr.2 with hst | ⟨-, hst⟩ <;> rw [hst] <;> rintro ⟨⟩
  halt k h _ := by
    obtain ⟨D, l, hinv⟩ := h.inv
    have hcpu : (k.halts c).cpus c = { mode := .idle, cpuEnv := none, cr3 := k.pmap.kernPgdir } := by
      rw [Kernel.halts, setCpu_cpus, if_pos rfl]
    refine ⟨⟨D, l, hinv.congr (.of_envs rfl rfl) rfl⟩, h.spared.congr (fun _ => rfl) rfl, ?_, ?_⟩
    · rw [Kernel.curenv, hcpu]
      exact iff_of_false (by rintro ⟨⟩) fun hc => hc rfl
    · intro i hi
      rw [Kernel.curenv, hcpu] at hi
      cases hi

theorem schedYield (h : TlbMid R c k₀ k) :
    Post (schedYield k c) (Flow.Sat (TlbMid R c k₀) (TlbOut R c k₀)) :=
  (leaveRules R c k₀).schedYield h

/-! ## Destroying environments -/

/-- An environment that no other CPU runs is freed. -/
theorem free (hinv : KernelInv R D l k) (hspared : Spared c k₀ k) (hlive : Live k e)
    (helse : ¬ RunsElsewhere k₀ c e) : Post (envFree k c e) fun k' =>
      (∃ D l, KernelInv R D l k') ∧ Spared c k₀ k' ∧ k'.cpus = k.cpus ∧
        ∀ i, i ≠ e → k'.envs i = k.envs i := by
  intro k' hok
  obtain ⟨d, hd, s, l', hpg, hcode, hinv', hff⟩ := hinv.envFree_spec hlive c
  rw [hcode] at hok
  obtain rfl := Except.ok.inj hok
  have hne : ∀ i, RunsElsewhere k₀ c i → i ≠ e := by
    rintro i hi rfl
    exact helse hi
  refine ⟨⟨_, l', hinv'⟩, ⟨fun i d' hi hd' => ?_, fun i d' hi hd' v hv hP => ?_⟩, rfl,
    fun i hi => freeEnv_envs_of_ne hi⟩
  · rw [freeEnv_envs_of_ne (hne i hi)]
    exact hspared.dir i d' hi hd'
  · have hpg' := hspared.dir i d' hi hd'
    have hdd : d' ≠ d := by
      rintro rfl
      exact hne i hi (hinv.envs.inj i e d' hpg' hpg)
    show pteOf s d' v = _
    rw [hff.pte d' (hinv.envs.dir i d' hpg') hdd v hv]
    exact hspared.pte i d' hi hd' v hv hP

/-- CPU `c` lets go of its environment. -/
theorem setCurenv (hinv : ∃ D l, KernelInv R D l k) (hspared : Spared c k₀ k) :
    TlbMid R c k₀ (k.setCurenv c none) := by
  obtain ⟨D, l, hinv⟩ := hinv
  refine ⟨⟨D, l, hinv.congr (.of_envs rfl rfl) rfl⟩, fun e he => ?_, hspared.congr (fun _ => rfl) rfl⟩
  rw [Kernel.curenv, setCurenv_cpus, if_pos rfl] at he
  cases he

theorem envDestroy (h : TlbMid R c k₀ k) (hlive : Live k e)
    (helse : RunsElsewhere k₀ c e → (k.envs e).envStatus = .running ∧ k.curenv c ≠ some e) :
    Post (envDestroy k c e) (Flow.Sat (TlbMid R c k₀) (TlbOut R c k₀)) := by
  have h₁ : TlbMid R c k₀ (k.record (.destroy e)) := h.sameLife (.of_envs rfl rfl) rfl rfl
  unfold Jos.envDestroy
  simp only
  split
  · exact .ok (h₁.sameLife (.setStatus (k := k.record (.destroy e)) hlive.2 nofun) rfl rfl)
  · next hrun =>
    obtain ⟨D, l, hinv⟩ := h₁.inv
    refine (free hinv h₁.spared hlive fun hc => hrun (helse hc)).bind ?_
    rintro k' ⟨hinv', hspared, hcpus, henvs⟩
    split
    · exact (setCurenv hinv' hspared).schedYield
    · next hcur =>
      refine .ok ⟨hinv', fun i hi => ?_, hspared⟩
      have hie : i ≠ e := by
        rintro rfl
        exact hcur hi
      rw [Live, henvs i hie]
      rw [Kernel.curenv, hcpus] at hi
      exact h₁.own i hi

/-! ## System calls -/

/-- A call that changes nothing but memory. -/
theorem pmapStep (h : TlbMid R c k k) (hinv : KernelInv R D l k) (hstep : PmapStep R D k k')
    (hspared : Spared c k k') : TlbMid R c k k' := by
  obtain ⟨l', hp⟩ := hstep.inv
  refine ⟨⟨D, l', ?_⟩, fun e he => ?_, hspared⟩
  · rw [hstep.rest]
    exact hinv.withPmap hp
  · rw [Kernel.curenv, hstep.cpus] at he
    rw [Live, hstep.envs]
    exact h.own e he

theorem sysPageAlloc (h : TlbMid R c k k) {call : Call} (hno : call.syscallno = SYS_page_alloc)
    (hm : MemSafe k cur call) (hs : SparesMaps k c cur call) :
    Post (sysPageAlloc k cur call.a1 call.a2 call.a3) fun x => TlbMid R c k x.2 := by
  rintro ⟨r, k'⟩ hok
  obtain ⟨D, l, hinv⟩ := h.inv
  refine h.pmapStep hinv (hinv.toMemInv.sysPageAlloc_step (hm.alloc hno) hok) ?_
  rcases hinv.toMemInv.sysPageAlloc_cases (hm.alloc hno) hok with
    ⟨-, rfl⟩ | ⟨-, p, rfl, rfl⟩ | ⟨e, d, p, l₁, l', s, ha, hpg, hva, rfl, hins, -, -, rfl⟩
  · exact .refl c k'
  · refine ⟨fun _ _ _ hd => hd, fun e d _ hd v hv _ => ?_⟩
    exact hinv.pmap.clearPage_pteOf (List.mem_cons_self ..) (hinv.envs.dir e d hd) hv
  · refine .pteSet hinv.envs hpg rfl (.of_same (fun d' hd' v' hv' => ?_) hins.pte) fun he hP => ?_
    · exact hinv.pmap.fresh_pteOf hd' hv'
    · exact absurd hP (hs.alloc hno e d ha hpg he)

theorem sysPageMap (h : TlbMid R c k k) {call : Call} (hno : call.syscallno = SYS_page_map)
    (hm : MemSafe k cur call) (hs : SparesMaps k c cur call) :
    Post (sysPageMap k cur call.a1 call.a2 call.a3 call.a4 call.a5) fun x => TlbMid R c k x.2 := by
  rintro ⟨r, k'⟩ hok
  obtain ⟨D, l, hinv⟩ := h.inv
  refine h.pmapStep hinv (hinv.toMemInv.sysPageMap_step (hm.map hno) hok) ?_
  rcases hinv.toMemInv.sysPageMap_cases cur call.a1 call.a2 call.a3 call.a4 call.a5 with
    ⟨r', -, hcode⟩ | ⟨src, dst, sd, dd, s, ha, -, -, hcode, hins, -⟩ | ⟨-, hcode⟩
  · cases hcode.symm.trans hok
    exact .refl c k
  · cases hcode.symm.trans hok
    exact .pteSet hinv.envs ha.dstdir rfl hins.pte (hs.map hno src dst sd dd ha)
  · rw [hcode] at hok
    cases hok

theorem sysPageUnmap (h : TlbMid R c k k) {call : Call} (hno : call.syscallno = SYS_page_unmap)
    (hs : SparesMaps k c cur call) :
    Post (sysPageUnmap k cur call.a1 call.a2) fun x => TlbMid R c k x.2 := by
  rintro ⟨r, k'⟩ hok
  obtain ⟨D, l, hinv⟩ := h.inv
  refine h.pmapStep hinv (hinv.toMemInv.sysPageUnmap_step hok) ?_
  rcases hinv.toMemInv.sysPageUnmap_cases cur call.a1 call.a2 with
    ⟨r', -, hcode⟩ | ⟨e, d, he, hva, hal, hd, hpg, ⟨-, hcode⟩ | ⟨hP, hcode⟩⟩ | ⟨-, hcode⟩
  · cases hcode.symm.trans hok
    exact .refl c k
  · cases hcode.symm.trans hok
    exact .refl c k
  · cases hcode.symm.trans hok
    refine .pteSet hinv.envs hpg rfl (fun d' hd' v' hv' => hinv.pmap.unmap_pteOf hd hva hP hd' hv') ?_
    exact fun helse hP => absurd hP (hs.unmap hno e d he hva hal hpg helse)
  · rw [hcode] at hok
    cases hok

/-- A message is delivered. -/
theorem deliver (h : TlbMid R c k₀ k) (hlive : Live k e) (value perm : Word) :
    TlbMid R c k₀ (deliver k cur e value perm) :=
  h.sameLife (.setEnv hlive.2 rfl rfl nofun) rfl rfl

theorem sysIpcTrySend (h : TlbMid R c k k) (hcur : k.curenv c = some cur) {call : Call}
    (hno : call.syscallno = SYS_ipc_try_send) (hm : MemSafe k cur call) (hs : SparesMaps k c cur call) :
    Post (sysIpcTrySend k cur call.a1 call.a2 call.a3 call.a4) fun x => TlbMid R c k x.2 := by
  rintro ⟨r, k'⟩ hok
  obtain ⟨D, l, hinv⟩ := h.inv
  rcases hinv.toMemInv.sysIpcTrySend_cases cur call.a1 call.a2 call.a3 call.a4 with
    ⟨r', -, hcode⟩ | ⟨e, he, hr, ⟨hsrc, hcode⟩ | ⟨sd, hsd, dd, hdd, ha, hins⟩⟩ | ⟨-, hcode⟩
  · cases hcode.symm.trans hok
    exact h
  · cases hcode.symm.trans hok
    exact h.deliver (envid2env_live (h.own cur hcur) he) _ _
  · have hbelow := hm.below hno e sd dd ha
    obtain ⟨s, hcode, hI, hp⟩ := hins hbelow
    cases hcode.symm.trans hok
    have hroom := hinv.toMemInv.ref_of_room hsd ha.src_lt ha.page.1 (hm.send hno e sd dd ha)
    have h₁ : TlbMid R c k { k with pmap := s } :=
      h.pmapStep hinv ⟨hp hroom, rfl⟩ (.pteSet hinv.envs ha.dstdir rfl hI.pte (hs.send hno e sd dd ha))
    exact h₁.deliver (envid2env_live (h.own cur hcur) he) _ _
  · rw [hcode] at hok
    cases hok

theorem sysExofork (h : TlbMid R c k k) :
    Post (sysExofork k cur) fun x => TlbMid R c k x.2 := by
  rintro ⟨r, k'⟩ hok
  obtain ⟨D, l, hinv⟩ := h.inv
  obtain ⟨e, p, l', -, -, hpg, rfl, rfl, hmem'⟩ := hinv.sysExofork_step hok
  have henvs : ∀ i, i ≠ e → (k.forks cur e p).envs i = k.envs i := by
    intro i hi
    unfold Kernel.forks
    rw [setEnv_envs, if_neg hi, newEnv_envs_of_ne hi]
  have hne : ∀ i d, (k.envs i).envPgdir = some d → i ≠ e := by
    rintro i d hd rfl
    rw [hpg] at hd
    cases hd
  refine ⟨⟨_, l', hmem', fun i => ?_⟩, fun i hi => ?_, fun i d _ hd => ?_, fun i d _ hd v hv _ => ?_⟩
  · by_cases hi : i = e
    · subst hi
      unfold Kernel.forks
      rw [setEnv_envs, if_pos rfl, newEnv_envs_self]
      exact iff_of_false nofun nofun
    · rw [henvs i hi]
      exact hinv.life i
  · have hlive := h.own i hi
    obtain ⟨d, -, hd⟩ := hinv.pgdir hlive
    rw [Live, henvs i (hne i d hd)]
    exact hlive
  · rw [henvs i (hne i d hd)]
    exact hd
  · exact hinv.pmap.newDir_pteOf_of_ne (hinv.envs.dir i d hd) hv

theorem setStatus (h : TlbMid R c k₀ k) (hlive : Live k e) {st : EnvStatus} (hst : st ≠ .free) :
    TlbMid R c k₀ (k.setStatus e st) := h.sameLife (.setStatus hlive.2 hst) rfl rfl

theorem sysEnvSetStatus (h : TlbMid R c k₀ k) (hcur : k.curenv c = some cur) (envid status : Word) :
    TlbMid R c k₀ (sysEnvSetStatus k cur envid status).2 := by
  unfold Jos.sysEnvSetStatus
  split
  · exact h
  · next e he =>
    have hlive := envid2env_live (h.own cur hcur) he
    split
    · exact h.setStatus hlive nofun
    · split
      · exact h.setStatus hlive nofun
      · exact h

theorem sysEnvSetPgfaultUpcall (h : TlbMid R c k₀ k) (hcur : k.curenv c = some cur) (envid func : Word) :
    TlbMid R c k₀ (sysEnvSetPgfaultUpcall k cur envid func).2 := by
  unfold Jos.sysEnvSetPgfaultUpcall
  split
  · exact h
  · next e he =>
    have hlive := envid2env_live (h.own cur hcur) he
    exact h.sameLife (.setEnv hlive.2 rfl rfl hlive.2) rfl rfl

/-- A CPU destroys the environment it has, which no other CPU runs. -/
theorem envDestroy_own (h : TlbMid R c k₀ k) (hcur : k.curenv c = some cur)
    (helse : ¬ RunsElsewhere k₀ c cur) :
    Post (Jos.envDestroy k c cur) (Flow.Sat (TlbMid R c k₀) (TlbOut R c k₀)) :=
  h.envDestroy (h.own cur hcur) fun hc => absurd hc helse

theorem sysCputs (h : TlbMid R c k₀ k) (hcur : k.curenv c = some cur) (helse : ¬ RunsElsewhere k₀ c cur)
    (s len : Word) : Post (sysCputs k c cur s len) (Flow.Sat (TlbMid R c k₀) (TlbOut R c k₀)) := by
  refine .bind' fun b _ => ?_
  split
  · exact h.envDestroy_own hcur helse
  · refine .bind' fun b _ => ?_
    split
    · exact h.envDestroy_own hcur helse
    · exact .bind' fun _ _ => .ok h

theorem sysEnvDestroy (h : TlbMid R c k k) (hcur : k.curenv c = some cur) {call : Call}
    (hno : call.syscallno = SYS_env_destroy) (hs : SparesMaps k c cur call) :
    Post (sysEnvDestroy k c cur call.a1) (Flow.Sat (TlbMid R c k) (TlbOut R c k)) := by
  unfold Jos.sysEnvDestroy
  split
  · exact .ok h
  · next e he => exact h.envDestroy (envid2env_live (h.own cur hcur) he) (hs.destroy hno e he)

theorem sysIpcRecv (h : TlbMid R c k₀ k) (hcur : k.curenv c = some cur) (dstva : Word) :
    Post (sysIpcRecv k c cur dstva) (Flow.Sat (TlbMid R c k₀) (TlbOut R c k₀)) := by
  unfold Jos.sysIpcRecv
  split
  · exact .ok h
  · exact TlbMid.schedYield (h.sameLife (.setEnv (h.own cur hcur).2 rfl rfl nofun) rfl rfl)

/-- A system call spares the other CPUs. -/
theorem syscall (h : TlbMid R c k k) (hcur : k.curenv c = some cur) {call : Call} (input : Word)
    (hown : call.syscallno = SYS_cputs → ¬ RunsElsewhere k c cur) (hm : MemSafe k cur call)
    (hs : SparesMaps k c cur call) :
    Post (syscall k c cur input call.syscallno call.a1 call.a2 call.a3 call.a4 call.a5)
      (Flow.Sat (TlbMid R c k) (TlbOut R c k)) := by
  have hno : ∀ w : Word, call.syscallno.toNat = w.toNat → call.syscallno = w :=
    fun w hw => BitVec.eq_of_toNat_eq hw
  unfold Jos.syscall
  split
  · next hn => exact h.sysCputs hcur (hown (hno SYS_cputs hn)) call.a1 call.a2
  · exact .ok h
  · exact .ok h
  · next hn => exact h.sysEnvDestroy hcur (hno SYS_env_destroy hn) hs
  · next hn => exact .map (h.sysPageAlloc (hno SYS_page_alloc hn) hm hs)
  · next hn => exact .map (h.sysPageMap (hno SYS_page_map hn) hm hs)
  · next hn => exact .map (h.sysPageUnmap (hno SYS_page_unmap hn) hs)
  · exact .map h.sysExofork
  · exact .ok (h.sysEnvSetStatus hcur call.a1 call.a2)
  · exact .ok (h.sysEnvSetPgfaultUpcall hcur call.a1 call.a2)
  · exact h.schedYield
  · next hn => exact .map (h.sysIpcTrySend hcur (hno SYS_ipc_try_send hn) hm hs)
  · exact h.sysIpcRecv hcur call.a1
  · exact .ok h

/-! ## Traps -/

/-- `page_fault_handler` goes on with the environment, whatever its status is, or destroys it. -/
theorem pageFaultHandler (h : TlbMid R c k k)
    (hcr3 : ∀ e, k.curenv c = some e → (k.envs e).envPgdir = some (k.cpus c).cr3)
    (helse : ∀ e, k.curenv c = some e → ¬ RunsElsewhere k c e) {faultVa : Word} {tf : Trapframe} :
    Post (pageFaultHandler k c faultVa tf) (Flow.Sat (TlbMid R c k) (TlbOut R c k)) := by
  unfold Jos.pageFaultHandler
  split
  · exact .error _
  · split
    · exact .error _
    · next cur hcur =>
      have hdestroy := h.envDestroy_own hcur (helse cur hcur)
      split
      · refine .bind' fun b _ => ?_
        split
        · exact hdestroy
        · refine .bind' fun s hs => ?_
          obtain ⟨D, l, hinv⟩ := h.inv
          have hd := hinv.envs.dir cur _ (hcr3 cur hcur)
          obtain ⟨hp, -, hpte⟩ := hinv.pmap.copyTo_pteOf hd
            (by rw [SysInv.utrapframe_length]; exact SysInv.utfAddr_le tf) hs
          have hspared : Spared c k { k with pmap := s } :=
            ⟨fun _ _ _ hd => hd, fun e d _ hd v hv _ => hpte d (hinv.envs.dir e d hd) v hv⟩
          have h₁ : TlbMid R c k { k with pmap := s } := h.pmapStep hinv ⟨⟨l, hp⟩, rfl⟩ hspared
          have h₂ := h₁.onlyTf (.setEnv { k with pmap := s } cur
            { (k.envs cur).envTf with eip := (k.envs cur).envPgfaultUpcall, esp := utfAddr tf })
          intro f hok
          obtain ⟨-, rfl⟩ := envRun_ok hok
          exact h₂.runs (h₂.own cur hcur)
      · exact hdestroy

theorem trapDispatch (h : TlbMid R c k k)
    (hcr3 : ∀ e, k.curenv c = some e → (k.envs e).envPgdir = some (k.cpus c).cr3)
    {faultVa input : Word} {tf : Trapframe}
    (hown : ∀ e, k.curenv c = some e → MayEnd tf → ¬ RunsElsewhere k c e)
    (hs : tf.trapno = T_SYSCALL → ∀ cur, k.curenv c = some cur →
      MemSafe k cur (callOf tf.regs) ∧ SparesMaps k c cur (callOf tf.regs)) :
    Post (trapDispatch k c faultVa input tf) (Flow.Sat (TlbMid R c k) (TlbOut R c k)) := by
  refine (leaveRules R c k).trapDispatch h ?_ ?_ ?_
  · exact fun hno => h.pageFaultHandler hcr3 fun e he => hown e he (Or.inl hno)
  · intro hno cur hcur
    obtain ⟨hm, hsp⟩ := hs hno cur hcur
    exact h.syscall hcur input (fun hcputs => hown cur hcur (Or.inr (Or.inl ⟨hno, hcputs⟩))) hm hsp
  · exact fun hun cur hcur => h.envDestroy_own hcur (hown cur hcur (Or.inr (Or.inr hun)))

end TlbMid

/-! ## Kernel entries -/

/-- What holds of the CPUs while nobody is in the kernel. -/
structure TlbInv (R : Set Nat) (k : Kernel) : Prop where
  inv : ∃ D l, KernelInv R D l k
  mode : ∀ c, (k.cpus c).mode = .user ↔ k.curenv c ≠ none
  cr3 : ∀ c e, k.curenv c = some e → (k.envs e).envPgdir = some (k.cpus c).cr3

theorem OnlyTf.runsElsewhere (h : OnlyTf k k') : RunsElsewhere k' c e ↔ RunsElsewhere k c e := by
  have hcur : ∀ i, k'.curenv i = k.curenv i := fun i => by rw [Kernel.curenv, h.cpus]; rfl
  simp only [RunsElsewhere, hcur]

theorem OnlyTf.sparesMaps {call : Call} (h : OnlyTf k k') (hs : SparesMaps k c cur call) :
    SparesMaps k' c cur call := by
  have hcur : k'.curenv c = k.curenv c := by rw [Kernel.curenv, h.cpus]; rfl
  refine ⟨?_, ?_, ?_, ?_, ?_⟩
  · simp only [PageAllocArgs, h.envid2env, h.pgdir, h.runsElsewhere, h.pmap]
    exact hs.alloc
  · simp only [h.pageMapArgs, h.runsElsewhere, h.pmap]
    exact hs.map
  · simp only [h.envid2env, h.pgdir, h.runsElsewhere, h.pmap]
    exact hs.unmap
  · simp only [h.sendPageArgs, h.runsElsewhere, h.pmap, h.dstva]
    exact hs.send
  · simp only [h.envid2env, h.runsElsewhere, h.status, hcur]
    exact hs.destroy

/-- What is spared after registers have been saved is spared. -/
theorem Spared.of_onlyTf {k₁ : Kernel} (ht : OnlyTf k k₁) (h : Spared c k₁ k') : Spared c k k' := by
  refine ⟨fun e d he hd => ?_, fun e d he hd v hv hP => ?_⟩
  · exact h.dir e d (ht.runsElsewhere.mpr he) ((ht.pgdir e).trans hd)
  · rw [← ht.pmap] at hP ⊢
    exact h.pte e d (ht.runsElsewhere.mpr he) ((ht.pgdir e).trans hd) v hv hP

/-- A part of the kernel that starts after registers have been saved. -/
theorem TlbMid.after_onlyTf {k₁ : Kernel} {x : Except Panic Flow} (ht : OnlyTf k k₁)
    (hx : Post x (Flow.Sat (TlbMid R c k₁) (TlbOut R c k₁))) :
    Post x (Flow.Sat (TlbMid R c k) (TlbOut R c k)) := by
  refine hx.mono fun f hf => ?_
  cases f with
  | ret r k₂ => exact ⟨hf.inv, hf.own, hf.spared.of_onlyTf ht⟩
  | left k₂ => exact ⟨hf.inv, hf.spared.of_onlyTf ht, hf.mode, hf.cr3⟩
  | monitor k₂ => trivial

namespace TlbInv

theorem live (h : TlbInv R k) (hcur : k.curenv c = some e) : Live k e := by
  obtain ⟨D, l, hinv⟩ := h.inv
  have hd := h.cr3 c e hcur
  refine ⟨hinv.envs.lt e _ hd, fun hfree => ?_⟩
  rw [(hinv.life e).mp hfree] at hd
  cases hd

theorem enter (h : TlbInv R k) : TlbMid R c k k := ⟨h.inv, fun _ => h.live, .refl c k⟩

theorem curenv_none (h : TlbInv R k) (hmode : (k.cpus c).mode ≠ .user) : k.curenv c = none := by
  by_contra hc
  exact hmode ((h.mode c).mpr hc)

theorem trap (h : TlbInv R k) {gate : Gate} {faultVa input : Word} {tf : Trapframe}
    (hs : Spares k (.trap c gate faultVa input tf)) (hkern : tf.cs &&& 3#32 ≠ 3#32 → k.curenv c = none) :
    Post (trap k c gate faultVa input tf) (Flow.Sat (TlbMid R c k) (TlbOut R c k)) := by
  unfold Jos.trap
  split
  · exact .error _
  split
  · split
    · exact .error _
    · next cur hcur =>
      obtain ⟨helse, hsys⟩ := hs cur hcur
      split
      · next hdying =>
        obtain ⟨D, l, hinv⟩ := h.inv
        refine (TlbMid.free hinv (.refl c k) (h.live hcur) fun hc => (helse hc).1 hdying).bind ?_
        rintro k' ⟨hinv', hspared, -⟩
        exact (TlbMid.setCurenv hinv' hspared).schedYield
      · have htf := OnlyTf.setEnv k cur tf
        have hinv : TlbMid R c _ _ := ⟨(h.enter (c := c).onlyTf htf).inv, (h.enter (c := c).onlyTf htf).own, .refl c _⟩
        refine TlbMid.after_onlyTf htf ((TlbMid.leaveRules R c _).trapBody (hinv.trapDispatch ?_ ?_ ?_))
        · intro e he
          rw [htf.pgdir]
          exact h.cr3 c e he
        · intro e he hend hc
          obtain rfl : cur = e := Option.some.inj (hcur.symm.trans he)
          exact (helse (htf.runsElsewhere.mp hc)).2 hend
        · intro hno e he
          obtain rfl : cur = e := Option.some.inj (hcur.symm.trans he)
          exact ⟨htf.memSafe (hsys hno).1, htf.sparesMaps (hsys hno).2⟩
  · next hcs =>
    have hnone : ∀ e, k.curenv c ≠ some e := by
      intro e he
      rw [hkern hcs] at he
      cases he
    refine (TlbMid.leaveRules R c k).trapBody (h.enter.trapDispatch (h.cr3 c) ?_ ?_)
    · exact fun e he => absurd he (hnone e)
    · exact fun _ e he => absurd he (hnone e)

/-- CPU `c` has left the kernel. -/
theorem left (h : TlbInv R k) (ho : OtherCpus c k k') (hout : TlbOut R c k k') : TlbInv R k' := by
  refine ⟨hout.inv, fun c' => ?_, fun c' e he => ?_⟩
  · by_cases hc : c' = c
    · rw [hc]
      exact hout.mode
    · rw [Kernel.curenv, ho c' hc]
      exact h.mode c'
  · by_cases hc : c' = c
    · rw [hc] at he ⊢
      exact hout.cr3 e he
    · rw [Kernel.curenv, ho c' hc] at he
      rw [ho c' hc]
      exact hout.spared.dir e _ ⟨c', hc, he⟩ (h.cr3 c' e he)

/-- A kernel entry, and what it leaves behind. -/
theorem entry {sys : System} {a : Action} (h : TlbInv R k) (hen : Enabled sys k a) (hs : Spares k a)
    (hx : exec k a = .ok (.left k')) (ha : a.kernelCpu = some c) : OtherCpus c k k' ∧ TlbOut R c k k' := by
  cases a with
  | store c va b => cases ha
  | trap c₁ gate faultVa input tf =>
    obtain rfl : c₁ = c := Option.some.inj ha
    have hcs : tf.cs &&& 3#32 = 3#32 := by
      rw [hen.2.2.2.cs]
      decide
    exact ⟨OtherCpus.trap _ hx, h.trap hs (fun hc => absurd hcs hc) _ hx⟩
  | irq c₁ gate trapno =>
    obtain rfl : c₁ = c := Option.some.inj ha
    have hnone : k.curenv c₁ = none := h.curenv_none (by rw [hen.2.1]; exact nofun)
    have hidle : Spares k (.trap c₁ gate 0#32 0#32 (idleFrame trapno)) := by
      intro cur hcur
      rw [hnone] at hcur
      cases hcur
    exact ⟨OtherCpus.trap _ hx, h.trap hidle (fun _ => hnone) _ hx⟩
  | start c₁ =>
    obtain rfl : c₁ = c := Option.some.inj ha
    have hy : schedYield k c₁ = .ok (.left k') := hx
    exact ⟨OtherCpus.schedYield _ hy, TlbMid.schedYield h.enter _ hy⟩

/-- A store by user code leaves the page tables alone. -/
theorem user {sys : System} {a : Action} (h : TlbInv R k) (hen : Enabled sys k a)
    (hx : exec k a = .ok (.left k')) (ha : a.kernelCpu = none) :
    TlbInv R k' ∧ k'.cpus = k.cpus ∧
      ∀ e d, (k.envs e).envPgdir = some d → ∀ v < NUVPN, pteOf k'.pmap d v = pteOf k.pmap d v := by
  cases a with
  | trap | irq | start => cases ha
  | store c va b =>
    obtain ⟨s, hs⟩ := Option.ne_none_iff_exists'.mp hen.2.2
    have hk' : Except.ok (.left { k with pmap := s }) = (.ok (.left k') : Except Panic Flow) := by
      rw [← hx, Jos.exec, hs]
      rfl
    obtain rfl := Flow.left.inj (Except.ok.inj hk')
    obtain ⟨D, l, hinv⟩ := h.inv
    obtain ⟨e, hcur⟩ := Option.ne_none_iff_exists'.mp ((h.mode c).mp hen.2.1)
    obtain ⟨hp, -, hpte⟩ := hinv.pmap.userStore (hinv.envs.dir e _ (h.cr3 c e hcur)) hs
    exact ⟨⟨⟨D, l, hinv.withPmap hp⟩, h.mode, h.cr3⟩, rfl, fun e d hd => hpte d (hinv.envs.dir e d hd)⟩

end TlbInv

/-- The invariant holds when the first environments have been made. -/
theorem Started.tlbInv (h : Started R D l k) : TlbInv R k := by
  have hnone : ∀ c, k.curenv c = none := fun c => by rw [Kernel.curenv, h.cpus c]
  refine ⟨⟨D, l, h.inv⟩, fun c => ?_, fun c e he => ?_⟩
  · rw [hnone, h.cpus c]
    exact iff_of_false (by rintro ⟨⟩) fun hc => hc rfl
  · rw [hnone] at he
    cases he

/-! ## Runs -/

/-- Below `UTOP`, the translations that CPUs in user mode hold are present in their page tables. -/
def TlbCurrent (k : Kernel) (tlbs : Nat → List (Nat × Word)) : Prop :=
  ∀ c, (k.cpus c).mode = .user → ∀ t ∈ tlbs c, t.1 < NUVPN →
    present t.2 ∧ t.2 = pteOf k.pmap (k.cpus c).cr3 t.1

namespace TlbCurrent

variable {tlbs : Nat → List (Nat × Word)}

theorem coherent (h : TlbCurrent k tlbs) (hk : TlbInv R k) : TlbCoherent k tlbs := by
  intro c hmode t ht hlt
  obtain ⟨hP, heq⟩ := h c hmode t ht hlt
  obtain ⟨D, l, hinv⟩ := hk.inv
  obtain ⟨e, hcur⟩ := Option.ne_none_iff_exists'.mp ((hk.mode c).mp hmode)
  refine ⟨heq, ?_⟩
  rw [hinv.pmap.free.onFreeList_iff]
  rw [heq] at hP ⊢
  exact hinv.pmap.page_notMem_free (hinv.envs.dir e _ (hk.cr3 c e hcur)) hlt hP

/-- Reading a translation. -/
theorem fill (h : TlbCurrent k tlbs) (hP : present (pteOf k.pmap (k.cpus c).cr3 v)) :
    TlbCurrent k (Function.update tlbs c ((v, pteOf k.pmap (k.cpus c).cr3 v) :: tlbs c)) := by
  intro c' hmode t ht hlt
  rw [Function.update_apply] at ht
  split at ht
  · next hc =>
    subst hc
    rcases List.mem_cons.mp ht with rfl | ht
    · exact ⟨hP, rfl⟩
    · exact h c' hmode t ht hlt
  · exact h c' hmode t ht hlt

/-- A step of user code. -/
theorem user (h : TlbCurrent k tlbs) (hk : TlbInv R k) (hcpus : k'.cpus = k.cpus)
    (hpte : ∀ e d, (k.envs e).envPgdir = some d → ∀ v < NUVPN, pteOf k'.pmap d v = pteOf k.pmap d v) :
    TlbCurrent k' tlbs := by
  intro c hmode t ht hlt
  rw [hcpus] at hmode ⊢
  obtain ⟨e, hcur⟩ := Option.ne_none_iff_exists'.mp ((hk.mode c).mp hmode)
  rw [hpte e _ (hk.cr3 c e hcur) t.1 hlt]
  exact h c hmode t ht hlt

/-- CPU `c` has been in the kernel: its own TLB is empty, and what the others hold has been spared. -/
theorem entry (h : TlbCurrent k tlbs) (hk : TlbInv R k) (ho : OtherCpus c k k') (hs : Spared c k k')
    (ops : List TlbOp) : TlbCurrent k' (Function.update tlbs c (leaveTlb ops (tlbs c))) := by
  intro c' hmode t ht hlt
  rw [Function.update_apply] at ht
  split at ht
  · cases ht
  · next hc =>
    rw [ho c' hc] at hmode ⊢
    obtain ⟨e, hcur⟩ := Option.ne_none_iff_exists'.mp ((hk.mode c').mp hmode)
    obtain ⟨hP, heq⟩ := h c' hmode t ht hlt
    rw [hs.pte e _ ⟨c', hc, hcur⟩ (hk.cr3 c' e hcur) t.1 hlt (heq ▸ hP)]
    exact ⟨hP, heq⟩

end TlbCurrent

/-- The invariant of runs that spare the page tables of other CPUs. -/
theorem TlbReach.inv {sys : System} {tlbs : Nat → List (Nat × Word)} (h : TlbReach sys Spares k tlbs) :
    ∃ R, TlbInv R k ∧ TlbCurrent k tlbs := by
  induction h with
  | boot hinit hy =>
    obtain ⟨s₀, D, l, hs⟩ := hinit.started
    have hk := hs.tlbInv
    exact ⟨notFree s₀, hk.left (OtherCpus.schedYield _ hy) (TlbMid.schedYield hk.enter _ hy), nofun⟩
  | fill _ _ hP ih =>
    obtain ⟨R, hk, hcur⟩ := ih
    exact ⟨R, hk, hcur.fill hP⟩
  | user _ hen _ hx ha ih =>
    obtain ⟨R, hk, hcur⟩ := ih
    obtain ⟨hk', hcpus, hpte⟩ := hk.user hen hx ha
    exact ⟨R, hk', hcur.user hk hcpus hpte⟩
  | entry ops _ hen hP hx ha ih =>
    obtain ⟨R, hk, hcur⟩ := ih
    obtain ⟨ho, hout⟩ := hk.entry hen hP hx ha
    exact ⟨R, hk.left ho hout, hcur.entry hk ho hout.spared ops⟩

/-- For any number of CPUs and any order of kernel entries, user code and reads of translations: as long as no
step corrupts memory or changes page tables that another CPU uses, all translations below `UTOP` are current,
and none is to a free page. -/
theorem tlbReach_coherent {sys : System} {tlbs : Nat → List (Nat × Word)}
    (h : TlbReach sys Spares k tlbs) : TlbCoherent k tlbs := by
  obtain ⟨R, hk, hcur⟩ := h.inv
  exact hcur.coherent hk

/-- The first CPU of `demoSystem` has read the translation of its stack, and keeps it while the second CPU is in
the kernel. -/
theorem tlbReach_coherent_demoSystem : ∃ k tlbs, TlbReach demoSystem Spares k tlbs ∧
    k.curenv 0 = some 0 ∧ k.curenv 1 = some 1 ∧ (∃ w, present w ∧ (STACKPN, w) ∈ tlbs 0) ∧
    TlbCoherent k tlbs := by
  obtain ⟨s₀, D, l, d₀, d₁, k₀, k, h⟩ := demoSystem_runs
  have hcpu : k.cpus 0 = { mode := .user, cpuEnv := some 0, cr3 := d₀ } := by rw [h.cpus 0, if_pos rfl]
  have hP : present (pteOf k.pmap (k.cpus 0).cr3 STACKPN) := by
    obtain ⟨q, hq⟩ := h.booted.stack₀
    rw [hcpu, h.pmap, hq STACKPN (by decide), if_pos rfl]
    exact present_mkPte q _
  have hfill := (TlbReach.boot (P := Spares) h.booted.init h.first).fill (c := 0) (by rw [hcpu]) hP
  obtain ⟨k', hen, hx, -, hsnap⟩ := (h.snap 2).startSecond nofun
  have hreach := hfill.entry [] hen trivial hx rfl
  refine ⟨k', _, hreach, hsnap.curenv 0, hsnap.curenv 1, ⟨_, hP, ?_⟩, tlbReach_coherent hreach⟩
  rw [Function.update_of_ne (by decide), Function.update_self]
  exact List.mem_cons_self ..

/-! ## A stale translation -/

/-- The TLBs of a run. -/
theorem Reach.tlbs {sys : System} {P : Kernel → Action → Prop} (h : Reach sys P k) :
    ∃ tlbs, TlbReach sys P k tlbs := by
  induction h with
  | boot hinit hy => exact ⟨_, .boot hinit hy⟩
  | @step k k' a _ hen hP hx ih =>
    obtain ⟨tlbs, hreach⟩ := ih
    cases ha : a.kernelCpu with
    | none => exact ⟨tlbs, hreach.user hen hP hx ha⟩
    | some c => exact ⟨_, hreach.entry [] hen hP hx ha⟩

namespace Snap

variable {st : Nat → EnvStatus} {cpu : Nat → Option Nat} {id parent : Nat → Word}

theorem withPmap (h : Snap R st cpu id parent k) (hinv : KernelInv R D l k) {l' : List Nat}
    (hp : PmapInv R D l' s) : Snap R st cpu id parent { k with pmap := s } :=
  ⟨⟨D, l', hinv.withPmap hp⟩, h.status, h.curenv, h.mode, h.id, h.parent, h.live⟩

/-- A system call that changes nothing but memory. -/
theorem exec_pmap {r : Int} (h : Snap R st cpu id parent k) (hinv : KernelInv R D l k) (call : Call)
    (hcur : cpu c = some cur) (hst : st cur = .running) (hlt : cur < NENV)
    (hcall : syscallOf (k.setEnv cur { k.envs cur with envTf := callFrame call }) c cur 0#32
      (callFrame call).regs
        = .ok (.ret r { k.setEnv cur { k.envs cur with envTf := callFrame call } with pmap := s }))
    {l' : List Nat} (hp : PmapInv R D l' s) :
    ∃ k', exec k (callAction c call) = .ok (.left k') ∧ Snap R st cpu id parent k' ∧
      KernelInv R D l' k' ∧ k'.pmap = s ∧ OtherCpus c k k' ∧
      ∀ i, (k'.envs i).envPgdir = (k.envs i).envPgdir := by
  have htf := OnlyTf.setEnv k cur (callFrame call)
  have hinv₀ := hinv.congr ⟨htf.sameDirs, fun e => by rw [htf.status]⟩ htf.pmap
  have h₁ := (h.onlyTf htf).withPmap hinv₀ hp
  have hpg₀ := htf.pgdir
  have hcpus := htf.cpus
  generalize hk₀ : k.setEnv cur { k.envs cur with envTf := callFrame call } = k₀ at *
  have htf₁ := OnlyTf.setEax { k₀ with pmap := s } cur r
  obtain ⟨hx, hsnap⟩ := h.exec_ret call hcur (by rw [hst]; exact nofun) hlt (by rw [hk₀]; exact hcall) h₁ hst
  refine ⟨_, hx, hsnap, ?_, rfl, fun c' hc' => ?_, fun i => ?_⟩
  · have hlive : Live (setEax { k₀ with pmap := s } cur r) cur := by
      refine ⟨hlt, ?_⟩
      rw [htf₁.status, h₁.status, hst]
      exact nofun
    refine ((hinv₀.withPmap hp).congr ⟨htf₁.sameDirs, fun e => by rw [htf₁.status]⟩ rfl).runs hlive ?_
    intro i hi
    obtain rfl : cur = i := Option.some.inj (hcur.symm.trans ((h₁.curenv c).symm.trans hi))
    exact hlive
  · rw [runs_cpus, if_neg hc', htf₁.cpus]
    exact congrFun hcpus c'
  · rw [(runs_sameEnv i).pgdir, htf₁.pgdir]
    exact hpg₀ i

/-- `sys_page_alloc(envid, 0, PTE_P | PTE_U | PTE_W)`. -/
theorem callPageAlloc {p q : Nat} {envid : Word} (h : Snap R st cpu id parent k)
    (hinv : KernelInv R D (p :: q :: l) k) (hcur : cpu c = some cur) (hst : st cur = .running)
    (hlt : cur < NENV) (he : envid2env k cur envid true = some e) (hpg : (k.envs e).envPgdir = some d) :
    ∃ call k' l', exec k (callAction c call) = .ok (.left k') ∧ Snap R st cpu id parent k' ∧
      KernelInv R D l' k' ∧ OtherCpus c k k' ∧ (k'.envs e).envPgdir = some d ∧
      present (pteOf k'.pmap d (PGNUM 0#32)) := by
  generalize hcall : (⟨SYS_page_alloc, envid, 0#32, PTE_P ||| PTE_U ||| PTE_W, 0#32, 0#32⟩ : Call) = call
  have htf := OnlyTf.setEnv k cur (callFrame call)
  have hinv₀ := hinv.congr ⟨htf.sameDirs, fun e => by rw [htf.status]⟩ htf.pmap
  have hdir := hinv.envs.dir e d hpg
  have ha : PageAllocArgs (k.setEnv cur { k.envs cur with envTf := callFrame call }) cur e envid 0#32
      (PTE_P ||| PTE_U ||| PTE_W) :=
    ⟨(htf.envid2env cur envid true).trans he, by decide, by decide, by decide⟩
  rcases hinv₀.toMemInv.sysPageAlloc_below ha hdir ((htf.pgdir e).trans hpg) (by decide) with
    ⟨s, l', hcode, hI, hp⟩ | ⟨hnil, -⟩
  · obtain ⟨k', hx, hsnap, hinv', rfl, hother, hpgs⟩ := h.exec_pmap hinv call hcur hst hlt
      (by subst hcall; exact congrArg (Functor.map Flow.ofRet) hcode) hp
    refine ⟨call, k', l', hx, hsnap, hinv', hother, (hpgs e).trans hpg, ?_⟩
    rw [hI.pte d hdir _ (PGNUM_lt_NUVPN (by decide)), if_pos ⟨rfl, rfl⟩]
    exact present_mkPte p _
  · cases hnil

/-- `sys_page_unmap(envid, 0)`. -/
theorem callPageUnmap {envid : Word} (h : Snap R st cpu id parent k) (hinv : KernelInv R D l k)
    (hcur : cpu c = some cur) (hst : st cur = .running) (hlt : cur < NENV)
    (he : envid2env k cur envid true = some e) (hpg : (k.envs e).envPgdir = some d)
    (hP : present (pteOf k.pmap d (PGNUM 0#32))) :
    ∃ call k', exec k (callAction c call) = .ok (.left k') ∧ Snap R st cpu id parent k' ∧
      OtherCpus c k k' ∧ pteOf k'.pmap d (PGNUM 0#32) = 0#32 := by
  generalize hcall : (⟨SYS_page_unmap, envid, 0#32, 0#32, 0#32, 0#32⟩ : Call) = call
  have htf := OnlyTf.setEnv k cur (callFrame call)
  have hinv₀ := hinv.congr ⟨htf.sameDirs, fun e => by rw [htf.status]⟩ htf.pmap
  have hdir := hinv.envs.dir e d hpg
  have hcode := hinv₀.toMemInv.sysPageUnmap_mapped ((htf.envid2env cur envid true).trans he) (by decide)
    (by decide) ((htf.pgdir e).trans hpg) hP
  obtain ⟨k', hx, hsnap, -, hpmap, hother, -⟩ := h.exec_pmap hinv call hcur hst hlt
    (by subst hcall; exact congrArg (Functor.map Flow.ofRet) hcode) (hinv.pmap.unmap hdir (by decide) hP)
  refine ⟨call, k', hx, hsnap, hother, ?_⟩
  rw [hpmap, hinv.pmap.unmap_pteOf hdir (by decide) hP hdir (PGNUM_lt_NUVPN (by decide)), if_pos ⟨rfl, rfl⟩]

end Snap

/-- The first environment of `demoSystem` maps a page at address 0 of its child, which the second CPU runs. The
second CPU reads the translation, and keeps it when the first environment unmaps the page again. -/
theorem pageUnmap_leaves_stale : ∃ k tlbs, TlbReach demoSystem (fun _ _ => True) k tlbs ∧
    ¬ TlbCoherent k tlbs := by
  obtain ⟨R, e, old, id, parent, k₁, he, he₂, hid, hpar, hr₁, h₁, hcr3, D, p, q, l, hinv₁⟩ :=
    demoSystem_childRuns
  obtain ⟨tlbs, hreach₁⟩ := hr₁.tlbs
  have hste : statuses .running .notRunnable .running e e ≠ .free := by
    rw [statuses_two he₂]
    exact nofun
  obtain ⟨call, k₂, l₂, hx₂, h₂, hinv₂, ho₂, hpg₂, hP₂⟩ := h₁.callPageAlloc (c := 0) hinv₁ rfl rfl (by decide)
    (h₁.child he hid hpar hste) hcr3
  have hreach₂ := hreach₁.entry [] (callAction_enabled call (by decide) (h₁.user (c := 0) rfl)) trivial hx₂ rfl
  have hcpu₂ : (k₂.cpus 1).cr3 = (k₁.cpus 1).cr3 := by rw [ho₂ 1 (by decide)]
  rw [← hcpu₂] at hpg₂ hP₂
  have hfill := hreach₂.fill (c := 1) (h₂.user (c := 1) rfl) hP₂
  obtain ⟨call', k₃, hx₃, h₃, ho₃, hpte⟩ := h₂.callPageUnmap (c := 0) hinv₂ rfl rfl (by decide)
    (h₂.child he hid hpar hste) hpg₂ hP₂
  have hreach₃ := hfill.entry [] (callAction_enabled call' (by decide) (h₂.user (c := 0) rfl)) trivial hx₃ rfl
  refine ⟨k₃, _, hreach₃, fun hcoh => ?_⟩
  have hstale : pteOf k₂.pmap (k₂.cpus 1).cr3 (PGNUM 0#32) = pteOf k₃.pmap (k₃.cpus 1).cr3 (PGNUM 0#32) := by
    refine (hcoh 1 (h₃.user (c := 1) rfl) (PGNUM 0#32, _) ?_ (PGNUM_lt_NUVPN (by decide))).1
    rw [Function.update_of_ne (by decide), Function.update_self]
    exact List.mem_cons_self ..
  rw [ho₃ 1 (by decide), hpte] at hstale
  rw [hstale] at hP₂
  exact not_present_zero hP₂

end Jos
