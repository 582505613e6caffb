import Jos.Effects

/-!
# Overflow of the reference count

`pp_ref` has 16 bits, and nothing limits how often a page is mapped. As long as no page with 65535 mappings
is mapped once more, the counts are exact in every state that system calls reach, whatever their order and
whoever makes them. The 65536th mapping of a page turns its count to zero, and a single environment has room
for that many.
-/

namespace Jos

open Pmap Kernel Except

variable {R : Set Nat} {D : Finset Nat} {l : List Nat} {k k' : Kernel} {c e cur : Nat}

/-! ## The calls -/

/-- The addresses among the arguments of a system call. -/
def Call.addrs (call : Call) : List Word :=
  if call.syscallno = SYS_page_alloc then [call.a2]
  else if call.syscallno = SYS_page_map then [call.a2, call.a4]
  else if call.syscallno = SYS_page_unmap then [call.a2]
  else if call.syscallno = SYS_ipc_try_send then [call.a3]
  else if call.syscallno = SYS_ipc_recv then [call.a1]
  else []

/-- Entries to the kernel other than by page faults, with all addresses below `UTOP`. -/
def CallAction : Action → Prop
  | .store .. => False
  | .trap _ _ _ _ tf => tf.trapno ≠ T_PGFLT ∧
      (tf.trapno = T_SYSCALL → ∀ va ∈ (callOf tf.regs).addrs, va < UTOP)
  | .irq .. => True
  | .start .. => True

/-- No page with 65535 mappings is mapped once more. -/
def RoomAction (k : Kernel) : Action → Prop
  | .trap c _ _ _ tf => tf.trapno = T_SYSCALL → ∀ cur, k.curenv c = some cur →
      ShareRoom k cur (callOf tf.regs)
  | _ => True

/-- The count of every page that is mapped below `UTOP` is the number of its mappings, so that the increment
of `page_insert` does not wrap while there is room, and pages on the free list are not mapped. -/
structure CountsExact (k : Kernel) : Prop where
  count : ∀ e d va, (k.envs e).envPgdir = some d → va < UTOP → present (pteOf k.pmap d (PGNUM va)) →
    (k.pmap.pages (ppn (pteOf k.pmap d (PGNUM va)))).ppRef.toNat
      = mappings k.memState (ppn (pteOf k.pmap d (PGNUM va)))
  increment : ∀ e d va, (k.envs e).envPgdir = some d → va < UTOP →
    present (pteOf k.pmap d (PGNUM va)) → RoomFor k (ppn (pteOf k.pmap d (PGNUM va))) →
    ((k.pmap.pages (ppn (pteOf k.pmap d (PGNUM va)))).ppRef + 1#16).toNat
      = (k.pmap.pages (ppn (pteOf k.pmap d (PGNUM va)))).ppRef.toNat + 1
  free_ref : ∀ p, OnFreeList k.pmap p → (k.pmap.pages p).ppRef = 0#16
  free : ∀ p, OnFreeList k.pmap p → ∀ e d, (k.envs e).envPgdir = some d → ∀ v < NUVPN,
    named (pteOf k.pmap d v) ≠ some p

theorem MemInv.countsExact (h : MemInv R D l k) : CountsExact k := by
  have hcount : ∀ e d va, (k.envs e).envPgdir = some d → va < UTOP →
      present (pteOf k.pmap d (PGNUM va)) →
      (k.pmap.pages (ppn (pteOf k.pmap d (PGNUM va)))).ppRef.toNat
        = mappings k.memState (ppn (pteOf k.pmap d (PGNUM va))) := by
    intro e d va hpg hva hP
    have hd : d ∈ k.memState.dirs := by
      rw [Kernel.memState, h.dirsOf_eq]
      exact h.envs.dir e d hpg
    exact PmapInv.ref_eq_mappings (m := k.memState) h.memState hd (PGNUM_lt_NUVPN hva) hP
  refine ⟨hcount, ?_, ?_, ?_⟩
  · intro e d va hpg hva hP hroom
    have hlt : mappings k.memState (ppn (pteOf k.pmap d (PGNUM va))) < 65535 := hroom
    rw [← hcount e d va hpg hva hP] at hlt
    rw [BitVec.toNat_add, BitVec.toNat_ofNat]
    omega
  · intro p hp
    exact BitVec.eq_of_toNat_eq (h.pmap.consistent.free_ref p (h.pmap.free.onFreeList_iff.mp hp))
  · intro p hp e d hpg v hv
    have hd := h.envs.dir e d hpg
    have hun := h.pmap.free_unnamed (h.pmap.free.onFreeList_iff.mp hp) (.pte d v)
      (h.pmap.pte_mem hd hv)
    rwa [target_pte hd hv] at hun

/-! ## The invariant -/

/-- The memory satisfies its invariant, and whoever waits for a message wants it below `UTOP`. -/
structure CallInv (R : Set Nat) (k : Kernel) : Prop where
  mem : ∃ D l, MemInv R D l k
  recv : ∀ e, (k.envs e).envIpcRecving = true → (k.envs e).envIpcDstva < UTOP

namespace CallInv

theorem congr (h : CallInv R k) (hs : SameDirs k k') (hp : k'.pmap = k.pmap)
    (hr : ∀ e, (k'.envs e).envIpcRecving = true → (k'.envs e).envIpcDstva < UTOP) :
    CallInv R k' := by
  obtain ⟨D, l, hmem⟩ := h.mem
  exact ⟨⟨D, l, hmem.congr hs hp⟩, hr⟩

theorem onlyTf (h : CallInv R k) (ht : OnlyTf k k') : CallInv R k' := by
  refine h.congr ht.sameDirs ht.pmap fun e => ?_
  rw [ht.recving, ht.dstva]
  exact h.recv e

/-- Changes that leave the message fields alone. -/
theorem setEnv (h : CallInv R k) {env : Env} (hlink : env.envLink = (k.envs e).envLink)
    (hpg : env.envPgdir = (k.envs e).envPgdir)
    (hr : env.envIpcRecving = true → env.envIpcDstva < UTOP) : CallInv R (k.setEnv e env) := by
  refine h.congr (.setEnv hlink hpg) rfl fun i => ?_
  rw [setEnv_envs]
  split
  · exact hr
  · exact h.recv i

theorem setStatus (h : CallInv R k) (st : EnvStatus) : CallInv R (k.setStatus e st) :=
  h.setEnv rfl rfl (h.recv e)

theorem pmapStep (h : CallInv R k) (hs : ∀ D l, MemInv R D l k → PmapStep R D k k') :
    CallInv R k' := by
  obtain ⟨D, l, hmem⟩ := h.mem
  have hstep := hs D l hmem
  obtain ⟨l', hmem'⟩ := hstep.memInv hmem
  refine ⟨⟨D, l', hmem'⟩, ?_⟩
  rw [hstep.envs]
  exact h.recv

theorem runs (h : CallInv R k) : CallInv R (k.runs c e) := by
  refine h.congr runs_sameDirs rfl fun i => ?_
  rw [(runs_sameEnv i).recving, (runs_sameEnv i).dstva]
  exact h.recv i

theorem freeEnv (h : CallInv R k) (hok : envFree k c e = .ok k') : CallInv R k' := by
  obtain ⟨D, l, hmem⟩ := h.mem
  obtain ⟨d, s, l', -, rfl, hmem'⟩ := hmem.envFree_step hok
  refine ⟨⟨_, l', hmem'⟩, fun i => ?_⟩
  by_cases hi : i = e
  · subst hi
    rw [freeEnv_envs_self]
    exact h.recv i
  · rw [freeEnv_envs_of_ne hi]
    exact h.recv i

theorem leaveRules (R : Set Nat) (c : Nat) : LeaveRules c (CallInv R) (CallInv R) where
  lt k h e he := by
    obtain ⟨D, l, hmem⟩ := h.mem
    obtain ⟨d, hd⟩ := Option.ne_none_iff_exists'.mp he
    exact hmem.envs.lt e d hd
  onlyTf _ _ h ht := h.onlyTf ht
  run _ _ h _ := h.runs
  halt _ h _ := h.congr (.of_envs rfl rfl) rfl h.recv

theorem schedYield (h : CallInv R k) : Post (schedYield k c) (Flow.Sat (CallInv R) (CallInv R)) :=
  (leaveRules R c).schedYield h

theorem envDestroy (h : CallInv R k) :
    Post (envDestroy k c e) (Flow.Sat (CallInv R) (CallInv R)) := by
  have h₁ : CallInv R (k.record (.destroy e)) := h.congr (.of_envs rfl rfl) rfl h.recv
  unfold Jos.envDestroy
  simp only
  split
  · exact .ok (h₁.setStatus .dying)
  · refine .bind' fun k' hok => ?_
    have h₂ := h₁.freeEnv hok
    split
    · exact CallInv.schedYield (h₂.congr (.of_envs rfl rfl) rfl h₂.recv)
    · exact .ok h₂

/-! ## System calls -/

theorem sysExofork (h : CallInv R k) : Post (sysExofork k cur) fun x => CallInv R x.2 := by
  rintro ⟨r, k'⟩ hok
  obtain ⟨D, l, hmem⟩ := h.mem
  obtain ⟨e, p, l', -, -, -, -, rfl, hmem'⟩ := hmem.sysExofork_step hok
  refine ⟨⟨_, l', hmem'⟩, fun i => ?_⟩
  unfold Kernel.forks
  rw [setEnv_envs]
  split
  · rw [newEnv_envs_self]
    exact nofun
  · next hi =>
    rw [newEnv_envs_of_ne hi]
    exact h.recv i

theorem sysIpcTrySend (h : CallInv R k) {call : Call} (hno : call.syscallno = SYS_ipc_try_send)
    (hs : MemSafe k cur call) :
    Post (sysIpcTrySend k cur call.a1 call.a2 call.a3 call.a4) fun x => CallInv R x.2 := by
  rintro ⟨r, k'⟩ hok
  obtain ⟨D, l, hmem⟩ := h.mem
  rcases hmem.sysIpcTrySend_step (hs.below hno) (hs.send hno) hok with
    rfl | ⟨e, k₁, perm, -, -, -, hstep, rfl⟩
  · exact h
  · have h₁ : CallInv R k₁ := by
      obtain ⟨l', hmem'⟩ := hstep.memInv hmem
      exact ⟨⟨D, l', hmem'⟩, by rw [hstep.envs]; exact h.recv⟩
    exact h₁.setEnv rfl rfl nofun

theorem sysIpcRecv (h : CallInv R k) {dstva : Word} (hdst : dstva < UTOP) :
    Post (sysIpcRecv k c cur dstva) (Flow.Sat (CallInv R) (CallInv R)) := by
  unfold Jos.sysIpcRecv
  split
  · exact .ok h
  · exact CallInv.schedYield (h.setEnv rfl rfl fun _ => hdst)

theorem sysEnvSetStatus (h : CallInv R k) (envid status : Word) :
    CallInv R (sysEnvSetStatus k cur envid status).2 := by
  unfold Jos.sysEnvSetStatus
  split
  · exact h
  · split
    · exact h.setStatus .runnable
    · split
      · exact h.setStatus .notRunnable
      · exact h

theorem sysEnvSetPgfaultUpcall (h : CallInv R k) (envid func : Word) :
    CallInv R (sysEnvSetPgfaultUpcall k cur envid func).2 := by
  unfold Jos.sysEnvSetPgfaultUpcall
  split
  · exact h
  · next e _ => exact h.setEnv rfl rfl (h.recv e)

theorem sysCputs (h : CallInv R k) (s len : Word) :
    Post (sysCputs k c cur s len) (Flow.Sat (CallInv R) (CallInv R)) := by
  refine .bind' fun b _ => ?_
  split
  · exact h.envDestroy
  · refine .bind' fun b _ => ?_
    split
    · exact h.envDestroy
    · exact .bind' fun _ _ => .ok h

theorem sysEnvDestroy (h : CallInv R k) (envid : Word) :
    Post (sysEnvDestroy k c cur envid) (Flow.Sat (CallInv R) (CallInv R)) := by
  unfold Jos.sysEnvDestroy
  split
  · exact .ok h
  · exact h.envDestroy

/-- Every system call keeps the invariant. -/
theorem syscall (h : CallInv R k) {call : Call} (input : Word) (hs : MemSafe k cur call)
    (hdst : call.syscallno = SYS_ipc_recv → call.a1 < UTOP) :
    Post (syscall k c cur input call.syscallno call.a1 call.a2 call.a3 call.a4 call.a5)
      (Flow.Sat (CallInv R) (CallInv R)) := by
  have hno : ∀ w : Word, call.syscallno.toNat = w.toNat → call.syscallno = w :=
    fun w hw => BitVec.eq_of_toNat_eq hw
  unfold Jos.syscall
  split
  · exact h.sysCputs call.a1 call.a2
  · exact .ok h
  · exact .ok h
  · exact h.sysEnvDestroy call.a1
  · next hn =>
    refine .map fun x hx => h.pmapStep fun D l hmem => ?_
    exact hmem.sysPageAlloc_step (hs.alloc (hno SYS_page_alloc hn)) hx
  · next hn =>
    refine .map fun x hx => h.pmapStep fun D l hmem => ?_
    exact hmem.sysPageMap_step (hs.map (hno SYS_page_map hn)) hx
  · refine .map fun x hx => h.pmapStep fun D l hmem => ?_
    exact hmem.sysPageUnmap_step hx
  · exact .map h.sysExofork
  · exact .ok (h.sysEnvSetStatus call.a1 call.a2)
  · exact .ok (h.sysEnvSetPgfaultUpcall call.a1 call.a2)
  · exact h.schedYield
  · next hn => exact .map (h.sysIpcTrySend (hno SYS_ipc_try_send hn) hs)
  · next hn => exact h.sysIpcRecv (hdst (hno SYS_ipc_recv hn))
  · exact .ok h

/-! ## Traps -/

theorem trapDispatch (h : CallInv R k) {faultVa input : Word} {tf : Trapframe}
    (hpf : tf.trapno = T_PGFLT → tf.cs &&& 3#32 = 0#32)
    (hs : tf.trapno = T_SYSCALL → ∀ cur, k.curenv c = some cur → MemSafe k cur (callOf tf.regs))
    (hdst : tf.trapno = T_SYSCALL → (callOf tf.regs).syscallno = SYS_ipc_recv →
      (callOf tf.regs).a1 < UTOP) :
    Post (trapDispatch k c faultVa input tf) (Flow.Sat (CallInv R) (CallInv R)) := by
  refine (leaveRules R c).trapDispatch h (fun hfault => ?_) ?_ fun _ _ _ => h.envDestroy
  · unfold pageFaultHandler
    rw [if_pos (hpf hfault)]
    exact .error _
  · intro hsys cur hcur
    exact h.syscall input (hs hsys cur hcur) (hdst hsys)

theorem trap (h : CallInv R k) {gate : Gate} {faultVa input : Word} {tf : Trapframe}
    (hpf : tf.trapno = T_PGFLT → tf.cs &&& 3#32 = 0#32)
    (hs : tf.trapno = T_SYSCALL → ∀ cur, k.curenv c = some cur → MemSafe k cur (callOf tf.regs))
    (hdst : tf.trapno = T_SYSCALL → (callOf tf.regs).syscallno = SYS_ipc_recv →
      (callOf tf.regs).a1 < UTOP) :
    Post (trap k c gate faultVa input tf) (Flow.Sat (CallInv R) (CallInv R)) := by
  unfold Jos.trap
  split
  · exact .error _
  · split
    · split
      · exact .error _
      · next cur hcur =>
        split
        · refine .bind' fun k₁ hok => ?_
          have h₁ := h.freeEnv hok
          exact CallInv.schedYield (h₁.congr (.of_envs rfl rfl) rfl h₁.recv)
        · have htf := OnlyTf.setEnv k cur tf
          refine (leaveRules R c).trapBody ((h.onlyTf htf).trapDispatch hpf ?_ hdst)
          intro hsys cur' hcur'
          exact htf.memSafe (hs hsys cur' hcur')
    · exact (leaveRules R c).trapBody (h.trapDispatch hpf hs hdst)

end CallInv

/-- With room for another mapping of the page it shares, and addresses below `UTOP`, a call is safe. -/
theorem CallInv.memSafe (h : CallInv R k) {call : Call} (hroom : ShareRoom k cur call)
    (haddr : ∀ va ∈ call.addrs, va < UTOP) : MemSafe k cur call where
  toShareRoom := hroom
  alloc hno := by
    rintro ⟨envid, perm, hcall, -⟩
    have hlt : call.a2 < UTOP :=
      haddr _ (by rw [Call.addrs, if_pos hno]; exact List.mem_singleton.mpr rfl)
    rw [(MapCall.pageAlloc.inj hcall).2.1] at hlt
    exact absurd hlt (by decide)
  below _ e _ _ ha := h.recv e ha.recving

theorem recv_below {call : Call} (haddr : ∀ va ∈ call.addrs, va < UTOP)
    (hno : call.syscallno = SYS_ipc_recv) : call.a1 < UTOP := by
  refine haddr _ ?_
  rw [Call.addrs, hno]
  exact List.mem_singleton.mpr rfl

/-! ## Runs -/

theorem I386Init.callInv {sys : System} (h : I386Init sys k) : ∃ R, CallInv R k := by
  obtain ⟨s₀, D, l, hs⟩ := h.started
  refine ⟨notFree s₀, ⟨D, l, hs.inv.toMemInv⟩, fun e he => ?_⟩
  rw [hs.recving e] at he
  cases he

theorem CallInv.exec {sys : System} {a : Action} (h : CallInv R k) (hen : Enabled sys k a)
    (ha : CallAction a) (hroom : RoomAction k a) :
    Post (exec k a) (Flow.Sat (CallInv R) (CallInv R)) := by
  cases a with
  | store c va b => exact ha.elim
  | trap c gate faultVa input tf =>
    exact h.trap (fun hc => absurd hc ha.1) (fun hsys cur hcur => h.memSafe (hroom hsys cur hcur) (ha.2 hsys))
      fun hsys => recv_below (ha.2 hsys)
  | irq c gate trapno =>
    exact h.trap (fun _ => idleFrame_cs trapno) (fun hsys => absurd hsys hen.2.2.2) fun hsys =>
      absurd hsys hen.2.2.2
  | start c =>
    unfold Jos.exec
    exact h.schedYield

/-- In every run of system calls with addresses below `UTOP`, made by any environments on any CPUs, that maps
no page a 65536th time, the counts are exact. -/
theorem reach_countsExact {sys : System}
    (h : Reach sys (fun k a => CallAction a ∧ RoomAction k a) k) : CountsExact k := by
  have hinv : ∃ R, CallInv R k := by
    induction h with
    | boot hinit hy =>
      obtain ⟨R, hk⟩ := hinit.callInv
      exact ⟨R, hk.schedYield _ hy⟩
    | step _ hen hP hx ih =>
      obtain ⟨R, hk⟩ := ih
      exact ⟨R, hk.exec hen hP.1 hP.2 _ hx⟩
  obtain ⟨R, hk⟩ := hinv
  obtain ⟨D, l, hmem⟩ := hk.mem
  exact hmem.countsExact

/-- The counts of `demoSystem` when its first environment runs. -/
theorem reach_countsExact_demoSystem : ∃ k d,
    Reach demoSystem (fun k a => CallAction a ∧ RoomAction k a) k ∧ k.curenv 0 = some 0 ∧
    (k.envs 0).envPgdir = some d ∧ present (pteOf k.pmap d (PGNUM STACKVA)) ∧ CountsExact k := by
  obtain ⟨s₀, D, l, d₀, d₁, k₀, k, h⟩ := demoSystem_runs
  obtain ⟨q, hq⟩ := h.booted.stack₀
  have hstack : pteOf k.pmap d₀ (PGNUM STACKVA) = mkPte q (PTE_U ||| PTE_W) := by
    rw [h.pmap, hq (PGNUM STACKVA) (by decide), if_pos (by rfl)]
  have hreach : Reach demoSystem (fun k a => CallAction a ∧ RoomAction k a) k :=
    .boot h.booted.init h.first
  refine ⟨k, d₀, hreach, h.curenv, h.pgdir₀, ?_, reach_countsExact hreach⟩
  rw [hstack]
  exact present_mkPte q _

/-! ## Too many mappings -/

/-- The first environment maps its stack page once more, at virtual page `v`. -/
def mapCall (v : Nat) : Call := ⟨SYS_page_map, 0#32, STACKVA, 0#32, pageAddr v, PTE_P ||| PTE_U⟩

theorem mapCall_action {v : Nat} (hv : v < 65536) : CallAction (callAction 0 (mapCall v)) := by
  have htrap : T_SYSCALL ≠ T_PGFLT := by decide
  have hno : SYS_page_map ≠ SYS_page_alloc := by decide
  refine ⟨htrap, fun _ va hva => ?_⟩
  have haddrs : (callOf (callFrame (mapCall v)).regs).addrs = [STACKVA, pageAddr v] := by
    rw [Call.addrs]
    exact (if_neg hno).trans (if_pos rfl)
  rw [haddrs] at hva
  rcases List.mem_pair.mp hva with rfl | rfl
  · decide
  · rw [BitVec.lt_def, toNat_pageAddr (by omega), toNat_UTOP]
    omega

/-- `demoSystem` after the first environment has mapped its stack page at the virtual pages below `n`. The
entry of the stack itself is `pte`, the directory `d`, and the page had count `r` to begin with. -/
structure MappedTimes (pte : Word) (d r n : Nat) (R : Set Nat) (D : Finset Nat) (l : List Nat)
    (k : Kernel) : Prop where
  reach : Reach demoSystem (fun _ a => CallAction a) k
  inv : MemInv R D l k
  room : 15000 ≤ l.length + (n + 1023) / 1024
  curenv : k.curenv 0 = some 0
  mode : (k.cpus 0).mode = .user
  status : (k.envs 0).envStatus = .running
  pgdir : (k.envs 0).envPgdir = some d
  stack : pteOf k.pmap d (PGNUM STACKVA) = pte
  unmapped : ∀ v, n ≤ v → v < 65536 → ¬ present (pteOf k.pmap d v)
  tables : ∀ i, i * 1024 < n → present (k.pmap.mem d i)
  ref : (k.pmap.pages (ppn pte)).ppRef.toNat = n + r

section Overflow

variable {pte : Word} {d r n : Nat}

theorem MappedTimes.pageMapArgs (h : MappedTimes pte d r n R D l k) (hP : present pte)
    (hn : n < 65536) {k₁ : Kernel} (htf : OnlyTf k k₁) :
    PageMapArgs k₁ 0 0 0 0#32 STACKVA 0#32 (pageAddr n) (PTE_P ||| PTE_U) d d where
  srcenv := rfl
  dstenv := rfl
  src_lt := by decide
  dst_lt := by
    rw [BitVec.lt_def, toNat_pageAddr (by omega), toNat_UTOP]
    omega
  src_aligned := by decide
  dst_aligned := by
    rw [aligned, toNat_pageAddr (by omega), PGSIZE]
    omega
  perm_ok := by decide
  srcdir := (htf.pgdir 0).trans h.pgdir
  dstdir := (htf.pgdir 0).trans h.pgdir
  page := by
    refine ⟨?_, fun hc => absurd (by decide) hc⟩
    rw [htf.pmap, h.stack]
    exact hP

/-- One more mapping: the count goes up by one, modulo its width. -/
theorem MappedTimes.step (h : MappedTimes pte d r n R D l k) (hP : present pte) (hr : 1 ≤ r)
    (hn : n + r ≤ 65535) : ∃ k', Reach demoSystem (fun _ a => CallAction a) k' ∧ (k'.envs 0).envPgdir = some d ∧
      pteOf k'.pmap d (PGNUM STACKVA) = pte ∧
      (k'.pmap.pages (ppn pte)).ppRef = (k.pmap.pages (ppn pte)).ppRef + 1#16 ∧
      (n + r ≠ 65535 → ∃ l', MappedTimes pte d r (n + 1) R D l' k') := by
  have htf := OnlyTf.setEnv k 0 (callFrame (mapCall n))
  generalize hk₁ : k.setEnv 0 { k.envs 0 with envTf := callFrame (mapCall n) } = k₁ at htf
  have h₁ : MemInv R D l k₁ := h.inv.congr htf.sameDirs htf.pmap
  have hd := h.inv.envs.dir 0 d h.pgdir
  have ha := h.pageMapArgs hP (by omega) htf
  have hpte : pteOf k₁.pmap d (PGNUM STACKVA) = pte := by rw [htf.pmap, h.stack]
  have hnum : PGNUM (pageAddr n) = n := PGNUM_pageAddr (by omega)
  have hpdx : PDX (pageAddr n) = n / 1024 := PDX_pageAddr (by omega)
  have hv : n < NUVPN := by
    have : NUVPN = 977920 := rfl
    omega
  have hne : PGNUM STACKVA ≠ n := by
    have : PGNUM STACKVA = 977917 := by decide
    omega
  have hnew : ¬ present (pteOf k₁.pmap d (PGNUM (pageAddr n))) := by
    rw [htf.pmap, hnum]
    exact h.unmapped n le_rfl (by omega)
  rcases h₁.sysPageMap_ok ha hd hd with ⟨s, hcode, hI, hinv⟩ | ⟨-, -, rfl⟩
  · rw [hpte] at hI hinv
    have hcall : syscallOf k₁ 0 0 0#32 (callFrame (mapCall n)).regs
        = .ok (.ret 0 { k₁ with pmap := s }) := by
      show Flow.ofRet <$> sysPageMap k₁ 0 0#32 STACKVA 0#32 (pageAddr n) (PTE_P ||| PTE_U) = _
      rw [hcode]
      rfl
    have htf' := OnlyTf.setEax { k₁ with pmap := s } 0 0
    generalize hk₂ : setEax { k₁ with pmap := s } 0 0 = k₂ at htf'
    have hx : exec k (callAction 0 (mapCall n)) = .ok (.left (k₂.runs 0 0)) := by
      subst hk₁ hk₂
      exact trap_syscall_ret rfl rfl rfl h.curenv (by rw [h.status]; exact nofun) hcall h.curenv
        ((htf.status 0).trans h.status) ((htf.pgdir 0).trans h.pgdir)
    have hpmap : (k₂.runs 0 0).pmap = s := htf'.pmap
    have hpg : ((k₂.runs 0 0).envs 0).envPgdir = some d :=
      (runs_sameEnv 0).pgdir.trans ((htf'.pgdir 0).trans ((htf.pgdir 0).trans h.pgdir))
    have hreach : Reach demoSystem (fun _ a => CallAction a) (k₂.runs 0 0) :=
      h.reach.step (callAction_enabled _ (by decide) h.mode) (mapCall_action (by omega)) hx
    have hpages : (k₁.pmap.pages (ppn pte)).ppRef = (k.pmap.pages (ppn pte)).ppRef := by
      rw [htf.pmap]
    have hstack : pteOf s d (PGNUM STACKVA) = pte := by
      rw [hI.pte d hd _ (by decide), hnum, if_neg fun hc => hne hc.2]
      exact hpte
    have href : (s.pages (ppn pte)).ppRef = (k.pmap.pages (ppn pte)).ppRef + 1#16 := by
      rw [hI.ref hnew, hpages]
    refine ⟨_, hreach, hpg, by rw [hpmap, hstack], by rw [hpmap, href], fun hn' => ?_⟩
    obtain ⟨l', hinv', hlen⟩ := hinv (by rw [hpages, h.ref]; omega)
    refine ⟨l', hreach, ?_, ?_, ?_, ?_, ?_, hpg, by rw [hpmap, hstack], ?_, ?_, ?_⟩
    · have h₂ : MemInv R D l' { k₁ with pmap := s } := h₁.withPmap hinv'
      exact (h₂.congr htf'.sameDirs htf'.pmap).congr runs_sameDirs rfl
    · have hroom := h.room
      rw [hpdx] at hlen
      split at hlen
      · omega
      · next hno =>
        -- a table is only missing at the first page it covers
        have hdvd : ¬ n / 1024 * 1024 < n := by
          intro hc
          rw [htf.pmap] at hno
          exact hno (h.tables _ hc)
        omega
    · rw [Kernel.curenv, runs_cpus, if_pos rfl]
    · rw [runs_cpus, if_pos rfl]
    · rw [runs_status, if_pos rfl]
    · intro v hnv hlt
      rw [hpmap, hI.pte d hd v (by have : NUVPN = 977920 := rfl; omega), hnum,
        if_neg fun hc => by omega, htf.pmap]
      exact h.unmapped v (by omega) hlt
    · intro i hi
      rw [hpmap]
      by_cases hin : i = n / 1024
      · rw [hin, ← hpdx]
        exact hI.pde
      · refine hI.pde_mono d hd i (by have : NUPDE = 955 := rfl; omega) ?_
        rw [htf.pmap]
        exact h.tables i (by omega)
    · have href' := congrArg BitVec.toNat href
      rw [BitVec.toNat_add, BitVec.toNat_ofNat, h.ref] at href'
      rw [hpmap]
      omega
  · have := h.room
    rw [List.length_nil] at this
    omega

theorem demoSystem_mapped : ∃ pte d r R D, present pte ∧ 1 ≤ r ∧ r ≤ 65535 ∧
    ∀ n, n + r ≤ 65535 → ∃ l k, MappedTimes pte d r n R D l k := by
  obtain ⟨s₀, D, l, d₀, d₁, k₀, k, h⟩ := demoSystem_runs
  obtain ⟨q, hq⟩ := h.booted.stack₀
  have hstack : pteOf k.pmap d₀ (PGNUM STACKVA) = mkPte q (PTE_U ||| PTE_W) := by
    rw [h.pmap, hq (PGNUM STACKVA) (by decide), if_pos (by rfl)]
  have hP : present (mkPte q (PTE_U ||| PTE_W)) := present_mkPte q _
  generalize mkPte q (PTE_U ||| PTE_W) = pte at hstack hP
  have hpos := h.inv.pmap.page_ref_pos (v := PGNUM STACKVA) h.booted.dirs.1 (by decide)
    (by rw [hstack]; exact hP)
  rw [hstack] at hpos
  have hlt := (k.pmap.pages (ppn pte)).ppRef.isLt
  refine ⟨pte, d₀, (k.pmap.pages (ppn pte)).ppRef.toNat, notFree s₀, D, hP, hpos, by omega, ?_⟩
  intro n hn
  induction n with
  | zero =>
    refine ⟨l, k, .boot h.booted.init h.first, h.inv.toMemInv, h.booted.room, h.curenv, ?_, ?_,
      h.pgdir₀, hstack, ?_, ?_, (Nat.zero_add _).symm⟩
    · rw [h.cpus 0, if_pos rfl]
    · rw [h.status 0, if_pos rfl]
    · intro v _ hv
      have hne : v ≠ STACKPN := by
        have : STACKPN = 977917 := by decide
        omega
      rw [h.pmap, hq v (by have : NUVPN = 977920 := rfl; omega), if_neg hne]
      exact not_present_zero
    · intro i hi
      omega
  | succ n ih =>
    obtain ⟨l', k', hm⟩ := ih (by omega)
    obtain ⟨k'', -, -, -, -, hnext⟩ := hm.step hP hpos (by omega)
    obtain ⟨l'', hm'⟩ := hnext (by omega)
    exact ⟨l'', k'', hm'⟩

end Overflow

/-- The first environment of `demoSystem` maps its stack page until the page has 65535 mappings, and then
once more: its count is zero, although it is mapped. -/
theorem ref_overflows : ∃ k d, Reach demoSystem (fun _ a => CallAction a) k ∧
    (k.envs 0).envPgdir = some d ∧ present (pteOf k.pmap d (PGNUM STACKVA)) ∧
    (k.pmap.pages (ppn (pteOf k.pmap d (PGNUM STACKVA)))).ppRef = 0#16 ∧ ¬ CountsExact k := by
  obtain ⟨pte, d, r, R, D, hP, hr, hle, hall⟩ := demoSystem_mapped
  obtain ⟨l, k, hm⟩ := hall (65535 - r) (by omega)
  obtain ⟨k', hreach, hpg, hstack, href, -⟩ := hm.step hP hr (by omega)
  have hzero : (k'.pmap.pages (ppn pte)).ppRef = 0#16 := by
    apply BitVec.eq_of_toNat_eq
    rw [href, BitVec.toNat_add, BitVec.toNat_ofNat, hm.ref, BitVec.toNat_ofNat]
    omega
  have hP' : present (pteOf k'.pmap d (PGNUM STACKVA)) := by
    rw [hstack]
    exact hP
  refine ⟨k', d, hreach, hpg, hP', by rw [hstack, hzero], fun hc => ?_⟩
  have hcount := hc.count 0 d STACKVA hpg (by decide) hP'
  rw [hstack, hzero] at hcount
  have hmem : (d, PGNUM STACKVA) ∈ (k'.memState.dirs ×ˢ Finset.range NUVPN).filter fun x =>
      named (pteOf k'.memState.pmap x.1 x.2) = some (ppn pte) := by
    refine Finset.mem_filter.mpr ⟨Finset.mem_product.mpr ⟨?_, ?_⟩, ?_⟩
    · exact mem_dirsOf.mpr ⟨0, by decide, hpg⟩
    · exact Finset.mem_range.mpr (PGNUM_lt_NUVPN (by decide))
    · rw [← hstack]
      exact named_present hP'
  exact absurd hcount.symm (Finset.card_pos.mpr ⟨_, hmem⟩).ne'

end Jos
