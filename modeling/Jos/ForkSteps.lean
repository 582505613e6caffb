import Jos.ForkCalls
import Jos.ForkInv

/-!
# The steps of a family keep its invariant

Each step of the family is a run of the system that copies on write and shows the same.
-/

namespace Jos

open Pmap Kernel Except

variable {R : Set Nat} {sys : System} {σ σ' : ForkState} {k k' : Kernel} {c e n : Nat}

namespace ForkInv

variable {id addr va : Word} {b : BitVec 8}

/-- Loads. -/
theorem step_load (h : ForkInv R σ) (hacts : Acts σ c e) (hruns : (σ.point e).runs = true) (hva : va < USTACKTOP)
    (hb : loadByte σ.kernel.pmap (σ.dir c) va USER_R = some b) :
    Cow.Run σ.cow [.load e (PGNUM va) (pgOff va) b] σ.cow := by
  have htop : USTACKTOP < UTOP := by decide
  obtain ⟨hP, rfl⟩ := h.load hacts.executes.1 (BitVec.lt_trans hva htop) hb
  have hentry := cow_entry_eq_some.mpr ⟨ForkPoint.ne_out hruns, h.tracked hruns hacts.idle hva hP, hP, rfl, rfl⟩
  exact Cow.Run.start.step (.load (pgOff va) (ForkPoint.task_alive hruns) hentry)

/-- The abstract state when the machine has stored a byte. -/
theorem cow_store (hpte : ∀ e v, v < NUVPN → k'.pte e v = σ.kernel.pte e v) {f : Nat}
    (hbytes : physBytes k'.pmap = Function.update (physBytes σ.kernel.pmap) (f, (pgOff va).val) b) :
    (σ.withKernel k').cow = σ.cow.write f (pgOff va) b := by
  have hpage : (σ.withKernel k').cow.page = (σ.cow.write f (pgOff va) b).page := by
    funext g i
    show physBytes k'.pmap (g, i) = _
    rw [hbytes, Cow.write_page]
    by_cases hg : g = f
    · rw [if_pos hg, hg]
      by_cases hi : i = pgOff va
      · rw [hi, Function.update_self, Function.update_self]
      · rw [Function.update_of_ne hi, Function.update_of_ne fun hc => hi (Fin.ext (Prod.mk.inj hc).2)]
        rfl
    · rw [if_neg hg, Function.update_of_ne fun hc => hg (Prod.mk.inj hc).1]
      rfl
  rw [cow_withKernel (fun e v hv => hpte e v hv.lt) fun e _ _ _ => hpte e _ temp_lt, hpage]
  rfl

/-- Stores to the stack and below. -/
theorem step_store (h : ForkInv R σ) (hacts : Acts σ c e) (hruns : (σ.point e).runs = true) (hva : va < USTACKTOP)
    (hm : Machine sys σ.kernel (.store c va b) k') :
    ForkInv R (σ.withKernel k') ∧ Cow.Run σ.cow [storeEvent (σ.point e) e va b] (σ.withKernel k').cow := by
  have hstores := h.sys.exec_store hm.enabled hacts.executes.1 hm.exec
  have hflags := UserFlags.write.entry hstores.writable
  have hW := decide_eq_true (and_W_of_writable hstores.writable)
  have hentry := cow_entry_eq_some.mpr
    ⟨ForkPoint.ne_out hruns, h.tracked hruns hacts.idle hva hflags, hflags, rfl, hW⟩
  have hidle : σ.cow.fill e = none := by
    show (σ.fault e).bind _ = none
    rw [hacts.idle]
    rfl
  refine h.machine hstores.kept ⟨hm.sysInv h.sys trivial, hm.indexed h.sys h.indexed⟩ hstores.pte ?_
  rw [cow_store hstores.pte hstores.bytes]
  unfold storeEvent
  split
  · next hid => exact Cow.Run.start.step (.store (pgOff va) b (ForkPoint.task_running hruns hid) hidle hentry)
  · next id hid => exact Cow.Run.start.step (.spill (pgOff va) b (ForkPoint.task_child hid) hidle hentry)

/-- Nobody in the family sees a change of other pages. -/
theorem cow_memory (hpte : ∀ e v, Tracked v → k'.pte e v = σ.kernel.pte e v)
    (htemp : ∀ e addr n, σ.fault e = some (.memcpy addr n) →
      k'.pte e (PGNUM PFTEMP) = σ.kernel.pte e (PGNUM PFTEMP))
    (hpage : ∀ f, σ.cow.Used f → (σ.withKernel k').cow.page f = σ.cow.page f) :
    Cow.Run σ.cow [] (σ.withKernel k').cow := by
  rw [cow_withKernel hpte htemp]
  exact Cow.Run.start.step (.memory hpage)

/-- A page above the stack, or one of an environment outside, is not a frame of the family. -/
theorem not_used (h : ForkInv R σ) {v : Nat} (hv : v < NUVPN) (hP : present (σ.kernel.pte e v))
    (hother : PGNUM USTACKTOP ≤ v ∨ σ.point e = .out) : ¬ σ.cow.Used (ppn (σ.kernel.pte e v)) := by
  have htemp : PGNUM PFTEMP < PGNUM USTACKTOP := by decide
  rintro (⟨e', v', w, hentry⟩ | ⟨e', v', done, hfill⟩)
  · obtain ⟨hin, hv', hP', hf, -⟩ := cow_entry_eq_some.mp hentry
    rcases h.pages.apart e' v' e v hin hv' hP' hv hP hf.symm with ⟨hin', hv'⟩ | ⟨rfl, rfl, -⟩
    · rcases hother with hle | hout
      · exact absurd hv'.1 hle.not_gt
      · exact hin' hout
    · rcases hother with hle | hout
      · exact absurd htemp hle.not_gt
      · exact hin hout
  · obtain ⟨x, hx, hfill'⟩ := Option.bind_eq_some_iff.mp hfill
    cases x with
    | memcpy addr n =>
      obtain ⟨-, hrest⟩ := Prod.mk.inj (Option.some.inj hfill')
      obtain ⟨rfl, rfl⟩ := (h.pages.own e' addr n hx).2 e v hv hP (Prod.mk.inj hrest).1.symm
      rcases hother with hle | hout
      · exact absurd htemp hle.not_gt
      · exact ForkPoint.ne_out (h.pages.runs e _ hx) hout
    | handler | alloc | unmap | panicked => cases hfill'

/-- Stores above the stack, or by somebody else. -/
theorem step_storeAbove (h : ForkInv R σ) (hex : Executes σ.kernel c e) (hva : ¬ va < USTACKTOP ∨ σ.point e = .out)
    (hm : Machine sys σ.kernel (.store c va b) k') :
    ForkInv R (σ.withKernel k') ∧ Cow.Run σ.cow [] (σ.withKernel k').cow := by
  have hstores := h.sys.exec_store hm.enabled hex.1 hm.exec
  have hP := UserFlags.write.entry hstores.writable
  have hused := h.not_used (PGNUM_lt_NUVPN hstores.below) hP
    (hva.imp_left fun hva => not_lt.mp fun hc => hva (PGNUM_lt_iff.mp hc))
  refine h.machine hstores.kept ⟨hm.sysInv h.sys trivial, hm.indexed h.sys h.indexed⟩ hstores.pte
    (cow_memory (fun e v hv => hstores.pte e v hv.lt) (fun e _ _ _ => hstores.pte e _ temp_lt)
      fun f hf => funext fun i => ?_)
  show physBytes k'.pmap (f, i) = physBytes σ.kernel.pmap (f, i)
  rw [hstores.bytes, Function.update_of_ne]
  rintro hc
  obtain ⟨rfl, -⟩ := Prod.mk.inj hc
  exact hused hf

/-- Interrupts, and system calls that matter to nobody. -/
theorem step_quiet (h : ForkInv R σ) {a : Action} (hm : Machine sys σ.kernel a k') (hq : Quiet σ.kernel a) :
    ForkInv R (σ.withKernel k') ∧ Cow.Run σ.cow [] (σ.withKernel k').cow := by
  have hrests := h.sys.exec_quiet hm.enabled hq hm.exec
  have hpte : ∀ e v, v < NUVPN → k'.pte e v = σ.kernel.pte e v := fun e v _ => hrests.toKept.pte hrests.pmap e v
  refine h.machine hrests.toKept ⟨hm.sysInv h.sys hq.safe, hm.indexed h.sys h.indexed⟩ hpte
    (cow_memory (fun e v hv => hpte e v hv.lt) (fun e _ _ _ => hpte e _ temp_lt) fun f _ => funext fun i => ?_)
  show physBytes k'.pmap (f, i) = _
  rw [hrests.pmap]
  rfl

/-- A store to a page that is mapped faults. -/
theorem step_fault (h : ForkInv R σ) {gate : Gate} {input : Word} {tf : Trapframe} (hacts : Acts σ c e)
    (hruns : (σ.point e).runs = true) (hva : va < USTACKTOP)
    (hmapped : translate σ.kernel.pmap (σ.dir c) va USER_R ≠ none) (hno : tf.trapno = T_PGFLT)
    (hm : Machine sys σ.kernel (.trap c gate va input tf) k') (hlive : (k'.envs e).envStatus ≠ .free) :
    ForkInv R (σ.serve k' e (some (.handler va tf.err))) ∧
      Cow.Run σ.cow [] (σ.serve k' e (some (.handler va tf.err))).cow := by
  have htop : USTACKTOP < UTOP := by decide
  have hin := ForkPoint.ne_out hruns
  have hcall := h.sys.exec_fault hm.enabled hacts.executes.1 (h.live e hin).2 hno hm.exec hlive
  have hsafe : Safe σ.kernel (.trap c gate va input tf) := by
    intro hsys
    rw [hno] at hsys
    exact absurd hsys (by decide)
  obtain ⟨p, hp⟩ := Option.ne_none_iff_exists'.mp hmapped
  have hb : loadByte σ.kernel.pmap (σ.dir c) va USER_R
      = some (byteOf (σ.kernel.pmap.mem p (wordOf va)) (va.toNat % 4)) := by
    rw [loadByte, hp]
    rfl
  have hP := (h.load hacts.executes.1 (BitVec.lt_trans hva htop) hb).1
  refine h.serve hcall.kept ⟨hm.sysInv h.sys hsafe, hm.indexed h.sys h.indexed⟩
    ((h.pages.faults hruns hacts.idle (h.tracked hruns hacts.idle hva hP) hP).congr hcall.pte) ?_
  rw [cow_serve_none (fun addr n hx => ?_) fun addr n hx => ?_]
  · refine cow_memory (fun e v hv => hcall.pte e v hv.lt) (fun e _ _ _ => hcall.pte e _ temp_lt) fun f hf =>
      funext fun i => ?_
    show physBytes k'.pmap (f, i) = physBytes σ.kernel.pmap (f, i)
    rw [physBytes, physBytes, hcall.mem f]
    rintro v hle hv hP' rfl
    exact h.not_used hv hP' (Or.inl hle) hf
  · rw [hacts.idle] at hx
    cases hx
  · cases hx

/-- The tests of `pgfault`. -/
theorem step_handler (h : ForkInv R σ) {err pte : Word} (hex : Executes σ.kernel c e)
    (hf : σ.fault e = some (.handler addr err)) (hpte : readPte σ.kernel.pmap (σ.dir c) (PGNUM addr) = some pte) :
    ForkInv R (σ.serve σ.kernel e (some (faultKind addr err pte))) ∧
      Cow.Run σ.cow [] (σ.serve σ.kernel e (some (faultKind addr err pte))).cow := by
  obtain rfl := read_pte h.sys hex.1 (h.pages.target e _ addr hf rfl).1.lt hpte
  have hpages : Pages σ.kernel.pte σ.point
      (Function.update σ.fault e (some (faultKind addr err (σ.kernel.pte e (PGNUM addr))))) := by
    unfold faultKind
    split
    · exact h.pages.panics hf
    · split
      · exact h.pages.panics hf
      · next hcow => exact h.pages.handler hf hcow
  refine h.serve (.refl _) ⟨h.sys, h.indexed⟩ hpages ?_
  rw [cow_serve_none (fun addr n hx => ?_) fun addr n hx => ?_]
  · exact .start
  · rw [hf] at hx
    cases hx
  · unfold faultKind at hx
    split at hx
    · cases hx
    · split at hx
      · cases hx
      · cases hx

/-- A member that is served is known to the kernel. -/
theorem self (h : ForkInv R σ) {i : Nat} {b : Bool} (hin : σ.point e ≠ .out)
    (hi : envid2env σ.kernel e (σ.getenvid e) b = some i) : i = e :=
  envid2env_self (h.indexed e) (h.live e hin).1 hi

/-- `sys_page_alloc` of `pgfault`. -/
theorem step_alloc (h : ForkInv R σ) {ret : Word} (hf : σ.fault e = some (.alloc addr))
    (hc : Calls sys σ.kernel e (pageAllocCall (σ.getenvid e) PFTEMP RW_PERM) ret k') :
    ForkInv R (σ.serve k' e (some (.memcpy addr 0))) ∧
      Cow.Run σ.cow [] (σ.serve k' e (some (.memcpy addr 0))).cow := by
  have hva : PFTEMP < UTOP := by decide
  have hruns := h.pages.runs e _ hf
  have hin := ForkPoint.ne_out hruns
  obtain ⟨i, p, hi, hp, hfresh, -, hkept, hremaps⟩ := hc.alloc h.sys (h.live e hin).2 hva
  obtain rfl := h.self hin hi
  have hppn : ppn (mkPte p RW_PERM) = p := ppn_mkPte hp (by decide)
  refine h.serve hkept (hc.alloc_sysInv h.sys h.indexed hva)
    (h.pages.alloc hf hremaps.pte (present_mkPte _ _) (by rwa [hppn])) ?_
  obtain ⟨ht, hP⟩ := h.pages.target i _ addr hf rfl
  have hentry := cow_entry_eq_some.mpr ⟨hin, ht, hP, rfl, rfl⟩
  have hself : k'.pte i (PGNUM PFTEMP) = mkPte p RW_PERM := by
    rw [hremaps.pte i _ temp_lt, if_pos ⟨rfl, rfl⟩]
  have hempty : {j : Fin PGSIZE | j.val < 0} = ∅ := by
    ext j
    exact iff_of_false (Nat.not_lt_zero _) (Set.notMem_empty j)
  rw [cow_serve, hself, hppn, cow_withKernel (fun e v hv => ?_) fun e addr' n hx => ?_]
  · show Cow.Run _ _ (Cow.State.setFill _ _ (some (PGNUM addr, p, {j : Fin PGSIZE | j.val < 0})))
    rw [hempty]
    refine run_memory (h.page_remaps hremaps) (.fault (ForkPoint.task_alive hruns) hentry fun hused => ?_)
    obtain ⟨e', v', hv', hP', hp'⟩ := h.used hused
    exact hfresh e' v' hv' hP' hp'
  · rw [hremaps.pte e v hv.lt, if_neg fun hc => hv.2 hc.2]
  · have hne : e ≠ i := by
      rintro rfl
      rw [hf] at hx
      cases hx
    rw [hremaps.pte e _ temp_lt, if_neg fun hc => hne hc.1]

/-- One byte of `memcpy` of `pgfault`. -/
theorem step_memcpy (h : ForkInv R σ) (hex : Executes σ.kernel c e) (hf : σ.fault e = some (.memcpy addr n))
    (hn : n < PGSIZE)
    (hb : loadByte σ.kernel.pmap (σ.dir c) (ROUNDDOWN addr PGSIZE + BitVec.ofNat 32 n) USER_R = some b)
    (hm : Machine sys σ.kernel (.store c (PFTEMP + BitVec.ofNat 32 n) b) k') :
    ForkInv R (σ.serve k' e (some (.memcpy addr (n + 1)))) ∧
      Cow.Run σ.cow [] (σ.serve k' e (some (.memcpy addr (n + 1)))).cow := by
  have htop : USTACKTOP < UTOP := by decide
  have hin := ForkPoint.ne_out (h.pages.runs e _ hf)
  obtain ⟨ht, hP⟩ := h.pages.target e _ addr hf rfl
  have htemp : ROUNDDOWN PFTEMP PGSIZE = PFTEMP := by decide
  obtain ⟨hpage, hoff⟩ := pgOff_add addr hn
  obtain ⟨hpage', hoff'⟩ := pgOff_add PFTEMP hn
  rw [htemp] at hpage' hoff'
  have hva : ROUNDDOWN addr PGSIZE + BitVec.ofNat 32 n < USTACKTOP := by
    rw [← PGNUM_lt_iff, hpage]
    exact ht.1
  obtain ⟨-, rfl⟩ := h.load hex.1 (BitVec.lt_trans hva htop) hb
  rw [hpage, hoff] at hm
  have hstores := h.sys.exec_store hm.enabled hex.1 hm.exec
  have hbytes := hstores.bytes
  rw [hpage'] at hbytes
  have hfill : σ.cow.fill e
      = some (PGNUM addr, ppn (σ.kernel.pte e (PGNUM PFTEMP)), {i : Fin PGSIZE | i.val < n}) := by
    rw [cow_fill, hf]
    rfl
  have hentry := cow_entry_eq_some.mpr ⟨hin, ht, hP, rfl, rfl⟩
  have hinsert : {i : Fin PGSIZE | i.val < n + 1} = insert ⟨n, hn⟩ {i : Fin PGSIZE | i.val < n} := by
    ext i
    rw [Set.mem_insert_iff, Fin.ext_iff]
    exact Nat.lt_succ_iff_lt_or_eq.trans or_comm
  refine h.serve hstores.kept ⟨hm.sysInv h.sys trivial, hm.indexed h.sys h.indexed⟩
    ((h.pages.memcpy hf).congr hstores.pte) ?_
  rw [cow_serve, cow_store hstores.pte hbytes, hstores.pte e _ temp_lt, hoff']
  show Cow.Run _ _ (Cow.State.setFill _ _ (some (PGNUM addr, _, {i : Fin PGSIZE | i.val < n + 1})))
  rw [hinsert]
  exact Cow.Run.start.step (.copy ⟨n, hn⟩ hfill hentry)

/-- `sys_page_map` of `pgfault`. -/
theorem step_map (h : ForkInv R σ) {ret : Word} (hf : σ.fault e = some (.memcpy addr PGSIZE))
    (hc : Calls sys σ.kernel e
      (pageMapCall (σ.getenvid e) PFTEMP (σ.getenvid e) (ROUNDDOWN addr PGSIZE) RW_PERM) ret k') :
    ForkInv R (σ.serve k' e (some (.unmap addr))) ∧ Cow.Run σ.cow [] (σ.serve k' e (some (.unmap addr))).cow := by
  have hin := ForkPoint.ne_out (h.pages.runs e _ hf)
  obtain ⟨ht, -⟩ := h.pages.target e _ addr hf rfl
  obtain ⟨i, j, hi, hj, hP, -, hkept, hremaps⟩ := hc.map h.sys (h.live e hin).2
  have hsys := hc.map_sysInv (v := PGNUM PFTEMP) h.sys h.indexed hi
  obtain rfl := h.self hin hi
  obtain rfl := h.self hin hj
  rw [PGNUM_ROUNDDOWN] at hremaps
  have hppn : ppn (mkPte (ppn (σ.kernel.pte j (PGNUM PFTEMP))) RW_PERM) = ppn (σ.kernel.pte j (PGNUM PFTEMP)) :=
    ppn_mkPte (ppn_lt _) (by decide)
  refine h.serve hkept (hsys fun e' v' hv' hP' heq => ((h.pages.own j addr _ hf).2 e' v' hv' hP' heq).2)
    (h.pages.map hf hremaps.pte (present_mkPte _ _) hppn) ?_
  have hfill : σ.cow.fill j
      = some (PGNUM addr, ppn (σ.kernel.pte j (PGNUM PFTEMP)), {i : Fin PGSIZE | i.val < PGSIZE}) := by
    rw [cow_fill, hf]
    rfl
  have hframe : entryOf (mkPte (ppn (σ.kernel.pte j (PGNUM PFTEMP))) RW_PERM)
      = some (ppn (σ.kernel.pte j (PGNUM PFTEMP)), true) := entryOf_mkPte (ppn_lt _) (by decide) (by decide)
  rw [cow_serve, cow_withKernel_remapped hremaps.pte hin ht hframe]
  exact run_memory (h.page_remaps hremaps) (.install hfill fun i => i.isLt)

/-- `sys_page_unmap` of `pgfault`. -/
theorem step_unmap (h : ForkInv R σ) {ret : Word} (hf : σ.fault e = some (.unmap addr))
    (hc : Calls sys σ.kernel e (pageUnmapCall (σ.getenvid e) PFTEMP) ret k') :
    ForkInv R (σ.serve k' e none) ∧ Cow.Run σ.cow [] (σ.serve k' e none).cow := by
  have hin := ForkPoint.ne_out (h.pages.runs e _ hf)
  obtain ⟨i, w, hi, hw, hkept, hremaps⟩ := hc.unmap h.sys (h.live e hin).2
  obtain rfl := h.self hin hi
  have hnone : ∀ addr' n, σ.fault i ≠ some (.memcpy addr' n) := fun addr' n hx => by
    rw [hf] at hx
    cases hx
  have hsys := hc.harmless_sysInv (m := SYS_page_unmap) h.sys h.indexed rfl (by decide) (by decide)
  refine h.serve hkept hsys (h.pages.unmap hremaps.pte hw) ?_
  rw [cow_serve_none hnone fun addr' n hx => by cases hx]
  refine cow_memory (fun e v hv => ?_) (fun e addr' n hx => ?_) (h.page_remaps hremaps)
  · rw [hremaps.pte e v hv.lt, if_neg fun hc => hv.2 hc.2]
  · have hne : e ≠ i := by
      rintro rfl
      exact hnone addr' n hx
    rw [hremaps.pte e _ temp_lt, if_neg fun hc => hne hc.1]

/-- `fork` is called. -/
theorem step_fork (h : ForkInv R σ) (first : Bool) (hacts : Acts σ c e) (hp : σ.point e = .program) :
    ForkInv R (σ.goto σ.kernel e (if first then .handlerStack else .exofork)) ∧
      Cow.Run σ.cow [] (σ.goto σ.kernel e (if first then .handlerStack else .exofork)).cow := by
  have hin : σ.point e ≠ .out := by
    rw [hp]
    decide
  have htask : (σ.point e).task = .running := by rw [hp, ForkPoint.task]
  split
  · exact h.walk hin hacts.idle rfl htask.symm (fun _ _ hc => by cases hc) (fun _ hc => by cases hc)
      fun _ _ hc => by cases hc
  · exact h.walk hin hacts.idle rfl htask.symm (fun _ _ hc => by cases hc) (fun _ hc => by cases hc)
      fun _ _ hc => by cases hc

/-- `set_pgfault_handler` gets a stack for exceptions. -/
theorem step_handlerStack (h : ForkInv R σ) {ret : Word} (hf : σ.fault e = none) (hp : σ.point e = .handlerStack)
    (hc : Calls sys σ.kernel e (pageAllocCall (σ.getenvid e) UXSTACKBASE PTE_SYSCALL) ret k') :
    ForkInv R (σ.goto k' e .handlerUpcall) ∧ Cow.Run σ.cow [] (σ.goto k' e .handlerUpcall).cow := by
  have hva : UXSTACKBASE < UTOP := by decide
  have hin : σ.point e ≠ .out := by
    rw [hp]
    decide
  obtain ⟨i, p, hi, hlt, hfresh, -, hkept, hremaps⟩ := hc.alloc h.sys (h.live e hin).2 hva
  obtain rfl := h.self hin hi
  have hppn : ppn (mkPte p PTE_SYSCALL) = p := ppn_mkPte hlt (by decide)
  refine h.goto hin rfl hkept (hc.alloc_sysInv h.sys h.indexed hva)
    (h.pages.handlerStack hp hf hremaps.pte (by rwa [hppn])) ?_
  rw [cow_goto_same hin rfl (by rw [hp]; rfl)]
  refine cow_memory (fun e v hv => ?_) (fun e _ _ _ => ?_) (h.page_remaps hremaps)
  · rw [hremaps.pte e v hv.lt, if_neg fun hc : e = i ∧ v = PGNUM UXSTACKBASE => not_tracked_xstack (hc.2 ▸ hv)]
  · rw [hremaps.pte e _ temp_lt, if_neg fun hc => xstack_ne hc.2.symm]

/-- `sys_env_set_pgfault_upcall`, for itself and for a child. -/
theorem step_upcall (h : ForkInv R σ) {p : ForkPoint} {func ret : Word} (hin : σ.point e ≠ .out)
    (hc : Calls sys σ.kernel e (upcallCall id func) ret k') (hp : p.runs = true) (htask : p.task = (σ.point e).task)
    (hpages : Pages σ.kernel.pte (Function.update σ.point e p) σ.fault) :
    ret = 0#32 ∧ ForkInv R (σ.goto k' e p) ∧ Cow.Run σ.cow [] (σ.goto k' e p).cow := by
  obtain ⟨hret, hrests⟩ := hc.upcall h.sys (h.live e hin).2
  have hpte : ∀ e v, v < NUVPN → k'.pte e v = σ.kernel.pte e v := fun e v _ => hrests.toKept.pte hrests.pmap e v
  refine ⟨hret, h.goto hin hp hrests.toKept
    (hc.harmless_sysInv (m := SYS_env_set_pgfault_upcall) h.sys h.indexed rfl (by decide) (by decide))
    (hpages.congr hpte) ?_⟩
  rw [cow_goto_same hin hp htask]
  refine cow_memory (fun e v hv => hpte e v hv.lt) (fun e _ _ _ => hpte e _ temp_lt) fun f _ => funext fun i => ?_
  show physBytes k'.pmap (f, i) = _
  rw [hrests.pmap]
  rfl

/-- `sys_exofork`. -/
theorem step_exofork (h : ForkInv R σ) {ret : Word} (hf : σ.fault e = none) (hp : σ.point e = .exofork)
    (hc : Calls sys σ.kernel e exoforkCall ret k') :
    ForkInv R ((σ.goto k' e (afterExofork ret)).goto k' (ENVX ret) (.child e)) ∧
      Cow.Run σ.cow [.fork e (ENVX ret)] ((σ.goto k' e (afterExofork ret)).goto k' (ENVX ret) (.child e)).cow := by
  have hin : σ.point e ≠ .out := by
    rw [hp]
    decide
  obtain ⟨D, l, hmem⟩ := h.sys.mem
  obtain ⟨i, hdir, hst, hid, hne, hothers, hremaps⟩ := hc.exofork h.sys (h.live e hin).2
  obtain ⟨hsys, hindexed⟩ := hc.harmless_sysInv (m := SYS_exofork) h.sys h.indexed rfl (by decide) (by decide)
  have hafter : afterExofork ret = .loop ret 0 := by
    rw [afterExofork, if_neg hc.succeeds.not_gt, if_neg hne]
  have hout : σ.point i = .out := by
    by_contra hc
    exact (h.live i hc).1 ((hmem.life i).mpr hdir)
  -- The new environment has no pages, as before.
  have hpte : ∀ e v, v < NUVPN → k'.pte e v = σ.kernel.pte e v := by
    intro e v hv
    rw [hremaps.pte e v hv]
    split
    · next hc => rw [hc.1, pte_of_none hdir]
    · rfl
  have hno : ∀ v, Tracked v → ¬ present (k'.pte i v) := by
    intro v hv
    rw [hpte i v hv.lt, pte_of_none hdir]
    decide
  have hpages := h.pages.exofork hp hf hne (by rw [hid, hout]) fun v => by
    rw [hid, pte_of_none hdir]
    decide
  have hcow : ((σ.goto k' e (.loop ret 0)).goto k' i (.child e)).cow
      = ({ σ.cow with page := (σ.withKernel k').cow.page }.setTask e (.forking i)).setTask i (.growing e) := by
    have hborn := cow_goto_born (σ := σ.goto k' e (.loop ret 0)) (p := .child e) hno
    refine hborn.trans ?_
    rw [cow_goto hin rfl, cow_withKernel (fun e v hv => hpte e v hv.lt) fun e _ _ _ => hpte e _ temp_lt]
    show Cow.State.setTask (Cow.State.setTask _ e (.forking (ENVX ret))) i (.growing e) = _
    rw [hid]
  have hrun : Cow.Run σ.cow [.fork e i] ((σ.goto k' e (.loop ret 0)).goto k' i (.child e)).cow := by
    rw [hcow]
    refine run_memory (h.page_remaps hremaps) (.fork ?_ ?_)
    · show (σ.point e).task = _
      rw [hp]
      rfl
    · show (σ.point i).task = _
      rw [hout]
      rfl
  rw [hafter, hid]
  rw [hid] at hpages
  refine ⟨⟨hsys, hindexed, fun e' hin' => ?_, fun e' parent hp' => ?_, hpages.congr hpte, (hrun.eager h.cow).1⟩, hrun⟩
  · by_cases he' : e' = i
    · show (k'.envs e').envStatus ≠ _ ∧ (k'.envs e').envStatus ≠ _
      rw [he', hst]
      exact ⟨by decide, by decide⟩
    · refine (h.sameStatus (hothers e' he')).1 ?_
      rw [goto_point, if_neg he', goto_point] at hin'
      split at hin'
      · next he => rwa [he]
      · exact hin'
  · by_cases he' : e' = i
    · show (k'.envs e').envStatus = _
      rw [he', hst]
    · refine (h.sameStatus (hothers e' he')).2 parent ?_
      rw [goto_point, if_neg he', goto_point] at hp'
      split at hp'
      · cases hp'
      · exact hp'

/-- One iteration of the loop of `fork`. -/
theorem step_loop (h : ForkInv R σ) {p : ForkPoint} (hacts : Acts σ c e) (hp : σ.point e = .loop id n)
    (hbody : loopBody σ.kernel.pmap (σ.dir c) id n = some p) :
    ForkInv R (σ.goto σ.kernel e p) ∧ Cow.Run σ.cow [] (σ.goto σ.kernel e p).cow := by
  have hin : σ.point e ≠ .out := by
    rw [hp]
    exact ForkPoint.ne_out rfl
  have hprogress : (σ.point e).progress = some (id, n) := by
    rw [hp]
    rfl
  have hn := h.pages.bound e id n hprogress
  have htop : PGNUM USTACKTOP < NUVPN := by decide
  have hmax : NUVPN < 1048576 := by decide
  have hnum : PGNUM (pageAddr n) = n := PGNUM_pageAddr (by omega)
  have htask : (σ.point e).task = .forking (ENVX id) := by rw [hp, ForkPoint.task]
  have hnext : ¬ present (σ.kernel.pte e n) → n < PGNUM USTACKTOP →
      ForkInv R (σ.goto σ.kernel e (.loop id (n + 1))) ∧
        Cow.Run σ.cow [] (σ.goto σ.kernel e (.loop id (n + 1))).cow := by
    intro hnone hlt
    refine h.walk hin hacts.idle rfl htask.symm (fun id' n' hc => ?_) (fun pn hc => ?_) fun _ _ hc => ?_
    · obtain ⟨rfl, rfl⟩ := Prod.mk.inj (Option.some.inj hc)
      refine ⟨hlt, n, hprogress, Nat.le_succ n, fun v _ hle hlt' => ?_⟩
      obtain rfl : v = n := by omega
      exact hnone
    · cases hc
    · cases hc
  unfold loopBody at hbody
  split at hbody
  · next hlt =>
    have hlt' : n < PGNUM USTACKTOP := by
      rw [← hnum]
      exact PGNUM_lt_iff.mpr hlt
    rw [PDX_pageAddr (by omega), hnum] at hbody
    obtain ⟨pde, hpde, hbody⟩ := Option.bind_eq_some_iff.mp hbody
    split at hbody
    · obtain ⟨pte, hpte, hbody⟩ := Option.bind_eq_some_iff.mp hbody
      obtain rfl := read_pte h.sys hacts.executes.1 (hlt'.trans htop) hpte
      split at hbody
      · next hP =>
        obtain rfl := Option.some.inj hbody
        have hpn : Tracked n := ⟨hlt', fun hc => h.pages.temp e hin (fun x hx => by
          rw [hacts.idle] at hx
          cases hx) (hc ▸ present_iff.mpr hP)⟩
        refine h.walk hin hacts.idle rfl htask.symm (fun id' n' hc => ?_) (fun pn hc => ?_) fun _ _ hc => ?_
        · obtain ⟨rfl, rfl⟩ := Prod.mk.inj (Option.some.inj hc)
          exact ⟨hn, n, hprogress, le_rfl, fun v _ hle hlt => absurd hlt hle.not_gt⟩
        · rwa [← Option.some.inj hc]
        · cases hc
      · next hP =>
        obtain rfl := Option.some.inj hbody
        exact hnext (fun hc => hP (present_iff.mp hc)) hlt'
    · next hP =>
      obtain rfl := Option.some.inj hbody
      exact hnext (read_pde h.sys hacts.executes.1 (hlt'.trans htop) hpde hP) hlt'
  · next hge =>
    obtain rfl := Option.some.inj hbody
    have hge' : PGNUM USTACKTOP ≤ n := by
      rw [← hnum]
      exact not_lt.mp fun hc => hge (PGNUM_lt_iff.mp hc)
    refine h.walk hin hacts.idle rfl htask.symm (fun id' n' hc => ?_) (fun pn hc => ?_) fun _ _ hc => ?_
    · obtain ⟨rfl, rfl⟩ := Prod.mk.inj (Option.some.inj hc)
      exact ⟨le_rfl, n, hprogress, hn, fun v _ hle hlt => absurd (hge'.trans hle) hlt.not_ge⟩
    · cases hc
    · cases hc

/-- The test of `duppage`. -/
theorem step_duppage (h : ForkInv R σ) {pte : Word} (hacts : Acts σ c e) (hp : σ.point e = .duppage id n)
    (hpte : readPte σ.kernel.pmap (σ.dir c) n = some pte) :
    ForkInv R (σ.goto σ.kernel e (dupKind id n pte)) ∧
      Cow.Run σ.cow [] (σ.goto σ.kernel e (dupKind id n pte)).cow := by
  have hin : σ.point e ≠ .out := by
    rw [hp]
    exact ForkPoint.ne_out rfl
  have hprogress : (σ.point e).progress = some (id, n) := by
    rw [hp]
    rfl
  have hn := h.pages.bound e id n hprogress
  have hpn : Tracked n := h.pages.dup e n (by rw [hp, ForkPoint.dup])
  obtain rfl := read_pte h.sys hacts.executes.1 hpn.lt hpte
  have htask : (σ.point e).task = .forking (ENVX id) := by rw [hp, ForkPoint.task]
  have hsame : ∀ id' n', some (id, n) = some (id', n') → n' ≤ PGNUM USTACKTOP ∧
      ∃ n, (σ.point e).progress = some (id', n) ∧ n ≤ n' ∧
        ∀ v, Tracked v → n ≤ v → v < n' → ¬ present (σ.kernel.pte e v) := by
    intro id' n' hc
    obtain ⟨rfl, rfl⟩ := Prod.mk.inj (Option.some.inj hc)
    exact ⟨hn, n, hprogress, le_rfl, fun v _ hle hlt => absurd hlt hle.not_gt⟩
  have hdup : ∀ pn, some n = some pn → Tracked pn := fun pn hc => Option.some.inj hc ▸ hpn
  unfold dupKind
  split
  · exact h.walk hin hacts.idle rfl htask.symm hsame hdup fun _ _ hc => by cases hc
  · next hbits =>
    push Not at hbits
    refine h.walk hin hacts.idle rfl htask.symm hsame hdup fun id' pn hc => ?_
    obtain ⟨-, rfl⟩ := ForkPoint.shareRead.inj hc
    exact hbits

/-- A page of a member that is not in `pgfault` is mapped as the same page everywhere. -/
theorem place (h : ForkInv R σ) (hin : σ.point e ≠ .out) (hf : σ.fault e = none) (hv : Tracked v)
    (hP : present (σ.kernel.pte e v)) (e' v' : Nat) (hv' : v' < NUVPN) (hP' : present (σ.kernel.pte e' v'))
    (heq : ppn (σ.kernel.pte e' v') = ppn (σ.kernel.pte e v)) : v' = v := by
  rcases h.pages.apart e v e' v' hin hv hP hv' hP' heq with ⟨hin', ht'⟩ | ⟨-, -, addr, hunmap, -⟩
  · exact h.cow.place e v e' v' _ _ _ (cow_entry_eq_some.mpr ⟨hin, hv, hP, heq.symm, rfl⟩)
      (cow_entry_eq_some.mpr ⟨hin', ht', hP', rfl, rfl⟩)
  · rw [hf] at hunmap
    cases hunmap

/-- The child of a fork has not got a page yet that comes later. -/
theorem child_entry (h : ForkInv R σ) (hp : (σ.point e).progress = some (id, n)) (hn : Tracked n) :
    σ.cow.entry (ENVX id) n = none := by
  rw [cow_entry (h.child_in hp) hn, entryOf_eq_none]
  exact fun hc => lt_irrefl n (h.pages.rest e id n n hp hn hc)

/-- `duppage` maps a page for the child, which can read it. -/
theorem give (h : ForkInv R σ) {perm ret : Word} (hf : σ.fault e = none)
    (hprogress : (σ.point e).progress = some (id, n)) (hdup : (σ.point e).dup = some n)
    (hc : Calls sys σ.kernel e (pageMapCall (σ.getenvid e) (pageAddr n) id (pageAddr n) perm) ret k')
    (hperm : perm.toNat < 4096) (hW : decide (perm &&& PTE_W ≠ 0#32) = false) :
    ret = 0#32 ∧ Kept σ.kernel k' ∧ (SysInv R none k' ∧ ∀ e, Indexed e (k'.envs e)) ∧
      present (σ.kernel.pte e n) ∧
      Remaps σ.kernel k' (ENVX id) n (mkPte (ppn (σ.kernel.pte e n)) perm) ∧
      (σ.withKernel k').cow = { σ.cow with page := (σ.withKernel k').cow.page }.setEntry (ENVX id) n
        (ppn (σ.kernel.pte e n), false) := by
  have hin : σ.point e ≠ .out := by
    intro hc
    rw [hc] at hprogress
    cases hprogress
  have hn := h.pages.dup e n hdup
  have hmax : NUVPN < 1048576 := by decide
  have hnum : PGNUM (pageAddr n) = n := PGNUM_pageAddr (hn.lt.trans hmax)
  obtain ⟨i, j, hi, hj, hP, hret, hkept, hremaps⟩ := hc.map h.sys (h.live e hin).2
  have hsys := hc.map_sysInv (v := n) h.sys h.indexed hi
  obtain rfl := h.self hin hi
  obtain rfl : j = ENVX id := by
    rcases envid2env_eq hj with ⟨h0, -⟩ | ⟨-, hj⟩
    · exact absurd h0 (h.pages.id_ne i id n hprogress)
    · exact hj
  rw [hnum] at hP hremaps hsys
  exact ⟨hret, hkept, hsys (h.place hin hf hn hP), hP, hremaps,
    cow_withKernel_remapped hremaps.pte (h.child_in hprogress) hn (entryOf_mkPte (ppn_lt _) hperm hW)⟩

/-- The first system call of `duppage`. -/
theorem step_share (h : ForkInv R σ) {ret : Word} (hf : σ.fault e = none) (hp : σ.point e = .share id n)
    (hc : Calls sys σ.kernel e (pageMapCall (σ.getenvid e) (pageAddr n) id (pageAddr n) COW_PERM) ret k') :
    ForkInv R (σ.goto k' e (orPanic ret (.protect id n))) ∧
      Cow.Run σ.cow [] (σ.goto k' e (orPanic ret (.protect id n))).cow := by
  have hin : σ.point e ≠ .out := by
    rw [hp]
    exact ForkPoint.ne_out rfl
  have hprogress : (σ.point e).progress = some (id, n) := by
    rw [hp]
    rfl
  have hdup : (σ.point e).dup = some n := by
    rw [hp]
    rfl
  have hn := h.pages.dup e n hdup
  obtain ⟨rfl, hkept, hsys, hP, hremaps, hcow⟩ := h.give hf hprogress hdup hc (by decide) (by decide)
  rw [orPanic_zero]
  refine h.goto hin rfl hkept hsys (h.pages.give h.child_of_progress hprogress hdup hf hremaps.pte hP
    (present_mkPte _ _) (ppn_mkPte (ppn_lt _) (by decide)) rfl (Or.inl rfl)) ?_
  rw [cow_goto hin rfl, hcow]
  refine run_memory (h.page_remaps hremaps) (.share ?_ (cow_entry_eq_some.mpr ⟨hin, hn, hP, rfl, rfl⟩)
    (h.child_entry hprogress hn))
  show (σ.point e).task = _
  rw [hp]
  rfl

/-- The second one. -/
theorem step_protect (h : ForkInv R σ) {ret : Word} (hf : σ.fault e = none) (hp : σ.point e = .protect id n)
    (hc : Calls sys σ.kernel e (pageMapCall (σ.getenvid e) (pageAddr n) (σ.getenvid e) (pageAddr n) COW_PERM)
      ret k') :
    ForkInv R (σ.goto k' e (orPanic ret (.loop id (n + 1)))) ∧
      Cow.Run σ.cow [] (σ.goto k' e (orPanic ret (.loop id (n + 1)))).cow := by
  have hin : σ.point e ≠ .out := by
    rw [hp]
    exact ForkPoint.ne_out rfl
  have hn := h.pages.dup e n (by rw [hp, ForkPoint.dup])
  have hmax : NUVPN < 1048576 := by decide
  have hnum : PGNUM (pageAddr n) = n := PGNUM_pageAddr (hn.lt.trans hmax)
  obtain ⟨i, j, hi, hj, hP, rfl, hkept, hremaps⟩ := hc.map h.sys (h.live e hin).2
  have hsys := hc.map_sysInv (v := n) h.sys h.indexed hi
  obtain rfl := h.self hin hi
  obtain rfl := h.self hin hj
  rw [hnum] at hP hremaps hsys
  rw [orPanic_zero]
  refine h.goto hin rfl hkept (hsys (h.place hin hf hn hP)) (h.pages.protect hp hf hremaps.pte hP (present_mkPte _ _)
    (ppn_mkPte (ppn_lt _) (by decide))) ?_
  rw [cow_goto hin rfl, cow_withKernel_remapped hremaps.pte hin hn
    (entryOf_mkPte (b := false) (ppn_lt _) (by decide) (by decide))]
  refine run_memory (h.page_remaps hremaps) (.protect ?_ (cow_fill_none fun addr n hx => ?_)
    (cow_entry_eq_some.mpr ⟨hin, hn, hP, rfl, rfl⟩))
  · show (σ.point j).task = _
    rw [hp]
    rfl
  · rw [hf] at hx
    cases hx

/-- The only one for a page that cannot be written to. -/
theorem step_shareRead (h : ForkInv R σ) {ret : Word} (hf : σ.fault e = none) (hp : σ.point e = .shareRead id n)
    (hc : Calls sys σ.kernel e (pageMapCall (σ.getenvid e) (pageAddr n) id (pageAddr n) (PTE_U ||| PTE_P)) ret k') :
    ForkInv R (σ.goto k' e (orPanic ret (.loop id (n + 1)))) ∧
      Cow.Run σ.cow [] (σ.goto k' e (orPanic ret (.loop id (n + 1)))).cow := by
  have hin : σ.point e ≠ .out := by
    rw [hp]
    exact ForkPoint.ne_out rfl
  have hprogress : (σ.point e).progress = some (id, n) := by
    rw [hp]
    rfl
  have hdup : (σ.point e).dup = some n := by
    rw [hp]
    rfl
  have hn := h.pages.dup e n hdup
  have hW : decide (σ.kernel.pte e n &&& PTE_W ≠ 0#32) = false :=
    decide_eq_false (not_not_intro (h.pages.shareRead e id n hp).1)
  obtain ⟨rfl, hkept, hsys, hP, hremaps, hcow⟩ := h.give hf hprogress hdup hc (by decide) (by decide)
  rw [orPanic_zero]
  refine h.goto hin rfl hkept hsys (h.pages.give h.child_of_progress hprogress hdup hf hremaps.pte hP
    (present_mkPte _ _) (ppn_mkPte (ppn_lt _) (by decide)) rfl (Or.inr rfl)) ?_
  rw [cow_goto_same hin rfl (by rw [hp]; rfl), hcow]
  refine run_memory (h.page_remaps hremaps) (.shareRead ?_ (cow_entry_eq_some.mpr ⟨hin, hn, hP, rfl, hW⟩)
    (h.child_entry hprogress hn))
  show (σ.point e).task = _
  rw [hp]
  rfl

/-- The child gets a stack for exceptions. -/
theorem step_stack (h : ForkInv R σ) {ret : Word} (hf : σ.fault e = none) (hp : σ.point e = .stack id)
    (hc : Calls sys σ.kernel e (pageAllocCall id UXSTACKBASE RW_PERM) ret k') :
    ForkInv R (σ.goto k' e (orPanic ret (.upcall id))) ∧
      Cow.Run σ.cow [] (σ.goto k' e (orPanic ret (.upcall id))).cow := by
  have hva : UXSTACKBASE < UTOP := by decide
  have hin : σ.point e ≠ .out := by
    rw [hp]
    exact ForkPoint.ne_out rfl
  have hprogress : (σ.point e).progress = some (id, PGNUM USTACKTOP) := by
    rw [hp]
    rfl
  obtain ⟨i, p, hi, hlt, hfresh, rfl, hkept, hremaps⟩ := hc.alloc h.sys (h.live e hin).2 hva
  obtain rfl : i = ENVX id := by
    rcases envid2env_eq hi with ⟨h0, -⟩ | ⟨-, hi⟩
    · exact absurd h0 (h.pages.id_ne e id _ hprogress)
    · exact hi
  have hppn : ppn (mkPte p RW_PERM) = p := ppn_mkPte hlt (by decide)
  rw [orPanic_zero]
  refine h.goto hin rfl hkept (hc.alloc_sysInv h.sys h.indexed hva)
    (h.pages.stack h.child_of_progress hp hf hremaps.pte (by rwa [hppn])) ?_
  rw [cow_goto_same hin rfl (by rw [hp]; rfl)]
  refine cow_memory (fun e v hv => ?_) (fun e _ _ _ => ?_) (h.page_remaps hremaps)
  · rw [hremaps.pte e v hv.lt, if_neg fun hc : _ ∧ v = PGNUM UXSTACKBASE => not_tracked_xstack (hc.2 ▸ hv)]
  · rw [hremaps.pte e _ temp_lt, if_neg fun hc => xstack_ne hc.2.symm]

/-- The child is made runnable. -/
theorem step_status (h : ForkInv R σ) {ret : Word} (hf : σ.fault e = none) (hp : σ.point e = .status id)
    (hc : Calls sys σ.kernel e (statusCall id) ret k') :
    ForkInv R ((σ.goto k' e (orPanic ret .program)).goto k' (ENVX id) .program) ∧
      Cow.Run σ.cow [.ready e (ENVX id)] ((σ.goto k' e (orPanic ret .program)).goto k' (ENVX id) .program).cow := by
  have hin : σ.point e ≠ .out := by
    rw [hp]
    exact ForkPoint.ne_out rfl
  have hprogress : (σ.point e).progress = some (id, PGNUM USTACKTOP) := by
    rw [hp]
    rfl
  have hchild := h.child_of_progress e id _ hprogress
  have hcin := h.child_in hprogress
  have htarget : ∀ i, envid2env σ.kernel e id true = some i → i = ENVX id := fun i hi => by
    rcases envid2env_eq hi with ⟨h0, -⟩ | ⟨-, hi⟩
    · exact absurd h0 (h.pages.id_ne e id _ hprogress)
    · exact hi
  obtain ⟨hsys, hindexed⟩ := hc.status_sysInv h.sys h.indexed fun j hj => by
    rw [htarget j hj]
    exact h.child _ e hchild
  obtain ⟨i, hi, rfl, hpmap, hpgdir, hst, hothers⟩ := hc.status h.sys (h.live e hin).2
  rw [htarget i hi] at hst hothers
  have hpte : ∀ e v, k'.pte e v = σ.kernel.pte e v := by
    intro e v
    rw [Kernel.pte, Kernel.pte, hpgdir, hpmap]
  have hcow : ((σ.goto k' e .program).goto k' (ENVX id) .program).cow
      = ({ σ.cow with page := (σ.withKernel k').cow.page }.setTask e .running).setTask (ENVX id) .running := by
    have hcin' : (σ.goto k' e .program).point (ENVX id) ≠ .out := by
      rw [goto_point]
      split
      · exact ForkPoint.ne_out rfl
      · exact hcin
    have hchild : ((σ.goto k' e .program).goto k' (ENVX id) .program).cow
        = ((σ.goto k' e .program).withKernel k').cow.setTask (ENVX id) .running := cow_goto hcin' rfl
    refine hchild.trans ?_
    show Cow.State.setTask (σ.goto k' e .program).cow _ _ = _
    rw [cow_goto hin rfl, cow_withKernel (fun e v _ => hpte e v) fun e _ _ _ => hpte e _]
    rfl
  have hrun : Cow.Run σ.cow [.ready e (ENVX id)] ((σ.goto k' e .program).goto k' (ENVX id) .program).cow := by
    rw [hcow]
    refine run_memory (fun f _ => funext fun j => ?_) (.ready ?_ fun v hv => ?_)
    · show physBytes k'.pmap (f, j) = _
      rw [hpmap]
      rfl
    · show (σ.point e).task = _
      rw [hp]
      rfl
    · have hv' : σ.cow.entry (ENVX id) v = none := hv
      show σ.cow.entry e v = none
      by_cases ht : Tracked v
      · rw [cow_entry hcin ht, entryOf_eq_none] at hv'
        rw [cow_entry hin ht, entryOf_eq_none]
        exact fun hP => hv' (h.pages.given e id _ v hprogress ht ht.1 hP)
      · exact cow_entry_eq_none fun hc => ht hc.2
  rw [orPanic_zero]
  refine ⟨⟨hsys, hindexed, fun e' hin' => ?_, fun e' parent hp' => ?_,
    (h.pages.status hp hchild hf).congr fun e v _ => hpte e v, (hrun.eager h.cow).1⟩, hrun⟩
  · by_cases he' : e' = ENVX id
    · show (k'.envs e').envStatus ≠ _ ∧ (k'.envs e').envStatus ≠ _
      rw [he']
      rcases hst with hst | hst
      · rw [hst]
        exact ⟨by decide, by decide⟩
      · rw [hst]
        exact ⟨by decide, by decide⟩
    · refine (h.sameStatus (hothers e' he')).1 ?_
      rw [goto_point, if_neg he', goto_point] at hin'
      split at hin'
      · next he => rwa [he]
      · exact hin'
  · rw [goto_point, goto_point] at hp'
    split at hp'
    · cases hp'
    · next he' =>
      split at hp'
      · cases hp'
      · exact (h.sameStatus (hothers e' he')).2 parent hp'

/-- Every step keeps the invariant and is a few steps of the system that copies on write. -/
theorem step (h : ForkInv R σ) (hs : ForkStep sys σ tr σ') : ForkInv R σ' ∧ Cow.Run σ.cow tr σ'.cow := by
  cases hs with
  | load hacts hruns hva hb => exact ⟨h, h.step_load hacts hruns hva hb⟩
  | store hacts hruns hva hm => exact h.step_store hacts hruns hva hm
  | storeAbove hex hva hm => exact h.step_storeAbove hex hva hm
  | quiet hm hq => exact h.step_quiet hm hq
  | fault hacts hruns hva hmapped hno hm hlive => exact h.step_fault hacts hruns hva hmapped hno hm hlive
  | handler hex hf hpte => exact h.step_handler hex hf hpte
  | alloc hf hc => exact h.step_alloc hf hc
  | memcpy hex hf hn hb hm => exact h.step_memcpy hex hf hn hb hm
  | map hf hc => exact h.step_map hf hc
  | unmap hf hc => exact h.step_unmap hf hc
  | fork first hacts hp => exact h.step_fork first hacts hp
  | handlerStack hf hp hc => exact h.step_handlerStack hf hp hc
  | @handlerUpcall e func ret k' hf hp hc =>
    have hin : σ.point e ≠ .out := by
      rw [hp]
      exact ForkPoint.ne_out rfl
    have hpages : Pages σ.kernel.pte (Function.update σ.point e .exofork) σ.fault :=
      h.pages.goto hin (ForkPoint.ne_out rfl) hf (fun _ _ hc => by cases hc) (fun _ hc => by cases hc)
        fun _ _ hc => by cases hc
    exact (h.step_upcall hin hc rfl (by rw [hp]; rfl) hpages).2
  | exofork hf hp hc => exact h.step_exofork hf hp hc
  | loop hacts hp hbody => exact h.step_loop hacts hp hbody
  | duppage hacts hp hpte => exact h.step_duppage hacts hp hpte
  | share hf hp hc => exact h.step_share hf hp hc
  | protect hf hp hc => exact h.step_protect hf hp hc
  | shareRead hf hp hc => exact h.step_shareRead hf hp hc
  | stack hf hp hc => exact h.step_stack hf hp hc
  | @upcall e id func ret k' hf hp hc =>
    have hin : σ.point e ≠ .out := by
      rw [hp]
      exact ForkPoint.ne_out rfl
    have hprogress : (σ.point e).progress = some (id, PGNUM USTACKTOP) := by
      rw [hp]
      rfl
    have hpages : Pages σ.kernel.pte (Function.update σ.point e (.status id)) σ.fault := by
      refine h.pages.goto hin (ForkPoint.ne_out rfl) hf (fun id' n hc => ?_) (fun _ hc => by cases hc)
        fun _ _ hc => by cases hc
      obtain ⟨rfl, rfl⟩ := Prod.mk.inj (Option.some.inj hc)
      exact ⟨le_rfl, _, hprogress, le_rfl, fun v _ hle hlt => absurd hlt hle.not_gt⟩
    obtain ⟨rfl, hnext⟩ := h.step_upcall hin hc rfl (by rw [hp]; rfl) hpages
    rwa [orPanic_zero]
  | status hf hp hc => exact h.step_status hf hp hc

end ForkInv

end Jos
