import Jos.ForkPages

/-!
# A family as a system that copies on write

`ForkState.cow` is what copy on write means in a state of the family. The entries of page tables give the frames, the
points of `fork` what a member is doing, and a member that `pgfault` copies a page for fills the frame at `PFTEMP`.
-/

namespace Jos

open Pmap Kernel Except

variable {R : Set Nat} {σ σ' : ForkState} {k k' : Kernel} {c e e' v v' n p : Nat} {w : Word}
  {tr : List ForkEvent}

/-! ## The abstract system -/

/-- What an environment at this point does to pages. -/
def ForkPoint.task : ForkPoint → Cow.Task Nat Nat
  | .out => .unborn
  | .child parent => .growing parent
  | .program | .handlerStack | .handlerUpcall | .exofork | .panicked => .running
  | .loop id _ | .duppage id _ | .share id _ | .shareRead id _ | .stack id | .upcall id | .status id =>
    .forking (ENVX id)
  | .protect id pn => .sharing (ENVX id) pn

/-- The copy that `pgfault` makes at `PFTEMP`, where `f` is mapped. -/
def FaultPoint.fill (f : Nat) : FaultPoint → Option (Nat × Nat × Set (Fin PGSIZE))
  | .memcpy addr n => some (PGNUM addr, f, {i | i.val < n})
  | _ => none

/-- The page that an entry maps, and whether it can be written to. -/
def entryOf (w : Word) : Option (Nat × Bool) :=
  if present w then some (ppn w, decide (w &&& PTE_W ≠ 0#32)) else none

/-- The system that copies on write. -/
def ForkState.cow (σ : ForkState) : Cow.State Nat Nat Nat (Fin PGSIZE) (BitVec 8) where
  task e := (σ.point e).task
  fill e := (σ.fault e).bind (FaultPoint.fill (ppn (σ.kernel.pte e (PGNUM PFTEMP))))
  entry e v := if σ.point e ≠ .out ∧ Tracked v then entryOf (σ.kernel.pte e v) else none
  page f i := physBytes σ.kernel.pmap (f, i)

theorem entryOf_eq_some {x : Nat × Bool} :
    entryOf w = some x ↔ present w ∧ ppn w = x.1 ∧ decide (w &&& PTE_W ≠ 0#32) = x.2 := by
  unfold entryOf
  split
  · next h =>
    obtain ⟨f, b⟩ := x
    simp only [Option.some.injEq, Prod.mk.injEq, h, true_and]
  · next h => exact iff_of_false (fun hc => by cases hc) fun hc => h hc.1

theorem entryOf_eq_none : entryOf w = none ↔ ¬ present w := by
  unfold entryOf
  split
  · next h => exact iff_of_false (fun hc => by cases hc) (not_not_intro h)
  · next h => exact iff_of_true rfl h

theorem entryOf_mkPte {perm : Word} {b : Bool} (hp : p < 1048576) (hperm : perm.toNat < 4096)
    (hb : decide (perm &&& PTE_W ≠ 0#32) = b) : entryOf (mkPte p perm) = some (p, b) :=
  entryOf_eq_some.mpr ⟨present_mkPte p perm, ppn_mkPte hp hperm, by rw [mkPte_and_W hp, hb]⟩

theorem cow_entry (hpoint : σ.point e ≠ .out) (hv : Tracked v) : σ.cow.entry e v = entryOf (σ.kernel.pte e v) :=
  if_pos ⟨hpoint, hv⟩

theorem cow_entry_eq_some {f : Nat} {b : Bool} : σ.cow.entry e v = some (f, b) ↔
    σ.point e ≠ .out ∧ Tracked v ∧ present (σ.kernel.pte e v) ∧ ppn (σ.kernel.pte e v) = f ∧
      decide (σ.kernel.pte e v &&& PTE_W ≠ 0#32) = b := by
  show (if _ then _ else _) = _ ↔ _
  split
  · next h => rw [entryOf_eq_some, and_iff_right h.1, and_iff_right h.2]
  · next h => exact iff_of_false (fun hc => by cases hc) fun hc => h ⟨hc.1, hc.2.1⟩

/-! ## The invariant -/

/-- The invariant of the family. -/
structure ForkInv (R : Set Nat) (σ : ForkState) : Prop where
  sys : SysInv R none σ.kernel
  indexed : ∀ e, Indexed e (σ.kernel.envs e)
  live : ∀ e, σ.point e ≠ .out → (σ.kernel.envs e).envStatus ≠ .free ∧ (σ.kernel.envs e).envStatus ≠ .dying
  child : ∀ e parent, σ.point e = .child parent → (σ.kernel.envs e).envStatus = .notRunnable
  pages : Pages σ.kernel.pte σ.point σ.fault
  cow : Cow.Inv σ.cow

/-! ## Equal abstract states -/

/-- The abstract state, one part at a time. -/
theorem cow_eq {x : Cow.State Nat Nat Nat (Fin PGSIZE) (BitVec 8)} (htask : ∀ e, (σ.point e).task = x.task e)
    (hfill : ∀ e, σ.cow.fill e = x.fill e) (hentry : ∀ e v, σ.cow.entry e v = x.entry e v)
    (hpage : ∀ f i, σ.cow.page f i = x.page f i) : σ.cow = x := by
  obtain ⟨task, fill, entry, page⟩ := x
  obtain rfl : (fun e => (σ.point e).task) = task := funext htask
  obtain rfl : σ.cow.fill = fill := funext hfill
  obtain rfl : σ.cow.entry = entry := funext fun e => funext (hentry e)
  obtain rfl : σ.cow.page = page := funext fun f => funext (hpage f)
  rfl

theorem cow_entry_eq_none (h : ¬ (σ.point e ≠ .out ∧ Tracked v)) : σ.cow.entry e v = none := if_neg h

theorem cow_fill (σ : ForkState) (e : Nat) : σ.cow.fill e
    = (σ.fault e).bind (FaultPoint.fill (ppn (σ.kernel.pte e (PGNUM PFTEMP)))) := rfl

theorem cow_fill_none (hf : ∀ addr n, σ.fault e ≠ some (.memcpy addr n)) : σ.cow.fill e = none := by
  rw [cow_fill]
  cases hx : σ.fault e with
  | none => rfl
  | some x =>
    cases x with
    | memcpy addr n => exact absurd hx (hf addr n)
    | handler | alloc | unmap | panicked => rfl

theorem cow_fill_withKernel (hpte : ∀ addr n, σ.fault e = some (.memcpy addr n) →
    k'.pte e (PGNUM PFTEMP) = σ.kernel.pte e (PGNUM PFTEMP)) : (σ.withKernel k').cow.fill e = σ.cow.fill e := by
  by_cases hf : ∀ addr n, σ.fault e ≠ some (.memcpy addr n)
  · rw [cow_fill_none hf, cow_fill_none (σ := σ.withKernel k') hf]
  · push Not at hf
    obtain ⟨addr, n, hf⟩ := hf
    rw [cow_fill, cow_fill]
    show (σ.fault e).bind (FaultPoint.fill (ppn (k'.pte e _))) = _
    rw [hpte addr n hf]

/-- The machine goes on without changes of pages below the stack. -/
theorem cow_withKernel (hpte : ∀ e v, Tracked v → k'.pte e v = σ.kernel.pte e v)
    (htemp : ∀ e addr n, σ.fault e = some (.memcpy addr n) →
      k'.pte e (PGNUM PFTEMP) = σ.kernel.pte e (PGNUM PFTEMP)) :
    (σ.withKernel k').cow = { σ.cow with page := (σ.withKernel k').cow.page } := by
  refine cow_eq (fun _ => rfl) (fun e => cow_fill_withKernel (htemp e)) (fun e v => ?_) fun _ _ => rfl
  by_cases hc : σ.point e ≠ .out ∧ Tracked v
  · show _ = σ.cow.entry e v
    rw [cow_entry hc.1 hc.2, cow_entry (σ := σ.withKernel k') hc.1 hc.2]
    exact congrArg entryOf (hpte e v hc.2)
  · exact (cow_entry_eq_none (σ := σ.withKernel k') hc).trans (cow_entry_eq_none hc).symm

/-- The machine maps a page for a member. -/
theorem cow_withKernel_remapped {i v₀ : Nat} {x : Nat × Bool} (hpte : Remapped σ.kernel.pte k'.pte i v₀ w)
    (hin : σ.point i ≠ .out) (hv₀ : Tracked v₀) (hw : entryOf w = some x) :
    (σ.withKernel k').cow = { σ.cow with page := (σ.withKernel k').cow.page }.setEntry i v₀ x := by
  refine cow_eq (fun _ => rfl) (fun e => cow_fill_withKernel fun _ _ _ => ?_) (fun e v => ?_) fun _ _ => rfl
  · rw [hpte e _ temp_lt, if_neg fun hc => hv₀.2 hc.2.symm]
  · rw [Cow.setEntry_entry]
    show _ = if _ then _ else σ.cow.entry e v
    by_cases hc : σ.point e ≠ .out ∧ Tracked v
    · rw [cow_entry hc.1 hc.2, cow_entry (σ := σ.withKernel k') hc.1 hc.2]
      show entryOf (k'.pte e v) = _
      rw [hpte e v hc.2.lt]
      split
      · exact hw
      · rfl
    · have hne : ¬ (e = i ∧ v = v₀) := by
        rintro ⟨rfl, rfl⟩
        exact hc ⟨hin, hv₀⟩
      rw [if_neg hne, cow_entry_eq_none hc, cow_entry_eq_none (σ := σ.withKernel k') hc]

theorem goto_point (σ : ForkState) (k' : Kernel) (e e' : Nat) (p : ForkPoint) :
    (σ.goto k' e p).point e' = if e' = e then p else σ.point e' := Function.update_apply ..

theorem serve_fault (σ : ForkState) (k' : Kernel) (e e' : Nat) (x : Option FaultPoint) :
    (σ.serve k' e x).fault e' = if e' = e then x else σ.fault e' := Function.update_apply ..

theorem serve_fault_self (σ : ForkState) (k' : Kernel) (e : Nat) (x : Option FaultPoint) :
    (σ.serve k' e x).fault e = x := Function.update_self ..

theorem ForkPoint.ne_out {x : ForkPoint} (h : x.runs = true) : x ≠ .out := by
  rintro rfl
  cases h

theorem ForkPoint.ne_child {x : ForkPoint} (h : x.runs = true) (parent : Nat) : x ≠ .child parent := by
  rintro rfl
  cases h

/-- An environment goes on in `fork`. -/
theorem cow_goto {p : ForkPoint} (hin : σ.point e ≠ .out) (hp : p.runs = true) :
    (σ.goto k' e p).cow = (σ.withKernel k').cow.setTask e p.task := by
  refine cow_eq (fun e' => ?_) (fun _ => rfl) (fun e' v => ?_) fun _ _ => rfl
  · rw [Cow.setTask_task, goto_point]
    split
    · rfl
    · rfl
  · have hout : (σ.goto k' e p).point e' ≠ .out ↔ σ.point e' ≠ .out := by
      rw [goto_point]
      split
      · next he => exact iff_of_true (ForkPoint.ne_out hp) (he ▸ hin)
      · exact Iff.rfl
    exact if_congr (and_congr_left fun _ => hout) rfl rfl

/-- It goes on without a change that anybody else sees. -/
theorem cow_goto_same {p : ForkPoint} (hin : σ.point e ≠ .out) (hp : p.runs = true)
    (htask : p.task = (σ.point e).task) :
    (σ.goto k' e p).cow = (σ.withKernel k').cow := by
  rw [cow_goto hin hp, htask]
  exact Cow.setTask_self

/-- A slot without pages joins the family. -/
theorem cow_goto_born {p : ForkPoint} (hno : ∀ v, Tracked v → ¬ present (σ.kernel.pte e v)) :
    (σ.goto σ.kernel e p).cow = σ.cow.setTask e p.task := by
  refine cow_eq (fun e' => ?_) (fun _ => rfl) (fun e' v => ?_) fun _ _ => rfl
  · rw [Cow.setTask_task, goto_point]
    split
    · rfl
    · rfl
  · show (if (σ.goto σ.kernel e p).point e' ≠ .out ∧ _ then entryOf _ else _)
      = if σ.point e' ≠ .out ∧ _ then entryOf _ else _
    by_cases he : e' = e
    · by_cases hv : Tracked v
      · have hnone : entryOf (σ.kernel.pte e' v) = none := entryOf_eq_none.mpr (he ▸ hno v hv)
        show (if _ then entryOf (σ.kernel.pte e' v) else _) = _
        rw [hnone, ite_self, ite_self]
      · rw [if_neg fun hc => hv hc.2, if_neg fun hc => hv hc.2]
    · rw [goto_point, if_neg he]
      rfl

/-- An environment goes on in `pgfault`. -/
theorem cow_serve (σ : ForkState) (k' : Kernel) (e : Nat) (x : Option FaultPoint) :
    (σ.serve k' e x).cow = (σ.withKernel k').cow.setFill e
      (x.bind (FaultPoint.fill (ppn (k'.pte e (PGNUM PFTEMP))))) := by
  refine cow_eq (fun _ => rfl) (fun e' => ?_) (fun _ _ => rfl) fun _ _ => rfl
  rw [Cow.setFill_fill, cow_fill, serve_fault]
  split
  · next he =>
    rw [he]
    rfl
  · rfl

/-- No copy is made before or after. -/
theorem cow_serve_none {x : Option FaultPoint} (hf : ∀ addr n, σ.fault e ≠ some (.memcpy addr n))
    (hx : ∀ addr n, x ≠ some (.memcpy addr n)) : (σ.serve k' e x).cow = (σ.withKernel k').cow := by
  have hnone : x.bind (FaultPoint.fill (ppn (k'.pte e (PGNUM PFTEMP)))) = none := by
    rw [← serve_fault_self σ k' e x] at hx ⊢
    exact cow_fill_none hx
  have hfill : (σ.withKernel k').cow.fill e = none := cow_fill_none hf
  rw [cow_serve, hnone, ← hfill]
  exact Cow.setFill_self

/-- The memory may have changed where nobody looks. -/
theorem run_memory {page : Nat → Fin PGSIZE → BitVec 8} (hpage : ∀ f, σ.cow.Used f → page f = σ.cow.page f)
    {x : Cow.State Nat Nat Nat (Fin PGSIZE) (BitVec 8)} (hs : Cow.Step { σ.cow with page } tr x) :
    Cow.Run σ.cow tr x := (Cow.Run.start.step (.memory hpage)).step hs

/-! ## Facts about a family -/

theorem ForkPoint.task_alive {x : ForkPoint} (h : x.runs = true) : x.task.alive = true := by
  cases x with
  | out | child | panicked => cases h
  | program | handlerStack | handlerUpcall | exofork | loop | duppage | share | protect | shareRead | stack | upcall
  | status => rfl

theorem ForkPoint.task_running {x : ForkPoint} (h : x.runs = true) (hid : x.id = none) : x.task = .running := by
  cases x with
  | out | child | panicked => cases h
  | program | handlerStack | handlerUpcall | exofork => rfl
  | loop | duppage | share | protect | shareRead | stack | upcall | status => cases hid

theorem ForkPoint.task_child {x : ForkPoint} {id : Word} (hid : x.id = some id) : x.task.child = some (ENVX id) := by
  cases x with
  | out | child | panicked | program | handlerStack | handlerUpcall | exofork => cases hid
  | loop | duppage | share | protect | shareRead | stack | upcall | status =>
    obtain rfl := Option.some.inj hid
    rfl

theorem ForkPoint.id_of_progress {x : ForkPoint} {id : Word} (h : x.progress = some (id, n)) : x.id = some id := by
  cases x with
  | out | child | panicked | program | handlerStack | handlerUpcall | exofork => cases h
  | loop | duppage | share | protect | shareRead | stack | upcall | status =>
    obtain ⟨rfl, -⟩ := Prod.mk.inj (Option.some.inj h)
    rfl

theorem ForkPoint.eq_child {x : ForkPoint} (h : x.task = .growing e) : x = .child e := by
  cases x with
  | child parent =>
    cases h
    rfl
  | out | panicked | program | handlerStack | handlerUpcall | exofork | loop | duppage | share | protect | shareRead
  | stack | upcall | status => cases h

theorem orPanic_zero (x : ForkPoint) : orPanic 0#32 x = x := if_neg (not_not_intro rfl)

theorem and_W_of_writable (h : w &&& USER_W = USER_W) : w &&& PTE_W ≠ 0#32 := by
  have hsub : USER_W &&& PTE_W = PTE_W := by decide
  rw [← hsub, ← BitVec.and_assoc, h]
  decide

theorem PGNUM_ROUNDDOWN (addr : Word) : PGNUM (ROUNDDOWN addr PGSIZE) = PGNUM addr := by
  rw [PGNUM_eq, PGNUM_eq, toNat_ROUNDDOWN]
  omega

/-- The addresses of a page. -/
theorem pgOff_add (addr : Word) (hn : n < PGSIZE) :
    PGNUM (ROUNDDOWN addr PGSIZE + BitVec.ofNat 32 n) = PGNUM addr ∧
      pgOff (ROUNDDOWN addr PGSIZE + BitVec.ofNat 32 n) = ⟨n, hn⟩ := by
  have hlt := addr.isLt
  have hsize : PGSIZE = 4096 := rfl
  have hsum : (ROUNDDOWN addr PGSIZE + BitVec.ofNat 32 n).toNat = addr.toNat - addr.toNat % 4096 + n := by
    rw [BitVec.toNat_add, toNat_ROUNDDOWN, BitVec.toNat_ofNat]
    omega
  constructor
  · rw [PGNUM_eq, PGNUM_eq, hsum]
    omega
  · refine Fin.ext ?_
    show (ROUNDDOWN addr PGSIZE + BitVec.ofNat 32 n).toNat % PGSIZE = n
    rw [hsum, hsize]
    omega

/-- The stack ends with a page. -/
theorem PGNUM_lt_iff {va : Word} : PGNUM va < PGNUM USTACKTOP ↔ va < USTACKTOP := by
  have htop : USTACKTOP.toNat = 0xeebfe * 4096 := by decide
  rw [PGNUM_eq, PGNUM_eq, BitVec.lt_def, htop]
  omega

namespace ForkInv

variable {id addr va : Word} {b : BitVec 8}

/-- The child of a fork that goes on. -/
theorem child_of_progress (h : ForkInv R σ) (e : Nat) (id : Word) (n : Nat)
    (hp : (σ.point e).progress = some (id, n)) : σ.point (ENVX id) = .child e :=
  ForkPoint.eq_child (h.cow.child e (ENVX id) (ForkPoint.task_child (ForkPoint.id_of_progress hp)))

theorem child_in (h : ForkInv R σ) (hp : (σ.point e).progress = some (id, n)) : σ.point (ENVX id) ≠ .out := by
  rw [h.child_of_progress e id n hp]
  intro hc
  cases hc

/-- Frames of the family are mapped. -/
theorem used (h : ForkInv R σ) {f : Nat} (hf : σ.cow.Used f) :
    ∃ e v, v < NUVPN ∧ present (σ.kernel.pte e v) ∧ ppn (σ.kernel.pte e v) = f := by
  rcases hf with ⟨e, v, w, hentry⟩ | ⟨e, v, done, hfill⟩
  · obtain ⟨-, hv, hP, hf, -⟩ := cow_entry_eq_some.mp hentry
    exact ⟨e, v, hv.lt, hP, hf⟩
  · obtain ⟨x, hx, hfill'⟩ := Option.bind_eq_some_iff.mp hfill
    cases x with
    | memcpy addr n =>
      obtain ⟨-, rfl, -⟩ := Prod.mk.inj (Option.some.inj hfill')
      exact ⟨e, PGNUM PFTEMP, temp_lt, (h.pages.own e addr n hx).1, rfl⟩
    | handler | alloc | unmap | panicked => cases hfill'

/-- Frames of the family keep their contents. -/
theorem page_remaps (h : ForkInv R σ) {i v₀ : Nat} (hr : Remaps σ.kernel k' i v₀ w) (f : Nat) (hf : σ.cow.Used f) :
    (fun j : Fin PGSIZE => physBytes k'.pmap (f, j)) = σ.cow.page f := by
  obtain ⟨e, v, hv, hP, rfl⟩ := h.used hf
  funext j
  show physBytes _ _ = physBytes _ _
  rw [physBytes, physBytes, hr.mem e v hv hP]

/-- Below the stack top, a running member has all its pages but `PFTEMP`. -/
theorem tracked (h : ForkInv R σ) (hrun : (σ.point e).runs = true) (hidle : σ.fault e = none)
    (hva : va < USTACKTOP) (hP : present (σ.kernel.pte e (PGNUM va))) : Tracked (PGNUM va) := by
  refine ⟨PGNUM_lt_iff.mpr hva, fun hc => h.pages.temp e (ForkPoint.ne_out hrun) (fun x hx => ?_) (hc ▸ hP)⟩
  rw [hidle] at hx
  cases hx

/-- What the running member of a family reads. -/
theorem load (h : ForkInv R σ) (hcur : σ.kernel.curenv c = some e) (hva : va < UTOP)
    (hb : loadByte σ.kernel.pmap (σ.dir c) va USER_R = some b) :
    present (σ.kernel.pte e (PGNUM va)) ∧
      b = physBytes σ.kernel.pmap (ppn (σ.kernel.pte e (PGNUM va)), pgOff va) := by
  obtain ⟨D, l, hmem⟩ := h.sys.mem
  have hdir := h.sys.cpus.cr3 c e hcur
  have hd := hmem.envs.dir e _ hdir
  rw [loadByte, ForkState.dir, hmem.pmap.translate_below .read hd hva, ← pte_eq hdir] at hb
  split at hb
  · next hflags =>
    refine ⟨UserFlags.read.entry hflags, ?_⟩
    have hbyte : va.toNat % PGSIZE % 4 = va.toNat % 4 := Nat.mod_mod_of_dvd _ (by decide)
    rw [← Option.some.inj hb, physBytes, pgOff, wordOf, hbyte]
  · cases hb

/-- A change of status that is nobody's business. -/
theorem sameStatus (h : ForkInv R σ) (hsame : SameStatus σ.kernel k' e) :
    (σ.point e ≠ .out → (k'.envs e).envStatus ≠ .free ∧ (k'.envs e).envStatus ≠ .dying) ∧
      ∀ parent, σ.point e = .child parent → (k'.envs e).envStatus = .notRunnable := by
  constructor
  · intro hin
    rcases hsame with heq | ⟨-, hst⟩
    · rw [heq]
      exact h.live e hin
    · rcases hst with hst | hst
      · rw [hst]
        exact ⟨by decide, by decide⟩
      · rw [hst]
        exact ⟨by decide, by decide⟩
  · intro parent hp
    have hst := h.child e parent hp
    rcases hsame with heq | ⟨hold, -⟩
    · rw [heq, hst]
    · rw [hst] at hold
      rcases hold with hold | hold
      · cases hold
      · cases hold

/-- An environment goes on to another point. -/
theorem goto (h : ForkInv R σ) {p : ForkPoint} (hin : σ.point e ≠ .out) (hp : p.runs = true) (hk : Kept σ.kernel k')
    (hsys : SysInv R none k' ∧ ∀ e, Indexed e (k'.envs e))
    (hpages : Pages k'.pte (Function.update σ.point e p) σ.fault) (hrun : Cow.Run σ.cow tr (σ.goto k' e p).cow) :
    ForkInv R (σ.goto k' e p) ∧ Cow.Run σ.cow tr (σ.goto k' e p).cow := by
  refine ⟨⟨hsys.1, hsys.2, fun e' hin' => ?_, fun e' parent hp' => ?_, hpages, (hrun.eager h.cow).1⟩, hrun⟩
  · refine (h.sameStatus (hk.status e')).1 ?_
    rw [goto_point] at hin'
    split at hin'
    · next he => rwa [he]
    · exact hin'
  · refine (h.sameStatus (hk.status e')).2 parent ?_
    rw [goto_point] at hp'
    split at hp'
    · exact absurd hp' (ForkPoint.ne_child hp parent)
    · exact hp'

/-- An environment goes on to another point and the machine stays as it is. -/
theorem walk (h : ForkInv R σ) {p : ForkPoint} (hin : σ.point e ≠ .out) (hf : σ.fault e = none) (hp : p.runs = true)
    (htask : p.task = (σ.point e).task)
    (hprogress : ∀ id n', p.progress = some (id, n') → n' ≤ PGNUM USTACKTOP ∧
      ∃ n, (σ.point e).progress = some (id, n) ∧ n ≤ n' ∧
        ∀ v, Tracked v → n ≤ v → v < n' → ¬ present (σ.kernel.pte e v))
    (hdup : ∀ pn, p.dup = some pn → Tracked pn)
    (hshare : ∀ id pn, p = .shareRead id pn →
      σ.kernel.pte e pn &&& PTE_W = 0#32 ∧ σ.kernel.pte e pn &&& PTE_COW = 0#32) :
    ForkInv R (σ.goto σ.kernel e p) ∧ Cow.Run σ.cow [] (σ.goto σ.kernel e p).cow := by
  refine h.goto hin hp (.refl _) ⟨h.sys, h.indexed⟩
    (h.pages.goto hin (ForkPoint.ne_out hp) hf hprogress hdup hshare) ?_
  rw [cow_goto_same hin hp htask]
  exact .start

/-- An environment goes on in `pgfault`. -/
theorem serve (h : ForkInv R σ) {x : Option FaultPoint} (hk : Kept σ.kernel k')
    (hsys : SysInv R none k' ∧ ∀ e, Indexed e (k'.envs e))
    (hpages : Pages k'.pte σ.point (Function.update σ.fault e x)) (hrun : Cow.Run σ.cow tr (σ.serve k' e x).cow) :
    ForkInv R (σ.serve k' e x) ∧ Cow.Run σ.cow tr (σ.serve k' e x).cow :=
  ⟨⟨hsys.1, hsys.2, fun e' => (h.sameStatus (hk.status e')).1, fun e' => (h.sameStatus (hk.status e')).2, hpages,
    (hrun.eager h.cow).1⟩, hrun⟩

/-- Only the machine goes on. -/
theorem machine (h : ForkInv R σ) (hk : Kept σ.kernel k') (hsys : SysInv R none k' ∧ ∀ e, Indexed e (k'.envs e))
    (hpte : ∀ e v, v < NUVPN → k'.pte e v = σ.kernel.pte e v)
    (hrun : Cow.Run σ.cow tr (σ.withKernel k').cow) :
    ForkInv R (σ.withKernel k') ∧ Cow.Run σ.cow tr (σ.withKernel k').cow :=
  ⟨⟨hsys.1, hsys.2, fun e' => (h.sameStatus (hk.status e')).1, fun e' => (h.sameStatus (hk.status e')).2,
    h.pages.congr hpte, (hrun.eager h.cow).1⟩, hrun⟩

end ForkInv

end Jos
