import Jos.Errors
import Jos.ForkSteps
import Jos.IpcCalls
import Jos.Smp

/-!
# Copy on write keeps the members of a family apart

`ForkRun.inv`: the invariant holds in all runs, and they are runs of the system that copies on write. The library
takes them to runs of the one that copies all pages at a fork (`fork_refines_eager`).
-/

namespace Jos

open Pmap Kernel Except

variable {R : Set Nat} {sys : System} {σ : ForkState} {k : Kernel} {e : Nat} {tr : List ForkEvent}

/-! ## Runs -/

section Start

variable {root : Nat}

theorem start_point (k : Kernel) (root e : Nat) :
    (ForkState.start k root).point e = if e = root then .program else .out := by
  show Function.update (fun _ => ForkPoint.out) root ForkPoint.program e = _
  rw [Function.update_apply]

theorem eq_of_start (hin : (ForkState.start k root).point e ≠ .out) : e = root := by
  by_contra hne
  rw [start_point, if_neg hne] at hin
  exact hin rfl

theorem start_program (hin : (ForkState.start k root).point e ≠ .out) :
    (ForkState.start k root).point e = .program := by
  rw [start_point, if_pos (eq_of_start hin)]

theorem start_id (k : Kernel) (root e : Nat) : ((ForkState.start k root).point e).id = none := by
  rw [start_point]
  split
  · rfl
  · rfl

namespace ForkStart

theorem pages (hs : ForkStart k root) :
    Pages k.pte (ForkState.start k root).point (ForkState.start k root).fault := by
  have hprogress : ∀ e id n, ((ForkState.start k root).point e).progress ≠ some (id, n) := fun e id n hc => by
    have hid := ForkPoint.id_of_progress hc
    rw [start_id] at hid
    cases hid
  have hdup : ∀ e n, ((ForkState.start k root).point e).dup ≠ some n := by
    intro e n hc
    rw [start_point] at hc
    split at hc
    · cases hc
    · cases hc
  constructor
  case runs => exact fun _ _ hx => by cases hx
  case target => exact fun _ _ _ hx => by cases hx
  case copies => exact fun _ _ _ hx => by cases hx
  case temp =>
    intro e hin _
    rw [eq_of_start hin]
    exact hs.pftemp
  case own => exact fun _ _ _ hx => by cases hx
  case apart =>
    intro e v e' v' hin ht hP hv' hP' heq
    obtain rfl := eq_of_start hin
    obtain ⟨rfl, rfl⟩ := hs.once v ht.1 hP e' v' hv' hP' heq
    exact Or.inl ⟨hin, ht⟩
  case id_ne => exact fun e id n hc => absurd hc (hprogress e id n)
  case bound => exact fun e id n hc => absurd hc (hprogress e id n)
  case given => exact fun e id n _ hc => absurd hc (hprogress e id n)
  case rest => exact fun e id n _ hc => absurd hc (hprogress e id n)
  case dup => exact fun e n hc => absurd hc (hdup e n)
  case shareRead => exact fun e id n hc => absurd (by rw [hc]; rfl) (hprogress e id n)

theorem cow (hs : ForkStart k root) : Cow.Inv (ForkState.start k root).cow := by
  refine Cow.Inv.single (e := root) (fun e => ?_) (fun _ => rfl) (fun e v x hx => ?_) fun v v' f w w' hv hv' => ?_
  · show ((ForkState.start k root).point e).task = _ ∨ ((ForkState.start k root).point e).task = _
    rw [start_point]
    split
    · exact Or.inl rfl
    · exact Or.inr rfl
  · have hin := (cow_entry_eq_some.mp hx).1
    refine ⟨eq_of_start hin, ?_⟩
    show ((ForkState.start k root).point e).task = _
    rw [start_program hin]
    rfl
  · obtain ⟨-, ht, hP, hf, -⟩ := cow_entry_eq_some.mp hv
    obtain ⟨-, ht', hP', hf', -⟩ := cow_entry_eq_some.mp hv'
    exact (hs.once v ht.1 hP root v' ht'.lt hP' (hf'.trans hf.symm)).2

/-- At the start nobody shares anything. -/
theorem inv (hs : ForkStart k root) (h : SysInv R none k) (hi : ∀ e, Indexed e (k.envs e)) :
    ForkInv R (.start k root) := by
  refine ⟨h, hi, fun e hin => ?_, fun e parent hp => ?_, hs.pages, hs.cow⟩
  · rw [eq_of_start hin]
    exact ⟨hs.live.2, hs.undestroyed⟩
  · rw [start_point] at hp
    split at hp
    · cases hp
    · cases hp

end ForkStart

end Start

/-- Every run of the family shows what the system shows that copies eagerly. -/
theorem ForkRun.inv {root : Nat} (h₀ : ForkInv R (.start k root)) (hrun : ForkRun sys k root tr σ) :
    ForkInv R σ ∧ Cow.Run (ForkState.start k root).cow tr σ.cow := by
  induction hrun with
  | start => exact ⟨h₀, .start⟩
  | step _ hs ih =>
    obtain ⟨hinv, hrun⟩ := ih.1.step hs
    exact ⟨hinv, ih.2.trans hrun⟩

/-- The eager system in which `root` has the pages below `USTACKTOP` that it has in `k`. -/
def eagerStart (k : Kernel) (root : Nat) : Cow.Eager Nat Nat (Fin PGSIZE) (BitVec 8) where
  mem e v := if e = root ∧ v < PGNUM USTACKTOP ∧ present (k.pte root v)
    then some fun i => physBytes k.pmap (ppn (k.pte root v), i) else none
  child _ := none

theorem ForkStart.eager {root : Nat} (hs : ForkStart k root) :
    (ForkState.start k root).cow.eager = eagerStart k root := by
  refine congrArg₂ Cow.Eager.mk (funext fun e => funext fun v => ?_) (funext fun e => ?_)
  · have hparent : ((ForkState.start k root).cow.task e).parent = none := by
      show ((ForkState.start k root).point e).task.parent = none
      rw [start_point]
      split
      · rfl
      · rfl
    rw [Cow.mem_of_no_parent hparent, Cow.State.space]
    split
    · next hc =>
      obtain ⟨rfl, hv, hP⟩ := hc
      have hin : (ForkState.start k e).point e ≠ .out := by
        rw [start_point, if_pos rfl]
        exact ForkPoint.ne_out rfl
      have ht : Tracked v := ⟨hv, fun hc => hs.pftemp (hc ▸ hP)⟩
      rw [cow_entry_eq_some.mpr ⟨hin, ht, hP, rfl, rfl⟩]
      rfl
    · next hc =>
      have hnone : (ForkState.start k root).cow.entry e v = none := by
        by_contra hne
        obtain ⟨x, hx⟩ := Option.ne_none_iff_exists'.mp hne
        obtain ⟨hin, ht, hP, -⟩ := cow_entry_eq_some.mp hx
        have he := eq_of_start hin
        rw [he] at hP
        exact hc ⟨he, ht.1, hP⟩
      rw [hnone]
      rfl
  · show ((ForkState.start k root).point e).task.child.map _ = none
    rw [start_point]
    split
    · rfl
    · rfl

/-! ## A run -/

section Demo

variable {D : Finset Nat} {l : List Nat} {d₀ d₁ : Nat} {k₀ : Kernel}

/-- The environments of `demoSystem` share no page. -/
theorem DemoRunning.forkStart (h : DemoRunning R D l d₀ d₁ k₀ k)
    (hne : ppn (pteOf k₀.pmap d₀ STACKPN) ≠ ppn (pteOf k₀.pmap d₁ STACKPN)) : ForkStart k 0 := by
  have honly : ∀ {d}, StackOnly k₀.pmap d → ∀ v < NUVPN, present (pteOf k₀.pmap d v) → v = STACKPN := by
    rintro d ⟨q, hq⟩ v hv hP
    by_contra hc
    rw [hq v hv, if_neg hc] at hP
    exact absurd hP (by decide)
  have hpte₀ : ∀ v, k.pte 0 v = pteOf k₀.pmap d₀ v := fun v => by rw [pte_eq h.pgdir₀, h.pmap]
  have htop : PGNUM USTACKTOP ≤ NUVPN := by decide
  refine ⟨h.live₀, by rw [h.status 0]; exact nofun, fun v hv hP e v' hv' hP' heq => ?_, fun hP => ?_⟩
  · rw [hpte₀] at hP heq
    obtain rfl := honly h.booted.stack₀ v (hv.trans_le htop) hP
    by_cases he₀ : e = 0
    · subst he₀
      rw [hpte₀] at hP'
      exact ⟨rfl, honly h.booted.stack₀ v' hv' hP'⟩
    by_cases he₁ : e = 1
    · subst he₁
      rw [pte_eq h.pgdir₁, h.pmap] at hP' heq
      obtain rfl := honly h.booted.stack₁ v' hv' hP'
      exact absurd heq.symm hne
    · have hfree : (k.envs e).envStatus = .free := by rw [h.status, if_neg he₀, if_neg he₁]
      rw [pte_of_none ((h.inv.life e).mp hfree)] at hP'
      exact absurd hP' (by decide)
  · rw [hpte₀] at hP
    exact absurd (honly h.booted.stack₀ _ (by decide) hP) (by decide)

/-- The flags of the stack page let user code read it. -/
theorem mkPte_userR (q : Nat) : mkPte q (PTE_U ||| PTE_W) &&& USER_R = USER_R := by
  have hsplit : mkPte q (PTE_U ||| PTE_W) = (page2pa q ||| PTE_W) ||| USER_R := by
    have hflags : PTE_U ||| PTE_W ||| PTE_P = PTE_W ||| USER_R := by decide
    rw [mkPte, BitVec.or_assoc, hflags, BitVec.or_assoc]
  rw [hsplit, BitVec.and_comm, BitVec.and_or_distrib_left, BitVec.and_self]
  ext i hi
  simp only [BitVec.getElem_or, BitVec.getElem_and]
  cases USER_R[i] <;> simp

/-- The first environment of `demoSystem` looks at its stack and forks. -/
theorem DemoRunning.forkRun (h : DemoRunning R D l d₀ d₁ k₀ k) : ∃ b e σ,
    ForkRun demoSystem k 0 [.load 0 STACKPN (pgOff STACKVA) b, .fork 0 e] σ := by
  have hcpu : k.cpus 0 = { mode := .user, cpuEnv := some 0, cr3 := d₀ } := by
    rw [h.cpus 0]
    rfl
  have hacts : Acts (.start k 0) 0 0 := by
    refine ⟨⟨h.curenv, ?_⟩, rfl⟩
    show (k.cpus 0).mode = .user
    rw [hcpu]
  have hdir : (ForkState.start k 0).dir 0 = d₀ := by
    show (k.cpus 0).cr3 = d₀
    rw [hcpu]
  -- it can read its stack
  obtain ⟨b, hb⟩ : ∃ b, loadByte k.pmap d₀ STACKVA USER_R = some b := by
    obtain ⟨q, hq⟩ := h.booted.stack₀
    have hstack : pteOf k₀.pmap d₀ (PGNUM STACKVA) = mkPte q (PTE_U ||| PTE_W) :=
      (hq _ (by decide)).trans (if_pos rfl)
    rw [loadByte, h.inv.pmap.translate_below .read h.booted.dirs.1 (by decide), h.pmap, hstack,
      if_pos (mkPte_userR q)]
    exact ⟨_, rfl⟩
  have hload : ForkStep demoSystem (.start k 0) [.load 0 STACKPN (pgOff STACKVA) b] (.start k 0) :=
    .load hacts rfl (by decide) (by rw [hdir]; exact hb)
  -- `sys_exofork` finds a slot and a page
  have hl : l ≠ [] := by
    rintro rfl
    exact absurd h.booted.room (by decide)
  have htf := OnlyTf.setEnv k 0 (callFrame exoforkCall)
  have hinv := h.inv.congr ⟨htf.sameDirs, fun e => by rw [htf.status]⟩ htf.pmap
  obtain ⟨e, -, hfree, r, k₂, hcode, h₂, -⟩ := ((h.snap 2).onlyTf htf).fork hinv hl ⟨2, by decide, rfl⟩ 0
  have he : (0 : Nat) ≠ e := by
    rintro rfl
    cases hfree
  have hpos : 0 < r := hinv.toMemInv.sysExofork_pos (r, k₂) hcode
  obtain ⟨i, k₁, -, -, rfl⟩ := sysExofork_ok hcode
  have hx := (h.snap 2).exec_ret (c := 0) exoforkCall rfl (by decide) (by decide)
    (congrArg (Functor.map Flow.ofRet) hcode) h₂ (Function.update_of_ne he ..)
  have hcalls : Calls demoSystem k 0 exoforkCall ((k₁.envs i).envId)
      ((setEax k₂ 0 (k₁.envs i).envId.toInt).runs 0 0) := by
    refine ⟨⟨0, callAction 0 exoforkCall, h.curenv, ⟨rfl, rfl, rfl⟩, callAction_enabled _ (by decide) ?_, hx.1⟩, ?_,
      hpos.le⟩
    · rw [hcpu]
    · rw [(runs_sameEnv 0).tf, setEax, setEnv_envs, if_pos rfl]
      exact BitVec.ofInt_toInt ..
  have hpoint : ((ForkState.start k 0).goto k 0 .exofork).point 0 = .exofork := by rw [goto_point, if_pos rfl]
  exact ⟨b, _, _, ((ForkRun.start.step hload).step (.fork false hacts rfl)).step (.exofork rfl hpoint hcalls)⟩

end Demo

/-! ## The refinement -/

/-- `fork` with copy on write behaves as if it copied all pages: whatever the members of a family load, store and
`fork`, in whatever order, the loads return what they return in the system where each has its pages to itself. -/
theorem fork_refines_eager {root : Nat} (hr : Reach sys Safe k) (hs : ForkStart k root)
    (hrun : ForkRun sys k root tr σ) : ∃ m, Cow.Eager.Run (eagerStart k root) tr m := by
  obtain ⟨R, hsys⟩ := hr.sysInv
  have hinv := hs.inv hsys hr.indexed
  have heager := (hrun.inv hinv).2.eager hinv.cow
  rw [hs.eager] at heager
  exact ⟨_, heager.2⟩

/-- `fork_refines_eager` for the first environment of `demoSystem`, which looks at its stack and forks. -/
theorem fork_refines_eager_demoSystem : ∃ k b e m, ForkStart k 0 ∧
    Cow.Eager.Run (eagerStart k 0) [.load 0 STACKPN (pgOff STACKVA) b, .fork 0 e] m := by
  obtain ⟨s₀, D, l, d₀, d₁, k₀, ⟨hinit, hs, hroom, hdirs, hne, hpg₀, hpg₁, hst₀, hst₁⟩, hstacks⟩ :=
    demoCpus_stacks (n := 2) le_rfl
  have hb : DemoBooted (notFree s₀) D l d₀ d₁ k₀ := ⟨hinit, hs, hroom, hdirs, hne, hpg₀, hpg₁, hst₀, hst₁⟩
  have h := hb.running
  obtain ⟨b, e, σ, hrun⟩ := h.forkRun
  have hstart := h.forkStart hstacks
  obtain ⟨m, hm⟩ := fork_refines_eager (.boot h.booted.init h.first) hstart hrun
  exact ⟨_, b, e, m, hstart, hm⟩

end Jos
