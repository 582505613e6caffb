import Jos.KernelInv

/-!
# What the scheduler does

`sched_yield` runs an environment that is `ENV_RUNNABLE`, or else the current one if it is still
`ENV_RUNNING`, or else halts the CPU, or ends up in the monitor when no environment can ever run again.
`runs` and `halts` are the states it leaves in the first three cases. Neither touches memory or the fields
of an environment other than its status, run count and CPU number.
-/

namespace Jos

open Kernel

variable {R : Set Nat} {D : Finset Nat} {l : List Nat} {k k' : Kernel} {c e i cur d : Nat}

/-! ## `env_run` -/

/-- The state after `env_run(e)` on CPU `c`. -/
def Kernel.runs (k : Kernel) (c e : Nat) : Kernel where
  pmap := k.pmap
  envs i :=
    if i = e then { k.envs e with
      envStatus := .running
      envRuns := (k.envs e).envRuns + 1#32
      envCpunum := c }
    else if k.curenv c = some i ∧ (k.envs i).envStatus = .running then
      { k.envs i with envStatus := .runnable }
    else k.envs i
  envFreeList := k.envFreeList
  cpus := Function.update k.cpus c
    { mode := .user, cpuEnv := some e, cr3 := (k.envs e).envPgdir.getD 0 }
  log := .run c e :: k.log

@[simp] theorem runs_pmap : (k.runs c e).pmap = k.pmap := rfl
@[simp] theorem runs_envFreeList : (k.runs c e).envFreeList = k.envFreeList := rfl
@[simp] theorem runs_log : (k.runs c e).log = .run c e :: k.log := rfl

theorem runs_cpus (i : Nat) : (k.runs c e).cpus i
    = if i = c then { mode := .user, cpuEnv := some e, cr3 := (k.envs e).envPgdir.getD 0 }
      else k.cpus i := by
  simp [Kernel.runs, Function.update_apply]

theorem runs_status (i : Nat) : ((k.runs c e).envs i).envStatus
    = if i = e then .running
      else if k.curenv c = some i ∧ (k.envs i).envStatus = .running then .runnable
      else (k.envs i).envStatus := by
  simp only [Kernel.runs]
  split
  · rfl
  · split <;> rfl

/-- Nothing but status, run count and CPU number changes. -/
structure SameEnv (env env' : Env) : Prop where
  tf : env'.envTf = env.envTf
  link : env'.envLink = env.envLink
  id : env'.envId = env.envId
  parent : env'.envParentId = env.envParentId
  pgdir : env'.envPgdir = env.envPgdir
  upcall : env'.envPgfaultUpcall = env.envPgfaultUpcall
  recving : env'.envIpcRecving = env.envIpcRecving
  dstva : env'.envIpcDstva = env.envIpcDstva
  value : env'.envIpcValue = env.envIpcValue
  sender : env'.envIpcFrom = env.envIpcFrom
  perm : env'.envIpcPerm = env.envIpcPerm

theorem SameEnv.refl (env : Env) : SameEnv env env :=
  ⟨rfl, rfl, rfl, rfl, rfl, rfl, rfl, rfl, rfl, rfl, rfl⟩

theorem runs_sameEnv (i : Nat) : SameEnv (k.envs i) ((k.runs c e).envs i) := by
  simp only [Kernel.runs]
  split
  · next h =>
    subst h
    exact ⟨rfl, rfl, rfl, rfl, rfl, rfl, rfl, rfl, rfl, rfl, rfl⟩
  · split
    · exact ⟨rfl, rfl, rfl, rfl, rfl, rfl, rfl, rfl, rfl, rfl, rfl⟩
    · exact .refl _

/-- The first statement of `env_run`, which gives up the environment that ran so far. -/
private def Kernel.demote (k : Kernel) (c : Nat) : Kernel :=
  match k.curenv c with
  | some cur => if (k.envs cur).envStatus = .running then k.setStatus cur .runnable else k
  | none => k

private theorem demote_envs (k : Kernel) (c i : Nat) : (k.demote c).envs i
    = if k.curenv c = some i ∧ (k.envs i).envStatus = .running then
      { k.envs i with envStatus := .runnable } else k.envs i := by
  unfold Kernel.demote
  split
  · next cur hcur =>
    rw [hcur]
    split
    · next hrun =>
      rw [setStatus_envs]
      by_cases hi : i = cur
      · subst hi
        rw [if_pos rfl, if_pos ⟨rfl, hrun⟩]
      · rw [if_neg hi, if_neg fun hc => hi (Option.some.inj hc.1).symm]
    · next hrun =>
      rw [if_neg]
      rintro ⟨hi, hr⟩
      exact hrun (Option.some.inj hi ▸ hr)
  · next hcur => rw [hcur, if_neg (fun hc => nomatch hc.1)]

private theorem demote_fields (k : Kernel) (c : Nat) : (k.demote c).pmap = k.pmap ∧
    (k.demote c).envFreeList = k.envFreeList ∧ (k.demote c).cpus = k.cpus ∧
    (k.demote c).log = k.log := by
  unfold Kernel.demote
  split
  · split <;> exact ⟨rfl, rfl, rfl, rfl⟩
  · exact ⟨rfl, rfl, rfl, rfl⟩

/-- `env_run` after its first statement. -/
private theorem envRun_demote (k : Kernel) (c e : Nat) : ∃ k₁ : Kernel,
    (∀ i, k₁.envs i = if k.curenv c = some i ∧ (k.envs i).envStatus = .running then
      { k.envs i with envStatus := .runnable } else k.envs i) ∧
    (k₁.pmap = k.pmap ∧ k₁.envFreeList = k.envFreeList ∧ k₁.cpus = k.cpus ∧
      k₁.log = .run c e :: k.log) ∧
    envRun k c e = (do
      let k₂ := k₁.setCurenv c (some e)
      let k₂ := k₂.setEnv e { k₂.envs e with
        envStatus := .running
        envRuns := (k₂.envs e).envRuns + 1#32 }
      match (k₂.envs e).envPgdir with
      | none => throw .paddr
      | some pgdir =>
        let k₂ := k₂.setEnv e { k₂.envs e with envCpunum := c }
        return .left (k₂.setCpu c { k₂.cpus c with mode := .user, cr3 := pgdir })) :=
  ⟨(k.record (.run c e)).demote c, demote_envs (k.record (.run c e)) c,
    demote_fields (k.record (.run c e)) c, rfl⟩

/-- `PADDR` of a null page directory. -/
theorem envRun_null (hpg : (k.envs e).envPgdir = none) : envRun k c e = .error .paddr := by
  obtain ⟨k₁, henvs, -, hcode⟩ := envRun_demote k c e
  have hpg' : (k₁.envs e).envPgdir = none := by
    rw [henvs e]
    split <;> exact hpg
  rw [hcode]
  simp only [setEnv_envs, if_true, setCurenv_envs]
  split
  · rfl
  · next hsome =>
    rw [hpg'] at hsome
    cases hsome

theorem envRun_eq (hpg : (k.envs e).envPgdir = some d) :
    envRun k c e = .ok (.left (k.runs c e)) := by
  obtain ⟨k₁, henvs, hfields, hcode⟩ := envRun_demote k c e
  have hself : ({ k₁.envs e with
      envStatus := .running
      envRuns := (k₁.envs e).envRuns + 1#32
      envCpunum := c } : Env) = { k.envs e with
      envStatus := .running
      envRuns := (k.envs e).envRuns + 1#32
      envCpunum := c } := by
    rw [henvs e]
    split <;> rfl
  have hpg' : (k₁.envs e).envPgdir = some d := by
    rw [henvs e]
    split <;> exact hpg
  rw [hcode]
  simp only [setEnv_envs, if_true, setCurenv_envs, Except.pure_eq]
  split
  · next hnone =>
    rw [hpg'] at hnone
    cases hnone
  next pgdir hsome =>
  obtain rfl : d = pgdir := Option.some.inj (hpg'.symm.trans hsome)
  refine congrArg (fun k => Except.ok (Flow.left k)) (Kernel.ext hfields.1 (funext fun i => ?_)
    hfields.2.1 (funext fun i => ?_) hfields.2.2.2)
  · simp only [setCpu_envs, setEnv_envs, setCurenv_envs, Kernel.runs]
    by_cases hi : i = e
    · subst hi
      rw [if_pos rfl, if_pos rfl]
      exact hself
    · rw [if_neg hi, if_neg hi, if_neg hi]
      exact henvs i
  · simp only [setCpu_cpus, setEnv_cpus, setCurenv_cpus, runs_cpus, if_true]
    by_cases hi : i = c
    · rw [if_pos hi, if_pos hi, hpg, Option.getD_some]
    · rw [if_neg hi, if_neg hi, if_neg hi, hfields.2.2.1]

/-! ## `sched_yield` -/

/-- The state after `sched_halt` on CPU `c`. -/
def Kernel.halts (k : Kernel) (c : Nat) : Kernel :=
  k.setCpu c { mode := .idle, cpuEnv := none, cr3 := k.pmap.kernPgdir }

/-- No environment is `ENV_RUNNABLE`. -/
def NoRunnable (k : Kernel) : Prop := ∀ e < NENV, (k.envs e).envStatus ≠ .runnable

/-- The environments `sched_yield` may pick on CPU `c`. -/
def Dispatchable (k : Kernel) (c e : Nat) : Prop :=
  e < NENV ∧ ((k.envs e).envStatus = .runnable ∨
    (k.curenv c = some e ∧ (k.envs e).envStatus = .running ∧ NoRunnable k))

/-- Going once around starting anywhere comes past every slot. -/
private theorem rotate_mod {start e n : Nat} (hn : 0 < n) (he : e < n) :
    (start + (e + (n - start % n)) % n) % n = e := by
  have hdiv := Nat.div_add_mod start n
  have hlt := Nat.mod_lt start hn
  have heq : start + (e + (n - start % n)) = e + n * (start / n + 1) := by
    rw [Nat.mul_add]
    omega
  rw [Nat.add_mod_mod, heq, Nat.add_mul_mod_self_left, Nat.mod_eq_of_lt he]

theorem schedPick_some {start : Nat} (h : schedPick k start = some e) :
    e < NENV ∧ (k.envs e).envStatus = .runnable := by
  obtain ⟨i, hfind, rfl⟩ := Option.map_eq_some_iff.mp h
  have hst := List.find?_some hfind
  exact ⟨Nat.mod_lt _ (by decide), by simpa using hst⟩

/-- The search takes the slot it starts at if it can. -/
theorem schedPick_start {start : Nat} (hlt : start < NENV)
    (h : (k.envs start).envStatus = .runnable) : schedPick k start = some start := by
  obtain ⟨n, hn⟩ : ∃ n, NENV = n + 1 := ⟨1023, rfl⟩
  have hmod : (start + 0) % NENV = start := Nat.mod_eq_of_lt hlt
  have hfind : (List.range NENV).find?
      (fun i => (k.envs ((start + i) % NENV)).envStatus = .runnable) = some 0 := by
    rw [hn, List.range_succ_eq_map, ← hn]
    exact List.find?_cons_of_pos (by rw [hmod]; exact decide_eq_true h)
  rw [schedPick, hfind, Option.map_some, hmod]

theorem schedPick_none {start : Nat} (h : schedPick k start = none) : NoRunnable k := by
  intro e he hst
  have hN : 0 < NENV := by decide
  have hall := List.find?_eq_none.mp (Option.map_eq_none_iff.mp h)
  have := hall _ (List.mem_range.mpr (Nat.mod_lt (e + (NENV - start % NENV)) hN))
  rw [rotate_mod hN he] at this
  exact this (by simpa using hst)

theorem schedHalt_cases (h : NoRunnable k) :
    (∃ e < NENV, (k.envs e).envStatus = .running ∨ (k.envs e).envStatus = .dying) ∧
        schedHalt k c = .left (k.halts c) ∨
      (∀ e < NENV, (k.envs e).envStatus ≠ .runnable ∧ (k.envs e).envStatus ≠ .running ∧
        (k.envs e).envStatus ≠ .dying) ∧ schedHalt k c = .monitor k := by
  unfold schedHalt
  split
  · next hany =>
    obtain ⟨e, he, hst⟩ := List.any_eq_true.mp hany
    have he := List.mem_range.mp he
    refine Or.inl ⟨⟨e, he, ?_⟩, rfl⟩
    rcases of_decide_eq_true hst with hst | hst
    · exact absurd hst (h e he)
    · exact hst
  · next hany =>
    refine Or.inr ⟨fun e he => ?_, rfl⟩
    have hno := fun hst => hany (List.any_eq_true.mpr ⟨e, List.mem_range.mpr he,
      decide_eq_true hst⟩)
    exact ⟨fun h => hno (Or.inl h), fun h => hno (Or.inr (Or.inl h)),
      fun h => hno (Or.inr (Or.inr h))⟩

/-- What `sched_yield` does. -/
theorem schedYield_cases (hpg : ∀ e, Live k e → ∃ d, (k.envs e).envPgdir = some d)
    (hcur : ∀ e, k.curenv c = some e → e < NENV) :
    (∃ e, Dispatchable k c e ∧ schedYield k c = .ok (.left (k.runs c e))) ∨
    (NoRunnable k ∧ (∀ e, k.curenv c = some e → (k.envs e).envStatus ≠ .running) ∧
      (∃ e < NENV, (k.envs e).envStatus = .running ∨ (k.envs e).envStatus = .dying) ∧
      schedYield k c = .ok (.left (k.halts c))) ∨
    ((∀ e < NENV, (k.envs e).envStatus ≠ .runnable ∧ (k.envs e).envStatus ≠ .running ∧
      (k.envs e).envStatus ≠ .dying) ∧ schedYield k c = .ok (.monitor k)) := by
  have hrun : ∀ e, e < NENV → (k.envs e).envStatus ≠ .free →
      envRun k c e = .ok (.left (k.runs c e)) := by
    intro e he hst
    obtain ⟨d, hd⟩ := hpg e ⟨he, hst⟩
    exact envRun_eq hd
  unfold schedYield
  cases hpick : schedPick k (schedStart k c) with
  | some e =>
    obtain ⟨hlt, hst⟩ := schedPick_some hpick
    exact Or.inl ⟨e, ⟨hlt, Or.inl hst⟩, hrun e hlt (by rw [hst]; exact nofun)⟩
  | none =>
    have hno := schedPick_none hpick
    cases hc : k.curenv c with
    | some cur =>
      simp only
      by_cases hr : (k.envs cur).envStatus = .running
      · rw [if_pos hr]
        have hlt := hcur cur hc
        exact Or.inl ⟨cur, ⟨hlt, Or.inr ⟨hc, hr, hno⟩⟩, hrun _ hlt (by rw [hr]; exact nofun)⟩
      · rw [if_neg hr]
        rcases schedHalt_cases (c := c) hno with ⟨hex, hh⟩ | ⟨hall, hh⟩
        · refine Or.inr (Or.inl ⟨hno, ?_, hex, by rw [hh]; rfl⟩)
          rintro e he
          cases he
          exact hr
        · exact Or.inr (Or.inr ⟨hall, by rw [hh]; rfl⟩)
    | none =>
      simp only
      rcases schedHalt_cases (c := c) hno with ⟨hex, hh⟩ | ⟨hall, hh⟩
      · exact Or.inr (Or.inl ⟨hno, fun e he => (nomatch he), hex, by rw [hh]; rfl⟩)
      · exact Or.inr (Or.inr ⟨hall, by rw [hh]; rfl⟩)

theorem KernelInv.schedYield_cases (h : KernelInv R D l k)
    (hcur : ∀ e, k.curenv c = some e → e < NENV) :
    (∃ e, Dispatchable k c e ∧ schedYield k c = .ok (.left (k.runs c e))) ∨
    (NoRunnable k ∧ (∀ e, k.curenv c = some e → (k.envs e).envStatus ≠ .running) ∧
      (∃ e < NENV, (k.envs e).envStatus = .running ∨ (k.envs e).envStatus = .dying) ∧
      schedYield k c = .ok (.left (k.halts c))) ∨
    ((∀ e < NENV, (k.envs e).envStatus ≠ .runnable ∧ (k.envs e).envStatus ≠ .running ∧
      (k.envs e).envStatus ≠ .dying) ∧ schedYield k c = .ok (.monitor k)) := by
  refine Jos.schedYield_cases (fun e he => ?_) hcur
  obtain ⟨d, -, hpg⟩ := h.pgdir he
  exact ⟨d, hpg⟩

/-- The slot where the search starts goes first. -/
theorem KernelInv.schedYield_start (h : KernelInv R D l k) (hlt : e < NENV)
    (hs : schedStart k c = e) (hst : (k.envs e).envStatus = .runnable) :
    schedYield k c = .ok (.left (k.runs c e)) := by
  obtain ⟨d, -, hpg⟩ := h.pgdir ⟨hlt, by rw [hst]; exact nofun⟩
  have hrun : schedYield k c = envRun k c e := by
    unfold schedYield
    simp only [hs, schedPick_start hlt hst]
  rw [hrun, envRun_eq hpg]

/-- Where only one environment is runnable, it runs. -/
theorem KernelInv.schedYield_only (h : KernelInv R D l k)
    (hcur : ∀ e, k.curenv c = some e → e < NENV) (hlt : e < NENV)
    (hst : (k.envs e).envStatus = .runnable)
    (honly : ∀ i < NENV, (k.envs i).envStatus = .runnable → i = e) :
    schedYield k c = .ok (.left (k.runs c e)) := by
  rcases h.schedYield_cases hcur with ⟨i, ⟨hi, hdis⟩, hy⟩ | ⟨hno, -⟩ | ⟨hno, -⟩
  · rcases hdis with hdis | ⟨-, -, hno⟩
    · rw [hy, honly i hi hdis]
    · exact absurd hst (hno e hlt)
  · exact absurd hst (hno e hlt)
  · exact absurd hst (hno e hlt).1

theorem runs_sameDirs : SameDirs k (k.runs c e) :=
  ⟨fun i => (runs_sameEnv i).link, fun i => (runs_sameEnv i).pgdir, rfl⟩

theorem KernelInv.runs (h : KernelInv R D l k) (he : Live k e)
    (hcur : ∀ i, k.curenv c = some i → Live k i) : KernelInv R D l (k.runs c e) := by
  refine h.congr ⟨runs_sameDirs, fun i => ?_⟩ rfl
  rw [runs_status]
  split
  · next hi =>
    subst hi
    exact iff_of_false nofun he.2
  · split
    · next hi => exact iff_of_false nofun (hcur i hi.1).2
    · rfl

end Jos
