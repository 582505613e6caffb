import Jos.Lib.Lifecycle
import Jos.Effects

/-!
# CPUs, environments and the history

`CpusOk` says how `cpu_env`, `env_status` and the processors fit together: no two CPUs have one environment,
an environment is `ENV_RUNNING` or `ENV_DYING` exactly while a CPU has it, and a CPU that has one is in user
mode with its page directory. While a CPU is in the kernel its own environment is exempt, which the argument
`own` expresses. `LogOk` says that the history of every slot is a legal life cycle and that no CPU frees an
environment another one has.

Each change of the state that kernel entries are made of keeps both.
-/

namespace Jos

open Pmap Kernel

variable {R : Set Nat} {D : Finset Nat} {l : List Nat} {k k' : Kernel} {c e cur d p : Nat}
  {own : Option Nat} {st : EnvStatus} {s : Pmap}

/-! ## CPUs -/

/-- How CPUs and environments fit together while the CPU `own`, if any, is in the kernel. -/
structure CpusOk (own : Option Nat) (k : Kernel) : Prop where
  inj : ∀ c c' e, k.curenv c = some e → k.curenv c' = some e → c = c'
  status : ∀ c e, some c ≠ own → k.curenv c = some e →
    (k.envs e).envStatus = .running ∨ (k.envs e).envStatus = .dying
  busy : ∀ e, (k.envs e).envStatus = .running ∨ (k.envs e).envStatus = .dying →
    ∃ c, k.curenv c = some e
  mode : ∀ c, some c ≠ own → ((k.cpus c).mode = .user ↔ k.curenv c ≠ none)
  cr3 : ∀ c e, k.curenv c = some e → (k.envs e).envPgdir = some (k.cpus c).cr3

/-- CPU `c` may go on with its environment. -/
def OwnOk (c : Nat) (k : Kernel) : Prop :=
  ∀ e, k.curenv c = some e → (k.envs e).envStatus ≠ .dying ∧ (k.envs e).envStatus ≠ .free

namespace CpusOk

theorem enter (h : CpusOk none k) (c : Nat) : CpusOk (some c) k :=
  ⟨h.inj, fun c' e _ => h.status c' e nofun, h.busy, fun c' _ => h.mode c' nofun, h.cr3⟩

/-- Changes that concern neither CPUs nor status and directories of environments. -/
theorem congr (h : CpusOk own k) (hc : k'.cpus = k.cpus)
    (hst : ∀ e, (k'.envs e).envStatus = (k.envs e).envStatus)
    (hpg : ∀ e, (k'.envs e).envPgdir = (k.envs e).envPgdir) : CpusOk own k' := by
  have hcur : ∀ i, k'.curenv i = k.curenv i := fun i => by rw [Kernel.curenv, hc]; rfl
  refine ⟨?_, ?_, ?_, ?_, ?_⟩
  · simp only [hcur]
    exact h.inj
  · simp only [hcur, hst]
    exact h.status
  · simp only [hcur, hst]
    exact h.busy
  · simp only [hcur, hc]
    exact h.mode
  · simp only [hcur, hc, hpg]
    exact h.cr3

/-- Environment `e` gets another status. -/
theorem withStatus (h : CpusOk (some c) k) (hc : k'.cpus = k.cpus)
    (hst : ∀ i, (k'.envs i).envStatus = if i = e then st else (k.envs i).envStatus)
    (hpg : ∀ i, (k'.envs i).envPgdir = (k.envs i).envPgdir)
    (helse : RunsElsewhere k c e → st = .running ∨ st = .dying)
    (hbusy : st = .running ∨ st = .dying → ∃ c', k.curenv c' = some e) : CpusOk (some c) k' := by
  have hcur : ∀ i, k'.curenv i = k.curenv i := fun i => by rw [Kernel.curenv, hc]; rfl
  refine ⟨?_, ?_, ?_, ?_, ?_⟩
  · simp only [hcur]
    exact h.inj
  · intro c' i hne hi
    rw [hcur] at hi
    rw [hst]
    split
    · next hie =>
      subst hie
      exact helse ⟨c', fun hc => hne (congrArg some hc), hi⟩
    · exact h.status c' i hne hi
  · intro i hi
    simp only [hcur]
    rw [hst] at hi
    split at hi
    · next hie =>
      subst hie
      exact hbusy hi
    · exact h.busy i hi
  · simp only [hcur, hc]
    exact h.mode
  · simp only [hcur, hc, hpg]
    exact h.cr3

/-- A slot without a directory belongs to no CPU. -/
theorem ne_of_pgdir (h : CpusOk own k) (hpg : (k.envs e).envPgdir = none) (c : Nat) :
    k.curenv c ≠ some e := by
  intro hc
  rw [h.cr3 c e hc] at hpg
  cases hpg

/-- An environment that only CPU `c` may have is not one it is about to free. -/
theorem not_dying (h : CpusOk (some c) k) (ho : OwnOk c k) (helse : ¬ RunsElsewhere k c e) :
    (k.envs e).envStatus ≠ .dying := by
  intro hd
  obtain ⟨c', hc'⟩ := h.busy e (Or.inr hd)
  by_cases hcc : c' = c
  · subst hcc
    exact (ho e hc').1 hd
  · exact helse ⟨c', hcc, hc'⟩

theorem forks (h : CpusOk (some c) k) (hpg : (k.envs e).envPgdir = none) :
    CpusOk (some c) (k.forks cur e p) := by
  have hne := h.ne_of_pgdir hpg
  have henvs : ∀ i, i ≠ e → (k.forks cur e p).envs i = k.envs i := by
    intro i hi
    unfold Kernel.forks
    rw [setEnv_envs, if_neg hi, newEnv_envs_of_ne hi]
  have hself : ((k.forks cur e p).envs e).envStatus = .notRunnable := by
    unfold Kernel.forks
    rw [setEnv_envs, if_pos rfl]
  refine ⟨h.inj, ?_, ?_, h.mode, ?_⟩
  · intro c' i hc' hi
    have hie : i ≠ e := fun hie => hne c' (hie ▸ hi)
    rw [henvs i hie]
    exact h.status c' i hc' hi
  · intro i hi
    by_cases hie : i = e
    · subst hie
      rw [hself] at hi
      rcases hi with hi | hi <;> cases hi
    · rw [henvs i hie] at hi
      exact h.busy i hi
  · intro c' i hi
    have hie : i ≠ e := fun hie => hne c' (hie ▸ hi)
    rw [henvs i hie]
    exact h.cr3 c' i hi

/-- CPU `c` frees its own environment and lets go of it. -/
theorem freeOwn (h : CpusOk (some c) k) (hcur : k.curenv c = some e) :
    CpusOk (some c) ((k.freeEnv c e s).setCurenv c none) := by
  have hcpu : ∀ c', ((k.freeEnv c e s).setCurenv c none).cpus c'
      = if c' = c then { k.cpus c with cpuEnv := none } else k.cpus c' := fun c' => setCurenv_cpus ..
  have hcurenv : ∀ c' i, ((k.freeEnv c e s).setCurenv c none).curenv c' = some i ↔
      c' ≠ c ∧ k.curenv c' = some i := by
    intro c' i
    rw [Kernel.curenv, hcpu]
    split
    · next hc => simp [hc]
    · next hc => simp [hc, Kernel.curenv]
  have hne : ∀ c' i, c' ≠ c → k.curenv c' = some i → i ≠ e := by
    rintro c' i hc' hi rfl
    exact hc' (h.inj c' c i hi hcur)
  refine ⟨?_, ?_, ?_, ?_, ?_⟩
  · intro c₁ c₂ i h₁ h₂
    exact h.inj c₁ c₂ i ((hcurenv c₁ i).mp h₁).2 ((hcurenv c₂ i).mp h₂).2
  · intro c' i hc' hi
    obtain ⟨hcc, hi⟩ := (hcurenv c' i).mp hi
    rw [setCurenv_envs, freeEnv_envs_of_ne (hne c' i hcc hi)]
    exact h.status c' i hc' hi
  · intro i hi
    by_cases hie : i = e
    · subst hie
      rw [setCurenv_envs, freeEnv_envs_self] at hi
      rcases hi with hi | hi <;> cases hi
    · rw [setCurenv_envs, freeEnv_envs_of_ne hie] at hi
      obtain ⟨c', hc'⟩ := h.busy i hi
      refine ⟨c', (hcurenv c' i).mpr ⟨?_, hc'⟩⟩
      rintro rfl
      exact hie (Option.some.inj (hc'.symm.trans hcur))
  · intro c' hc'
    have hcc : c' ≠ c := fun hcc => hc' (congrArg some hcc)
    rw [Kernel.curenv, hcpu, if_neg hcc]
    exact h.mode c' hc'
  · intro c' i hi
    obtain ⟨hcc, hi⟩ := (hcurenv c' i).mp hi
    rw [setCurenv_envs, freeEnv_envs_of_ne (hne c' i hcc hi), hcpu, if_neg hcc]
    exact h.cr3 c' i hi

/-- CPU `c` frees an environment that no CPU has. -/
theorem freeOther (h : CpusOk (some c) k) (hno : ∀ c', k.curenv c' ≠ some e) :
    CpusOk (some c) (k.freeEnv c e s) := by
  have hne : ∀ c' i, k.curenv c' = some i → i ≠ e := by
    rintro c' i hi rfl
    exact hno c' hi
  refine ⟨h.inj, ?_, ?_, h.mode, ?_⟩
  · intro c' i hc' hi
    rw [freeEnv_envs_of_ne (hne c' i hi)]
    exact h.status c' i hc' hi
  · intro i hi
    by_cases hie : i = e
    · subst hie
      rw [freeEnv_envs_self] at hi
      rcases hi with hi | hi <;> cases hi
    · rw [freeEnv_envs_of_ne hie] at hi
      exact h.busy i hi
  · intro c' i hi
    rw [freeEnv_envs_of_ne (hne c' i hi)]
    exact h.cr3 c' i hi

/-- CPU `c` goes to user mode. -/
theorem runs (h : CpusOk (some c) k) (ho : OwnOk c k) (hr : CanRun k c e)
    (hpg : (k.envs e).envPgdir ≠ none) : CpusOk none (k.runs c e) := by
  have hcurenv : ∀ c', (k.runs c e).curenv c' = if c' = c then some e else k.curenv c' := by
    intro c'
    rw [Kernel.curenv, runs_cpus]
    split <;> rfl
  -- nobody else has the environment
  have hnew : ∀ c', c' ≠ c → k.curenv c' ≠ some e := by
    intro c' hc' hc
    rcases hr.2 with hst | ⟨hcur, -⟩
    · rcases h.status c' e (fun hcc => hc' (Option.some.inj hcc)) hc with hst' | hst' <;>
        rw [hst] at hst' <;> cases hst'
    · exact hc' (h.inj c' c e hc hcur)
  refine ⟨?_, ?_, ?_, ?_, ?_⟩
  · intro c₁ c₂ i h₁ h₂
    rw [hcurenv] at h₁ h₂
    split at h₁ <;> split at h₂
    · next hc₁ hc₂ => rw [hc₁, hc₂]
    · next _ hc₂ => exact absurd (Option.some.inj h₁ ▸ h₂) (hnew c₂ hc₂)
    · next hc₁ _ => exact absurd (Option.some.inj h₂ ▸ h₁) (hnew c₁ hc₁)
    · exact h.inj c₁ c₂ i h₁ h₂
  · intro c' i _ hi
    rw [hcurenv] at hi
    rw [runs_status]
    split at hi
    · rw [if_pos (Option.some.inj hi).symm]
      exact Or.inl rfl
    · next hc' =>
      have hie : i ≠ e := by
        rintro rfl
        exact hnew c' hc' hi
      rw [if_neg hie, if_neg fun hcur => hc' (h.inj c' c i hi hcur.1)]
      exact h.status c' i (fun hcc => hc' (Option.some.inj hcc)) hi
  · intro i hi
    rw [runs_status] at hi
    simp only [hcurenv]
    split at hi
    · next hie => exact ⟨c, by rw [if_pos rfl, hie]⟩
    · next hie =>
      split at hi
      · rcases hi with hi | hi <;> cases hi
      · next hdem =>
        obtain ⟨c', hc'⟩ := h.busy i hi
        refine ⟨c', ?_⟩
        rw [if_neg, hc']
        rintro rfl
        rcases hi with hi | hi
        · exact hdem ⟨hc', hi⟩
        · exact (ho i hc').1 hi
  · intro c' _
    rw [runs_cpus, hcurenv]
    split
    · exact iff_of_true rfl (by rintro ⟨⟩)
    · next hc' => exact h.mode c' fun hcc => hc' (Option.some.inj hcc)
  · intro c' i hi
    rw [hcurenv] at hi
    rw [(runs_sameEnv i).pgdir, runs_cpus]
    split at hi
    · next hc' =>
      obtain ⟨d, hd⟩ := Option.ne_none_iff_exists'.mp hpg
      rw [if_pos hc', ← Option.some.inj hi, hd, Option.getD_some]
    · next hc' =>
      rw [if_neg hc']
      exact h.cr3 c' i hi

/-- CPU `c` halts. -/
theorem halts (h : CpusOk (some c) k) (ho : OwnOk c k)
    (hrun : ∀ e, k.curenv c = some e → (k.envs e).envStatus ≠ .running) :
    CpusOk none (k.halts c) := by
  have hcpu : ∀ c', (k.halts c).cpus c'
      = if c' = c then { mode := .idle, cpuEnv := none, cr3 := k.pmap.kernPgdir } else k.cpus c' :=
    fun c' => setCpu_cpus ..
  have hcurenv : ∀ c' i, (k.halts c).curenv c' = some i ↔ c' ≠ c ∧ k.curenv c' = some i := by
    intro c' i
    rw [Kernel.curenv, hcpu]
    split
    · next hc => simp [hc]
    · next hc => simp [hc, Kernel.curenv]
  refine ⟨?_, ?_, ?_, ?_, ?_⟩
  · intro c₁ c₂ i h₁ h₂
    exact h.inj c₁ c₂ i ((hcurenv c₁ i).mp h₁).2 ((hcurenv c₂ i).mp h₂).2
  · intro c' i _ hi
    obtain ⟨hcc, hi⟩ := (hcurenv c' i).mp hi
    exact h.status c' i (fun hc => hcc (Option.some.inj hc)) hi
  · intro i hi
    obtain ⟨c', hc'⟩ := h.busy i hi
    refine ⟨c', (hcurenv c' i).mpr ⟨?_, hc'⟩⟩
    rintro rfl
    rcases hi with hi | hi
    · exact hrun i hc' hi
    · exact (ho i hc').1 hi
  · intro c' _
    rw [Kernel.curenv, hcpu]
    split
    · exact iff_of_false (by rintro ⟨⟩) fun hc => hc rfl
    · next hcc => exact h.mode c' fun hc => hcc (Option.some.inj hc)
  · intro c' i hi
    obtain ⟨hcc, hi⟩ := (hcurenv c' i).mp hi
    rw [hcpu, if_neg hcc]
    exact h.cr3 c' i hi

end CpusOk

/-! ## The history -/

/-- What an event means for slot `e`. -/
def Event.op (e : Nat) : Event → Option LifeOp
  | .alloc e' => if e' = e then some .create else none
  | .free _ e' _ => if e' = e then some .delete else none
  | .destroy e' => if e' = e then some .retire else none
  | .run _ e' => if e' = e then some .use else none

/-- The history of slot `e`. -/
def history (e : Nat) (log : List Event) : List LifeOp := log.filterMap (Event.op e)

/-- The phase in which an environment with this status is. -/
def lifeOf : EnvStatus → Life
  | .free => .absent
  | .dying => .retired
  | .runnable => .live
  | .running => .live
  | .notRunnable => .live

/-- Every slot has gone through a legal life cycle to its present status, and nobody freed an environment
that another CPU had. -/
structure LogOk (k : Kernel) : Prop where
  life : ∀ e, lifeAfter (history e k.log) = some (lifeOf (k.envs e).envStatus)
  frees : ∀ c e cpuEnv, Event.free c e cpuEnv ∈ k.log → ∀ c', c' ≠ c → cpuEnv c' ≠ some e

theorem lifeOf_live (h₁ : st ≠ .free) (h₂ : st ≠ .dying) : lifeOf st = .live := by
  cases st with
  | free => exact absurd rfl h₁
  | dying => exact absurd rfl h₂
  | runnable | running | notRunnable => rfl

theorem history_cons_of_ne {ev : Event} {log : List Event} (h : ev.op e = none) :
    history e (ev :: log) = history e log := List.filterMap_cons_none h

theorem history_cons {ev : Event} {log : List Event} {op : LifeOp} (h : ev.op e = some op) :
    history e (ev :: log) = op :: history e log := List.filterMap_cons_some h

namespace LogOk

/-- Changes that leave every environment in its phase. -/
theorem congr (h : LogOk k) (hlog : k'.log = k.log)
    (hst : ∀ e, lifeOf (k'.envs e).envStatus = lifeOf (k.envs e).envStatus) : LogOk k' := by
  refine ⟨fun e => ?_, ?_⟩
  · rw [hlog, hst]
    exact h.life e
  · rw [hlog]
    exact h.frees

/-- An event that takes slot `e` from its phase to that of its new status. -/
theorem event (h : LogOk k) {ev : Event} {op : LifeOp} (hlog : k'.log = ev :: k.log)
    (hop : ∀ i, ev.op i = if e = i then some op else none)
    (hst : ∀ i, i ≠ e → lifeOf (k'.envs i).envStatus = lifeOf (k.envs i).envStatus)
    (hnext : (lifeOf (k.envs e).envStatus).next op = some (lifeOf (k'.envs e).envStatus))
    (hfree : ∀ c' i cpuEnv, ev = .free c' i cpuEnv → ∀ c'', c'' ≠ c' → cpuEnv c'' ≠ some i) :
    LogOk k' := by
  refine ⟨fun i => ?_, fun c' i cpuEnv hmem => ?_⟩
  · rw [hlog]
    by_cases hi : i = e
    · subst hi
      rw [history_cons ((hop i).trans (if_pos rfl)), lifeAfter.cons_eq (h.life i), hnext]
    · rw [history_cons_of_ne ((hop i).trans (if_neg fun hc => hi hc.symm)), hst i hi]
      exact h.life i
  · rw [hlog] at hmem
    rcases List.mem_cons.mp hmem with hev | hmem
    · exact hfree c' i cpuEnv hev.symm
    · exact h.frees c' i cpuEnv hmem

theorem withStatus (h : LogOk k) (hlog : k'.log = k.log)
    (hst : ∀ i, (k'.envs i).envStatus = if i = e then st else (k.envs i).envStatus)
    (hlife : lifeOf st = lifeOf (k.envs e).envStatus) : LogOk k' := by
  refine h.congr hlog fun i => ?_
  rw [hst]
  split
  · next hi => rw [hi, hlife]
  · rfl

theorem forks (h : LogOk k) (hst : (k.envs e).envStatus = .free) : LogOk (k.forks cur e p) := by
  refine h.event (e := e) rfl (fun i => rfl) (fun i hi => ?_) ?_
    fun _ _ _ hc => nomatch hc
  · unfold Kernel.forks
    rw [setEnv_envs, if_neg hi, newEnv_envs_of_ne hi]
  · unfold Kernel.forks
    rw [setEnv_envs, if_pos rfl, hst]
    rfl

/-- `env_destroy` begins. -/
theorem destroy (h : LogOk k) (h₁ : (k.envs e).envStatus ≠ .free)
    (h₂ : (k.envs e).envStatus ≠ .dying) (hlog : k'.log = .destroy e :: k.log)
    (hst : ∀ i, (k'.envs i).envStatus = if i = e then .dying else (k.envs i).envStatus) :
    LogOk k' := by
  refine h.event (e := e) hlog (fun i => rfl) (fun i hi => ?_) ?_
    fun _ _ _ hc => nomatch hc
  · rw [hst, if_neg hi]
  · rw [hst, if_pos rfl, lifeOf_live h₁ h₂]
    rfl

/-- `env_free` of an environment that is on its way out. -/
theorem freeEnv (h : LogOk k) (hst : (k.envs e).envStatus = .dying)
    (helse : ¬ RunsElsewhere k c e) : LogOk (k.freeEnv c e s) := by
  refine h.event (e := e) rfl (fun i => rfl) (fun i hi => ?_) ?_ ?_
  · rw [freeEnv_envs_of_ne hi]
  · rw [freeEnv_envs_self, hst]
    rfl
  · rintro c' i cpuEnv hev c'' hc'' hc
    obtain ⟨rfl, rfl, rfl⟩ := Event.free.inj hev
    exact helse ⟨c'', hc'', hc⟩

theorem runs (h : LogOk k) (hr : CanRun k c e) : LogOk (k.runs c e) := by
  refine h.event (e := e) rfl (fun i => rfl) (fun i hi => ?_) ?_
    fun _ _ _ hc => nomatch hc
  · rw [runs_status, if_neg hi]
    split
    · next hd => rw [hd.2]; rfl
    · rfl
  · rw [runs_status, if_pos rfl]
    rcases hr.2 with hst | ⟨-, hst⟩ <;> rw [hst] <;> rfl

end LogOk

end Jos
