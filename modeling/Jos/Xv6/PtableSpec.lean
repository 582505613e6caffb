import Jos.Xv6.PtableInv

/-!
# The steps of the process table keep its invariant

What `exit` does to the table, with the children of the process (`exited`), and that every step keeps the tree of
processes (`PtInv.step`) and what holds for those that sleep in `wait` (`WaitInv.step`).
-/

namespace Jos.Xv6

open PtState

variable {σ σ' τ : PtState} {p q r np : Fin NPROC} {c : ProcChan} {l : List (Fin NPROC)} {tr : List PtEvent} {k : Nat}

/-! ## What the functions find -/

theorem state_of_unused (h : σ.unused = some np) : (σ.proc np).state = .UNUSED := by
  unfold PtState.unused at h
  have hfind := List.find?_some h
  exact of_decide_eq_true hfind

theorem zombie_eq_some (h : σ.zombie p = some q) : (σ.proc q).parent = some p ∧ (σ.proc q).state = .ZOMBIE := by
  unfold PtState.zombie at h
  have hfind := List.find?_some h
  exact of_decide_eq_true hfind

theorem zombie_eq_none (h : σ.zombie p = none) (hq : (σ.proc q).parent = some p) : (σ.proc q).state ≠ .ZOMBIE :=
  fun hz => List.find?_eq_none.mp h q (List.mem_finRange q) (decide_eq_true ⟨hq, hz⟩)

theorem pid_of_withPid (h : σ.withPid k = some p) : (σ.proc p).pid = k := by
  unfold PtState.withPid at h
  have hfind := List.find?_some h
  exact of_decide_eq_true hfind

theorem alive_of_running (h : (σ.proc p).state = .RUNNING) : σ.Alive p := by
  unfold PtState.Alive
  rw [h]
  rfl

theorem not_alive_of (h : (σ.proc p).state = .UNUSED ∨ (σ.proc p).state = .EMBRYO ∨ (σ.proc p).state = .ZOMBIE) :
    ¬ σ.Alive p := by
  unfold PtState.Alive
  rcases h with h | h | h <;> rw [h] <;> rintro ⟨⟩

/-! ## `exit` -/

/-- The children of `p` in list `l` are passed to init. -/
structure Passed (p : Fin NPROC) (l : List (Fin NPROC)) (σ τ : PtState) : Prop where
  pid : ∀ q, (τ.proc q).pid = (σ.proc q).pid
  chan : ∀ q, (τ.proc q).chan = (σ.proc q).chan
  killed : ∀ q, (τ.proc q).killed = (σ.proc q).killed
  kind : ∀ q, (τ.proc q).state.kind = (σ.proc q).state.kind
  parent : ∀ q, (τ.proc q).parent
    = if q ∈ l ∧ (σ.proc q).parent = some p then some initproc else (σ.proc q).parent
  sleeping : ∀ q, (τ.proc q).state = .SLEEPING → (σ.proc q).state = .SLEEPING ∧
    ((σ.proc q).chan = some (.proc initproc) →
      ∀ r ∈ l, (σ.proc r).parent = some p → (σ.proc r).state ≠ .ZOMBIE)
  pc : τ.pc = σ.pc
  nextpid : τ.nextpid = σ.nextpid

theorem passed_nil (p : Fin NPROC) (σ : PtState) : Passed p [] σ σ := by
  refine ⟨fun _ => rfl, fun _ => rfl, fun _ => rfl, fun _ => rfl, fun q => ?_, fun q hq => ⟨hq, fun _ r hr => ?_⟩,
    rfl, rfl⟩
  · rw [if_neg fun hc => List.not_mem_nil hc.1]
  · cases hr

theorem passed_passChild (p a : Fin NPROC) (σ : PtState) : Passed p [a] σ (passChild p σ a) := by
  unfold passChild
  split
  · next ha =>
    have hset : ∀ q, ((σ.set a { σ.proc a with parent := some initproc }).proc q).parent
        = if q ∈ [a] ∧ (σ.proc q).parent = some p then some initproc else (σ.proc q).parent := by
      intro q
      rw [set_proc]
      by_cases hq : q = a
      · rw [if_pos hq, if_pos ⟨List.mem_singleton.mpr hq, hq ▸ ha⟩]
      · rw [if_neg hq, if_neg fun hc => hq (List.mem_singleton.mp hc.1)]
    have hsame : ∀ {α : Type} (f : ProcEntry → α), (∀ e x, f { e with parent := x } = f e) → ∀ q,
        f ((σ.set a { σ.proc a with parent := some initproc }).proc q) = f (σ.proc q) :=
      fun f hf q => set_field f (hf ..) q
    simp only
    split
    · refine ⟨fun q => ?_, fun q => ?_, fun q => ?_, fun q => ?_, fun q => ?_, fun q hq => ?_, rfl, rfl⟩
      · rw [wakeup1_field (·.pid) (fun _ _ => rfl), hsame (·.pid) (fun _ _ => rfl)]
      · rw [wakeup1_field (·.chan) (fun _ _ => rfl), hsame (·.chan) (fun _ _ => rfl)]
      · rw [wakeup1_field (·.killed) (fun _ _ => rfl), hsame (·.killed) (fun _ _ => rfl)]
      · rw [wakeup1_kind, hsame (·.state.kind) (fun _ _ => rfl)]
      · rw [wakeup1_field (·.parent) (fun _ _ => rfl), hset]
      · obtain ⟨hs, hne⟩ := wakeup1_sleeping hq
        rw [hsame (·.state) (fun _ _ => rfl)] at hs
        rw [hsame (·.chan) (fun _ _ => rfl)] at hne
        exact ⟨hs, fun hc => absurd hc hne⟩
    · next hz =>
      refine ⟨hsame (·.pid) (fun _ _ => rfl), hsame (·.chan) (fun _ _ => rfl), hsame (·.killed) (fun _ _ => rfl),
        hsame (·.state.kind) (fun _ _ => rfl), hset, fun q hq => ?_, rfl, rfl⟩
      rw [hsame (·.state) (fun _ _ => rfl)] at hq
      refine ⟨hq, fun _ r hr _ => ?_⟩
      rw [List.mem_singleton.mp hr]
      exact hz
  · next ha =>
    refine ⟨fun _ => rfl, fun _ => rfl, fun _ => rfl, fun _ => rfl, fun q => ?_,
      fun q hq => ⟨hq, fun _ r hr hp => ?_⟩, rfl, rfl⟩
    · rw [if_neg]
      rintro ⟨hq, hp⟩
      rw [List.mem_singleton.mp hq] at hp
      exact ha hp
    · rw [List.mem_singleton.mp hr] at hp
      exact absurd hp ha

/-- The loop of `exit`. -/
theorem passed_foldl (hp : p ≠ initproc) (l : List (Fin NPROC)) (σ : PtState) :
    Passed p l σ (l.foldl (passChild p) σ) := by
  induction l generalizing σ with
  | nil => exact passed_nil p σ
  | cons a l ih =>
    have h₁ := passed_passChild p a σ
    have h₂ := ih (passChild p σ a)
    have hinit : (some initproc : Option (Fin NPROC)) ≠ some p := fun hc => hp (Option.some.inj hc).symm
    rw [List.foldl_cons]
    refine ⟨fun q => (h₂.pid q).trans (h₁.pid q), fun q => (h₂.chan q).trans (h₁.chan q),
      fun q => (h₂.killed q).trans (h₁.killed q), fun q => (h₂.kind q).trans (h₁.kind q), fun q => ?_, fun q hq => ?_,
      h₂.pc.trans h₁.pc, h₂.nextpid.trans h₁.nextpid⟩
    · rw [h₂.parent, h₁.parent]
      by_cases hq : (σ.proc q).parent = some p
      · by_cases ha : q = a
        · subst ha
          simp only [hq, List.mem_cons, true_or, List.not_mem_nil, or_false, true_and, if_true, ite_self]
        · simp only [ha, List.mem_cons, false_or, List.not_mem_nil, or_false, false_and, if_false]
      · simp only [hq, and_false, if_false]
    · obtain ⟨hs, hnone⟩ := h₂.sleeping q hq
      obtain ⟨hs', hnone'⟩ := h₁.sleeping q hs
      rw [h₁.chan] at hnone
      refine ⟨hs', fun hc r hr hrp hz => ?_⟩
      by_cases ha : r ∈ [a]
      · exact hnone' hc r ha hrp hz
      · have hrl : r ∈ l := (List.mem_cons.mp hr).resolve_left fun he => ha (List.mem_singleton.mpr he)
        refine hnone hc r hrl ?_ ?_
        · rw [h₁.parent, if_neg fun hc => ha hc.1]
          exact hrp
        · rw [← kind_zombie, h₁.kind, kind_zombie]
          exact hz

/-- What `exit` does. -/
structure Exited (p : Fin NPROC) (σ τ : PtState) : Prop where
  pid : ∀ q, (τ.proc q).pid = (σ.proc q).pid
  parent : ∀ q, (τ.proc q).parent = if (σ.proc q).parent = some p then some initproc else (σ.proc q).parent
  zombie : (τ.proc p).state = .ZOMBIE
  kind : ∀ q, q ≠ p → (τ.proc q).state.kind = (σ.proc q).state.kind
  killed : ∀ q, (τ.proc q).killed = (σ.proc q).killed
  sleeping : ∀ q c, (τ.proc q).state = .SLEEPING → (τ.proc q).chan = some c →
    (σ.proc q).state = .SLEEPING ∧ (σ.proc q).chan = some c ∧
      (∀ r, (σ.proc p).parent = some r → c ≠ .proc r) ∧
      (c = .proc initproc → ∀ r, (σ.proc r).parent = some p → (σ.proc r).state ≠ .ZOMBIE)
  pc : τ.pc = σ.pc
  nextpid : τ.nextpid = σ.nextpid

theorem exited (hp : p ≠ initproc) (σ : PtState) : Exited p σ (σ.exit p) := by
  -- the parent is woken
  obtain ⟨σ₁, hσ₁, hsame, hpc, hchan, hkilled, hsleep⟩ : ∃ σ₁, σ.exit p
      = ((List.finRange NPROC).foldl (passChild p) σ₁).setState p .ZOMBIE ∧ SameTree σ σ₁ ∧ σ₁.pc = σ.pc ∧
      (∀ q, (σ₁.proc q).chan = (σ.proc q).chan) ∧ (∀ q, (σ₁.proc q).killed = (σ.proc q).killed) ∧
      ∀ q, (σ₁.proc q).state = .SLEEPING → (σ.proc q).state = .SLEEPING ∧
        ∀ r, (σ.proc p).parent = some r → (σ.proc q).chan ≠ some (.proc r) := by
    unfold PtState.exit
    cases hpar : (σ.proc p).parent with
    | none =>
      exact ⟨σ, rfl, ⟨fun _ => rfl, fun _ => rfl, fun _ => rfl, rfl, fun _ _ => Iff.rfl, fun _ _ => Iff.rfl⟩, rfl,
        fun _ => rfl, fun _ => rfl, fun q hq => ⟨hq, fun r hr => by cases hr⟩⟩
    | some x =>
      refine ⟨σ.wakeup1 (.proc x), rfl, .wakeup1 σ _, rfl, wakeup1_field (·.chan) (fun _ _ => rfl) σ _,
        wakeup1_field (·.killed) (fun _ _ => rfl) σ _, fun q hq => ?_⟩
      obtain ⟨hs, hne⟩ := wakeup1_sleeping hq
      refine ⟨hs, fun r hr => ?_⟩
      obtain rfl := Option.some.inj hr
      exact hne
  have hpass := passed_foldl hp (List.finRange NPROC) σ₁
  rw [hσ₁]
  generalize (List.finRange NPROC).foldl (passChild p) σ₁ = τ at hpass ⊢
  have hpid : ∀ q, ((τ.setState p .ZOMBIE).proc q).pid = (τ.proc q).pid := set_field (·.pid) rfl
  have hparent : ∀ q, ((τ.setState p .ZOMBIE).proc q).parent = (τ.proc q).parent := set_field (·.parent) rfl
  have hset : ∀ q, q ≠ p → (τ.setState p .ZOMBIE).proc q = τ.proc q := by
    intro q hq
    rw [setState, set_proc, if_neg hq]
  have hkilled' : ∀ q, ((τ.setState p .ZOMBIE).proc q).killed = (τ.proc q).killed := set_field (·.killed) rfl
  refine ⟨fun q => ?_, fun q => ?_, ?_, fun q hq => ?_, fun q => ?_, fun q c hq hc => ?_, hpass.pc.trans hpc,
    hpass.nextpid.trans hsame.nextpid⟩
  · rw [hpid, hpass.pid, hsame.pid]
  · rw [hparent, hpass.parent, hsame.parent]
    simp only [List.mem_finRange, true_and]
  · rw [setState, set_proc, if_pos rfl]
  · rw [hset q hq, hpass.kind, hsame.kind]
  · rw [hkilled', hpass.killed, hkilled]
  · have hqp : q ≠ p := by
      rintro rfl
      rw [setState, set_proc, if_pos rfl] at hq
      cases hq
    rw [hset q hqp] at hq hc
    rw [hpass.chan, hchan] at hc
    obtain ⟨hs₁, hnone⟩ := hpass.sleeping q hq
    obtain ⟨hs, hne⟩ := hsleep q hs₁
    refine ⟨hs, hc, fun r hr => ?_, ?_⟩
    · rintro rfl
      exact hne r hr hc
    · rintro rfl r hr hz
      rw [hchan] at hnone
      refine hnone hc r (List.mem_finRange r) ?_ ?_
      · rw [hsame.parent]
        exact hr
      · rw [hsame.zombie]
        exact hz

/-! ## Steps that change the tree -/

/-- The steps of `fork`, `exit` and a `wait` that finds a child. -/
inductive TreeStep : PtState → List PtEvent → PtState → Prop
  | allocproc {σ : PtState} {p np : Fin NPROC} : (σ.proc p).state = .RUNNING → σ.pc p = .user →
      (σ.proc np).state = .UNUSED → TreeStep σ [] ((σ.allocproc np).goto p (.fork np))
  | forkFails {σ : PtState} {p np : Fin NPROC} : σ.pc p = .fork np →
      TreeStep σ [.forkFails (σ.proc np).pid] ((σ.setState np .UNUSED).goto p .user)
  | forkCopy {σ : PtState} {p np : Fin NPROC} : σ.pc p = .fork np →
      TreeStep σ [] ((σ.set np { σ.proc np with parent := some p }).goto p (.forked np))
  | fork {σ : PtState} {p np : Fin NPROC} : σ.pc p = .forked np →
      TreeStep σ [.fork (σ.proc np).pid] (((σ.setState np .RUNNABLE).goto np .user).goto p .user)
  | exit {σ : PtState} {p : Fin NPROC} : (σ.proc p).state = .RUNNING → σ.pc p = .exit →
      TreeStep σ [.exit (σ.proc p).pid] (σ.exit p)
  | wait {σ : PtState} {p q : Fin NPROC} : σ.pc p = .wait → (σ.proc q).state = .ZOMBIE →
      TreeStep σ [.wait (σ.proc q).pid] ((σ.reap q).goto p .user)

theorem not_forks {pc : ProcPc} (hp : σ.pc p = pc) (hpc : pc = .user ∨ pc = .exit ∨ pc = .wait) (np : Fin NPROC) :
    ¬ σ.Forks p np := by
  rintro (hf | hf) <;> rw [hp] at hf <;> subst hf <;> rcases hpc with hc | hc | hc <;> cases hc

/-- The other steps leave the tree alone, and `kill` only of them kills. -/
theorem PtStep.tree (hs : PtStep σ tr σ') :
    (SameTree σ σ' ∧ (∀ e ∈ tr, ∃ k, e = .kill k) ∧
      ∀ p, (σ'.proc p).killed = true → (σ.proc p).killed = true ∨ .kill (σ.proc p).pid ∈ tr) ∨
    TreeStep σ tr σ' := by
  have hquiet : SameTree σ σ' → (∀ p, (σ'.proc p).killed = (σ.proc p).killed) → SameTree σ σ' ∧
      (∀ e ∈ ([] : List PtEvent), ∃ k, e = .kill k) ∧
      ∀ p, (σ'.proc p).killed = true → (σ.proc p).killed = true ∨ .kill (σ.proc p).pid ∈ ([] : List PtEvent) :=
    fun h hkilled => ⟨h, fun e he => absurd he List.not_mem_nil, fun p hp => Or.inl ((hkilled p).symm.trans hp)⟩
  have hkill : ∀ {p : Fin NPROC} {e : ProcEntry}, e.pid = (σ.proc p).pid → e.parent = (σ.proc p).parent →
      e.state.kind = (σ.proc p).state.kind → SameTree σ (σ.set p e) ∧
      (∀ e ∈ [PtEvent.kill (σ.proc p).pid], ∃ k, e = .kill k) ∧
      ∀ q, ((σ.set p e).proc q).killed = true →
        (σ.proc q).killed = true ∨ .kill (σ.proc q).pid ∈ [PtEvent.kill (σ.proc p).pid] := by
    intro p e hpid hparent hkind
    refine ⟨.set hpid hparent hkind, fun e he => ⟨_, List.mem_singleton.mp he⟩, fun q hq => ?_⟩
    by_cases hqp : q = p
    · rw [hqp]
      exact Or.inr (List.mem_singleton.mpr rfl)
    · rw [set_proc, if_neg hqp] at hq
      exact Or.inl hq
  cases hs with
  | scheduler hp => exact Or.inl (hquiet (.set rfl rfl (by rw [hp]; rfl)) (set_field (·.killed) rfl))
  | yield hp => exact Or.inl (hquiet (.set rfl rfl (by rw [hp]; rfl)) (set_field (·.killed) rfl))
  | sleep _ hp => exact Or.inl (hquiet (.set rfl rfl (by rw [hp]; rfl)) (set_field (·.killed) rfl))
  | wakeup c => exact Or.inl (hquiet (.wakeup1 σ _) (wakeup1_field (·.killed) (fun _ _ => rfl) σ _))
  | allocproc hp hnp => exact Or.inr (.allocproc hp.1 hp.2 (state_of_unused hnp))
  | forkFails _ hpc => exact Or.inr (.forkFails hpc)
  | forkCopy _ hpc => exact Or.inr (.forkCopy hpc)
  | fork _ hpc => exact Or.inr (.fork hpc)
  | exitCall hp =>
    exact Or.inl (hquiet (.goto (not_forks hp.2 (Or.inl rfl)) (Or.inr (Or.inl rfl))) fun _ => rfl)
  | exit hp hpc => exact Or.inr (.exit hp hpc)
  | waitCall hp =>
    exact Or.inl (hquiet (.goto (not_forks hp.2 (Or.inl rfl)) (Or.inr (Or.inr rfl))) fun _ => rfl)
  | wait _ hpc hq => exact Or.inr (.wait hpc (zombie_eq_some hq).2)
  | waitFails _ hpc =>
    exact Or.inl (hquiet (.goto (not_forks hpc (Or.inr (Or.inr rfl))) (Or.inl rfl)) fun _ => rfl)
  | waitSleep hp => exact Or.inl (hquiet (.set rfl rfl (by rw [hp]; rfl)) (set_field (·.killed) rfl))
  | @kill _ p hfound =>
    obtain rfl := pid_of_withPid hfound
    refine Or.inl (hkill rfl rfl ?_)
    show ProcState.kind (if _ then _ else _) = _
    split
    · next hs => rw [hs]; rfl
    · rfl
  | trap => exact Or.inl (hkill rfl rfl rfl)

/-! ## The tree -/

namespace PtInv

/-- An entry changes that is not one of a process that is there, and `p` with it if the entry is for its child. -/
theorem entry (h : PtInv σ) {x : Fin NPROC} {e : ProcEntry} {pc : Fin NPROC → ProcPc} {n : Nat} (p : Fin NPROC)
    (hx : ¬ σ.Alive x) (hn : σ.nextpid ≤ n) (hlt : e.pid < n)
    (hinj : ∀ q, q ≠ x → (σ.proc q).pid = e.pid → e.pid = 0) (hpos : e.state ≠ .UNUSED → 0 < e.pid)
    (hparent : ∀ q, e.parent = some q → σ.Alive q ∧ (σ.proc q).pid < e.pid)
    (hunused : e.state = .UNUSED → e.parent = none)
    (horphan : e.parent = none → e.state = .UNUSED ∨ e.state = .EMBRYO)
    (hfork : ∀ q m, pc q = .fork m → (m ≠ x ∧ σ.pc q = .fork m) ∨ (m = x ∧ q = p ∧ e.parent = none))
    (hforked : ∀ q m, pc q = .forked m → (m ≠ x ∧ σ.pc q = .forked m) ∨ (m = x ∧ q = p ∧ e.parent = some p))
    (hnew : pc p = .fork x ∨ pc p = .forked x → σ.Alive p ∧ e.state = .EMBRYO ∧ (σ.proc p).pid < e.pid) :
    PtInv ⟨Function.update σ.proc x e, pc, n⟩ := by
  have hself : Function.update σ.proc x e x = e := Function.update_self ..
  have hother : ∀ q, q ≠ x → Function.update σ.proc x e q = σ.proc q := fun q hq => Function.update_of_ne hq ..
  have hne : ∀ q, σ.Alive q → q ≠ x := by
    rintro q hq rfl
    exact hx hq
  have halive : ∀ q, σ.Alive q → PtState.Alive ⟨Function.update σ.proc x e, pc, n⟩ q := fun q hq => by
    unfold PtState.Alive
    rw [show PtState.proc _ q = σ.proc q from hother q (hne q hq)]
    exact hq
  have hforks : ∀ q m, PtState.Forks ⟨Function.update σ.proc x e, pc, n⟩ q m →
      (m ≠ x ∧ σ.Forks q m) ∨ (m = x ∧ q = p) := by
    rintro q m (hm | hm)
    · exact (hfork q m hm).imp (fun hc => ⟨hc.1, Or.inl hc.2⟩) fun hc => ⟨hc.1, hc.2.1⟩
    · exact (hforked q m hm).imp (fun hc => ⟨hc.1, Or.inr hc.2⟩) fun hc => ⟨hc.1, hc.2.1⟩
  refine ⟨halive _ h.init, fun q r hr => ?_, fun q hq hr => ?_, fun q hq => ?_, ?_, fun q hq => ?_, fun q => ?_,
    fun q r hqr hpos => ?_, fun q m hm => ?_, fun q m hm => ?_, fun q m hm => ?_, fun q r m hq hr => ?_⟩
  · have hr' : (Function.update σ.proc x e q).parent = some r := hr
    show _ ∧ (Function.update σ.proc x e r).pid < (Function.update σ.proc x e q).pid
    by_cases hq : q = x
    · rw [hq, hself] at hr' ⊢
      obtain ⟨hr, hlt⟩ := hparent r hr'
      rw [hother r (hne r hr)]
      exact ⟨halive r hr, hlt⟩
    · rw [hother q hq] at hr' ⊢
      obtain ⟨hr, hlt⟩ := h.parent q r hr'
      rw [hother r (hne r hr)]
      exact ⟨halive r hr, hlt⟩
  · have hr' : (Function.update σ.proc x e q).parent = none := hr
    show (Function.update σ.proc x e q).state = _ ∨ (Function.update σ.proc x e q).state = _
    by_cases hqx : q = x
    · rw [hqx, hself] at hr' ⊢
      exact horphan hr'
    · rw [hother q hqx] at hr' ⊢
      exact h.orphan q hq hr'
  · have hq' : (Function.update σ.proc x e q).state = .UNUSED := hq
    show (Function.update σ.proc x e q).parent = none
    by_cases hqx : q = x
    · rw [hqx, hself] at hq' ⊢
      exact hunused hq'
    · rw [hother q hqx] at hq' ⊢
      exact h.unused q hq'
  · show (Function.update σ.proc x e initproc).pid = 1 ∧ (Function.update σ.proc x e initproc).parent = none
    rw [hother _ (hne _ h.init)]
    exact h.pid_init
  · have hq' : (Function.update σ.proc x e q).state ≠ .UNUSED := hq
    show 0 < (Function.update σ.proc x e q).pid
    by_cases hqx : q = x
    · rw [hqx, hself] at hq' ⊢
      exact hpos hq'
    · rw [hother q hqx] at hq' ⊢
      exact h.pid_pos q hq'
  · show (Function.update σ.proc x e q).pid < n
    by_cases hqx : q = x
    · rw [hqx, hself]
      exact hlt
    · rw [hother q hqx]
      exact (h.pid_lt q).trans_le hn
  · have hqr' : (Function.update σ.proc x e q).pid = (Function.update σ.proc x e r).pid := hqr
    have hpos' : 0 < (Function.update σ.proc x e q).pid := hpos
    by_cases hqx : q = x <;> by_cases hrx : r = x
    · rw [hqx, hrx]
    · rw [hqx, hself] at hqr' hpos'
      rw [hother r hrx] at hqr'
      exact absurd (hinj r hrx hqr'.symm) (Nat.ne_of_gt hpos')
    · rw [hrx, hself, hother q hqx] at hqr'
      rw [hother q hqx, hqr'] at hpos'
      exact absurd (hinj q hqx hqr') (Nat.ne_of_gt hpos')
    · rw [hother q hqx] at hqr' hpos'
      rw [hother r hrx] at hqr'
      exact h.pid_inj q r hqr' hpos'
  · show _ ∧ (Function.update σ.proc x e m).state = _ ∧
      (Function.update σ.proc x e q).pid < (Function.update σ.proc x e m).pid
    rcases hforks q m hm with ⟨hmx, hm'⟩ | ⟨rfl, rfl⟩
    · obtain ⟨hq, hembryo, hlt⟩ := h.forks q m hm'
      rw [hother m hmx, hother q (hne q hq)]
      exact ⟨halive q hq, hembryo, hlt⟩
    · obtain ⟨hq, hembryo, hlt⟩ := hnew hm
      rw [hself, hother q (hne q hq)]
      exact ⟨halive q hq, hembryo, hlt⟩
  · show (Function.update σ.proc x e m).parent = none
    rcases hfork q m hm with ⟨hmx, hm'⟩ | ⟨rfl, -, hnone⟩
    · rw [hother m hmx]
      exact h.embryo q m hm'
    · rw [hself]
      exact hnone
  · show (Function.update σ.proc x e m).parent = some q
    rcases hforked q m hm with ⟨hmx, hm'⟩ | ⟨rfl, rfl, hsome⟩
    · rw [hother m hmx]
      exact h.forked q m hm'
    · rw [hself]
      exact hsome
  · rcases hforks q m hq with ⟨hmx, hq'⟩ | ⟨hmx, hqp⟩ <;> rcases hforks r m hr with ⟨hmx', hr'⟩ | ⟨hmx', hrp⟩
    · exact h.forks_one q r m hq' hr'
    · exact absurd hmx' hmx
    · exact absurd hmx hmx'
    · rw [hqp, hrp]

/-- A process in `fork` is not the new one. -/
theorem ne_of_forks (h : PtInv σ) (hf : σ.Forks p np) (hp : (σ.proc p).state = .RUNNING) : p ≠ np := by
  rintro rfl
  rw [(h.forks p p hf).2.1] at hp
  cases hp

theorem step_allocproc (h : PtInv σ) (hp : (σ.proc p).state = .RUNNING) (hnp : (σ.proc np).state = .UNUSED) :
    PtInv ((σ.allocproc np).goto p (.fork np)) := by
  have hpc : ∀ q, Function.update (σ.allocproc np).pc p (.fork np) q = if q = p then .fork np else σ.pc q :=
    fun q => Function.update_apply ..
  have hnot : ∀ q, ¬ σ.Forks q np := fun q hq => by
    rw [(h.forks q np hq).2.1] at hnp
    cases hnp
  have hpos := h.pid_lt np
  refine h.entry p (not_alive_of (Or.inl hnp)) (Nat.le_succ _) (Nat.lt_succ_self _)
    (fun q _ hq => absurd hq (Nat.ne_of_lt (h.pid_lt q))) (fun _ => Nat.zero_lt_of_lt hpos) (fun q hq => ?_)
    (fun hc => (by cases hc)) (fun _ => Or.inr rfl) (fun q m hm => ?_) (fun q m hm => ?_)
    fun _ => ⟨alive_of_running hp, rfl, h.pid_lt p⟩
  · have hq' : (σ.proc np).parent = some q := hq
    rw [h.unused np hnp] at hq'
    cases hq'
  · rw [hpc] at hm
    split at hm
    · next hq => exact Or.inr ⟨(ProcPc.fork.inj hm).symm, hq, h.unused np hnp⟩
    · refine Or.inl ⟨?_, hm⟩
      rintro rfl
      exact hnot q (Or.inl hm)
  · rw [hpc] at hm
    split at hm
    · cases hm
    · refine Or.inl ⟨?_, hm⟩
      rintro rfl
      exact hnot q (Or.inr hm)

/-- No other process is in `fork` with the same new one. -/
theorem ne_of_other (h : PtInv σ) (hf : σ.Forks p np) {m : Fin NPROC} (hq : q ≠ p) (hm : σ.Forks q m) : m ≠ np := by
  rintro rfl
  exact hq (h.forks_one q p m hm hf)

theorem pid_ne (h : PtInv σ) (hf : σ.Forks p np) (hq : q ≠ np) (hpid : (σ.proc q).pid = (σ.proc np).pid) :
    (σ.proc np).pid = 0 := by
  have hpos := Nat.zero_lt_of_lt (h.forks p np hf).2.2
  exact absurd (h.pid_inj q np hpid (hpid ▸ hpos)) hq

/-- `fork` gives the entry back. -/
theorem step_forkFails (h : PtInv σ) (hpc : σ.pc p = .fork np) : PtInv ((σ.setState np .UNUSED).goto p .user) := by
  have hf : σ.Forks p np := Or.inl hpc
  have hupdate : ∀ q, Function.update (σ.setState np .UNUSED).pc p .user q = if q = p then .user else σ.pc q :=
    fun q => Function.update_apply ..
  refine h.entry p (not_alive_of (Or.inr (Or.inl (h.forks p np hf).2.1))) le_rfl (h.pid_lt np)
    (fun q hq hpid => h.pid_ne hf hq hpid) (fun hc => absurd rfl hc) (fun q hq => ?_) (fun _ => h.embryo p np hpc)
    (fun _ => Or.inl rfl) (fun q m hm => ?_) (fun q m hm => ?_) fun hc => ?_
  · have hq' : (σ.proc np).parent = some q := hq
    rw [h.embryo p np hpc] at hq'
    cases hq'
  · rw [hupdate] at hm
    split at hm
    · cases hm
    · next hq => exact Or.inl ⟨h.ne_of_other hf hq (Or.inl hm), hm⟩
  · rw [hupdate] at hm
    split at hm
    · cases hm
    · next hq => exact Or.inl ⟨h.ne_of_other hf hq (Or.inr hm), hm⟩
  · rw [hupdate, if_pos rfl] at hc
    rcases hc with hc | hc <;> cases hc

/-- The new process gets its parent. -/
theorem step_forkCopy (h : PtInv σ) (hpc : σ.pc p = .fork np) :
    PtInv ((σ.set np { σ.proc np with parent := some p }).goto p (.forked np)) := by
  have hf : σ.Forks p np := Or.inl hpc
  obtain ⟨halive, hembryo, hlt⟩ := h.forks p np hf
  have hupdate : ∀ q, Function.update (σ.set np { σ.proc np with parent := some p }).pc p (.forked np) q
      = if q = p then .forked np else σ.pc q := fun q => Function.update_apply ..
  refine h.entry p (not_alive_of (Or.inr (Or.inl hembryo))) le_rfl (h.pid_lt np)
    (fun q hq hpid => h.pid_ne hf hq hpid) (fun _ => Nat.zero_lt_of_lt hlt) (fun q hq => ?_) (fun hc => ?_)
    (fun hc => by cases hc) (fun q m hm => ?_) (fun q m hm => ?_) fun _ => ⟨halive, hembryo, hlt⟩
  · obtain rfl := Option.some.inj hq
    exact ⟨halive, hlt⟩
  · rw [show ProcEntry.state _ = (σ.proc np).state from rfl, hembryo] at hc
    cases hc
  · rw [hupdate] at hm
    split at hm
    · cases hm
    · next hq => exact Or.inl ⟨h.ne_of_other hf hq (Or.inl hm), hm⟩
  · rw [hupdate] at hm
    split at hm
    · next hq =>
      exact Or.inr ⟨(ProcPc.forked.inj hm).symm, hq, rfl⟩
    · next hq => exact Or.inl ⟨h.ne_of_other hf hq (Or.inr hm), hm⟩

/-- The new process joins the tree. -/
theorem step_fork (h : PtInv σ) (hpc : σ.pc p = .forked np) :
    PtInv (((σ.setState np .RUNNABLE).goto np .user).goto p .user) := by
  have hf : σ.Forks p np := Or.inr hpc
  obtain ⟨halive, hembryo, hlt⟩ := h.forks p np hf
  have hupdate : ∀ q pc, pc ≠ ProcPc.user → Function.update (Function.update σ.pc np .user) p .user q = pc →
      q ≠ p ∧ σ.pc q = pc := by
    intro q pc hne hq
    rw [Function.update_apply, Function.update_apply] at hq
    split at hq
    · exact absurd hq.symm hne
    · split at hq
      · exact absurd hq.symm hne
      · exact ⟨by assumption, hq⟩
  refine h.entry p (not_alive_of (Or.inr (Or.inl hembryo))) le_rfl (h.pid_lt np)
    (fun q hq hpid => h.pid_ne hf hq hpid) (fun _ => Nat.zero_lt_of_lt hlt) (fun q hq => ?_) (fun hc => (by cases hc))
    (fun hc => ?_) (fun q m hm => ?_) (fun q m hm => ?_) fun hc => ?_
  · have hq' : (σ.proc np).parent = some q := hq
    rw [h.forked p np hpc] at hq'
    obtain rfl := Option.some.inj hq'
    exact ⟨halive, hlt⟩
  · have hc' : (σ.proc np).parent = none := hc
    rw [h.forked p np hpc] at hc'
    cases hc'
  · obtain ⟨hq, hm⟩ := hupdate q _ (by rintro ⟨⟩) hm
    exact Or.inl ⟨h.ne_of_other hf hq (Or.inl hm), hm⟩
  · obtain ⟨hq, hm⟩ := hupdate q _ (by rintro ⟨⟩) hm
    exact Or.inl ⟨h.ne_of_other hf hq (Or.inr hm), hm⟩
  · rcases hc with hc | hc <;> exact absurd rfl (hupdate p _ (by rintro ⟨⟩) hc).1

/-- `wait` takes a process out of the tree. -/
theorem step_wait (h : PtInv σ) (hq : (σ.proc q).state = .ZOMBIE) : PtInv ((σ.reap q).goto p .user) := by
  have hupdate : ∀ r pc, pc ≠ ProcPc.user → Function.update (σ.reap q).pc p .user r = pc → r ≠ p ∧ σ.pc r = pc := by
    intro r pc hne hr
    rw [Function.update_apply] at hr
    split at hr
    · exact absurd hr.symm hne
    · exact ⟨by assumption, hr⟩
  have hnot : ∀ r m, σ.Forks r m → m ≠ q := by
    rintro r m hm rfl
    rw [(h.forks r m hm).2.1] at hq
    cases hq
  have hpos := h.pid_lt q
  refine h.entry p (not_alive_of (Or.inr (Or.inr hq))) le_rfl (Nat.zero_lt_of_lt hpos) (fun _ _ _ => rfl)
    (fun hc => absurd rfl hc) (fun r hr => (by cases hr)) (fun _ => rfl) (fun _ => Or.inl rfl) (fun r m hm => ?_)
    (fun r m hm => ?_) fun hc => ?_
  · have hm' := (hupdate r _ (by rintro ⟨⟩) hm).2
    exact Or.inl ⟨hnot r m (Or.inl hm'), hm'⟩
  · have hm' := (hupdate r _ (by rintro ⟨⟩) hm).2
    exact Or.inl ⟨hnot r m (Or.inr hm'), hm'⟩
  · rcases hc with hc | hc <;> exact absurd rfl (hupdate p _ (by rintro ⟨⟩) hc).1

/-- `exit` leaves no children behind. -/
theorem step_exit (h : PtInv σ) (hp : (σ.proc p).state = .RUNNING) (hpc : σ.pc p = .exit) (hinit : p ≠ initproc)
    (he : Exited p σ τ) : PtInv τ := by
  have halive : ∀ q, q ≠ p → (τ.Alive q ↔ σ.Alive q) := fun q hq => by
    unfold PtState.Alive
    rw [he.kind q hq]
  have hforks : ∀ q m, τ.Forks q m ↔ σ.Forks q m := fun q m => by
    unfold PtState.Forks
    rw [he.pc]
  have hne : ∀ q m, σ.Forks q m → q ≠ p := by
    rintro q m hm rfl
    rcases hm with hm | hm <;> rw [hpc] at hm <;> cases hm
  have hparent : ∀ m q, q ≠ p → ((τ.proc m).parent = some q ↔
      (σ.proc m).parent = some q ∨ ((σ.proc m).parent = some p ∧ q = initproc)) := by
    intro m q hq
    rw [he.parent]
    split
    · next hm =>
      rw [hm]
      constructor
      · intro hc
        exact Or.inr ⟨rfl, (Option.some.inj hc).symm⟩
      · rintro (hc | ⟨-, rfl⟩)
        · exact absurd (Option.some.inj hc).symm hq
        · rfl
    · next hm => exact ⟨Or.inl, fun hc => hc.elim id fun hc => absurd hc.1 hm⟩
  have hnone : ∀ m, (τ.proc m).parent = none ↔ (σ.proc m).parent = none := by
    intro m
    rw [he.parent]
    split
    · next hm =>
      rw [hm]
      exact iff_of_false (by rintro ⟨⟩) (by rintro ⟨⟩)
    · exact Iff.rfl
  have hpne : ∀ m, (τ.proc m).parent ≠ some p := by
    intro m
    rw [he.parent]
    split
    · exact fun hc => hinit (Option.some.inj hc).symm
    · assumption
  -- the other entries are in use, and free, as before
  have hkind : ∀ m s, s.kind = s → s ≠ .ZOMBIE → s ≠ .RUNNING → ((τ.proc m).state = s ↔ (σ.proc m).state = s) := by
    intro m s hs hz hr
    by_cases hm : m = p
    · rw [hm, he.zombie, hp]
      exact iff_of_false (fun hc => hz hc.symm) fun hc => hr hc.symm
    · have hk := he.kind m hm
      constructor
      · intro hc
        rw [hc, hs] at hk
        cases hstate : (σ.proc m).state <;> rw [hstate] at hk <;> first | exact hk.symm | exact absurd hk hr
      · intro hc
        rw [hc, hs] at hk
        cases hstate : (τ.proc m).state <;> rw [hstate] at hk <;> first | exact hk | exact absurd hk.symm hr
  have hunused := fun m => hkind m .UNUSED rfl (by rintro ⟨⟩) (by rintro ⟨⟩)
  have hembryo := fun m => hkind m .EMBRYO rfl (by rintro ⟨⟩) (by rintro ⟨⟩)
  refine ⟨(halive _ hinit.symm).mpr h.init, fun m q hm => ?_, fun m hm hpar => ?_, fun m hm => ?_, ?_, fun m hm => ?_,
    fun m => ?_, fun m q => ?_, fun q m hm => ?_, fun q m hm => ?_, fun q m hm => ?_, fun q r m hq hr => ?_⟩
  · have hq : q ≠ p := by
      rintro rfl
      exact hpne m hm
    rw [halive q hq, he.pid, he.pid]
    rcases (hparent m q hq).mp hm with hold | ⟨hold, rfl⟩
    · exact h.parent m q hold
    · have hlt := (h.parent m p hold).2
      have hpos := h.pid_pos p (by rw [hp]; rintro ⟨⟩)
      refine ⟨h.init, ?_⟩
      rw [h.pid_init.1]
      omega
  · rw [hunused, hembryo]
    exact h.orphan m hm ((hnone m).mp hpar)
  · exact (hnone m).mpr (h.unused m ((hunused m).mp hm))
  · rw [he.pid, hnone]
    exact h.pid_init
  · rw [he.pid]
    exact h.pid_pos m fun hc => hm ((hunused m).mpr hc)
  · rw [he.pid, he.nextpid]
    exact h.pid_lt m
  · rw [he.pid, he.pid]
    exact h.pid_inj m q
  · rw [hforks] at hm
    obtain ⟨hq, hm', hlt⟩ := h.forks q m hm
    rw [halive q (hne q m hm), hembryo, he.pid, he.pid]
    exact ⟨hq, hm', hlt⟩
  · rw [he.pc] at hm
    exact (hnone m).mpr (h.embryo q m hm)
  · rw [he.pc] at hm
    exact (hparent m q (hne q m (Or.inr hm))).mpr (Or.inl (h.forked q m hm))
  · exact h.forks_one q r m ((hforks q m).mp hq) ((hforks r m).mp hr)

/-- The processes are a tree after every step. -/
theorem step (h : PtInv σ) (hexit : ∀ p, σ.pc p = .exit → p ≠ initproc) (hs : PtStep σ tr σ') : PtInv σ' := by
  rcases hs.tree with ⟨hsame, -⟩ | htree
  · exact h.sameTree hsame
  cases htree with
  | allocproc hp _ hnp => exact h.step_allocproc hp hnp
  | forkFails hpc => exact h.step_forkFails hpc
  | forkCopy hpc => exact h.step_forkCopy hpc
  | fork hpc => exact h.step_fork hpc
  | exit hp hpc => exact h.step_exit hp hpc (hexit _ hpc) (exited (hexit _ hpc) σ)
  | wait _ hq => exact h.step_wait hq

end PtInv

/-! ## Sleeping in `wait` -/

namespace WaitInv

/-- One entry changes, and is not put to sleep in `wait`. -/
theorem set {e : ProcEntry} (h : WaitInv σ) (hs : SameTree σ (σ.set p e))
    (hsleep : e.state = .SLEEPING → ∀ q, e.chan ≠ some (.proc q)) : WaitInv (σ.set p e) := by
  refine h.sameTree hs fun r q hr hq => ?_
  by_cases hrp : r = p
  · rw [set_proc, if_pos hrp] at hr hq
    exact absurd hq (hsleep hr q)
  · rw [set_proc, if_neg hrp] at hr hq ⊢
    exact ⟨hr, hq, rfl, rfl⟩

theorem ne_of_sleeping (hr : (σ.proc r).state = .SLEEPING) (hp : (σ.proc p).state = .RUNNING) : r ≠ p := by
  rintro rfl
  rw [hp] at hr
  cases hr

/-- A process that runs goes on. -/
theorem goto {pc : ProcPc} (h : WaitInv σ) (hs : SameTree σ (σ.goto p pc)) (hp : (σ.proc p).state = .RUNNING) :
    WaitInv (σ.goto p pc) := by
  refine h.sameTree hs fun r q hr hq => ⟨hr, hq, ?_, rfl⟩
  rw [goto_pc, if_neg (ne_of_sleeping hr hp)]

/-- A process that runs changes an entry, but not for the children of others. -/
theorem entry (h : WaitInv σ) {x : Fin NPROC} {e : ProcEntry} {pc : Fin NPROC → ProcPc} {n : Nat}
    (hp : (σ.proc p).state = .RUNNING) (hs : e.state ≠ .SLEEPING) (hz : e.state ≠ .ZOMBIE)
    (hparent : ∀ r, r ≠ p → (σ.proc x).parent = some r → e.parent = some r)
    (hpc : ∀ r, r ≠ p → r ≠ x → pc r = σ.pc r) : WaitInv ⟨Function.update σ.proc x e, pc, n⟩ := by
  have hself : Function.update σ.proc x e x = e := Function.update_self ..
  have hother : ∀ q, q ≠ x → Function.update σ.proc x e q = σ.proc q := fun q hq => Function.update_of_ne hq ..
  refine h.mono fun r q hr hq => ?_
  have hr' : (Function.update σ.proc x e r).state = .SLEEPING := hr
  have hq' : (Function.update σ.proc x e r).chan = some (.proc q) := hq
  have hrx : r ≠ x := by
    rintro rfl
    rw [hself] at hr'
    exact hs hr'
  rw [hother r hrx] at hr' hq'
  have hrp := ne_of_sleeping hr' hp
  refine ⟨hr', hq', hpc r hrp hrx, congrArg ProcEntry.killed (hother r hrx), fun y hy => ?_, fun y hy hyz => ?_⟩
  · show (Function.update σ.proc x e y).parent = some r
    by_cases hyx : y = x
    · rw [hyx, hself]
      exact hparent r hrp (hyx ▸ hy)
    · rw [hother y hyx]
      exact hy
  · have hy' : (Function.update σ.proc x e y).parent = some r := hy
    have hyz' : (Function.update σ.proc x e y).state = .ZOMBIE := hyz
    have hyx : y ≠ x := by
      rintro rfl
      rw [hself] at hyz'
      exact hz hyz'
    rw [hother y hyx] at hy' hyz'
    exact ⟨hy', hyz'⟩

theorem step_exit (h : WaitInv σ) (hinv : PtInv σ) (hp : (σ.proc p).state = .RUNNING) (he : Exited p σ τ) :
    WaitInv τ := by
  refine h.mono fun r q hr hq => ?_
  obtain ⟨hr', hq', hparent, hinit⟩ := he.sleeping r _ hr hq
  obtain ⟨rfl, -⟩ := h r q hr' hq'
  have hrp := ne_of_sleeping hr' hp
  refine ⟨hr', hq', by rw [he.pc], he.killed _, fun x hx => ?_, fun x hx hz => ?_⟩
  · rw [he.parent, if_neg]
    · exact hx
    · rw [hx]
      exact fun hc => hrp (Option.some.inj hc)
  · rw [he.parent] at hx
    by_cases hxp : x = p
    · -- the parent of `p` has been woken
      rw [hxp, if_neg] at hx
      · exact absurd rfl (hparent q hx)
      · exact fun hc => Nat.lt_irrefl _ (hinv.parent p p hc).2
    · have hz' : (σ.proc x).state = .ZOMBIE := by
        rw [← kind_zombie, ← he.kind x hxp, kind_zombie]
        exact hz
      split at hx
      · -- and so has init
        next hpar =>
        obtain rfl := Option.some.inj hx
        exact absurd hz' (hinit rfl x hpar)
      · exact ⟨hx, hz'⟩

/-- No exit of a child is missed in a step. -/
theorem step (h : WaitInv σ) (hinv : PtInv σ) (hexit : ∀ p, σ.pc p = .exit → p ≠ initproc)
    (hs : PtStep σ tr σ') : WaitInv σ' := by
  have hmove : ∀ (f : Fin NPROC → ProcPc) (p : Fin NPROC) (pc : ProcPc) r, r ≠ p → Function.update f p pc r = f r :=
    fun f p pc r hr => Function.update_of_ne hr ..
  cases hs with
  | scheduler hp => exact h.set (.set rfl rfl (by rw [hp]; rfl)) fun hc => by cases hc
  | yield hp => exact h.set (.set rfl rfl (by rw [hp]; rfl)) fun hc => by cases hc
  | sleep _ hp => exact h.set (.set rfl rfl (by rw [hp]; rfl)) fun _ q hc => by cases hc
  | wakeup c =>
    refine h.sameTree (.wakeup1 σ _) fun r q hr hq => ⟨(wakeup1_sleeping hr).1, ?_, rfl, ?_⟩
    · rwa [wakeup1_field (·.chan) fun _ _ => rfl] at hq
    · exact wakeup1_field (·.killed) (fun _ _ => rfl) σ _ r
  | allocproc hp hnp =>
    exact h.entry hp.1 (by rintro ⟨⟩) (by rintro ⟨⟩) (fun r _ hr => hr) fun r hr _ => hmove _ _ _ r hr
  | forkFails hp hpc =>
    exact h.entry hp (by rintro ⟨⟩) (by rintro ⟨⟩) (fun r _ hr => hr) fun r hr _ => hmove _ _ _ r hr
  | @forkCopy p np hp hpc =>
    have hembryo := (hinv.forks p np (Or.inl hpc)).2.1
    refine h.entry hp ?_ ?_ (fun r _ hr => ?_) fun r hr _ => hmove _ _ _ r hr
    · rw [show ProcEntry.state _ = (σ.proc np).state from rfl, hembryo]
      rintro ⟨⟩
    · rw [show ProcEntry.state _ = (σ.proc np).state from rfl, hembryo]
      rintro ⟨⟩
    · rw [hinv.embryo p np hpc] at hr
      cases hr
  | fork hp hpc =>
    exact h.entry hp (by rintro ⟨⟩) (by rintro ⟨⟩) (fun r _ hr => hr)
      fun r hr hx => (hmove _ _ _ r hr).trans (hmove _ _ _ r hx)
  | exitCall hp => exact h.goto (.goto (not_forks hp.2 (Or.inl rfl)) (Or.inr (Or.inl rfl))) hp.1
  | exit hp hpc => exact h.step_exit hinv hp (exited (hexit _ hpc) σ)
  | waitCall hp => exact h.goto (.goto (not_forks hp.2 (Or.inl rfl)) (Or.inr (Or.inr rfl))) hp.1
  | @wait p q hp _ hq =>
    refine h.entry hp (by rintro ⟨⟩) (by rintro ⟨⟩) (fun r hr hpar => ?_) fun r hr _ => hmove _ _ _ r hr
    rw [(zombie_eq_some hq).1] at hpar
    exact absurd (Option.some.inj hpar).symm hr
  | waitFails hp hpc => exact h.goto (.goto (not_forks hpc (Or.inr (Or.inr rfl))) (Or.inl rfl)) hp
  | @waitSleep p hp hpc hnone hkids hkilled =>
    have hsame : SameTree σ (σ.sleep p (.proc p)) := .set rfl rfl (by rw [hp]; rfl)
    have hparent : ∀ x, ((σ.sleep p (.proc p)).proc x).parent = (σ.proc x).parent := hsame.parent
    intro r q hr hq
    by_cases hrp : r = p
    · rw [PtState.sleep, set_proc, if_pos hrp] at hq
      obtain rfl := ProcChan.proc.inj (Option.some.inj hq)
      subst hrp
      refine ⟨rfl, hpc, ?_, ?_, fun x hx => ?_⟩
      · rw [PtState.sleep, set_proc, if_pos rfl]
        exact hkilled
      · exact hkids.imp fun x hx => (hparent x).trans hx
      · rw [Ne, hsame.zombie]
        exact zombie_eq_none hnone ((hparent x).symm.trans hx)
    · rw [PtState.sleep, set_proc, if_neg hrp] at hr hq
      obtain ⟨hqr, hwait, hnot, hkids', hnone'⟩ := h r q hr hq
      refine ⟨hqr, hwait, ?_, hkids'.imp fun x hx => (hparent x).trans hx, fun x hx => ?_⟩
      · rw [PtState.sleep, set_proc, if_neg hrp]
        exact hnot
      · rw [Ne, hsame.zombie]
        exact hnone' x ((hparent x).symm.trans hx)
  | @kill _ p =>
    refine h.set (.set rfl rfl ?_) fun hc => ?_
    · show ProcState.kind (if _ then _ else _) = _
      split
      · next hs => rw [hs]; rfl
      · rfl
    · have hc' : (if (σ.proc p).state = .SLEEPING then ProcState.RUNNABLE else (σ.proc p).state) = .SLEEPING := hc
      split at hc'
      · cases hc'
      · next hne => exact absurd hc' hne
  | @trap p hp =>
    refine h.set (.set rfl rfl rfl) fun hc => ?_
    rw [show ProcEntry.state _ = (σ.proc p).state from rfl, hp.1] at hc
    cases hc

end WaitInv

end Jos.Xv6
