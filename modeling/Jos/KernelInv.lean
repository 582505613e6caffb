import Jos.Syscall

/-!
# The invariant of the kernel's data

`MemInv R D l k` joins the invariant of `pmap.c` with what `env.c` keeps about `envs`: `D` are exactly the
page directories of environments, no two share one, and `env_free_list` links the slots without one.
`env_alloc` and `env_free` keep it, with one directory more or less. Everything else the kernel writes to
`struct Env` (status, registers, message fields) is irrelevant to it. `KernelInv` adds that the slots without
a directory are those with status `ENV_FREE`.
-/

namespace Jos

open Pmap

variable {R : Set Nat} {D : Finset Nat} {l : List Nat} {k k' : Kernel} {c e cur d : Nat}

/-! ## Updates -/

namespace Kernel

variable (k : Kernel) (e c : Nat) (env : Env) (cpu : Cpu) (st : EnvStatus) (ev : Event)

@[simp] theorem setEnv_pmap : (k.setEnv e env).pmap = k.pmap := rfl
@[simp] theorem setEnv_cpus : (k.setEnv e env).cpus = k.cpus := rfl
@[simp] theorem setEnv_log : (k.setEnv e env).log = k.log := rfl
@[simp] theorem setEnv_envFreeList : (k.setEnv e env).envFreeList = k.envFreeList := rfl
@[simp] theorem setStatus_pmap : (k.setStatus e st).pmap = k.pmap := rfl
@[simp] theorem setStatus_cpus : (k.setStatus e st).cpus = k.cpus := rfl
@[simp] theorem setStatus_log : (k.setStatus e st).log = k.log := rfl
@[simp] theorem setStatus_envFreeList : (k.setStatus e st).envFreeList = k.envFreeList := rfl
@[simp] theorem setCpu_pmap : (k.setCpu c cpu).pmap = k.pmap := rfl
@[simp] theorem setCpu_envs : (k.setCpu c cpu).envs = k.envs := rfl
@[simp] theorem setCpu_log : (k.setCpu c cpu).log = k.log := rfl
@[simp] theorem setCpu_envFreeList : (k.setCpu c cpu).envFreeList = k.envFreeList := rfl
@[simp] theorem setCurenv_pmap (o : Option Nat) : (k.setCurenv c o).pmap = k.pmap := rfl
@[simp] theorem setCurenv_envs (o : Option Nat) : (k.setCurenv c o).envs = k.envs := rfl
@[simp] theorem setCurenv_log (o : Option Nat) : (k.setCurenv c o).log = k.log := rfl
@[simp] theorem setCurenv_envFreeList (o : Option Nat) :
    (k.setCurenv c o).envFreeList = k.envFreeList := rfl
@[simp] theorem record_pmap : (k.record ev).pmap = k.pmap := rfl
@[simp] theorem record_envs : (k.record ev).envs = k.envs := rfl
@[simp] theorem record_cpus : (k.record ev).cpus = k.cpus := rfl
@[simp] theorem record_envFreeList : (k.record ev).envFreeList = k.envFreeList := rfl
@[simp] theorem record_log : (k.record ev).log = ev :: k.log := rfl

theorem setEnv_envs (i : Nat) : (k.setEnv e env).envs i = if i = e then env else k.envs i := by
  simp [setEnv, Function.update_apply]

theorem setStatus_envs (i : Nat) : (k.setStatus e st).envs i
    = if i = e then { k.envs e with envStatus := st } else k.envs i := setEnv_envs k e _ i

theorem setCpu_cpus (i : Nat) : (k.setCpu c cpu).cpus i = if i = c then cpu else k.cpus i := by
  simp [setCpu, Function.update_apply]

theorem setCurenv_cpus (o : Option Nat) (i : Nat) : (k.setCurenv c o).cpus i
    = if i = c then { k.cpus c with cpuEnv := o } else k.cpus i := setCpu_cpus k c _ i

end Kernel

open Kernel

/-! ## The invariant -/

/-- Slot `e` holds an environment. -/
def Live (k : Kernel) (e : Nat) : Prop := e < NENV ∧ (k.envs e).envStatus ≠ .free

/-- What `env.c` keeps about `env_pgdir` and `env_link`, with directories `D`. -/
structure EnvsOk (D : Finset Nat) (k : Kernel) : Prop where
  lt : ∀ e d, (k.envs e).envPgdir = some d → e < NENV
  dir : ∀ e d, (k.envs e).envPgdir = some d → d ∈ D
  inj : ∀ e e' d, (k.envs e).envPgdir = some d → (k.envs e').envPgdir = some d → e = e'
  owner : ∀ d ∈ D, ∃ e, (k.envs e).envPgdir = some d
  list : ∃ fl, Linked (fun e => (k.envs e).envLink) k.envFreeList fl ∧
    ∀ e, e ∈ fl ↔ e < NENV ∧ (k.envs e).envPgdir = none

/-- The invariant of the kernel's memory, which does not depend on the status of environments. -/
structure MemInv (R : Set Nat) (D : Finset Nat) (l : List Nat) (k : Kernel) : Prop where
  pmap : PmapInv R D l k.pmap
  envs : EnvsOk D k

/-- The invariant of the kernel's data. -/
structure KernelInv (R : Set Nat) (D : Finset Nat) (l : List Nat) (k : Kernel) : Prop extends
    MemInv R D l k where
  life : ∀ e, (k.envs e).envStatus = .free ↔ (k.envs e).envPgdir = none

/-- Changes that do not concern directories and the free list of environments. -/
structure SameDirs (k k' : Kernel) : Prop where
  link : ∀ e, (k'.envs e).envLink = (k.envs e).envLink
  pgdir : ∀ e, (k'.envs e).envPgdir = (k.envs e).envPgdir
  list : k'.envFreeList = k.envFreeList

/-- Changes that do not concern the life of environments. -/
structure SameLife (k k' : Kernel) : Prop extends SameDirs k k' where
  free : ∀ e, (k'.envs e).envStatus = .free ↔ (k.envs e).envStatus = .free

namespace SameDirs

theorem trans {k₁ k₂ k₃ : Kernel} (h : SameDirs k₁ k₂) (h' : SameDirs k₂ k₃) : SameDirs k₁ k₃ :=
  ⟨fun e => (h'.link e).trans (h.link e), fun e => (h'.pgdir e).trans (h.pgdir e),
    h'.list.trans h.list⟩

/-- Changes outside `envs`. -/
theorem of_envs (h : k'.envs = k.envs) (hl : k'.envFreeList = k.envFreeList) : SameDirs k k' :=
  ⟨fun _ => by rw [h], fun _ => by rw [h], hl⟩

/-- Overwriting an environment by one with the same link and directory. -/
theorem setEnv {env : Env} (hlink : env.envLink = (k.envs e).envLink)
    (hpg : env.envPgdir = (k.envs e).envPgdir) : SameDirs k (k.setEnv e env) where
  link i := by
    rw [setEnv_envs]
    split
    · next hi => rw [hi, hlink]
    · rfl
  pgdir i := by
    rw [setEnv_envs]
    split
    · next hi => rw [hi, hpg]
    · rfl
  list := rfl

end SameDirs

namespace SameLife

theorem trans {k₁ k₂ k₃ : Kernel} (h : SameLife k₁ k₂) (h' : SameLife k₂ k₃) : SameLife k₁ k₃ :=
  ⟨h.toSameDirs.trans h'.toSameDirs, fun e => (h'.free e).trans (h.free e)⟩

theorem live (h : SameLife k k') : Live k' e ↔ Live k e := and_congr_right fun _ => not_congr (h.free e)

/-- Overwriting a live environment by one with the same link and directory that is not free. -/
theorem setEnv (hlive : (k.envs e).envStatus ≠ .free) {env : Env}
    (hlink : env.envLink = (k.envs e).envLink) (hpg : env.envPgdir = (k.envs e).envPgdir)
    (hst : env.envStatus ≠ .free) : SameLife k (k.setEnv e env) where
  toSameDirs := .setEnv hlink hpg
  free i := by
    rw [setEnv_envs]
    split
    · next hi => rw [hi]; exact iff_of_false hst hlive
    · rfl

theorem setStatus (hlive : (k.envs e).envStatus ≠ .free) {st : EnvStatus} (hst : st ≠ .free) :
    SameLife k (k.setStatus e st) := setEnv hlive rfl rfl hst

/-- Changes outside `envs`. -/
theorem of_envs (h : k'.envs = k.envs) (hl : k'.envFreeList = k.envFreeList) : SameLife k k' :=
  ⟨.of_envs h hl, fun _ => by rw [h]⟩

end SameLife

/-- `env_free_list` links the slots without a directory. -/
def FreeSlots (k : Kernel) : Prop :=
  ∃ fl, Linked (fun e => (k.envs e).envLink) k.envFreeList fl ∧
    ∀ e, e ∈ fl ↔ e < NENV ∧ (k.envs e).envPgdir = none

theorem FreeSlots.congr (h : FreeSlots k) (hs : SameDirs k k') : FreeSlots k' := by
  obtain ⟨fl, hfl, hmem⟩ := h
  refine ⟨fl, ?_, fun e => ?_⟩
  · rw [hs.list]
    exact hfl.congr fun e _ => hs.link e
  · rw [hs.pgdir]
    exact hmem e

/-- `env_alloc` takes a slot that is free. -/
theorem FreeSlots.head (h : FreeSlots k) (hhead : k.envFreeList = some e) :
    e < NENV ∧ (k.envs e).envPgdir = none := by
  obtain ⟨fl, hfl, hmem⟩ := h
  rw [hhead] at hfl
  cases fl with
  | nil => cases hfl
  | cons a fl =>
    obtain rfl : e = a := Option.some.inj hfl.1
    exact (hmem e).mp (List.mem_cons_self ..)

theorem EnvsOk.congr (h : EnvsOk D k) (hs : SameDirs k k') : EnvsOk D k' where
  lt e d := by
    rw [hs.pgdir]
    exact h.lt e d
  dir e d := by
    rw [hs.pgdir]
    exact h.dir e d
  inj e e' d := by
    rw [hs.pgdir, hs.pgdir]
    exact h.inj e e' d
  owner d hd := by
    obtain ⟨e, hpg⟩ := h.owner d hd
    exact ⟨e, (hs.pgdir e).trans hpg⟩
  list := FreeSlots.congr h.list hs

theorem MemInv.congr (h : MemInv R D l k) (hs : SameDirs k k') (hp : k'.pmap = k.pmap) :
    MemInv R D l k' := ⟨hp ▸ h.pmap, h.envs.congr hs⟩

theorem KernelInv.congr (h : KernelInv R D l k) (hs : SameLife k k') (hp : k'.pmap = k.pmap) :
    KernelInv R D l k' where
  toMemInv := h.toMemInv.congr hs.toSameDirs hp
  life e := by
    rw [hs.free, hs.pgdir]
    exact h.life e

section Pmap

variable {s : Pmap} {l' : List Nat}

/-- A step of `pmap.c` below the environments. -/
theorem MemInv.withPmap (h : MemInv R D l k) (hp : PmapInv R D l' s) :
    MemInv R D l' { k with pmap := s } := ⟨hp, h.envs.congr (.of_envs rfl rfl)⟩

theorem KernelInv.withPmap (h : KernelInv R D l k) (hp : PmapInv R D l' s) :
    KernelInv R D l' { k with pmap := s } := ⟨h.toMemInv.withPmap hp, h.life⟩

end Pmap

theorem pgdirOf_some (h : (k.envs e).envPgdir = some d) : pgdirOf k e = .ok d := by
  rw [pgdirOf, h]
  rfl

theorem pgdirOf_none (h : (k.envs e).envPgdir = none) : pgdirOf k e = .error .kernelFault := by
  rw [pgdirOf, h]
  rfl

theorem KernelInv.pgdir (h : KernelInv R D l k) (he : Live k e) :
    ∃ d ∈ D, (k.envs e).envPgdir = some d := by
  obtain ⟨d, hd⟩ := Option.ne_none_iff_exists'.mp fun hc => he.2 ((h.life e).mpr hc)
  exact ⟨d, h.envs.dir e d hd, hd⟩

theorem KernelInv.pgdirOf (h : KernelInv R D l k) (he : Live k e) :
    ∃ d ∈ D, (k.envs e).envPgdir = some d ∧ pgdirOf k e = .ok d := by
  obtain ⟨d, hd, hpg⟩ := h.pgdir he
  exact ⟨d, hd, hpg, pgdirOf_some hpg⟩

/-! ## `envid2env` -/

theorem ENVX_lt (envid : Word) : ENVX envid < NENV := by
  have h : (envid &&& 1023#32).toNat ≤ (1023#32).toNat := by
    rw [BitVec.toNat_and]
    exact Nat.and_le_right
  have h' : (1023#32).toNat = 1023 := by decide
  unfold ENVX NENV
  omega

theorem envid2env_live {envid : Word} {checkperm : Bool} (hcur : Live k cur)
    (h : envid2env k cur envid checkperm = some e) : Live k e := by
  unfold envid2env at h
  split at h
  · cases h
    exact hcur
  · simp only at h
    split at h
    · cases h
    · next hfree =>
      split at h
      · cases h
      · cases h
        exact ⟨ENVX_lt envid, fun hf => hfree (Or.inl hf)⟩

/-- The caller can name an environment that has no page directory. -/
def Orphan (k : Kernel) (cur : Nat) : Prop :=
  ∃ envid checkperm e, envid2env k cur envid checkperm = some e ∧ (k.envs e).envPgdir = none

theorem KernelInv.not_orphan (h : KernelInv R D l k) (hcur : Live k cur) : ¬ Orphan k cur := by
  rintro ⟨envid, checkperm, e, he, hpg⟩
  exact (envid2env_live hcur he).2 ((h.life e).mpr hpg)

/-! ## `env_alloc` -/

/-- The state after `env_alloc` has put an environment with directory `d` into slot `e`. -/
def Kernel.newEnv (k : Kernel) (e d : Nat) (s : Pmap) (parentId : Word) : Kernel :=
  { ({ k with pmap := s } : Kernel).setEnv e { k.envs e with
      envPgdir := some d
      envId := nextEnvId (k.envs e).envId e
      envParentId := parentId
      envStatus := .runnable
      envRuns := 0#32
      envTf := initTf
      envPgfaultUpcall := 0#32
      envIpcRecving := false } with
    envFreeList := (k.envs e).envLink
    log := .alloc e :: k.log }

theorem newEnv_envs_of_ne {s : Pmap} {pid : Word} {i : Nat} (h : i ≠ e) :
    (k.newEnv e d s pid).envs i = k.envs i := by
  show (({ k with pmap := s } : Kernel).setEnv e _).envs i = k.envs i
  rw [setEnv_envs, if_neg h]

theorem newEnv_envs_self {s : Pmap} {pid : Word} : (k.newEnv e d s pid).envs e
    = { k.envs e with
      envPgdir := some d
      envId := nextEnvId (k.envs e).envId e
      envParentId := pid
      envStatus := .runnable
      envRuns := 0#32
      envTf := initTf
      envPgfaultUpcall := 0#32
      envIpcRecving := false } := by
  show (({ k with pmap := s } : Kernel).setEnv e _).envs e = _
  rw [setEnv_envs, if_pos rfl]

theorem FreeSlots.newEnv (h : FreeSlots k) (hhead : k.envFreeList = some e) (d : Nat) (s : Pmap)
    (pid : Word) : FreeSlots (k.newEnv e d s pid) := by
  obtain ⟨fl, hfl, hmem⟩ := h
  rw [hhead] at hfl
  cases fl with
  | nil => cases hfl
  | cons a fl =>
    obtain rfl : e = a := Option.some.inj hfl.1
    have hnd := List.nodup_cons.mp hfl.nodup
    refine ⟨fl, ?_, fun i => ?_⟩
    · refine hfl.2.congr fun i hi => ?_
      have hie : i ≠ e := by
        rintro rfl
        exact hnd.1 hi
      rw [newEnv_envs_of_ne hie]
    · by_cases hi : i = e
      · subst hi
        rw [newEnv_envs_self]
        exact iff_of_false hnd.1 nofun
      · rw [newEnv_envs_of_ne hi, ← hmem i, List.mem_cons, or_iff_right hi]

/-- `env_alloc` fails for want of a slot or of a page, and then changes nothing. -/
theorem MemInv.envAlloc_cases (h : MemInv R D l k) (pid : Word) :
    (∃ e p l', k.envFreeList = some e ∧ e < NENV ∧ (k.envs e).envPgdir = none ∧ l = p :: l' ∧
      envAlloc k pid = .ok (.ok e, k.newEnv e p (k.pmap.newDir p) pid) ∧
      MemInv R (insert p D) l' (k.newEnv e p (k.pmap.newDir p) pid)) ∨
    ((k.envFreeList = none ∨ l = []) ∧ ∃ err, envAlloc k pid = .ok (.error err, k)) := by
  obtain ⟨fl, hfl, hmem⟩ := h.envs.list
  cases fl with
  | nil =>
    have hnone : k.envFreeList = none := hfl
    exact Or.inr ⟨Or.inl hnone, _, by rw [envAlloc, hnone]; rfl⟩
  | cons e fl =>
    have hhead : k.envFreeList = some e := hfl.1
    obtain ⟨helt, hefree⟩ := (hmem e).mp (List.mem_cons_self ..)
    cases l with
    | nil =>
      refine Or.inr ⟨Or.inr rfl, -E_NO_MEM, ?_⟩
      have hcode := envSetupVm_none h.pmap.free.head_none
      obtain ⟨s, envs, free, cpus, log⟩ := k
      obtain rfl : free = some e := hhead
      simp only [envAlloc, hcode, Except.ok_bind]
      rfl
    | cons p l =>
      have hp := h.pmap.head_managed
      have hpD : p ∉ D := fun hpD => h.pmap.dir_notMem_free hpD (List.mem_cons_self ..)
      have hcode := envSetupVm_some h.pmap.free.head_some hp.1 h.pmap.npages_le'
      have hpg : ∀ i d, ((k.newEnv e p (k.pmap.newDir p) pid).envs i).envPgdir = some d ↔
          (i = e ∧ d = p) ∨ (i ≠ e ∧ (k.envs i).envPgdir = some d) := by
        intro i d
        by_cases hi : i = e
        · subst hi
          rw [newEnv_envs_self]
          simp [eq_comm]
        · rw [newEnv_envs_of_ne hi]
          simp [hi]
      refine Or.inl ⟨e, p, l, hhead, helt, hefree, rfl, ?_, h.pmap.newDir, ?_, ?_, ?_, ?_, ?_⟩
      · simp only [envAlloc, hhead, hcode, Except.ok_bind]
        simp only [Kernel.newEnv, Kernel.record, setEnv_envs, if_true, Except.pure_eq]
        rfl
      · intro i d hd
        rcases (hpg i d).mp hd with ⟨rfl, -⟩ | ⟨-, hd⟩
        · exact helt
        · exact h.envs.lt i d hd
      · intro i d hd
        rcases (hpg i d).mp hd with ⟨-, rfl⟩ | ⟨-, hd⟩
        · exact Finset.mem_insert_self ..
        · exact Finset.mem_insert_of_mem (h.envs.dir i d hd)
      · intro i j d hi hj
        rcases (hpg i d).mp hi with ⟨hie, rfl⟩ | ⟨-, hi'⟩ <;>
          rcases (hpg j _).mp hj with ⟨hje, hdj⟩ | ⟨-, hj'⟩
        · rw [hie, hje]
        · exact absurd (h.envs.dir j _ hj') hpD
        · exact absurd (hdj ▸ h.envs.dir i _ hi') hpD
        · exact h.envs.inj i j d hi' hj'
      · intro d hd
        rcases Finset.mem_insert.mp hd with rfl | hd
        · exact ⟨e, (hpg e d).mpr (Or.inl ⟨rfl, rfl⟩)⟩
        · obtain ⟨i, hi⟩ := h.envs.owner d hd
          refine ⟨i, (hpg i d).mpr (Or.inr ⟨?_, hi⟩)⟩
          rintro rfl
          rw [hefree] at hi
          cases hi
      · exact FreeSlots.newEnv h.envs.list hhead p (k.pmap.newDir p) pid

/-- A new environment in a free slot is live. -/
theorem newEnv_life {s : Pmap} {pid : Word}
    (h : ∀ i, (k.envs i).envStatus = .free ↔ (k.envs i).envPgdir = none) (i : Nat) :
    ((k.newEnv e d s pid).envs i).envStatus = .free ↔
      ((k.newEnv e d s pid).envs i).envPgdir = none := by
  by_cases hi : i = e
  · subst hi
    rw [newEnv_envs_self]
    exact iff_of_false nofun nofun
  · rw [newEnv_envs_of_ne hi]
    exact h i

theorem KernelInv.envAlloc_cases (h : KernelInv R D l k) (pid : Word) :
    (∃ e p l', k.envFreeList = some e ∧ e < NENV ∧ (k.envs e).envStatus = .free ∧ l = p :: l' ∧
      envAlloc k pid = .ok (.ok e, k.newEnv e p (k.pmap.newDir p) pid) ∧
      KernelInv R (insert p D) l' (k.newEnv e p (k.pmap.newDir p) pid)) ∨
    ((k.envFreeList = none ∨ l = []) ∧ ∃ err, envAlloc k pid = .ok (.error err, k)) := by
  rcases h.toMemInv.envAlloc_cases pid with ⟨e, p, l', hhead, helt, hpg, hl, hcode, hinv⟩ | hno
  · exact Or.inl ⟨e, p, l', hhead, helt, (h.life e).mpr hpg, hl, hcode, hinv, newEnv_life h.life⟩
  · exact Or.inr hno

/-! ## `env_free` -/

/-- The state after `env_free(e)` on CPU `c`, with `s` the memory it leaves. -/
def Kernel.freeEnv (k : Kernel) (c e : Nat) (s : Pmap) : Kernel :=
  { ({ k with pmap := s } : Kernel).setEnv e { k.envs e with
      envPgdir := none
      envStatus := .free
      envLink := k.envFreeList } with
    envFreeList := some e
    log := .free c e k.curenv :: k.log }

theorem freeEnv_envs_of_ne {s : Pmap} {i : Nat} (h : i ≠ e) :
    (k.freeEnv c e s).envs i = k.envs i := by
  show (({ k with pmap := s } : Kernel).setEnv e _).envs i = k.envs i
  rw [setEnv_envs, if_neg h]

theorem freeEnv_envs_self {s : Pmap} : (k.freeEnv c e s).envs e
    = { k.envs e with envPgdir := none, envStatus := .free, envLink := k.envFreeList } := by
  show (({ k with pmap := s } : Kernel).setEnv e _).envs e = _
  rw [setEnv_envs, if_pos rfl]

theorem FreeSlots.freeEnv (h : FreeSlots k) (hlt : e < NENV) (hpg : (k.envs e).envPgdir ≠ none)
    (c : Nat) (s : Pmap) : FreeSlots (k.freeEnv c e s) := by
  obtain ⟨fl, hfl, hmem⟩ := h
  have hefl : e ∉ fl := fun hc => hpg ((hmem e).mp hc).2
  refine ⟨e :: fl, ?_, fun i => ?_⟩
  · refine (hfl.push hefl).congr fun i _ => ?_
    by_cases hi : i = e
    · subst hi
      rw [freeEnv_envs_self, if_pos rfl]
    · rw [freeEnv_envs_of_ne hi, if_neg hi]
  · by_cases hi : i = e
    · subst hi
      rw [freeEnv_envs_self]
      exact iff_of_true (List.mem_cons_self ..) ⟨hlt, rfl⟩
    · rw [freeEnv_envs_of_ne hi, ← hmem i, List.mem_cons, or_iff_right hi]

/-- A slot that has been freed is free. -/
theorem freeEnv_life {s : Pmap}
    (h : ∀ i, (k.envs i).envStatus = .free ↔ (k.envs i).envPgdir = none) (i : Nat) :
    ((k.freeEnv c e s).envs i).envStatus = .free ↔
      ((k.freeEnv c e s).envs i).envPgdir = none := by
  by_cases hi : i = e
  · subst hi
    rw [freeEnv_envs_self]
    exact iff_of_true rfl rfl
  · rw [freeEnv_envs_of_ne hi]
    exact h i

/-- `env_free` of an environment with a directory gives its memory back and leaves the others alone. -/
theorem MemInv.envFree_spec (h : MemInv R D l k) (hpg : (k.envs e).envPgdir = some d) (c : Nat) :
    ∃ s l', envFree k c e = .ok (k.freeEnv c e s) ∧ MemInv R (D.erase d) l' (k.freeEnv c e s) ∧
      FreeFrame R D d k.pmap s := by
  obtain ⟨s, l', hcode, hinv, hff⟩ := h.pmap.envFreeVm_spec (h.envs.dir e d hpg)
  have hpgs : ∀ i d', ((k.freeEnv c e s).envs i).envPgdir = some d' ↔
      i ≠ e ∧ (k.envs i).envPgdir = some d' := by
    intro i d'
    by_cases hi : i = e
    · subst hi
      rw [freeEnv_envs_self]
      simp
    · rw [freeEnv_envs_of_ne hi]
      simp [hi]
  refine ⟨s, l', ?_, ⟨hinv, ?_, ?_, ?_, ?_, ?_⟩, hff⟩
  · simp only [envFree, record_envs, record_pmap, hpg, hcode, Except.ok_bind]
    rfl
  · intro i d' hi
    exact h.envs.lt i d' ((hpgs i d').mp hi).2
  · intro i d' hi
    obtain ⟨hie, hi⟩ := (hpgs i d').mp hi
    refine Finset.mem_erase.mpr ⟨?_, h.envs.dir i d' hi⟩
    rintro rfl
    exact hie (h.envs.inj i e d' hi hpg)
  · intro i j d' hi hj
    exact h.envs.inj i j d' ((hpgs i d').mp hi).2 ((hpgs j d').mp hj).2
  · intro d' hd'
    obtain ⟨hne, hd'⟩ := Finset.mem_erase.mp hd'
    obtain ⟨i, hi⟩ := h.envs.owner d' hd'
    refine ⟨i, (hpgs i d').mpr ⟨?_, hi⟩⟩
    rintro rfl
    rw [hpg] at hi
    exact hne (Option.some.inj hi).symm
  · exact FreeSlots.freeEnv h.envs.list (h.envs.lt e d hpg) (by rw [hpg]; exact nofun) c s

theorem KernelInv.envFree_spec (h : KernelInv R D l k) (he : Live k e) (c : Nat) :
    ∃ d ∈ D, ∃ s l', (k.envs e).envPgdir = some d ∧ envFree k c e = .ok (k.freeEnv c e s) ∧
      KernelInv R (D.erase d) l' (k.freeEnv c e s) ∧ FreeFrame R D d k.pmap s := by
  obtain ⟨d, hd, hpg⟩ := h.pgdir he
  obtain ⟨s, l', hcode, hinv, hff⟩ := h.toMemInv.envFree_spec hpg c
  exact ⟨d, hd, s, l', hpg, hcode, ⟨hinv, freeEnv_life h.life⟩, hff⟩

end Jos
