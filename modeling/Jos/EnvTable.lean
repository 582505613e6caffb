import Mathlib.Data.Nat.Bitwise
import Jos.SchedSpec
import Jos.Boot

/-!
# The table of environments

`env_alloc` and `env_free` on `envs` and `env_free_list`, whatever the page tables look like: what they leave
when they succeed (`envAlloc_ok`, `envFree_ok`), that a failed `env_alloc` leaves everything as it was, and the
invariant of the table (`TableOk`).

The identifiers of a slot are a counter: `env_alloc` adds 4096 to the last one, and starts over at 4096 when
that would make it negative. So a slot goes through 524287 identifiers before one comes back, and an identifier
carries the number of its slot in its lowest ten bits (`tableRun_ids`).
-/

namespace Jos

open Pmap Kernel

variable {k k' : Kernel} {c e cur d : Nat} {s s' : Pmap} {pid old : Word}

/-! ## `env_alloc` and `env_free` without assumptions on memory -/

theorem pageAlloc_fails {zero : Bool} (h : pageAlloc s zero = .ok (none, s')) :
    s' = s ∧ s.pageFreeList = none := by
  cases hlist : s.pageFreeList with
  | none =>
    rw [pageAlloc_none zero hlist] at h
    exact ⟨(Prod.mk.inj (Except.ok.inj h)).2.symm, rfl⟩
  | some p =>
    simp only [pageAlloc, hlist] at h
    split at h
    · obtain ⟨kva, -, h⟩ := Except.bind_eq_ok.mp h
      cases (Prod.mk.inj (Except.ok.inj h)).1
    · cases (Prod.mk.inj (Except.ok.inj h)).1

theorem envSetupVm_fails (h : envSetupVm s = .ok (none, s')) : s' = s := by
  unfold envSetupVm at h
  obtain ⟨⟨p, s₁⟩, hp, hrest⟩ := Except.bind_eq_ok.mp h
  cases p with
  | none =>
    rw [← (pageAlloc_fails hp).1]
    exact (Prod.mk.inj (Except.ok.inj hrest)).2.symm
  | some p =>
    obtain ⟨kva, -, hrest⟩ := Except.bind_eq_ok.mp hrest
    exact nomatch (Prod.mk.inj (Except.ok.inj hrest)).1

/-- `env_alloc` takes the first free slot, or fails and changes nothing. -/
theorem envAlloc_ok {r : Except Int Nat} (h : envAlloc k pid = .ok (r, k')) :
    (∃ e d s, r = .ok e ∧ k.envFreeList = some e ∧ k' = k.newEnv e d s pid) ∨
      (∃ err, r = .error err) ∧ k' = k := by
  unfold envAlloc at h
  cases hlist : k.envFreeList with
  | none =>
    rw [hlist] at h
    obtain ⟨rfl, rfl⟩ := Prod.mk.inj (Except.ok.inj h)
    exact Or.inr ⟨⟨_, rfl⟩, rfl⟩
  | some e =>
    rw [hlist] at h
    obtain ⟨⟨d, s⟩, hvm, h⟩ := Except.bind_eq_ok.mp h
    cases d with
    | none =>
      obtain rfl := envSetupVm_fails hvm
      obtain ⟨rfl, rfl⟩ := Prod.mk.inj (Except.ok.inj h)
      exact Or.inr ⟨⟨_, rfl⟩, Kernel.ext rfl rfl hlist.symm rfl rfl⟩
    | some d =>
      obtain ⟨rfl, rfl⟩ := Prod.mk.inj (Except.ok.inj h)
      refine Or.inl ⟨e, d, s, rfl, rfl, ?_⟩
      simp only [Kernel.newEnv, Kernel.record, setEnv_envs, if_true]
      rfl

/-- `env_free` of an environment with a directory. -/
theorem envFree_ok (h : envFree k c e = .ok k') :
    (k.envs e).envPgdir ≠ none ∧ ∃ s, k' = k.freeEnv c e s := by
  unfold envFree at h
  simp only at h
  split at h
  · cases h
  · next d hpg =>
    obtain ⟨s, -, h⟩ := Except.bind_eq_ok.mp h
    have hpg' : (k.envs e).envPgdir = some d := hpg
    exact ⟨by rw [hpg']; exact nofun, s, (Except.ok.inj h).symm⟩

/-! ## The invariant of the table -/

/-- `env_free_list` links exactly the free slots, and free slots are those without a page directory. -/
structure TableOk (k : Kernel) : Prop where
  slots : FreeSlots k
  lt : ∀ e, (k.envs e).envPgdir ≠ none → e < NENV
  life : ∀ e, (k.envs e).envStatus = .free ↔ (k.envs e).envPgdir = none

namespace TableOk

theorem congr (h : TableOk k) (hs : SameLife k k') : TableOk k' where
  slots := h.slots.congr hs.toSameDirs
  lt e he := by
    rw [hs.pgdir] at he
    exact h.lt e he
  life e := by
    rw [hs.free, hs.pgdir]
    exact h.life e

theorem newEnv (h : TableOk k) (hhead : k.envFreeList = some e) : TableOk (k.newEnv e d s pid) where
  slots := h.slots.newEnv hhead d s pid
  lt i hi := by
    by_cases hie : i = e
    · subst hie
      exact (h.slots.head hhead).1
    · rw [newEnv_envs_of_ne hie] at hi
      exact h.lt i hi
  life := newEnv_life h.life

theorem freeEnv (h : TableOk k) (hpg : (k.envs e).envPgdir ≠ none) : TableOk (k.freeEnv c e s) where
  slots := h.slots.freeEnv (h.lt e hpg) hpg c s
  lt i hi := by
    by_cases hie : i = e
    · subst hie
      exact h.lt i hpg
    · rw [freeEnv_envs_of_ne hie] at hi
      exact h.lt i hi
  life := freeEnv_life h.life

end TableOk

/-- After `env_init`, all slots are free. -/
theorem envInit_tableOk (hnone : k.envFreeList = none) (hfree : ∀ e, (k.envs e).envStatus = .free)
    (hdir : ∀ e, (k.envs e).envPgdir = none) : TableOk (envInit k) := by
  have h := envInit_inv hnone
  have hpg : ∀ e, ((envInit k).envs e).envPgdir = none := fun e => (h.pgdir e).trans (hdir e)
  refine ⟨⟨_, h.linked, fun e => ?_⟩, fun e he => absurd (hpg e) he,
    fun e => iff_of_true (h.status e (hfree e)) (hpg e)⟩
  rw [List.mem_range'_1]
  have := hpg e
  constructor
  · intro he
    exact ⟨by omega, this⟩
  · intro he
    omega

/-! ## Identifiers -/

/-- `x & ~(NENV - 1)`. -/
private theorem and_not_mask10 (w : Word) : (w &&& ~~~1023#32).toNat = w.toNat / 1024 * 1024 := by
  have hshift : w &&& ~~~1023#32 = w >>> 10 <<< 10 := by
    refine BitVec.eq_of_getLsbD_eq fun i hi => ?_
    have hmask : (1023#32).getLsbD i = decide (i < 10) := by
      rw [show (1023#32 : Word) = BitVec.ofNat 32 (2 ^ 10 - 1) from rfl, BitVec.getLsbD_ofNat,
        Nat.testBit_two_pow_sub_one, decide_eq_true hi, Bool.true_and]
    rw [BitVec.getLsbD_and, BitVec.getLsbD_not, hmask, decide_eq_true hi, Bool.true_and,
      BitVec.getLsbD_shiftLeft, BitVec.getLsbD_ushiftRight, decide_eq_true hi, Bool.true_and]
    by_cases h10 : i < 10
    · simp [h10]
    · simp [h10, Nat.add_sub_cancel' (Nat.not_lt.mp h10)]
  have hlt := w.isLt
  rw [hshift, BitVec.toNat_shiftLeft, BitVec.toNat_ushiftRight, Nat.shiftLeft_eq,
    Nat.shiftRight_eq_div_pow]
  omega

/-- `generation | (e - envs)`. -/
private theorem or_slot {g : Nat} {w : Word} (hw : w.toNat = 1024 * g) (he : e < 1024) :
    (w ||| BitVec.ofNat 32 e).toNat = 1024 * g + e := by
  rw [BitVec.toNat_or, BitVec.toNat_ofNat, Nat.mod_eq_of_lt (by omega), hw]
  exact (Nat.two_pow_add_eq_or_of_lt (i := 10) (by omega) g).symm

/-- A word is positive as a signed number. -/
private theorem toInt_pos_iff {w : Word} : 0 < w.toInt ↔ 0 < w.toNat ∧ w.toNat < 2147483648 := by
  have hlt := w.isLt
  rw [BitVec.toInt_eq_toNat_cond]
  split <;> omega

/-- Whatever the last identifier was, the next one is positive and carries the number of its slot. -/
theorem nextEnvId_eq (old : Word) (he : e < NENV) : ∃ g, 0 < g ∧ 1024 * g < 2147483648 ∧
    (nextEnvId old e).toNat = 1024 * g + e := by
  have hN : NENV = 1024 := rfl
  unfold nextEnvId
  simp only
  split
  · exact ⟨4, by omega, by omega, or_slot (by decide) (by omega)⟩
  · next hpos =>
    have hclear := and_not_mask10 (old + 1#32 <<< ENVGENSHIFT)
    obtain ⟨h₁, h₂⟩ := toInt_pos_iff.mp (Int.not_le.mp hpos)
    refine ⟨(old + 1#32 <<< ENVGENSHIFT).toNat / 1024, by omega, by omega,
      or_slot (by omega) (by omega)⟩

theorem nextEnvId_pos (old : Word) (he : e < NENV) : 0 < (nextEnvId old e).toInt := by
  obtain ⟨g, hg, hlt, heq⟩ := nextEnvId_eq old he
  have hN : NENV = 1024 := rfl
  rw [toInt_pos_iff]
  omega

/-- The slot can be read off an identifier. -/
theorem ENVX_nextEnvId (old : Word) (he : e < NENV) : ENVX (nextEnvId old e) = e := by
  obtain ⟨g, -, -, heq⟩ := nextEnvId_eq old he
  have hN : NENV = 1024 := rfl
  have h1023 : (1023#32 : Word).toNat = 2 ^ 10 - 1 := by decide
  rw [ENVX, BitVec.toNat_and, h1023, Nat.and_two_pow_sub_one_eq_mod, heq]
  omega

theorem nextEnvId_ne_zero (old : Word) (he : e < NENV) : nextEnvId old e ≠ 0#32 := by
  intro hz
  have := nextEnvId_pos old he
  rw [hz] at this
  exact absurd this (by decide)

/-- The generation goes up by one, from the last one back to the first. -/
theorem nextEnvId_toNat {g i : Nat} (hold : old.toNat = 4096 * g + i) (hg : g ≤ 524287) (hi : i < 1024)
    (he : e < NENV) :
    (nextEnvId old e).toNat = 4096 * (if g < 524287 then g + 1 else 1) + e := by
  have hN : NENV = 1024 := rfl
  have hadd : (old + 1#32 <<< ENVGENSHIFT).toNat = 4096 * (g + 1) + i := by
    have hshift : (1#32 <<< ENVGENSHIFT : Word).toNat = 4096 := by decide
    rw [BitVec.toNat_add, hshift, hold]
    omega
  have hclear : ((old + 1#32 <<< ENVGENSHIFT) &&& ~~~1023#32).toNat = 4096 * (g + 1) := by
    rw [and_not_mask10, hadd]
    omega
  unfold nextEnvId
  simp only
  by_cases hlast : g < 524287
  · have hpos : ¬ ((old + 1#32 <<< ENVGENSHIFT) &&& ~~~1023#32).toInt ≤ 0 := by
      rw [Int.not_le, toInt_pos_iff]
      omega
    rw [if_neg hpos, if_pos hlast, or_slot (g := 4 * (g + 1)) (by omega) (by omega)]
    omega
  · have hneg : ((old + 1#32 <<< ENVGENSHIFT) &&& ~~~1023#32).toInt ≤ 0 := by
      rw [← Int.not_lt, toInt_pos_iff]
      omega
    rw [if_pos hneg, if_neg hlast, or_slot (g := 4) (by decide) (by omega)]

/-- The identifier that the `n`th `env_alloc` of slot `e` makes. -/
def idAt (e : Nat) : Nat → Word
  | 0 => 0#32
  | n + 1 => nextEnvId (idAt e n) e

theorem idAt_toNat (he : e < NENV) (n : Nat) :
    (idAt e (n + 1)).toNat = 4096 * (n % 524287 + 1) + e := by
  have hN : NENV = 1024 := rfl
  induction n with
  | zero => exact nextEnvId_toNat (g := 0) (i := 0) rfl (by omega) (by omega) he
  | succ n ih =>
    rw [idAt, nextEnvId_toNat ih (by omega) (by omega) he]
    split <;> omega

/-- No identifier of a slot comes back within 524286 allocations. -/
theorem idAt_ne (he : e < NENV) {m n : Nat} (hmn : m < n) (hle : n - m ≤ 524286) :
    idAt e (n + 1) ≠ idAt e (m + 1) := by
  intro heq
  have := congrArg BitVec.toNat heq
  rw [idAt_toNat he, idAt_toNat he] at this
  omega

/-! ## Runs -/

/-- What happens to the table. -/
inductive TableEvent
  /-- `env_alloc` puts an environment with the identifier `id` into slot `e`. -/
  | alloc (e : Nat) (id : Word)
  /-- `env_free` of slot `e`. -/
  | free (e : Nat)

/-- The states after `env_init` and any calls of `env_alloc` and `env_free`, with the history, the latest event
first. In between the kernel may do anything that does not touch identifiers, links, page directory pointers and
which slots are free. -/
inductive TableRun : List TableEvent → Kernel → Prop
  | init {k : Kernel} : k.envFreeList = none → (∀ e, k.envs e = {}) → TableRun [] (envInit k)
  | alloc {h : List TableEvent} {k k' : Kernel} {pid : Word} {e : Nat} : TableRun h k →
      envAlloc k pid = .ok (.ok e, k') → TableRun (.alloc e (k'.envs e).envId :: h) k'
  | fail {h : List TableEvent} {k k' : Kernel} {pid : Word} {err : Int} : TableRun h k →
      envAlloc k pid = .ok (.error err, k') → TableRun h k'
  | free {h : List TableEvent} {k k' : Kernel} {c e : Nat} : TableRun h k →
      envFree k c e = .ok k' → TableRun (.free e :: h) k'
  | other {h : List TableEvent} {k k' : Kernel} : TableRun h k → SameLife k k' →
      (∀ e, (k'.envs e).envId = (k.envs e).envId) → TableRun h k'

/-- How often slot `e` has been allocated. -/
def allocs (e : Nat) (h : List TableEvent) : Nat :=
  h.countP fun
    | .alloc e' _ => e' = e
    | .free _ => false

theorem allocs_alloc (e e' : Nat) (id : Word) (h : List TableEvent) :
    allocs e (.alloc e' id :: h) = allocs e h + if e' = e then 1 else 0 := by
  simp [allocs, List.countP_cons]

theorem allocs_free (e e' : Nat) (h : List TableEvent) : allocs e (.free e' :: h) = allocs e h := by
  simp [allocs]

theorem allocs_append (e : Nat) (h h' : List TableEvent) :
    allocs e (h ++ h') = allocs e h + allocs e h' := List.countP_append ..

/-- The identifiers in the table and in the history are those of the counters. -/
structure IdsOk (h : List TableEvent) (k : Kernel) : Prop where
  table : TableOk k
  id : ∀ e, (k.envs e).envId = idAt e (allocs e h)
  lived : ∀ e, (k.envs e).envStatus ≠ .free → 0 < allocs e h
  issued : ∀ post e id pre, h = post ++ .alloc e id :: pre →
    e < NENV ∧ id = idAt e (allocs e pre + 1)
  freed : ∀ post e pre, h = post ++ .free e :: pre → allocs e post = 0 →
    (k.envs e).envStatus = .free

namespace IdsOk

variable {h : List TableEvent}

theorem init (hnone : k.envFreeList = none) (hzero : ∀ e, k.envs e = {}) : IdsOk [] (envInit k) where
  table := envInit_tableOk hnone (fun e => by rw [hzero]) fun e => by rw [hzero]
  id e := (envInit_inv hnone).id e (by rw [hzero])
  lived e he := absurd ((envInit_inv hnone).status e (by rw [hzero])) he
  issued post e id pre heq := by simp at heq
  freed post e pre heq := by simp at heq

theorem newEnv (hk : IdsOk h k) (hhead : k.envFreeList = some e) (d : Nat) (s : Pmap) (pid : Word) :
    IdsOk (.alloc e ((k.newEnv e d s pid).envs e).envId :: h) (k.newEnv e d s pid) := by
  have hnew : ((k.newEnv e d s pid).envs e).envId = idAt e (allocs e h + 1) := by
    rw [newEnv_envs_self, idAt, ← hk.id e]
  refine ⟨hk.table.newEnv hhead, fun i => ?_, fun i hi => ?_, ?_, ?_⟩
  · rw [allocs_alloc]
    by_cases hie : i = e
    · rw [hie, if_pos rfl, hnew]
    · rw [newEnv_envs_of_ne hie, if_neg (Ne.symm hie), hk.id i]
      rfl
  · rw [allocs_alloc]
    by_cases hie : i = e
    · rw [hie, if_pos rfl]
      omega
    · rw [newEnv_envs_of_ne hie] at hi
      have := hk.lived i hi
      omega
  · intro post i id pre heq
    cases post with
    | nil =>
      obtain ⟨hev, rfl⟩ := List.cons.inj heq
      obtain ⟨rfl, rfl⟩ := TableEvent.alloc.inj hev
      exact ⟨(hk.table.slots.head hhead).1, hnew⟩
    | cons ev post => exact hk.issued post i id pre (List.cons.inj heq).2
  · intro post i pre heq hpost
    cases post with
    | nil => exact nomatch (List.cons.inj heq).1
    | cons ev post =>
      obtain ⟨rfl, rfl⟩ := List.cons.inj heq
      rw [allocs_alloc] at hpost
      have hie : i ≠ e := by
        rintro rfl
        rw [if_pos rfl] at hpost
        omega
      rw [newEnv_envs_of_ne hie]
      exact hk.freed post i pre rfl (by omega)

theorem freeEnv (hk : IdsOk h k) (hpg : (k.envs e).envPgdir ≠ none) (c : Nat) (s : Pmap) :
    IdsOk (.free e :: h) (k.freeEnv c e s) := by
  have hstatus : ∀ i, ((k.freeEnv c e s).envs i).envStatus ≠ .free → i ≠ e := by
    rintro i hi rfl
    rw [freeEnv_envs_self] at hi
    exact hi rfl
  refine ⟨hk.table.freeEnv hpg, fun i => ?_, fun i hi => ?_, ?_, ?_⟩
  · rw [allocs_free]
    by_cases hie : i = e
    · rw [hie, freeEnv_envs_self]
      exact hk.id e
    · rw [freeEnv_envs_of_ne hie]
      exact hk.id i
  · rw [allocs_free]
    have hie := hstatus i hi
    rw [freeEnv_envs_of_ne hie] at hi
    exact hk.lived i hi
  · intro post i id pre heq
    cases post with
    | nil => exact nomatch (List.cons.inj heq).1
    | cons ev post => exact hk.issued post i id pre (List.cons.inj heq).2
  · intro post i pre heq hpost
    by_cases hie : i = e
    · rw [hie, freeEnv_envs_self]
    · rw [freeEnv_envs_of_ne hie]
      cases post with
      | nil => exact absurd (TableEvent.free.inj (List.cons.inj heq).1).symm hie
      | cons ev post =>
        obtain ⟨rfl, rfl⟩ := List.cons.inj heq
        rw [allocs_free] at hpost
        exact hk.freed post i pre rfl hpost

theorem other (hk : IdsOk h k) (hs : SameLife k k')
    (hid : ∀ e, (k'.envs e).envId = (k.envs e).envId) : IdsOk h k' where
  table := hk.table.congr hs
  id e := (hid e).trans (hk.id e)
  lived e he := hk.lived e (mt (hs.free e).mpr he)
  issued := hk.issued
  freed post e pre heq hpost := (hs.free e).mpr (hk.freed post e pre heq hpost)

end IdsOk

theorem TableRun.idsOk {h : List TableEvent} (hr : TableRun h k) : IdsOk h k := by
  induction hr with
  | init hnone hzero => exact .init hnone hzero
  | alloc _ hcode ih =>
    obtain ⟨e, d, s, hr, hhead, rfl⟩ | ⟨⟨err, hr⟩, -⟩ := envAlloc_ok hcode
    · obtain rfl := Except.ok.inj hr
      exact ih.newEnv hhead d s _
    · cases hr
  | fail _ hcode ih =>
    obtain ⟨e, d, s, hr, -⟩ | ⟨-, rfl⟩ := envAlloc_ok hcode
    · cases hr
    · exact ih
  | free _ hcode ih =>
    obtain ⟨hpg, s, rfl⟩ := envFree_ok hcode
    exact ih.freeEnv hpg _ s
  | other _ hs hid ih => exact ih.other hs hid

/-- The environments in the table have positive identifiers that carry the numbers of their slots. -/
theorem IdsOk.live_id {h : List TableEvent} (hk : IdsOk h k) (hst : (k.envs e).envStatus ≠ .free) :
    0 < (k.envs e).envId.toInt ∧ ENVX (k.envs e).envId = e := by
  have he := hk.table.lt e (mt (hk.table.life e).mpr hst)
  obtain ⟨n, hn⟩ := Nat.exists_eq_add_one_of_ne_zero (hk.lived e hst).ne'
  rw [hk.id e, hn, idAt]
  exact ⟨nextEnvId_pos _ he, ENVX_nextEnvId _ he⟩

/-- What the history and the table say about identifiers. The latest event comes first. -/
structure IdsDistinct (h : List TableEvent) (k : Kernel) : Prop where
  /-- Every identifier is positive and carries the number of its slot. -/
  issued : ∀ e id, .alloc e id ∈ h → 0 < id.toInt ∧ ENVX id = e
  /-- It is not the identifier of an environment in another slot. -/
  others : ∀ e id, .alloc e id ∈ h → ∀ e', e' ≠ e → (k.envs e').envStatus ≠ .free →
    (k.envs e').envId ≠ id
  /-- It is none of the last 524286 identifiers of its slot. -/
  fresh : ∀ post e id mid id' pre, h = post ++ .alloc e id :: (mid ++ .alloc e id' :: pre) →
    allocs e mid < 524286 → id ≠ id'
  /-- The identifier of a freed environment names nothing until its slot has been used 524287 times more. -/
  stale : ∀ post e mid id pre, h = post ++ .free e :: (mid ++ .alloc e id :: pre) → allocs e mid = 0 →
    allocs e post ≤ 524286 → ∀ cur checkperm, envid2env k cur id checkperm = none

/-- No identifier of slot `e` that was issued at most 524286 allocations ago is in use again. -/
theorem IdsOk.envid2env_stale {h post : List TableEvent} {mid pre : List TableEvent} {id : Word}
    (hk : IdsOk h k) (heq : h = post ++ .free e :: (mid ++ .alloc e id :: pre))
    (hmid : allocs e mid = 0) (hpost : allocs e post ≤ 524286) (cur : Nat) (checkperm : Bool) :
    envid2env k cur id checkperm = none := by
  obtain ⟨he, hid⟩ := hk.issued (post ++ .free e :: mid) e id pre
    (by rw [heq, List.append_assoc, List.cons_append])
  have hcount : allocs e h = allocs e pre + allocs e post + 1 := by
    rw [heq, allocs_append, allocs_free, allocs_append, allocs_alloc, if_pos rfl, hmid]
    omega
  have hgone : (k.envs e).envStatus = .free ∨ (k.envs e).envId ≠ id := by
    by_cases hzero : allocs e post = 0
    · exact Or.inl (hk.freed post e _ heq hzero)
    · right
      rw [hk.id e, hid, hcount]
      exact idAt_ne he (by omega) (by omega)
  unfold envid2env
  rw [hid, idAt, if_neg (nextEnvId_ne_zero _ he)]
  simp only [ENVX_nextEnvId _ he]
  rw [hid, idAt] at hgone
  rw [if_pos hgone]

/-- In every run of `env_alloc` and `env_free`, identifiers are never confused. -/
theorem tableRun_ids {h : List TableEvent} (hr : TableRun h k) : IdsDistinct h k := by
  have hk := hr.idsOk
  have hissued : ∀ e id, .alloc e id ∈ h → 0 < id.toInt ∧ ENVX id = e := by
    intro e id hmem
    obtain ⟨post, pre, heq⟩ := List.append_of_mem hmem
    obtain ⟨he, hid⟩ := hk.issued post e id pre heq
    rw [hid, idAt]
    exact ⟨nextEnvId_pos _ he, ENVX_nextEnvId _ he⟩
  refine ⟨hissued, ?_, ?_, ?_⟩
  · intro e id hmem e' hne hst heq
    have hslot := (hk.live_id hst).2
    rw [heq, (hissued e id hmem).2] at hslot
    exact hne hslot.symm
  · intro post e id mid id' pre heq hmid
    obtain ⟨he, hid⟩ := hk.issued post e id _ heq
    obtain ⟨-, hid'⟩ := hk.issued (post ++ .alloc e id :: mid) e id' pre
      (by rw [heq, List.append_assoc, List.cons_append])
    rw [allocs_append, allocs_alloc, if_pos rfl] at hid
    rw [hid, hid']
    exact idAt_ne he (by omega) (by omega)
  · exact fun post e mid id pre => hk.envid2env_stale

/-! ## The first environment runs -/

/-- CPU 0 of `demoSystem` starts environment 0. -/
structure FirstRun (R : Set Nat) (D : Finset Nat) (l : List Nat) (d : Nat) (k k₁ : Kernel) : Prop where
  run : envRun k 0 0 = .ok (.left k₁)
  inv : KernelInv R D l k₁
  cpu : k₁.cpus 0 = { mode := .user, cpuEnv := some 0, cr3 := d }
  status : (k₁.envs 0).envStatus = .running
  pgdir : (k₁.envs 0).envPgdir = some d

theorem DemoBooted.firstRun {R : Set Nat} {D : Finset Nat} {l : List Nat} {d d₁ : Nat} {k : Kernel}
    (h : DemoBooted R D l d d₁ k) : FirstRun R D l d k (k.runs 0 0) where
  run := envRun_eq h.pgdir₀
  inv := by
    have hlive : Live k 0 := ⟨by decide, by rw [h.started.status 0, if_pos (by omega)]; exact nofun⟩
    refine h.started.inv.runs hlive fun i hi => ?_
    rw [Kernel.curenv, h.started.cpus 0] at hi
    cases hi
  cpu := by
    rw [runs_cpus, if_pos rfl, h.pgdir₀]
    rfl
  status := by rw [runs_status, if_pos rfl]
  pgdir := by rw [(runs_sameEnv 0).pgdir, h.pgdir₀]

end Jos
