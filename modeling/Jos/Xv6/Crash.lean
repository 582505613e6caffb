import Jos.Xv6.LogSpec

/-!
# Transactions survive crashes

Every run of the log, with all its crashes and recoveries, shows the same as a run of the store of transactions
(`fs_refines`): file system calls see each other's writes, and of those that were open together a crash leaves all or
nothing, and all when `end_op` has returned from the commit.
-/

namespace Jos.Xv6

open Bcache FsState

variable {sb : Superblock} {σ σ' : FsState} {m m' : Txn.State (Fin NPROC) Nat Block} {p : Fin NPROC}
  {tr : List FsEvent} {l : List Nat} {disk stable : Nat → Block}

/-- The contents of the blocks after recovery: those that the header lists come from the log. -/
def recovered (sb : Superblock) (disk : Nat → Block) : Nat → Block := fun b =>
  let lh := readHead (disk sb.logstart)
  if b ∈ lh then disk (sb.logstart + lh.idxOf b + 1) else disk b

theorem onDisk_recovered (h : LhOk sb (readHead (disk sb.logstart))) :
    OnDisk sb disk (recovered sb disk) (readHead (disk sb.logstart)) where
  header := rfl
  ok := h
  log t b hb := by
    obtain ⟨ht, rfl⟩ := List.getElem?_eq_some_iff.mp hb
    rw [recovered, if_pos (List.getElem_mem ht), h.nodup.idxOf_getElem]
  home b _ hb := by rw [recovered, if_neg hb]

namespace LogInv

/-- At every moment the disk has the stable contents. -/
theorem onDisk (h : LogInv sb σ m) : ∃ l, OnDisk sb σ.disk m.stable l := by
  by_cases hall : ∀ p, σ.pc p = .user
  · exact ⟨[], h.idle hall⟩
  · push Not at hall
    obtain ⟨p, hp⟩ := hall
    have hphase := h.phase p
    have hheld := h.held p
    cases hpc : σ.pc p with rw [hpc] at hphase hheld
    | user => exact absurd hpc hp
    | writeLog | writeLogFrom | writeLogCopy | writeHead | writeHeadCopy => exact ⟨[], Filling.disk hphase⟩
    | install | installDst | installCopy => exact ⟨_, Installing.disk hphase⟩
    | clearHead | clearHeadCopy => exact Installed.disk hphase
    | done => exact ⟨[], hphase.2⟩
    | readHead | readHeadCopy => exact Recovering.disk hphase
    | brelse _ k =>
      cases k with
      | writeLog => exact ⟨[], Filling.disk hphase⟩
      | install => exact ⟨_, Installing.disk hphase⟩
      | done => exact ⟨[], hphase.2⟩
      | _ => exact hheld.1.elim

/-- After a crash recovery begins with the stable contents. -/
theorem restart (h : OnDisk sb disk stable l) : LogInv sb (FsState.restart disk) (.after stable) := by
  have hpc : ∀ p, (FsState.restart disk).pc p = if p = 0 then .readHead else .user :=
    fun p => Function.update_apply (fun _ => LogPc.user) 0 .readHead p
  have hzero : ∀ p, (FsState.restart disk).pc p ≠ .user → p = 0 := by
    intro p hp
    by_contra hne
    exact hp (by rw [hpc, if_neg hne])
  refine ⟨binit_inv disk, fun hup => (by cases hup), fun i hd => (by cases hd), .nil sb,
    fun p => iff_of_false not_false Bool.false_ne_true, ?_, fun _ _ => rfl, fun hc => (by cases hc),
    fun _ _ => Or.inr rfl, fun p q hp hq => (hzero p hp).trans (hzero q hq).symm, fun hall => ?_, fun p => ?_,
    fun p => ?_, fun p i hi => by cases hi⟩
  · show 0 = (openOps fun _ => none).card
    rw [eq_comm, Finset.card_eq_zero, openOps, Finset.filter_eq_empty_iff]
    exact fun _ _ => Bool.false_ne_true
  · have hhead := hall 0
    rw [hpc, if_pos rfl] at hhead
    cases hhead
  · rw [hpc]
    split
    · exact ⟨⟨l, h⟩, rfl, rfl⟩
    · trivial
  · rw [hpc]
    split <;> trivial

/-! ## All steps -/

/-- The file system reads what is current. -/
theorem data_current (h : LogInv sb σ m) {i : Fin NBUF} (hup : σ.up = true) (hlock : (σ.bcache.buf i).lock = some p)
    (hdata : sb.IsData (σ.bcache.buf i).blockno) : (σ.bcache.buf i).data = m.current (σ.bcache.buf i).blockno :=
  (h.shows hup _ hdata).cached i ⟨h.cache.dev_of_lock hlock, rfl⟩ (h.cache.valid_of_lock hlock)

theorem active_of_op (h : LogInv sb σ m) {bs : Finset Nat} (hop : σ.op p = some bs) : m.active p :=
  (h.active p).mpr (by rw [hop]; rfl)

/-- Each step of the log is a few of the store, or none. -/
theorem step (h : LogInv sb σ m) (hs : LogStep sb σ tr σ') : ∃ m', LogInv sb σ' m' ∧ Txn.Run m tr m' := by
  cases hs with
  | bget hgot _ hask hb => exact ⟨m, h.step_bget hgot hask hb, .start⟩
  | breadLock hgot hlock => exact ⟨m, h.step_breadLock hgot hlock, .start⟩
  | @read p i hp hlock hdata =>
    rw [h.data_current hp.up hlock hdata]
    exact ⟨m, h, .single (.read p _)⟩
  | brelse hp hlock => exact ⟨m, h.step_brelse hp.pc hlock, .start⟩
  | beginOp hp hop ha =>
    refine ⟨_, h.step_beginOp hp hop ha, .single (.begin fun hc => ?_)⟩
    rw [h.active, hop] at hc
    exact Bool.false_ne_true hc
  | logWrite d hp hlock hop hdata hbig =>
    exact ⟨_, h.step_logWrite hp hlock hop hdata hbig d, .single (.write _ d (h.active_of_op hop))⟩
  | @endOp p bs hp hop hc =>
    refine ⟨_, h.step_endOp hp hop, ?_⟩
    have hfinish := Txn.Run.single (Txn.Step.finish (h.active_of_op hop))
    unfold endOpStore
    split
    · -- there is nothing to commit
      next hlast =>
      show Txn.Run m ([.finish p] ++ []) _
      refine hfinish.step (.commit fun q => ?_)
      have hq := h.isSome_update p none (iff_of_false not_false Bool.false_ne_true) q
      rw [h.op_none_of_last hop hlast.1 q] at hq
      exact fun hc => Bool.false_ne_true (hq.mp hc)
    · exact hfinish
  | writeLogEnd hp ht hgot => exact ⟨m, h.step_writeLogEnd hp ht hgot, .start⟩
  | writeLog hp => exact ⟨m, h.step_writeLog hp, .start⟩
  | @writeHead p _ hp =>
    have hne : σ.pc p ≠ .user := by
      rw [hp]
      rintro ⟨⟩
    exact ⟨_, h.step_writeHead hp, .single (.commit (h.no_active hne))⟩
  | installEnd hp ht hgot => exact ⟨m, h.step_installEnd hp ht hgot, .start⟩
  | install hp => exact ⟨m, h.step_install hp, .start⟩
  | clearHead hp => exact ⟨m, h.step_clearHead hp, .start⟩
  | readHead hp => exact ⟨m, h.step_readHead hp, .start⟩
  | brelseNext hp => exact ⟨m, h.step_brelseNext hp, .start⟩
  | brelseEnd hp => exact ⟨m, h.step_brelseEnd hp, .start⟩
  | @committed p hp hup =>
    obtain ⟨⟨hinst, -⟩, -⟩ := h.at_point hp
    have hσ : { σ with log := { σ.log with committing := false } }
        = { σ with log := { σ.log with committing := false }, up := true } :=
      congrArg (fun u => { σ with log := { σ.log with committing := false }, up := u }) hup
    rw [hσ]
    exact ⟨m, h.step_done hp, .single (.durable p hinst.same)⟩
  | @recovered p hp hup =>
    have hcommitting : σ.log.committing = false := by
      by_contra hc
      rw [h.committing (Bool.not_eq_false _ ▸ hc)] at hup
      cases hup
    have hσ : { σ with up := true } = { σ with log := { σ.log with committing := false }, up := true } :=
      congrArg (fun c => { σ with log := { σ.log with committing := c }, up := true }) hcommitting
    rw [hσ]
    exact ⟨m, h.step_done hp, .start⟩
  | crash =>
    obtain ⟨l, hl⟩ := h.onDisk
    exact ⟨_, .restart hl, .single .crash⟩

end LogInv

/-- A run of the log from a disk that has a header shows what the store does with the contents that recovery finds. -/
theorem LogInv.run (hlh : LhOk sb (readHead (disk sb.logstart))) (h : LogRun sb disk tr σ) :
    ∃ m, LogInv sb σ m ∧ Txn.Run (.after (recovered sb disk)) tr m := by
  induction h with
  | start => exact ⟨_, .restart (onDisk_recovered hlh), .start⟩
  | step _ hs ih =>
    obtain ⟨m, hinv, hrun⟩ := ih
    obtain ⟨m', hinv', hrun'⟩ := hinv.step hs
    exact ⟨m', hinv', hrun.trans hrun'⟩

/-- The log is a store of transactions that survive crashes: whatever processes do in whatever order, and wherever
it crashes, a run shows what a run of the store does. -/
theorem fs_refines (hlh : LhOk sb (readHead (disk sb.logstart))) (h : LogRun sb disk tr σ) :
    ∃ m, Txn.Run (.after (recovered sb disk)) tr m := by
  obtain ⟨m, -, hrun⟩ := LogInv.run hlh h
  exact ⟨m, hrun⟩

/-! ## An example -/

namespace DemoLog

/-- A disk of zeroes. -/
def zeroDisk : Nat → Block := fun _ _ => 0#32

theorem lhOk : LhOk mkfsSb (readHead (zeroDisk mkfsSb.logstart)) := .nil mkfsSb

/-- Process 0 gets the header block in buffer 0. -/
theorem bread {σ : FsState} {tr : List FsEvent} (h : SmallRun mkfsSb zeroDisk tr σ) {s : Bcache}
    (hgot : σ.got 0 = none) (hpc : σ.pc 0 ≠ .user) (hask : Asks mkfsSb σ.log.lh (σ.pc 0) 2)
    (hb : σ.bcache.bget 2 = some (0, s)) (hlock : (s.buf 0).lock = none) :
    SmallRun mkfsSb zeroDisk tr ({ FsState.setBuf
      { σ with bcache := s, got := Function.update σ.got 0 (some 0) } 0 (breadLock σ.disk 0 (s.buf 0)) with
        got := Function.update (Function.update σ.got 0 (some 0)) 0 none }.goto 0 ((σ.pc 0).next 0)) :=
  (h.quiet (.bget hgot (fun hc => absurd hc hpc) hask hb) rfl).quiet (.breadLock (p := 0) (i := 0) rfl hlock) rfl

/-- It reads the header, in which there is nothing, -/
theorem exists_readHead : ∃ σ, SmallRun mkfsSb zeroDisk [] σ ∧ σ.pc 0 = .install 0 ∧ σ.pc 1 = .user ∧
    σ.log.outstanding = 0 ∧ σ.log.committing = false ∧ σ.log.lh = [] ∧ σ.got = (fun _ => none) ∧
    σ.op = (fun _ => none) ∧ σ.up = false ∧ ∃ s, σ.bcache.bget 2 = some (0, s) ∧ (s.buf 0).lock = none := by
  have hread := bread SmallRun.start rfl (by rintro ⟨⟩) rfl rfl rfl
  have hhead := ((hread.quiet (.readHead (p := 0) (i := 0) rfl) rfl).quiet
    (.brelseNext (p := 0) (i := 0) rfl) rfl).quiet (.brelseEnd (p := 0) rfl) rfl
  have hgot : Function.update (Function.update (restart zeroDisk).got 0 (some 0)) 0 none = fun _ => none := by
    rw [Function.update_idem]
    exact Function.update_eq_self 0 _
  exact ⟨_, hhead, rfl, rfl, rfl, rfl, rfl, hgot, rfl, rfl, _, rfl, rfl⟩

/-- and erases it, -/
theorem exists_recovered : ∃ σ, SmallRun mkfsSb zeroDisk [] σ ∧ σ.Runs 1 ∧ σ.op 1 = none ∧ σ.Admits := by
  obtain ⟨σ, hrun, hpc, hpc₁, hout, hcommitting, hlh, hgot, hop, hup, s, hb, hlock⟩ := exists_readHead
  have hinstall := hrun.quiet (@LogStep.installEnd mkfsSb σ 0 0 hpc (by rw [hlh]; exact Nat.lt_irrefl 0)
    (by rw [hgot])) rfl
  have hclear := bread hinstall (congrFun hgot 0) (by rintro ⟨⟩) rfl hb hlock
  have hdone := ((hclear.quiet (.clearHead (p := 0) (i := 0) rfl) rfl).quiet
    (.brelseNext (p := 0) (i := 0) rfl) rfl).quiet (.brelseEnd (p := 0) rfl) rfl
  refine ⟨_, hdone.quiet (.recovered (p := 0) rfl hup) rfl, ⟨hpc₁, congrFun hgot 1, rfl⟩, congrFun hop 1,
    hcommitting, ?_⟩
  show 0 + (σ.log.outstanding + 1) * MAXOPBLOCKS ≤ LOGSIZE
  rw [hout]
  decide

/-- and another process begins a file system call. -/
theorem exists_beginOp : ∃ σ, SmallRun mkfsSb zeroDisk [.begin 1] σ ∧ σ.op 1 = some ∅ := by
  obtain ⟨σ, hrun, hruns, hop, hadmits⟩ := exists_recovered
  have hop' : ∀ p, (σ.beginOp 1).op p = if p = 1 then some ∅ else σ.op p := fun p => Function.update_apply ..
  refine ⟨σ.beginOp 1, hrun.step (.beginOp hruns hop hadmits) fun p bs hp => ?_, hop' 1⟩
  rw [hop'] at hp
  split at hp
  · obtain rfl := Option.some.inj hp
    exact Nat.zero_le _
  · exact hrun.opsSmall p bs hp

end DemoLog

theorem fs_refines_demoLog :
    ∃ m, Txn.Run (.after (recovered mkfsSb DemoLog.zeroDisk)) [(.begin 1 : FsEvent)] m := by
  obtain ⟨σ, hrun, -⟩ := DemoLog.exists_beginOp
  exact fs_refines DemoLog.lhOk hrun.logRun

/-! ## The buffer cache -/

/-- In every state that the system gets to no block has two buffers, a buffer that is not dirty has what the disk has,
the reference counts are right, and what the cache may not throw away is what the log has on its list. -/
theorem bcache_coherent (hlh : LhOk sb (readHead (disk sb.logstart))) (h : LogRun sb disk tr σ) :
    σ.bcache.Inv σ.disk σ.got ∧ ∀ i, (σ.bcache.buf i).dirty = true → (σ.bcache.buf i).blockno ∈ σ.log.lh := by
  obtain ⟨m, hinv, -⟩ := LogInv.run hlh h
  exact ⟨hinv.cache, hinv.dirty⟩

theorem bcache_coherent_demoLog : ∃ σ : FsState, σ.op 1 = some ∅ ∧ σ.bcache.Inv σ.disk σ.got := by
  obtain ⟨σ, hrun, hop⟩ := DemoLog.exists_beginOp
  exact ⟨σ, hop, (bcache_coherent DemoLog.lhOk hrun.logRun).1⟩

end Jos.Xv6
