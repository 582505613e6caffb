import Jos.Xv6.Pipe

/-!
# A pipe is a bounded stream

Every run of a pipe shows a run of the stream (`pipe_refines`). Its page is freed when nobody can use it any more, and
once (`pipe_freed`). Processes sleep only as long as there is nothing to do (`pipe_wakes`), unless `pipewrite` returns
early because its process is killed: that path does not call `wakeup` (`pipe_loses_wakeup`).
-/

namespace Jos.Xv6

open PipeState BoundedStream

variable {σ σ' : PipeState} {s s' : BoundedStream.State (BitVec 8)} {p q : Fin NPROC} {e : Bool} {c : PipeChan}
  {pc pc' : PipePc} {tr tr' : List PipeEvent} {l : List (BitVec 8)}

/-! ## Points -/

namespace PipePc

/-- The process has the lock. -/
def Locked : PipePc → Prop
  | .writing .. | .writeSleep .. | .readWait _ | .readSleep _ | .readCopy .. => True
  | _ => False

/-- The process is in `pipeclose`. -/
def Closes : PipePc → Prop
  | .closing _ | .kfree => True
  | _ => False

/-- The side whose descriptor the process has passed. -/
def side : PipePc → Option Bool
  | .writeLock .. | .writing .. | .writeSleep .. => some true
  | .readLock _ | .readWait _ | .readSleep _ | .readCopy .. => some false
  | _ => none

/-- Where a process may sleep. -/
def SleepsOn : PipeChan → PipePc → Prop
  | .nread, .readLock _ | .nwrite, .writeLock .. => True
  | _, _ => False

/-- The process will call `wakeup` before it releases the lock, unless it is killed. -/
def Wakes : PipeChan → PipePc → Prop
  | .nread, .writing .. | .nwrite, .readCopy .. => True
  | _, _ => False

end PipePc

/-- What processes on a channel wait to change. -/
def Waits (s : BoundedStream.State (BitVec 8)) : PipeChan → Prop
  | .nread => s.queue = [] ∧ s.isOpen true = true
  | .nwrite => s.queue.length = PIPESIZE ∧ s.isOpen false = true

/-- What holds at a point. -/
def PipeAt (σ : PipeState) (s : BoundedStream.State (BitVec 8)) : PipePc → Prop
  | .readSleep _ => Waits s .nread
  | .writeSleep .. => Waits s .nwrite
  | .readCopy _ i => i = 0 → s.queue = [] → s.isOpen true = false
  | .closing e => σ.ref e = 0 ∧ σ.isOpen e = true
  | .kfree => σ.freed = false ∧ ∀ e, σ.isOpen e = false
  | _ => True

/-! ## The invariant -/

/-- The pipe stores the stream `s`. The lock is with the process that is in a critical section, a side is open as long
as there are descriptors for it or a process is about to close it, and the page is there as long as a side is open. -/
structure PipeInv (σ : PipeState) (s : BoundedStream.State (BitVec 8)) : Prop where
  holds : σ.pipe.Holds s.queue
  isOpen : s.isOpen = σ.isOpen
  lock : ∀ p, (σ.pc p).Locked ↔ σ.lock = some p
  ref : ∀ e, σ.ref e = refCount Finset.univ σ.ofile e
  named : ∀ p e, (σ.pc p).side = some e → ∃ fd, σ.ofile (p, fd) = some e
  isOpen_of_ref : ∀ e, 0 < σ.ref e → σ.isOpen e = true
  at_pc : ∀ p, PipeAt σ s (σ.pc p)
  closing_one : ∀ p q e, σ.pc p = .closing e → σ.pc q = .closing e → p = q
  kfree_one : ∀ p q, σ.pc p = .kfree → σ.pc q = .kfree → p = q
  freed : σ.freed = true → ∀ e, σ.isOpen e = false
  closer : ∀ e, σ.isOpen e = true → 0 < σ.ref e ∨ ∃ p, σ.pc p = .closing e
  freer : (∀ e, σ.isOpen e = false) → σ.freed = true ∨ ∃ p, σ.pc p = .kfree

/-- Only the points with the lock depend on the stream. -/
theorem PipeAt.congr (hs : ¬ pc.Locked) (h : PipeAt σ s pc) : PipeAt σ s' pc := by
  cases pc with
  | writing | writeSleep | readWait | readSleep | readCopy => exact absurd trivial hs
  | user | writeLock | readLock => trivial
  | closing | kfree => exact h

/-- Points outside of `pipeclose` do not depend on the state. -/
theorem PipeAt.of_not_closes (hpc : ¬ pc.Closes) (h : PipeAt σ s pc) : PipeAt σ' s pc := by
  cases pc with
  | closing | kfree => exact absurd trivial hpc
  | _ => exact h

namespace PipeInv

theorem ref_pos (h : PipeInv σ s) {x : Fin NPROC × Fin NOFILE} (hx : σ.ofile x = some e) : 0 < σ.ref e := by
  have hpos := refCount_pos (Finset.mem_univ x) hx
  rwa [← h.ref] at hpos

/-- A side is open while a process is in `pipewrite` or `piperead` on it. -/
theorem isOpen_of_side (h : PipeInv σ s) (hp : (σ.pc p).side = some e) : σ.isOpen e = true := by
  obtain ⟨fd, hfd⟩ := h.named p e hp
  exact h.isOpen_of_ref e (h.ref_pos hfd)

/-- A step of `pipewrite` or `piperead`, which needs the lock to change the stream. -/
theorem pipeStep (h : PipeInv σ s) {pipe : CountingRing (BitVec 8) PIPESIZE 32} {lock : Option (Fin NPROC)}
    (chan : Fin NPROC → Option PipeChan) (hp : ¬ (σ.pc p).Closes) (hpc : ¬ pc.Closes) (hholds : pipe.Holds l)
    (hqueue : l = s.queue ∨ σ.lock = some p) (hlock : pc.Locked ↔ lock = some p)
    (hother : ∀ q, q ≠ p → (lock = some q ↔ σ.lock = some q))
    (hside : ∀ e, pc.side = some e → ∃ fd, σ.ofile (p, fd) = some e)
    (hat : PipeAt σ { s with queue := l } pc) :
    PipeInv ({ σ with pipe := pipe, lock := lock, chan := chan }.goto p pc) { s with queue := l } := by
  have hself : Function.update σ.pc p pc p = pc := Function.update_self ..
  have hne : ∀ q, q ≠ p → Function.update σ.pc p pc q = σ.pc q := fun q hq => Function.update_of_ne hq ..
  have hcloses : ∀ q x, x.Closes → (Function.update σ.pc p pc q = x ↔ σ.pc q = x) := by
    intro q x hx
    by_cases hq : q = p
    · subst hq
      rw [hself]
      exact iff_of_false (by rintro rfl; exact hpc hx) (by rintro rfl; exact hp hx)
    · rw [hne q hq]
  have hclosing : ∀ q e, Function.update σ.pc p pc q = .closing e ↔ σ.pc q = .closing e :=
    fun q e => hcloses q (.closing e) trivial
  have hkfree : ∀ q, Function.update σ.pc p pc q = .kfree ↔ σ.pc q = .kfree := fun q => hcloses q .kfree trivial
  refine ⟨hholds, h.isOpen, fun q => ?_, h.ref, fun q e hq => ?_, h.isOpen_of_ref, fun q => ?_,
    fun q q' e hq hq' => ?_, fun q q' hq hq' => ?_, h.freed, fun e he => ?_, fun hall => ?_⟩
  · show (Function.update σ.pc p pc q).Locked ↔ lock = some q
    by_cases hq : q = p
    · rw [hq, hself]
      exact hlock
    · rw [hne q hq, hother q hq]
      exact h.lock q
  · have hq' : (Function.update σ.pc p pc q).side = some e := hq
    by_cases hqp : q = p
    · subst hqp
      rw [hself] at hq'
      exact hside e hq'
    · rw [hne q hqp] at hq'
      exact h.named q e hq'
  · show PipeAt _ _ (Function.update σ.pc p pc q)
    by_cases hq : q = p
    · rw [hq, hself]
      exact hat.of_not_closes hpc
    · rw [hne q hq]
      rcases hqueue with rfl | hmine
      · exact h.at_pc q
      · refine PipeAt.congr (fun hl => hq ?_) (h.at_pc q)
        exact Option.some.inj (((h.lock q).mp hl).symm.trans hmine)
  · exact h.closing_one q q' e ((hclosing q e).mp hq) ((hclosing q' e).mp hq')
  · exact h.kfree_one q q' ((hkfree q).mp hq) ((hkfree q').mp hq')
  · exact (h.closer e he).imp_right fun ⟨q, hq⟩ => ⟨q, (hclosing q e).mpr hq⟩
  · exact (h.freer hall).imp_right fun ⟨q, hq⟩ => ⟨q, (hkfree q).mpr hq⟩

/-- A step with the lock. -/
theorem lockedStep (h : PipeInv σ s) {pipe : CountingRing (BitVec 8) PIPESIZE 32} (chan : Fin NPROC → Option PipeChan)
    (hp : (σ.pc p).Locked) (hclose : ¬ (σ.pc p).Closes) (hlocked : pc.Locked) (hpc : ¬ pc.Closes)
    (hside : pc.side = (σ.pc p).side) (hholds : pipe.Holds l) (hat : PipeAt σ { s with queue := l } pc) :
    PipeInv ({ σ with pipe := pipe, chan := chan }.goto p pc) { s with queue := l } := by
  have hmine := (h.lock p).mp hp
  exact h.pipeStep chan hclose hpc hholds (Or.inr hmine) (iff_of_true hlocked hmine) (fun _ _ => Iff.rfl)
    (fun e he => h.named p e (hside ▸ he)) hat

/-- The process with the lock releases it. -/
theorem releaseStep (h : PipeInv σ s) (chan : Fin NPROC → Option PipeChan) (hp : (σ.pc p).Locked)
    (hclose : ¬ (σ.pc p).Closes) (hlocked : ¬ pc.Locked) (hpc : ¬ pc.Closes)
    (hside : ∀ e, pc.side = some e → (σ.pc p).side = some e) (hat : PipeAt σ s pc) :
    PipeInv ({ σ with lock := none, chan := chan }.goto p pc) s := by
  have hmine := (h.lock p).mp hp
  refine h.pipeStep chan hclose hpc h.holds (Or.inl rfl) (iff_of_false hlocked (by rintro ⟨⟩)) (fun q hq => ?_)
    (fun e he => h.named p e (hside e he)) hat
  refine iff_of_false (by rintro ⟨⟩) fun hc => hq ?_
  exact Option.some.inj (hc.symm.trans hmine)

end PipeInv

/-- A step shows nothing, or a step of the stream. -/
def Shown (s : BoundedStream.State (BitVec 8)) (tr : List PipeEvent) (s' : BoundedStream.State (BitVec 8)) : Prop :=
  (tr = [] ∧ s' = s) ∨ ∃ x, tr = [x] ∧ BoundedStream.Step PIPESIZE s x s'

namespace PipeInv

theorem step_user (h : PipeInv σ s) (hp : σ.pc p = .user) {fd : Fin NOFILE} (hfd : σ.ofile (p, fd) = some e)
    (hside : pc.side = some e) (hlocked : ¬ pc.Locked) (hpc : ¬ pc.Closes) (hat : PipeAt σ s pc) :
    PipeInv (σ.goto p pc) s := by
  have hclose : ¬ (σ.pc p).Closes := by
    rw [hp]
    exact id
  have hfree : ¬ σ.lock = some p := by
    rw [← h.lock p, hp]
    exact id
  refine h.pipeStep σ.chan hclose hpc h.holds (Or.inl rfl) (iff_of_false hlocked hfree) (fun _ _ => Iff.rfl)
    (fun e' he' => ?_) hat
  obtain rfl := Option.some.inj (hside.symm.trans he')
  exact ⟨fd, hfd⟩

theorem step_lock (h : PipeInv σ s) (hp : ¬ (σ.pc p).Closes) (hfree : σ.lock = none) (hlocked : pc.Locked)
    (hpc : ¬ pc.Closes) (hside : pc.side = (σ.pc p).side) (hat : PipeAt σ s pc) :
    PipeInv ({ σ with lock := some p }.goto p pc) s := by
  refine h.pipeStep σ.chan hp hpc h.holds (Or.inl rfl) (iff_of_true hlocked rfl) (fun q hq => ?_)
    (fun e he => h.named p e (hside ▸ he)) hat
  rw [hfree]
  exact iff_of_false (fun hc => hq (Option.some.inj hc).symm) (by rintro ⟨⟩)

/-- `dup` gives a side one more descriptor. -/
theorem step_dup (h : PipeInv σ s) {x y : Fin NPROC × Fin NOFILE} (hx : σ.ofile x = some e) (hy : σ.ofile y = none) :
    PipeInv (σ.dup y e) s := by
  have hpos := h.ref_pos hx
  have hopen := h.isOpen_of_ref e hpos
  have href : ∀ e', (σ.dup y e).ref e' = if e' = e then σ.ref e + 1 else σ.ref e' :=
    fun e' => Function.update_apply ..
  have hofile : ∀ z, (σ.dup y e).ofile z = if z = y then some e else σ.ofile z := fun z => Function.update_apply ..
  refine ⟨h.holds, h.isOpen, h.lock, fun e' => ?_, fun p e' hp => ?_, fun e' he' => ?_, fun p => ?_, h.closing_one,
    h.kfree_one, h.freed, fun e' he' => ?_, h.freer⟩
  · have hcount := refCount_update (f := σ.ofile) (a := e') (Finset.mem_univ y) (some e)
    rw [hy, if_neg (by rintro ⟨⟩), Nat.add_zero, ← h.ref e'] at hcount
    rw [href]
    refine Eq.trans ?_ hcount.symm
    by_cases he : e' = e
    · rw [if_pos he, if_pos (he ▸ rfl), he]
    · rw [if_neg he, if_neg fun hc => he (Option.some.inj hc).symm, Nat.add_zero]
  · obtain ⟨fd, hfd⟩ := h.named p e' hp
    refine ⟨fd, ?_⟩
    rw [hofile, if_neg]
    · exact hfd
    · rintro rfl
      rw [hy] at hfd
      cases hfd
  · rw [href] at he'
    split at he'
    · next hee => exact hee ▸ hopen
    · exact h.isOpen_of_ref e' he'
  · have hat := h.at_pc p
    show PipeAt _ s (σ.pc p)
    cases hpc : σ.pc p with rw [hpc] at hat
    | closing e' =>
      refine ⟨?_, hat.2⟩
      rw [href, if_neg, hat.1]
      rintro rfl
      rw [hat.1] at hpos
      exact Nat.lt_irrefl 0 hpos
    | _ => exact hat
  · rcases h.closer e' he' with hr | hc
    · refine Or.inl ?_
      rw [href]
      split
      · exact Nat.succ_pos _
      · exact hr
    · exact Or.inr hc

/-- `fileclose` takes one away, and the last one leaves it to its process to close the side. -/
theorem step_close (h : PipeInv σ s) (hp : σ.pc p = .user) {fd : Fin NOFILE} (hfd : σ.ofile (p, fd) = some e) :
    PipeInv ((σ.close (p, fd) e).goto p (if σ.ref e - 1 > 0 then .user else .closing e)) s := by
  have hpos := h.ref_pos hfd
  have hopen := h.isOpen_of_ref e hpos
  have hpc : ∀ q, ((σ.close (p, fd) e).goto p (if σ.ref e - 1 > 0 then .user else .closing e)).pc q
      = if q = p then (if σ.ref e - 1 > 0 then .user else .closing e) else σ.pc q := fun q => Function.update_apply ..
  have href : ∀ e', ((σ.close (p, fd) e).goto p (if σ.ref e - 1 > 0 then .user else .closing e)).ref e'
      = if e' = e then σ.ref e - 1 else σ.ref e' := fun e' => Function.update_apply ..
  have hofile : ∀ z, z ≠ (p, fd) → Function.update σ.ofile (p, fd) none z = σ.ofile z :=
    fun z hz => Function.update_of_ne hz ..
  have hself : ¬ (if σ.ref e - 1 > 0 then PipePc.user else .closing e).Locked ∧
      (if σ.ref e - 1 > 0 then PipePc.user else .closing e).side = none ∧
      (if σ.ref e - 1 > 0 then PipePc.user else .closing e) ≠ .kfree := by
    split
    · exact ⟨id, rfl, by rintro ⟨⟩⟩
    · exact ⟨id, rfl, by rintro ⟨⟩⟩
  -- nobody else is about to close this side, as there was a descriptor
  have hnone : ∀ q, σ.pc q ≠ .closing e := by
    intro q hq
    have hat := h.at_pc q
    rw [hq] at hat
    rw [hat.1] at hpos
    exact Nat.lt_irrefl 0 hpos
  have hclosing : ∀ q e', ((σ.close (p, fd) e).goto p (if σ.ref e - 1 > 0 then .user else .closing e)).pc q
      = .closing e' → (q = p ∧ e' = e ∧ σ.ref e - 1 = 0) ∨ (q ≠ p ∧ σ.pc q = .closing e') := by
    intro q e' hq
    rw [hpc] at hq
    split at hq
    · next hqp =>
      split at hq
      · cases hq
      · exact Or.inl ⟨hqp, (PipePc.closing.inj hq).symm, by omega⟩
    · next hqp => exact Or.inr ⟨hqp, hq⟩
  refine ⟨h.holds, h.isOpen, fun q => ?_, fun e' => ?_, fun q e' hq => ?_, fun e' he' => ?_, fun q => ?_,
    fun q q' e' hq hq' => ?_, fun q q' hq hq' => ?_, h.freed, fun e' he' => ?_, fun hall => ?_⟩
  · rw [hpc]
    split
    · next hqp =>
      refine iff_of_false hself.1 fun hc => ?_
      rw [hqp] at hc
      have hl := (h.lock p).mpr hc
      rw [hp] at hl
      exact hl
    · exact h.lock q
  · have hcount := refCount_update (f := σ.ofile) (a := e') (Finset.mem_univ (p, fd)) none
    rw [hfd, if_neg (c := none = some e') (by rintro ⟨⟩), Nat.add_zero, ← h.ref e'] at hcount
    rw [href]
    show _ = refCount Finset.univ (Function.update σ.ofile (p, fd) none) e'
    by_cases he : e' = e
    · rw [if_pos (he ▸ rfl)] at hcount
      rw [if_pos he, ← he]
      omega
    · rw [if_neg fun hc => he (Option.some.inj hc).symm] at hcount
      rw [if_neg he]
      omega
  · rw [hpc] at hq
    split at hq
    · rw [hself.2.1] at hq
      cases hq
    · next hqp =>
      obtain ⟨fd', hfd'⟩ := h.named q e' hq
      exact ⟨fd', (hofile (q, fd') fun hc => hqp (Prod.mk.inj hc).1).trans hfd'⟩
  · rw [href] at he'
    split at he'
    · next hee => exact hee ▸ hopen
    · exact h.isOpen_of_ref e' he'
  · rw [hpc]
    by_cases hqp : q = p
    · rw [if_pos hqp]
      split
      · trivial
      · refine ⟨?_, hopen⟩
        show Function.update σ.ref e (σ.ref e - 1) e = 0
        rw [Function.update_self]
        omega
    · rw [if_neg hqp]
      have hat := h.at_pc q
      cases hq : σ.pc q with rw [hq] at hat
      | closing e' =>
        refine ⟨?_, hat.2⟩
        rw [href, if_neg, hat.1]
        rintro rfl
        exact hnone q hq
      | _ => exact hat
  · rcases hclosing q e' hq with ⟨hqp, he, -⟩ | ⟨-, hold⟩ <;>
      rcases hclosing q' e' hq' with ⟨hqp', he', -⟩ | ⟨-, hold'⟩
    · rw [hqp, hqp']
    · exact absurd (he ▸ hold') (hnone q')
    · exact absurd (he' ▸ hold) (hnone q)
    · exact h.closing_one q q' e' hold hold'
  · rw [hpc] at hq hq'
    split at hq
    · exact absurd hq hself.2.2
    · split at hq'
      · exact absurd hq' hself.2.2
      · exact h.kfree_one q q' hq hq'
  · by_cases he : e' = e
    · by_cases hlast : σ.ref e - 1 > 0
      · refine Or.inl ?_
        rw [href, if_pos he]
        exact hlast
      · refine Or.inr ⟨p, ?_⟩
        rw [hpc, if_pos rfl, if_neg hlast, he]
    · rw [href, if_neg he]
      refine (h.closer e' he').imp_right fun ⟨q, hq⟩ => ⟨q, ?_⟩
      rw [hpc, if_neg]
      · exact hq
      · rintro rfl
        rw [hp] at hq
        cases hq
  · refine (h.freer hall).imp_right fun ⟨q, hq⟩ => ⟨q, ?_⟩
    rw [hpc, if_neg]
    · exact hq
    · rintro rfl
      rw [hp] at hq
      cases hq

/-- A side is closed. -/
theorem step_pipeclose (h : PipeInv σ s) (hp : σ.pc p = .closing e) (hfree : σ.lock = none) :
    PipeInv ((σ.pipeclose e).goto p (if σ.isOpen (!e) = true then .user else .kfree))
      { s with isOpen := Function.update s.isOpen e false } := by
  have hat := h.at_pc p
  rw [hp] at hat
  obtain ⟨href, hopen⟩ := hat
  generalize hx : (if σ.isOpen (!e) = true then PipePc.user else .kfree) = x
  have hself : ¬ x.Locked ∧ x.side = none ∧ ∀ e', x ≠ .closing e' := by
    subst hx
    split
    · exact ⟨id, rfl, fun _ => by rintro ⟨⟩⟩
    · exact ⟨id, rfl, fun _ => by rintro ⟨⟩⟩
  have hcases : x = .user ∨ x = .kfree := by
    subst hx
    split
    · exact Or.inl rfl
    · exact Or.inr rfl
  have hkfree : x = .kfree ↔ σ.isOpen (!e) = false := by
    subst hx
    split
    · next ho => exact iff_of_false (by rintro ⟨⟩) fun hc => by rw [ho] at hc; cases hc
    · next ho => exact iff_of_true rfl (Bool.not_eq_true _ ▸ ho)
  have hpc : ∀ q, ((σ.pipeclose e).goto p x).pc q = if q = p then x else σ.pc q := fun q => Function.update_apply ..
  have hisOpen : ∀ e', ((σ.pipeclose e).goto p x).isOpen e' = if e' = e then false else σ.isOpen e' :=
    fun e' => Function.update_apply ..
  have hnot : ¬ ∀ e', σ.isOpen e' = false := fun hall => by
    rw [hall e] at hopen
    cases hopen
  have hunlocked : ∀ q, ¬ (σ.pc q).Locked := fun q hq => by
    rw [h.lock q, hfree] at hq
    cases hq
  have hclosing : ∀ q e', ((σ.pipeclose e).goto p x).pc q = .closing e' → σ.pc q = .closing e' := by
    intro q e' hq
    rw [hpc] at hq
    split at hq
    · exact absurd hq (hself.2.2 e')
    · exact hq
  refine ⟨h.holds, by rw [h.isOpen]; rfl, fun q => ?_, h.ref, fun q e' hq => ?_, fun e' he' => ?_, fun q => ?_,
    fun q q' e' hq hq' => h.closing_one q q' e' (hclosing q e' hq) (hclosing q' e' hq'), fun q q' hq hq' => ?_,
    fun hf => absurd (h.freed hf) hnot, fun e' he' => ?_, fun hall => ?_⟩
  · rw [hpc]
    show _ ↔ σ.lock = some q
    rw [← h.lock q]
    split
    · exact iff_of_false hself.1 (hunlocked q)
    · exact Iff.rfl
  · rw [hpc] at hq
    split at hq
    · rw [hself.2.1] at hq
      cases hq
    · exact h.named q e' hq
  · rw [hisOpen, if_neg]
    · exact h.isOpen_of_ref e' he'
    · rintro rfl
      exact Nat.lt_irrefl 0 (href ▸ he')
  · rw [hpc]
    by_cases hqp : q = p
    · rw [if_pos hqp]
      rcases hcases with hxpc | hxpc
      · rw [hxpc]
        trivial
      · rw [hxpc]
        refine ⟨Bool.eq_false_iff.mpr fun hf => hnot (h.freed hf), fun e' => ?_⟩
        show Function.update σ.isOpen e false e' = false
        rw [Function.update_apply]
        split
        · rfl
        · next hee =>
          rw [Bool.eq_not_of_ne hee]
          exact hkfree.mp hxpc
    · rw [if_neg hqp]
      have hat := h.at_pc q
      have hl := hunlocked q
      cases hq : σ.pc q with rw [hq] at hat hl
      | closing e' =>
        refine ⟨hat.1, ?_⟩
        rw [hisOpen, if_neg]
        · exact hat.2
        · rintro rfl
          exact hqp (h.closing_one q p e' hq hp)
      | kfree => exact absurd hat.2 hnot
      | user | writeLock | readLock => trivial
      | writing | writeSleep | readWait | readSleep | readCopy => exact absurd trivial hl
  · have hold : ∀ r, ((σ.pipeclose e).goto p x).pc r = .kfree → r = p := by
      intro r hr
      rw [hpc] at hr
      split at hr
      · assumption
      · have hat := h.at_pc r
        rw [hr] at hat
        exact absurd hat.2 hnot
    rw [hold q hq, hold q' hq']
  · rw [hisOpen] at he'
    split at he'
    · cases he'
    · next hee =>
      refine (h.closer e' he').imp_right fun ⟨q, hq⟩ => ⟨q, ?_⟩
      rw [hpc, if_neg]
      · exact hq
      · rintro rfl
        exact hee (PipePc.closing.inj (hq.symm.trans hp))
  · refine Or.inr ⟨p, ?_⟩
    have hall' := hall (!e)
    rw [hisOpen, if_neg (by cases e <;> decide)] at hall'
    rw [hpc, if_pos rfl]
    exact hkfree.mpr hall'

/-- The page is freed. -/
theorem step_kfree (h : PipeInv σ s) (hp : σ.pc p = .kfree) : PipeInv ({ σ with freed := true }.goto p .user) s := by
  have hat := h.at_pc p
  rw [hp] at hat
  have hpc : ∀ q, Function.update σ.pc p .user q = if q = p then .user else σ.pc q :=
    fun q => Function.update_apply ..
  have hother : ∀ q pc, pc ≠ .user → Function.update σ.pc p .user q = pc → q ≠ p ∧ σ.pc q = pc := by
    intro q pc hne hq
    rw [hpc] at hq
    split at hq
    · exact absurd hq.symm hne
    · exact ⟨by assumption, hq⟩
  refine ⟨h.holds, h.isOpen, fun q => ?_, h.ref, fun q e hq => ?_, h.isOpen_of_ref, fun q => ?_,
    fun q q' e hq hq' => ?_, fun q q' hq hq' => ?_, fun _ => hat.2, fun e he => ?_, fun _ => Or.inl rfl⟩
  · show (Function.update σ.pc p .user q).Locked ↔ σ.lock = some q
    rw [hpc]
    split
    · next hqp =>
      refine iff_of_false id fun hc => ?_
      have hl := (h.lock q).mpr hc
      rw [hqp, hp] at hl
      exact hl
    · exact h.lock q
  · have hq' : (Function.update σ.pc p .user q).side = some e := hq
    rw [hpc] at hq'
    split at hq'
    · cases hq'
    · exact h.named q e hq'
  · show PipeAt _ _ (Function.update σ.pc p .user q)
    rw [hpc]
    split
    · trivial
    · next hqp =>
      have hat' := h.at_pc q
      cases hq : σ.pc q with rw [hq] at hat'
      | kfree => exact absurd (h.kfree_one q p hq hp) hqp
      | _ => exact hat'
  · exact h.closing_one q q' e (hother q _ (by rintro ⟨⟩) hq).2 (hother q' _ (by rintro ⟨⟩) hq').2
  · exact h.kfree_one q q' (hother q _ (by rintro ⟨⟩) hq).2 (hother q' _ (by rintro ⟨⟩) hq').2
  · have he' : σ.isOpen e = true := he
    rw [hat.2 e] at he'
    cases he'

theorem step_kill (h : PipeInv σ s) (killed : Fin NPROC → Bool) (chan : Fin NPROC → Option PipeChan) :
    PipeInv { σ with killed := killed, chan := chan } s :=
  ⟨h.holds, h.isOpen, h.lock, h.ref, h.named, h.isOpen_of_ref, h.at_pc, h.closing_one, h.kfree_one, h.freed, h.closer,
    h.freer⟩

/-- A new pipe is an empty stream. -/
theorem pipealloc (data : Fin PIPESIZE → BitVec 8) (killed : Fin NPROC → Bool) (p : Fin NPROC) {fd₀ fd₁ : Fin NOFILE}
    (hfd : fd₀ ≠ fd₁) : PipeInv (PipeState.pipealloc data killed p fd₀ fd₁) .empty := by
  refine ⟨.nil data 0#32, rfl, fun q => iff_of_false id (by rintro ⟨⟩), fun e => ?_, fun q e hq => (by cases hq),
    fun e _ => rfl, fun q => trivial, fun q q' e hq => (by cases hq), fun q q' hq => (by cases hq),
    fun hf => (by cases hf), fun e _ => Or.inl Nat.one_pos, fun hall => ?_⟩
  · have hone := refCount_update (f := fun _ : Fin NPROC × Fin NOFILE => (none : Option Bool)) (a := e)
      (Finset.mem_univ (p, fd₀)) (some false)
    have htwo := refCount_update
      (f := Function.update (fun _ : Fin NPROC × Fin NOFILE => (none : Option Bool)) (p, fd₀) (some false)) (a := e)
      (Finset.mem_univ (p, fd₁)) (some true)
    have hzero : refCount Finset.univ (fun _ : Fin NPROC × Fin NOFILE => (none : Option Bool)) e = 0 :=
      refCount_eq_zero.mpr fun _ _ hc => by cases hc
    rw [Function.update_of_ne fun hc => hfd (Prod.mk.inj hc).2.symm] at htwo
    rw [hzero] at hone
    show 1 = refCount Finset.univ (Function.update (Function.update (fun _ => none) (p, fd₀) (some false)) (p, fd₁)
      (some true)) e
    cases e <;> simp only [reduceCtorEq, Option.some.injEq, Bool.true_eq_false, Bool.false_eq_true, if_true,
      if_false] at hone htwo <;> omega
  · have hall' : true = false := hall true
    cases hall'

/-- Each step of the pipe is one of the stream, or shows nothing. -/
theorem step (h : PipeInv σ s) (hs : PipeStep σ tr σ') : ∃ s', PipeInv σ' s' ∧ Shown s tr s' := by
  have hw : PIPESIZE < 2 ^ 32 := by decide
  have hn : PIPESIZE ∣ 2 ^ 32 := by decide
  cases hs with
  | filewrite _ hp hfd => exact ⟨s, h.step_user hp hfd rfl id id trivial, Or.inl ⟨rfl, rfl⟩⟩
  | fileread _ hp hfd => exact ⟨s, h.step_user hp hfd rfl id id trivial, Or.inl ⟨rfl, rfl⟩⟩
  | writeLock hp _ hfree =>
    exact ⟨s, h.step_lock (hp ▸ id) hfree trivial id (by rw [hp]; rfl) trivial, Or.inl ⟨rfl, rfl⟩⟩
  | @put p a rest m hp hfull =>
    have hopen := h.isOpen_of_side (e := true) (p := p) (by rw [hp]; rfl)
    have hlen : s.queue.length < PIPESIZE :=
      lt_of_le_of_ne h.holds.length fun hc => hfull ((h.holds.full_iff hw).mpr hc)
    refine ⟨{ s with queue := s.queue ++ [a] }, ?_, Or.inr ⟨_, rfl, .put p a ?_ hlen⟩⟩
    · exact h.lockedStep σ.chan (hp ▸ trivial) (hp ▸ id) trivial id (by rw [hp]; rfl) (h.holds.put hn hlen a) trivial
    · rw [h.isOpen]
      exact hopen
  | @broken p _ _ _ hp hfull hclosed =>
    refine ⟨s, h.releaseStep σ.chan (hp ▸ trivial) (hp ▸ id) id id (fun e he => by cases he) trivial,
      Or.inr ⟨_, rfl, .broken p ?_⟩⟩
    rw [h.isOpen]
    exact hclosed
  | @writeKilled p _ _ _ hp _ _ =>
    exact ⟨s, h.releaseStep σ.chan (hp ▸ trivial) (hp ▸ id) id id (fun e he => by cases he) trivial,
      Or.inr ⟨_, rfl, .interrupted p true⟩⟩
  | full hp hfull hopen hkilled =>
    refine ⟨s, h.lockedStep _ (hp ▸ trivial) (hp ▸ id) trivial id (by rw [hp]; rfl) h.holds
      ⟨(h.holds.full_iff hw).mp hfull, ?_⟩, Or.inl ⟨rfl, rfl⟩⟩
    rw [h.isOpen]
    exact hopen
  | writeSleep hp =>
    exact ⟨s, h.releaseStep _ (hp ▸ trivial) (hp ▸ id) id id (fun e he => hp ▸ he) trivial, Or.inl ⟨rfl, rfl⟩⟩
  | written hp =>
    exact ⟨s, h.releaseStep _ (hp ▸ trivial) (hp ▸ id) id id (fun e he => by cases he) trivial, Or.inl ⟨rfl, rfl⟩⟩
  | readLock hp _ hfree =>
    exact ⟨s, h.step_lock (hp ▸ id) hfree trivial id (by rw [hp]; rfl) trivial, Or.inl ⟨rfl, rfl⟩⟩
  | @readKilled p _ hp _ _ _ =>
    exact ⟨s, h.releaseStep σ.chan (hp ▸ trivial) (hp ▸ id) id id (fun e he => by cases he) trivial,
      Or.inr ⟨_, rfl, .interrupted p false⟩⟩
  | empty hp hempty hopen hkilled =>
    refine ⟨s, h.lockedStep _ (hp ▸ trivial) (hp ▸ id) trivial id (by rw [hp]; rfl) h.holds
      ⟨(h.holds.empty_iff hw).mp hempty, ?_⟩, Or.inl ⟨rfl, rfl⟩⟩
    rw [h.isOpen]
    exact hopen
  | readSleep hp =>
    exact ⟨s, h.releaseStep _ (hp ▸ trivial) (hp ▸ id) id id (fun e he => hp ▸ he) trivial, Or.inl ⟨rfl, rfl⟩⟩
  | readCopy hp hgo =>
    refine ⟨s, h.lockedStep _ (hp ▸ trivial) (hp ▸ id) trivial id (by rw [hp]; rfl) h.holds fun _ hnil => ?_,
      Or.inl ⟨rfl, rfl⟩⟩
    show s.isOpen true = false
    rw [h.isOpen]
    exact Bool.eq_false_iff.mpr fun ho => hgo ⟨(h.holds.empty_iff hw).mpr hnil, ho⟩
  | @get p n i hp hi hempty =>
    cases hq : s.queue with
    | nil => exact absurd ((h.holds.empty_iff hw).mpr hq) hempty
    | cons a l =>
      have hholds := h.holds
      rw [hq] at hholds
      rw [hholds.head]
      refine ⟨{ s with queue := l }, ?_, Or.inr ⟨_, rfl, .get p hq⟩⟩
      exact h.lockedStep σ.chan (hp ▸ trivial) (hp ▸ id) trivial id (by rw [hp]; rfl) hholds.skip
        fun hc => absurd hc (Nat.succ_ne_zero i)
  | @read p n i hp hend =>
    refine ⟨s, h.releaseStep _ (hp ▸ trivial) (hp ▸ id) id id (fun e he => by cases he) trivial, ?_⟩
    have hat := h.at_pc p
    rw [hp] at hat
    split
    · next hzero =>
      have hnil : s.queue = [] := by
        by_contra hne
        exact hend ⟨by omega, fun hc => hne ((h.holds.empty_iff hw).mp hc)⟩
      exact Or.inr ⟨_, rfl, .eof p hnil (hat hzero.1 hnil)⟩
    · exact Or.inl ⟨rfl, rfl⟩
  | dup _ hx hy => exact ⟨s, h.step_dup hx hy, Or.inl ⟨rfl, rfl⟩⟩
  | close hp hfd => exact ⟨s, h.step_close hp hfd, Or.inl ⟨rfl, rfl⟩⟩
  | @pipeclose p e hp hfree =>
    have hat := h.at_pc p
    rw [hp] at hat
    refine ⟨_, h.step_pipeclose hp hfree, Or.inr ⟨_, rfl, .close e ?_⟩⟩
    rw [h.isOpen]
    exact hat.2
  | kfree hp => exact ⟨s, h.step_kfree hp, Or.inl ⟨rfl, rfl⟩⟩
  | kill | allocproc => exact ⟨s, h.step_kill _ _, Or.inl ⟨rfl, rfl⟩⟩

/-- Every run of the pipe is one of the stream. -/
theorem run (h : PipeRun tr σ) : ∃ s, PipeInv σ s ∧ BoundedStream.Run PIPESIZE tr s := by
  induction h with
  | start data killed p hfd => exact ⟨_, .pipealloc data killed p hfd, .start⟩
  | step _ hs ih =>
    obtain ⟨s, hinv, hrun⟩ := ih
    obtain ⟨s', hinv', hshown⟩ := hinv.step hs
    refine ⟨s', hinv', ?_⟩
    rcases hshown with ⟨rfl, rfl⟩ | ⟨x, rfl, hx⟩
    · rwa [List.append_nil]
    · exact hrun.step hx

end PipeInv

/-! ## Waking up -/

/-- What a process that sleeps on a channel waits to change. -/
def PipeState.Idle (σ : PipeState) : PipeChan → Prop
  | .nread => σ.pipe.Empty ∧ σ.isOpen true = true
  | .nwrite => σ.pipe.Full ∧ σ.isOpen false = true

theorem PipeInv.idle_of_waits (h : PipeInv σ s) (hw : Waits s c) : σ.Idle c := by
  have hsize : PIPESIZE < 2 ^ 32 := by decide
  cases c with
  | nread => exact ⟨(h.holds.empty_iff hsize).mpr hw.1, h.isOpen ▸ hw.2⟩
  | nwrite => exact ⟨(h.holds.full_iff hsize).mpr hw.1, h.isOpen ▸ hw.2⟩

/-- Closing a side is news for those on one channel only. -/
theorem PipeState.Idle.pipeclose (h : σ.Idle c) (hne : c ≠ if e then .nread else .nwrite) :
    (σ.pipeclose e).Idle c := by
  cases c <;> cases e
  · exact ⟨h.1, h.2⟩
  · exact absurd rfl hne
  · exact absurd rfl hne
  · exact ⟨h.1, h.2⟩

/-- A process sleeps where it may sleep, and has nothing to do, or a process with the lock will wake it. -/
def WakeInv (σ : PipeState) : Prop :=
  ∀ q c, σ.chan q = some c → (σ.pc q).SleepsOn c ∧ (σ.Idle c ∨ ∃ r, (σ.pc r).Wakes c)

theorem PipePc.Wakes.locked (h : pc.Wakes c) : pc.Locked := by
  cases pc with
  | writing | readCopy => trivial
  | _ => cases c <;> exact h.elim

theorem PipePc.SleepsOn.not_locked (h : pc.SleepsOn c) : ¬ pc.Locked := by
  cases pc with
  | writeLock | readLock => exact id
  | _ => cases c <;> exact h.elim

namespace WakeInv

/-- Process `p` makes a step. -/
theorem move (h : WakeInv σ) (p : Fin NPROC) (hpc : ∀ q, q ≠ p → σ'.pc q = σ.pc q)
    (hchan : ∀ q c, q ≠ p → σ'.chan q = some c → σ.chan q = some c)
    (hself : ∀ c, σ'.chan p = some c → (σ'.pc p).SleepsOn c)
    (hidle : ∀ q c, σ'.chan q = some c → σ'.Idle c ∨ ∃ r, (σ'.pc r).Wakes c) : WakeInv σ' := by
  refine fun q c hq => ⟨?_, hidle q c hq⟩
  by_cases hqp : q = p
  · subst hqp
    exact hself c hq
  · rw [hpc q hqp]
    exact (h q c (hchan q c hqp hq)).1

/-- A step from a point with the lock: a process that sleeps has nothing to do, unless it is to be woken. -/
theorem idle (h : WakeInv σ) (hinv : PipeInv σ s) (hp : (σ.pc p).Locked) (hwakes : ¬ (σ.pc p).Wakes c)
    (hq : σ.chan q = some c) : σ.Idle c := by
  refine (h q c hq).2.resolve_right ?_
  rintro ⟨r, hr⟩
  have hrp : r = p := by
    have hlock := (hinv.lock r).mp hr.locked
    rw [(hinv.lock p).mp hp] at hlock
    exact (Option.some.inj hlock).symm
  exact hwakes (hrp ▸ hr)

theorem chan_none (h : WakeInv σ) (hp : ∀ c, ¬ (σ.pc p).SleepsOn c) : σ.chan p = none := by
  cases hc : σ.chan p with
  | none => rfl
  | some c => exact absurd (h p c hc).1 (hp c)

/-- A step without the lock, of a process that does not sleep, that does not change the pipe. -/
theorem quiet (h : WakeInv σ) {f : Fin NPROC → PipePc} (hp : ¬ (σ.pc p).Locked) (hchan : σ.chan p = none)
    (hpc : ∀ q, q ≠ p → f q = σ.pc q) (hσ' : σ'.pipe = σ.pipe ∧ σ'.isOpen = σ.isOpen ∧ σ'.chan = σ.chan ∧ σ'.pc = f) :
    WakeInv σ' := by
  obtain ⟨hpipe, hopen, hch, rfl⟩ := hσ'
  refine h.move p hpc (fun q c _ hq => hch ▸ hq) (fun c hc => ?_) fun q c hq => ?_
  · rw [hch, hchan] at hc
    cases hc
  · rw [hch] at hq
    refine (h q c hq).2.imp (fun hi => ?_) fun ⟨r, hr⟩ => ⟨r, ?_⟩
    · cases c
      · exact ⟨hpipe ▸ hi.1, hopen ▸ hi.2⟩
      · exact ⟨hpipe ▸ hi.1, hopen ▸ hi.2⟩
    · rw [hpc r]
      · exact hr
      · rintro rfl
        exact hp hr.locked

/-- A step with the lock that puts nobody to sleep. -/
theorem locked (h : WakeInv σ) (hp : (σ.pc p).Locked) (hpc : ∀ q, q ≠ p → σ'.pc q = σ.pc q)
    (hchan : ∀ q c, σ'.chan q = some c → σ.chan q = some c)
    (hidle : ∀ q c, σ.chan q = some c → σ'.chan q = some c → σ'.Idle c ∨ ∃ r, (σ'.pc r).Wakes c) : WakeInv σ' := by
  refine h.move p hpc (fun q c _ hq => hchan q c hq) (fun c hc => ?_) fun q c hq => hidle q c (hchan q c hq) hq
  have hsome := hchan p c hc
  rw [h.chan_none fun c hs => hs.not_locked hp] at hsome
  cases hsome

/-- `sleep`. -/
theorem sleep (h : WakeInv σ) (hinv : PipeInv σ s) (hp : (σ.pc p).Locked) (hwakes : ∀ c, ¬ (σ.pc p).Wakes c)
    (hidle : σ.Idle c) (hpc : pc.SleepsOn c) : WakeInv ((σ.sleep p c).goto p pc) := by
  have hchan : ∀ q, ((σ.sleep p c).goto p pc).chan q = if q = p then some c else σ.chan q :=
    fun q => Function.update_apply ..
  refine h.move p (fun q hq => Function.update_of_ne hq ..) (fun q c' hq hc => ?_) (fun c' hc => ?_)
    fun q c' hq => Or.inl ?_
  · rwa [hchan, if_neg hq] at hc
  · rw [hchan, if_pos rfl] at hc
    obtain rfl := Option.some.inj hc
    show (Function.update σ.pc p pc p).SleepsOn c
    rwa [Function.update_self]
  · show σ.Idle c'
    rw [hchan] at hq
    split at hq
    · exact Option.some.inj hq ▸ hidle
    · exact h.idle hinv hp (hwakes c') hq

theorem chan_wakeup {c c' : PipeChan} (hq : (σ.wakeup c).chan q = some c') : σ.chan q = some c' ∧ c' ≠ c := by
  have hq' : (if σ.chan q = some c then none else σ.chan q) = some c' := hq
  split at hq'
  · cases hq'
  · next hne =>
    refine ⟨hq', ?_⟩
    rintro rfl
    exact hne hq'

/-- A step with the lock that leaves the pipe as it is and wakes all that have to be woken. -/
theorem leave (h : WakeInv σ) (hinv : PipeInv σ s) (hp : (σ.pc p).Locked) (hpc : ∀ q, q ≠ p → σ'.pc q = σ.pc q)
    (hchan : ∀ q c, σ'.chan q = some c → σ.chan q = some c ∧ ¬ (σ.pc p).Wakes c)
    (hσ' : σ'.pipe = σ.pipe ∧ σ'.isOpen = σ.isOpen) : WakeInv σ' := by
  refine h.locked hp hpc (fun q c hq => (hchan q c hq).1) fun q c hq hq' => Or.inl ?_
  have hi := h.idle hinv hp (hchan q c hq').2 hq
  cases c
  · exact ⟨hσ'.1 ▸ hi.1, hσ'.2 ▸ hi.2⟩
  · exact ⟨hσ'.1 ▸ hi.1, hσ'.2 ▸ hi.2⟩

/-- No wakeup is lost in a step, unless a writer is killed. -/
theorem step (h : WakeInv σ) (hinv : PipeInv σ s) (hs : PipeStep σ tr σ') (hkill : ∀ p, .interrupted p true ∉ tr) :
    WakeInv σ' := by
  have hmove : ∀ (p : Fin NPROC) (pc : PipePc) q, q ≠ p → Function.update σ.pc p pc q = σ.pc q :=
    fun p pc q hq => Function.update_of_ne hq ..
  have huser : ∀ p pc, σ.pc p = pc → pc.side = none → σ.chan p = none := by
    intro p pc hp hside
    refine h.chan_none fun c hc => ?_
    rw [hp] at hc
    cases pc <;> cases c <;> first | exact hc | cases hside
  cases hs with
  | @filewrite p _ _ hp hfd => exact h.quiet (hp ▸ id) (huser p _ hp rfl) (hmove p _) ⟨rfl, rfl, rfl, rfl⟩
  | @fileread p _ _ hp hfd => exact h.quiet (hp ▸ id) (huser p _ hp rfl) (hmove p _) ⟨rfl, rfl, rfl, rfl⟩
  | @writeLock p _ _ hp hchan hfree => exact h.quiet (hp ▸ id) hchan (hmove p _) ⟨rfl, rfl, rfl, rfl⟩
  | @readLock p _ hp hchan hfree => exact h.quiet (hp ▸ id) hchan (hmove p _) ⟨rfl, rfl, rfl, rfl⟩
  | @put p a rest m hp hfull =>
    have hl : (σ.pc p).Locked := hp ▸ trivial
    have hnot : ¬ (PipePc.writing (a :: rest) m).Wakes .nwrite := id
    refine h.locked hl (hmove p _) (fun _ _ hq => hq) fun q c hq _ => ?_
    cases c with
    | nread =>
      refine Or.inr ⟨p, ?_⟩
      show (Function.update σ.pc p _ p).Wakes .nread
      rw [Function.update_self]
      trivial
    | nwrite => exact absurd (h.idle hinv hl (hp ▸ hnot) hq).1 hfull
  | @broken p a rest m hp hfull hclosed =>
    have hl : (σ.pc p).Locked := hp ▸ trivial
    have hnot : ¬ (PipePc.writing (a :: rest) m).Wakes .nwrite := id
    refine h.locked hl (hmove p _) (fun _ _ hq => hq) fun q c hq _ => ?_
    -- nobody sleeps any more, as there are no readers
    have hs := (h q c hq).1
    cases c with
    | nread =>
      have hopen : σ.isOpen false = true := by
        cases hpc : σ.pc q with rw [hpc] at hs
        | readLock => exact hinv.isOpen_of_side (p := q) (by rw [hpc]; rfl)
        | _ => exact hs.elim
      rw [hclosed] at hopen
      cases hopen
    | nwrite =>
      have hopen := (h.idle hinv hl (hp ▸ hnot) hq).2
      rw [hclosed] at hopen
      cases hopen
  | @writeKilled p => exact absurd (List.mem_singleton.mpr rfl) (hkill p)
  | @full p _ _ _ hp _ _ _ =>
    refine h.leave hinv (hp ▸ trivial) (hmove p _) (fun q c hq => ?_) ⟨rfl, rfl⟩
    obtain ⟨hq, hne⟩ := chan_wakeup hq
    refine ⟨hq, ?_⟩
    rw [hp]
    cases c
    · exact absurd rfl hne
    · exact id
  | @writeSleep p _ _ hp =>
    have hat := hinv.at_pc p
    rw [hp] at hat
    exact h.sleep hinv (hp ▸ trivial) (fun c => by rw [hp]; cases c <;> exact id)
      (hinv.idle_of_waits (c := .nwrite) hat) trivial
  | @written p _ hp =>
    refine h.leave hinv (hp ▸ trivial) (hmove p _) (fun q c hq => ?_) ⟨rfl, rfl⟩
    obtain ⟨hq, hne⟩ := chan_wakeup hq
    refine ⟨hq, ?_⟩
    rw [hp]
    cases c
    · exact absurd rfl hne
    · exact id
  | @readKilled p _ hp =>
    exact h.leave hinv (hp ▸ trivial) (hmove p _) (fun q c hq => ⟨hq, by rw [hp]; cases c <;> exact id⟩) ⟨rfl, rfl⟩
  | @empty p _ hp =>
    exact h.leave hinv (hp ▸ trivial) (hmove p _) (fun q c hq => ⟨hq, by rw [hp]; cases c <;> exact id⟩) ⟨rfl, rfl⟩
  | @readSleep p _ hp =>
    have hat := hinv.at_pc p
    rw [hp] at hat
    exact h.sleep hinv (hp ▸ trivial) (fun c => by rw [hp]; cases c <;> exact id)
      (hinv.idle_of_waits (c := .nread) hat) trivial
  | @readCopy p _ hp =>
    exact h.leave hinv (hp ▸ trivial) (hmove p _) (fun q c hq => ⟨hq, by rw [hp]; cases c <;> exact id⟩) ⟨rfl, rfl⟩
  | @get p n i hp hi hempty =>
    have hl : (σ.pc p).Locked := hp ▸ trivial
    have hnot : ¬ (PipePc.readCopy n i).Wakes .nread := id
    refine h.locked hl (hmove p _) (fun _ _ hq => hq) fun q c hq _ => ?_
    cases c with
    | nread => exact absurd (h.idle hinv hl (hp ▸ hnot) hq).1 hempty
    | nwrite =>
      refine Or.inr ⟨p, ?_⟩
      show (Function.update σ.pc p _ p).Wakes .nwrite
      rw [Function.update_self]
      trivial
  | @read p n i hp =>
    refine h.leave hinv (hp ▸ trivial) (hmove p _) (fun q c hq => ?_) ⟨rfl, rfl⟩
    obtain ⟨hq, hne⟩ := chan_wakeup hq
    refine ⟨hq, ?_⟩
    rw [hp]
    cases c
    · exact id
    · exact absurd rfl hne
  | dup => exact h
  | @close p _ _ hp => exact h.quiet (hp ▸ id) (huser p _ hp rfl) (hmove p _) ⟨rfl, rfl, rfl, rfl⟩
  | @pipeclose p e hp hfree =>
    refine h.move p (hmove p _) (fun q c _ hq => (chan_wakeup hq).1) (fun c hc => ?_) fun q c hq => Or.inl ?_
    · have hnone := (chan_wakeup hc).1
      rw [show PipeState.chan _ p = σ.chan p from rfl, huser p _ hp rfl] at hnone
      cases hnone
    · obtain ⟨hq, hne⟩ := chan_wakeup hq
      refine ((h q c hq).2.resolve_right ?_).pipeclose hne
      rintro ⟨r, hr⟩
      have hlock := (hinv.lock r).mp hr.locked
      rw [hfree] at hlock
      cases hlock
  | @kfree p hp => exact h.quiet (hp ▸ id) (huser p _ hp rfl) (hmove p _) ⟨rfl, rfl, rfl, rfl⟩
  | kill p =>
    refine fun q c hq => h q c ?_
    have hq' : Function.update σ.chan p none q = some c := hq
    rw [Function.update_apply] at hq'
    split at hq'
    · cases hq'
    · exact hq'
  | allocproc => exact h

end WakeInv

/-- No wakeup is lost in a run in which no writer gives up because it is killed. -/
theorem WakeInv.run (h : PipeRun tr σ) (hkill : ∀ p, .interrupted p true ∉ tr) : WakeInv σ := by
  induction h with
  | start => exact fun q c hq => by cases hq
  | step hrun hs ih =>
    obtain ⟨s, hinv, -⟩ := PipeInv.run hrun
    refine (ih fun p hp => ?_).step hinv hs fun p hp => ?_
    · exact hkill p (List.mem_append_left _ hp)
    · exact hkill p (List.mem_append_right _ hp)

/-! ## Results -/

/-- A process makes a pipe and writes a byte. -/
theorem exists_written : ∃ σ, PipeRun [.put 0 7#8] σ ∧ σ.lock = none := by
  have hstart := PipeRun.start (fun _ => 0#8) (fun _ => false) 0 (show (0 : Fin NOFILE) ≠ 1 by decide)
  have hwrite := hstart.step (.filewrite (p := 0) [7#8] rfl (Function.update_self ..))
  have hlock := hwrite.step (.writeLock (p := 0) rfl rfl rfl)
  have hput := hlock.step (.put (p := 0) rfl (by decide))
  exact ⟨_, hput.step (.written (p := 0) rfl), rfl⟩

/-- A pipe is a stream of at most `PIPESIZE` bytes, however its readers and writers take turns and come and go: what
was read is the first part of what was written, `piperead` returns 0 only at the end of the stream, and `pipewrite`
fails for want of readers only without readers. The counters may have wrapped around. -/
theorem pipe_refines (h : PipeRun tr σ) : ∃ s, BoundedStream.Run PIPESIZE tr s ∧ puts tr = gets tr ++ s.queue ∧
    σ.pipe.nwrite = σ.pipe.nread + BitVec.ofNat 32 s.queue.length := by
  obtain ⟨s, hinv, hrun⟩ := PipeInv.run h
  exact ⟨s, hrun, hrun.fifo.1, hinv.holds.nwrite⟩

theorem pipe_refines_written : ∃ s : BoundedStream.State (BitVec 8),
    BoundedStream.Run PIPESIZE [.put (0 : Fin NPROC) 7#8] s ∧ s.queue = [7#8] := by
  obtain ⟨σ, hrun, -⟩ := exists_written
  obtain ⟨s, hs, hfifo, -⟩ := pipe_refines hrun
  exact ⟨s, hs, hfifo.symm⟩

/-- The page of a pipe is freed once, after the last use, and not forgotten: when it is free no process is in the pipe
or has a descriptor for it, and with nobody left it is free. -/
theorem pipe_freed (h : PipeRun tr σ) : (∀ p, σ.pc p = .kfree → σ.freed = false) ∧
    (σ.freed = true ↔ (∀ p, σ.pc p = .user) ∧ ∀ x, σ.ofile x = none) := by
  obtain ⟨s, hinv, -⟩ := PipeInv.run h
  have hkfree : ∀ p, σ.pc p = .kfree → σ.freed = false := fun p hp => by
    have hat := hinv.at_pc p
    rw [hp] at hat
    exact hat.1
  refine ⟨hkfree, fun hfreed => ?_, fun ⟨huser, hofile⟩ => ?_⟩
  · have hclosed : ∀ e, ¬ σ.isOpen e = true := fun e ho => by
      rw [hinv.freed hfreed e] at ho
      cases ho
    refine ⟨fun p => ?_, fun x => ?_⟩
    · have hat := hinv.at_pc p
      have hside := fun e => hinv.isOpen_of_side (p := p) (e := e)
      cases hp : σ.pc p with rw [hp] at hat hside
      | closing e => exact absurd hat.2 (hclosed e)
      | kfree => rw [hat.1] at hfreed; cases hfreed
      | writeLock | writing | writeSleep => exact absurd (hside true rfl) (hclosed true)
      | readLock | readWait | readSleep | readCopy => exact absurd (hside false rfl) (hclosed false)
    · cases hx : σ.ofile x with
      | none => rfl
      | some e => exact absurd (hinv.isOpen_of_ref e (hinv.ref_pos hx)) (hclosed e)
  · have hclosed : ∀ e, σ.isOpen e = false := by
      intro e
      refine Bool.eq_false_iff.mpr fun ho => ?_
      rcases hinv.closer e ho with href | ⟨p, hp⟩
      · rw [hinv.ref, refCount_eq_zero.mpr fun x _ => by rw [hofile x]; rintro ⟨⟩] at href
        exact Nat.lt_irrefl 0 href
      · rw [huser p] at hp
        cases hp
    refine (hinv.freer hclosed).resolve_right ?_
    rintro ⟨p, hp⟩
    rw [huser p] at hp
    cases hp

theorem pipe_freed_written : ∃ σ, PipeRun [.put 0 7#8] σ ∧ ∀ p, σ.pc p = .kfree → σ.freed = false := by
  obtain ⟨σ, hrun, -⟩ := exists_written
  exact ⟨σ, hrun, (pipe_freed hrun).1⟩

/-- As long as no writer gives up because it is killed, a process sleeps in `piperead` only while the pipe is empty
and there are writers, and in `pipewrite` only while it is full and there are readers. So a reader and a writer
never sleep at the same time. -/
theorem pipe_wakes (h : PipeRun tr σ) (hkill : ∀ p, .interrupted p true ∉ tr) (hlock : σ.lock = none) :
    (∀ q c, σ.chan q = some c → σ.Idle c) ∧ ¬ ∃ p q, σ.chan p = some .nread ∧ σ.chan q = some .nwrite := by
  obtain ⟨s, hinv, -⟩ := PipeInv.run h
  have hidle : ∀ q c, σ.chan q = some c → σ.Idle c := by
    intro q c hq
    refine (WakeInv.run h hkill q c hq).2.resolve_right ?_
    rintro ⟨r, hr⟩
    have hr' := (hinv.lock r).mp hr.locked
    rw [hlock] at hr'
    cases hr'
  refine ⟨hidle, ?_⟩
  rintro ⟨p, q, hp, hq⟩
  have hsize : PIPESIZE < 2 ^ 32 := by decide
  have hnil := (hinv.holds.empty_iff hsize).mp (hidle p _ hp).1
  have hfull := (hinv.holds.full_iff hsize).mp (hidle q _ hq).1
  rw [hnil] at hfull
  cases hfull

theorem pipe_wakes_written : ∃ σ, PipeRun [.put 0 7#8] σ ∧ ∀ q c, σ.chan q = some c → σ.Idle c := by
  obtain ⟨σ, hrun, hlock⟩ := exists_written
  refine ⟨σ, hrun, (pipe_wakes hrun (fun p hp => ?_) hlock).1⟩
  cases List.mem_singleton.mp hp

/-- A writer fills the pipe as far as there is room. -/
theorem exists_puts {a : BitVec 8} {rest : List (BitVec 8)} (k : Nat) {tr : List PipeEvent} {σ : PipeState} {m : Nat}
    (h : PipeRun tr σ) (hinv : PipeInv σ s) (hp : σ.pc p = .writing (List.replicate k a ++ rest) m)
    (hroom : s.queue.length + k ≤ PIPESIZE) : ∃ tr' σ' s' m', PipeRun tr' σ' ∧ PipeInv σ' s' ∧
      σ'.pc p = .writing rest m' ∧ s'.queue.length = s.queue.length + k ∧ σ'.chan = σ.chan ∧
      σ'.killed = σ.killed := by
  have hsize : PIPESIZE < 2 ^ 32 := by decide
  induction k generalizing tr σ s m with
  | zero => exact ⟨tr, σ, s, m, h, hinv, hp, rfl, rfl, rfl⟩
  | succ k ih =>
    have hlen : s.queue.length < PIPESIZE := by omega
    have hfull : ¬ σ.pipe.Full := fun hc => Nat.ne_of_lt hlen ((hinv.holds.full_iff hsize).mp hc)
    have hput : PipeInv ({ σ with pipe := σ.pipe.put a }.goto p (.writing (List.replicate k a ++ rest) (m + 1)))
        { s with queue := s.queue ++ [a] } :=
      hinv.lockedStep σ.chan (hp ▸ trivial) (hp ▸ id) trivial id (by rw [hp]; rfl)
        (hinv.holds.put (by decide) hlen a) trivial
    obtain ⟨tr', σ', s', m', hrun, hinv', hp', hlen', hchan, hkilled⟩ :=
      ih (h.step (.put hp hfull)) hput (Function.update_self ..) (by simp only [List.length_append]; simp; omega)
    refine ⟨tr', σ', s', m', hrun, hinv', hp', ?_, hchan, hkilled⟩
    rw [hlen']
    simp only [List.length_append, List.length_singleton]
    omega

/-- Otherwise a wakeup can be lost: a writer that is killed when it has filled the pipe leaves readers asleep. -/
theorem pipe_loses_wakeup : ∃ tr σ, PipeRun tr σ ∧ σ.lock = none ∧ σ.chan 1 = some .nread ∧ σ.pipe.Full := by
  have hstart := PipeRun.start (fun _ => 0#8) (fun _ => false) 0 (show (0 : Fin NOFILE) ≠ 1 by decide)
  have hdup := hstart.step (@PipeStep.dup _ 0 0 (1, 0) false rfl rfl rfl)
  have hread := hdup.step (@PipeStep.fileread _ 1 0 1 rfl rfl)
  have hsleep := (((hread.step (.readLock (p := 1) rfl rfl rfl)).step (.empty (p := 1) rfl rfl rfl rfl)).step
    (.readSleep (p := 1) rfl)).step (.kill 0)
  have hwrite := (hsleep.step (@PipeStep.filewrite _ 0 1 (List.replicate PIPESIZE 0#8 ++ [0#8]) rfl rfl)).step
    (.writeLock (p := 0) rfl rfl rfl)
  obtain ⟨s, hinv, -⟩ := PipeInv.run hwrite
  have hempty : s.queue = [] := (hinv.holds.empty_iff (by decide)).mp rfl
  obtain ⟨tr, σ, s', m, hrun, hinv', hp, hlen, hchan, hkilled⟩ :=
    exists_puts (p := 0) PIPESIZE hwrite hinv
      (show _ = PipePc.writing (List.replicate PIPESIZE 0#8 ++ [0#8]) 0 from rfl) (by rw [hempty]; exact le_rfl)
  rw [hempty, List.length_nil, Nat.zero_add] at hlen
  have hfull := (hinv'.holds.full_iff (by decide)).mpr hlen
  have hkilled₀ : σ.killed 0 = true := by
    rw [hkilled]
    rfl
  refine ⟨_, _, hrun.step (.writeKilled hp hfull hkilled₀), rfl, ?_, hfull⟩
  show σ.chan 1 = some .nread
  rw [hchan]
  rfl

end Jos.Xv6
