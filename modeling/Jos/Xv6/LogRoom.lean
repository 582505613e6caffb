import Jos.Xv6.Crash
import Mathlib.Algebra.Order.BigOperators.Group.Finset

/-!
# Room in the log

`begin_op` lets a call in when the log has room for `MAXOPBLOCKS` blocks of each call in progress. What is reserved
and not used yet is part of an invariant, from which it follows that no call that keeps to its limit runs out of the
array in the header, and that no call waits when no other is in progress.

`log_write` panics one block earlier if the log on disk has no more than `LOGSIZE` blocks, as the one that `mkfs`
makes: the header is one of them.
-/

namespace Jos.Xv6

open Bcache FsState

variable {sb : Superblock} {σ σ' : FsState} {m m' : Txn.State (Fin NPROC) Nat Block} {p : Fin NPROC}
  {tr : List FsEvent} {disk : Nat → Block} {bs : Finset Nat}

/-- What a call may still add to the log. -/
def reserve : Option (Finset Nat) → Nat
  | none => 0
  | some bs => MAXOPBLOCKS - bs.card

/-- The reserved room is there, and the log has what the calls in progress have logged. -/
structure RoomInv (σ : FsState) : Prop where
  room : σ.log.lh.length + ∑ p, reserve (σ.op p) ≤ LOGSIZE
  logged : ∀ p bs, σ.op p = some bs → ∀ b ∈ bs, b ∈ σ.log.lh
  empty : σ.up = true → σ.log.committing = false → (∀ p, σ.op p = none) → σ.log.lh = []

/-- One call changes what is reserved by its own part. -/
theorem sum_reserve_update (op : Fin NPROC → Option (Finset Nat)) (p : Fin NPROC) (x : Option (Finset Nat)) :
    ∑ q, reserve (Function.update op p x q) + reserve (op p) = ∑ q, reserve (op q) + reserve x := by
  rw [← Finset.add_sum_erase _ _ (Finset.mem_univ p), ← Finset.add_sum_erase Finset.univ (fun q => reserve (op q))
    (Finset.mem_univ p), Function.update_self]
  have hrest : ∑ q ∈ Finset.univ.erase p, reserve (Function.update op p x q)
      = ∑ q ∈ Finset.univ.erase p, reserve (op q) := by
    refine Finset.sum_congr rfl fun q hq => ?_
    rw [Function.update_of_ne (Finset.ne_of_mem_erase hq)]
  rw [hrest]
  omega

theorem reserve_le (x : Option (Finset Nat)) : reserve x ≤ if x.isSome then MAXOPBLOCKS else 0 := by
  cases x with
  | none => exact Nat.zero_le _
  | some bs => exact Nat.sub_le ..

/-- No more is reserved than `begin_op` reckons with. -/
theorem LogInv.sum_reserve_le (h : LogInv sb σ m) : ∑ q, reserve (σ.op q) ≤ σ.log.outstanding * MAXOPBLOCKS := by
  calc ∑ q, reserve (σ.op q) ≤ ∑ q, if (σ.op q).isSome then MAXOPBLOCKS else 0 :=
        Finset.sum_le_sum fun q _ => reserve_le (σ.op q)
    _ = σ.log.outstanding * MAXOPBLOCKS := by
        rw [← Finset.sum_filter, Finset.sum_const, h.outstanding]
        rfl

theorem LogInv.sum_reserve_zero (h : LogInv sb σ m) (hp : σ.pc p ≠ .user) : ∑ q, reserve (σ.op q) = 0 := by
  refine Finset.sum_eq_zero fun q _ => ?_
  rw [h.noOps (h.inLog p hp) q]
  rfl

namespace RoomInv

theorem restart (disk : Nat → Block) : RoomInv (FsState.restart disk) where
  room := by
    have hsum : ∑ q, reserve ((FsState.restart disk).op q) = 0 := Finset.sum_eq_zero fun q _ => rfl
    rw [hsum]
    exact Nat.zero_le _
  logged p bs hop := by cases hop
  empty hup := by cases hup

theorem step_beginOp (h : RoomInv σ) (hinv : LogInv sb σ m) (hop : σ.op p = none) (ha : σ.Admits) :
    RoomInv (σ.beginOp p) := by
  refine ⟨?_, fun q bs hq b hb => ?_, fun _ _ hnone => ?_⟩
  · show σ.log.lh.length + ∑ q, reserve (Function.update σ.op p (some ∅) q) ≤ LOGSIZE
    have hsum := sum_reserve_update σ.op p (some ∅)
    have hle := hinv.sum_reserve_le
    have hroom := ha.room
    rw [hop] at hsum
    rw [Nat.succ_mul] at hroom
    have hnew : reserve (some ∅) = MAXOPBLOCKS := rfl
    have hzero : reserve none = 0 := rfl
    omega
  · have hq' : Function.update σ.op p (some ∅) q = some bs := hq
    rw [Function.update_apply] at hq'
    split at hq'
    · obtain rfl := Option.some.inj hq'
      exact absurd hb (Finset.notMem_empty b)
    · exact h.logged q bs hq' b hb
  · have hp : Function.update σ.op p (some ∅) p = none := hnone p
    rw [Function.update_self] at hp
    cases hp

theorem step_logWrite (h : RoomInv σ) {i : Fin NBUF} (d : Block) (hop : σ.op p = some bs)
    (hsmall : OpsSmall (σ.logWrite p bs i d)) : RoomInv (σ.logWrite p bs i d) := by
  have hp : ∀ q, (σ.logWrite p bs i d).op q = if q = p then some (insert (σ.bcache.buf i).blockno bs) else σ.op q :=
    fun q => Function.update_apply ..
  have hself : (σ.logWrite p bs i d).op p = some (insert (σ.bcache.buf i).blockno bs) := by rw [hp, if_pos rfl]
  have hlh : (σ.logWrite p bs i d).log.lh = if (σ.bcache.buf i).blockno ∈ σ.log.lh then σ.log.lh
      else σ.log.lh ++ [(σ.bcache.buf i).blockno] := rfl
  have hmem : ∀ b, b ∈ σ.log.lh ∨ b = (σ.bcache.buf i).blockno → b ∈ (σ.logWrite p bs i d).log.lh := by
    intro b hb
    rw [hlh]
    split
    · next hin => exact hb.elim id fun hb => hb ▸ hin
    · exact List.mem_append.mpr (hb.imp_right List.mem_singleton.mpr)
  refine ⟨?_, fun q bs' hq b hb => ?_, fun _ _ hnone => ?_⟩
  · have hsum := sum_reserve_update σ.op p (some (insert (σ.bcache.buf i).blockno bs))
    have hcard := hsmall p _ hself
    have hroom := h.room
    rw [hop] at hsum
    show _ + ∑ q, reserve (Function.update σ.op p (some (insert (σ.bcache.buf i).blockno bs)) q) ≤ LOGSIZE
    rw [hlh]
    have hnew : reserve (some (insert (σ.bcache.buf i).blockno bs))
        = MAXOPBLOCKS - (insert (σ.bcache.buf i).blockno bs).card := rfl
    have hold : reserve (some bs) = MAXOPBLOCKS - bs.card := rfl
    split
    · have hle := Finset.card_le_card (Finset.subset_insert (σ.bcache.buf i).blockno bs)
      omega
    · next hnot =>
      have hbs : (σ.bcache.buf i).blockno ∉ bs := fun hb => hnot (h.logged p bs hop _ hb)
      rw [Finset.card_insert_of_notMem hbs] at hnew hcard
      rw [List.length_append, List.length_singleton]
      omega
  · rw [hp] at hq
    split at hq
    · obtain rfl := Option.some.inj hq
      rcases Finset.mem_insert.mp hb with rfl | hb
      · exact hmem _ (Or.inr rfl)
      · exact hmem b (Or.inl (h.logged p bs hop b hb))
    · exact hmem b (Or.inl (h.logged q bs' hq b hb))
  · have hnone' := hnone p
    rw [hself] at hnone'
    cases hnone'

theorem step_endOp (h : RoomInv σ) (hinv : LogInv sb σ m) (hp : σ.Runs p) (hop : σ.op p = some bs) :
    RoomInv (σ.endOp p) := by
  have hfinish := hinv.step_finish hp hop
  have hroom : σ.log.lh.length + ∑ q, reserve (Function.update σ.op p none q) ≤ LOGSIZE := by
    have hsum := sum_reserve_update σ.op p none
    have hold := h.room
    have hzero : reserve none = 0 := rfl
    omega
  have hlogged : ∀ q bs, Function.update σ.op p none q = some bs → ∀ b ∈ bs, b ∈ σ.log.lh := by
    intro q bs' hq b hb
    rw [Function.update_apply] at hq
    split at hq
    · cases hq
    · exact h.logged q bs' hq b hb
  unfold FsState.endOp
  split
  · exact ⟨hroom, hlogged, fun _ hc => by cases hc⟩
  · next hlast =>
    refine ⟨hroom, hlogged, fun _ _ hnone => absurd ?_ hlast⟩
    have hcount := hfinish.outstanding
    have hempty : openOps (Function.update σ.op p none) = ∅ := by
      rw [openOps, Finset.filter_eq_empty_iff]
      intro q _
      rw [show Function.update σ.op p none q = none from hnone q]
      exact Bool.false_ne_true
    exact hcount.trans (by rw [hempty, Finset.card_empty])

/-- Every step keeps the reserved room. -/
theorem step (h : RoomInv σ) (hinv : LogInv sb σ m) (hs : LogStep sb σ tr σ') (hsmall : OpsSmall σ') :
    RoomInv σ' := by
  obtain ⟨m', hinv', -⟩ := hinv.step hs
  cases hs with
  | bget | breadLock | read | brelse | writeLogEnd | writeLog | writeHead | install | clearHead | brelseNext
  | brelseEnd => exact ⟨h.room, h.logged, h.empty⟩
  | beginOp _ hop ha => exact h.step_beginOp hinv hop ha
  | logWrite d _ _ hop => exact h.step_logWrite d hop hsmall
  | endOp hp hop => exact h.step_endOp hinv hp hop
  | @installEnd p _ hp =>
    have hne : σ.pc p ≠ .user := by
      rw [hp]
      rintro ⟨⟩
    refine ⟨?_, fun q bs hq => ?_, fun _ _ _ => rfl⟩
    · show 0 + ∑ q, reserve (σ.op q) ≤ LOGSIZE
      rw [hinv.sum_reserve_zero hne]
      exact Nat.zero_le _
    · have hq' : σ.op q = some bs := hq
      rw [hinv.noOps (hinv.inLog p hne) q] at hq'
      cases hq'
  | @readHead p i hp =>
    have hne : σ.pc p ≠ .user := by
      rw [hp]
      rintro ⟨⟩
    have hlen := hinv'.lh.length.2
    refine ⟨?_, fun q bs hq => ?_, fun hup hc _ => ?_⟩
    · show (Xv6.readHead _).length + ∑ q, reserve (σ.op q) ≤ LOGSIZE
      rw [hinv.sum_reserve_zero hne]
      exact hlen
    · have hq' : σ.op q = some bs := hq
      rw [hinv.noOps (hinv.inLog p hne) q] at hq'
      cases hq'
    · exact absurd (hinv.all_user hup hc p) hne
  | committed hp =>
    obtain ⟨⟨hinst, -⟩, -⟩ := hinv.at_point hp
    exact ⟨h.room, h.logged, fun _ _ _ => hinst.lh⟩
  | recovered hp =>
    obtain ⟨⟨hinst, -⟩, -⟩ := hinv.at_point hp
    exact ⟨h.room, h.logged, fun _ _ _ => hinst.lh⟩
  | crash => exact .restart σ.disk

theorem run (hlh : LhOk sb (readHead (disk sb.logstart))) (h : SmallRun sb disk tr σ) :
    RoomInv σ ∧ ∃ m, LogInv sb σ m := by
  induction h with
  | start => exact ⟨.restart disk, _, .restart (onDisk_recovered hlh)⟩
  | step _ hs hsmall ih =>
    obtain ⟨hroom, m, hinv⟩ := ih
    obtain ⟨m', hinv', -⟩ := hinv.step hs
    exact ⟨hroom.step hinv hs hsmall, m', hinv'⟩

/-- A call below its limit finds room in the header. -/
theorem lh_lt (h : RoomInv σ) (hop : σ.op p = some bs) (hbs : bs.card < MAXOPBLOCKS) : σ.log.lh.length < LOGSIZE := by
  have hle := Finset.single_le_sum (f := fun q => reserve (σ.op q)) (fun q _ => Nat.zero_le _) (Finset.mem_univ p)
  have hroom := h.room
  have hp : reserve (σ.op p) = MAXOPBLOCKS - bs.card := by rw [hop]; rfl
  omega

end RoomInv

/-- As long as all calls keep to their limit, one that is below it finds room in the header, so that `log_write` does
not panic if the log on disk has a block for each entry of the header. And a call that has to wait waits for another
call or for a commit. -/
theorem begin_op_reserves (hlh : LhOk sb (readHead (disk sb.logstart))) (h : SmallRun sb disk tr σ) :
    (∀ p bs, σ.op p = some bs → bs.card < MAXOPBLOCKS →
      σ.log.lh.length < LOGSIZE ∧ (LOGSIZE < sb.nlog → ¬ σ.TooBig sb)) ∧
    (σ.up = true → σ.log.committing = false → (∀ p, σ.op p = none) → σ.Admits) := by
  obtain ⟨hroom, m, hinv⟩ := RoomInv.run hlh h
  refine ⟨fun p bs hop hbs => ?_, fun hup hcommitting hops => ⟨hcommitting, ?_⟩⟩
  · have hlt := hroom.lh_lt hop hbs
    refine ⟨hlt, fun hnlog hbig => ?_⟩
    rcases hbig with hbig | hbig <;> omega
  · have hempty : openOps σ.op = ∅ := by
      rw [openOps, Finset.filter_eq_empty_iff]
      intro q _
      rw [hops q]
      exact Bool.false_ne_true
    rw [hinv.outstanding, hempty, hroom.empty hup hcommitting hops]
    decide

theorem begin_op_reserves_demoLog : ∃ σ : FsState, σ.op 1 = some ∅ ∧ σ.log.lh.length < LOGSIZE := by
  obtain ⟨σ, hrun, hop⟩ := DemoLog.exists_beginOp
  exact ⟨σ, hop, ((begin_op_reserves DemoLog.lhOk hrun).1 1 ∅ hop (by decide)).1⟩

end Jos.Xv6
