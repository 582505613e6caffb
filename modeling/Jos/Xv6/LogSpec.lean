import Jos.Xv6.LogInv

/-!
# Transactions survive crashes

Every run of the log, with all its crashes and recoveries, shows the same as a run of the store of transactions
(`fs_refines`).
-/

namespace Jos.Xv6

open Bcache FsState

variable {sb : Superblock} {σ σ' : FsState} {m m' : Txn.State (Fin NPROC) Nat Block} {p q : Fin NPROC}
  {i j : Fin NBUF} {b t : Nat} {l lh : List Nat} {disk disk' : Nat → Block} {s s' : Bcache} {pc pc' : LogPc}
  {got : Fin NPROC → Option (Fin NBUF)} {d : Block}

/-! ## Steps of one process -/

/-- What a step of `p` does not do to buffers: those in use stay for the same block, those of others stay locked, and
none becomes dirty. -/
structure Keeps (p : Fin NPROC) (s s' : Bcache) : Prop where
  names : ∀ i b, (s.buf i).refcnt ≠ 0 → s.Names i b → s'.Names i b
  lock : ∀ i q, q ≠ p → (s.buf i).lock = some q → (s'.buf i).lock = some q
  dirty : ∀ i, (s'.buf i).dirty = true → (s.buf i).dirty = true ∧ (s'.buf i).blockno = (s.buf i).blockno

namespace Keeps

theorem refl (p : Fin NPROC) (s : Bcache) : Keeps p s s := ⟨fun _ _ _ h => h, fun _ _ _ h => h, fun _ h => ⟨h, rfl⟩⟩

theorem set {x : Buf} (hnames : (s.buf i).refcnt ≠ 0 → x.dev = (s.buf i).dev ∧ x.blockno = (s.buf i).blockno)
    (hlock : ∀ q, q ≠ p → (s.buf i).lock = some q → x.lock = some q)
    (hdirty : x.dirty = true → (s.buf i).dirty = true ∧ x.blockno = (s.buf i).blockno) : Keeps p s (s.set i x) := by
  refine ⟨fun j b hj hn => ?_, fun j q hq hj => ?_, fun j hj => ?_⟩
  · rw [set_names]
    split
    · next hji =>
      subst hji
      rw [(hnames hj).1, (hnames hj).2]
      exact hn
    · exact hn
  · rw [set_buf]
    split
    · next hji =>
      subst hji
      exact hlock q hq hj
    · exact hj
  · rw [set_buf] at hj ⊢
    split at hj
    · next hji =>
      subst hji
      rw [if_pos rfl]
      exact hdirty hj
    · next hji =>
      rw [if_neg hji]
      exact ⟨hj, rfl⟩

theorem bget (hb : s.bget b = some (i, s')) : Keeps p s s' := by
  rcases bget_cases hb with ⟨-, rfl⟩ | ⟨-, hzero, -, rfl⟩
  · exact set (fun _ => ⟨rfl, rfl⟩) (fun _ _ hl => hl) fun hd => ⟨hd, rfl⟩
  · exact set (fun hr => absurd hzero hr) (fun _ _ hl => hl) fun hd => by cases hd

theorem breadLock (h : s.Inv disk got) (hlock : (s.buf i).lock = none) (q : Fin NPROC) :
    Keeps p s (s.set i (breadLock disk q (s.buf i)).2) := by
  rw [breadLock_eq h]
  refine set (fun _ => ⟨rfl, rfl⟩) (fun r _ hl => ?_) fun hd => ⟨hd, rfl⟩
  rw [hlock] at hl
  cases hl

theorem bwrite (disk : Nat → Block) (i : Fin NBUF) (d : Block) : Keeps p s (s.set i (bwrite disk (s.buf i) d).2) :=
  set (fun _ => ⟨rfl, rfl⟩) (fun _ _ hl => hl) fun hd => by cases hd

theorem brelse (hlock : (s.buf i).lock = some p) : Keeps p s (s.brelse i) := by
  have hset : Keeps p s (s.set i { s.buf i with lock := none, refcnt := (s.buf i).refcnt - 1 }) := by
    refine set (fun _ => ⟨rfl, rfl⟩) (fun q hq hl => ?_) fun hd => ⟨hd, rfl⟩
    exact absurd (Option.some.inj (hl.symm.trans hlock)) hq
  exact ⟨hset.names, hset.lock, hset.dirty⟩

end Keeps

theorem Has.keeps (h : s.Inv disk got) (hk : Keeps p s s') (hq : q ≠ p) (hhas : Has s q i b) : Has s' q i b :=
  ⟨hk.lock i q hq hhas.lock, hk.names i b (h.refcnt_of_lock hhas.lock) hhas.names⟩

/-- The buffers of other processes stay theirs. -/
theorem Held.keeps (h : s.Inv disk got) (hk : Keeps p s s') (hq : q ≠ p) (hheld : Held sb lh s q pc) :
    Held sb lh s' q pc := by
  cases pc with
  | user | writeLog | writeHead | install | clearHead | done | readHead => trivial
  | writeLogFrom | installDst => exact ⟨hheld.1, hheld.2.keeps h hk hq⟩
  | writeLogCopy | installCopy =>
    obtain ⟨ht, h₁, b, hb, h₂⟩ := hheld
    exact ⟨ht, h₁.keeps h hk hq, b, hb, h₂.keeps h hk hq⟩
  | writeHeadCopy | clearHeadCopy | readHeadCopy => exact Has.keeps h hk hq hheld
  | brelse => exact ⟨hheld.1, hheld.2.1, fun i hi => hk.lock i q hq (hheld.2.2 i hi)⟩

/-- A phase does not depend on more than this. -/
theorem Phase.congr (hdisk : σ'.disk = σ.disk) (hlh : σ'.log.lh = σ.log.lh) (hup : σ'.up = σ.up)
    (hk : Keeps p σ.bcache σ'.bcache) (h : Phase sb σ m pc) : Phase sb σ' m pc := by
  have hfill : ∀ t, Filling sb σ m t → Filling sb σ' m t := fun t hf =>
    ⟨hup.trans hf.up, hdisk ▸ hf.disk, by rw [hdisk, hlh]; exact hf.copied⟩
  have hinstall : ∀ t, Installing sb σ m t → Installing sb σ' m t := fun t hf => by
    refine ⟨by rw [hdisk, hlh]; exact hf.disk, hf.same, by rw [hdisk, hlh]; exact hf.copied, fun i k hd hkt => ?_⟩
    obtain ⟨hd', hblock⟩ := hk.dirty i hd
    rw [hlh, hblock]
    exact hf.clean i k hd' hkt
  have hinstalled : Installed sb σ m → Installed sb σ' m := fun hf =>
    ⟨hdisk ▸ hf.disk, hf.same, hlh.trans hf.lh, by rw [hdisk]; exact hf.home⟩
  have hrecover : Recovering sb σ m → Recovering sb σ' m := fun hf => ⟨hdisk ▸ hf.disk, hf.same, hlh.trans hf.lh⟩
  induction pc with
  | user => trivial
  | writeLog | writeLogFrom | writeLogCopy => exact hfill _ h
  | writeHead | writeHeadCopy =>
    have hf : Filling sb σ m σ.log.lh.length := h
    rw [← hlh] at hf
    exact hfill _ hf
  | install | installDst | installCopy => exact hinstall _ h
  | clearHead | clearHeadCopy => exact hinstalled h
  | done => exact ⟨hinstalled h.1, hdisk ▸ h.2⟩
  | readHead | readHeadCopy => exact hrecover h
  | brelse _ k ih => exact ih h

/-- A step of process `p` that is not one of a file system call. -/
structure Advance (sb : Superblock) (p : Fin NPROC) (σ σ' : FsState) : Prop where
  keeps : Keeps p σ.bcache σ'.bcache
  cache : σ'.bcache.Inv σ'.disk σ'.got
  pc : ∀ q, q ≠ p → σ'.pc q = σ.pc q
  got : ∀ q, q ≠ p → σ'.got q = σ.got q
  op : σ'.op = σ.op
  up : σ'.up = σ.up
  outstanding : σ'.log.outstanding = σ.log.outstanding
  committing : σ'.log.committing = σ.log.committing
  user : σ'.pc p = .user ↔ σ.pc p = .user
  same : σ.pc p = .user → σ'.disk = σ.disk ∧ σ'.log.lh = σ.log.lh
  dirty : ∀ i, (σ'.bcache.buf i).dirty = true → (σ'.bcache.buf i).blockno ∈ σ'.log.lh
  lh : LhOk sb σ'.log.lh

namespace LogInv

/-- Such a step keeps the invariant if it gets its own process right. -/
theorem advance (h : LogInv sb σ m) (ha : Advance sb p σ σ') (hm : σ.pc p = .user → m' = m)
    (hcurrent : m'.current = m.current) (hactive : m'.active = m.active)
    (hshows : σ.up = true → ∀ b, sb.IsData b → σ.bcache.Shows σ.disk b (m.current b) →
      σ'.bcache.Shows σ'.disk b (m.current b))
    (hgot : ∀ i, σ'.got p = some i → ∃ b, Asks sb σ'.log.lh (σ'.pc p) b ∧ σ'.bcache.Names i b)
    (hphase : Phase sb σ' m' (σ'.pc p)) (hheld : Held sb σ'.log.lh σ'.bcache p (σ'.pc p)) : LogInv sb σ' m' := by
  have huser : ∀ q, σ'.pc q = .user ↔ σ.pc q = .user := by
    intro q
    by_cases hq : q = p
    · rw [hq]
      exact ha.user
    · rw [ha.pc q hq]
  -- another process is outside of the log, or `p` has left the disk and the list as they are
  have hother : ∀ q, q ≠ p → σ.pc q = .user ∨ (σ'.disk = σ.disk ∧ σ'.log.lh = σ.log.lh ∧ m' = m) := by
    intro q hq
    by_cases hp : σ.pc p = .user
    · exact Or.inr ⟨(ha.same hp).1, (ha.same hp).2, hm hp⟩
    · by_contra hc
      push Not at hc
      exact hq (h.one q p hc.1 hp)
  refine ⟨ha.cache, fun hup b hb => ?_, ha.dirty, ha.lh, fun q => ?_, ?_, ?_, ?_, fun q hq => ?_,
    fun q q' hq hq' => ?_, fun hall => ?_, fun q => ?_, fun q => ?_, fun q i hi => ?_⟩
  · rw [ha.up] at hup
    rw [hcurrent]
    exact hshows hup b hb (h.shows hup b hb)
  · rw [hactive, ha.op]
    exact h.active q
  · rw [ha.outstanding, ha.op]
    exact h.outstanding
  · rw [ha.committing, ha.up, ha.op]
    exact h.noOps
  · rw [ha.committing, ha.up]
    exact h.committing
  · rw [ha.committing, ha.up]
    exact h.inLog q fun hc => hq ((huser q).mpr hc)
  · exact h.one q q' (fun hc => hq ((huser q).mpr hc)) fun hc => hq' ((huser q').mpr hc)
  · have hp := (huser p).mp (hall p)
    rw [(ha.same hp).1, hm hp]
    exact h.idle fun q => (huser q).mp (hall q)
  · by_cases hq : q = p
    · rw [hq]
      exact hphase
    · rw [ha.pc q hq]
      rcases hother q hq with huq | ⟨hdisk, hlh, rfl⟩
      · rw [huq]
        trivial
      · exact (h.phase q).congr hdisk hlh ha.up ha.keeps
  · by_cases hq : q = p
    · rw [hq]
      exact hheld
    · rw [ha.pc q hq]
      rcases hother q hq with huq | ⟨-, hlh, -⟩
      · rw [huq]
        trivial
      · rw [hlh]
        exact (h.held q).keeps h.cache ha.keeps hq
  · by_cases hq : q = p
    · subst hq
      exact hgot i hi
    · rw [ha.got q hq] at hi
      obtain ⟨b, hb, hnames⟩ := h.got q i hi
      refine ⟨b, ?_, ha.keeps.names i b (h.cache.refcnt_of_got hi) hnames⟩
      rw [ha.pc q hq]
      rcases hother q hq with huq | ⟨-, hlh, -⟩
      · rw [huq] at hb ⊢
        exact hb
      · rwa [hlh]

/-- Dirty buffers are in the log after a step that makes none. -/
theorem dirty_keeps (h : LogInv sb σ m) (hk : Keeps p σ.bcache s) (i : Fin NBUF) (hd : (s.buf i).dirty = true) :
    (s.buf i).blockno ∈ σ.log.lh := by
  obtain ⟨hd', hblock⟩ := hk.dirty i hd
  rw [hblock]
  exact h.dirty i hd'

/-! ## Buffers -/

theorem step_bget (h : LogInv sb σ m) (hgot : σ.got p = none) (hask : Asks sb σ.log.lh (σ.pc p) b)
    (hb : σ.bcache.bget b = some (i, s)) :
    LogInv sb { σ with bcache := s, got := Function.update σ.got p (some i) } m := by
  obtain ⟨r, hr⟩ := exists_ne p
  have hk : Keeps p σ.bcache s := .bget hb
  refine h.advance (p := p) ⟨hk, h.cache.bget hgot hb, fun _ _ => rfl, fun q hq => Function.update_of_ne hq .., rfl,
    rfl, rfl, rfl, Iff.rfl, fun _ => ⟨rfl, rfl⟩, h.dirty_keeps hk, h.lh⟩ (fun _ => rfl) rfl rfl
    (fun _ _ _ hs => hs.bget h.cache hb) (fun j hj => ?_) (Phase.congr (σ := σ) rfl rfl rfl hk (h.phase p))
    ((h.held p).keeps (p := r) h.cache (.bget hb) hr.symm)
  have hij : Function.update σ.got p (some i) p = some j := hj
  rw [Function.update_self] at hij
  obtain rfl := Option.some.inj hij
  exact ⟨b, hask, bget_names hb⟩

/-- The point after `bread` is in the same phase. -/
theorem phase_next (hask : Asks sb lh pc b) (i : Fin NBUF) : Phase sb σ m (pc.next i) = Phase sb σ m pc := by
  cases pc with
  | user | writeLog | writeLogFrom | writeHead | install | installDst | clearHead | readHead => rfl
  | writeLogCopy | writeHeadCopy | installCopy | clearHeadCopy | readHeadCopy | done | brelse => exact hask.elim

theorem next_eq_user (hask : Asks sb lh pc b) (i : Fin NBUF) : pc.next i = .user ↔ pc = .user := by
  cases pc with
  | user => exact Iff.rfl
  | writeLog | writeLogFrom | writeHead | install | installDst | clearHead | readHead =>
    exact iff_of_false (fun hc => by cases hc) fun hc => by cases hc
  | writeLogCopy | writeHeadCopy | installCopy | clearHeadCopy | readHeadCopy | done | brelse => exact hask.elim

/-- The buffer joins the others that the process has. -/
theorem held_next (hask : Asks sb lh pc b) (hi : Has s p i b) (hheld : Held sb lh s p pc) :
    Held sb lh s p (pc.next i) := by
  cases pc with
  | user => trivial
  | writeLog | install =>
    obtain ⟨ht, rfl⟩ := hask
    exact ⟨ht, hi⟩
  | writeLogFrom | installDst => exact ⟨hheld.1, hheld.2, b, hask, hi⟩
  | writeHead | clearHead | readHead =>
    obtain rfl : b = sb.logstart := hask
    exact hi
  | writeLogCopy | writeHeadCopy | installCopy | clearHeadCopy | readHeadCopy | done | brelse => exact hask.elim

theorem step_breadLock (h : LogInv sb σ m) (hgot : σ.got p = some i) (hlock : (σ.bcache.buf i).lock = none) :
    LogInv sb ({ σ.setBuf i (breadLock σ.disk p (σ.bcache.buf i)) with
      got := Function.update σ.got p none }.goto p ((σ.pc p).next i)) m := by
  obtain ⟨r, hr⟩ := exists_ne p
  obtain ⟨b, hask, hnames⟩ := h.got p i hgot
  have hk : ∀ q, Keeps q σ.bcache (σ.bcache.set i (breadLock σ.disk p (σ.bcache.buf i)).2) :=
    fun q => .breadLock h.cache hlock p
  have hdisk : (breadLock σ.disk p (σ.bcache.buf i)).1 = σ.disk := congrArg Prod.fst (breadLock_eq h.cache i p)
  have hself : Has (σ.bcache.set i (breadLock σ.disk p (σ.bcache.buf i)).2) p i b := by
    refine ⟨?_, (hk p).names i b (h.cache.refcnt_of_got hgot) hnames⟩
    rw [set_buf, if_pos rfl, breadLock_eq h.cache]
  have hpc : Function.update σ.pc p ((σ.pc p).next i) p = (σ.pc p).next i := Function.update_self ..
  refine h.advance (p := p) ⟨hk p, ?_, fun q hq => Function.update_of_ne hq .., fun q hq => Function.update_of_ne hq ..,
    rfl, rfl, rfl, rfl, ?_, fun _ => ⟨hdisk, rfl⟩, h.dirty_keeps (hk p), h.lh⟩ (fun _ => rfl) rfl rfl
    (fun _ b' _ hs => ?_) (fun j hj => ?_) ?_ ?_
  · show (σ.bcache.set i _).Inv (breadLock σ.disk p (σ.bcache.buf i)).1 _
    rw [hdisk]
    exact h.cache.breadLock hgot hlock
  · show Function.update σ.pc p _ p = _ ↔ _
    rw [hpc]
    exact next_eq_user hask i
  · show (σ.bcache.set i _).Shows (breadLock σ.disk p (σ.bcache.buf i)).1 b' _
    rw [hdisk]
    exact hs.breadLock h.cache
  · have hj' : Function.update σ.got p none p = some j := hj
    rw [Function.update_self] at hj'
    cases hj'
  · show Phase sb _ m (Function.update σ.pc p _ p)
    rw [hpc, phase_next hask]
    exact (h.phase p).congr hdisk rfl rfl (hk p)
  · show Held sb _ _ p (Function.update σ.pc p _ p)
    rw [hpc]
    exact held_next hask hself ((h.held p).keeps h.cache (hk r) hr.symm)

theorem step_brelse (h : LogInv sb σ m) (hp : σ.pc p = .user) (hlock : (σ.bcache.buf i).lock = some p) :
    LogInv sb { σ with bcache := σ.bcache.brelse i } m := by
  have hk : Keeps p σ.bcache (σ.bcache.brelse i) := .brelse hlock
  refine h.advance (p := p) ⟨hk, h.cache.brelse hlock, fun _ _ => rfl, fun _ _ => rfl, rfl, rfl, rfl, rfl, Iff.rfl,
    fun _ => ⟨rfl, rfl⟩, h.dirty_keeps hk, h.lh⟩ (fun _ => rfl) rfl rfl (fun _ _ _ hs => hs.brelse i) (fun j hj => ?_)
    ?_ ?_
  · obtain ⟨b, hask, hnames⟩ := h.got p j hj
    exact ⟨b, hask, hk.names j b (h.cache.refcnt_of_got hj) hnames⟩
  · show Phase sb _ m (σ.pc p)
    rw [hp]
    trivial
  · show Held sb _ _ p (σ.pc p)
    rw [hp]
    trivial

/-! ## Commit and recovery -/

/-- A process waits for buffers only where it asks for them. -/
theorem got_none (h : LogInv sb σ m) (hp : σ.pc p = pc) (hask : ∀ b, ¬ Asks sb σ.log.lh pc b) : σ.got p = none := by
  cases hgot : σ.got p with
  | none => rfl
  | some i =>
    obtain ⟨b, hb, -⟩ := h.got p i hgot
    rw [hp] at hb
    exact absurd hb (hask b)

theorem at_point (h : LogInv sb σ m) (hp : σ.pc p = pc) :
    Phase sb σ m pc ∧ Held sb σ.log.lh σ.bcache p pc := hp ▸ ⟨h.phase p, h.held p⟩

/-- A step of the process that is in the log. -/
theorem sysStep (h : LogInv sb σ m) (hp : σ.pc p = pc) (hpc : pc ≠ .user) (hpc' : pc' ≠ .user) (hgot : σ.got p = none)
    (hk : Keeps p σ.bcache s) (hcache : s.Inv disk σ.got) (hlh : LhOk sb l)
    (hdirty : ∀ i, (s.buf i).dirty = true → (s.buf i).blockno ∈ l) (hcurrent : m'.current = m.current)
    (hactive : m'.active = m.active)
    (hshows : σ.up = true → ∀ b, sb.IsData b → σ.bcache.Shows σ.disk b (m.current b) → s.Shows disk b (m.current b))
    (hphase : Phase sb { σ with disk := disk, bcache := s, log := { σ.log with lh := l } } m' pc')
    (hheld : Held sb l s p pc') :
    LogInv sb ({ σ with disk := disk, bcache := s, log := { σ.log with lh := l } }.goto p pc') m' := by
  have hself : Function.update σ.pc p pc' p = pc' := Function.update_self ..
  have hne : σ.pc p ≠ .user := by rwa [hp]
  refine h.advance (p := p) ⟨hk, hcache, fun q hq => Function.update_of_ne hq .., fun _ _ => rfl, rfl, rfl, rfl, rfl,
    iff_of_false (by rwa [← hself] at hpc') hne, fun hc => absurd hc hne, hdirty, hlh⟩
    (fun hc => absurd hc hne) hcurrent hactive hshows (fun j hj => ?_) ?_ ?_
  · have hj' : σ.got p = some j := hj
    rw [hgot] at hj'
    cases hj'
  · show Phase sb _ m' (Function.update σ.pc p pc' p)
    rw [hself]
    exact Phase.congr (σ := { σ with disk := disk, bcache := s, log := { σ.log with lh := l } }) rfl rfl rfl
      (.refl p s) hphase
  · show Held sb l s p (Function.update σ.pc p pc' p)
    rwa [hself]

/-- What the process in the log writes to disk. -/
theorem bwriteStep (h : LogInv sb σ m) (hp : σ.pc p = pc) (hpc : pc ≠ .user)
    (hask : ∀ b, ¬ Asks sb σ.log.lh pc b) (hi : Has σ.bcache p i b)
    {bufs : List (Fin NBUF)} (hplain : pc'.Plain) (hnodup : bufs.Nodup)
    (hbufs : ∀ j ∈ bufs, (σ.bcache.buf j).lock = some p) (hcurrent : m'.current = m.current)
    (hactive : m'.active = m.active) (hdata : σ.up = true → sb.IsData b → d = m.current b)
    (hphase : Phase sb { σ with
      disk := Function.update σ.disk b d
      bcache := σ.bcache.set i (bwrite σ.disk (σ.bcache.buf i) d).2 } m' pc') :
    LogInv sb ((σ.setBuf i (bwrite σ.disk (σ.bcache.buf i) d)).goto p (.brelse bufs pc')) m' := by
  have hk : Keeps p σ.bcache (σ.bcache.set i (bwrite σ.disk (σ.bcache.buf i) d).2) := .bwrite σ.disk i d
  refine h.sysStep hp hpc (by rintro ⟨⟩) (h.got_none hp hask) hk (h.cache.bwrite hi.lock) h.lh
    (h.dirty_keeps hk) hcurrent hactive
    (fun hup b' hb' hs => Shows.bwrite (fun _ => hs) h.cache hi.lock fun hb => ?_) ?_ ⟨hplain, hnodup, fun j hj => ?_⟩
  · rw [← hi.names.2] at hdata
    subst hb
    exact hdata hup hb'
  · have hdisk : (bwrite σ.disk (σ.bcache.buf i) d).1 = Function.update σ.disk b d := by
      rw [bwrite_eq, hi.names.2]
    rw [hdisk]
    exact hphase
  · rw [set_buf]
    split
    · exact hi.lock
    · exact hbufs j hj

/-- The processes in the log have no file system call open. -/
theorem no_active (h : LogInv sb σ m) (hp : σ.pc p ≠ .user) (q : Fin NPROC) : ¬ m.active q := by
  rw [h.active, h.noOps (h.inLog p hp) q]
  exact Bool.false_ne_true

/-- With no dirty buffer for it, a block is on disk as it is current. -/
theorem disk_current (h : LogInv sb σ m) (hup : σ.up = true) (hb : sb.IsData b) (hlh : b ∉ σ.log.lh) :
    σ.disk b = m.current b := by
  refine h.cache.shows_eq (h.shows hup b hb) fun i hi => ?_
  by_contra hd
  have hmem := h.dirty i (Bool.not_eq_false _ ▸ hd)
  rw [hi.2] at hmem
  exact hlh hmem

/-- The buffer of a block of the log has what the disk has. -/
theorem data_log (h : LogInv sb σ m) (hi : Has σ.bcache p i b) (hb : ¬ sb.IsData b) :
    (σ.bcache.buf i).data = σ.disk b := by
  rw [(h.cache.buf i).clean hi.names.1 (h.cache.valid_of_lock hi.lock), hi.names.2]
  by_contra hd
  have hmem := h.dirty i (Bool.not_eq_false _ ▸ hd)
  rw [hi.names.2] at hmem
  exact hb (h.lh.data b hmem)

theorem not_data_log (hl : LhOk sb l) (ht : t < l.length) : ¬ sb.IsData (sb.logstart + t + 1) := by
  intro hb
  have hlen := hl.length.1
  exact hb.ne_log (by omega) rfl

theorem not_data_logstart : ¬ sb.IsData sb.logstart := fun hb => hb.ne_logstart rfl

omit sb σ m in
theorem nodup_pair (hij : i ≠ j) : [i, j].Nodup :=
  List.nodup_cons.mpr ⟨by rwa [List.mem_singleton], List.nodup_singleton j⟩

/-- `write_log` copies a block to the log. -/
theorem step_writeLog (h : LogInv sb σ m) {dst src : Fin NBUF} (hp : σ.pc p = .writeLogCopy t dst src) :
    LogInv sb ((σ.setBuf dst (bwrite σ.disk (σ.bcache.buf dst) (σ.bcache.buf src).data)).goto p
      (.brelse [src, dst] (.writeLog (t + 1)))) m := by
  obtain ⟨hphase, hheld⟩ := h.at_point hp
  have hfill : Filling sb σ m t := hphase
  obtain ⟨ht, hdst, b, hb, hsrc⟩ := hheld
  have hdata := h.lh.data b (List.mem_of_getElem? hb)
  have hlog := not_data_log h.lh ht
  have hcurrent : (σ.bcache.buf src).data = m.current b :=
    (h.shows hfill.up b hdata).cached src hsrc.names (h.cache.valid_of_lock hsrc.lock)
  have hne : src ≠ dst := by
    rintro rfl
    rw [← hsrc.names.2, hdst.names.2] at hdata
    exact hlog hdata
  have hlen := h.lh.length.1
  refine h.bwriteStep hp (by rintro ⟨⟩) (fun _ hc => hc) hdst trivial (nodup_pair hne) (fun j hj => ?_) rfl rfl
    (fun _ hc => absurd hc hlog) ⟨hfill.up, hfill.disk.fill (by omega), fun k b' hk hb' => ?_⟩
  · rcases List.mem_pair.mp hj with rfl | rfl
    · exact hsrc.lock
    · exact hdst.lock
  · show Function.update σ.disk (sb.logstart + t + 1) _ _ = _
    by_cases hkt : k = t
    · subst hkt
      obtain rfl : b = b' := Option.some.inj (hb.symm.trans hb')
      rw [Function.update_self, hcurrent]
    · rw [Function.update_of_ne (by omega)]
      exact hfill.copied k b' (by omega) hb'

/-- The commit: what is current becomes stable. -/
theorem step_writeHead (h : LogInv sb σ m) (hp : σ.pc p = .writeHeadCopy i) :
    LogInv sb ((σ.setBuf i (bwrite σ.disk (σ.bcache.buf i) (writeHead σ.log.lh (σ.bcache.buf i).data))).goto p
      (.brelse [i] (.install 0))) { m with stable := m.current } := by
  obtain ⟨hphase, hheld⟩ := h.at_point hp
  have hfill : Filling sb σ m σ.log.lh.length := hphase
  have hi : Has σ.bcache p i sb.logstart := hheld
  refine h.bwriteStep hp (by rintro ⟨⟩) (fun _ hc => hc) hi trivial (List.nodup_singleton i) (fun j hj => ?_) rfl rfl
    (fun _ hc => absurd hc not_data_logstart) ⟨?_, rfl, fun k b hk _ => absurd hk (Nat.not_lt_zero k),
      fun j k _ hk => absurd hk (Nat.not_lt_zero k)⟩
  · rw [List.mem_singleton.mp hj]
    exact hi.lock
  · refine hfill.disk.commit h.lh (fun k b hb => ?_) fun b hb hlh => ?_
    · exact hfill.copied k b (List.getElem?_eq_some_iff.mp hb).1 hb
    · show m.current b = _
      rw [← h.disk_current hfill.up hb hlh, hfill.disk.home b hb List.not_mem_nil]

/-- `install_trans` copies a block home. -/
theorem step_install (h : LogInv sb σ m) {lbuf dbuf : Fin NBUF} (hp : σ.pc p = .installCopy t lbuf dbuf) :
    LogInv sb ((σ.setBuf dbuf (bwrite σ.disk (σ.bcache.buf dbuf) (σ.bcache.buf lbuf).data)).goto p
      (.brelse [lbuf, dbuf] (.install (t + 1)))) m := by
  obtain ⟨hphase, hheld⟩ := h.at_point hp
  have hinst : Installing sb σ m t := hphase
  obtain ⟨ht, hlbuf, b, hb, hdbuf⟩ := hheld
  have hmem := List.mem_of_getElem? hb
  have hdata := h.lh.data b hmem
  have hlog := not_data_log h.lh ht
  have hstable : (σ.bcache.buf lbuf).data = m.stable b := by
    rw [h.data_log hlbuf hlog, hinst.disk.log t b hb]
  have hne : lbuf ≠ dbuf := by
    rintro rfl
    rw [← hdbuf.names.2, hlbuf.names.2] at hdata
    exact hlog hdata
  have hk : Keeps p σ.bcache (σ.bcache.set dbuf (bwrite σ.disk (σ.bcache.buf dbuf) (σ.bcache.buf lbuf).data).2) :=
    .bwrite _ _ _
  refine h.bwriteStep hp (by rintro ⟨⟩) (fun _ hc => hc) hdbuf trivial (nodup_pair hne) (fun j hj => ?_) rfl rfl
    (fun _ _ => ?_) ⟨?_, hinst.same, fun k b' hkt hb' => ?_, fun j k hd hkt hk' => ?_⟩
  · rcases List.mem_pair.mp hj with rfl | rfl
    · exact hlbuf.lock
    · exact hdbuf.lock
  · rw [hstable, hinst.same]
  · show OnDisk sb (Function.update σ.disk b _) m.stable σ.log.lh
    rw [hstable]
    exact hinst.disk.install hmem
  · show Function.update σ.disk b _ b' = _
    by_cases hbb : b' = b
    · rw [hbb, Function.update_self, hstable]
    · rw [Function.update_of_ne hbb]
      have hkne : k ≠ t := by
        rintro rfl
        exact hbb (Option.some.inj (hb'.symm.trans hb))
      exact hinst.copied k b' (by omega) hb'
  · have hd' : ((σ.bcache.set dbuf
        (bwrite σ.disk (σ.bcache.buf dbuf) (σ.bcache.buf lbuf).data).2).buf j).dirty = true := hd
    have hk'' : σ.log.lh[k]? = some
        ((σ.bcache.set dbuf (bwrite σ.disk (σ.bcache.buf dbuf) (σ.bcache.buf lbuf).data).2).buf j).blockno := hk'
    obtain ⟨hold, hblock⟩ := hk.dirty j hd'
    rw [hblock] at hk''
    by_cases hkt' : k = t
    · -- the buffer of this block has just been written
      subst hkt'
      have hj : j = dbuf := by
        refine h.cache.unique j dbuf b ⟨((h.cache.buf j).dirty hold).1, ?_⟩ hdbuf.names
        exact Option.some.inj (hk''.symm.trans hb)
      rw [set_buf, if_pos hj, bwrite_eq] at hd'
      cases hd'
    · exact hinst.clean j k hold (by omega) hk''

/-- The second `write_head` erases the header. -/
theorem step_clearHead (h : LogInv sb σ m) (hp : σ.pc p = .clearHeadCopy i) :
    LogInv sb ((σ.setBuf i (bwrite σ.disk (σ.bcache.buf i) (writeHead σ.log.lh (σ.bcache.buf i).data))).goto p
      (.brelse [i] .done)) m := by
  obtain ⟨hphase, hheld⟩ := h.at_point hp
  have hinst : Installed sb σ m := hphase
  have hi : Has σ.bcache p i sb.logstart := hheld
  have hdisk : OnDisk sb (Function.update σ.disk sb.logstart (writeHead σ.log.lh (σ.bcache.buf i).data)) m.stable
      [] := by
    rw [hinst.lh]
    exact .clear hinst.home
  refine h.bwriteStep hp (by rintro ⟨⟩) (fun _ hc => hc) hi trivial (List.nodup_singleton i) (fun j hj => ?_) rfl rfl
    (fun _ hc => absurd hc not_data_logstart)
    ⟨⟨⟨[], hdisk⟩, hinst.same, hinst.lh, fun b hb => hdisk.home b hb List.not_mem_nil⟩, hdisk⟩
  · rw [List.mem_singleton.mp hj]
    exact hi.lock

/-- `install_trans` is through. -/
theorem step_installEnd (h : LogInv sb σ m) (hp : σ.pc p = .install t) (ht : ¬ t < σ.log.lh.length)
    (hgot : σ.got p = none) : LogInv sb (σ.clear.goto p .clearHead) m := by
  obtain ⟨hphase, hheld⟩ := h.at_point hp
  have hinst : Installing sb σ m t := hphase
  refine h.sysStep (l := []) hp (by rintro ⟨⟩) (by rintro ⟨⟩) hgot (.refl p _) h.cache (.nil sb) (fun i hd => ?_)
    rfl rfl (fun _ _ _ hs => hs) ⟨⟨_, hinst.disk⟩, hinst.same, rfl, fun b hb => ?_⟩ trivial
  · obtain ⟨k, hk, heq⟩ := List.mem_iff_getElem.mp (h.dirty i hd)
    exact absurd (List.getElem?_eq_some_iff.mpr ⟨hk, heq⟩) (hinst.clean i k hd (by omega))
  · by_cases hlh : b ∈ σ.log.lh
    · obtain ⟨k, hk, heq⟩ := List.mem_iff_getElem.mp hlh
      exact hinst.copied k b (by omega) (List.getElem?_eq_some_iff.mpr ⟨hk, heq⟩)
    · exact hinst.disk.home b hb hlh

/-- `write_log` is through. -/
theorem step_writeLogEnd (h : LogInv sb σ m) (hp : σ.pc p = .writeLog t) (ht : ¬ t < σ.log.lh.length)
    (hgot : σ.got p = none) : LogInv sb (σ.goto p .writeHead) m := by
  obtain ⟨hphase, hheld⟩ := h.at_point hp
  have hfill : Filling sb σ m t := hphase
  exact h.sysStep hp (by rintro ⟨⟩) (by rintro ⟨⟩) hgot (.refl p _) h.cache h.lh h.dirty rfl rfl (fun _ _ _ hs => hs)
    ⟨hfill.up, hfill.disk, fun k b hk hb => hfill.copied k b (hk.trans_le (not_lt.mp ht)) hb⟩ trivial

/-- `read_head` finds what is in the log. -/
theorem step_readHead (h : LogInv sb σ m) (hp : σ.pc p = .readHeadCopy i) :
    LogInv sb ({ σ with log := { σ.log with lh := readHead (σ.bcache.buf i).data } }.goto p
      (.brelse [i] (.install 0))) m := by
  obtain ⟨hphase, hheld⟩ := h.at_point hp
  have hrec : Recovering sb σ m := hphase
  have hi : Has σ.bcache p i sb.logstart := hheld
  obtain ⟨l, hl⟩ := hrec.disk
  have hread : readHead (σ.bcache.buf i).data = l := by
    rw [h.data_log hi not_data_logstart, hl.header]
  rw [hread]
  refine h.sysStep hp (by rintro ⟨⟩) (by rintro ⟨⟩) (h.got_none hp fun _ hc => hc) (.refl p _) h.cache hl.ok
    (fun j hd => ?_) rfl rfl (fun _ _ _ hs => hs) ⟨hl, hrec.same, fun k b hk _ => absurd hk (Nat.not_lt_zero k),
      fun j k _ hk => absurd hk (Nat.not_lt_zero k)⟩ ⟨trivial, List.nodup_singleton i, fun j hj => ?_⟩
  · have hmem := h.dirty j hd
    rw [hrec.lh] at hmem
    cases hmem
  · rw [List.mem_singleton.mp hj]
    exact hi.lock

theorem step_brelseNext (h : LogInv sb σ m) {bufs : List (Fin NBUF)} (hp : σ.pc p = .brelse (i :: bufs) pc) :
    LogInv sb ({ σ with bcache := σ.bcache.brelse i }.goto p (.brelse bufs pc)) m := by
  obtain ⟨hphase, hheld⟩ := h.at_point hp
  obtain ⟨hplain, hnodup, hlock⟩ := hheld
  obtain ⟨hi, hnodup⟩ := List.nodup_cons.mp hnodup
  have hk : Keeps p σ.bcache (σ.bcache.brelse i) := .brelse (hlock i (List.mem_cons_self ..))
  refine h.sysStep hp (by rintro ⟨⟩) (by rintro ⟨⟩) (h.got_none hp fun _ hc => hc) hk
    (h.cache.brelse (hlock i (List.mem_cons_self ..))) h.lh (h.dirty_keeps hk) rfl rfl (fun _ _ _ hs => hs.brelse i)
    (show Phase sb _ m pc from Phase.congr (σ := σ) rfl rfl rfl hk hphase) ⟨hplain, hnodup, fun j hj => ?_⟩
  · have hne : j ≠ i := by
      rintro rfl
      exact hi hj
    rw [brelse_buf, set_buf, if_neg hne]
    exact hlock j (List.mem_cons_of_mem _ hj)

theorem step_brelseEnd (h : LogInv sb σ m) (hp : σ.pc p = .brelse [] pc) : LogInv sb (σ.goto p pc) m := by
  obtain ⟨hphase, hheld⟩ := h.at_point hp
  obtain ⟨hplain, -⟩ := hheld
  refine h.sysStep hp (by rintro ⟨⟩) (fun hc => ?_) (h.got_none hp fun _ hc => hc) (.refl p _) h.cache h.lh h.dirty
    rfl rfl (fun _ _ _ hs => hs) hphase ?_
  · rw [hc] at hplain
    exact hplain
  · cases pc with
    | writeLog | install | done => trivial
    | _ => exact hplain.elim

/-! ## Returning from the log -/

/-- Nobody else is in the log. -/
theorem others_user (h : LogInv sb σ m) (hp : σ.pc p ≠ .user) (hq : q ≠ p) : σ.pc q = .user := by
  by_contra hc
  exact hq (h.one q p hc hp)

theorem update_user (h : LogInv sb σ m) (hp : σ.pc p ≠ .user) (q : Fin NPROC) :
    Function.update σ.pc p .user q = .user := by
  rw [Function.update_apply]
  split
  · rfl
  · next hq => exact h.others_user hp hq

/-- The log is as it is when nobody is in it, and the store of the file system is stable. -/
theorem step_done (h : LogInv sb σ m) (hp : σ.pc p = .done) :
    LogInv sb ({ σ with log := { σ.log with committing := false }, up := true }.goto p .user) m := by
  obtain ⟨⟨hinst, hdisk⟩, -⟩ := h.at_point hp
  have hne : σ.pc p ≠ .user := by
    rw [hp]
    rintro ⟨⟩
  have huser := h.update_user hne
  refine ⟨h.cache, fun _ b hb => ?_, h.dirty, h.lh, h.active, h.outstanding, fun hc => ?_, fun _ => rfl,
    fun q hq => absurd (huser q) hq, fun q _ hq => absurd (huser q) hq, fun _ => hdisk, fun q => ?_, fun q => ?_,
    fun q j hj => ?_⟩
  · have hshows := h.cache.shows_disk (b := b) fun i _ => by
      by_contra hd
      have hmem := h.dirty i (Bool.not_eq_false _ ▸ hd)
      rw [hinst.lh] at hmem
      cases hmem
    rw [← hinst.same, ← hinst.home b hb]
    exact hshows
  · rcases hc with hc | hc <;> cases hc
  · show Phase sb _ m (Function.update σ.pc p .user q)
    rw [huser q]
    trivial
  · show Held sb _ _ q (Function.update σ.pc p .user q)
    rw [huser q]
    trivial
  · obtain ⟨b, hb, hnames⟩ := h.got q j hj
    refine ⟨b, ?_, hnames⟩
    by_cases hq : q = p
    · rw [hq, hp] at hb
      exact hb.elim
    · show Asks sb _ (Function.update σ.pc p .user q) b
      rw [huser q]
      rwa [h.others_user hne hq] at hb

/-! ## File system calls -/

/-- While a call may do something, nobody is in the log. -/
theorem all_user (h : LogInv sb σ m) (hup : σ.up = true) (hcommitting : σ.log.committing = false) (q : Fin NPROC) :
    σ.pc q = .user := by
  by_contra hc
  rcases h.inLog q hc with hcommit | hdown
  · rw [hcommitting] at hcommit
    cases hcommit
  · rw [hup] at hdown
    cases hdown

theorem committing_of_op (h : LogInv sb σ m) {bs : Finset Nat} (hop : σ.op p = some bs) :
    σ.log.committing = false := by
  by_contra hc
  have hnone := h.noOps (Or.inl (Bool.not_eq_false _ ▸ hc)) p
  rw [hop] at hnone
  cases hnone

omit sb σ m in
theorem mem_openOps {op : Fin NPROC → Option (Finset Nat)} : p ∈ openOps op ↔ (op p).isSome := by
  rw [openOps, Finset.mem_filter, and_iff_right (Finset.mem_univ p)]

omit sb σ m in
/-- A call that is open, or not, changes the open calls by itself. -/
theorem openOps_update (op : Fin NPROC → Option (Finset Nat)) (p : Fin NPROC) (x : Option (Finset Nat)) :
    openOps (Function.update op p x) = if x.isSome then insert p (openOps op) else (openOps op).erase p := by
  ext q
  rw [mem_openOps, Function.update_apply]
  by_cases hq : q = p
  · subst hq
    cases x <;> simp
  · cases x <;> simp [hq, mem_openOps]

theorem isSome_update (h : LogInv sb σ m) (p : Fin NPROC) (x : Option (Finset Nat)) {P : Prop}
    (hx : P ↔ x.isSome = true) (q : Fin NPROC) :
    Function.update m.active p P q ↔ (Function.update σ.op p x q).isSome = true := by
  rw [Function.update_apply, Function.update_apply]
  split
  · exact hx
  · exact h.active q

/-- A step of a file system call that leaves the disk as it is. -/
theorem callStep (h : LogInv sb σ m) {log : Log} {x : Option (Finset Nat)} {P : Prop} (hup : σ.up = true)
    (hcommitting : σ.log.committing = false) (hlog : log.committing = false) (hcache : s.Inv σ.disk σ.got)
    (hnames : ∀ i b, σ.bcache.Names i b → s.Names i b) (hlh : LhOk sb log.lh)
    (hdirty : ∀ i, (s.buf i).dirty = true → (s.buf i).blockno ∈ log.lh)
    (hshows : ∀ b, sb.IsData b → s.Shows σ.disk b (m'.current b)) (hstable : m'.stable = m.stable)
    (hactive : m'.active = Function.update m.active p P) (hP : P ↔ x.isSome = true)
    (hcount : log.outstanding = (openOps (Function.update σ.op p x)).card) :
    LogInv sb { σ with bcache := s, log := log, op := Function.update σ.op p x } m' := by
  have huser := h.all_user hup hcommitting
  refine ⟨hcache, fun _ => hshows, hdirty, hlh, fun q => ?_, hcount, fun hc => ?_, fun _ => hup,
    fun q hq => absurd (huser q) hq, fun q _ hq => absurd (huser q) hq, fun _ => ?_, fun q => ?_, fun q => ?_,
    fun q j hj => ?_⟩
  · rw [hactive]
    exact h.isSome_update p x hP q
  · rcases hc with hc | hc
    · rw [show Log.committing _ = _ from hlog] at hc
      cases hc
    · rw [show FsState.up _ = σ.up from rfl, hup] at hc
      cases hc
  · rw [hstable]
    exact h.idle huser
  · show Phase sb _ m' (σ.pc q)
    rw [huser q]
    trivial
  · show Held sb _ _ q (σ.pc q)
    rw [huser q]
    trivial
  · obtain ⟨b, hb, hn⟩ := h.got q j hj
    refine ⟨b, ?_, hnames j b hn⟩
    show Asks sb _ (σ.pc q) b
    rw [huser q] at hb ⊢
    exact hb

theorem step_beginOp (h : LogInv sb σ m) (hp : σ.Runs p) (hop : σ.op p = none) (ha : σ.Admits) :
    LogInv sb (σ.beginOp p) { m with active := Function.update m.active p True } := by
  refine h.callStep (P := True) hp.up ha.committing ha.committing h.cache (fun _ _ hn => hn) h.lh h.dirty
    (h.shows hp.up) rfl rfl (iff_of_true trivial rfl) ?_
  have hnot : p ∉ openOps σ.op := by
    rw [mem_openOps, hop]
    exact Bool.false_ne_true
  rw [openOps_update, Option.isSome_some, if_pos rfl, Finset.card_insert_of_notMem hnot, ← h.outstanding]

/-- A block that is logged joins the list unless it is there already. -/
theorem lhOk_logWrite (h : LhOk sb l) (hb : sb.IsData b) (hbig : ¬ (LOGSIZE ≤ l.length ∨ sb.nlog - 1 ≤ l.length)) :
    LhOk sb (if b ∈ l then l else l ++ [b]) := by
  push Not at hbig
  split
  · exact h
  · next hnot =>
    refine ⟨List.nodup_append.mpr ⟨h.nodup, List.nodup_singleton b, fun x hx y hy => ?_⟩, fun x hx => ?_, ?_, ?_⟩
    · rw [List.mem_singleton.mp hy]
      rintro rfl
      exact hnot hx
    · rcases List.mem_append.mp hx with hx | hx
      · exact h.data x hx
      · rw [List.mem_singleton.mp hx]
        exact hb
    · rw [List.length_append, List.length_singleton]
      omega
    · rw [List.length_append, List.length_singleton]
      omega

theorem step_logWrite (h : LogInv sb σ m) {bs : Finset Nat} (hp : σ.Runs p) (hlock : (σ.bcache.buf i).lock = some p)
    (hop : σ.op p = some bs) (hdata : sb.IsData (σ.bcache.buf i).blockno) (hbig : ¬ σ.TooBig sb) (d : Block) :
    LogInv sb (σ.logWrite p bs i d)
      { m with current := Function.update m.current (σ.bcache.buf i).blockno d } := by
  have hcommit := h.committing_of_op hop
  have hactive : Function.update m.active p True = m.active := by
    rw [Function.update_eq_self_iff]
    exact (eq_true ((h.active p).mpr (by rw [hop]; rfl))).symm
  have hmem : ∀ b ∈ σ.log.lh, b ∈ if (σ.bcache.buf i).blockno ∈ σ.log.lh then σ.log.lh
      else σ.log.lh ++ [(σ.bcache.buf i).blockno] := by
    intro b hb
    split
    · exact hb
    · exact List.mem_append_left _ hb
  have hself : (σ.bcache.buf i).blockno ∈ if (σ.bcache.buf i).blockno ∈ σ.log.lh then σ.log.lh
      else σ.log.lh ++ [(σ.bcache.buf i).blockno] := by
    split
    · assumption
    · exact List.mem_append_right _ (List.mem_singleton.mpr rfl)
  refine h.callStep (P := True) hp.up hcommit hcommit (h.cache.pin hlock) (fun j b hn => ?_)
    (lhOk_logWrite h.lh hdata hbig) (fun j hd => ?_) (fun b hb => ?_) rfl hactive.symm (iff_of_true trivial rfl) ?_
  · rw [set_names]
    split
    · next hj => exact hj ▸ hn
    · exact hn
  · show (Buf.blockno (Bcache.buf (σ.bcache.set i _) j)) ∈ _
    have hd' : Buf.dirty (Bcache.buf (σ.bcache.set i _) j) = true := hd
    by_cases hj : j = i
    · rw [set_buf, if_pos hj]
      exact hself
    · rw [set_buf, if_neg hj] at hd' ⊢
      exact hmem _ (h.dirty j hd')
  · refine Shows.pin (fun hne => ?_) h.cache hlock fun heq => ?_
    · show σ.bcache.Shows σ.disk b (Function.update m.current _ d b)
      rw [Function.update_of_ne hne]
      exact h.shows hp.up b hb
    · show d = Function.update m.current _ d b
      rw [heq, Function.update_self]
  · have hin : p ∈ openOps σ.op := by
      rw [mem_openOps, hop]
      rfl
    rw [openOps_update, Option.isSome_some, if_pos rfl, Finset.insert_eq_of_mem hin]
    exact h.outstanding

/-- `end_op` when other calls are in progress. -/
theorem step_finish (h : LogInv sb σ m) {bs : Finset Nat} (hp : σ.Runs p) (hop : σ.op p = some bs) :
    LogInv sb { σ with
        log := { σ.log with outstanding := σ.log.outstanding - 1 }
        op := Function.update σ.op p none } { m with active := Function.update m.active p False } := by
  have hcommit := h.committing_of_op hop
  refine h.callStep (P := False) hp.up hcommit hcommit h.cache (fun _ _ hn => hn) h.lh h.dirty (h.shows hp.up) rfl rfl
    (iff_of_false not_false Bool.false_ne_true) ?_
  have hin : p ∈ openOps σ.op := by
    rw [mem_openOps, hop]
    rfl
  rw [openOps_update, Option.isSome_none, if_neg Bool.false_ne_true, Finset.card_erase_of_mem hin, ← h.outstanding]

/-- With no call in progress a process may enter the log. -/
theorem step_commit (h : LogInv sb σ m) (hup : σ.up = true) (hcommitting : σ.log.committing = false)
    (hops : ∀ q, σ.op q = none) (hgot : σ.got p = none) (hplain : pc.Plain) (hcurrent : m'.current = m.current)
    (hactive : m'.active = m.active) (hphase : Phase sb σ m' pc) :
    LogInv sb ({ σ with log := { σ.log with committing := true } }.goto p pc) m' := by
  have huser := h.all_user hup hcommitting
  have hself : Function.update σ.pc p pc p = pc := Function.update_self ..
  have hother : ∀ q, q ≠ p → Function.update σ.pc p pc q = .user := fun q hq => by
    rw [Function.update_of_ne hq, huser q]
  have hne : pc ≠ .user := by
    rintro rfl
    exact hplain
  refine ⟨h.cache, fun hup b hb => ?_, h.dirty, h.lh, fun q => ?_, h.outstanding, fun _ => hops, fun _ => hup,
    fun q _ => Or.inl rfl, fun q q' hq hq' => ?_, fun hall => ?_, fun q => ?_, fun q => ?_, fun q j hj => ?_⟩
  · rw [hcurrent]
    exact h.shows hup b hb
  · rw [hactive]
    exact h.active q
  · have hqp : q = p := by
      by_contra hc
      exact hq (hother q hc)
    have hqp' : q' = p := by
      by_contra hc
      exact hq' (hother q' hc)
    rw [hqp, hqp']
  · exact absurd (hself.symm.trans (hall p)) hne
  · show Phase sb _ m' (Function.update σ.pc p pc q)
    by_cases hq : q = p
    · rw [hq, hself]
      exact Phase.congr (σ := σ) rfl rfl rfl (.refl p _) hphase
    · rw [hother q hq]
      trivial
  · show Held sb σ.log.lh σ.bcache q (Function.update σ.pc p pc q)
    by_cases hq : q = p
    · rw [hq, hself]
      cases pc with
      | writeLog | install | done => trivial
      | _ => exact hplain.elim
    · rw [hother q hq]
      trivial
  · have hqp : q ≠ p := by
      rintro rfl
      have hj' : σ.got q = some j := hj
      rw [hgot] at hj'
      cases hj'
    obtain ⟨b, hb, hn⟩ := h.got q j hj
    refine ⟨b, ?_, hn⟩
    show Asks sb _ (Function.update σ.pc p pc q) b
    rw [hother q hqp]
    rwa [huser q] at hb

/-- The store after `end_op`: without anything logged, what is current is stable already. -/
def endOpStore (σ : FsState) (m : Txn.State (Fin NPROC) Nat Block) (p : Fin NPROC) :
    Txn.State (Fin NPROC) Nat Block :=
  { m with
    active := Function.update m.active p False
    stable := if σ.log.outstanding - 1 = 0 ∧ σ.log.lh = [] then m.current else m.stable }

theorem op_none_of_last (h : LogInv sb σ m) {bs : Finset Nat} (hop : σ.op p = some bs)
    (hlast : σ.log.outstanding - 1 = 0) (q : Fin NPROC) : Function.update σ.op p none q = none := by
  have hin : p ∈ openOps σ.op := by
    rw [mem_openOps, hop]
    rfl
  have hempty : openOps (Function.update σ.op p none) = ∅ := by
    rw [openOps_update, Option.isSome_none, if_neg Bool.false_ne_true, ← Finset.card_eq_zero,
      Finset.card_erase_of_mem hin, ← h.outstanding, hlast]
  by_contra hc
  have hq := mem_openOps.mpr (Option.isSome_iff_ne_none.mpr hc)
  rw [hempty] at hq
  exact Finset.notMem_empty q hq

theorem step_endOp (h : LogInv sb σ m) {bs : Finset Nat} (hp : σ.Runs p) (hop : σ.op p = some bs) :
    LogInv sb (σ.endOp p) (endOpStore σ m p) := by
  have hcommit := h.committing_of_op hop
  have hfinish := h.step_finish hp hop
  have hidle := h.idle (h.all_user hp.up hcommit)
  unfold FsState.endOp endOpStore
  by_cases hlast : σ.log.outstanding - 1 = 0
  · have hops := h.op_none_of_last hop hlast
    by_cases hlh : σ.log.lh = []
    · rw [if_pos hlast, if_pos hlh, if_pos ⟨hlast, hlh⟩]
      have hstable : ∀ b, sb.IsData b → m.current b = m.stable b := by
        intro b hb
        rw [← h.disk_current hp.up hb (by rw [hlh]; exact List.not_mem_nil), hidle.home b hb List.not_mem_nil]
      have hdisk := hidle.congr hstable
      have hplain : LogPc.done.Plain := trivial
      refine hfinish.step_commit hp.up hcommit hops hp.got hplain rfl rfl
        ⟨⟨⟨[], hdisk⟩, rfl, hlh, fun b hb => ?_⟩, hdisk⟩
      exact hdisk.home b hb List.not_mem_nil
    · rw [if_pos hlast, if_neg hlh, if_neg fun hc => hlh hc.2]
      have hplain : (LogPc.writeLog 0).Plain := trivial
      exact hfinish.step_commit hp.up hcommit hops hp.got hplain rfl rfl
        ⟨hp.up, hidle, fun k b hk _ => absurd hk (Nat.not_lt_zero k)⟩
  · rw [if_neg hlast, if_neg fun hc => hlast hc.1]
    exact hfinish

end LogInv

end Jos.Xv6
