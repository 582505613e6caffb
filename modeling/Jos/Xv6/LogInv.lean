import Jos.Xv6.Log

/-!
# The invariant of the log

The disk has the stable contents of all blocks at every moment, those that the header lists in the log and the others
at home (`OnDisk`). At the points of `commit` and of the recovery, `Phase` says how far the copies have come.
-/

namespace Jos.Xv6

open Bcache FsState

variable {sb : Superblock} {σ σ' : FsState} {m m' : Txn.State (Fin NPROC) Nat Block} {p q : Fin NPROC}
  {i j : Fin NBUF} {b t : Nat} {l : List Nat} {disk disk' stable : Nat → Block} {s s' : Bcache} {pc : LogPc}

/-! ## The disk -/

/-- A list of blocks that the log can have. -/
structure LhOk (sb : Superblock) (l : List Nat) : Prop where
  nodup : l.Nodup
  data : ∀ b ∈ l, sb.IsData b
  length : l.length < sb.nlog ∧ l.length ≤ LOGSIZE

/-- The disk has the contents `stable`, with the blocks of list `l` in the log. -/
structure OnDisk (sb : Superblock) (disk stable : Nat → Block) (l : List Nat) : Prop where
  header : readHead (disk sb.logstart) = l
  ok : LhOk sb l
  log : ∀ t b, l[t]? = some b → disk (sb.logstart + t + 1) = stable b
  home : ∀ b, sb.IsData b → b ∉ l → disk b = stable b

theorem LhOk.nil (sb : Superblock) : LhOk sb [] :=
  ⟨List.nodup_nil, fun _ hb => (by cases hb), sb.nlog_pos, Nat.zero_le _⟩

theorem word_writeHead_zero (l : List Nat) (x : Block) : word (writeHead l x) 0 = BitVec.ofNat 32 l.length := by
  rw [word, dif_pos (by decide), writeHead, if_pos rfl]

theorem word_writeHead_succ {x : Block} (hb : l[t]? = some b) (ht : t < 127) :
    word (writeHead l x) (t + 1) = BitVec.ofNat 32 b := by
  rw [word, dif_pos (by omega), writeHead, if_neg (Nat.succ_ne_zero t)]
  simp only [Nat.add_sub_cancel, hb, Option.map_some, Option.getD_some]

/-- What `write_head` writes, `read_head` reads. -/
theorem readHead_writeHead (hl : LhOk sb l) (x : Block) : readHead (writeHead l x) = l := by
  have hlen : l.length ≤ 30 := hl.length.2
  have hn : (BitVec.ofNat 32 l.length).toInt.toNat = l.length := by
    rw [BitVec.toInt_eq_toNat_cond, BitVec.toNat_ofNat]
    split <;> omega
  unfold readHead
  rw [word_writeHead_zero, hn]
  refine List.ext_getElem (by simp) fun t h₁ h₂ => ?_
  have hb : l[t]? = some l[t] := List.getElem?_eq_getElem h₂
  have hdata := (hl.data _ (List.getElem_mem h₂)).1
  have hmax : FSSIZE < 2 ^ 32 := by decide
  rw [List.getElem_map, List.getElem_range, word_writeHead_succ hb (by omega), BitVec.toNat_ofNat]
  exact Nat.mod_eq_of_lt (hdata.trans hmax)

namespace Superblock.IsData

theorem ne_logstart (hb : sb.IsData b) : b ≠ sb.logstart := by
  have hpos := sb.nlog_pos
  have := hb.2
  omega

theorem ne_log (hb : sb.IsData b) (ht : t + 1 < sb.nlog) : b ≠ sb.logstart + t + 1 := by
  have := hb.2
  omega

end Superblock.IsData

namespace OnDisk

variable {x : Block}

theorem congr (h : OnDisk sb disk stable l) {stable' : Nat → Block}
    (hs : ∀ b, sb.IsData b → stable' b = stable b) : OnDisk sb disk stable' l where
  header := h.header
  ok := h.ok
  log t b hb := by rw [h.log t b hb, hs b (h.ok.data b (List.mem_of_getElem? hb))]
  home b hb hl := by rw [h.home b hb hl, hs b hb]

/-- As long as the header is empty the log blocks may be written. -/
theorem fill (h : OnDisk sb disk stable []) (ht : t + 1 < sb.nlog) :
    OnDisk sb (Function.update disk (sb.logstart + t + 1) x) stable [] where
  header := by rw [Function.update_of_ne (by omega), h.header]
  ok := h.ok
  log t b hb := by cases hb
  home b hb hl := by rw [Function.update_of_ne (hb.ne_log ht), h.home b hb hl]

/-- The header makes the contents of the log the stable ones. -/
theorem commit (h : OnDisk sb disk stable []) (hl : LhOk sb l) {current : Nat → Block}
    (hlog : ∀ t b, l[t]? = some b → disk (sb.logstart + t + 1) = current b)
    (hhome : ∀ b, sb.IsData b → b ∉ l → current b = stable b) :
    OnDisk sb (Function.update disk sb.logstart (writeHead l x)) current l where
  header := by rw [Function.update_self, readHead_writeHead hl]
  ok := hl
  log t b hb := by rw [Function.update_of_ne (by omega), hlog t b hb]
  home b hb hbl := by rw [Function.update_of_ne hb.ne_logstart, h.home b hb List.not_mem_nil, hhome b hb hbl]

/-- A block of the log is copied home. -/
theorem install (h : OnDisk sb disk stable l) (hb : b ∈ l) :
    OnDisk sb (Function.update disk b (stable b)) stable l where
  header := by rw [Function.update_of_ne (h.ok.data b hb).ne_logstart.symm, h.header]
  ok := h.ok
  log t b' hb' := by
    have hlt := (List.getElem?_eq_some_iff.mp hb').1
    have hlen := h.ok.length.1
    rw [Function.update_of_ne ((h.ok.data b hb).ne_log (by omega)).symm, h.log t b' hb']
  home b' hb' hl' := by
    have hne : b' ≠ b := by
      rintro rfl
      exact hl' hb
    rw [Function.update_of_ne hne, h.home b' hb' hl']

/-- With everything at home the header can go. -/
theorem clear (hhome : ∀ b, sb.IsData b → disk b = stable b) :
    OnDisk sb (Function.update disk sb.logstart (writeHead [] x)) stable [] where
  header := by rw [Function.update_self, readHead_writeHead (LhOk.nil sb)]
  ok := LhOk.nil sb
  log t b hb := by cases hb
  home b hb _ := by rw [Function.update_of_ne hb.ne_logstart, hhome b hb]

end OnDisk

/-! ## The invariant -/

/-- In `write_log`: the current contents of `t` blocks have been copied to the log. -/
structure Filling (sb : Superblock) (σ : FsState) (m : Txn.State (Fin NPROC) Nat Block) (t : Nat) : Prop where
  up : σ.up = true
  disk : OnDisk sb σ.disk m.stable []
  copied : ∀ k b, k < t → σ.log.lh[k]? = some b → σ.disk (sb.logstart + k + 1) = m.current b

/-- In `install_trans`: `t` blocks have been copied home. -/
structure Installing (sb : Superblock) (σ : FsState) (m : Txn.State (Fin NPROC) Nat Block) (t : Nat) : Prop where
  disk : OnDisk sb σ.disk m.stable σ.log.lh
  same : m.stable = m.current
  copied : ∀ k b, k < t → σ.log.lh[k]? = some b → σ.disk b = m.stable b
  clean : ∀ i k, (σ.bcache.buf i).dirty = true → k < t → σ.log.lh[k]? ≠ some (σ.bcache.buf i).blockno

/-- All blocks are at home, whatever the header says. -/
structure Installed (sb : Superblock) (σ : FsState) (m : Txn.State (Fin NPROC) Nat Block) : Prop where
  disk : ∃ l, OnDisk sb σ.disk m.stable l
  same : m.stable = m.current
  lh : σ.log.lh = []
  home : ∀ b, sb.IsData b → σ.disk b = m.stable b

/-- There is a header or none, and nothing has been done about it. -/
structure Recovering (sb : Superblock) (σ : FsState) (m : Txn.State (Fin NPROC) Nat Block) : Prop where
  disk : ∃ l, OnDisk sb σ.disk m.stable l
  same : m.stable = m.current
  lh : σ.log.lh = []

/-- What holds at a point of the log. -/
def Phase (sb : Superblock) (σ : FsState) (m : Txn.State (Fin NPROC) Nat Block) : LogPc → Prop
  | .user => True
  | .writeLog tail | .writeLogFrom tail _ | .writeLogCopy tail _ _ => Filling sb σ m tail
  | .writeHead | .writeHeadCopy _ => Filling sb σ m σ.log.lh.length
  | .install tail | .installDst tail _ | .installCopy tail _ _ => Installing sb σ m tail
  | .clearHead | .clearHeadCopy _ => Installed sb σ m
  | .done => Installed sb σ m ∧ OnDisk sb σ.disk m.stable []
  | .readHead | .readHeadCopy _ => Recovering sb σ m
  | .brelse _ k => Phase sb σ m k

/-- Process `p` has locked the buffer of block `b`. -/
structure Has (s : Bcache) (p : Fin NPROC) (i : Fin NBUF) (b : Nat) : Prop where
  lock : (s.buf i).lock = some p
  names : s.Names i b

/-- Points with no buffer. -/
def LogPc.Plain : LogPc → Prop
  | .writeLog _ | .install _ | .done => True
  | _ => False

/-- The buffers that a process has at a point of the log. -/
def Held (sb : Superblock) (lh : List Nat) (s : Bcache) (p : Fin NPROC) : LogPc → Prop
  | .writeLogFrom tail dst | .installDst tail dst => tail < lh.length ∧ Has s p dst (sb.logstart + tail + 1)
  | .writeLogCopy tail dst src => tail < lh.length ∧ Has s p dst (sb.logstart + tail + 1) ∧
      ∃ b, lh[tail]? = some b ∧ Has s p src b
  | .installCopy tail lbuf dbuf => tail < lh.length ∧ Has s p lbuf (sb.logstart + tail + 1) ∧
      ∃ b, lh[tail]? = some b ∧ Has s p dbuf b
  | .writeHeadCopy i | .clearHeadCopy i | .readHeadCopy i => Has s p i sb.logstart
  | .brelse bufs k => k.Plain ∧ bufs.Nodup ∧ ∀ i ∈ bufs, (s.buf i).lock = some p
  | _ => True

/-- The processes with a file system call in progress. -/
def openOps (op : Fin NPROC → Option (Finset Nat)) : Finset (Fin NPROC) := Finset.univ.filter fun p => (op p).isSome

/-- The invariant, with the store that the file system sees. -/
structure LogInv (sb : Superblock) (σ : FsState) (m : Txn.State (Fin NPROC) Nat Block) : Prop where
  cache : σ.bcache.Inv σ.disk σ.got
  shows : σ.up = true → ∀ b, sb.IsData b → σ.bcache.Shows σ.disk b (m.current b)
  dirty : ∀ i, (σ.bcache.buf i).dirty = true → (σ.bcache.buf i).blockno ∈ σ.log.lh
  lh : LhOk sb σ.log.lh
  active : ∀ p, m.active p ↔ (σ.op p).isSome
  outstanding : σ.log.outstanding = (openOps σ.op).card
  noOps : σ.log.committing = true ∨ σ.up = false → ∀ p, σ.op p = none
  committing : σ.log.committing = true → σ.up = true
  inLog : ∀ p, σ.pc p ≠ .user → σ.log.committing = true ∨ σ.up = false
  one : ∀ p q, σ.pc p ≠ .user → σ.pc q ≠ .user → p = q
  idle : (∀ p, σ.pc p = .user) → OnDisk sb σ.disk m.stable []
  phase : ∀ p, Phase sb σ m (σ.pc p)
  held : ∀ p, Held sb σ.log.lh σ.bcache p (σ.pc p)
  got : ∀ p i, σ.got p = some i → ∃ b, Asks sb σ.log.lh (σ.pc p) b ∧ σ.bcache.Names i b

end Jos.Xv6
