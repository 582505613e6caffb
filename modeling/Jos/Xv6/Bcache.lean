import Jos.Lib.RefCount
import Jos.Xv6.Dup2

/-!
# The buffer cache of xv6 (`bio.c`, `ide.c`)

Buffers hold copies of disk blocks. `bget` looks for the buffer of a block or recycles one that nobody uses and that
is not dirty; `brelse` moves a buffer that nobody uses any more to the front of the list, so that the one to recycle
is looked for among those that have not been used for longest. The list through `prev` and `next` is a list of
buffers here, with `head.next` first. A sleep lock is the process that has it.

All blocks are of the disk `ROOTDEV`. Reading and writing the disk is one step, as the process that waits for it has
the buffer locked. What the functions hand to each other is kept by `Bcache.Inv`: a block has at most one buffer, and
a buffer that is not dirty has what the disk has.
-/

namespace Jos.Xv6

abbrev ROOTDEV : Nat := 1

/-- Max number of blocks any FS op writes. -/
abbrev MAXOPBLOCKS : Nat := 10

/-- Max data blocks in the on-disk log. -/
abbrev LOGSIZE : Nat := MAXOPBLOCKS * 3

/-- Size of the disk block cache. -/
abbrev NBUF : Nat := MAXOPBLOCKS * 3

/-- Size of the file system in blocks. -/
abbrev FSSIZE : Nat := 1000

/-- The `BSIZE` bytes of a block, as words. -/
abbrev Block := Fin 128 → BitVec 32

/-- `struct buf`; `valid` and `dirty` are its flags. -/
structure Buf where
  valid : Bool
  dirty : Bool
  dev : Nat
  blockno : Nat
  lock : Option (Fin NPROC)
  refcnt : Nat
  data : Block

/-- The buffers and the list they are on. -/
structure Bcache where
  buf : Fin NBUF → Buf
  lru : List (Fin NBUF)

/-- All buffers as they are at boot: on the list, the last one in front, and for no block. -/
def binit : Bcache where
  buf _ := ⟨false, false, 0, 0, none, 0, fun _ => 0⟩
  lru := (List.finRange NBUF).reverse

namespace Bcache

/-- Change one buffer. -/
def set (s : Bcache) (i : Fin NBUF) (b : Buf) : Bcache := { s with buf := Function.update s.buf i b }

/-- Buffer `i` is for block `b`. -/
def Names (s : Bcache) (i : Fin NBUF) (b : Nat) : Prop := (s.buf i).dev = ROOTDEV ∧ (s.buf i).blockno = b

instance (s : Bcache) (i : Fin NBUF) (b : Nat) : Decidable (s.Names i b) := inferInstanceAs (Decidable (_ ∧ _))

/-- Look for the buffer of a block; if there is none, recycle an unused one. `none` is `panic("bget: no buffers")`.
The buffer that comes back is still to be locked. -/
def bget (s : Bcache) (b : Nat) : Option (Fin NBUF × Bcache) :=
  match s.lru.find? fun i => s.Names i b with
  | some i => some (i, s.set i { s.buf i with refcnt := (s.buf i).refcnt + 1 })
  | none =>
    -- even if `refcnt` is 0, a dirty buffer is in use, as the log has modified it and not committed it yet
    match s.lru.reverse.find? fun i => (s.buf i).refcnt = 0 ∧ (s.buf i).dirty = false with
    | some i =>
      some (i, s.set i { s.buf i with dev := ROOTDEV, blockno := b, valid := false, dirty := false, refcnt := 1 })
    | none => none

end Bcache

/-- Sync a buffer with the disk: write it if it is dirty, else read it. -/
def iderw (disk : Nat → Block) (b : Buf) : (Nat → Block) × Buf :=
  if b.dirty then (Function.update disk b.blockno b.data, { b with valid := true, dirty := false })
  else (disk, { b with data := disk b.blockno, valid := true })

/-- The rest of `bread`: process `p` locks the buffer that `bget` found, and reads the block if need be. -/
def breadLock (disk : Nat → Block) (p : Fin NPROC) (b : Buf) : (Nat → Block) × Buf :=
  let b := { b with lock := some p }
  if b.valid then (disk, b) else iderw disk b

/-- Write a buffer with new contents to disk. -/
def bwrite (disk : Nat → Block) (b : Buf) (data : Block) : (Nat → Block) × Buf :=
  iderw disk { b with data := data, dirty := true }

/-- Release a locked buffer and, if nobody is waiting for it, move it to the head of the list. -/
def Bcache.brelse (s : Bcache) (i : Fin NBUF) : Bcache :=
  let b := { s.buf i with lock := none, refcnt := (s.buf i).refcnt - 1 }
  { buf := Function.update s.buf i b
    lru := if b.refcnt = 0 then i :: s.lru.erase i else s.lru }

namespace Bcache

variable {s s' : Bcache} {disk disk' : Nat → Block} {got : Fin NPROC → Option (Fin NBUF)} {i j : Fin NBUF}
  {b b' : Nat} {p : Fin NPROC} {d : Block}

/-! ## The invariant -/

/-- The flags of a buffer mean what they say, and `refcnt` counts the `n` processes that wait for it and the one that
has it locked. -/
structure BufOk (disk : Nat → Block) (n : Nat) (x : Buf) : Prop where
  clean : x.dev = ROOTDEV → x.valid = true → x.dirty = false → x.data = disk x.blockno
  dirty : x.dirty = true → x.dev = ROOTDEV ∧ x.valid = true
  refcnt : x.refcnt = n + if x.lock.isSome then 1 else 0
  used : x.refcnt ≠ 0 → x.dev = ROOTDEV
  locked : x.lock.isSome → x.valid = true

/-- All buffers are on the list, and none is for the block of another. `got` are the buffers that processes wait
for. -/
structure Inv (s : Bcache) (disk : Nat → Block) (got : Fin NPROC → Option (Fin NBUF)) : Prop where
  nodup : s.lru.Nodup
  mem : ∀ i, i ∈ s.lru
  unique : ∀ i j b, s.Names i b → s.Names j b → i = j
  buf : ∀ i, BufOk disk (refCount Finset.univ got i) (s.buf i)

/-- The cache shows contents `d` of block `b`: a valid buffer has it, or else the disk. -/
structure Shows (s : Bcache) (disk : Nat → Block) (b : Nat) (d : Block) : Prop where
  cached : ∀ i, s.Names i b → (s.buf i).valid = true → (s.buf i).data = d
  uncached : (∀ i, s.Names i b → (s.buf i).valid = false) → disk b = d

theorem set_buf (s : Bcache) (i j : Fin NBUF) (x : Buf) : (s.set i x).buf j = if j = i then x else s.buf j :=
  Function.update_apply ..

theorem set_names {x : Buf} :
    (s.set i x).Names j b ↔ if j = i then x.dev = ROOTDEV ∧ x.blockno = b else s.Names j b := by
  unfold Names
  rw [set_buf]
  split <;> rfl

theorem binit_inv (disk : Nat → Block) : binit.Inv disk fun _ => none where
  nodup := List.nodup_reverse.mpr (List.nodup_finRange NBUF)
  mem i := List.mem_reverse.mpr (List.mem_finRange i)
  unique i j b hi _ := by
    have hdev : (0 : Nat) = ROOTDEV := hi.1
    cases hdev
  buf i := by
    have hcount : refCount Finset.univ (fun _ : Fin NPROC => (none : Option (Fin NBUF))) i = 0 :=
      refCount_eq_zero.mpr fun _ _ hc => by cases hc
    rw [hcount]
    exact ⟨fun _ hv => (by cases hv), fun hd => (by cases hd), rfl, fun hr => absurd rfl hr, fun hl => by cases hl⟩

namespace Inv

variable {got' : Fin NPROC → Option (Fin NBUF)} {x : Buf}

/-- A buffer changes, and with it perhaps the disk, but not a block that another buffer is for. -/
theorem set (h : s.Inv disk got) (hother : x.dev = ROOTDEV → ∀ j, s.Names j x.blockno → j = i)
    (hdisk : ∀ j b, j ≠ i → s.Names j b → disk' b = disk b)
    (hcount : ∀ j, j ≠ i → refCount Finset.univ got' j = refCount Finset.univ got j)
    (hx : BufOk disk' (refCount Finset.univ got' i) x) : (s.set i x).Inv disk' got' := by
  refine ⟨h.nodup, h.mem, fun j j' b hj hj' => ?_, fun j => ?_⟩
  · rw [set_names] at hj hj'
    split at hj
    · next hji =>
      split at hj'
      · next hji' => rw [hji, hji']
      · next hji' => exact absurd (hother hj.1 j' (hj.2 ▸ hj')) hji'
    · next hji =>
      split at hj'
      · next hji' => exact absurd (hother hj'.1 j (hj'.2 ▸ hj)) hji
      · exact h.unique j j' b hj hj'
  · rw [set_buf]
    split
    · next hj => rwa [hj]
    · next hj =>
      have hb := h.buf j
      rw [hcount j hj]
      refine ⟨fun hdev hv hd => ?_, hb.dirty, hb.refcnt, hb.used, hb.locked⟩
      rw [hdisk j _ hj ⟨hdev, rfl⟩]
      exact hb.clean hdev hv hd

/-- A buffer changes that goes on to be for the same block. -/
theorem set_same (h : s.Inv disk got) (hdev : (s.buf i).dev = ROOTDEV) (hblock : x.blockno = (s.buf i).blockno)
    (hdisk : ∀ b, b ≠ (s.buf i).blockno → disk' b = disk b)
    (hcount : ∀ j, j ≠ i → refCount Finset.univ got' j = refCount Finset.univ got j)
    (hx : BufOk disk' (refCount Finset.univ got' i) x) : (s.set i x).Inv disk' got' := by
  refine h.set (fun _ j hj => ?_) (fun j b hji hj => hdisk b fun hb => ?_) hcount hx
  · exact h.unique j i _ hj ⟨hdev, hblock.symm⟩
  · exact hji (h.unique j i b hj ⟨hdev, hb.symm⟩)

theorem refcnt_of_got (h : s.Inv disk got) (hgot : got p = some i) : (s.buf i).refcnt ≠ 0 := by
  have hpos := refCount_pos (Finset.mem_univ p) hgot
  have hcnt := (h.buf i).refcnt
  omega

theorem refcnt_of_lock (h : s.Inv disk got) (hlock : (s.buf i).lock = some p) : (s.buf i).refcnt ≠ 0 := by
  have hcnt := (h.buf i).refcnt
  rw [hlock, Option.isSome_some, if_pos rfl] at hcnt
  omega

theorem dev_of_got (h : s.Inv disk got) (hgot : got p = some i) : (s.buf i).dev = ROOTDEV :=
  (h.buf i).used (h.refcnt_of_got hgot)

theorem dev_of_lock (h : s.Inv disk got) (hlock : (s.buf i).lock = some p) : (s.buf i).dev = ROOTDEV :=
  (h.buf i).used (h.refcnt_of_lock hlock)

theorem valid_of_lock (h : s.Inv disk got) (hlock : (s.buf i).lock = some p) : (s.buf i).valid = true :=
  (h.buf i).locked (by rw [hlock]; rfl)

end Inv

/-! ## The functions -/

/-- What `bget` does: it finds the buffer of the block, or there is none and it takes one that nobody uses. -/
theorem bget_cases (h : s.bget b = some (i, s')) :
    (s.Names i b ∧ s' = s.set i { s.buf i with refcnt := (s.buf i).refcnt + 1 }) ∨
      ((∀ j ∈ s.lru, ¬ s.Names j b) ∧ (s.buf i).refcnt = 0 ∧ (s.buf i).dirty = false ∧ s' = s.set i { s.buf i with
        dev := ROOTDEV, blockno := b, valid := false, dirty := false, refcnt := 1 }) := by
  unfold bget at h
  split at h
  · next j hfind =>
    obtain ⟨rfl, rfl⟩ := Prod.mk.inj (Option.some.inj h)
    have hnames := List.find?_some hfind
    exact Or.inl ⟨of_decide_eq_true hnames, rfl⟩
  · next hnone =>
    split at h
    · next j hfind =>
      obtain ⟨rfl, rfl⟩ := Prod.mk.inj (Option.some.inj h)
      have hfree := List.find?_some hfind
      simp only [decide_eq_true_eq] at hfree
      refine Or.inr ⟨fun k hk hnames => ?_, hfree.1, hfree.2, rfl⟩
      exact List.find?_eq_none.mp hnone k hk (decide_eq_true hnames)
    · cases h

/-- The buffer that `bget` returns is for the block. -/
theorem bget_names (h : s.bget b = some (i, s')) : s'.Names i b := by
  rcases bget_cases h with ⟨hi, rfl⟩ | ⟨-, -, -, rfl⟩
  · rw [set_names, if_pos rfl]
    exact hi
  · rw [set_names, if_pos rfl]
    exact ⟨rfl, rfl⟩

/-- One more process waits for a buffer. -/
theorem refCount_got (hgot : got p = none) (i j : Fin NBUF) :
    refCount Finset.univ (Function.update got p (some i)) j
      = refCount Finset.univ got j + if j = i then 1 else 0 := by
  have hupdate := refCount_update (f := got) (a := j) (Finset.mem_univ p) (some i)
  rw [hgot, if_neg (by rintro ⟨⟩), Nat.add_zero] at hupdate
  rw [hupdate]
  simp only [Option.some.injEq, eq_comm]

/-- One process less waits for it. -/
theorem refCount_ungot (hgot : got p = some i) (j : Fin NBUF) :
    refCount Finset.univ (Function.update got p none) j + (if j = i then 1 else 0)
      = refCount Finset.univ got j := by
  have hupdate := refCount_update (f := got) (a := j) (Finset.mem_univ p) none
  rw [hgot, if_neg (c := none = some j) (by rintro ⟨⟩), Nat.add_zero] at hupdate
  rw [← hupdate]
  simp only [Option.some.injEq, eq_comm]

/-- `bget` keeps the invariant. -/
theorem Inv.bget (h : s.Inv disk got) (hgot : got p = none) (hb : s.bget b = some (i, s')) :
    s'.Inv disk (Function.update got p (some i)) := by
  have hcount : ∀ j, j ≠ i → refCount Finset.univ (Function.update got p (some i)) j
      = refCount Finset.univ got j := by
    intro j hj
    rw [refCount_got hgot, if_neg hj, Nat.add_zero]
  have hself : refCount Finset.univ (Function.update got p (some i)) i = refCount Finset.univ got i + 1 := by
    rw [refCount_got hgot, if_pos rfl]
  have hi := h.buf i
  have hcnt := hi.refcnt
  rcases bget_cases hb with ⟨hnames, rfl⟩ | ⟨hno, hzero, hdirty, rfl⟩
  · refine h.set_same hnames.1 rfl (fun _ _ => rfl) hcount ⟨hi.clean, hi.dirty, ?_, fun _ => hnames.1, hi.locked⟩
    simp only [hself]
    omega
  · refine h.set (fun _ j hj => absurd hj (hno j (h.mem j))) (fun _ _ _ _ => rfl) hcount
      ⟨fun _ hv => (by cases hv), fun hd => (by cases hd), ?_, fun _ => rfl, fun hl => ?_⟩
    · simp only [hself]
      omega
    · rw [if_pos hl] at hcnt
      omega

/-- What a buffer is when `bread` returns it. -/
theorem breadLock_eq (h : s.Inv disk got) (i : Fin NBUF) (p : Fin NPROC) : breadLock disk p (s.buf i) = (disk,
    { s.buf i with
      valid := true
      lock := some p
      data := if (s.buf i).valid then (s.buf i).data else disk (s.buf i).blockno }) := by
  unfold breadLock
  by_cases hv : (s.buf i).valid = true
  · simp only [hv, if_true]
  · have hd : ¬ (s.buf i).dirty = true := fun hd => hv ((h.buf i).dirty hd).2
    simp only [hv, iderw, hd]
    rfl

/-- `bread` keeps the invariant. -/
theorem Inv.breadLock (h : s.Inv disk got) (hgot : got p = some i) (hlock : (s.buf i).lock = none) :
    (s.set i (breadLock disk p (s.buf i)).2).Inv disk (Function.update got p none) := by
  have hi := h.buf i
  have hcnt := hi.refcnt
  have hself := refCount_ungot hgot i
  rw [if_pos rfl] at hself
  rw [hlock] at hcnt
  rw [breadLock_eq h]
  refine h.set_same (h.dev_of_got hgot) rfl (fun _ _ => rfl) (fun j hj => ?_)
    ⟨fun hdev _ hd => ?_, fun hd => ⟨(hi.dirty hd).1, rfl⟩, ?_, hi.used, fun _ => rfl⟩
  · have hcount := refCount_ungot hgot j
    rwa [if_neg hj, Nat.add_zero] at hcount
  · show (if _ then _ else _) = _
    split
    · next hv => exact hi.clean hdev hv hd
    · rfl
  · simp only [Option.isSome_none, Option.isSome_some, if_true] at hcnt ⊢
    rw [if_neg (by decide)] at hcnt
    omega

theorem bwrite_eq (disk : Nat → Block) (x : Buf) (d : Block) : bwrite disk x d
    = (Function.update disk x.blockno d, { x with data := d, valid := true, dirty := false }) := rfl

/-- `bwrite` keeps the invariant. -/
theorem Inv.bwrite (h : s.Inv disk got) (hlock : (s.buf i).lock = some p) :
    (s.set i (bwrite disk (s.buf i) d).2).Inv (bwrite disk (s.buf i) d).1 got := by
  have hi := h.buf i
  rw [bwrite_eq]
  refine h.set_same (h.dev_of_lock hlock) rfl (fun b hb => Function.update_of_ne hb ..) (fun _ _ => rfl)
    ⟨fun _ _ _ => ?_, fun hd => (by cases hd), hi.refcnt, hi.used, fun _ => rfl⟩
  simp only [Function.update_self]

/-- A buffer that is locked gets new contents, and is pinned. -/
theorem Inv.pin (h : s.Inv disk got) (hlock : (s.buf i).lock = some p) :
    (s.set i { s.buf i with data := d, dirty := true }).Inv disk got := by
  have hi := h.buf i
  exact h.set_same (h.dev_of_lock hlock) rfl (fun _ _ => rfl) (fun _ _ => rfl)
    ⟨fun _ _ hd => (by cases hd), fun _ => ⟨h.dev_of_lock hlock, h.valid_of_lock hlock⟩, hi.refcnt, hi.used,
      hi.locked⟩

theorem brelse_buf (s : Bcache) (i : Fin NBUF) : (s.brelse i).buf
    = (s.set i { s.buf i with lock := none, refcnt := (s.buf i).refcnt - 1 }).buf := rfl

/-- `brelse` keeps the invariant. -/
theorem Inv.brelse (h : s.Inv disk got) (hlock : (s.buf i).lock = some p) : (s.brelse i).Inv disk got := by
  have hi := h.buf i
  have hcnt := hi.refcnt
  rw [hlock] at hcnt
  have hset := h.set_same (h.dev_of_lock hlock) (x := { s.buf i with lock := none, refcnt := (s.buf i).refcnt - 1 })
    rfl (fun _ _ => rfl) (fun _ _ => rfl) ⟨hi.clean, hi.dirty, by simp [hcnt], fun _ => h.dev_of_lock hlock,
      fun hl => by cases hl⟩
  have hperm : (s.brelse i).lru.Perm s.lru := by
    unfold Bcache.brelse
    simp only
    split
    · exact (List.perm_cons_erase (h.mem i)).symm
    · exact .refl _
  exact ⟨hperm.nodup_iff.mpr h.nodup, fun j => hperm.mem_iff.mpr (h.mem j), hset.unique, hset.buf⟩

/-! ## What the cache shows -/

/-- A block that no dirty buffer is for is shown as it is on disk. -/
theorem Inv.shows_disk (h : s.Inv disk got) (hclean : ∀ i, s.Names i b → (s.buf i).dirty = false) :
    s.Shows disk b (disk b) where
  cached i hi hv := by
    rw [(h.buf i).clean hi.1 hv (hclean i hi), hi.2]
  uncached _ := rfl

theorem Inv.shows_eq (h : s.Inv disk got) (hs : s.Shows disk b d)
    (hclean : ∀ i, s.Names i b → (s.buf i).dirty = false) : disk b = d := by
  by_cases hv : ∃ i, s.Names i b ∧ (s.buf i).valid = true
  · obtain ⟨i, hi, hv⟩ := hv
    rw [← hs.cached i hi hv, (h.buf i).clean hi.1 hv (hclean i hi), hi.2]
  · refine hs.uncached fun i hi => ?_
    exact Bool.eq_false_iff.mpr fun hc => hv ⟨i, hi, hc⟩

namespace Shows

variable {x : Buf}

/-- A buffer changes that is and was for another block. -/
theorem set_other (hs : s.Shows disk b d) (hold : ¬ s.Names i b) (hnew : ¬ (x.dev = ROOTDEV ∧ x.blockno = b))
    (hdisk : disk' b = disk b) : (s.set i x).Shows disk' b d := by
  have hiff : ∀ j, (s.set i x).Names j b ↔ s.Names j b := by
    intro j
    rw [set_names]
    split
    · next hj => exact iff_of_false hnew (hj ▸ hold)
    · rfl
  have hbuf : ∀ j, s.Names j b → (s.set i x).buf j = s.buf j := by
    intro j hj
    rw [set_buf, if_neg]
    rintro rfl
    exact hold hj
  refine ⟨fun j hj hv => ?_, fun hnone => ?_⟩
  · rw [hiff] at hj
    rw [hbuf j hj] at hv ⊢
    exact hs.cached j hj hv
  · rw [hdisk]
    refine hs.uncached fun j hj => ?_
    rw [← hbuf j hj]
    exact hnone j ((hiff j).mpr hj)

/-- The buffer of the block changes. -/
theorem set_self (h : s.Inv disk got) (hi : s.Names i b) (hx : x.valid = true → x.data = d)
    (hdisk : x.valid = false → disk' b = d) (hblock : x.dev = ROOTDEV ∧ x.blockno = b) :
    (s.set i x).Shows disk' b d := by
  have honly : ∀ j, (s.set i x).Names j b → j = i := by
    intro j hj
    rw [set_names] at hj
    split at hj
    · assumption
    · exact h.unique j i b hj hi
  refine ⟨fun j hj hv => ?_, fun hnone => ?_⟩
  · obtain rfl := honly j hj
    rw [set_buf, if_pos rfl] at hv ⊢
    exact hx hv
  · have hself := hnone i (set_names.mpr (by rwa [if_pos rfl]))
    rw [set_buf, if_pos rfl] at hself
    exact hdisk hself

theorem bget (hs : s.Shows disk b' d) (h : s.Inv disk got) (hb : s.bget b = some (i, s')) : s'.Shows disk b' d := by
  rcases bget_cases hb with ⟨-, rfl⟩ | ⟨hno, -, hdirty, rfl⟩
  · by_cases hi : s.Names i b'
    · refine set_self h hi (hs.cached i hi) (fun hv => ?_) hi
      refine hs.uncached fun j hj => ?_
      rwa [h.unique j i b' hj hi]
    · exact hs.set_other hi hi rfl
  · have hno' : ∀ j, ¬ s.Names j b := fun j => hno j (h.mem j)
    by_cases hi : s.Names i b'
    · -- the block is on disk as the buffer had it
      have heq := h.shows_eq hs fun j hj => by rwa [h.unique j i b' hj hi]
      have hne : b ≠ b' := by
        rintro rfl
        exact hno' i hi
      have hnone : ∀ j, ¬ (s.set i { s.buf i with
          dev := ROOTDEV, blockno := b, valid := false, dirty := false, refcnt := 1 }).Names j b' := by
        intro j hj
        rw [set_names] at hj
        split at hj
        · exact hne hj.2
        · next hji => exact hji (h.unique j i b' hj hi)
      exact ⟨fun j hj => absurd hj (hnone j), fun _ => heq⟩
    · by_cases hb' : b = b'
      · subst hb'
        refine ⟨fun j hj hv => ?_, fun _ => hs.uncached fun j hj => absurd hj (hno' j)⟩
        rw [set_names] at hj
        split at hj
        · next hji =>
          rw [set_buf, if_pos hji] at hv
          cases hv
        · exact absurd hj (hno' j)
      · exact hs.set_other hi (fun hc => hb' hc.2) rfl

theorem breadLock (hs : s.Shows disk b d) (h : s.Inv disk got) :
    (s.set i (breadLock disk p (s.buf i)).2).Shows disk b d := by
  rw [breadLock_eq h]
  by_cases hi : s.Names i b
  · refine set_self h hi (fun _ => ?_) (fun hv => by cases hv) hi
    show (if _ then _ else _) = _
    split
    · next hv => exact hs.cached i hi hv
    · next hv =>
      rw [hi.2]
      refine hs.uncached fun j hj => ?_
      rw [h.unique j i b hj hi]
      exact Bool.eq_false_iff.mpr hv
  · exact hs.set_other hi hi rfl

theorem brelse (hs : s.Shows disk b d) (i : Fin NBUF) : (s.brelse i).Shows disk b d := by
  have hbuf : ∀ j, ((s.brelse i).buf j).dev = (s.buf j).dev ∧ ((s.brelse i).buf j).blockno = (s.buf j).blockno ∧
      ((s.brelse i).buf j).valid = (s.buf j).valid ∧ ((s.brelse i).buf j).data = (s.buf j).data := by
    intro j
    rw [brelse_buf, set_buf]
    split
    · next hj =>
      rw [hj]
      exact ⟨rfl, rfl, rfl, rfl⟩
    · exact ⟨rfl, rfl, rfl, rfl⟩
  have hnames : ∀ j, (s.brelse i).Names j b ↔ s.Names j b := fun j => by
    rw [Names, Names, (hbuf j).1, (hbuf j).2.1]
  refine ⟨fun j hj hv => ?_, fun hnone => hs.uncached fun j hj => ?_⟩
  · rw [(hbuf j).2.2.1] at hv
    rw [(hbuf j).2.2.2]
    exact hs.cached j ((hnames j).mp hj) hv
  · rw [← (hbuf j).2.2.1]
    exact hnone j ((hnames j).mpr hj)

/-- After a write to disk its block has the new contents, and the others are as before. -/
theorem bwrite (hs : b ≠ (s.buf i).blockno → s.Shows disk b d) (h : s.Inv disk got)
    (hlock : (s.buf i).lock = some p) {d' : Block} (hself : b = (s.buf i).blockno → d' = d) :
    (s.set i (bwrite disk (s.buf i) d').2).Shows (bwrite disk (s.buf i) d').1 b d := by
  rw [bwrite_eq]
  by_cases hb : b = (s.buf i).blockno
  · exact set_self h ⟨h.dev_of_lock hlock, hb.symm⟩ (fun _ => hself hb) (fun hv => by cases hv)
      ⟨h.dev_of_lock hlock, hb.symm⟩
  · exact (hs hb).set_other (fun hc => hb hc.2.symm) (fun hc => hb hc.2.symm) (Function.update_of_ne hb ..)

/-- The same without the disk, for a buffer that is pinned. -/
theorem pin (hs : b ≠ (s.buf i).blockno → s.Shows disk b d) (h : s.Inv disk got)
    (hlock : (s.buf i).lock = some p) {d' : Block} (hself : b = (s.buf i).blockno → d' = d) :
    (s.set i { s.buf i with data := d', dirty := true }).Shows disk b d := by
  by_cases hb : b = (s.buf i).blockno
  · refine set_self h ⟨h.dev_of_lock hlock, hb.symm⟩ (fun _ => hself hb) (fun hv => ?_)
      ⟨h.dev_of_lock hlock, hb.symm⟩
    have hv' : (s.buf i).valid = false := hv
    rw [h.valid_of_lock hlock] at hv'
    cases hv'
  · exact (hs hb).set_other (fun hc => hb hc.2.symm) (fun hc => hb hc.2.symm) rfl

end Shows

end Bcache

end Jos.Xv6
