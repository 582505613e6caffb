import Jos.Lib.BlockMove

/-!
# `memmove`

`lib/string.c` has `memmove` twice. `memmove` is the version with string instructions, which copies words where both
pointers and the length allow it, and `memmoveC` the loop over bytes in the `#else` branch. Both go downwards when
the destination begins inside the source, and upwards otherwise. Pointers are compared as unsigned numbers, the test
for whole words takes them for an `int`.

The two versions leave the same memory, in which the block was copied at once (`memmove_moved`, `memmoveC_moved`).
-/

namespace Jos

open BlockMove BlockMove.Regs

variable {m : BitVec 32 → BitVec 8} {r : Regs} {d s dst src n : BitVec 32} {k : Nat}

/-- `(int)a%4 == 0`. -/
def intWordAligned (a : BitVec 32) : Bool := a.toInt.tmod 4 == 0

/-- `(int)s%4 == 0 && (int)d%4 == 0 && n%4 == 0`. -/
def wholeWords (d s n : BitVec 32) : Bool :=
  intWordAligned s && intWordAligned d && n % 4#32 == 0#32

/-- The version with string instructions. -/
def memmove (r : Regs) (dst src n : BitVec 32) : Regs × BitVec 32 :=
  let s := src
  let d := dst
  if s < d ∧ d < s + n then
    let s := s + n
    let d := d + n
    let r :=
      if wholeWords d s n then
        rep movsl { r with edi := d - 4#32, esi := s - 4#32, ecx := n / 4#32 }.std
      else
        rep movsb { r with edi := d - 1#32, esi := s - 1#32, ecx := n }.std
    -- some versions of GCC rely on DF being clear
    (r.cld, dst)
  else if wholeWords d s n then
    (rep movsl { r with edi := d, esi := s, ecx := n / 4#32 }.cld, dst)
  else
    (rep movsb { r with edi := d, esi := s, ecx := n }.cld, dst)

/-- `while (n-- > 0) *--d = *--s;` -/
def copyDown (m : BitVec 32 → BitVec 8) (d s : BitVec 32) : Nat → BitVec 32 → BitVec 8
  | 0 => m
  | n + 1 => copyDown (Function.update m (d - 1#32) (m (s - 1#32))) (d - 1#32) (s - 1#32) n

/-- `while (n-- > 0) *d++ = *s++;` -/
def copyUp (m : BitVec 32 → BitVec 8) (d s : BitVec 32) : Nat → BitVec 32 → BitVec 8
  | 0 => m
  | n + 1 => copyUp (Function.update m d (m s)) (d + 1#32) (s + 1#32) n

/-- The version with loops. -/
def memmoveC (m : BitVec 32 → BitVec 8) (dst src n : BitVec 32) : (BitVec 32 → BitVec 8) × BitVec 32 :=
  let s := src
  let d := dst
  if s < d ∧ d < s + n then
    (copyDown m (d + n) (s + n) n.toNat, dst)
  else
    (copyUp m d s n.toNat, dst)

/-! ## The loops -/

theorem copyUp_eq (h : (s - d).toNat + k ≤ 2 ^ 32) : copyUp m d s k = moved m d s k := by
  induction k generalizing m d s with
  | zero => rfl
  | succ k ih =>
    have hgap : s + 1#32 - (d + 1#32) = s - d := add_sub_add_right_eq_sub ..
    rw [copyUp, ← moved_one, ih (by rw [hgap]; omega)]
    rw [Nat.add_comm] at h
    exact (moved_up (by omega)).trans (by rw [Nat.add_comm])

theorem copyDown_eq (h : (d - s).toNat + k ≤ 2 ^ 32) :
    copyDown m (d + BitVec.ofNat 32 k) (s + BitVec.ofNat 32 k) k = moved m d s k := by
  induction k generalizing m with
  | zero => rfl
  | succ k ih =>
    have hlast : ∀ a : BitVec 32, a + BitVec.ofNat 32 (k + 1) - 1#32 = a + BitVec.ofNat 32 k := by
      intro a
      rw [BitVec.ofNat_add]
      exact add_sub_assoc a _ _ |>.trans (by rw [add_sub_cancel_right])
    rw [copyDown, hlast, hlast, ← moved_one, ih (by omega), moved_down (by omega)]

/-! ## The direction -/

/-- When the destination begins inside the source, the source is behind. -/
theorem gap_down (hd : dst.toNat + n.toNat ≤ 2 ^ 32) (h : src < dst) :
    (dst - src).toNat + n.toNat ≤ 2 ^ 32 := by
  rw [BitVec.lt_def] at h
  rw [BitVec.toNat_sub_of_le (by rw [BitVec.le_def]; omega)]
  omega

/-- And otherwise ahead. -/
theorem gap_up (hd : dst.toNat + n.toNat ≤ 2 ^ 32) (hs : src.toNat + n.toNat ≤ 2 ^ 32)
    (h : ¬(src < dst ∧ dst < src + n)) : (src - dst).toNat + n.toNat ≤ 2 ^ 32 := by
  rw [BitVec.lt_def, BitVec.lt_def] at h
  rcases Nat.lt_or_ge src.toNat dst.toNat with hlt | hge
  · have hend : (src + n).toNat = src.toNat + n.toNat := by
      rw [BitVec.toNat_add, Nat.mod_eq_of_lt (by omega)]
    rw [BitVec.toNat_sub]
    omega
  · rw [BitVec.toNat_sub_of_le (by rw [BitVec.le_def]; exact hge)]
    omega

/-! ## The block -/

theorem wholeWords_length (h : wholeWords d s n = true) : 4 * (n / 4#32).toNat = n.toNat := by
  have hn : n % 4#32 = 0#32 := by
    simp only [wholeWords, Bool.and_eq_true, beq_iff_eq] at h
    exact h.2
  have hmod := congrArg BitVec.toNat hn
  rw [BitVec.toNat_umod] at hmod
  rw [BitVec.toNat_udiv]
  change n.toNat % 4 = 0 at hmod
  change 4 * (n.toNat / 4) = n.toNat
  omega

theorem memmoveC_moved (hd : dst.toNat + n.toNat ≤ 2 ^ 32) (hs : src.toNat + n.toNat ≤ 2 ^ 32) :
    memmoveC m dst src n = (moved m dst src n.toNat, dst) := by
  unfold memmoveC
  by_cases h : src < dst ∧ dst < src + n
  · have hdown := copyDown_eq (m := m) (gap_down hd h.1)
    rw [BitVec.ofNat_toNat, BitVec.setWidth_eq] at hdown
    simp only [if_pos h, hdown]
  · simp only [if_neg h, copyUp_eq (gap_up hd hs h)]

/-- The words or bytes from the lower ends on. -/
theorem rep_up (h : (s - d).toNat + n.toNat ≤ 2 ^ 32) :
    let r' := if wholeWords d s n then rep movsl { r with edi := d, esi := s, ecx := n / 4#32 }.cld
      else rep movsb { r with edi := d, esi := s, ecx := n }.cld
    r'.mem = moved r.mem d s n.toNat ∧ r'.df = false := by
  dsimp only
  split
  next hw =>
    have hlen := wholeWords_length hw
    have hrep := rep_movs_up (r := { r with edi := d, esi := s, ecx := n / 4#32 }.cld) (k := 4) rfl (by
      rw [cld, hlen]
      exact h)
    rw [cld, hlen] at hrep
    rw [movsl_eq]
    exact hrep
  next =>
    have hrep := rep_movs_up (r := { r with edi := d, esi := s, ecx := n }.cld) (k := 1) rfl (by
      rw [cld, Nat.one_mul]
      exact h)
    rw [cld, Nat.one_mul] at hrep
    rw [movsb_eq]
    exact hrep

/-- The words or bytes from the upper ends on. -/
theorem rep_down (h : (d - s).toNat + n.toNat ≤ 2 ^ 32) :
    (if wholeWords (d + n) (s + n) n then
        rep movsl { r with edi := d + n - 4#32, esi := s + n - 4#32, ecx := n / 4#32 }.std
      else rep movsb { r with edi := d + n - 1#32, esi := s + n - 1#32, ecx := n }.std).mem =
      moved r.mem d s n.toNat := by
  have hgap : ∀ a : BitVec 32, d + n - a - (s + n - a) = d - s := by
    intro a
    ring
  have hbase : ∀ a b : BitVec 32, a + n - b + b - n = a := by
    intro a b
    ring
  split
  next hw =>
    have hlen := wholeWords_length hw
    have hrep := rep_movs_down (k := 4)
      (r := { r with edi := d + n - 4#32, esi := s + n - 4#32, ecx := n / 4#32 }.std) rfl (by
        simp only [std, hlen, hgap]
        exact h)
    simp only [std, hlen, BitVec.ofNat_toNat, BitVec.setWidth_eq, hbase] at hrep
    rw [movsl_eq]
    exact hrep
  next =>
    have hrep := rep_movs_down (k := 1)
      (r := { r with edi := d + n - 1#32, esi := s + n - 1#32, ecx := n }.std) rfl (by
        simp only [std, Nat.one_mul, hgap]
        exact h)
    simp only [std, Nat.one_mul, BitVec.ofNat_toNat, BitVec.setWidth_eq, hbase] at hrep
    rw [movsb_eq]
    exact hrep

theorem memmove_moved (hd : dst.toNat + n.toNat ≤ 2 ^ 32) (hs : src.toNat + n.toNat ≤ 2 ^ 32) :
    (memmove r dst src n).1.mem = moved r.mem dst src n.toNat ∧ (memmove r dst src n).1.df = false ∧
      (memmove r dst src n).2 = dst := by
  unfold memmove
  by_cases h : src < dst ∧ dst < src + n
  · have hdown := rep_down (r := r) (gap_down hd h.1)
    simp only [if_pos h]
    exact ⟨hdown, rfl, trivial⟩
  · obtain ⟨hmem, hdf⟩ := rep_up (r := r) (gap_up hd hs h)
    simp only [if_neg h]
    split
    next hw =>
      rw [if_pos hw] at hmem hdf
      exact ⟨hmem, hdf, rfl⟩
    next hw =>
      rw [if_neg hw] at hmem hdf
      exact ⟨hmem, hdf, rfl⟩

/-- Every byte of the block arrives with its old value, nothing else changes, the direction flag is clear, and the
loops do the same. -/
theorem memmove_agrees (r : Regs) (dst src n : BitVec 32) (hd : dst.toNat + n.toNat ≤ 2 ^ 32)
    (hs : src.toNat + n.toNat ≤ 2 ^ 32) :
    (∀ k < n.toNat, (memmove r dst src n).1.mem (dst + BitVec.ofNat 32 k) = r.mem (src + BitVec.ofNat 32 k)) ∧
      (∀ x, (∀ k < n.toNat, x ≠ dst + BitVec.ofNat 32 k) → (memmove r dst src n).1.mem x = r.mem x) ∧
      (memmove r dst src n).1.df = false ∧
      ((memmove r dst src n).1.mem, (memmove r dst src n).2) = memmoveC r.mem dst src n := by
  obtain ⟨hmem, hdf, hret⟩ := memmove_moved (r := r) hd hs
  rw [hmem, hret, memmoveC_moved hd hs]
  refine ⟨fun k hk => ?_, fun x hx => ?_, hdf, rfl⟩
  · have hdist : dst + BitVec.ofNat 32 k - dst = BitVec.ofNat 32 k := add_sub_cancel_left ..
    have hval : (BitVec.ofNat 32 k).toNat = k := by
      rw [BitVec.toNat_ofNat, Nat.mod_eq_of_lt (by omega)]
    rw [moved_of_lt (by rw [hdist, hval]; exact hk), hdist]
  · refine moved_of_le (Nat.not_lt.mp fun hlt => hx _ hlt ?_)
    rw [BitVec.ofNat_toNat, BitVec.setWidth_eq, BitVec.add_comm, BitVec.sub_add_cancel]

/-- Eight bytes up to the end of the address space, moved by a word. -/
theorem memmove_agrees_top :
    let r : Regs := { mem := fun a => a.setWidth 8, edi := 0#32, esi := 0#32, ecx := 0#32, df := true }
    (memmove r 0xfffffff8#32 0xfffffff4#32 8#32).1.mem 0xfffffffc#32 = 0xf8#8 ∧
      (memmove r 0xfffffff8#32 0xfffffff4#32 8#32).1.df = false :=
  have h := memmove_agrees { mem := fun a => a.setWidth 8, edi := 0#32, esi := 0#32, ecx := 0#32, df := true }
    0xfffffff8#32 0xfffffff4#32 8#32 (by decide) (by decide)
  ⟨h.1 4 (by decide), h.2.2.1⟩

end Jos
