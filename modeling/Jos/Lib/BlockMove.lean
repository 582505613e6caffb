import Jos.Lib.ByteMem
import Mathlib.Logic.Function.Iterate
import Mathlib.Tactic.Ring

/-!
# Moving a block of memory piece by piece

`moved m d s n` is the memory `m` after the `n` cells from `s` on were copied to `d` at once. A block is copied
piece by piece from its lower end, or from its upper end. Both give `moved` whatever the sizes of the pieces, if the
copy runs away from the cells it still has to read: upwards when the source is ahead of the destination, downwards
when it is behind (`moved_up`, `moved_down`). Ahead and behind are meant around the circle of addresses.

The string instructions of the x86 copy in this way. `rep` repeats one of them while `ecx` counts down, and the
direction flag says which way the addresses go.
-/

namespace BlockMove

variable {w : Nat} {α : Type*} {m : BitVec w → α} {d s x : BitVec w} {a k : Nat}

/-- The `n` cells from `s` on are copied to `d`. -/
def moved (m : BitVec w → α) (d s : BitVec w) (n : Nat) : BitVec w → α :=
  fun x => if (x - d).toNat < n then m (s + (x - d)) else m x

@[simp] theorem moved_zero : moved m d s 0 = m := rfl

theorem moved_of_lt (h : (x - d).toNat < a) : moved m d s a x = m (s + (x - d)) := if_pos h

theorem moved_of_le (h : a ≤ (x - d).toNat) : moved m d s a x = m x := if_neg (Nat.not_lt.mpr h)

/-! ## Distances -/

/-- The distance from `d` to an address is split at a point in between. -/
theorem sub_add_ofNat (x d : BitVec w) (a : Nat) : x - (d + BitVec.ofNat w a) = (x - d) - BitVec.ofNat w a := by
  rw [sub_sub]

theorem toNat_sub_ofNat {t : BitVec w} (h : a ≤ t.toNat) : (t - BitVec.ofNat w a).toNat = t.toNat - a := by
  have hlt := t.isLt
  rw [BitVec.toNat_sub, BitVec.toNat_ofNat, Nat.mod_eq_of_lt (a := a) (by omega),
    show 2 ^ w - a + t.toNat = t.toNat - a + 2 ^ w by omega, Nat.add_mod_right, Nat.mod_eq_of_lt (by omega)]

/-- Before the point the distance is large. -/
theorem toNat_sub_ofNat_of_lt {t : BitVec w} (h : t.toNat < a) (ha : a < 2 ^ w) :
    (t - BitVec.ofNat w a).toNat = 2 ^ w - a + t.toNat := by
  rw [BitVec.toNat_sub, BitVec.toNat_ofNat, Nat.mod_eq_of_lt ha, Nat.mod_eq_of_lt (by omega)]

/-- What is as far behind a point of the source as `x` is behind the same point of the destination. -/
theorem add_ofNat_add_sub (x d s : BitVec w) (a : Nat) :
    s + BitVec.ofNat w a + (x - (d + BitVec.ofNat w a)) = s + (x - d) := by
  ring

/-! ## One piece after the other -/

/-- The upper piece as part of the whole block. -/
theorem moved_upper (ha : a ≤ (x - d).toNat) (hk : (x - d).toNat < a + k) :
    moved m (d + BitVec.ofNat w a) (s + BitVec.ofNat w a) k x = moved m d s (a + k) x := by
  have hdist : (x - (d + BitVec.ofNat w a)).toNat = (x - d).toNat - a := by
    rw [sub_add_ofNat, toNat_sub_ofNat ha]
  rw [moved_of_lt (by omega), moved_of_lt hk, add_ofNat_add_sub]

/-- The upper piece leaves what is not in it. -/
theorem moved_not_upper (h : (x - d).toNat < a ∨ a + k ≤ (x - d).toNat) (hn : a + k ≤ 2 ^ w) :
    moved m (d + BitVec.ofNat w a) (s + BitVec.ofNat w a) k x = m x := by
  rcases Nat.eq_zero_or_pos k with rfl | hk
  · rw [moved_zero]
  · refine moved_of_le ?_
    rw [sub_add_ofNat]
    rcases h with h | h
    · rw [toNat_sub_ofNat_of_lt h (by omega)]
      omega
    · rw [toNat_sub_ofNat (by omega)]
      omega

/-- Upwards: the lower piece first, when the source is ahead. -/
theorem moved_up (h : (s - d).toNat + (a + k) ≤ 2 ^ w) :
    moved (moved m d s a) (d + BitVec.ofNat w a) (s + BitVec.ofNat w a) k = moved m d s (a + k) := by
  funext x
  by_cases hx : a ≤ (x - d).toNat ∧ (x - d).toNat < a + k
  · rw [moved_upper hx.1 hx.2, moved_of_lt hx.2, moved_of_lt hx.2]
    -- what is read now lies behind the lower piece of the destination
    refine moved_of_le ?_
    have hsum : s + (x - d) - d = (s - d) + (x - d) := by ring
    rw [hsum, BitVec.toNat_add, Nat.mod_eq_of_lt (by omega)]
    omega
  · rw [moved_not_upper (by omega) (by omega)]
    rcases Nat.lt_or_ge (x - d).toNat a with hlt | hge
    · rw [moved_of_lt hlt, moved_of_lt (by omega)]
    · rw [moved_of_le hge, moved_of_le (by omega)]

/-- Downwards: the upper piece first, when the source is behind. -/
theorem moved_down (h : (d - s).toNat + (a + k) ≤ 2 ^ w) :
    moved (moved m (d + BitVec.ofNat w a) (s + BitVec.ofNat w a) k) d s a = moved m d s (a + k) := by
  funext x
  rcases Nat.lt_or_ge (x - d).toNat a with hlt | hge
  · have hall : (x - d).toNat < a + k := by omega
    rw [moved_of_lt hlt, moved_of_lt hall]
    rcases Nat.eq_zero_or_pos k with rfl | hk
    · rw [moved_zero]
    · -- what is read now lies before the upper piece of the destination
      refine moved_of_le ?_
      have hsum : s + (x - d) - (d + BitVec.ofNat w a) = (x - d) - BitVec.ofNat w ((d - s).toNat + a) := by
        rw [BitVec.ofNat_add, BitVec.ofNat_toNat, BitVec.setWidth_eq]
        ring
      rw [hsum, toNat_sub_ofNat_of_lt (by omega) (by omega)]
      omega
  · rw [moved_of_le hge]
    by_cases hk : (x - d).toNat < a + k
    · rw [moved_upper hge hk]
    · rw [moved_not_upper (by omega) (by omega), moved_of_le (by omega)]

/-! ## Cell by cell, and word by word -/

theorem moved_one [DecidableEq (BitVec w)] : moved m d s 1 = Function.update m d (m s) := by
  funext x
  by_cases hx : x = d
  · rw [hx, Function.update_self, moved_of_lt (by rw [sub_self]; exact Nat.one_pos), sub_self, add_zero]
  · have hne : x - d ≠ 0#w := sub_ne_zero.mpr hx
    have hpos : (x - d).toNat ≠ 0 := fun hz => hne (BitVec.eq_of_toNat_eq hz)
    rw [Function.update_of_ne hx, moved_of_le (by omega)]

theorem moved_word {m : BitVec w → BitVec 8} : moved m d s 4 = ByteMem.store m d (ByteMem.load m s) := by
  funext x
  rcases Nat.lt_or_ge (x - d).toNat 4 with hlt | hge
  · have hget : (ByteMem.bytes (ByteMem.load m s))[(x - d).toNat]? =
        some (ByteMem.byte (ByteMem.load m s) (x - d).toNat) := by
      interval_cases (x - d).toNat <;> rfl
    rw [moved_of_lt hlt, ByteMem.store, ByteMem.storeBytes, hget, ByteMem.byte_load hlt, BitVec.ofNat_toNat,
      BitVec.setWidth_eq, Option.getD_some]
  · rw [moved_of_le hge, ByteMem.store_of_le hge]

/-! ## String instructions -/

/-- What the string instructions read and write. -/
structure Regs where
  mem : BitVec 32 → BitVec 8
  edi : BitVec 32
  esi : BitVec 32
  ecx : BitVec 32
  df : Bool

namespace Regs

variable {r : Regs} {k : Nat}

def cld (r : Regs) : Regs := { r with df := false }

def std (r : Regs) : Regs := { r with df := true }

/-- The address of the next piece. -/
def advance (r : Regs) (a : BitVec 32) (k : Nat) : BitVec 32 :=
  if r.df then a - BitVec.ofNat 32 k else a + BitVec.ofNat 32 k

def movsb (r : Regs) : Regs :=
  { r with
    mem := Function.update r.mem r.edi (r.mem r.esi)
    edi := r.advance r.edi 1
    esi := r.advance r.esi 1 }

def movsl (r : Regs) : Regs :=
  { r with
    mem := ByteMem.store r.mem r.edi (ByteMem.load r.mem r.esi)
    edi := r.advance r.edi 4
    esi := r.advance r.esi 4 }

/-- Repeat an instruction until `ecx` is 0. -/
def rep (op : Regs → Regs) (r : Regs) : Regs :=
  (fun r => { op r with ecx := r.ecx - 1#32 })^[r.ecx.toNat] r

/-- `ecx` is tested before each time. -/
theorem rep_eq (op : Regs → Regs) (r : Regs) :
    rep op r = if r.ecx = 0#32 then r else rep op { op r with ecx := r.ecx - 1#32 } := by
  by_cases h : r.ecx = 0#32
  · rw [if_pos h, rep, h]
    rfl
  · obtain ⟨c, hc⟩ : ∃ c, r.ecx.toNat = c + 1 :=
      Nat.exists_eq_succ_of_ne_zero fun hz => h (BitVec.eq_of_toNat_eq hz)
    have hsub : (r.ecx - 1#32).toNat = c := by
      rw [toNat_sub_ofNat (by omega), hc]
      rfl
    rw [if_neg h, rep, hc, Function.iterate_succ_apply, rep, hsub]

/-- Move a piece of `k` cells. -/
def movs (k : Nat) (r : Regs) : Regs :=
  { r with
    mem := moved r.mem r.edi r.esi k
    edi := r.advance r.edi k
    esi := r.advance r.esi k }

theorem movsb_eq : movsb = movs 1 := by
  funext r
  rw [movs, moved_one]
  rfl

theorem movsl_eq : movsl = movs 4 := by
  funext r
  rw [movs, moved_word]
  rfl

/-- Upwards from `edi` and `esi`. -/
theorem rep_movs_up (hdf : r.df = false) (h : (r.esi - r.edi).toNat + k * r.ecx.toNat ≤ 2 ^ 32) :
    (rep (movs k) r).mem = moved r.mem r.edi r.esi (k * r.ecx.toNat) ∧ (rep (movs k) r).df = false := by
  have hsteps : ∀ c ≤ r.ecx.toNat, (fun r => { movs k r with ecx := r.ecx - 1#32 })^[c] r =
      { mem := moved r.mem r.edi r.esi (k * c)
        edi := r.edi + BitVec.ofNat 32 (k * c)
        esi := r.esi + BitVec.ofNat 32 (k * c)
        ecx := r.ecx - BitVec.ofNat 32 c
        df := false } := by
    intro c hc
    induction c with
    | zero => simp [← hdf]
    | succ c ih =>
      have hroom : k * (c + 1) ≤ k * r.ecx.toNat := Nat.mul_le_mul_left k hc
      have hnext : ∀ a : BitVec 32, a + BitVec.ofNat 32 (k * c) + BitVec.ofNat 32 k =
          a + BitVec.ofNat 32 (k * (c + 1)) := by
        intro a
        rw [add_assoc, ← BitVec.ofNat_add, Nat.mul_succ]
      have hcount : r.ecx - BitVec.ofNat 32 c - 1#32 = r.ecx - BitVec.ofNat 32 (c + 1) := by
        rw [sub_sub, BitVec.ofNat_add]
      rw [Nat.mul_succ] at hroom
      rw [Function.iterate_succ_apply', ih (by omega), movs]
      simp only [advance, Bool.false_eq_true, if_false, hnext, hcount]
      rw [moved_up (by omega), Nat.mul_succ]
  rw [rep, hsteps _ (Nat.le_refl _)]
  exact ⟨rfl, rfl⟩

/-- Downwards from the piece at `edi` and `esi`. -/
theorem rep_movs_down (hdf : r.df = true) (h : (r.edi - r.esi).toNat + k * r.ecx.toNat ≤ 2 ^ 32) :
    (rep (movs k) r).mem =
      moved r.mem (r.edi + BitVec.ofNat 32 k - BitVec.ofNat 32 (k * r.ecx.toNat))
        (r.esi + BitVec.ofNat 32 k - BitVec.ofNat 32 (k * r.ecx.toNat)) (k * r.ecx.toNat) := by
  have hsteps : ∀ c ≤ r.ecx.toNat, (fun r => { movs k r with ecx := r.ecx - 1#32 })^[c] r =
      { mem := moved r.mem (r.edi + BitVec.ofNat 32 k - BitVec.ofNat 32 (k * c))
          (r.esi + BitVec.ofNat 32 k - BitVec.ofNat 32 (k * c)) (k * c)
        edi := r.edi - BitVec.ofNat 32 (k * c)
        esi := r.esi - BitVec.ofNat 32 (k * c)
        ecx := r.ecx - BitVec.ofNat 32 c
        df := true } := by
    intro c hc
    induction c with
    | zero => simp [← hdf]
    | succ c ih =>
      have hroom : k * (c + 1) ≤ k * r.ecx.toNat := Nat.mul_le_mul_left k hc
      have hnext : ∀ a : BitVec 32, a - BitVec.ofNat 32 (k * c) - BitVec.ofNat 32 k =
          a - BitVec.ofNat 32 (k * (c + 1)) := by
        intro a
        rw [sub_sub, ← BitVec.ofNat_add, Nat.mul_succ]
      have hpiece : ∀ a : BitVec 32, a + BitVec.ofNat 32 k - BitVec.ofNat 32 (k * c) =
          a - BitVec.ofNat 32 (k * c) + BitVec.ofNat 32 k := fun a => add_sub_right_comm ..
      have hlast : ∀ a : BitVec 32, a + BitVec.ofNat 32 k - BitVec.ofNat 32 (k * (c + 1)) =
          a - BitVec.ofNat 32 (k * c) := by
        intro a
        rw [Nat.mul_succ, BitVec.ofNat_add]
        ring
      have hgap : r.edi - BitVec.ofNat 32 (k * c) - (r.esi - BitVec.ofNat 32 (k * c)) = r.edi - r.esi :=
        sub_sub_sub_cancel_right ..
      have hcount : r.ecx - BitVec.ofNat 32 c - 1#32 = r.ecx - BitVec.ofNat 32 (c + 1) := by
        rw [sub_sub, BitVec.ofNat_add]
      rw [Nat.mul_succ] at hroom
      rw [Function.iterate_succ_apply', ih (by omega), movs]
      simp only [advance, if_true, hnext, hcount, hpiece, hlast]
      rw [moved_down (by rw [hgap]; omega), Nat.mul_succ, Nat.add_comm k]
  rw [rep, hsteps _ (Nat.le_refl _)]

end Regs

end BlockMove
