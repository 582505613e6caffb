import Mathlib.Data.Finset.Prod
import Mathlib.Data.Finset.Sum
import Jos.Lib.Linked
import Jos.Lib.RefCount
import Jos.PmapSpec

/-!
# Page directories and tables as a reference-counted store

`D` is the set of page directories in use by environments. A reference below `UTOP` is held in a `Slot`:
an environment holds its directory, a directory entry holds a page table, a page table entry holds a
page. `target s D` reads the slots off physical memory, and `absStore` pairs it with the counts in
`pages` and the free list, which makes the state of `pmap.c` an instance of `RefStore`. Directories and
page tables are the exclusive slots: the page behind them must have no other reference.

The lemmas of this module say how a store to memory moves `target`. They need only that directories and
tables are different pages (`Sep`), which the counts imply.
-/

namespace Jos

open Pmap

/-- The number of virtual pages below `UTOP`. -/
def NUVPN : Nat := NUPDE * 1024

/-- The page table entry of virtual page `v` under directory `d`; zero if there is no page table. -/
def pteOf (s : Pmap) (d v : Nat) : Word :=
  if present (s.mem d (v / 1024)) then s.mem (ppn (s.mem d (v / 1024))) (v % 1024) else 0#32

/-- The page an entry names, if it is present. -/
def named (w : Word) : Option Nat := if present w then some (ppn w) else none

@[simp] theorem named_zero : named 0#32 = none := by decide

theorem named_present {w : Word} (h : present w) : named w = some (ppn w) := if_pos h

theorem named_eq_some {w : Word} {p : Nat} : named w = some p ↔ present w ∧ ppn w = p := by
  unfold named
  split
  · next h => simp [h]
  · next h => simp [h]

/-- The places that hold references below `UTOP`. -/
inductive Slot
  /-- The environment that owns directory `d`. -/
  | dir (d : Nat)
  /-- Entry `i` of directory `d`. -/
  | pde (d i : Nat)
  /-- The page table entry of virtual page `v` in directory `d`. -/
  | pte (d v : Nat)
deriving DecidableEq

/-- Slots whose page must have no other reference. -/
def Slot.Excl : Slot → Prop
  | .dir _ => True
  | .pde _ _ => True
  | .pte _ _ => False

/-- All slots of directories among the first `n` pages. -/
def slots (n : Nat) : Finset Slot :=
  (Finset.range n).image Slot.dir
    ∪ (Finset.range n ×ˢ Finset.range NUPDE).image (fun x => Slot.pde x.1 x.2)
    ∪ (Finset.range n ×ˢ Finset.range NUVPN).image (fun x => Slot.pte x.1 x.2)

@[simp] theorem dir_mem_slots {n d : Nat} : Slot.dir d ∈ slots n ↔ d < n := by
  simp [slots]

@[simp] theorem pde_mem_slots {n d i : Nat} : Slot.pde d i ∈ slots n ↔ d < n ∧ i < NUPDE := by
  simp [slots]

@[simp] theorem pte_mem_slots {n d v : Nat} : Slot.pte d v ∈ slots n ↔ d < n ∧ v < NUVPN := by
  simp [slots]

/-- What each slot names. -/
def target (s : Pmap) (D : Finset Nat) : Slot → Option Nat
  | .dir d => if d ∈ D then some d else none
  | .pde d i => if d ∈ D ∧ i < NUPDE then named (s.mem d i) else none
  | .pte d v => if d ∈ D ∧ v < NUVPN then named (pteOf s d v) else none

/-- The reference-counted store that a state of `pmap.c` with free list `l` implements. -/
def absStore (s : Pmap) (D : Finset Nat) (l : List Nat) : RefStore Slot Nat where
  target := target s D
  ref p := (s.pages p).ppRef.toNat
  free := l

/-- Pages under the control of the allocator: those of `pages` that boot code did not reserve. -/
def Managed (n : Nat) (R : Set Nat) (p : Nat) : Prop := p < n ∧ p ∉ R

theorem target_pde {s : Pmap} {D : Finset Nat} {d i : Nat} (hd : d ∈ D) (hi : i < NUPDE) :
    target s D (.pde d i) = named (s.mem d i) := if_pos ⟨hd, hi⟩

theorem target_pte {s : Pmap} {D : Finset Nat} {d v : Nat} (hd : d ∈ D) (hv : v < NUVPN) :
    target s D (.pte d v) = named (pteOf s d v) := if_pos ⟨hd, hv⟩

/-- A virtual page below `UTOP` lies under a user directory entry. -/
theorem div_lt_NUPDE {v : Nat} (hv : v < NUVPN) : v / 1024 < NUPDE := by
  unfold NUVPN at hv
  omega

/-! ## Directories and tables are different pages -/

/-- No directory is a page table, and every page table hangs under one entry only. -/
structure Sep (s : Pmap) (D : Finset Nat) : Prop where
  table_ne_dir : ∀ d ∈ D, ∀ d' ∈ D, ∀ i < NUPDE, present (s.mem d i) → ppn (s.mem d i) ≠ d'
  table_inj : ∀ d ∈ D, ∀ d' ∈ D, ∀ i < NUPDE, ∀ i' < NUPDE, present (s.mem d i) →
    present (s.mem d' i') → ppn (s.mem d i) = ppn (s.mem d' i') → d = d' ∧ i = i'

section Store

variable {s : Pmap} {D : Finset Nat} {d i j d' v : Nat} {w : Word}

/-- The table under entry `i` of `d`. -/
abbrev tableOf (s : Pmap) (d i : Nat) : Nat := ppn (s.mem d i)

/-- A store to a page table does not touch directories. -/
theorem Sep.mem_dir_store_table (h : Sep s D) (hd : d ∈ D) (hi : i < NUPDE)
    (hP : present (s.mem d i)) (hd' : d' ∈ D) :
    (s.store ⟨tableOf s d i, j⟩ w).mem d' = s.mem d' :=
  store_mem_of_ne _ _ _ fun he => h.table_ne_dir d hd d' hd' i hi hP he.symm

/-- A store to entry `j` of the table under `(d, i)` changes the entry of one virtual page. -/
theorem Sep.pteOf_store_table (h : Sep s D) (hd : d ∈ D) (hi : i < NUPDE)
    (hP : present (s.mem d i)) (hj : j < 1024) (hd' : d' ∈ D) (hv : v < NUVPN) :
    pteOf (s.store ⟨tableOf s d i, j⟩ w) d' v
      = if d' = d ∧ v = i * 1024 + j then w else pteOf s d' v := by
  have hv' : v / 1024 < NUPDE := div_lt_NUPDE hv
  unfold pteOf
  rw [h.mem_dir_store_table hd hi hP hd']
  by_cases hpd : present (s.mem d' (v / 1024))
  · rw [if_pos hpd, if_pos hpd, store_mem]
    by_cases heq : d' = d ∧ v = i * 1024 + j
    · obtain ⟨rfl, rfl⟩ := heq
      have hdiv : (i * 1024 + j) / 1024 = i := by omega
      have hmod : (i * 1024 + j) % 1024 = j := by omega
      simp [hdiv, hmod]
    · rw [if_neg heq, if_neg]
      rintro ⟨htab, hmod⟩
      obtain ⟨rfl, hidx⟩ := h.table_inj d' hd' d hd _ hv' i hi hpd hP htab
      refine heq ⟨rfl, ?_⟩
      change v % 1024 = j at hmod
      omega
  · rw [if_neg hpd, if_neg hpd, if_neg]
    rintro ⟨rfl, rfl⟩
    have hdiv : (i * 1024 + j) / 1024 = i := by omega
    rw [hdiv] at hpd
    exact hpd hP

/-- A store to a page table moves one page table slot. -/
theorem Sep.target_store_table (h : Sep s D) (hd : d ∈ D) (hi : i < NUPDE)
    (hP : present (s.mem d i)) (hj : j < 1024) :
    target (s.store ⟨tableOf s d i, j⟩ w) D
      = Function.update (target s D) (.pte d (i * 1024 + j)) (named w) := by
  have hv : i * 1024 + j < NUVPN := by unfold NUVPN; omega
  funext x
  cases x with
  | dir e => rw [Function.update_of_ne (by simp)]; rfl
  | pde e k =>
    rw [Function.update_of_ne (by simp)]
    simp only [target]
    by_cases hek : e ∈ D ∧ k < NUPDE
    · rw [if_pos hek, if_pos hek, h.mem_dir_store_table hd hi hP hek.1]
    · rw [if_neg hek, if_neg hek]
  | pte e k =>
    simp only [target]
    by_cases hek : e ∈ D ∧ k < NUVPN
    · rw [if_pos hek, h.pteOf_store_table hd hi hP hj hek.1 hek.2]
      by_cases heq : e = d ∧ k = i * 1024 + j
      · obtain ⟨rfl, rfl⟩ := heq
        rw [if_pos ⟨rfl, rfl⟩, Function.update_self]
      · rw [if_neg heq, Function.update_of_ne (by simpa using heq)]
        exact (if_pos hek).symm
    · rw [if_neg hek, Function.update_of_ne]
      · exact (if_neg hek).symm
      · intro he
        obtain ⟨rfl, rfl⟩ := Slot.pte.inj he
        exact hek ⟨hd, hv⟩

theorem Sep.store_table (h : Sep s D) (hd : d ∈ D) (hi : i < NUPDE) (hP : present (s.mem d i)) :
    Sep (s.store ⟨tableOf s d i, j⟩ w) D where
  table_ne_dir e he e' he' k hk := by
    rw [h.mem_dir_store_table hd hi hP he]
    exact h.table_ne_dir e he e' he' k hk
  table_inj e he e' he' k hk k' hk' := by
    rw [h.mem_dir_store_table hd hi hP he, h.mem_dir_store_table hd hi hP he']
    exact h.table_inj e he e' he' k hk k' hk'

/-- `pgdir[PDX(va)] |= perm` leaves every page table entry where it was. -/
theorem Sep.pteOf_store_flags (h : Sep s D) (hd : d ∈ D)
    (hn : named w = named (s.mem d i)) (hP : present (s.mem d i)) (hd' : d' ∈ D) (hv : v < NUVPN) :
    pteOf (s.store ⟨d, i⟩ w) d' v = pteOf s d' v := by
  have hv' : v / 1024 < NUPDE := div_lt_NUPDE hv
  obtain ⟨hPw, hppn⟩ := named_eq_some.mp (hn.trans (named_present hP))
  -- the entry read on the way names the same table before and after
  have hentry : present ((s.store ⟨d, i⟩ w).mem d' (v / 1024)) ↔ present (s.mem d' (v / 1024)) := by
    rw [store_mem]
    split
    · next he => simp only [he.1, he.2, hPw, hP]
    · rfl
  have htab : ppn ((s.store ⟨d, i⟩ w).mem d' (v / 1024)) = ppn (s.mem d' (v / 1024)) := by
    rw [store_mem]
    split
    · next he => simp only [he.1, he.2, hppn]
    · rfl
  unfold pteOf
  by_cases hpd : present (s.mem d' (v / 1024))
  · rw [if_pos (hentry.mpr hpd), if_pos hpd, htab,
      store_mem_of_ne _ _ _ (h.table_ne_dir d' hd' d hd _ hv' hpd)]
  · rw [if_neg fun hp => hpd (hentry.mp hp), if_neg hpd]

theorem Sep.target_store_flags (h : Sep s D) (hd : d ∈ D) (hn : named w = named (s.mem d i))
    (hP : present (s.mem d i)) : target (s.store ⟨d, i⟩ w) D = target s D := by
  funext x
  cases x with
  | dir e => rfl
  | pde e k =>
    simp only [target]
    congr 1
    rw [store_mem]
    split
    · next he => rw [hn, he.1, he.2]
    · rfl
  | pte e k =>
    simp only [target]
    by_cases hek : e ∈ D ∧ k < NUVPN
    · rw [if_pos hek, if_pos hek, h.pteOf_store_flags hd hn hP hek.1 hek.2]
    · rw [if_neg hek, if_neg hek]

/-- Hanging the cleared page `p` under an absent entry changes no page table entry. -/
theorem Sep.pteOf_store_fresh (h : Sep s D) {p : Nat} (hd : d ∈ D)
    (hP : ¬ present (s.mem d i)) (hzero : ∀ k, s.mem p k = 0#32) (hpd : p ≠ d) (hw : ppn w = p)
    (hd' : d' ∈ D) (hv : v < NUVPN) : pteOf (s.store ⟨d, i⟩ w) d' v = pteOf s d' v := by
  have hv' : v / 1024 < NUPDE := div_lt_NUPDE hv
  unfold pteOf
  by_cases he : d' = d ∧ v / 1024 = i
  · obtain ⟨rfl, rfl⟩ := he
    rw [if_neg hP]
    have hmem : (s.store ⟨d', v / 1024⟩ w).mem d' (v / 1024) = w := by
      rw [store_mem, if_pos ⟨rfl, rfl⟩]
    rw [hmem, hw, store_mem_of_ne _ _ _ hpd, hzero]
    exact ite_self _
  · have hmem : (s.store ⟨d, i⟩ w).mem d' (v / 1024) = s.mem d' (v / 1024) := by
      rw [store_mem, if_neg he]
    rw [hmem]
    by_cases hpres : present (s.mem d' (v / 1024))
    · rw [if_pos hpres, if_pos hpres,
        store_mem_of_ne _ _ _ (h.table_ne_dir d' hd' d hd _ hv' hpres)]
    · rw [if_neg hpres, if_neg hpres]

theorem Sep.target_store_fresh (h : Sep s D) {p : Nat} (hd : d ∈ D) (hi : i < NUPDE)
    (hP : ¬ present (s.mem d i)) (hzero : ∀ k, s.mem p k = 0#32) (hpd : p ≠ d)
    (hw : named w = some p) :
    target (s.store ⟨d, i⟩ w) D = Function.update (target s D) (.pde d i) (some p) := by
  obtain ⟨-, hppn⟩ := named_eq_some.mp hw
  funext x
  cases x with
  | dir e => rw [Function.update_of_ne (by simp)]; rfl
  | pde e k =>
    by_cases he : e = d ∧ k = i
    · obtain ⟨rfl, rfl⟩ := he
      rw [Function.update_self, target_pde hd hi, store_mem, if_pos ⟨rfl, rfl⟩, hw]
    · rw [Function.update_of_ne (by simpa using he)]
      simp only [target]
      rw [store_mem, if_neg he]
  | pte e k =>
    rw [Function.update_of_ne (by simp)]
    simp only [target]
    by_cases hek : e ∈ D ∧ k < NUVPN
    · rw [if_pos hek, if_pos hek, h.pteOf_store_fresh hd hP hzero hpd hppn hek.1 hek.2]
    · rw [if_neg hek, if_neg hek]

/-- Clearing a directory entry whose page table is empty. -/
theorem Sep.target_store_clear (h : Sep s D) (hd : d ∈ D) (hi : i < NUPDE)
    (hempty : ∀ j < 1024, pteOf s d (i * 1024 + j) = 0#32) :
    target (s.store ⟨d, i⟩ 0#32) D = Function.update (target s D) (.pde d i) none := by
  funext x
  cases x with
  | dir e => rw [Function.update_of_ne (by simp)]; rfl
  | pde e k =>
    by_cases he : e = d ∧ k = i
    · obtain ⟨rfl, rfl⟩ := he
      rw [Function.update_self, target_pde hd hi, store_mem, if_pos ⟨rfl, rfl⟩, named_zero]
    · rw [Function.update_of_ne (by simpa using he)]
      simp only [target]
      rw [store_mem, if_neg he]
  | pte e k =>
    rw [Function.update_of_ne (by simp)]
    simp only [target]
    by_cases hek : e ∈ D ∧ k < NUVPN
    · rw [if_pos hek, if_pos hek]
      congr 1
      by_cases he : e = d ∧ k / 1024 = i
      · obtain ⟨rfl, rfl⟩ := he
        have hk := hempty (k % 1024) (Nat.mod_lt _ (by norm_num))
        rw [Nat.div_add_mod' k 1024] at hk
        have hmem : (s.store ⟨e, k / 1024⟩ 0#32).mem e (k / 1024) = 0#32 := by
          rw [store_mem, if_pos ⟨rfl, rfl⟩]
        rw [hk, pteOf, hmem, if_neg not_present_zero]
      · have hmem : (s.store ⟨d, i⟩ 0#32).mem e (k / 1024) = s.mem e (k / 1024) := by
          rw [store_mem, if_neg he]
        unfold pteOf
        rw [hmem]
        by_cases hpres : present (s.mem e (k / 1024))
        · rw [if_pos hpres, if_pos hpres,
            store_mem_of_ne _ _ _ (h.table_ne_dir e hek.1 d hd _ (div_lt_NUPDE hek.2) hpres)]
        · rw [if_neg hpres, if_neg hpres]
    · rw [if_neg hek, if_neg hek]

end Store

/-- Two memories that agree on the directories and the page tables under them hold the same
references. -/
theorem pteOf_congr {s s' : Pmap} {D : Finset Nat} {d v : Nat} (hd : d ∈ D) (hv : v < NUVPN)
    (hdir : ∀ d ∈ D, s'.mem d = s.mem d)
    (htab : ∀ d ∈ D, ∀ i < NUPDE, present (s.mem d i) →
      s'.mem (ppn (s.mem d i)) = s.mem (ppn (s.mem d i))) :
    pteOf s' d v = pteOf s d v := by
  unfold pteOf
  rw [hdir d hd]
  split
  · next hP => rw [htab d hd _ (div_lt_NUPDE hv) hP]
  · rfl

theorem target_congr {s s' : Pmap} {D : Finset Nat} (hdir : ∀ d ∈ D, s'.mem d = s.mem d)
    (htab : ∀ d ∈ D, ∀ i < NUPDE, present (s.mem d i) →
      s'.mem (ppn (s.mem d i)) = s.mem (ppn (s.mem d i))) :
    target s' D = target s D := by
  funext x
  cases x with
  | dir e => rfl
  | pde e k =>
    simp only [target]
    by_cases hek : e ∈ D ∧ k < NUPDE
    · rw [if_pos hek, if_pos hek, hdir e hek.1]
    · rw [if_neg hek, if_neg hek]
  | pte e k =>
    simp only [target]
    by_cases hek : e ∈ D ∧ k < NUVPN
    · rw [if_pos hek, if_pos hek, pteOf_congr hek.1 hek.2 hdir htab]
    · rw [if_neg hek, if_neg hek]

end Jos
