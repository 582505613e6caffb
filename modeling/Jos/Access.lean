import Mathlib.Tactic.IntervalCases
import Jos.PmapRun

/-!
# Memory accesses through the page tables

What the processor does with an address: `translate` walks the two levels and checks flags in both,
`loadByte` and `storeByte` access one byte of the page found. Kernel code runs with `CR0_WP` set, so its
stores need `PTE_W` as well.

Under the invariant of `pmap.c` a store that user code may make hits a page mapped below `UTOP`, and neither
page tables nor reserved pages are such pages, so it does not affect the invariant.
-/

namespace Jos

open Pmap

/-! ## The processor -/

/-- The page `va` lies in, if the entries of both levels have all of `flags`. -/
def translate (s : Pmap) (d : Nat) (va flags : Word) : Option Nat :=
  let pde := s.mem d (PDX va)
  if pde &&& flags = flags then
    let pte := s.mem (ppn pde) (PTX va)
    if pte &&& flags = flags then some (ppn pte) else none
  else
    none

/-- Byte `i` of a word. -/
def byteOf (w : Word) (i : Nat) : BitVec 8 := (w >>> (8 * i)).setWidth 8

/-- A word with byte `i` replaced. -/
def setByte (w : Word) (i : Nat) (b : BitVec 8) : Word :=
  (w &&& ~~~(0xFF#32 <<< (8 * i))) ||| (b.setWidth 32 <<< (8 * i))

/-- The word of a page that an address lies in. -/
def wordOf (va : Word) : Nat := va.toNat % PGSIZE / 4

/-- Read a byte; `none` is a page fault. -/
def loadByte (s : Pmap) (d : Nat) (va flags : Word) : Option (BitVec 8) :=
  (translate s d va flags).map fun p => byteOf (s.mem p (wordOf va)) (va.toNat % 4)

/-- Write a byte; `none` is a page fault. -/
def storeByte (s : Pmap) (d : Nat) (va flags : Word) (b : BitVec 8) : Option Pmap :=
  (translate s d va flags).map fun p =>
    s.store ⟨p, wordOf va⟩ (setByte (s.mem p (wordOf va)) (va.toNat % 4) b)

/-- The flags an access by user code needs. -/
def USER_R : Word := PTE_P ||| PTE_U
def USER_W : Word := PTE_P ||| PTE_U ||| PTE_W

/-- The flags a store by the kernel needs. -/
def KERN_W : Word := PTE_P ||| PTE_W

/-- `memcpy` of the given bytes to `va` while the directory `d` is in force. -/
def copyTo (d : Nat) : List (BitVec 8) → Word → Pmap → Except Panic Pmap
  | [], _, s => return s
  | b :: bs, va, s =>
    match storeByte s d va KERN_W b with
    | none => throw .kernelFault
    | some s => copyTo d bs (va + 1#32) s

/-! ## Bytes -/

private theorem getLsbD_255 (n : Nat) : (0xFF#32).getLsbD n = decide (n < 8) := by
  by_cases hn : n < 32
  · interval_cases n <;> rfl
  · rw [BitVec.getLsbD_of_ge _ _ (by omega), decide_eq_false (by omega)]

private theorem getLsbD_byteOf {w : Word} {j n : Nat} (hn : n < 8) :
    (byteOf w j).getLsbD n = w.getLsbD (8 * j + n) := by
  rw [byteOf, BitVec.getLsbD_setWidth, BitVec.getLsbD_ushiftRight, decide_eq_true hn, Bool.true_and]

private theorem getLsbD_setByte {w : Word} {b : BitVec 8} {i m : Nat} (hm : m < 32) :
    (setByte w i b).getLsbD m
      = if 8 * i ≤ m ∧ m < 8 * i + 8 then b.getLsbD (m - 8 * i) else w.getLsbD m := by
  simp only [setByte, BitVec.getLsbD_or, BitVec.getLsbD_and, BitVec.getLsbD_not,
    BitVec.getLsbD_shiftLeft, getLsbD_255, BitVec.getLsbD_setWidth, decide_eq_true hm,
    Bool.true_and]
  by_cases hlow : m < 8 * i
  · rw [if_neg (by omega), decide_eq_true hlow]
    simp
  · by_cases hin : m - 8 * i < 8
    · rw [if_pos (by omega), decide_eq_false hlow, decide_eq_true hin,
        decide_eq_true (by omega : m - 8 * i < 32)]
      simp
    · rw [if_neg (by omega), decide_eq_false hin, BitVec.getLsbD_of_ge b _ (by omega)]
      simp

theorem byteOf_setByte {i j : Nat} (hj : j < 4) (w : Word) (b : BitVec 8) :
    byteOf (setByte w i b) j = if i = j then b else byteOf w j := by
  refine BitVec.eq_of_getLsbD_eq fun n hn => ?_
  rw [getLsbD_byteOf hn, getLsbD_setByte (by omega)]
  by_cases hij : i = j
  · subst hij
    rw [if_pos rfl, if_pos (by omega), Nat.add_sub_cancel_left]
  · rw [if_neg hij, if_neg (by omega), getLsbD_byteOf hn]

/-! ## Translation under the invariant -/

variable {R : Set Nat} {D : Finset Nat} {l : List Nat} {s s' : Pmap} {d p : Nat} {va flags : Word}

private theorem and_or_left {w a b : Word} (h : w &&& (a ||| b) = a ||| b) : w &&& a = a := by
  have habs : (a ||| b) &&& a = a := by
    ext i hi
    simp only [BitVec.getElem_and, BitVec.getElem_or]
    cases a[i] <;> simp
  calc w &&& a = w &&& ((a ||| b) &&& a) := by rw [habs]
    _ = (a ||| b) &&& a := by rw [← BitVec.and_assoc, h]
    _ = a := habs

private theorem and_or_of {w a b : Word} (ha : w &&& a = a) (hb : w &&& b = b) :
    w &&& (a ||| b) = a ||| b := by
  rw [BitVec.and_or_distrib_left, ha, hb]

theorem present_iff {w : Word} : present w ↔ w &&& PTE_P = PTE_P := by
  have hbit : w &&& PTE_P = (BitVec.ofBool (w.getLsbD 0)).setWidth 32 :=
    BitVec.and_one_eq_setWidth_ofBool_getLsbD
  unfold present
  rw [hbit]
  cases w.getLsbD 0 <;> decide

theorem userWritable_of {w : Word} (h : w &&& USER_W = USER_W) : userWritable w := by
  have hsplit : USER_W = (PTE_U ||| PTE_W) ||| PTE_P := by decide
  rw [hsplit] at h
  exact and_or_left h

/-- Flags among those every user directory entry has. -/
structure UserFlags (flags : Word) : Prop where
  present : flags &&& PTE_P = PTE_P
  sub : USER_W &&& flags = flags

theorem UserFlags.read : UserFlags USER_R := ⟨by decide, by decide⟩
theorem UserFlags.write : UserFlags USER_W := ⟨by decide, by decide⟩
theorem UserFlags.kern : UserFlags PTE_P := ⟨by decide, by decide⟩
theorem UserFlags.kernWrite : UserFlags KERN_W := ⟨by decide, by decide⟩

theorem UserFlags.entry {w : Word} (h : UserFlags flags) (hw : w &&& flags = flags) :
    Jos.present w := by
  have hP : w &&& PTE_P = PTE_P := by
    rw [← h.present, ← BitVec.and_assoc, hw]
  exact present_iff.mpr hP

/-- The addresses of a copy below `UTOP`. -/
theorem copyTo_bounds {n : Nat} (hva : va.toNat + (n + 1) ≤ UTOP.toNat) :
    va < UTOP ∧ (va + 1#32).toNat = va.toNat + 1 := by
  have hU : UTOP.toNat = 0xeec00000 := toNat_UTOP
  rw [BitVec.lt_def, BitVec.toNat_add, BitVec.toNat_ofNat]
  omega

/-- The first byte of a copy, and the rest. -/
theorem copyTo_cons {b : BitVec 8} {bs : List (BitVec 8)} (hok : copyTo d (b :: bs) va s = .ok s') :
    ∃ s₁, storeByte s d va KERN_W b = some s₁ ∧ copyTo d bs (va + 1#32) s₁ = .ok s' := by
  rw [copyTo] at hok
  split at hok
  · cases hok
  · next s₁ hs₁ => exact ⟨s₁, hs₁, hok⟩

namespace PmapInv

/-- Below `UTOP` only the page table entry decides. -/
theorem translate_below (h : PmapInv R D l s) (hf : UserFlags flags) (hd : d ∈ D)
    (hva : va < UTOP) : translate s d va flags
      = if pteOf s d (PGNUM va) &&& flags = flags then some (ppn (pteOf s d (PGNUM va)))
        else none := by
  simp only [translate]
  by_cases hP : present (s.mem d (PDX va))
  · have hpde : s.mem d (PDX va) &&& flags = flags := by
      have hall : s.mem d (PDX va) &&& USER_W = USER_W := by
        have hsplit : USER_W = PTE_P ||| (PTE_U ||| PTE_W) := by decide
        rw [hsplit]
        exact and_or_of (present_iff.mp hP)
          (h.map.pde_perm d hd _ (PDX_lt_of_lt_UTOP hva) hP)
      rw [← hf.sub, ← BitVec.and_assoc, hall]
    rw [if_pos hpde, pteOf_PGNUM, if_pos hP]
  · have hne : ¬ s.mem d (PDX va) &&& flags = flags := fun hc => hP (hf.entry hc)
    have hz : ¬ (0#32 : Word) &&& flags = flags := by
      intro hc
      exact not_present_zero (hf.entry hc)
    rw [if_neg hne, pteOf_PGNUM, if_neg hP, if_neg hz]

/-- No store of user code above `UTOP` gets through. -/
theorem translate_above (h : PmapInv R D l s) (hd : d ∈ D) (hva : ¬ va < UTOP) :
    translate s d va USER_W = none := by
  have hi : NUPDE ≤ PDX va := by
    have hge : 0xeec00000 ≤ va.toNat := by
      rw [BitVec.lt_def, toNat_UTOP] at hva
      omega
    rw [PDX_eq, NUPDE]
    omega
  simp only [translate]
  by_cases huvpt : PDX va = PDX UVPT
  · have hself : ¬ s.mem d (PDX va) &&& USER_W = USER_W := by
      intro hc
      have hw := userWritable_of hc
      rw [huvpt, h.map.self d hd, userWritable_or] at hw
      · exact absurd hw (by decide)
      · rw [toNat_page2pa ((h.dirs_lt d hd).trans_le h.npages_le')]
        omega
    rw [if_neg hself]
  · rw [h.map.upper d hd _ hi (PDX_lt va) huvpt]
    split
    · next hpde =>
      have hg := h.map.kern_guard _ hi (PDX_lt va) huvpt (UserFlags.write.entry hpde) _ (PTX_lt va)
      rw [if_neg fun hc => hg (userWritable_of hc)]
    · rfl

/-- Only the directory and its page tables decide about a translation. -/
theorem translate_congr (h : PmapInv R D l s) (hf : UserFlags flags) (hd : d ∈ D)
    (hres : ∀ q ∈ R, s'.mem q = s.mem q) (hdir : s'.mem d = s.mem d)
    (htab : ∀ i < NUPDE, present (s.mem d i) → s'.mem (ppn (s.mem d i)) = s.mem (ppn (s.mem d i))) (va : Word) :
    translate s' d va flags = translate s d va flags := by
  simp only [translate, hdir]
  by_cases hpde : s.mem d (PDX va) &&& flags = flags
  · have hP := hf.entry hpde
    have hsame : s'.mem (ppn (s.mem d (PDX va))) = s.mem (ppn (s.mem d (PDX va))) := by
      rcases h.table_kinds hd (PDX_lt va) hP with hlow | hself | ⟨hR, -⟩
      · exact htab _ hlow hP
      · rw [hself]
        exact hdir
      · exact hres _ hR
    rw [hsame]
  · rw [if_neg hpde, if_neg hpde]

/-- A page that is mapped below `UTOP` is none of the kernel's, no directory and no page table. -/
theorem storePage_mem (h : PmapInv R D l s) {v : Nat} (hd : d ∈ D) (hv : v < NUVPN)
    (hP : present (pteOf s d v)) (j : Nat) (w : Word) :
    (∀ q ∈ R, (s.store ⟨ppn (pteOf s d v), j⟩ w).mem q = s.mem q) ∧
      (∀ e ∈ D, (s.store ⟨ppn (pteOf s d v), j⟩ w).mem e = s.mem e) ∧
      ∀ e ∈ D, ∀ i < NUPDE, present (s.mem e i) →
        (s.store ⟨ppn (pteOf s d v), j⟩ w).mem (ppn (s.mem e i)) = s.mem (ppn (s.mem e i)) := by
  refine ⟨fun q hq => ?_, fun e he => ?_, fun e he i hi hPi => ?_⟩
  · refine store_mem_of_ne _ _ _ ?_
    rintro rfl
    exact (h.page_managed hd hv hP).2 hq
  · exact store_mem_of_ne _ _ _ (h.page_ne_dir hd hv hP he).symm
  · exact store_mem_of_ne _ _ _ (h.page_ne_table hd hv hP he hi hPi).symm

/-- Writing to a page that is mapped below `UTOP`. -/
theorem storePage (h : PmapInv R D l s) {v : Nat} (hd : d ∈ D) (hv : v < NUVPN)
    (hP : present (pteOf s d v)) (j : Nat) (w : Word) :
    PmapInv R D l (s.store ⟨ppn (pteOf s d v), j⟩ w) ∧
      Frame R D s (s.store ⟨ppn (pteOf s d v), j⟩ w) ∧
      ∀ e ∈ D, ∀ u < NUVPN, pteOf (s.store ⟨ppn (pteOf s d v), j⟩ w) e u = pteOf s e u := by
  obtain ⟨hres, hdir, htab⟩ := h.storePage_mem hd hv hP j w
  exact ⟨h.of_mem rfl rfl rfl rfl hres hdir htab,
    ⟨rfl, rfl, hres, fun _ _ => rfl, fun e he i _ => by rw [hdir e he]⟩,
    fun e he u hu => pteOf_congr he hu hdir htab⟩

/-- What a store below `UTOP` does. -/
theorem storeByte_below (h : PmapInv R D l s) (hf : UserFlags flags) (hd : d ∈ D)
    (hva : va < UTOP) {b : BitVec 8} (hs : storeByte s d va flags b = some s') :
    present (pteOf s d (PGNUM va)) ∧ pteOf s d (PGNUM va) &&& flags = flags ∧
      s' = s.store ⟨ppn (pteOf s d (PGNUM va)), wordOf va⟩
        (setByte (s.mem (ppn (pteOf s d (PGNUM va))) (wordOf va)) (va.toNat % 4) b) := by
  rw [storeByte, h.translate_below hf hd hva] at hs
  split at hs
  · next hpte =>
    exact ⟨hf.entry hpte, hpte, (Option.some.inj hs).symm⟩
  · cases hs

/-- A store by user code keeps the invariant, and leaves the page tables alone. -/
theorem userStore (h : PmapInv R D l s) (hd : d ∈ D) {b : BitVec 8}
    (hs : storeByte s d va USER_W b = some s') :
    PmapInv R D l s' ∧ Frame R D s s' ∧ ∀ e ∈ D, ∀ u < NUVPN, pteOf s' e u = pteOf s e u := by
  have hva : va < UTOP := by
    by_contra hva
    rw [storeByte, h.translate_above hd hva] at hs
    cases hs
  obtain ⟨hP, -, rfl⟩ := h.storeByte_below .write hd hva hs
  exact h.storePage hd (PGNUM_lt_NUVPN hva) hP _ _

/-- A copy by the kernel to addresses below `UTOP` leaves the page tables alone. -/
theorem copyTo_pteOf (h : PmapInv R D l s) (hd : d ∈ D) {bs : List (BitVec 8)}
    (hva : va.toNat + bs.length ≤ UTOP.toNat) (hok : Jos.copyTo d bs va s = .ok s') :
    PmapInv R D l s' ∧ Frame R D s s' ∧ ∀ e ∈ D, ∀ u < NUVPN, pteOf s' e u = pteOf s e u := by
  induction bs generalizing s va with
  | nil =>
    cases hok
    exact ⟨h, .refl _, fun _ _ _ _ => rfl⟩
  | cons b bs ih =>
    rw [List.length_cons] at hva
    obtain ⟨hva', hnext⟩ := copyTo_bounds hva
    obtain ⟨s₁, hs₁, hok⟩ := copyTo_cons hok
    obtain ⟨hP, -, rfl⟩ := h.storeByte_below .kernWrite hd hva' hs₁
    obtain ⟨hinv, hframe, hpte⟩ := h.storePage hd (PGNUM_lt_NUVPN hva') hP (wordOf va)
      (setByte (s.mem (ppn (pteOf s d (PGNUM va))) (wordOf va)) (va.toNat % 4) b)
    obtain ⟨hinv', hframe', hpte'⟩ := ih hinv (by omega) hok
    exact ⟨hinv', hframe.trans hframe', fun e he u hu => (hpte' e he u hu).trans (hpte e he u hu)⟩

theorem copyTo (h : PmapInv R D l s) (hd : d ∈ D) {bs : List (BitVec 8)}
    (hva : va.toNat + bs.length ≤ UTOP.toNat) (hok : Jos.copyTo d bs va s = .ok s') :
    PmapInv R D l s' :=
  (h.copyTo_pteOf hd hva hok).1

end PmapInv

end Jos
