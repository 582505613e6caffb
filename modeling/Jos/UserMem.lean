import Mathlib.Order.Bounds.Basic
import Jos.PmapSpec

/-!
# `user_mem_check`

The kernel's guard on user pointers. The loop visits pages from `ROUNDDOWN(va)` up to
`ROUNDUP(va + len)`, both computed in 32 bits. Section by section: which addresses a user may access
(`Accessible`), what the loop computes between two page numbers, and what the rounded bounds are when
`va + len` leaves the 32-bit range.

`user_mem_check` decides accessibility of `[va, va + len)` as long as the rounded end of the interval is
representable. Past that point the end wraps to a small number, the loop runs at most once, and the answer
is right only if the page of `va` itself stops it.
-/

namespace Jos

open Pmap

variable {s : Pmap} {d : Nat} {va len perm : Word}

/-! ## Accessible addresses -/

/-- The page of `i` lies below `ULIM` and has a present entry with all bits of `perm`. -/
def userPage (s : Pmap) (pgdir : Nat) (perm i : Word) : Prop :=
  i < ULIM ∧ ∃ pte, pgdirWalk s pgdir i false = .ok (some pte, s) ∧ present (s.load pte) ∧
    s.load pte &&& perm = perm

/-- A user may access address `a` with permissions `perm`. -/
def Accessible (s : Pmap) (pgdir : Nat) (perm : Word) (a : Nat) : Prop :=
  a < ULIM.toNat ∧ userPage s pgdir perm (BitVec.ofNat 32 a)

/-- The addresses of the mathematical interval `[va, va + len)` that a user may not access. -/
def Forbidden (s : Pmap) (pgdir : Nat) (va len perm : Word) : Set Nat :=
  {a | va.toNat ≤ a ∧ a < va.toNat + len.toNat ∧ ¬ Accessible s pgdir perm a}

/-- What a check of `[va, va + len)` should answer: success exactly when the whole interval is
accessible, and otherwise the first address that is not. -/
def ChecksRange (s : Pmap) (pgdir : Nat) (va len perm : Word) : Prop :=
  (userMemCheck s pgdir va len perm = .ok .ok ↔
    ∀ a, va.toNat ≤ a → a < va.toNat + len.toNat → Accessible s pgdir perm a) ∧
  ∀ addr, userMemCheck s pgdir va len perm = .ok (.fault addr) →
    IsLeast (Forbidden s pgdir va len perm) addr.toNat

/-- Accessibility is decided page by page. -/
theorem accessible_iff {a : Nat} (ha : a < 4294967296) :
    Accessible s d perm a ↔ userPage s d perm (pageAddr (a / 4096)) := by
  have hof : (BitVec.ofNat 32 a).toNat = a := by
    rw [BitVec.toNat_ofNat]
    omega
  have hpa := toNat_pageAddr (v := a / 4096) (by omega)
  have hpdx : PDX (BitVec.ofNat 32 a) = PDX (pageAddr (a / 4096)) := by
    rw [PDX_eq, PDX_eq, hof, hpa]
    omega
  have hptx : PTX (BitVec.ofNat 32 a) = PTX (pageAddr (a / 4096)) := by
    rw [PTX_eq, PTX_eq, hof, hpa]
    omega
  have hwalk : pgdirWalk s d (BitVec.ofNat 32 a) false
      = pgdirWalk s d (pageAddr (a / 4096)) false := by
    unfold pgdirWalk
    rw [hpdx, hptx]
  have hlim : BitVec.ofNat 32 a < ULIM ↔ pageAddr (a / 4096) < ULIM := by
    rw [BitVec.lt_def, BitVec.lt_def, hof, hpa, toNat_ULIM]
    omega
  unfold Accessible userPage
  rw [hwalk, hlim]
  constructor
  · exact fun h => h.2
  · intro h
    refine ⟨?_, h⟩
    have := h.1
    rw [BitVec.lt_def, hpa, toNat_ULIM] at this
    rw [toNat_ULIM]
    omega

/-! ## The loop -/

/-- One iteration: an accessible page is skipped, any other ends the loop. -/
theorem userMemCheckFrom_step {stop i : Word} (n : Nat) (hi : i < stop) :
    (userPage s d perm i ∧ userMemCheckFrom s d va stop perm (n + 1) i
        = userMemCheckFrom s d va stop perm n (i + BitVec.ofNat 32 PGSIZE)) ∨
    (¬ userPage s d perm i ∧
      (userMemCheckFrom s d va stop perm (n + 1) i = .ok (.fault (if i < va then va else i)) ∨
        ∃ e, userMemCheckFrom s d va stop perm (n + 1) i = .error e)) := by
  have hwalk : (∃ e, pgdirWalk s d i false = .error e) ∨ pgdirWalk s d i false = .ok (none, s) ∨
      ∃ pte, pgdirWalk s d i false = .ok (some pte, s) := by
    by_cases hP : present (s.mem d (PDX i))
    · by_cases hlt : ppn (s.mem d (PDX i)) < s.npages
      · exact Or.inr (Or.inr ⟨_, pgdirWalk_present false hP hlt⟩)
      · have hk : kaddr s (PTE_ADDR (s.mem d (PDX i))) = .error .kaddr := by
          have hge : s.npages ≤ PGNUM (PTE_ADDR (s.mem d (PDX i))) := Nat.not_lt.mp hlt
          rw [kaddr, if_pos hge]
          rfl
        exact Or.inl ⟨.kaddr, by simp [pgdirWalk, load, hP, hk]⟩
    · exact Or.inr (Or.inl (pgdirWalk_absent hP))
  rw [userMemCheckFrom, if_pos hi]
  rcases hwalk with ⟨e, he⟩ | hnone | ⟨pte, hpte⟩
  · refine Or.inr ⟨?_, Or.inr ⟨e, by rw [he]; rfl⟩⟩
    rintro ⟨-, pte, hp, -⟩
    rw [he] at hp
    cases hp
  · refine Or.inr ⟨?_, Or.inl ?_⟩
    · rintro ⟨-, pte, hp, -⟩
      rw [hnone] at hp
      cases hp
    · simp [hnone]
  · rw [hpte]
    by_cases hgood : userPage s d perm i
    · refine Or.inl ⟨hgood, ?_⟩
      obtain ⟨hlim, pte', hp, hP, hperm⟩ := hgood
      rw [hpte] at hp
      cases hp
      simp only [Except.ok_bind]
      rw [if_neg]
      simp [hP, hperm, BitVec.not_le.mpr hlim]
    · refine Or.inr ⟨hgood, Or.inl ?_⟩
      simp only [Except.ok_bind]
      rw [if_pos]
      · rfl
      · by_contra hc
        obtain ⟨hlim, hbad⟩ := not_or.mp hc
        simp only [decide_eq_true_eq, not_or, not_not] at hbad
        exact hgood ⟨BitVec.not_le.mp hlim, pte, hpte, hbad.1, hbad.2⟩

theorem userMemCheckFrom_done {stop i : Word} (fuel : Nat) (hi : ¬ i < stop) :
    userMemCheckFrom s d va stop perm fuel i = .ok .ok := by
  cases fuel with
  | zero => rfl
  | succ n =>
    rw [userMemCheckFrom, if_neg hi]
    rfl

/-- Between pages `p` and `q` the loop succeeds exactly when every page passes. -/
theorem userMemCheckFrom_ok_iff {p q : Nat} (fuel : Nat) (hp : p < 1048576) (hq : q < 1048576)
    (hf : q - p ≤ fuel) :
    userMemCheckFrom s d va (pageAddr q) perm fuel (pageAddr p) = .ok .ok ↔
      ∀ v, p ≤ v → v < q → userPage s d perm (pageAddr v) := by
  induction fuel generalizing p with
  | zero => exact iff_of_true rfl fun v _ _ => by omega
  | succ n ih =>
    by_cases hpq : p < q
    · have hlt := (pageAddr_lt hp hq).mpr hpq
      rcases userMemCheckFrom_step (s := s) (d := d) n hlt with
        ⟨hgood, heq⟩ | ⟨hbad, heq⟩
      · rw [heq, pageAddr_succ, ih (by omega) (by omega)]
        constructor
        · intro h v hpv hvq
          rcases Nat.eq_or_lt_of_le hpv with rfl | hpv
          · exact hgood
          · exact h v hpv hvq
        · exact fun h v hpv hvq => h v (by omega) hvq
      · refine iff_of_false ?_ fun h => hbad (h p le_rfl hpq)
        rcases heq with heq | ⟨e, heq⟩ <;> rw [heq] <;> simp
    · refine iff_of_true (userMemCheckFrom_done _ ?_) fun v _ _ => by omega
      exact fun hc => hpq ((pageAddr_lt hp hq).mp hc)

/-- A fault of the loop names the first page that does not pass, or `va` inside it. -/
theorem userMemCheckFrom_fault {p q : Nat} {addr : Word} (fuel : Nat) (hp : p < 1048576)
    (hq : q < 1048576)
    (h : userMemCheckFrom s d va (pageAddr q) perm fuel (pageAddr p) = .ok (.fault addr)) :
    ∃ v, p ≤ v ∧ v < q ∧ ¬ userPage s d perm (pageAddr v) ∧
      (∀ w, p ≤ w → w < v → userPage s d perm (pageAddr w)) ∧
      addr = if pageAddr v < va then va else pageAddr v := by
  induction fuel generalizing p with
  | zero => cases h
  | succ n ih =>
    by_cases hpq : p < q
    · have hlt := (pageAddr_lt hp hq).mpr hpq
      rcases userMemCheckFrom_step (s := s) (d := d) n hlt with
        ⟨hgood, heq⟩ | ⟨hbad, heq⟩
      · rw [heq, pageAddr_succ] at h
        obtain ⟨v, hpv, hvq, hv, hw, haddr⟩ := ih (by omega) h
        refine ⟨v, by omega, hvq, hv, fun w hpw hwv => ?_, haddr⟩
        rcases Nat.eq_or_lt_of_le hpw with rfl | hpw
        · exact hgood
        · exact hw w hpw hwv
      · rcases heq with heq | ⟨e, heq⟩
        · rw [heq] at h
          cases h
          exact ⟨p, le_rfl, hpq, hbad, fun w _ _ => by omega, rfl⟩
        · rw [heq] at h
          cases h
    · rw [userMemCheckFrom_done _ (fun hc => hpq ((pageAddr_lt hp hq).mp hc))] at h
      cases h

/-! ## The rounded bounds -/

/-- The page number at which the loop stops. -/
def stopPage (va len : Word) : Nat := ((va.toNat + len.toNat) % 4294967296 + 4095) / 4096 % 1048576

theorem stopPage_lt (va len : Word) : stopPage va len < 1048576 := Nat.mod_lt _ (by norm_num)

theorem ROUNDDOWN_eq (va : Word) : ROUNDDOWN va PGSIZE = pageAddr (va.toNat / 4096) := by
  refine eq_pageAddr ?_
  rw [toNat_ROUNDDOWN]
  omega

theorem ROUNDUP_eq (va len : Word) : ROUNDUP (va + len) PGSIZE = pageAddr (stopPage va len) := by
  refine eq_pageAddr ?_
  rw [toNat_ROUNDUP, BitVec.toNat_add, stopPage]
  omega

theorem userMemCheck_eq (s : Pmap) (d : Nat) (va len perm : Word) :
    userMemCheck s d va len perm = userMemCheckFrom s d va (pageAddr (stopPage va len)) perm
      (NPDENTRIES * NPTENTRIES) (pageAddr (va.toNat / 4096)) := by
  rw [userMemCheck, ROUNDUP_eq, ROUNDDOWN_eq]

/-- The first page of a 32-bit address is one of the `2 ^ 20` pages. -/
private theorem firstPage_lt (va : Word) : va.toNat / 4096 < 1048576 := by
  have := va.isLt
  omega

theorem userMemCheck_ok_iff : userMemCheck s d va len perm = .ok .ok ↔
    ∀ v, va.toNat / 4096 ≤ v → v < stopPage va len → userPage s d perm (pageAddr v) := by
  rw [userMemCheck_eq]
  refine userMemCheckFrom_ok_iff _ (firstPage_lt va) (stopPage_lt va len) ?_
  have := stopPage_lt va len
  unfold NPDENTRIES NPTENTRIES
  omega

theorem userMemCheck_fault {addr : Word} (h : userMemCheck s d va len perm = .ok (.fault addr)) :
    ∃ v, va.toNat / 4096 ≤ v ∧ v < stopPage va len ∧ ¬ userPage s d perm (pageAddr v) ∧
      (∀ w, va.toNat / 4096 ≤ w → w < v → userPage s d perm (pageAddr w)) ∧
      addr = if pageAddr v < va then va else pageAddr v := by
  rw [userMemCheck_eq] at h
  exact userMemCheckFrom_fault _ (firstPage_lt va) (stopPage_lt va len) h

/-- If the rounded end of the interval is representable, the loop visits exactly its pages. -/
theorem checksRange_of_le (hlen : 1 ≤ len.toNat)
    (hend : va.toNat + len.toNat ≤ 4294967296 - 4096) : ChecksRange s d va len perm := by
  have hstop : stopPage va len = (va.toNat + len.toNat + 4095) / 4096 := by
    unfold stopPage
    omega
  constructor
  · rw [userMemCheck_ok_iff, hstop]
    constructor
    · intro h a hva ha
      rw [accessible_iff (by omega)]
      exact h _ (by omega) (by omega)
    · -- every visited page contains an address of the interval
      intro h v hv hvq
      have hacc := h (max va.toNat (v * 4096)) (le_max_left _ _) (by omega)
      rw [accessible_iff (by omega)] at hacc
      have hdiv : max va.toNat (v * 4096) / 4096 = v := by omega
      rwa [hdiv] at hacc
  · intro addr h
    obtain ⟨v, hv, hvq, hbad, hgood, rfl⟩ := userMemCheck_fault h
    rw [hstop] at hvq
    have hpa := toNat_pageAddr (v := v) (by omega)
    have haddr : (if pageAddr v < va then va else pageAddr v).toNat = max va.toNat (v * 4096) := by
      split
      · next hlt =>
        rw [BitVec.lt_def, hpa] at hlt
        omega
      · next hge =>
        rw [BitVec.lt_def, hpa] at hge
        omega
    rw [haddr]
    refine ⟨⟨le_max_left _ _, by omega, ?_⟩, ?_⟩
    · rw [accessible_iff (by omega)]
      have hdiv : max va.toNat (v * 4096) / 4096 = v := by omega
      rwa [hdiv]
    · rintro a ⟨hva, ha, hna⟩
      rw [accessible_iff (by omega)] at hna
      have hle : v ≤ a / 4096 := by
        by_contra hlt
        exact hna (hgood _ (by omega) (by omega))
      omega

/-- An interval that reaches into the last page of the address space is not accessible. -/
theorem not_accessible_of_end (hlen : 1 ≤ len.toNat)
    (hend : 4294967296 - 4096 < va.toNat + len.toNat) :
    ¬ ∀ a, va.toNat ≤ a → a < va.toNat + len.toNat → Accessible s d perm a := by
  intro h
  have hlim := (h (va.toNat + len.toNat - 1) (by omega) (by omega)).1
  rw [toNat_ULIM] at hlim
  omega

/-- The end of the interval wraps past `va`'s own page: the loop looks at this page only. -/
def FirstPageOnly (va len : Word) : Prop :=
  4294967296 < va.toNat + len.toNat ∧ ROUNDDOWN va PGSIZE < ROUNDUP (va + len) PGSIZE

theorem stopPage_of_wrap (hend : 4294967296 - 4096 < va.toNat + len.toNat) :
    (FirstPageOnly va len ∧ stopPage va len = va.toNat / 4096 + 1) ∨
      (¬ FirstPageOnly va len ∧ stopPage va len ≤ va.toNat / 4096) := by
  have hva := va.isLt
  have hlen := len.isLt
  unfold FirstPageOnly
  rw [ROUNDDOWN_eq, ROUNDUP_eq, pageAddr_lt (firstPage_lt va) (stopPage_lt va len)]
  unfold stopPage
  omega

/-- `user_mem_check` answers correctly exactly when the rounded end of the interval does not wrap, or
wraps but the first page already stops the loop. -/
theorem userMemCheck_checksRange_iff (s : Pmap) (d : Nat) (va len perm : Word)
    (hlen : 1 ≤ len.toNat) :
    ChecksRange s d va len perm ↔
      va.toNat + len.toNat ≤ 4294967296 - 4096 ∨
        (FirstPageOnly va len ∧ ¬ Accessible s d perm va.toNat) := by
  by_cases hend : va.toNat + len.toNat ≤ 4294967296 - 4096
  · exact iff_of_true (checksRange_of_le hlen hend) (Or.inl hend)
  · have hend' : 4294967296 - 4096 < va.toNat + len.toNat := by omega
    have hbad : ¬ ∀ a, va.toNat ≤ a → a < va.toNat + len.toNat → Accessible s d perm a :=
      not_accessible_of_end hlen hend'
    rw [or_iff_right hend, accessible_iff va.isLt]
    rcases stopPage_of_wrap hend' with ⟨hf, hstop⟩ | ⟨hf, hstop⟩
    · rw [and_iff_right hf]
      constructor
      · intro h hacc
        refine hbad (h.1.mp (userMemCheck_ok_iff.mpr fun v hv hvq => ?_))
        have hv : v = va.toNat / 4096 := by omega
        rwa [hv]
      · intro hna
        refine ⟨iff_of_false (fun h => ?_) hbad, fun addr h => ?_⟩
        · exact hna (userMemCheck_ok_iff.mp h _ le_rfl (by omega))
        · obtain ⟨v, hv, hvq, -, -, haddr⟩ := userMemCheck_fault h
          have hv : v = va.toNat / 4096 := by omega
          have hpa := toNat_pageAddr (firstPage_lt va)
          have heq : addr.toNat = va.toNat := by
            rw [haddr, hv]
            split
            · rfl
            · next hge =>
              rw [BitVec.lt_def, hpa] at hge
              omega
          rw [heq]
          exact ⟨⟨le_rfl, by omega, by rwa [accessible_iff va.isLt]⟩, fun a ha => ha.1⟩
    · -- the loop does not run at all and the check passes
      refine iff_of_false (fun h => ?_) fun hc => hf hc.1
      exact hbad (h.1.mp (userMemCheck_ok_iff.mpr fun v hv hvq => by omega))

/-- A machine without mapped memory: nothing is accessible, and yet the check of all addresses but the
last passes. -/
theorem userMemCheck_wraps :
    ¬ ChecksRange ⟨0, fun _ => ⟨none, 0#16⟩, none, 0, 0#32, fun _ _ => 0#32⟩ 0 0#32 0xffffffff#32
      PTE_U := by
  intro h
  refine not_accessible_of_end (by decide) (by decide) (h.1.mp ?_)
  refine userMemCheck_ok_iff.mpr fun v hv hvq => ?_
  have : stopPage 0#32 0xffffffff#32 = 0 := by decide
  omega

/-- One byte at address zero is checked correctly on the same machine. -/
theorem userMemCheck_checksRange_zero :
    1 ≤ (1#32).toNat ∧
      ChecksRange ⟨0, fun _ => ⟨none, 0#16⟩, none, 0, 0#32, fun _ _ => 0#32⟩ 0 0#32 1#32 PTE_U :=
  ⟨by decide, (userMemCheck_checksRange_iff _ _ _ _ _ (by decide)).mpr (Or.inl (by decide))⟩

end Jos
