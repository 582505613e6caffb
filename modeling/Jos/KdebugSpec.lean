import Jos.Kdebug

/-!
# `debuginfo_eip` and the bounds of its tables

A search that finds its very first entry above `addr` returns the entry before that one, as if it had found it. For
the search over all files that is entry `-1`. `debuginfo_eip` tests for entry `0` only, and the next search reads
`stabs[-1]`. This happens just if every file that the search looks at lies above `addr` (`ProbesAbove`). Otherwise the
file found is a real one, and since an entry has only one type, the search for a function stays after it and the search
for a line after the entry before that.
-/

namespace Jos.Kdebug

open Except (Returns whileLoop)

namespace Tables

variable {t : Tables} {type : BitVec 8} {addr : Word} {s s' : Search} {l₀ r₀ : Int}

/-! ## The address does not wrap

Every exact match increments `addr`. The entries matched so are in increasing order, and all but the first lie in the
right half of the table, so there are too few of them to take an address below `ULIM` past `2 ^ 32`. -/

/-- `addr` has been incremented `k` times, last for entry `e`. From the second match on, the entries matched come
after `c`, the middle of the search at the first match. -/
def Counted (t : Tables) (type : BitVec 8) (addr : Word) (s : Search) : Prop :=
  ∃ k : ℕ, s.addr.toNat = addr.toNat + k ∧ (k = 0 ∨ ∃ e c : Int, e ≤ s.l ∧ (t.entry e).nValue < s.addr ∧
    s.r ≤ 2 * c + 1 ∧ ((k = 1 ∧ ∀ i, e < i → i ≤ c → (t.entry i).nType ≠ type) ∨ c + k ≤ e + 1))

theorem Counted.start : Counted t type addr (Search.start addr l₀ r₀) := ⟨0, rfl, Or.inl rfl⟩

/-- The next match comes after the previous one, which is at a smaller address. -/
theorem Counted.exact {m : Int} (h : Counted t type addr s) (haddr : addr < ULIM) (hl : 0 ≤ s.l) (hlr : s.l ≤ s.r)
    (hr : s.r < t.count) (hm : LastIn t type s.l s.trueM m) (hv : (t.entry m).nValue = s.addr) :
    (s.addr + 1#32).toNat = s.addr.toNat + 1 ∧
      Counted t type addr { s with anyMatches := true, left := m, l := m, addr := s.addr + 1#32 } := by
  obtain ⟨k, hk, hrest⟩ := h
  have hmid := Search.trueM_eq hl hlr
  have hge := hm.ge
  have hle := hm.le
  have hfit := t.stabs_fit
  rw [BitVec.lt_def, toNat_ULIM] at haddr
  simp only [count, STABSIZE] at hr hfit
  -- The entry and the middle to go on with, and a bound for the number of matches.
  have hnext : ∃ c : Int, s.r ≤ 2 * c + 1 ∧ c ≤ s.r ∧
      ((k + 1 = 1 ∧ ∀ i, m < i → i ≤ c → (t.entry i).nType ≠ type) ∨ c + (k + 1 : ℕ) ≤ m + 1) := by
    rcases hrest with rfl | ⟨e, c, he, hve, hc, hlater⟩
    · exact ⟨s.trueM, by omega, by omega, Or.inl ⟨rfl, hm.last⟩⟩
    · have hne : e ≠ m := by
        rintro rfl
        rw [hv] at hve
        exact BitVec.lt_irrefl _ hve
      refine ⟨c, hc, ?_⟩
      rcases hlater with ⟨rfl, hgap⟩ | hlater
      · have hcm : c < m := by
          by_contra hmc
          exact hgap m (by omega) (by omega) hm.type_eq
        exact ⟨by omega, Or.inr (by omega)⟩
      · exact ⟨by omega, Or.inr (by omega)⟩
  obtain ⟨c, hc, hcr, hlater⟩ := hnext
  have hsucc : (s.addr + 1#32).toNat = s.addr.toNat + 1 := by
    have hlt : s.addr.toNat + 1 < 2 ^ 32 := by
      rcases hlater with ⟨hk1, -⟩ | hlater <;> omega
    rw [BitVec.toNat_add, BitVec.toNat_ofNat]
    omega
  refine ⟨hsucc, k + 1, by simp only; omega, Or.inr ⟨m, c, le_rfl, ?_, hc, hlater⟩⟩
  rw [hv, BitVec.lt_def]
  simp only
  omega

theorem Counted.round (h : Counted t type addr s) (haddr : addr < ULIM) (hl : 0 ≤ s.l) (hlr : s.l ≤ s.r)
    (hr : s.r < t.count) (hs : Round t type s s') : Counted t type addr s' := by
  have hmid := Search.trueM_eq hl hlr
  -- Moving the bounds inwards changes nothing that is counted.
  have hinwards : s'.addr = s.addr → s.l ≤ s'.l → s'.r ≤ s.r → Counted t type addr s' := by
    intro haddr' hl' hr'
    obtain ⟨k, hk, hrest⟩ := h
    refine ⟨k, haddr' ▸ hk, hrest.imp_right ?_⟩
    rintro ⟨e, c, he, hve, hc, hlater⟩
    exact ⟨e, c, he.trans hl', haddr' ▸ hve, hr'.trans hc, hlater⟩
  cases hs with
  | none _ => exact hinwards rfl (by simp only; omega) le_rfl
  | below _ _ => exact hinwards rfl (by simp only; omega) le_rfl
  | above hm _ =>
    have := hm.le
    exact hinwards rfl le_rfl (by simp only; omega)
  | «exact» hm hv => exact (h.exact haddr hl hlr hr hm hv).2

/-! ## The search for a file -/

/-- The files that a search for an address below all of them looks at, in the entries up to `r`: the last one in the
lower half, then the last one in the lower half of what comes before it, and so on down to entry 0. All of them lie
above `addr`. -/
inductive ProbesAbove (t : Tables) (addr : Word) : Int → Prop
  | first {r : Int} (h : LastIn t N_SO 0 (r / 2) 0) (hv : addr < (t.entry 0).nValue) : ProbesAbove t addr r
  | next {r m : Int} (h : LastIn t N_SO 0 (r / 2) m) (hm : 0 < m) (hv : addr < (t.entry m).nValue)
    (hrest : ProbesAbove t addr (m - 1)) : ProbesAbove t addr r

theorem ProbesAbove.probe {r : Int} (h : ProbesAbove t addr r) :
    ∃ m, LastIn t N_SO 0 (r / 2) m ∧ addr < (t.entry m).nValue ∧ (m = 0 ∨ ProbesAbove t addr (m - 1)) := by
  cases h with
  | first h hv => exact ⟨0, h, hv, Or.inl rfl⟩
  | next h hm hv hrest => exact ⟨_, h, hv, Or.inr hrest⟩

/-- The search then ends before the table. -/
theorem stabBinsearch_probesAbove (h : ProbesAbove t addr (t.count - 1)) :
    t.stabBinsearch N_SO addr 0 (t.count - 1) = .ok (-1, -1) := by
  have hret : Returns (t.stabBinsearch N_SO addr 0 (t.count - 1)) (· = (-1, -1)) := by
    refine stabBinsearch_returns (fun s => s.l = 0 ∧ s.left = 0 ∧ s.addr = addr ∧
      (ProbesAbove t addr s.r ∨ s.r = -1 ∧ s.right = -1 ∧ s.anyMatches = true)) le_rfl (by omega)
      ⟨rfl, rfl, rfl, Or.inl h⟩ ?_ ?_ ?_
    · rintro s s' - hlr ⟨hl, hleft, haddr, hprobe⟩ hs
      obtain ⟨m, hm, hv, hrest⟩ := (hprobe.resolve_right (by omega)).probe
      have hmid : s.trueM = s.r / 2 := by
        rw [Search.trueM_eq (by omega) hlr, hl, Int.zero_add]
      rw [← hmid, ← hl] at hm
      rw [← haddr] at hv
      -- The entry found is the one that `ProbesAbove` speaks of, and no other branch is taken for it.
      cases hs with
      | none hnone => exact absurd hm.type_eq (hnone m hm.ge hm.le)
      | below hm' hv' =>
        rw [hm'.unique hm] at hv'
        exact absurd hv' (BitVec.not_lt.mpr (BitVec.le_of_lt hv))
      | above hm' _ =>
        rw [hm'.unique hm]
        refine ⟨hl, hleft, haddr, ?_⟩
        rcases hrest with rfl | hrest
        · exact Or.inr ⟨rfl, rfl, rfl⟩
        · exact Or.inl hrest
      | «exact» hm' hv' =>
        rw [hm'.unique hm] at hv'
        rw [hv'] at hv
        exact absurd hv (BitVec.lt_irrefl _)
    · rintro s hlr ⟨hl, -, -, hprobe | ⟨-, -, hany⟩⟩ hnone
      · obtain ⟨m, hm, -⟩ := hprobe.probe
        have := hm.ge.trans hm.le
        omega
      · rw [hany] at hnone
        cases hnone
    · rintro s m - hlr ⟨hl, hleft, -, hprobe | ⟨-, hright, -⟩⟩ - hm
      · obtain ⟨m, hm, -⟩ := hprobe.probe
        have := hm.ge.trans hm.le
        omega
      · have hle := hm.le
        rcases hm.low with hlow | heq
        · omega
        · rw [heq, hright]
  obtain ⟨p, hp, rfl⟩ := hret
  exact hp

/-- The invariant of the search for a file if it does not end so: no match so far has been at the left end of the
search and above `addr`. -/
structure FileInv (t : Tables) (addr : Word) (s : Search) : Prop where
  counted : Counted t N_SO addr s
  le : s.left ≤ s.right
  left_type : s.left = 0 ∨ (t.entry s.left).nType = N_SO
  gap : s.left < s.l ∨ (t.entry s.left).nValue < s.addr ∨
    (s.l = 0 ∧ s.addr = addr ∧ ¬ ProbesAbove t addr s.r)

theorem FileInv.round (h : FileInv t addr s) (haddr : addr < ULIM) (hw : Within 0 r₀ s) (hr : r₀ < t.count)
    (hlr : s.l ≤ s.r) (hs : Round t N_SO s s') : FileInv t addr s' := by
  have hleft := hw.left_ge
  have hleft' := hw.left_le
  have hright := hw.right_ge
  have hright' := hw.right_le
  have hmid := Search.trueM_eq (by omega) hlr
  have hcounted := h.counted.round haddr (by omega) hlr (by omega) hs
  cases hs with
  | none _ => exact ⟨hcounted, h.le, h.left_type, Or.inl (by simp only; omega)⟩
  | below hm _ =>
    have hge := hm.ge
    have hle := hm.le
    exact ⟨hcounted, by simp only; omega, Or.inr hm.type_eq, Or.inl (by simp only; omega)⟩
  | @above m hm hv =>
    have hge := hm.ge
    have hle := hm.le
    rcases h.gap with hlt | hlow | ⟨hl, haddr', hprobe⟩
    · exact ⟨hcounted, by simp only; omega, h.left_type, Or.inl hlt⟩
    · have hne : s.left ≠ m := by
        intro heq
        rw [heq] at hlow
        exact BitVec.lt_irrefl _ (BitVec.lt_trans hlow hv)
      exact ⟨hcounted, by simp only; omega, h.left_type, Or.inr (Or.inl hlow)⟩
    · rw [hl, Int.zero_add] at hmid
      rw [hl, hmid] at hm
      rw [haddr'] at hv
      have hpos : 0 < m := by
        rcases eq_or_lt_of_le (show 0 ≤ m by omega) with rfl | hpos
        · exact absurd (.first hm hv) hprobe
        · exact hpos
      refine ⟨hcounted, by simp only; omega, h.left_type, Or.inr (Or.inr ⟨hl, haddr', ?_⟩)⟩
      exact fun hrest => hprobe (.next hm hpos hv hrest)
  | «exact» hm hv =>
    have hle := hm.le
    refine ⟨hcounted, by simp only; omega, Or.inr hm.type_eq, Or.inr (Or.inl ?_)⟩
    have hsucc := (h.counted.exact haddr (by omega) hlr (by omega) hm hv).1
    rw [hv, BitVec.lt_def]
    simp only
    omega

/-- The search for a file ends at entry 0, or at a file after it. -/
theorem stabBinsearch_file (haddr : addr < ULIM) (hprobe : ¬ ProbesAbove t addr (t.count - 1))
    (hcount : 0 < t.count) :
    Returns (t.stabBinsearch N_SO addr 0 (t.count - 1)) fun p =>
      p.1 = 0 ∨ (0 < p.1 ∧ p.1 ≤ p.2 ∧ p.2 < t.count ∧ (t.entry p.1).nType = N_SO) := by
  refine stabBinsearch_returns (FileInv t addr) le_rfl (by omega) ?_ ?_ ?_ ?_
  · exact ⟨.start, by simp only [Search.start]; omega, Or.inl rfl, Or.inr (Or.inr ⟨rfl, rfl, hprobe⟩)⟩
  · exact fun s s' hw hlr hI hs => hI.round haddr hw (by omega) hlr hs
  · exact fun _ _ _ _ => Or.inl rfl
  · intro s m hw _ hI _ hm
    have hleft := hw.left_ge
    have hle := hI.le
    have hright := hw.right_le
    have hlow : s.left ≤ m := by
      rcases hm.low with hlow | heq
      · omega
      · omega
    rcases eq_or_lt_of_le (show 0 ≤ m by omega) with rfl | hpos
    · exact Or.inl rfl
    · refine Or.inr ⟨hpos, hm.le, by simp only; omega, ?_⟩
      rcases hm.stop with hstop | hstop
      · have heq : m = s.left := by omega
        rw [heq]
        exact hI.left_type.resolve_left (by omega)
      · simpa using hstop

/-- In a table that is in the order its readers expect, the probes are above `addr` just if the first entry is a file
above it. -/
theorem probesAbove_iff_of_sorted (hcount : 0 < t.count)
    (hsorted : ∀ i j, 0 ≤ i → i ≤ j → (t.entry i).nType = N_SO → (t.entry j).nType = N_SO →
      (t.entry i).nValue ≤ (t.entry j).nValue) :
    ProbesAbove t addr (t.count - 1) ↔ (t.entry 0).nType = N_SO ∧ addr < (t.entry 0).nValue := by
  constructor
  · generalize t.count - 1 = r
    intro h
    induction h with
    | first h hv => exact ⟨h.type_eq, hv⟩
    | next _ _ _ _ ih => exact ih
  · rintro ⟨htype, hv⟩
    -- Entry 0 is a file, so there is a last one in every lower half.
    have hlast : ∀ n : ℕ, ∃ m, LastIn t N_SO 0 n m := by
      intro n
      induction n with
      | zero => exact ⟨0, le_rfl, le_rfl, htype, fun i hlt hle => by omega⟩
      | succ n ih =>
        by_cases hn : (t.entry (n + 1 : ℕ)).nType = N_SO
        · exact ⟨(n + 1 : ℕ), by omega, le_rfl, hn, fun i hlt hle => by omega⟩
        · obtain ⟨m, hm⟩ := ih
          refine ⟨m, hm.ge, by have := hm.le; omega, hm.type_eq, fun i hlt hle => ?_⟩
          rcases eq_or_lt_of_le hle with rfl | hlt'
          · exact hn
          · exact hm.last i hlt (by omega)
    have hall : ∀ n : ℕ, ProbesAbove t addr n := by
      intro n
      induction n using Nat.strong_induction_on with
      | h n ih =>
        obtain ⟨m, hm⟩ := hlast (n / 2)
        rw [Int.natCast_ediv, Nat.cast_ofNat] at hm
        have hle := hm.le
        have habove : addr < (t.entry m).nValue := by
          have hle := hsorted 0 m le_rfl hm.ge htype hm.type_eq
          rw [BitVec.lt_def] at hv ⊢
          exact hv.trans_le hle
        rcases eq_or_lt_of_le hm.ge with rfl | hpos
        · exact .first hm habove
        · refine .next hm hpos habove ?_
          have hrest := ih (m - 1).toNat (by omega)
          rwa [Int.toNat_of_nonneg (by omega)] at hrest
    have hend := hall (t.count - 1).toNat
    rwa [Int.toNat_of_nonneg (by omega)] at hend

/-! ## Strings and arguments -/

/-- The string table ends with a NUL. -/
def Terminated (t : Tables) : Prop := t.stabstr.getLast? = some 0#8

/-- A name can be read as a string. -/
def NameIn (t : Tables) (name : Name) : Prop := ∀ off, name = .str off → off < t.stabstr.length

theorem char_ok {off : Nat} (h : off < t.stabstr.length) : t.char off = .ok (t.stabstr.getD off 0#8) := if_pos h

theorem Terminated.last (h : t.Terminated) :
    0 < t.stabstr.length ∧ t.stabstr.getD (t.stabstr.length - 1) 0#8 = 0#8 := by
  unfold Terminated at h
  rw [List.getLast?_eq_getElem?] at h
  obtain ⟨hlt, hval⟩ := List.getElem?_eq_some_iff.mp h
  exact ⟨by omega, by rw [List.getD_eq_getElem _ _ hlt, hval]⟩

theorem Terminated.strInvalid (h : t.Terminated) : t.strInvalid = .ok false := by
  obtain ⟨hpos, hlast⟩ := h.last
  rw [Tables.strInvalid, if_neg (by omega), char_ok (by omega), hlast]
  rfl

theorem strInvalid_of_not (h : ¬ t.Terminated) : t.strInvalid = .ok true := by
  by_cases hlen : t.stabstr.length = 0
  · exact if_pos hlen
  · rw [strInvalid, if_neg hlen, char_ok (by omega), Except.ok_bind]
    refine congrArg _ (bne_iff_ne.mpr fun hzero => h ?_)
    rw [Terminated, List.getLast?_eq_getElem?, List.getElem?_eq_getElem (by omega), ← hzero,
      List.getD_eq_getElem _ _ (by omega)]

/-- A string ends in the table. -/
theorem namelen_returns (h : t.Terminated) {name : Name} (hname : t.NameIn name) :
    Returns (t.namelen name) fun _ => True := by
  cases name with
  | unknown => exact Returns.ok trivial
  | str off =>
    obtain ⟨-, hlast⟩ := h.last
    refine Returns.bind (Except.whileLoop_returns (fun i => i < t.stabstr.length) (fun i => t.stabstr.length - i)
      ?_ (hname off rfl) ?_) fun _ _ => Returns.ok trivial
    · intro i hi
      rw [char_ok hi, Except.ok_bind]
      cases hgo : t.stabstr.getD i 0#8 != 0#8 && t.stabstr.getD i 0#8 != 0x3a#8 with
      | false => exact Or.inl rfl
      | true =>
        refine Or.inr ⟨rfl, Returns.ok ?_⟩
        have hne : i ≠ t.stabstr.length - 1 := by
          rintro rfl
          rw [hlast] at hgo
          simp at hgo
        omega
    · omega

theorem nameOf_returns {st : Stab} {old : Name} (h : t.NameIn old) : Returns (t.nameOf st old) t.NameIn := by
  unfold nameOf
  split
  · rename_i hlt
    refine Returns.of_eq (if_pos hlt) fun off hoff => ?_
    rw [← Name.str.inj hoff]
    exact hlt
  · exact Returns.ok h

/-- The function's entry, or the file's, is where the search for a line starts. -/
theorem findFun_returns {info : Eipdebuginfo} {lfile rfile lfun rfun : Int} (hinfo : t.NameIn info.eipFnName)
    (hfun : lfun ≤ rfun → 0 ≤ lfun ∧ rfun < t.count) :
    Returns (t.findFun info addr lfile rfile lfun rfun) fun p =>
      t.NameIn p.1.eipFnName ∧ p.1.eipFile = info.eipFile ∧ (lfun ≤ rfun ∧ p.2.2 = (lfun, rfun) ∨ rfun < lfun ∧ p.2.2 = (lfile, rfile)) := by
  unfold findFun
  by_cases hle : lfun ≤ rfun
  · obtain ⟨hlow, hhigh⟩ := hfun hle
    rw [if_pos hle, stab_ok hlow (by omega), Except.ok_bind]
    exact Returns.bind (nameOf_returns hinfo) fun name hname => Returns.ok ⟨hname, rfl, Or.inl ⟨hle, rfl⟩⟩
  · rw [if_neg hle]
    exact Returns.ok ⟨hinfo, rfl, Or.inr ⟨by omega, rfl⟩⟩

theorem findFile_returns {info : Eipdebuginfo} {lfile lline : Int} (hinfo : t.NameIn info.eipFile) (hlow : 0 ≤ lfile)
    (hhigh : lline < t.count) : Returns (t.findFile info lfile lline) fun _ => True := by
  refine Returns.bind (scanDown_returns hlow hhigh) fun m hm => ?_
  by_cases hle : lfile ≤ m
  · have := hm.le
    rw [if_pos hle, stab_ok (by omega) (by omega), Except.ok_bind]
    exact Returns.bind (nameOf_returns hinfo) fun _ _ => Returns.ok trivial
  · rw [if_neg hle]
    exact Returns.ok trivial

theorem countArgs_returns {lfun rfun : Int} (hlow : 0 ≤ lfun) (hhigh : rfun < t.count) :
    Returns (t.countArgs lfun rfun) fun _ => True := by
  unfold countArgs
  by_cases hlt : lfun < rfun
  · rw [if_pos hlt]
    refine Returns.bind (Except.whileLoop_returns (fun i => lfun < i) (fun i => (rfun - i).toNat)
      ?_ (by omega) (by omega)) fun _ _ => Returns.ok trivial
    intro i hi
    by_cases hir : i < rfun
    · rw [if_pos hir, stab_ok (by omega) (by omega), Except.ok_bind]
      cases (t.entry i).nType == N_PSYM with
      | false => exact Or.inl rfl
      | true => exact Or.inr ⟨rfl, Returns.ok ⟨by omega, by omega⟩⟩
    · rw [if_neg hir]
      exact Or.inl rfl
  · rw [if_neg hlt]
    exact Returns.ok trivial

/-! ## The lookup -/

/-- With bounds of a file in the table, the rest of the lookup stays in it. -/
theorem lookup_returns (haddr : addr < ULIM) (hcount : 0 < t.count) (hterm : t.Terminated)
    (hprobe : ¬ ProbesAbove t addr (t.count - 1)) : Returns (t.lookup addr) fun _ => True := by
  unfold lookup
  rw [hterm.strInvalid, Except.ok_bind, if_neg Bool.false_ne_true]
  refine Returns.bind (stabBinsearch_file haddr hprobe hcount) ?_
  rintro ⟨lfile, rfile⟩ hfile
  dsimp only at hfile ⊢
  by_cases hzero : lfile = 0
  · rw [if_pos hzero]
    exact Returns.ok trivial
  rw [if_neg hzero]
  obtain ⟨hpos, hle, hlt, htype⟩ := hfile.resolve_left hzero
  -- Entry `lfile` is a file and not a function, so the function found comes after it.
  refine Returns.bind (stabBinsearch_bounds lfile hpos.le hlt le_rfl hle ?_) ?_
  · intro m hlow _ hm
    rcases eq_or_lt_of_le hlow with rfl | hlow
    · rw [htype] at hm
      exact absurd hm (by decide)
    · exact hlow
  rintro ⟨lfun, rfun⟩ hfun
  dsimp only at hfun ⊢
  refine Returns.bind (findFun_returns (fun off h => nomatch h) fun _ => by omega) ?_
  rintro ⟨info, addr', lline, rline⟩ ⟨hname, hfileName, hline⟩
  dsimp only at hname hfileName hline ⊢
  refine Returns.bind (namelen_returns hterm hname) fun len _ => ?_
  have hline' : 0 < lline ∧ lline ≤ rline ∧ rline < t.count := by
    rcases hline with ⟨hfr, heq⟩ | ⟨hfr, heq⟩
    · obtain ⟨rfl, rfl⟩ := Prod.mk.inj heq
      omega
    · obtain ⟨rfl, rfl⟩ := Prod.mk.inj heq
      omega
  -- The line may lie one entry before what was searched, which is still in the table.
  refine Returns.bind (stabBinsearch_bounds (lline - 1) (by omega) (by omega) (by omega) (by omega)
    fun m hlow _ _ => by omega) ?_
  rintro ⟨l, r⟩ hlr
  dsimp only at hlr ⊢
  by_cases hle' : l ≤ r
  · rw [if_pos hle', stab_ok (by omega) (by omega), Except.ok_bind]
    refine Returns.bind (findFile_returns ?_ hpos.le (by omega)) fun _ _ => ?_
    · intro off hoff
      rw [show _ = Name.str off from hoff] at hfileName
      cases hfileName
    exact Returns.bind (countArgs_returns (by omega) (by omega)) fun _ _ => Returns.ok trivial
  · rw [if_neg hle']
    exact Returns.ok trivial

/-- A search that is told to start at entry -1 reads it. -/
theorem stabBinsearch_outside (t : Tables) (type : BitVec 8) (addr : Word) :
    t.stabBinsearch type addr (-1) (-1) = .error (.outside (-1)) := by
  have hstab : t.stab (-1) = .error (.outside (-1)) := if_neg fun h => absurd h.1 (by decide)
  have hscan : t.scanDown (fun st => st.nType != type) (-1) (-1) = .error (.outside (-1)) := by
    refine Except.whileLoop_test_error ?_
    rw [if_pos le_rfl, hstab]
    rfl
  have hround : t.searchRound type (Search.start addr (-1) (-1)) = .error (.outside (-1)) := by
    rw [searchRound, show Search.trueM (Search.start addr (-1) (-1)) = -1 by rfl]
    simp only [Search.start]
    rw [hscan]
    rfl
  have hloop : whileLoop .diverges (fun s : Search => return decide (s.l ≤ s.r)) (t.searchRound type)
      (2 * ((-1 : Int) + 1 - -1).toNat + 2) (Search.start addr (-1) (-1)) = .error (.outside (-1)) :=
    Except.whileLoop_body_error rfl hround
  rw [stabBinsearch, hloop]
  rfl

theorem lookup_probesAbove (hterm : t.Terminated) (hprobe : ProbesAbove t addr (t.count - 1)) :
    t.lookup addr = .error (.outside (-1)) := by
  unfold lookup
  rw [hterm.strInvalid, Except.ok_bind, if_neg Bool.false_ne_true, stabBinsearch_probesAbove hprobe, Except.ok_bind]
  dsimp only
  rw [if_neg (by decide), stabBinsearch_outside]
  rfl

end Tables

/-! ## The user's tables -/

open Tables

/-- Every index into the symbols is one of the table, and so is every offset into the strings. -/
def Inside {α : Type} (x : Except Stop α) : Prop :=
  (∀ i, x ≠ .error (.outside i)) ∧ ∀ off, x ≠ .error (.beyond off)

theorem inside_ok {α : Type} (a : α) : Inside (.ok a : Except Stop α) := ⟨nofun, nofun⟩

/-- `debuginfo_eip` stays inside the tables of a user program just if these have no strings, or not every file that the
first search looks at is above `addr`; and then it returns. -/
theorem debuginfoEip_inside_iff {kstabs t : Tables} {s : Pmap} {d : Nat} {addr : Word} (haddr : addr < ULIM)
    (ht : userTables s d = .ok t) (hN : 1 ≤ t.stabs.length) :
    (Inside (debuginfoEip kstabs s d addr) ↔ ¬ (t.Terminated ∧ ProbesAbove t addr (t.count - 1))) ∧
      (Inside (debuginfoEip kstabs s d addr) → ∃ r, debuginfoEip kstabs s d addr = .ok r) := by
  have hlookup : debuginfoEip kstabs s d addr = t.lookup addr := by
    rw [debuginfoEip, if_neg (BitVec.not_le.mpr haddr), ht, Except.ok_bind]
  have hcount : 0 < t.count := by
    unfold count
    omega
  rw [hlookup]
  by_cases hout : t.Terminated ∧ ProbesAbove t addr (t.count - 1)
  · have hnot : ¬ Inside (t.lookup addr) := fun h => h.1 (-1) (lookup_probesAbove hout.1 hout.2)
    exact ⟨iff_of_false hnot (not_not_intro hout), fun h => absurd h hnot⟩
  · have hret : ∃ r, t.lookup addr = .ok r := by
      by_cases hterm : t.Terminated
      · obtain ⟨r, hr, -⟩ := lookup_returns haddr hcount hterm fun h => hout ⟨hterm, h⟩
        exact ⟨r, hr⟩
      · refine ⟨(-1, Eipdebuginfo.init addr), ?_⟩
        rw [lookup, strInvalid_of_not hterm, Except.ok_bind, if_pos rfl]
        rfl
    obtain ⟨r, hr⟩ := hret
    rw [hr]
    exact ⟨iff_of_true (inside_ok r) hout, fun _ => ⟨r, rfl⟩⟩

/-- A program with one symbol, a file at `0x800020`, and an empty string. Pages 0 and 1 are its directory and its page
table, page 2 has the block at `USTABDATA` and after that the tables. -/
def demoStabs : Pmap where
  npages := 3
  pages _ := { ppLink := none, ppRef := 0#16 }
  pageFreeList := none
  kernPgdir := 0
  mmioBase := MMIOBASE
  mem p i :=
    if p = 0 ∧ i = PDX USTABDATA then page2pa 1 ||| USER_W
    else if p = 1 ∧ i = PTX USTABDATA then page2pa 2 ||| USER_W
    else if p = 2 then
      [USTABDATA + 16#32, USTABDATA + 28#32, USTABDATA + 28#32, USTABDATA + 29#32,
        0#32, 0x64#32, 0x800020#32, 0#32].getD i 0#32
    else 0#32

/-- The tables of this program. -/
def demoTables : Tables where
  stabs := [{ nStrx := 0#32, nType := N_SO, nOther := 0#8, nDesc := 0#16, nValue := 0x800020#32 }]
  stabstr := [0#8]
  stabs_fit := by decide
  stabstr_fits := noNames_fits

theorem demoStabs_tables : userTables demoStabs 0 = .ok demoTables := by rfl

/-- An address in the file is looked up inside the tables. -/
theorem debuginfoEip_inside_demoStabs : Inside (debuginfoEip demoTables demoStabs 0 0x800030#32) := by
  refine (debuginfoEip_inside_iff (by decide) demoStabs_tables (by decide)).1.mpr ?_
  rintro ⟨-, hprobe⟩
  obtain ⟨m, hm, hv, -⟩ := hprobe.probe
  have hzero : m = 0 := le_antisymm hm.le hm.ge
  rw [hzero] at hv
  exact absurd hv (by decide)

/-- Below the only file the lookup reads `stabs[-1]`. -/
theorem debuginfoEip_outside_demoStabs : userTables demoStabs 0 = .ok demoTables ∧ 1 ≤ demoTables.stabs.length ∧
    0x800000#32 < ULIM ∧ debuginfoEip demoTables demoStabs 0 0x800000#32 = .error (.outside (-1)) ∧
    ¬ Inside (debuginfoEip demoTables demoStabs 0 0x800000#32) := by
  have hout : debuginfoEip demoTables demoStabs 0 0x800000#32 = .error (.outside (-1)) := by rfl
  exact ⟨demoStabs_tables, by decide, by decide, hout, fun h => h.1 (-1) hout⟩

end Jos.Kdebug
