import Mathlib.Tactic.Linarith
import Jos.Lib.While
import Jos.Pmap

/-!
# `stab_binsearch`

The search of `kern/kdebug.c` over a table of debugging symbols. A read outside a table is an error of the model, so
that a search which returns has stayed inside. Indices are C `int`s; a table has fewer than `2 ^ 29` entries, so the
sum of two of them does not overflow, and they are integers here: the search does return negative ones.

One round of the search is described by `Round`, and a whole search by the rule `stabBinsearch_returns`: an invariant
of the rounds gives what holds of the result. Nothing here depends on the order of the symbols.
-/

namespace Jos.Kdebug

open Except (Returns whileLoop)

/-! ## Symbol tables (`inc/stab.h`) -/

def N_FUN : BitVec 8 := 0x24#8
def N_SLINE : BitVec 8 := 0x44#8
def N_SO : BitVec 8 := 0x64#8
def N_SOL : BitVec 8 := 0x84#8
def N_PSYM : BitVec 8 := 0xa0#8

/-- An entry of a symbol table. -/
structure Stab where
  nStrx : Word
  nType : BitVec 8
  nOther : BitVec 8
  nDesc : BitVec 16
  nValue : Word
  deriving DecidableEq, Inhabited

/-- `sizeof(struct Stab)`. -/
def STABSIZE : Nat := 12

/-- Why `debuginfo_eip` does not get to its end. -/
inductive Stop
  /-- Entry `i` is read, and is not one of the table. -/
  | outside (i : Int)
  /-- Byte `off` of the string table is read or pointed at, and is not in it. -/
  | beyond (off : Nat)
  /-- A loop does not end. -/
  | diverges
  /-- `user_mem_assert` destroys the environment. -/
  | destroyed
  | panic (p : Panic)
  deriving DecidableEq

/-- A symbol table and its strings. Both lie in a 32-bit address space. -/
structure Tables where
  stabs : List Stab
  stabstr : List (BitVec 8)
  stabs_fit : STABSIZE * stabs.length < 2 ^ 32
  stabstr_fits : stabstr.length < 2 ^ 32

/-- The strings of a table without names. -/
theorem noNames_fits : ([0#8] : List (BitVec 8)).length < 2 ^ 32 := by decide

namespace Tables

/-- The number of entries, `stab_end - stabs`. -/
def count (t : Tables) : Int := t.stabs.length

/-- The contents of an entry. -/
def entry (t : Tables) (i : Int) : Stab := t.stabs.getD i.toNat default

/-- `stabs[i]`. -/
def stab (t : Tables) (i : Int) : Except Stop Stab :=
  if 0 ≤ i ∧ i < t.count then .ok (t.entry i) else .error (.outside i)

/-! ## The search -/

/-- `while (m >= l && skip(stabs[m])) m--`. -/
def scanDown (t : Tables) (skip : Stab → Bool) (l m : Int) : Except Stop Int :=
  whileLoop .diverges
    (fun m => if l ≤ m then do return skip (← t.stab m) else return false)
    (fun m => return m - 1) ((m + 1 - l).toNat + 1) m

/-- The variables of the search: `left` and `right` are `*region_left` and `*region_right`. -/
structure Search where
  l : Int
  r : Int
  left : Int
  right : Int
  anyMatches : Bool
  addr : Word

/-- The middle of what is left to search. -/
def Search.trueM (s : Search) : Int := (s.l + s.r).tdiv 2

/-- A round of the loop. -/
def searchRound (t : Tables) (type : BitVec 8) (s : Search) : Except Stop Search := do
  -- search for earliest stab with right type
  let m ← t.scanDown (fun st => st.nType != type) s.l s.trueM
  if m < s.l then
    return { s with l := s.trueM + 1 }
  else
    -- actual binary search
    let st ← t.stab m
    if st.nValue < s.addr then
      return { s with anyMatches := true, left := m, l := s.trueM + 1 }
    else if s.addr < st.nValue then
      return { s with anyMatches := true, right := m - 1, r := m - 1 }
    else
      return { s with anyMatches := true, left := m, l := m, addr := s.addr + 1#32 }

/-- The search before its first round. -/
def Search.start (addr : Word) (left right : Int) : Search :=
  { l := left, r := right, left, right, anyMatches := false, addr }

/-- `stab_binsearch`: the values of `*region_left` and `*region_right` at the end. A round leaves fewer entries to
search, or it is followed by one that does. -/
def stabBinsearch (t : Tables) (type : BitVec 8) (addr : Word) (left right : Int) : Except Stop (Int × Int) := do
  let s ← whileLoop .diverges (fun s => return decide (s.l ≤ s.r)) (t.searchRound type)
    (2 * (right + 1 - left).toNat + 2) (Search.start addr left right)
  if s.anyMatches = false then
    return (s.left, s.left - 1)
  else
    -- find rightmost region containing 'addr'
    let l ← t.scanDown (fun st => st.nType != type) (s.left + 1) s.right
    return (l, s.right)

/-! ## Scanning -/

variable {t : Tables} {skip : Stab → Bool} {type : BitVec 8} {l m m' : Int} {s s' : Search}

theorem stab_ok {i : Int} (h₀ : 0 ≤ i) (h : i < t.count) : t.stab i = .ok (t.entry i) := if_pos ⟨h₀, h⟩

/-- A scan from `m` down to `l` ends at `m'`. -/
structure ScansTo (t : Tables) (skip : Stab → Bool) (l m m' : Int) : Prop where
  le : m' ≤ m
  skipped : ∀ i, m' < i → i ≤ m → skip (t.entry i) = true
  low : l - 1 ≤ m' ∨ m' = m
  stop : m' < l ∨ skip (t.entry m') = false

theorem scanDown_returns (hl : 0 ≤ l) (hm : m < t.count) :
    Returns (t.scanDown skip l m) (ScansTo t skip l m) := by
  have htest : ∀ i, l ≤ i → i ≤ m →
      (if l ≤ i then do return skip (← t.stab i) else return false : Except Stop Bool) = .ok (skip (t.entry i)) := by
    intro i hli him
    rw [if_pos hli, stab_ok (by omega) (by omega)]
    rfl
  refine Returns.mono (Except.whileLoop_returns
    (fun i => i ≤ m ∧ (l - 1 ≤ i ∨ i = m) ∧ ∀ j, i < j → j ≤ m → skip (t.entry j) = true)
    (fun i => (i + 1 - l).toNat) ?_ ⟨le_rfl, Or.inr rfl, fun j hj hjm => by omega⟩ (by omega)) ?_
  · rintro i ⟨him, hlow, hskip⟩
    by_cases hli : l ≤ i
    · cases hs : skip (t.entry i) with
      | false => exact Or.inl ((htest i hli him).trans (congrArg _ hs))
      | true =>
        refine Or.inr ⟨(htest i hli him).trans (congrArg _ hs), Returns.ok ⟨⟨by omega, by omega, ?_⟩, by omega⟩⟩
        intro j hij hjm
        rcases eq_or_lt_of_le (show i ≤ j by omega) with rfl | hlt
        · exact hs
        · exact hskip j hlt hjm
    · exact Or.inl (if_neg hli)
  · rintro m' ⟨⟨hle, hlow, hskip⟩, hstop⟩
    refine ⟨hle, hskip, hlow, ?_⟩
    by_cases hlm : l ≤ m'
    · rw [htest m' hlm hle] at hstop
      exact Or.inr (Except.ok.inj hstop)
    · exact Or.inl (by omega)

/-! ## Rounds -/

/-- Entry `m` is the last one of its type between `l` and `r`. -/
structure LastIn (t : Tables) (type : BitVec 8) (l r m : Int) : Prop where
  ge : l ≤ m
  le : m ≤ r
  type_eq : (t.entry m).nType = type
  last : ∀ i, m < i → i ≤ r → (t.entry i).nType ≠ type

theorem LastIn.unique {r : Int} (h : LastIn t type l r m) (h' : LastIn t type l r m') : m = m' := by
  rcases lt_trichotomy m m' with hlt | heq | hlt
  · exact absurd h'.type_eq (h.last m' hlt h'.le)
  · exact heq
  · exact absurd h.type_eq (h'.last m hlt h.le)

/-- What a round does. -/
inductive Round (t : Tables) (type : BitVec 8) (s : Search) : Search → Prop
  | none (h : ∀ i, s.l ≤ i → i ≤ s.trueM → (t.entry i).nType ≠ type) : Round t type s { s with l := s.trueM + 1 }
  | below {m : Int} (h : LastIn t type s.l s.trueM m) (hv : (t.entry m).nValue < s.addr) :
    Round t type s { s with anyMatches := true, left := m, l := s.trueM + 1 }
  | above {m : Int} (h : LastIn t type s.l s.trueM m) (hv : s.addr < (t.entry m).nValue) :
    Round t type s { s with anyMatches := true, right := m - 1, r := m - 1 }
  | exact {m : Int} (h : LastIn t type s.l s.trueM m) (hv : (t.entry m).nValue = s.addr) :
    Round t type s { s with anyMatches := true, left := m, l := m, addr := s.addr + 1#32 }

theorem Search.trueM_eq (hl : 0 ≤ s.l) (h : s.l ≤ s.r) : s.trueM = (s.l + s.r) / 2 :=
  Int.tdiv_eq_ediv_of_nonneg (by omega)

theorem searchRound_returns (hl : 0 ≤ s.l) (h : s.l ≤ s.r) (hr : s.r < t.count) :
    Returns (t.searchRound type s) (Round t type s) := by
  have hmid := Search.trueM_eq hl h
  refine Returns.bind (scanDown_returns hl (by omega)) fun m hm => ?_
  have hne : ∀ i, m < i → i ≤ s.trueM → (t.entry i).nType ≠ type := by
    intro i hlt hle
    simpa using hm.skipped i hlt hle
  by_cases hml : m < s.l
  · rw [if_pos hml]
    exact Returns.ok (.none fun i hi => hne i (by omega))
  · have hlast : LastIn t type s.l s.trueM m := by
      refine ⟨by omega, hm.le, ?_, hne⟩
      simpa using hm.stop.resolve_left hml
    rw [if_neg hml, stab_ok (by omega) (by have := hm.le; omega), Except.ok_bind]
    by_cases hbelow : (t.entry m).nValue < s.addr
    · rw [if_pos hbelow]
      exact Returns.ok (.below hlast hbelow)
    · rw [if_neg hbelow]
      by_cases habove : s.addr < (t.entry m).nValue
      · rw [if_pos habove]
        exact Returns.ok (.above hlast habove)
      · rw [if_neg habove]
        exact Returns.ok (.exact hlast (BitVec.le_antisymm (BitVec.not_lt.mp habove) (BitVec.not_lt.mp hbelow)))

/-! ## Searches -/

/-- The bounds of a search of the entries from `l₀` to `r₀`. -/
structure Within (l₀ r₀ : Int) (s : Search) : Prop where
  left_ge : l₀ ≤ s.left
  left_le : s.left ≤ s.l
  right_ge : s.r ≤ s.right
  right_le : s.right ≤ r₀
  fresh : s.anyMatches = false → s.left = l₀

variable {l₀ r₀ : Int} {addr : Word}

theorem Within.round (h : Within l₀ r₀ s) (hl : 0 ≤ l₀) (hlr : s.l ≤ s.r) (hs : Round t type s s') :
    Within l₀ r₀ s' := by
  obtain ⟨h₁, h₂, h₃, h₄, h₅⟩ := h
  have hmid := Search.trueM_eq (by omega) hlr
  cases hs with
  | none _ => exact ⟨h₁, by simp only; omega, h₃, h₄, h₅⟩
  | below hm _ =>
    have := hm.le
    have := hm.ge
    exact ⟨by simp only; omega, by simp only; omega, h₃, h₄, nofun⟩
  | above hm _ =>
    have := hm.le
    have := hm.ge
    exact ⟨h₁, h₂, le_rfl, by simp only; omega, nofun⟩
  | «exact» hm _ =>
    have := hm.ge
    exact ⟨by simp only; omega, le_rfl, h₃, h₄, nofun⟩

/-- The next round finds `addr` itself. -/
def FindsAddr (t : Tables) (type : BitVec 8) (s : Search) : Prop :=
  ∃ m, LastIn t type s.l s.trueM m ∧ (t.entry m).nValue = s.addr

open Classical in
/-- The rounds that a search may still take, at most: two for every entry, and one more if the next one finds `addr`, which
need not leave fewer entries. -/
noncomputable def potential (t : Tables) (type : BitVec 8) (s : Search) : ℕ :=
  2 * (s.r + 1 - s.l).toNat + if FindsAddr t type s then 1 else 0

theorem potential_le (t : Tables) (type : BitVec 8) (s : Search) :
    potential t type s ≤ 2 * (s.r + 1 - s.l).toNat + 1 := by
  unfold potential
  split <;> omega

theorem potential_lt (hl : 0 ≤ s.l) (hlr : s.l ≤ s.r) (hs : Round t type s s') :
    potential t type s' < potential t type s := by
  have hmid := Search.trueM_eq hl hlr
  -- A round that moves a bound takes two units, and pays with one of them for the flag of the next state.
  have hmoved : (s'.r + 1 - s'.l).toNat < (s.r + 1 - s.l).toNat → potential t type s' < potential t type s := by
    intro hlt
    have hle := potential_le t type s'
    unfold potential at hle ⊢
    omega
  cases hs with
  | none _ => exact hmoved (by simp only; omega)
  | below _ _ => exact hmoved (by simp only; omega)
  | above hm _ =>
    have := hm.le
    exact hmoved (by simp only; omega)
  | @«exact» m hm hv =>
    rcases eq_or_lt_of_le hm.ge with heq | hlt
    · -- The same entry is found again, and is not at the new address.
      have hflag : FindsAddr t type s := ⟨m, hm, hv⟩
      have hnext : ¬ FindsAddr t type { s with anyMatches := true, left := m, l := m, addr := s.addr + 1#32 } := by
        rintro ⟨m', hm', hv'⟩
        subst heq
        have hsame : m' = s.l := hm'.unique hm
        rw [hsame, hv] at hv'
        simp only at hv'
        exact absurd hv' (by bv_omega)
      rw [potential, potential, if_pos hflag, if_neg hnext]
      simp only [← heq]
      omega
    · have := hm.le
      exact hmoved (by simp only; omega)

/-- The rule for searches: `I` is an invariant of the rounds, and gives `Q` of what the search returns. -/
theorem stabBinsearch_returns {Q : Int × Int → Prop} (I : Search → Prop) (hl : 0 ≤ l₀) (hr : r₀ < t.count)
    (h₀ : I (Search.start addr l₀ r₀))
    (hround : ∀ s s', Within l₀ r₀ s → s.l ≤ s.r → I s → Round t type s s' → I s')
    (hnone : ∀ s, s.r < s.l → I s → s.anyMatches = false → Q (l₀, l₀ - 1))
    (hsome : ∀ s m, Within l₀ r₀ s → s.r < s.l → I s → s.anyMatches = true →
      ScansTo t (fun st => st.nType != type) (s.left + 1) s.right m → Q (m, s.right)) :
    Returns (t.stabBinsearch type addr l₀ r₀) Q := by
  refine Returns.bind (Except.whileLoop_returns (fun s => Within l₀ r₀ s ∧ I s) (potential t type) ?_
    ⟨⟨le_rfl, le_rfl, le_rfl, le_rfl, fun _ => rfl⟩, h₀⟩ ?_) ?_
  · rintro s ⟨hw, hI⟩
    by_cases hlr : s.l ≤ s.r
    · have hls : 0 ≤ s.l := hl.trans (hw.left_ge.trans hw.left_le)
      have hrs : s.r < t.count := by have := hw.right_ge; have := hw.right_le; omega
      have hret : Returns (t.searchRound type s) (Round t type s) := searchRound_returns hls hlr hrs
      obtain ⟨s', hs', hstep⟩ := hret
      refine Or.inr ⟨congrArg _ (decide_eq_true hlr), s', hs', ⟨hw.round hl hlr hstep, ?_⟩, potential_lt hls hlr hstep⟩
      exact hround s s' hw hlr hI hstep
    · exact Or.inl (congrArg _ (decide_eq_false hlr))
  · exact Nat.lt_succ_of_le (potential_le t type _)
  rintro s ⟨⟨hw, hI⟩, hdone⟩
  have hlr : s.r < s.l := by
    have := of_decide_eq_false (Except.ok.inj hdone)
    omega
  by_cases hany : s.anyMatches = false
  · rw [if_pos hany, hw.fresh hany]
    exact Returns.ok (hnone s hlr hI hany)
  · rw [if_neg hany]
    have hleft := hw.left_ge
    have hright := hw.right_le
    refine Returns.bind (scanDown_returns (by omega) (by omega)) fun m hm => Returns.ok ?_
    exact hsome s m hw hlr hI (by simpa using hany) hm

/-- What a search returns lies in the entries it was given, or one before them: entry `l₀` may match and lie above
`addr`. Where every match comes after `b`, the result does not come before `b`. -/
theorem stabBinsearch_bounds (b : Int) (hl : 0 ≤ l₀) (hr : r₀ < t.count) (hb : b ≤ l₀) (hbr : b ≤ r₀)
    (hmatch : ∀ m, l₀ ≤ m → m ≤ r₀ → (t.entry m).nType = type → b < m) :
    Returns (t.stabBinsearch type addr l₀ r₀) fun p =>
      (p.1 = l₀ ∧ p.2 = l₀ - 1) ∨ (b ≤ p.1 ∧ p.1 ≤ p.2 ∧ p.2 ≤ r₀) := by
  refine stabBinsearch_returns (fun s => b ≤ s.right) hl hr hbr ?_ ?_ ?_
  · intro s s' hw hlr hI hs
    have hleft := hw.left_ge.trans hw.left_le
    have hmid := Search.trueM_eq (by omega) hlr
    cases hs with
    | none _ => exact hI
    | below _ _ => exact hI
    | above hm _ =>
      have hge := hm.ge
      have hle := hm.le
      have hright := hw.right_ge
      have hright' := hw.right_le
      have := hmatch _ (by omega) (by omega) hm.type_eq
      simp only
      omega
    | «exact» _ _ => exact hI
  · exact fun _ _ _ _ => Or.inl ⟨rfl, rfl⟩
  · intro s m hw _ hI _ hm
    have hleft := hw.left_ge
    refine Or.inr ⟨?_, hm.le, hw.right_le⟩
    simp only
    rcases hm.low with hlow | heq
    · omega
    · omega

end Tables

end Jos.Kdebug
