import Mathlib.Data.Int.LeastGreatest
import Jos.StabSearch

/-!
# What `stab_binsearch` brackets

The search is meant to leave `*region_left` at the last entry of its type that is not above the address and
`*region_right` just before the next one (`Brackets`). It does so in two cases out of three (`stabBinsearch_brackets_iff`).

If all entries of the type are above the address, `*region_left` is not moved past `*region_right`, and the result looks
like a match. If an entry is at the address itself, the search goes on for the address after it. It then takes the next
entry for a match as well if this is at that address and has not been looked at yet (`Overruns`), and for the last
address of all the target wraps around to 0.
-/

namespace Jos.Kdebug.Tables

open Except (Returns)

variable {t : Tables} {type : BitVec 8} {addr : Word} {l r l₀ r₀ a b i j m : Int} {s s' : Search} {p : Int × Int}

/-! ## Entries of a type -/

/-- Entry `i` is one of the type from `l` to `r`. -/
structure InRegion (t : Tables) (type : BitVec 8) (l r i : Int) : Prop where
  ge : l ≤ i
  le : i ≤ r
  type_eq : (t.entry i).nType = type

/-- The entries of the type are in strictly increasing order. -/
def Increasing (t : Tables) (type : BitVec 8) (l r : Int) : Prop :=
  ∀ i j, InRegion t type l r i → InRegion t type l r j → i < j → (t.entry i).nValue < (t.entry j).nValue

/-- Entry `j` is the next one of the type after `i`, up to `r`. -/
structure NextIn (t : Tables) (type : BitVec 8) (r i j : Int) : Prop where
  gt : i < j
  le : j ≤ r
  type_eq : (t.entry j).nType = type
  next : ∀ x, i < x → x < j → (t.entry x).nType ≠ type

/-- Entry `p` is just before the next entry of the type after `i`, or at the end of the region. -/
inductive BeforeNext (t : Tables) (type : BitVec 8) (l r i : Int) : Int → Prop
  | next {j : Int} (h : NextIn t type r i j) : BeforeNext t type l r i (j - 1)
  | last (h : ∀ j, InRegion t type l r j → j ≤ i) : BeforeNext t type l r i r

/-- What the search is for: either nothing in the region is at or below the address, or the bounds enclose the last
entry that is. -/
inductive Brackets (t : Tables) (type : BitVec 8) (addr : Word) (l r : Int) : Int × Int → Prop
  | outside {p : Int × Int} (h : p.2 < p.1) (hnone : ∀ i, InRegion t type l r i → addr < (t.entry i).nValue) :
    Brackets t type addr l r p
  | inside {p : Int × Int} (h : p.1 ≤ p.2) (hin : InRegion t type l r p.1) (hv : (t.entry p.1).nValue ≤ addr)
    (hlast : ∀ i, InRegion t type l r i → p.1 < i → addr < (t.entry i).nValue)
    (hnext : BeforeNext t type l r p.1 p.2) : Brackets t type addr l r p

theorem Increasing.lt_of_lt (h : Increasing t type l r) (hi : InRegion t type l r i) (hj : InRegion t type l r j)
    (hv : (t.entry i).nValue < (t.entry j).nValue) : i < j := by
  rcases lt_trichotomy i j with hlt | rfl | hlt
  · exact hlt
  · exact absurd hv (BitVec.lt_irrefl _)
  · exact absurd (BitVec.lt_trans hv (h j i hj hi hlt)) (BitVec.lt_irrefl _)

theorem Increasing.eq_of_eq (h : Increasing t type l r) (hi : InRegion t type l r i) (hj : InRegion t type l r j)
    (hv : (t.entry i).nValue = (t.entry j).nValue) : i = j := by
  rcases lt_trichotomy i j with hlt | rfl | hlt
  · exact absurd (hv ▸ h i j hi hj hlt) (BitVec.lt_irrefl _)
  · rfl
  · exact absurd (hv ▸ h j i hj hi hlt) (BitVec.lt_irrefl _)

theorem LastIn.inRegion (h : LastIn t type l r m) (hl : l₀ ≤ l) (hr : r ≤ r₀) : InRegion t type l₀ r₀ m :=
  ⟨hl.trans h.ge, h.le.trans hr, h.type_eq⟩

theorem LastIn.ge_of_inRegion (h : LastIn t type l r m) (hi : InRegion t type l₀ r₀ i) (hle : i ≤ r) : i ≤ m := by
  by_contra hlt
  exact h.last i (by omega) hle hi.type_eq

theorem NextIn.ge (h : NextIn t type r a b) (hi : InRegion t type l₀ r₀ i) (hlt : a < i) : b ≤ i := by
  by_contra hgt
  exact h.next i hlt (by omega) hi.type_eq

/-- The last entry at or below the address is the only one that brackets it. -/
theorem Brackets.eq (h : Brackets t type addr l r p) (ha : InRegion t type l r a) (hv : (t.entry a).nValue ≤ addr)
    (hlast : ∀ i, InRegion t type l r i → a < i → addr < (t.entry i).nValue) : p.1 = a := by
  have hnot : ∀ {x : Word}, addr < x → ¬ x ≤ addr := fun hlt hle => absurd hlt (BitVec.not_lt.mpr hle)
  cases h with
  | outside _ hnone => exact absurd hv (hnot (hnone a ha))
  | inside _ hin hv' hlast' _ =>
    rcases lt_trichotomy p.1 a with hlt | heq | hlt
    · exact absurd hv (hnot (hlast' a ha hlt))
    · exact heq
    · exact absurd hv' (hnot (hlast _ hin hlt))

/-! ## Overrunning the address -/

/-- Halving the region from `l` to `r`, the search comes to entry `a` before it comes to `b` or anything behind which it
cuts off `b`. -/
inductive MeetsFirst (t : Tables) (type : BitVec 8) (a b : Int) : Int → Int → Prop
  | meets {l r : Int} (h : LastIn t type l ((l + r) / 2) a) : MeetsFirst t type a b l r
  | right {l r : Int} (hlr : l ≤ r) (h : ∀ i, l ≤ i → i ≤ (l + r) / 2 → (t.entry i).nType = type → i < a)
    (hrest : MeetsFirst t type a b ((l + r) / 2 + 1) r) : MeetsFirst t type a b l r
  | left {l r m : Int} (h : LastIn t type l ((l + r) / 2) m) (hm : b < m)
    (hrest : MeetsFirst t type a b l (m - 1)) : MeetsFirst t type a b l r

/-- The search goes past the address: it finds it, and either there is no address after it, or the next entry is at the
address after it and the search still has it before it. Where this entry follows directly and is at the last address
of all, the second error undoes the first. -/
def Overruns (t : Tables) (type : BitVec 8) (addr : Word) (l r : Int) : Prop :=
  ∃ a, InRegion t type l r a ∧ (t.entry a).nValue = addr ∧
    (addr = BitVec.allOnes 32 ∨ ∃ b, NextIn t type r a b ∧ (t.entry b).nValue = addr + 1#32 ∧
      MeetsFirst t type a b l r ∧ ¬ ((t.entry b).nValue = BitVec.allOnes 32 ∧ b = a + 1))

/-! ## Searches that find the entry -/

/-- Nothing that is still searched is at the address after `addr`, or it will be cut off before `a` is met. -/
def Quiet (t : Tables) (type : BitVec 8) (addr : Word) (l r a : Int) (s : Search) : Prop :=
  (∀ i, InRegion t type l r i → i ≤ s.r → (t.entry i).nValue ≠ addr + 1#32) ∨
    ∃ b, NextIn t type r a b ∧ ¬ MeetsFirst t type a b s.l s.r

/-- The search closes in on `a`, the last entry at or below the address. -/
structure Closing (t : Tables) (type : BitVec 8) (addr : Word) (l r a : Int) (s : Search) : Prop where
  low : ∀ i, InRegion t type l r i → i < s.l → i ≤ a
  high : ∀ i, InRegion t type l r i → s.r < i → a < i
  left : (∀ i, InRegion t type l r i → s.l ≤ i) ∨ (s.left ≤ a ∧ ∀ i, InRegion t type l r i → i < s.l → i ≤ s.left)
  right : ∀ i, InRegion t type l r i → s.r < i → s.right < i
  right_end : s.right = r ∨ InRegion t type l r (s.right + 1)
  fresh : s.anyMatches = false → ∀ i, InRegion t type l r i → s.l ≤ i ∧ i ≤ s.r
  target : (s.addr = addr ∧ ((t.entry a).nValue = addr → Quiet t type addr l r a s)) ∨
    (s.addr = addr + 1#32 ∧ (t.entry a).nValue = addr ∧
      ∀ i, InRegion t type l r i → i ≤ s.r → (t.entry i).nValue ≠ addr + 1#32)

/-- Entry `a` is the last one at or below the address. -/
structure LastBelow (t : Tables) (type : BitVec 8) (addr : Word) (l r a : Int) : Prop where
  inRegion : InRegion t type l r a
  le : (t.entry a).nValue ≤ addr
  last : ∀ i, InRegion t type l r i → a < i → addr < (t.entry i).nValue

namespace LastBelow

variable (h : LastBelow t type addr l₀ r₀ a)
include h

/-- The entries up to `a` are those at or below the address. -/
theorem le_iff (hinc : Increasing t type l₀ r₀) (hi : InRegion t type l₀ r₀ i) : (t.entry i).nValue ≤ addr ↔ i ≤ a := by
  constructor
  · intro hv
    by_contra hlt
    exact absurd (h.last i hi (by omega)) (BitVec.not_lt.mpr hv)
  · intro hia
    rcases eq_or_lt_of_le hia with rfl | hlt
    · exact h.le
    · exact BitVec.le_trans (BitVec.le_of_lt (hinc i a hi h.inRegion hlt)) h.le

theorem lt_iff (hinc : Increasing t type l₀ r₀) (hi : InRegion t type l₀ r₀ i) : addr < (t.entry i).nValue ↔ a < i := by
  rw [← BitVec.not_le, h.le_iff hinc hi, not_le]

end LastBelow

theorem succ_ne_of_le {x y : Word} (hy : y ≠ BitVec.allOnes 32) (h : x ≤ y) : x ≠ y + 1#32 := by
  have hne : y.toNat ≠ 4294967295 := fun hc => hy (BitVec.eq_of_toNat_eq hc)
  rintro rfl
  bv_omega

theorem lt_of_succ_lt {x y : Word} (hy : y ≠ BitVec.allOnes 32) (h : y + 1#32 < x) : y < x := by
  have hne : y.toNat ≠ 4294967295 := fun hc => hy (BitVec.eq_of_toNat_eq hc)
  bv_omega

theorem le_of_lt_succ {x y : Word} (h : x < y + 1#32) : x ≤ y := by bv_omega

/-- Cutting off the entries from `m` on keeps the search quiet. -/
theorem Quiet.above (h : Quiet t type addr l₀ r₀ a s) (ha : LastBelow t type addr l₀ r₀ a)
    (hinc : Increasing t type l₀ r₀) (haddr : addr ≠ BitVec.allOnes 32) (hmid : s.trueM = (s.l + s.r) / 2)
    (hm : LastIn t type s.l s.trueM m) (hmr : InRegion t type l₀ r₀ m) (ham : a < m) (hle : m ≤ s.r)
    (hl : s'.l = s.l) (hr : s'.r = m - 1) : Quiet t type addr l₀ r₀ a s' := by
  rcases h with hne | ⟨b, hb, hmeets⟩
  · exact Or.inl fun i hi hir => hne i hi (by omega)
  rcases eq_or_lt_of_le (hb.ge hmr ham) with rfl | hlt
  · -- the next entry itself is cut off
    refine Or.inl fun i hi hir => succ_ne_of_le haddr ((ha.le_iff hinc hi).mpr ?_)
    by_contra hlt
    have := hb.ge hi (by omega)
    omega
  · refine Or.inr ⟨b, hb, fun hrest => hmeets (.left (hmid ▸ hm) hlt ?_)⟩
    rwa [hl, hr] at hrest

/-- Going on behind `trueM` keeps the search quiet if `a` lies there. -/
theorem Quiet.right (h : Quiet t type addr l₀ r₀ a s) (hlr : s.l ≤ s.r) (hmid : s.trueM = (s.l + s.r) / 2)
    (hbelow : ∀ i, s.l ≤ i → i ≤ s.trueM → (t.entry i).nType = type → i < a) (hl : s'.l = s.trueM + 1)
    (hr : s'.r = s.r) : Quiet t type addr l₀ r₀ a s' := by
  rcases h with hne | ⟨b, hb, hmeets⟩
  · exact Or.inl fun i hi hir => hne i hi (by omega)
  · refine Or.inr ⟨b, hb, fun hrest => hmeets (.right hlr (hmid ▸ hbelow) ?_)⟩
    rwa [hl, hr, hmid] at hrest

theorem Closing.start (hquiet : (t.entry a).nValue = addr → Quiet t type addr l₀ r₀ a (.start addr l₀ r₀)) :
    Closing t type addr l₀ r₀ a (.start addr l₀ r₀) where
  low i hi hlt := absurd hi.ge (by simp only [Search.start] at hlt; omega)
  high i hi hlt := absurd hi.le (by simp only [Search.start] at hlt; omega)
  left := Or.inl fun i hi => hi.ge
  right i hi hlt := hlt
  right_end := Or.inl rfl
  fresh _ i hi := ⟨hi.ge, hi.le⟩
  target := Or.inl ⟨rfl, hquiet⟩

theorem Closing.round (h : Closing t type addr l₀ r₀ a s) (ha : LastBelow t type addr l₀ r₀ a)
    (hinc : Increasing t type l₀ r₀) (hmax : (t.entry a).nValue = addr → addr ≠ BitVec.allOnes 32)
    (hw : Within l₀ r₀ s) (hl : 0 ≤ l₀) (hlr : s.l ≤ s.r) (hs : Round t type s s') :
    Closing t type addr l₀ r₀ a s' := by
  have hmid := Search.trueM_eq (by have := hw.left_ge; have := hw.left_le; omega) hlr
  have hbounds : l₀ ≤ s.l ∧ s.trueM ≤ r₀ ∧ s.trueM ≤ s.r := by
    have := hw.left_ge
    have := hw.left_le
    have := hw.right_ge
    have := hw.right_le
    omega
  cases hs with
  | none hnone =>
    have hmiss : ∀ i, InRegion t type l₀ r₀ i → i < s.trueM + 1 → i < s.l := by
      intro i hi hlt
      by_contra hge
      exact hnone i (by omega) (by omega) hi.type_eq
    refine ⟨fun i hi hlt => h.low i hi (hmiss i hi hlt), h.high, ?_, h.right, h.right_end, fun hany i hi => ?_, ?_⟩
    · refine h.left.imp (fun hall i hi => ?_) fun ⟨hle, hall⟩ => ⟨hle, fun i hi hlt => hall i hi (hmiss i hi hlt)⟩
      by_contra hlt
      exact absurd (hmiss i hi (by simp only at hlt; omega)) (not_lt.mpr (hall i hi))
    · refine ⟨?_, (h.fresh hany i hi).2⟩
      by_contra hlt
      exact absurd (hmiss i hi (by simp only at hlt; omega)) (not_lt.mpr (h.fresh hany i hi).1)
    · refine h.target.imp (fun ⟨haddr, hquiet⟩ => ⟨haddr, fun hv => ?_⟩) id
      exact (hquiet hv).right hlr hmid (fun i hge hle htype => absurd htype (hnone i hge hle)) rfl rfl
  | @below m hm hv =>
    have hmr := hm.inRegion hbounds.1 hbounds.2.1
    have hma : m ≤ a := by
      rw [← ha.le_iff hinc hmr]
      rcases h.target with ⟨haddr, -⟩ | ⟨haddr, -⟩
      · exact BitVec.le_of_lt (haddr ▸ hv)
      · exact le_of_lt_succ (haddr ▸ hv)
    have hlow : ∀ i, InRegion t type l₀ r₀ i → i < s.trueM + 1 → i ≤ m := by
      intro i hi hlt
      exact hm.ge_of_inRegion hi (by omega)
    refine ⟨fun i hi hlt => (hlow i hi hlt).trans hma, h.high, Or.inr ⟨hma, hlow⟩, h.right, h.right_end, nofun, ?_⟩
    refine h.target.imp (fun ⟨haddr, hquiet⟩ => ⟨haddr, fun hav => ?_⟩) id
    refine (hquiet hav).right hlr hmid (fun i hge hle htype => ?_) rfl rfl
    have hne : m ≠ a := by
      rintro rfl
      rw [haddr, hav] at hv
      exact BitVec.lt_irrefl _ hv
    have := hlow i ⟨hbounds.1.trans hge, hle.trans hbounds.2.1, htype⟩ (by omega)
    omega
  | @above m hm hv =>
    have hmr := hm.inRegion hbounds.1 hbounds.2.1
    have hle := hm.le
    have ham : a < m := by
      rw [← ha.lt_iff hinc hmr]
      rcases h.target with ⟨haddr, -⟩ | ⟨haddr, hav, -⟩
      · exact haddr ▸ hv
      · exact lt_of_succ_lt (hmax hav) (haddr ▸ hv)
    refine ⟨h.low, fun i hi hlt => by simp only at hlt; omega, h.left, fun i hi hlt => hlt, Or.inr ?_, nofun, ?_⟩
    · simpa using hmr
    · refine h.target.imp (fun ⟨haddr, hquiet⟩ => ⟨haddr, fun hav => ?_⟩) fun ⟨haddr, hav, hne⟩ => ⟨haddr, hav, ?_⟩
      · exact (hquiet hav).above ha hinc (hmax hav) hmid hm hmr ham (by omega) rfl rfl
      · exact fun i hi hir => hne i hi (by simp only at hir; omega)
  | @«exact» m hm hv =>
    have hmr := hm.inRegion hbounds.1 hbounds.2.1
    have hle := hm.le
    rcases h.target with ⟨haddr, hquiet⟩ | ⟨haddr, -, hne⟩
    · -- the entry found is `a`, and the search goes on behind it
      have hma : m ≤ a := (ha.le_iff hinc hmr).mp (hv.trans haddr ▸ BitVec.le_refl _)
      have heq : m = a := by
        rcases eq_or_lt_of_le hma with heq | hlt
        · exact heq
        · have hlt' := hinc m a hmr ha.inRegion hlt
          rw [hv, haddr] at hlt'
          exact absurd ha.le (fun hc => absurd hlt' (BitVec.not_lt.mpr hc))
      subst heq
      have hav : (t.entry m).nValue = addr := hv.trans haddr
      have hnext : ∀ i, InRegion t type l₀ r₀ i → i ≤ s.r → (t.entry i).nValue ≠ addr + 1#32 := by
        rcases hquiet hav with hne | ⟨b, -, hmeets⟩
        · exact hne
        · exact absurd (.meets (hmid ▸ hm)) hmeets
      refine ⟨fun i _ hlt => hlt.le, h.high, Or.inr ⟨le_rfl, fun i _ hlt => hlt.le⟩, h.right, h.right_end, nofun, ?_⟩
      exact Or.inr ⟨by rw [haddr], hav, hnext⟩
    · exact absurd (hv.trans haddr) (hne m hmr (by omega))

/-- Where the search closes in on `a`, it brackets the address. -/
theorem stabBinsearch_closing (hl : 0 ≤ l₀) (hr : r₀ < t.count) (hinc : Increasing t type l₀ r₀)
    (ha : LastBelow t type addr l₀ r₀ a) (hmax : (t.entry a).nValue = addr → addr ≠ BitVec.allOnes 32)
    (hquiet : (t.entry a).nValue = addr → Quiet t type addr l₀ r₀ a (.start addr l₀ r₀)) :
    Returns (t.stabBinsearch type addr l₀ r₀) (Brackets t type addr l₀ r₀) := by
  refine stabBinsearch_returns (Closing t type addr l₀ r₀ a) hl hr (.start hquiet) ?_ ?_ ?_
  · exact fun s s' hw hlr hI hs => hI.round ha hinc hmax hw hl hlr hs
  · intro s hdone hI hany
    have := hI.fresh hany a ha.inRegion
    omega
  · intro s m hw hdone hI _ hm
    have hle : a ≤ s.r := by
      by_contra hlt
      exact absurd (hI.high a ha.inRegion (by omega)) (lt_irrefl a)
    have hleft : s.left = a := by
      rcases hI.left with hall | ⟨hle', hall⟩
      · have := hall a ha.inRegion
        omega
      · have := hall a ha.inRegion (by omega)
        omega
    have hright := hw.right_ge
    -- nothing of the type lies between `a` and the right bound
    have hgap : ∀ i, InRegion t type l₀ r₀ i → a < i → s.right < i := by
      intro i hi hai
      by_cases hir : s.r < i
      · exact hI.right i hi hir
      · have := hI.low i hi (by omega)
        omega
    have hma : m = a := by
      have hmle := hm.le
      rcases hm.stop with hstop | hstop
      · rcases hm.low with hlow | hlow <;> omega
      · by_contra hne
        have hbounds := hw.left_ge
        have hge : l₀ ≤ m := by
          rcases hm.low with hlow | hlow <;> omega
        have hin : InRegion t type l₀ r₀ m := ⟨hge, hmle.trans hw.right_le, by simpa using hstop⟩
        have hlt : ¬ a < m := fun hlt => absurd (hgap m hin hlt) (not_lt.mpr hmle)
        rcases hm.low with hlow | hlow <;> omega
    rw [hma]
    refine .inside (by simp only; omega) ha.inRegion ha.le ha.last ?_
    rcases hI.right_end with hend | hend
    · simp only [hend]
      refine .last fun j hj => ?_
      by_contra hlt
      have := hgap j hj (by omega)
      have := hj.le
      omega
    · have hnext : NextIn t type r₀ a (s.right + 1) := by
        refine ⟨by omega, hend.le, hend.type_eq, fun x hax hx htype => ?_⟩
        have := hgap x ⟨by have := ha.inRegion.ge; omega, by have := hend.le; omega, htype⟩ hax
        omega
      have := BeforeNext.next (l := l₀) hnext
      rwa [Int.add_sub_cancel] at this

/-! ## Searches that do not -/

/-- If all entries of the type are above the address, the result looks like a match. -/
theorem stabBinsearch_above (hl : 0 ≤ l₀) (hr : r₀ < t.count) (hi : InRegion t type l₀ r₀ i)
    (habove : ∀ j, InRegion t type l₀ r₀ j → addr < (t.entry j).nValue) :
    Returns (t.stabBinsearch type addr l₀ r₀) fun p => p.1 ≤ p.2 := by
  refine stabBinsearch_returns (fun s => s.addr = addr ∧ (s.anyMatches = false → s.l ≤ i ∧ i ≤ s.r)) hl hr
    ⟨rfl, fun _ => ⟨hi.ge, hi.le⟩⟩ ?_ ?_ ?_
  · rintro s s' hw hlr ⟨haddr, hfresh⟩ hs
    have hleft := hw.left_ge.trans hw.left_le
    have hmid := Search.trueM_eq (hl.trans hleft) hlr
    have hmr : ∀ m, LastIn t type s.l s.trueM m → InRegion t type l₀ r₀ m := fun m hm =>
      hm.inRegion hleft (by have := hw.right_ge; have := hw.right_le; omega)
    cases hs with
    | none hnone =>
      refine ⟨haddr, fun hany => ⟨?_, (hfresh hany).2⟩⟩
      by_contra hlt
      exact hnone i (hfresh hany).1 (by simp only at hlt; omega) hi.type_eq
    | below hm hv => exact absurd (BitVec.lt_trans (haddr ▸ hv) (habove _ (hmr _ hm))) (BitVec.lt_irrefl _)
    | above hm _ => exact ⟨haddr, nofun⟩
    | «exact» hm hv => exact absurd (habove _ (hmr _ hm)) (by rw [hv, haddr]; exact BitVec.lt_irrefl _)
  · rintro s hdone ⟨-, hfresh⟩ hany
    have := hfresh hany
    omega
  · exact fun s m _ _ _ _ hm => hm.le

/-- The target is at entry `b`, and `b` is still searched. -/
structure Seeks (t : Tables) (b : Int) (s : Search) : Prop where
  addr : s.addr = (t.entry b).nValue
  ge : s.l ≤ b
  le : b ≤ s.r

/-- The target has been found at entry `b`. -/
structure Found (t : Tables) (b : Int) (s : Search) : Prop where
  addr : s.addr = (t.entry b).nValue + 1#32
  l_eq : s.l = b
  left : s.left = b
  le : b ≤ s.r
  any : s.anyMatches = true

theorem Seeks.round (h : Seeks t b s) (hb : InRegion t type l₀ r₀ b) (hinc : Increasing t type l₀ r₀)
    (hw : Within l₀ r₀ s) (hl : 0 ≤ l₀) (hlr : s.l ≤ s.r) (hs : Round t type s s') : Seeks t b s' ∨ Found t b s' := by
  have hleft := hw.left_ge.trans hw.left_le
  have hmid := Search.trueM_eq (hl.trans hleft) hlr
  have hright := hw.right_ge.trans hw.right_le
  obtain ⟨haddr, hge, hle⟩ := h
  cases hs with
  | none hnone =>
    refine Or.inl ⟨haddr, ?_, hle⟩
    by_contra hlt
    exact hnone b hge (by simp only at hlt; omega) hb.type_eq
  | @below m hm hv =>
    have hmb : m < b := hinc.lt_of_lt (hm.inRegion hleft (by omega)) hb (haddr ▸ hv)
    refine Or.inl ⟨haddr, ?_, hle⟩
    by_contra hlt
    have := hm.ge_of_inRegion hb (by simp only at hlt; omega)
    omega
  | @above m hm hv =>
    have hmb : b < m := hinc.lt_of_lt hb (hm.inRegion hleft (by omega)) (haddr ▸ hv)
    exact Or.inl ⟨haddr, hge, by simp only; omega⟩
  | @«exact» m hm hv =>
    have hmb : m = b := hinc.eq_of_eq (hm.inRegion hleft (by omega)) hb (hv.trans haddr)
    have := hm.le
    exact Or.inr ⟨by simp only; rw [haddr], hmb, hmb, by simp only; omega, rfl⟩

/-- Having found the last address of all, the search goes back before it. -/
structure Wrapped (t : Tables) (b : Int) (s : Search) : Prop where
  done : s.r < s.l
  left : s.left = b
  right : s.right = b - 1
  any : s.anyMatches = true

theorem Found.wraps (h : Found t b s) (hb : InRegion t type l₀ r₀ b) (hinc : Increasing t type l₀ r₀)
    (hmax : (t.entry b).nValue = BitVec.allOnes 32) (hw : Within l₀ r₀ s) (hl : 0 ≤ l₀) (hlr : s.l ≤ s.r)
    (hs : Round t type s s') : Wrapped t b s' := by
  have hleft := hw.left_ge.trans hw.left_le
  have hmid := Search.trueM_eq (hl.trans hleft) hlr
  have hright := hw.right_ge.trans hw.right_le
  obtain ⟨haddr, hbl, hbleft, hbr, hany⟩ := h
  have hzero : s.addr = 0#32 := by
    rw [haddr, hmax]
    decide
  -- nothing of the type comes after `b`
  have heq : ∀ m, LastIn t type s.l s.trueM m → m = b := by
    intro m hm
    have hmr := hm.inRegion hleft (show s.trueM ≤ r₀ by omega)
    have hge := hm.ge
    by_contra hne
    have hlt := hinc b m hb hmr (by omega)
    have := (t.entry m).nValue.isLt
    rw [hmax, BitVec.lt_def, BitVec.toNat_allOnes] at hlt
    omega
  cases hs with
  | none hnone => exact absurd hb.type_eq (hnone b (by omega) (by omega))
  | @below m hm hv =>
    rw [hzero] at hv
    exact absurd hv (BitVec.not_lt_zero)
  | @above m hm hv =>
    have := heq m hm
    exact ⟨by simp only; omega, hbleft, by simp only; omega, rfl⟩
  | @«exact» m hm hv =>
    rw [heq m hm, hmax, hzero] at hv
    exact absurd hv (by decide)

/-- A search for an entry at the last address of all ends before that entry. -/
theorem stabBinsearch_wraps (hl : 0 ≤ l₀) (hr : r₀ < t.count) (hinc : Increasing t type l₀ r₀)
    (hb : InRegion t type l₀ r₀ b) (hmax : (t.entry b).nValue = BitVec.allOnes 32) (I : Search → Prop)
    (h₀ : I (.start addr l₀ r₀) ∨ Seeks t b (.start addr l₀ r₀))
    (hround : ∀ s s', Within l₀ r₀ s → s.l ≤ s.r → I s → Round t type s s' → I s' ∨ Seeks t b s')
    (hgo : ∀ s, I s → s.l ≤ s.r) :
    Returns (t.stabBinsearch type addr l₀ r₀) (· = (b - 1, b - 1)) := by
  refine stabBinsearch_returns (fun s => I s ∨ Seeks t b s ∨ Found t b s ∨ Wrapped t b s) hl hr (h₀.imp_right Or.inl) ?_ ?_ ?_
  · rintro s s' hw hlr (h | h | h | h) hs
    · exact (hround s s' hw hlr h hs).imp_right Or.inl
    · exact Or.inr ((h.round hb hinc hw hl hlr hs).imp_right Or.inl)
    · exact Or.inr (Or.inr (Or.inr (h.wraps hb hinc hmax hw hl hlr hs)))
    · exact absurd h.done (by omega)
  · rintro s hdone (h | h | h | h) hany
    · exact absurd (hgo s h) (by omega)
    · exact absurd (h.ge.trans h.le) (by omega)
    · exact absurd (h.l_eq.le.trans h.le) (by omega)
    · rw [h.any] at hany
      cases hany
  · rintro s m - hdone (h | h | h | h) - hm
    · exact absurd (hgo s h) (by omega)
    · exact absurd (h.ge.trans h.le) (by omega)
    · exact absurd (h.l_eq.le.trans h.le) (by omega)
    · have hle := hm.le
      rw [h.left, h.right] at hm
      have hma : m = b - 1 := by
        rcases hm.low with hlow | hlow
        · have := hm.le
          omega
        · exact hlow
      rw [hma, h.right]

/-- The target is `addr`, at entry `a`, and the search will come to `a` with `b` still to be searched. -/
structure Meets (t : Tables) (type : BitVec 8) (addr : Word) (a b : Int) (s : Search) : Prop where
  addr_eq : s.addr = addr
  meets : MeetsFirst t type a b s.l s.r
  le : b ≤ s.r

/-- The entry that is met is in the region that is searched. -/
theorem MeetsFirst.le (h : MeetsFirst t type a b l r) : l ≤ r := by
  cases h with
  | meets h =>
    have := h.ge.trans h.le
    omega
  | right hlr _ _ => exact hlr
  | left h _ _ =>
    have := h.ge.trans h.le
    omega

theorem Meets.round (h : Meets t type addr a b s) (ha : InRegion t type l₀ r₀ a) (hav : (t.entry a).nValue = addr)
    (hb : NextIn t type r₀ a b) (hbv : (t.entry b).nValue = addr + 1#32) (hinc : Increasing t type l₀ r₀)
    (hw : Within l₀ r₀ s) (hl : 0 ≤ l₀) (hlr : s.l ≤ s.r) (hs : Round t type s s') :
    Meets t type addr a b s' ∨ Seeks t b s' := by
  have hleft := hw.left_ge.trans hw.left_le
  have hmid := Search.trueM_eq (hl.trans hleft) hlr
  have hright := hw.right_ge.trans hw.right_le
  obtain ⟨haddr, hmeets, hle⟩ := h
  have hmr : ∀ m, LastIn t type s.l s.trueM m → InRegion t type l₀ r₀ m := fun m hm =>
    hm.inRegion hleft (by omega)
  have hab := hb.gt
  -- the three branches of the round follow those of `MeetsFirst`
  cases hs with
  | none hnone =>
    cases hmeets with
    | meets h => exact absurd h.type_eq (hnone a h.ge (hmid ▸ h.le))
    | right _ _ hrest => exact Or.inl ⟨haddr, by simp only [hmid]; exact hrest, hle⟩
    | left h _ _ => exact absurd h.type_eq (hnone _ h.ge (hmid ▸ h.le))
  | @below m hm hv =>
    have hlt : m < a := hinc.lt_of_lt (hmr m hm) ha (by rw [hav, ← haddr]; exact hv)
    cases hmeets with
    | meets h => exact absurd ((hmid ▸ h).unique hm) (by omega)
    | right _ _ hrest => exact Or.inl ⟨haddr, by simp only [hmid]; exact hrest, hle⟩
    | left h hm' _ => exact absurd ((hmid ▸ h).unique hm) (by omega)
  | @above m hm hv =>
    have hlt : a < m := hinc.lt_of_lt ha (hmr m hm) (by rw [hav, ← haddr]; exact hv)
    cases hmeets with
    | meets h => exact absurd ((hmid ▸ h).unique hm) (by omega)
    | right _ h _ => exact absurd (h m hm.ge (hmid ▸ hm.le) hm.type_eq) (by omega)
    | left h hm' hrest =>
      obtain rfl := (hmid ▸ h).unique hm
      exact Or.inl ⟨haddr, hrest, by simp only; omega⟩
  | @«exact» m hm hv =>
    obtain rfl : m = a := hinc.eq_of_eq (hmr m hm) ha (by rw [hav, ← haddr]; exact hv)
    exact Or.inr ⟨by simp only; rw [hbv, haddr], by simp only; omega, hle⟩

/-- The search has left everything before `b` behind. -/
structure Past (t : Tables) (b : Int) (s : Search) : Prop where
  left : b ≤ s.left
  right : b ≤ s.right
  l_ge : b ≤ s.l
  gap : s.l = b → (t.entry b).nValue < s.addr
  any : s.anyMatches = true

theorem Past.round (h : Past t b s) (hw : Within l₀ r₀ s) (hl : 0 ≤ l₀) (hlr : s.l ≤ s.r) (hs : Round t type s s') :
    Past t b s' := by
  have hleft := hw.left_ge.trans hw.left_le
  have hmid := Search.trueM_eq (hl.trans hleft) hlr
  obtain ⟨hbleft, hbright, hbl, hgap, hany⟩ := h
  cases hs with
  | none _ => exact ⟨hbleft, hbright, by simp only; omega, fun hc => by simp only at hc; omega, hany⟩
  | @below m hm _ =>
    have := hm.ge
    exact ⟨by simp only; omega, hbright, by simp only; omega, fun hc => by simp only at hc; omega, rfl⟩
  | @above m hm hv =>
    have := hm.ge
    have hne : m ≠ b := by
      rintro rfl
      exact absurd (BitVec.lt_trans (hgap (by omega)) hv) (BitVec.lt_irrefl _)
    exact ⟨hbleft, by simp only; omega, hbl, hgap, rfl⟩
  | @«exact» m hm hv =>
    have := hm.ge
    have hne : m ≠ b := by
      rintro rfl
      have := hgap (by omega)
      rw [hv] at this
      exact BitVec.lt_irrefl _ this
    exact ⟨by simp only; omega, hbright, by simp only; omega, fun hc => by simp only at hc; omega, rfl⟩

theorem Found.past (h : Found t b s) (hw : Within l₀ r₀ s) (hmax : (t.entry b).nValue ≠ BitVec.allOnes 32) :
    Past t b s := by
  have hright := hw.right_ge
  have hle := h.le
  refine ⟨h.left.ge, by omega, h.l_eq.ge, fun _ => ?_, h.any⟩
  have hne : (t.entry b).nValue.toNat ≠ 4294967295 := fun hc => hmax (BitVec.eq_of_toNat_eq hc)
  rw [h.addr]
  bv_omega

/-- A search that meets `a` with the next entry at the address after it ends behind `a`. -/
theorem stabBinsearch_past (hl : 0 ≤ l₀) (hr : r₀ < t.count) (hinc : Increasing t type l₀ r₀)
    (ha : InRegion t type l₀ r₀ a) (hav : (t.entry a).nValue = addr) (hb : NextIn t type r₀ a b)
    (hbv : (t.entry b).nValue = addr + 1#32) (hmeets : MeetsFirst t type a b l₀ r₀)
    (hmax : (t.entry b).nValue ≠ BitVec.allOnes 32) :
    Returns (t.stabBinsearch type addr l₀ r₀) fun p => a < p.1 := by
  have hbr : InRegion t type l₀ r₀ b := ⟨ha.ge.trans hb.gt.le, hb.le, hb.type_eq⟩
  have hab := hb.gt
  refine stabBinsearch_returns (fun s => Meets t type addr a b s ∨ Seeks t b s ∨ Found t b s ∨ Past t b s) hl hr
    (Or.inl ⟨rfl, hmeets, hb.le⟩) ?_ ?_ ?_
  · rintro s s' hw hlr (h | h | h | h) hs
    · exact (h.round ha hav hb hbv hinc hw hl hlr hs).imp_right Or.inl
    · exact Or.inr ((h.round hbr hinc hw hl hlr hs).imp_right Or.inl)
    · exact Or.inr (Or.inr (Or.inr ((h.past hw hmax).round hw hl hlr hs)))
    · exact Or.inr (Or.inr (Or.inr (h.round hw hl hlr hs)))
  · rintro s hdone (h | h | h | h) hany
    · exact absurd h.meets.le (by omega)
    · exact absurd (h.ge.trans h.le) (by omega)
    · exact absurd (h.l_eq.le.trans h.le) (by omega)
    · rw [h.any] at hany
      cases hany
  · rintro s m - hdone (h | h | h | h) - hm
    · exact absurd h.meets.le (by omega)
    · exact absurd (h.ge.trans h.le) (by omega)
    · exact absurd (h.l_eq.le.trans h.le) (by omega)
    · have hleft := h.left
      have hright := h.right
      simp only
      rcases hm.low with hlow | hlow <;> omega

/-! ## The condition -/

theorem exists_lastBelow (hi : InRegion t type l₀ r₀ i) (hv : (t.entry i).nValue ≤ addr) :
    ∃ a, LastBelow t type addr l₀ r₀ a := by
  -- the greatest index among those at or below the address
  obtain ⟨a, ⟨ha, hav⟩, hmax⟩ := Int.exists_greatest_of_bdd
    (P := fun j => InRegion t type l₀ r₀ j ∧ (t.entry j).nValue ≤ addr) ⟨r₀, fun j hj => hj.1.le⟩ ⟨i, hi, hv⟩
  refine ⟨a, ha, hav, fun j hj hlt => ?_⟩
  by_contra hle
  have := hmax j ⟨hj, BitVec.not_lt.mp hle⟩
  omega

/-- A search that returns something else does not bracket the address. -/
theorem not_brackets {Q : Int × Int → Prop} (h : Returns (t.stabBinsearch type addr l r) Q)
    (hne : ∀ p, Q p → ¬ Brackets t type addr l r p) :
    ¬ Returns (t.stabBinsearch type addr l r) (Brackets t type addr l r) := by
  obtain ⟨p, hp, hq⟩ := h
  rintro ⟨p', hp', hb⟩
  obtain rfl : p = p' := Except.ok.inj (hp.symm.trans hp')
  exact hne p hq hb

/-- Without an entry of the type the bounds cross. -/
theorem stabBinsearch_empty (hl : 0 ≤ l₀) (hr : r₀ < t.count) (hempty : ∀ i, ¬ InRegion t type l₀ r₀ i) :
    Returns (t.stabBinsearch type addr l₀ r₀) (Brackets t type addr l₀ r₀) := by
  refine stabBinsearch_returns (fun s => s.anyMatches = false) hl hr rfl ?_ ?_ ?_
  · intro s s' hw hlr hI hs
    have hleft := hw.left_ge.trans hw.left_le
    have hmid := Search.trueM_eq (hl.trans hleft) hlr
    have hright := hw.right_ge.trans hw.right_le
    have hmr : ∀ m, ¬ LastIn t type s.l s.trueM m := fun m hm => hempty m (hm.inRegion hleft (by omega))
    cases hs with
    | none _ => exact hI
    | below hm _ => exact absurd hm (hmr _)
    | above hm _ => exact absurd hm (hmr _)
    | «exact» hm _ => exact absurd hm (hmr _)
  · exact fun _ _ _ _ => .outside (by simp only; omega) fun i hi => absurd hi (hempty i)
  · intro s m _ _ hI hany
    rw [hI] at hany
    cases hany

/-- The entry at the address after `addr` is the next one. -/
theorem LastBelow.nextIn (h : LastBelow t type addr l₀ r₀ a) (hinc : Increasing t type l₀ r₀)
    (hav : (t.entry a).nValue = addr) (hmax : addr ≠ BitVec.allOnes 32) (hi : InRegion t type l₀ r₀ i)
    (hv : (t.entry i).nValue = addr + 1#32) : NextIn t type r₀ a i := by
  have hne : addr.toNat ≠ 4294967295 := fun hc => hmax (BitVec.eq_of_toNat_eq hc)
  refine ⟨(h.lt_iff hinc hi).mp (by rw [hv]; bv_omega), hi.le, hi.type_eq, fun x hax hxi htype => ?_⟩
  have hx : InRegion t type l₀ r₀ x := ⟨h.inRegion.ge.trans hax.le, hxi.le.trans hi.le, htype⟩
  have hlow := h.last x hx hax
  have hhigh := hinc x i hx hi hxi
  rw [hv] at hhigh
  exact absurd (le_of_lt_succ hhigh) (BitVec.not_le.mpr hlow)

/-- With an entry at or below the address the search brackets it unless it overruns it. -/
theorem LastBelow.brackets_iff (h : LastBelow t type addr l₀ r₀ a) (hl : 0 ≤ l₀) (hr : r₀ < t.count)
    (hinc : Increasing t type l₀ r₀) :
    Returns (t.stabBinsearch type addr l₀ r₀) (Brackets t type addr l₀ r₀) ↔ ¬ Overruns t type addr l₀ r₀ := by
  have ha := h.inRegion
  have hbr : ∀ b, NextIn t type r₀ a b → InRegion t type l₀ r₀ b := fun b hb =>
    ⟨ha.ge.trans hb.gt.le, hb.le, hb.type_eq⟩
  -- where the next entry is at the last address of all
  have hwraps : ∀ b, NextIn t type r₀ a b → (t.entry a).nValue = addr → (t.entry b).nValue = addr + 1#32 →
      MeetsFirst t type a b l₀ r₀ → (t.entry b).nValue = BitVec.allOnes 32 →
      Returns (t.stabBinsearch type addr l₀ r₀) (· = (b - 1, b - 1)) := fun b hb hav hbv hmeets hbmax =>
    stabBinsearch_wraps hl hr hinc (hbr b hb) hbmax (Meets t type addr a b) (Or.inl ⟨rfl, hmeets, hb.le⟩)
      (fun s s' hw hlr hI hs => hI.round ha hav hb hbv hinc hw hl hlr hs) fun s hI => hI.meets.le
  constructor
  · rintro hret ⟨a', ha', hav, hover⟩
    obtain rfl : a' = a := by
      refine hinc.eq_of_eq ha' ha (BitVec.le_antisymm ?_ (hav ▸ h.le))
      rcases eq_or_lt_of_le ((h.le_iff hinc ha').mp (hav ▸ BitVec.le_refl _)) with rfl | hlt
      · exact BitVec.le_refl _
      · exact BitVec.le_of_lt (hinc a' a ha' ha hlt)
    revert hret
    rcases hover with hmax | ⟨b, hb, hbv, hmeets, hne⟩
    · refine not_brackets (stabBinsearch_wraps hl hr hinc ha (hav.trans hmax) (fun _ => False)
        (Or.inr ⟨hav.symm, ha.ge, ha.le⟩) (fun _ _ _ _ hI => hI.elim) fun _ hI => hI.elim) ?_
      rintro p rfl hp
      have := hp.eq ha h.le h.last
      simp only at this
      omega
    by_cases hbmax : (t.entry b).nValue = BitVec.allOnes 32
    · refine not_brackets (hwraps b hb hav hbv hmeets hbmax) ?_
      rintro p rfl hp
      have := hp.eq ha h.le h.last
      simp only at this
      exact hne ⟨hbmax, by omega⟩
    · refine not_brackets (stabBinsearch_past hl hr hinc ha hav hb hbv hmeets hbmax) fun p hlt hp => ?_
      have := hp.eq ha h.le h.last
      omega
  · intro hover
    have hmax : (t.entry a).nValue = addr → addr ≠ BitVec.allOnes 32 := fun hav hmax =>
      hover ⟨a, ha, hav, Or.inl hmax⟩
    by_cases hundone : (t.entry a).nValue = addr ∧ ∃ b, NextIn t type r₀ a b ∧ (t.entry b).nValue = addr + 1#32 ∧
        MeetsFirst t type a b l₀ r₀ ∧ (t.entry b).nValue = BitVec.allOnes 32 ∧ b = a + 1
    · obtain ⟨hav, b, hb, hbv, hmeets, hbmax, rfl⟩ := hundone
      refine (hwraps _ hb hav hbv hmeets hbmax).mono ?_
      rintro p rfl
      have hnext := BeforeNext.next (l := l₀) hb
      rw [Int.add_sub_cancel] at hnext ⊢
      exact .inside le_rfl ha h.le h.last hnext
    · refine stabBinsearch_closing hl hr hinc h hmax fun hav => ?_
      by_cases hnext : ∃ i, InRegion t type l₀ r₀ i ∧ (t.entry i).nValue = addr + 1#32
      · obtain ⟨i, hi, hv⟩ := hnext
        have hb := h.nextIn hinc hav (hmax hav) hi hv
        refine Or.inr ⟨i, hb, fun hmeets => hover ⟨a, ha, hav, Or.inr ⟨i, hb, hv, hmeets, fun hc => ?_⟩⟩⟩
        exact hundone ⟨hav, i, hb, hv, hmeets, hc⟩
      · exact Or.inl fun i hi _ hv => hnext ⟨i, hi, hv⟩

/-- The two bounds bracket the address exactly when the region has no entry of the type, or it has one at or below the
address and the search does not overrun the address. -/
theorem stabBinsearch_brackets_iff (t : Tables) (type : BitVec 8) (addr : Word) (l r : Int) (hl : 0 ≤ l)
    (hr : r < t.count) (hinc : Increasing t type l r) :
    Returns (t.stabBinsearch type addr l r) (Brackets t type addr l r) ↔
      (∀ i, ¬ InRegion t type l r i) ∨
        (∃ i, InRegion t type l r i ∧ (t.entry i).nValue ≤ addr) ∧ ¬ Overruns t type addr l r := by
  by_cases hempty : ∀ i, ¬ InRegion t type l r i
  · exact iff_of_true (stabBinsearch_empty hl hr hempty) (Or.inl hempty)
  by_cases hbelow : ∃ i, InRegion t type l r i ∧ (t.entry i).nValue ≤ addr
  · obtain ⟨i, hi, hv⟩ := hbelow
    obtain ⟨a, ha⟩ := exists_lastBelow hi hv
    rw [ha.brackets_iff hl hr hinc]
    exact ⟨fun h => Or.inr ⟨⟨i, hi, hv⟩, h⟩, fun h => (h.resolve_left hempty).2⟩
  · push Not at hempty hbelow
    obtain ⟨i₀, hi₀⟩ := hempty
    refine iff_of_false ?_ ?_
    · refine not_brackets (stabBinsearch_above hl hr hi₀ fun j hj => BitVec.not_le.mp (hbelow j hj)) ?_
      rintro p hle (⟨hlt, -⟩ | ⟨-, hin, hv, -, -⟩)
      · omega
      · exact hbelow _ hin hv
    · rintro (hnone | ⟨⟨i, hi, hv⟩, -⟩)
      · exact hnone i₀ hi₀
      · exact hbelow i hi hv

/-- A source file with one function, which does not begin where the file does. -/
def oneFunction : Tables where
  stabs := [⟨0, N_SO, 0, 0, 0xf0100000#32⟩, ⟨0, N_FUN, 0, 0, 0xf0100040#32⟩]
  stabstr := [0#8]
  stabs_fit := by decide
  stabstr_fits := noNames_fits

theorem oneFunction_inRegion {i : Int} (h : InRegion oneFunction N_FUN 0 1 i) : i = 1 := by
  have hge := h.ge
  have hle := h.le
  obtain rfl | rfl : i = 0 ∨ i = 1 := by omega
  · exact absurd h.type_eq (by decide)
  · rfl

/-- For an address between the two the search returns the entry of the file. -/
theorem stabBinsearch_misses : Increasing oneFunction N_FUN 0 1 ∧
    ¬ Returns (oneFunction.stabBinsearch N_FUN 0xf0100010#32 0 1)
      (Brackets oneFunction N_FUN 0xf0100010#32 0 1) := by
  refine ⟨fun i j hi hj hlt => ?_, ?_⟩
  · rw [oneFunction_inRegion hi, oneFunction_inRegion hj] at hlt
    exact absurd hlt (lt_irrefl 1)
  · rintro ⟨p, hp, hb⟩
    have hp' : oneFunction.stabBinsearch N_FUN 0xf0100010#32 0 1 = .ok (0, 0) := rfl
    obtain rfl : p = (0, 0) := Except.ok.inj (hp.symm.trans hp')
    rcases hb with ⟨hlt, -⟩ | ⟨-, hin, -, -, -⟩
    · exact absurd hlt (lt_irrefl 0)
    · exact absurd hin.type_eq (by decide)

/-- For an address in the function it returns the function. -/
theorem stabBinsearch_oneFunction : Returns (oneFunction.stabBinsearch N_FUN 0xf0100050#32 0 1)
    (Brackets oneFunction N_FUN 0xf0100050#32 0 1) := by
  refine (stabBinsearch_brackets_iff oneFunction N_FUN 0xf0100050#32 0 1 (le_refl 0) (by decide) ?_).mpr ?_
  · intro i j hi hj hlt
    rw [oneFunction_inRegion hi, oneFunction_inRegion hj] at hlt
    exact absurd hlt (lt_irrefl 1)
  · refine Or.inr ⟨⟨1, ⟨by decide, by decide, by decide⟩, by decide⟩, ?_⟩
    rintro ⟨a, ha, hv, -⟩
    rw [oneFunction_inRegion ha] at hv
    exact absurd hv (by decide)

end Jos.Kdebug.Tables
