import Jos.Fork

/-!
# What the members of a family have mapped where
-/

namespace Jos

open Pmap

variable {pte pte' : Nat → Nat → Word} {point : Nat → ForkPoint} {fault : Nat → Option FaultPoint}
  {e i v v₀ n pn : Nat} {w addr err id : Word}

/-- The pages that `fork` gives to children. -/
def Tracked (v : Nat) : Prop := v < PGNUM USTACKTOP ∧ v ≠ PGNUM PFTEMP

instance (v : Nat) : Decidable (Tracked v) := inferInstanceAs (Decidable (_ ∧ _))

theorem Tracked.lt (h : Tracked v) : v < NUVPN := by
  have hstack : PGNUM USTACKTOP ≤ NUVPN := by decide
  exact h.1.trans_le hstack

theorem not_tracked_temp : ¬ Tracked (PGNUM PFTEMP) := fun h => h.2 rfl

theorem not_tracked_xstack : ¬ Tracked (PGNUM UXSTACKBASE) := by decide

theorem temp_lt : PGNUM PFTEMP < NUVPN := by decide

theorem xstack_lt : PGNUM UXSTACKBASE < NUVPN := by decide

theorem xstack_ne : PGNUM UXSTACKBASE ≠ PGNUM PFTEMP := by decide

/-! ## The invariant -/

/-- `pgfault` serves a fault at this address. -/
def FaultPoint.target : FaultPoint → Option Word
  | .handler addr _ | .alloc addr | .memcpy addr _ | .unmap addr => some addr
  | .panicked => none

/-- `pgfault` has found that the page is copy-on-write, and not replaced it yet. -/
def FaultPoint.copies : FaultPoint → Bool
  | .alloc _ | .memcpy .. => true
  | _ => false

/-- A page is mapped at `PFTEMP`. -/
def FaultPoint.holds : FaultPoint → Bool
  | .memcpy .. | .unmap _ => true
  | _ => false

/-- The child that `fork` is making, and the number of pages that it has been through. -/
def ForkPoint.progress : ForkPoint → Option (Word × Nat)
  | .loop id pn | .duppage id pn | .share id pn | .shareRead id pn => some (id, pn)
  | .protect id pn => some (id, pn + 1)
  | .stack id | .upcall id | .status id => some (id, PGNUM USTACKTOP)
  | _ => none

/-- The page that `duppage` is called for. -/
def ForkPoint.dup : ForkPoint → Option Nat
  | .duppage _ pn | .share _ pn | .shareRead _ pn | .protect _ pn => some pn
  | _ => none

/-- What is mapped where, beside what the abstract system says. -/
structure Pages (pte : Nat → Nat → Word) (point : Nat → ForkPoint) (fault : Nat → Option FaultPoint) : Prop where
  runs : ∀ e x, fault e = some x → (point e).runs = true
  target : ∀ e x addr, fault e = some x → x.target = some addr →
    Tracked (PGNUM addr) ∧ present (pte e (PGNUM addr))
  copies : ∀ e x addr, fault e = some x → x.target = some addr → x.copies = true →
    pte e (PGNUM addr) &&& PTE_COW ≠ 0#32
  /-- Nothing is mapped at `PFTEMP`, except by `pgfault`, -/
  temp : ∀ e, point e ≠ .out → (∀ x, fault e = some x → x.holds = false) → ¬ present (pte e (PGNUM PFTEMP))
  own : ∀ e addr n, fault e = some (.memcpy addr n) → present (pte e (PGNUM PFTEMP)) ∧
    ∀ e' v', v' < NUVPN → present (pte e' v') → ppn (pte e' v') = ppn (pte e (PGNUM PFTEMP)) →
      e' = e ∧ v' = PGNUM PFTEMP
  /-- and the pages of the family are mapped nowhere else. -/
  apart : ∀ e v e' v', point e ≠ .out → Tracked v → present (pte e v) → v' < NUVPN → present (pte e' v') →
    ppn (pte e' v') = ppn (pte e v) → (point e' ≠ .out ∧ Tracked v') ∨
      (e' = e ∧ v' = PGNUM PFTEMP ∧ ∃ addr, fault e = some (.unmap addr) ∧ PGNUM addr = v)
  id_ne : ∀ e id n, (point e).progress = some (id, n) → id ≠ 0#32
  bound : ∀ e id n, (point e).progress = some (id, n) → n ≤ PGNUM USTACKTOP
  /-- A child has got the pages of its parent that the loop has been through. -/
  given : ∀ e id n v, (point e).progress = some (id, n) → Tracked v → v < n → present (pte e v) →
    present (pte (ENVX id) v)
  rest : ∀ e id n v, (point e).progress = some (id, n) → Tracked v → present (pte (ENVX id) v) → v < n
  dup : ∀ e pn, (point e).dup = some pn → Tracked pn
  shareRead : ∀ e id pn, point e = .shareRead id pn → pte e pn &&& PTE_W = 0#32 ∧ pte e pn &&& PTE_COW = 0#32

attribute [grind] FaultPoint.target FaultPoint.copies FaultPoint.holds ForkPoint.progress ForkPoint.dup ForkPoint.runs

attribute [grind →] Tracked.lt

attribute [grind .] temp_lt xstack_lt not_tracked_temp not_tracked_xstack

/-- The entry of page `v` of environment `i` has become `w`. -/
def Remapped (pte pte' : Nat → Nat → Word) (i v : Nat) (w : Word) : Prop :=
  ∀ e' v', v' < NUVPN → pte' e' v' = if e' = i ∧ v' = v then w else pte e' v'

theorem Remapped.cases (h : Remapped pte pte' i v₀ w) (hv : v < NUVPN) :
    (e = i ∧ v = v₀ ∧ pte' e v = w) ∨ (¬ (e = i ∧ v = v₀) ∧ pte' e v = pte e v) := by
  rw [h e v hv]
  split
  · next hc => exact Or.inl ⟨hc.1, hc.2, rfl⟩
  · next hc => exact Or.inr ⟨hc, rfl⟩

theorem Remapped.of_ne (h : Remapped pte pte' i v₀ w) (hv : v < NUVPN) (hne : v ≠ v₀) : pte' e v = pte e v := by
  rw [h e v hv, if_neg fun hc => hne hc.2]

namespace Pages

theorem congr (h : Pages pte point fault) (hpte : ∀ e' v', v' < NUVPN → pte' e' v' = pte e' v') :
    Pages pte' point fault := by
  constructor
  case runs => grind [Function.update_apply, h.runs]
  case target =>
    have hruns := h.runs
    have htarget := h.target
    grind [Function.update_apply]
  case copies =>
    have hruns := h.runs
    have htarget := h.target
    have hcopies := h.copies
    grind [Function.update_apply]
  case temp => grind [Function.update_apply, h.temp, h.dup]
  case own => grind [Function.update_apply, h.own]
  case apart => grind [Function.update_apply, h.apart]
  case id_ne => exact h.id_ne
  case bound => exact h.bound
  case given => grind [Function.update_apply, h.given]
  case rest =>
    have hrest := h.rest
    grind [Function.update_apply]
  case dup => exact h.dup
  case shareRead =>
    intro e id pn hp
    rw [hpte e pn (h.dup e pn (by rw [hp, ForkPoint.dup])).lt]
    exact h.shareRead e id pn hp

/-- The kernel enters `pgfault`. -/
theorem faults (h : Pages pte point fault) (hrun : (point e).runs = true) (hf : fault e = none)
    (ht : Tracked (PGNUM addr)) (hP : present (pte e (PGNUM addr))) :
    Pages pte point (Function.update fault e (some (.handler addr err))) := by
  constructor
  case runs => grind [Function.update_apply, h.runs]
  case target => grind [Function.update_apply, h.runs, h.target]
  case copies => grind [Function.update_apply, h.runs, h.target, h.copies]
  case temp => grind [Function.update_apply, h.temp, h.dup]
  case own => grind [Function.update_apply, h.own]
  case apart => grind [Function.update_apply, h.apart]
  case id_ne => exact h.id_ne
  case bound => exact h.bound
  case given => exact h.given
  case rest => exact h.rest
  case dup => exact h.dup
  case shareRead => exact h.shareRead

/-- `pgfault` goes on when the page is copy-on-write. -/
theorem handler (h : Pages pte point fault) (hf : fault e = some (.handler addr err))
    (hcow : pte e (PGNUM addr) &&& PTE_COW ≠ 0#32) :
    Pages pte point (Function.update fault e (some (.alloc addr))) := by
  constructor
  case runs => grind [Function.update_apply, h.runs]
  case target => grind [Function.update_apply, h.runs, h.target]
  case copies => grind [Function.update_apply, h.runs, h.target, h.copies]
  case temp => grind [Function.update_apply, h.temp, h.dup]
  case own => grind [Function.update_apply, h.own]
  case apart => grind [Function.update_apply, h.apart]
  case id_ne => exact h.id_ne
  case bound => exact h.bound
  case given => exact h.given
  case rest => exact h.rest
  case dup => exact h.dup
  case shareRead => exact h.shareRead

/-- `pgfault` panics. -/
theorem panics (h : Pages pte point fault) (hf : fault e = some (.handler addr err)) :
    Pages pte point (Function.update fault e (some .panicked)) := by
  constructor
  case runs => grind [Function.update_apply, h.runs]
  case target => grind [Function.update_apply, h.target]
  case copies => grind [Function.update_apply, h.copies]
  case temp => grind [Function.update_apply, h.temp]
  case own => grind [Function.update_apply, h.own]
  case apart => grind [Function.update_apply, h.apart]
  case id_ne => exact h.id_ne
  case bound => exact h.bound
  case given => exact h.given
  case rest => exact h.rest
  case dup => exact h.dup
  case shareRead => exact h.shareRead

/-- It gets a page at `PFTEMP`, -/
theorem alloc (h : Pages pte point fault) (hf : fault e = some (.alloc addr))
    (hpte : Remapped pte pte' e (PGNUM PFTEMP) w) (hw : present w)
    (hfresh : ∀ e' v', v' < NUVPN → present (pte e' v') → ppn (pte e' v') ≠ ppn w) :
    Pages pte' point (Function.update fault e (some (.memcpy addr 0))) := by
  have hentry := hpte
  unfold Remapped at hentry
  constructor
  case runs => grind [Function.update_apply, h.runs]
  case target =>
    have hruns := h.runs
    have htarget := h.target
    grind [Function.update_apply]
  case copies =>
    have hruns := h.runs
    have htarget := h.target
    have hcopies := h.copies
    grind [Function.update_apply]
  case temp => grind [Function.update_apply, h.temp, h.dup]
  case own => grind [Function.update_apply, h.own]
  case apart => grind [Function.update_apply, h.apart]
  case id_ne => exact h.id_ne
  case bound => exact h.bound
  case given => grind [Function.update_apply, h.given]
  case rest =>
    have hrest := h.rest
    grind [Function.update_apply]
  case dup => exact h.dup
  case shareRead =>
    intro e' id' pn hp'
    have ht := h.dup e' pn (by rw [hp', ForkPoint.dup])
    rw [hpte.of_ne ht.lt ht.2]
    exact h.shareRead e' id' pn hp'

/-- copies the old page there, -/
theorem memcpy (h : Pages pte point fault) (hf : fault e = some (.memcpy addr n)) :
    Pages pte point (Function.update fault e (some (.memcpy addr (n + 1)))) := by
  constructor
  case runs => grind [Function.update_apply, h.runs]
  case target => grind [Function.update_apply, h.runs, h.target]
  case copies => grind [Function.update_apply, h.runs, h.target, h.copies]
  case temp => grind [Function.update_apply, h.temp, h.dup]
  case own => grind [Function.update_apply, h.own]
  case apart => grind [Function.update_apply, h.apart]
  case id_ne => exact h.id_ne
  case bound => exact h.bound
  case given => exact h.given
  case rest => exact h.rest
  case dup => exact h.dup
  case shareRead => exact h.shareRead

/-- puts the new page in the place of the old one -/
theorem map (h : Pages pte point fault) (hf : fault e = some (.memcpy addr n))
    (hpte : Remapped pte pte' e (PGNUM addr) w) (hw : present w) (hsame : ppn w = ppn (pte e (PGNUM PFTEMP))) :
    Pages pte' point (Function.update fault e (some (.unmap addr))) := by
  have hin : point e ≠ .out := fun hc => by
    have hrun := h.runs e _ hf
    rw [hc] at hrun
    cases hrun
  obtain ⟨ht, hP⟩ := h.target e _ addr hf rfl
  have hentry := hpte
  unfold Remapped at hentry
  constructor
  case runs => grind [Function.update_apply, h.runs]
  case target =>
    have hruns := h.runs
    have htarget := h.target
    grind [Function.update_apply]
  case copies =>
    have hruns := h.runs
    have htarget := h.target
    have hcopies := h.copies
    grind [Function.update_apply]
  case temp => grind [Function.update_apply, h.temp, h.dup]
  case own => grind [Function.update_apply, h.own]
  case apart =>
    intro e₁ v₁ e₂ v₂ hin₁ ht₁ hP₁ hv₂ hP₂ heq
    rcases hpte.cases (e := e₂) hv₂ with ⟨rfl, rfl, -⟩ | ⟨-, heq₂⟩
    · exact Or.inl ⟨hin, ht⟩
    · rw [heq₂] at hP₂ heq
      rcases hpte.cases (e := e₁) ht₁.lt with ⟨rfl, rfl, heq₁⟩ | ⟨-, heq₁⟩
      · rw [heq₁, hsame] at heq
        obtain ⟨rfl, rfl⟩ := (h.own e₁ addr n hf).2 e₂ v₂ hv₂ hP₂ heq
        exact Or.inr ⟨rfl, rfl, addr, Function.update_self .., rfl⟩
      · rw [heq₁] at hP₁ heq
        rcases h.apart e₁ v₁ e₂ v₂ hin₁ ht₁ hP₁ hv₂ hP₂ heq with hin₂ | ⟨he, hv, a, hunmap, ha⟩
        · exact Or.inl hin₂
        · have hne : e₁ ≠ e := by
            rintro rfl
            rw [hf] at hunmap
            cases hunmap
          exact Or.inr ⟨he, hv, a, by rwa [Function.update_of_ne hne], ha⟩
  case id_ne => exact h.id_ne
  case bound => exact h.bound
  case given =>
    intro e' id n' v hp' ht' hv' hP'
    rcases hpte.cases (e := ENVX id) ht'.lt with ⟨-, -, heq⟩ | ⟨-, heq⟩
    · rwa [heq]
    · rw [heq]
      refine h.given e' id n' v hp' ht' hv' ?_
      rcases hpte.cases (e := e') ht'.lt with ⟨rfl, rfl, -⟩ | ⟨-, heq'⟩
      · exact hP
      · rwa [heq'] at hP'
  case rest =>
    intro e' id n' v hp' ht' hP'
    refine h.rest e' id n' v hp' ht' ?_
    rcases hpte.cases (e := ENVX id) ht'.lt with ⟨hid, rfl, -⟩ | ⟨-, heq⟩
    · rwa [hid]
    · rwa [heq] at hP'
  case dup => exact h.dup
  case shareRead =>
    intro e' id pn hp'
    have ht' := h.dup e' pn (by rw [hp', ForkPoint.dup])
    rcases hpte.cases (e := e') ht'.lt with ⟨rfl, rfl, -⟩ | ⟨-, heq⟩
    · exact absurd (h.shareRead e' id _ hp').2 (h.copies e' _ addr hf rfl rfl)
    · rw [heq]
      exact h.shareRead e' id pn hp'

/-- and leaves. -/
theorem unmap (h : Pages pte point fault) (hpte : Remapped pte pte' e (PGNUM PFTEMP) w) (hw : ¬ present w) :
    Pages pte' point (Function.update fault e none) := by
  have hentry := hpte
  unfold Remapped at hentry
  constructor
  case runs => grind [Function.update_apply, h.runs]
  case target =>
    have hruns := h.runs
    have htarget := h.target
    grind [Function.update_apply]
  case copies =>
    have hruns := h.runs
    have htarget := h.target
    have hcopies := h.copies
    grind [Function.update_apply]
  case temp => grind [Function.update_apply, h.temp, h.dup]
  case own => grind [Function.update_apply, h.own]
  case apart => grind [Function.update_apply, h.apart]
  case id_ne => exact h.id_ne
  case bound => exact h.bound
  case given => grind [Function.update_apply, h.given]
  case rest =>
    have hrest := h.rest
    grind [Function.update_apply]
  case dup => exact h.dup
  case shareRead =>
    intro e' id' pn hp'
    have ht := h.dup e' pn (by rw [hp', ForkPoint.dup])
    rw [hpte.of_ne ht.lt ht.2]
    exact h.shareRead e' id' pn hp'

/-- Environment `e` goes on. -/
theorem goto {p : ForkPoint} (h : Pages pte point fault) (hin : point e ≠ .out) (hout : p ≠ .out)
    (hf : fault e = none)
    (hprogress : ∀ id n', p.progress = some (id, n') → n' ≤ PGNUM USTACKTOP ∧
      ∃ n, (point e).progress = some (id, n) ∧ n ≤ n' ∧ ∀ v, Tracked v → n ≤ v → v < n' → ¬ present (pte e v))
    (hdup : ∀ pn, p.dup = some pn → Tracked pn)
    (hshare : ∀ id pn, p = .shareRead id pn → pte e pn &&& PTE_W = 0#32 ∧ pte e pn &&& PTE_COW = 0#32) :
    Pages pte (Function.update point e p) fault := by
  constructor
  case runs => grind [Function.update_apply, h.runs]
  case target => grind [Function.update_apply, h.runs, h.target]
  case copies => grind [Function.update_apply, h.runs, h.target, h.copies]
  case temp => grind [Function.update_apply, h.temp, h.dup]
  case own => grind [Function.update_apply, h.own]
  case apart => grind [Function.update_apply, h.apart]
  case id_ne => grind [Function.update_apply, h.id_ne]
  case bound =>
    have hbound := h.bound
    grind [Function.update_apply]
  case given => grind [Function.update_apply, h.given]
  case rest =>
    have hrest := h.rest
    grind [Function.update_apply]
  case dup => grind [Function.update_apply, h.dup]
  case shareRead =>
    have hshare := h.shareRead
    have hdup := h.dup
    grind [Function.update_apply]

/-- `set_pgfault_handler` gets a stack for exceptions. -/
theorem handlerStack (h : Pages pte point fault) (hp : point e = .handlerStack) (hf : fault e = none)
    (hpte : Remapped pte pte' e (PGNUM UXSTACKBASE) w)
    (hfresh : ∀ e' v', v' < NUVPN → present (pte e' v') → ppn (pte e' v') ≠ ppn w) :
    Pages pte' (Function.update point e .handlerUpcall) fault := by
  have hentry := hpte
  unfold Remapped at hentry
  have hne := xstack_ne
  constructor
  case runs => grind [Function.update_apply, h.runs]
  case target => grind [Function.update_apply, h.runs, h.target]
  case copies =>
    have hruns := h.runs
    have htarget := h.target
    have hcopies := h.copies
    grind [Function.update_apply]
  case temp => grind [Function.update_apply, h.temp, h.dup]
  case own => grind [Function.update_apply, h.own]
  case apart => grind [Function.update_apply, h.apart]
  case id_ne => grind [Function.update_apply, h.id_ne]
  case bound =>
    have hbound := h.bound
    grind [Function.update_apply]
  case given => grind [Function.update_apply, h.given]
  case rest =>
    have hrest := h.rest
    grind [Function.update_apply]
  case dup => grind [Function.update_apply, h.dup]
  case shareRead =>
    intro e' id' pn hp'
    rw [Function.update_apply] at hp'
    split at hp'
    · cases hp'
    · have ht := h.dup e' pn (by rw [hp', ForkPoint.dup])
      have hne : pn ≠ PGNUM UXSTACKBASE := fun hc => not_tracked_xstack (hc ▸ ht)
      rw [hpte.of_ne ht.lt hne]
      exact h.shareRead e' id' pn hp'

/-- The child gets its stack for exceptions. -/
theorem stack (h : Pages pte point fault)
    (hchild : ∀ e id n, (point e).progress = some (id, n) → point (ENVX id) = .child e)
    (hp : point e = .stack id) (hf : fault e = none) (hpte : Remapped pte pte' (ENVX id) (PGNUM UXSTACKBASE) w)
    (hfresh : ∀ e' v', v' < NUVPN → present (pte e' v') → ppn (pte e' v') ≠ ppn w) :
    Pages pte' (Function.update point e (.upcall id)) fault := by
  have hentry := hpte
  unfold Remapped at hentry
  have hne := xstack_ne
  constructor
  case runs => grind [Function.update_apply, h.runs]
  case target =>
    have hruns := h.runs
    have htarget := h.target
    grind [Function.update_apply]
  case copies =>
    have hruns := h.runs
    have htarget := h.target
    have hcopies := h.copies
    grind [Function.update_apply]
  case temp => grind [Function.update_apply, h.temp, h.dup]
  case own => grind [Function.update_apply, h.own]
  case apart => grind [Function.update_apply, h.apart]
  case id_ne => grind [Function.update_apply, h.id_ne]
  case bound =>
    have hbound := h.bound
    grind [Function.update_apply]
  case given => grind [Function.update_apply, h.given]
  case rest =>
    have hrest := h.rest
    grind [Function.update_apply]
  case dup => grind [Function.update_apply, h.dup]
  case shareRead =>
    intro e' id' pn hp'
    rw [Function.update_apply] at hp'
    split at hp'
    · cases hp'
    · have ht := h.dup e' pn (by rw [hp', ForkPoint.dup])
      have hne : pn ≠ PGNUM UXSTACKBASE := fun hc => not_tracked_xstack (hc ▸ ht)
      rw [hpte.of_ne ht.lt hne]
      exact h.shareRead e' id' pn hp'

/-- Its parent has no longer permission to write to it. -/
theorem protect (h : Pages pte point fault) (hp : point e = .protect id pn) (hf : fault e = none)
    (hpte : Remapped pte pte' e pn w) (hP : present (pte e pn)) (hw : present w) (hsame : ppn w = ppn (pte e pn)) :
    Pages pte' (Function.update point e (.loop id (pn + 1))) fault := by
  have hentry := hpte
  unfold Remapped at hentry
  have hpn := h.dup e pn (by rw [hp, ForkPoint.dup])
  constructor
  case runs => grind [Function.update_apply, h.runs]
  case target =>
    have hruns := h.runs
    have htarget := h.target
    grind [Function.update_apply]
  case copies =>
    have hruns := h.runs
    have htarget := h.target
    have hcopies := h.copies
    grind [Function.update_apply]
  case temp => grind [Function.update_apply, h.temp, h.dup]
  case own => grind [Function.update_apply, h.own]
  case apart => grind [Function.update_apply, h.apart]
  case id_ne =>
    have hid := h.id_ne
    grind [Function.update_apply]
  case bound =>
    have hbound := h.bound
    have hlt := hpn.1
    grind [Function.update_apply]
  case given =>
    have hgiven := h.given
    grind [Function.update_apply]
  case rest =>
    have hrest := h.rest
    grind [Function.update_apply]
  case dup => grind [Function.update_apply, h.dup]
  case shareRead =>
    have hshare := h.shareRead
    have hdup := h.dup
    grind [Function.update_apply]

/-- The child is in its program. -/
theorem status (h : Pages pte point fault) (hp : point e = .status id) (hc : point (ENVX id) = .child e)
    (hf : fault e = none) :
    Pages pte (Function.update (Function.update point e .program) (ENVX id) .program) fault := by
  constructor
  case runs => grind [Function.update_apply, h.runs]
  case target => grind [Function.update_apply, h.runs, h.target]
  case copies => grind [Function.update_apply, h.runs, h.target, h.copies]
  case temp => grind [Function.update_apply, h.temp, h.dup]
  case own => grind [Function.update_apply, h.own]
  case apart => grind [Function.update_apply, h.apart]
  case id_ne => grind [Function.update_apply, h.id_ne]
  case bound =>
    have hbound := h.bound
    grind [Function.update_apply]
  case given => grind [Function.update_apply, h.given]
  case rest =>
    have hrest := h.rest
    grind [Function.update_apply]
  case dup => grind [Function.update_apply, h.dup]
  case shareRead =>
    have hshare := h.shareRead
    have hdup := h.dup
    grind [Function.update_apply]

/-- `sys_exofork` makes a child without pages. -/
theorem exofork (h : Pages pte point fault) (hp : point e = .exofork) (hf : fault e = none) (hid : id ≠ 0#32)
    (hout : point (ENVX id) = .out) (hno : ∀ v, ¬ present (pte (ENVX id) v)) :
    Pages pte (Function.update (Function.update point e (.loop id 0)) (ENVX id) (.child e)) fault := by
  constructor
  case runs => grind [Function.update_apply, h.runs]
  case target => grind [Function.update_apply, h.runs, h.target]
  case copies => grind [Function.update_apply, h.runs, h.target, h.copies]
  case temp => grind [Function.update_apply, h.temp, h.dup]
  case own => grind [Function.update_apply, h.own]
  case apart => grind [Function.update_apply, h.apart]
  case id_ne => grind [Function.update_apply, h.id_ne]
  case bound =>
    have hbound := h.bound
    grind [Function.update_apply]
  case given => grind [Function.update_apply, h.given]
  case rest =>
    have hrest := h.rest
    grind [Function.update_apply]
  case dup => grind [Function.update_apply, h.dup]
  case shareRead =>
    have hshare := h.shareRead
    have hdup := h.dup
    grind [Function.update_apply]

/-- The child gets a page. -/
theorem give {p : ForkPoint} (h : Pages pte point fault)
    (hchild : ∀ e id n, (point e).progress = some (id, n) → point (ENVX id) = .child e)
    (hprogress : (point e).progress = some (id, pn)) (hdup : (point e).dup = some pn) (hf : fault e = none)
    (hpte : Remapped pte pte' (ENVX id) pn w) (hP : present (pte e pn)) (hw : present w)
    (hsame : ppn w = ppn (pte e pn))
    (hp : p.progress = some (id, pn + 1)) (hpdup : p.dup = some pn ∨ p.dup = none) :
    Pages pte' (Function.update point e p) fault := by
  have hin : point e ≠ .out := fun hc => by
    rw [hc] at hprogress
    cases hprogress
  have hout : p ≠ .out := fun hc => by
    rw [hc] at hp
    cases hp
  have hshare' : ∀ id pn', p ≠ .shareRead id pn' := fun id pn' hc => by
    rw [hc] at hp hpdup
    obtain ⟨-, rfl⟩ := Prod.mk.inj (Option.some.inj hp)
    rcases hpdup with hpdup | hpdup
    · exact absurd (Option.some.inj hpdup) (Nat.succ_ne_self pn)
    · cases hpdup
  have hentry := hpte
  unfold Remapped at hentry
  constructor
  case runs => grind [Function.update_apply, h.runs]
  case target =>
    have hruns := h.runs
    have htarget := h.target
    grind [Function.update_apply]
  case copies =>
    have hruns := h.runs
    have htarget := h.target
    have hcopies := h.copies
    grind [Function.update_apply]
  case temp => grind [Function.update_apply, h.temp, h.dup]
  case own =>
    intro e₁ addr n hmem
    have hne : e₁ ≠ ENVX id := by
      rintro rfl
      have hrun := h.runs _ _ hmem
      rw [hchild e id pn hprogress] at hrun
      cases hrun
    obtain ⟨hown, hunique⟩ := h.own e₁ addr n hmem
    rw [hpte e₁ _ temp_lt, if_neg fun hc => hne hc.1]
    refine ⟨hown, fun e₂ v₂ hv₂ hP₂ heq => ?_⟩
    have hpn := h.dup e pn hdup
    rcases hpte.cases (e := e₂) hv₂ with ⟨rfl, rfl, heq₂⟩ | ⟨-, heq₂⟩
    · rw [heq₂, hsame] at heq
      exact absurd (hunique e v₂ hpn.lt hP heq).2 hpn.2
    · rw [heq₂] at hP₂ heq
      exact hunique e₂ v₂ hv₂ hP₂ heq
  case apart =>
    intro e₁ v₁ e₂ v₂ hin₁ ht₁ hP₁ hv₂ hP₂ heq
    have hpnt : Tracked pn := h.dup e pn hdup
    have hcin := hchild e id pn hprogress
    have hcin' : Function.update point e p (ENVX id) ≠ .out := by
      rw [Function.update_apply]
      split
      · exact hout
      · rw [hcin]
        intro hc
        cases hc
    have hupd : ∀ e', point e' ≠ .out → Function.update point e p e' ≠ .out := by
      intro e' he'
      rw [Function.update_apply]
      split
      · exact hout
      · exact he'
    rcases hpte.cases (e := e₂) hv₂ with ⟨rfl, rfl, -⟩ | ⟨-, heq₂⟩
    · exact Or.inl ⟨hcin', hpnt⟩
    · rw [heq₂] at hP₂ heq
      rcases hpte.cases (e := e₁) ht₁.lt with ⟨rfl, rfl, heq₁⟩ | ⟨-, heq₁⟩
      · rw [heq₁, hsame] at heq
        rcases h.apart e v₁ e₂ v₂ hin ht₁ hP hv₂ hP₂ heq with ⟨ho, ht₂⟩ | ⟨rfl, -, addr, hunmap, -⟩
        · exact Or.inl ⟨hupd _ ho, ht₂⟩
        · rw [hf] at hunmap
          cases hunmap
      · rw [heq₁] at hP₁ heq
        have hin₁' : point e₁ ≠ .out := by
          rw [Function.update_apply] at hin₁
          split at hin₁
          · next hc => rwa [hc]
          · exact hin₁
        rcases h.apart e₁ v₁ e₂ v₂ hin₁' ht₁ hP₁ hv₂ hP₂ heq with ⟨ho, ht₂⟩ | hunmap
        · exact Or.inl ⟨hupd _ ho, ht₂⟩
        · exact Or.inr hunmap
  case id_ne => grind [Function.update_apply, h.id_ne]
  case bound =>
    have hbound := h.bound
    have hlt := (h.dup e pn hdup).1
    grind [Function.update_apply]
  case given => grind [Function.update_apply, h.given]
  case rest =>
    have hrest := h.rest
    grind [Function.update_apply]
  case dup => grind [Function.update_apply, h.dup]
  case shareRead =>
    have hshare := h.shareRead
    have hdup := h.dup
    grind [Function.update_apply]

end Pages
end Jos
