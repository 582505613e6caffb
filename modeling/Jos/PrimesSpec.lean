import Jos.Primes

/-!
# The sieve prints the primes

Whatever environment takes the next step, what is printed are the first primes in their order (`primes_prints`), and
as long as no `fork` has failed, some environment can go on (`primes_progress`).
-/

namespace Jos

open PrimesState PrimeBox Sieve

variable {σ σ' : PrimesState} {k i p : Nat} {b : PrimeBox}

/-! ## Mailboxes -/

namespace PrimeBox

/-- The numbers that have been sent to an environment, -/
def sent (b : PrimeBox) : List Nat := b.calls ()

/-- and those that it has received. -/
def got (b : PrimeBox) : List Nat := b.received.map Prod.snd

/-- The left neighbor is in `ipc_send`. -/
def Sends (b : PrimeBox) (i : Nat) : Prop := b.sending () = .trying i ∨ b.sending () = .accepted i

theorem of_unit (l : List (Unit × Nat)) : Mailbox.of () l = l.map Prod.snd :=
  congrArg (List.map Prod.snd) (List.filter_eq_self.mpr fun _ _ => decide_eq_true rfl)

theorem got_prefix_sent (h : Mailbox.Inv b) : b.got <+: b.sent := by
  refine ⟨b.slot.toList.map Prod.snd ++ (b.sending ()).pending, ?_⟩
  rw [sent, h.order (), of_unit, h.box, List.map_append, List.append_assoc]
  rfl

theorem sent_call : (call b i).sent = b.sent ++ [i] := rfl

theorem sends_call : (call b i).Sends i := Or.inl rfl

theorem got_receive : (receive b i).got = b.got ++ [i] := by
  unfold got receive
  rw [List.map_append]
  rfl

end PrimeBox

/-! ## The invariant -/

/-- The `k`-th prime, from 0 on. -/
noncomputable abbrev prime (k : Nat) : Nat := Nat.nth Nat.Prime k

/-- The numbers that environment `k` sends on. -/
noncomputable def passes (k : Nat) (l : List Nat) : List Nat := l.filter fun n => ¬ prime k ∣ n

/-- The environment has printed its prime. -/
def PrimePoint.Printed : PrimePoint → Prop
  | .unborn | .top | .fetched _ => False
  | _ => True

/-- What environment `k` has received and what it has sent, and whether there is a right neighbor. -/
def PointOk (k : Nat) (b b' : PrimeBox) (next : PrimePoint) : PrimePoint → Prop
  | .unborn | .top => b.got = [] ∧ b'.sent = [] ∧ b'.sending () = .idle ∧ next = .unborn
  | .fetched p => b.got = [p] ∧ b'.sent = [] ∧ b'.sending () = .idle ∧ next = .unborn
  | .printed p => p = prime k ∧ b.got = [p] ∧ b'.sent = [] ∧ b'.sending () = .idle ∧ next = .unborn
  | .recv p => p = prime k ∧ b'.sent = passes k b.got ∧ b'.sending () = .idle ∧ next ≠ .unborn
  | .recvd p i =>
    p = prime k ∧ (∃ l, b.got = l ++ [i] ∧ b'.sent = passes k l) ∧ b'.sending () = .idle ∧ next ≠ .unborn
  | .send p i => p = prime k ∧ b'.sent = passes k b.got ∧ b'.Sends i ∧ next ≠ .unborn
  | .panicked => b'.sent = [] ∧ b'.sending () = .idle ∧ next = .unborn

/-- What the first environment has sent. -/
def FeedOk (b : PrimeBox) (next : PrimePoint) : FeedPoint → Prop
  | .fork | .panicked => b.sent = [] ∧ b.sending () = .idle ∧ next = .unborn
  | .feed i => b.sent = List.range' 2 (i - 2) ∧ 2 ≤ i ∧ b.sending () = .idle ∧ next ≠ .unborn
  | .feeding i => b.sent = List.range' 2 (i - 1) ∧ 2 ≤ i ∧ b.Sends i ∧ next ≠ .unborn

structure PrimesInv (σ : PrimesState) : Prop where
  box : ∀ k, Mailbox.Inv (σ.box k)
  feed : FeedOk (σ.box 0) (σ.point 0) σ.feed
  point : ∀ k, PointOk k (σ.box k) (σ.box (k + 1)) (σ.point (k + 1)) (σ.point k)
  sieved : ∀ k, Sieved k (σ.box k).sent
  output : σ.output = (List.range σ.output.length).map prime
  printed : ∀ k, k < σ.output.length ↔ (σ.point k).Printed

/-- What the left neighbor sees of a mailbox stays the same, or its message has been accepted. -/
structure SameBox (b c : PrimeBox) : Prop where
  sent : c.sent = b.sent
  idle : b.sending () = .idle → c.sending () = .idle
  sends : ∀ i, b.Sends i → c.Sends i

theorem SameBox.refl (b : PrimeBox) : SameBox b b := ⟨rfl, id, fun _ => id⟩

theorem PointOk.congr {b b' c c' : PrimeBox} {next next' pt : PrimePoint} (h : PointOk k b b' next pt)
    (hgot : c.got = b.got) (hb' : SameBox b' c') (hnext : next' = .unborn ↔ next = .unborn) :
    PointOk k c c' next' pt := by
  have hborn : next ≠ .unborn → next' ≠ .unborn := mt hnext.mp
  cases pt with
  | unborn | top | fetched => exact ⟨hgot.trans h.1, hb'.sent.trans h.2.1, hb'.idle h.2.2.1, hnext.mpr h.2.2.2⟩
  | printed =>
    exact ⟨h.1, hgot.trans h.2.1, hb'.sent.trans h.2.2.1, hb'.idle h.2.2.2.1, hnext.mpr h.2.2.2.2⟩
  | recv p => exact ⟨h.1, hb'.sent.trans (hgot ▸ h.2.1), hb'.idle h.2.2.1, hborn h.2.2.2⟩
  | recvd p i =>
    obtain ⟨l, hl, hsent⟩ := h.2.1
    exact ⟨h.1, ⟨l, hgot.trans hl, hb'.sent.trans hsent⟩, hb'.idle h.2.2.1, hborn h.2.2.2⟩
  | send p i => exact ⟨h.1, hb'.sent.trans (hgot ▸ h.2.1), hb'.sends i h.2.2.1, hborn h.2.2.2⟩
  | panicked => exact ⟨hb'.sent.trans h.1, hb'.idle h.2.1, hnext.mpr h.2.2⟩

theorem FeedOk.congr {b c : PrimeBox} {next next' : PrimePoint} {f : FeedPoint} (h : FeedOk b next f)
    (hb : SameBox b c) (hnext : next' = .unborn ↔ next = .unborn) : FeedOk c next' f := by
  have hborn : next ≠ .unborn → next' ≠ .unborn := mt hnext.mp
  cases f with
  | fork | panicked => exact ⟨hb.sent.trans h.1, hb.idle h.2.1, hnext.mpr h.2.2⟩
  | feed i => exact ⟨hb.sent.trans h.1, h.2.1, hb.idle h.2.2.1, hborn h.2.2.2⟩
  | feeding i => exact ⟨hb.sent.trans h.1, h.2.1, hb.sends i h.2.2.1, hborn h.2.2.2⟩

namespace PrimesInv

theorem start : PrimesInv PrimesState.start := by
  refine ⟨fun _ => Mailbox.inv_start, ⟨rfl, rfl, rfl⟩, fun _ => ⟨rfl, rfl, rfl, rfl⟩, fun k => sieved_nil k, rfl,
    fun k => iff_of_false (Nat.not_lt_zero k) id⟩

/-- A step in a mailbox that no neighbor sees. -/
theorem sameBox (h : PrimesInv σ) (hgot : b.got = (σ.box k).got) (hb : SameBox (σ.box k) b)
    (hinv : Mailbox.Inv b) : PrimesInv (σ.setBox k b) := by
  have hbox : ∀ j, (σ.setBox k b).box j = if j = k then b else σ.box j := fun j => Function.update_apply ..
  have hsame : ∀ j, SameBox (σ.box j) ((σ.setBox k b).box j) := by
    intro j
    rw [hbox]
    split
    · next hj => exact hj ▸ hb
    · exact .refl _
  refine ⟨fun j => ?_, h.feed.congr (hsame 0) Iff.rfl, fun j => (h.point j).congr ?_ (hsame (j + 1)) Iff.rfl,
    fun j => (hsame j).sent ▸ h.sieved j, h.output, h.printed⟩ <;> rw [hbox] <;> split
  · exact hinv
  · exact h.box j
  · next hj => exact hj ▸ hgot
  · rfl

/-- A step of the first environment. -/
theorem feedStep {f : FeedPoint} {pt : PrimePoint} (h : PrimesInv σ) (hgot : b.got = (σ.box 0).got)
    (hinv : Mailbox.Inv b) (hpt : pt = σ.point 0 ∨ (σ.point 0 = .unborn ∧ pt = .top)) (hfeed : FeedOk b pt f)
    (hsieved : Sieved 0 b.sent) :
    PrimesInv { σ with feed := f, box := Function.update σ.box 0 b, point := Function.update σ.point 0 pt } := by
  have hbox : ∀ j, Function.update σ.box 0 b j = if j = 0 then b else σ.box j := fun j => Function.update_apply ..
  have hpoint : ∀ j, Function.update σ.point 0 pt j = if j = 0 then pt else σ.point j := fun j =>
    Function.update_apply ..
  refine ⟨fun j => ?_, ?_, fun j => ?_, fun j => ?_, h.output, fun j => ?_⟩
  · show Mailbox.Inv (Function.update σ.box 0 b j)
    rw [hbox]
    split
    · exact hinv
    · exact h.box j
  · show FeedOk (Function.update σ.box 0 b 0) (Function.update σ.point 0 pt 0) f
    rw [hbox, hpoint, if_pos rfl, if_pos rfl]
    exact hfeed
  · show PointOk j (Function.update σ.box 0 b j) (Function.update σ.box 0 b (j + 1))
      (Function.update σ.point 0 pt (j + 1)) (Function.update σ.point 0 pt j)
    rw [hbox, hbox, hpoint, hpoint, if_neg (Nat.succ_ne_zero j), if_neg (Nat.succ_ne_zero j)]
    split
    · next hj =>
      subst hj
      have hold := (h.point 0).congr hgot (.refl _) Iff.rfl
      rcases hpt with rfl | ⟨hunborn, rfl⟩
      · exact hold
      · rw [hunborn] at hold
        exact hold
    · exact h.point j
  · show Sieved j (Function.update σ.box 0 b j).sent
    rw [hbox]
    split
    · next hj => exact hj ▸ hsieved
    · exact h.sieved j
  · show j < σ.output.length ↔ (Function.update σ.point 0 pt j).Printed
    rw [h.printed j, hpoint]
    split
    · next hj =>
      subst hj
      rcases hpt with rfl | ⟨hunborn, rfl⟩
      · exact Iff.rfl
      · rw [hunborn]
        exact Iff.rfl
    · exact Iff.rfl

/-- A step of environment `k`: it receives from its left neighbor and sends to the right one, which may be born. -/
theorem pointStep (h : PrimesInv σ) {out : List Nat} {point : Nat → PrimePoint} {box : Nat → PrimeBox}
    (hbox : ∀ j, Mailbox.Inv (box j)) (hgot : ∀ j, j ≠ k → (box j).got = (σ.box j).got)
    (hsame : ∀ j, j ≠ k + 1 → (box j).sent = (σ.box j).sent ∧ (box j).sending = (σ.box j).sending)
    (hpoint : ∀ j, j ≠ k → point j = σ.point j ∨ (j = k + 1 ∧ σ.point j = .unborn ∧ point j = .top))
    (hself : PointOk k (box k) (box (k + 1)) (point (k + 1)) (point k))
    (hborn : point k ≠ .unborn ∧ σ.point k ≠ .unborn) (hsieved : Sieved (k + 1) (box (k + 1)).sent)
    (hout : (out = σ.output ∧ ((point k).Printed ↔ (σ.point k).Printed)) ∨
      (out = σ.output ++ [prime k] ∧ (point k).Printed ∧ σ.output.length = k)) :
    PrimesInv { σ with point := point, box := box, output := out } := by
  have hbox' : ∀ j, j ≠ k + 1 → SameBox (σ.box j) (box j) := by
    intro j hj
    obtain ⟨hs, hsend⟩ := hsame j hj
    refine ⟨hs, fun hi => (congrFun hsend ()).trans hi, fun i hi => ?_⟩
    unfold Sends
    rw [hsend]
    exact hi
  have hnext : ∀ j, j ≠ k + 1 → (point j = .unborn ↔ σ.point j = .unborn) := by
    intro j hj
    by_cases hjk : j = k
    · rw [hjk]
      exact iff_of_false hborn.1 hborn.2
    · rcases hpoint j hjk with heq | ⟨hj', -⟩
      · rw [heq]
      · exact absurd hj' hj
  have hprinted : ∀ j, j ≠ k → ((point j).Printed ↔ (σ.point j).Printed) := by
    intro j hj
    rcases hpoint j hj with heq | ⟨-, hunborn, htop⟩
    · rw [heq]
    · rw [hunborn, htop]
      exact Iff.rfl
  refine ⟨hbox, h.feed.congr (hbox' 0 (Nat.succ_ne_zero k).symm) (hnext 0 (Nat.succ_ne_zero k).symm), fun j => ?_,
    fun j => ?_, ?_, fun j => ?_⟩
  · by_cases hj : j = k
    · rw [hj]
      exact hself
    · have hj' : j + 1 ≠ k + 1 := fun hc => hj (Nat.succ_inj.mp hc)
      have hold := (h.point j).congr (hgot j hj) (hbox' (j + 1) hj') (hnext (j + 1) hj')
      rcases hpoint j hj with heq | ⟨-, hunborn, htop⟩
      · show PointOk j _ _ _ (point j)
        rw [heq]
        exact hold
      · rw [hunborn] at hold
        show PointOk j _ _ _ (point j)
        rw [htop]
        exact hold
  · by_cases hj : j = k + 1
    · rw [hj]
      exact hsieved
    · exact (hsame j hj).1 ▸ h.sieved j
  · rcases hout with ⟨rfl, -⟩ | ⟨rfl, -, hlen⟩
    · exact h.output
    · rw [List.length_append, List.length_singleton, List.range_succ, List.map_append, ← h.output, hlen]
      rfl
  · rcases hout with ⟨rfl, hself'⟩ | ⟨rfl, hprint, hlen⟩
    · rw [h.printed j]
      by_cases hj : j = k
      · rw [hj]
        exact hself'.symm
      · exact (hprinted j hj).symm
    · show j < (σ.output ++ [prime k]).length ↔ (point j).Printed
      rw [List.length_append, List.length_singleton]
      by_cases hj : j = k
      · rw [hj, hlen]
        exact iff_of_true (Nat.lt_succ_self k) hprint
      · rw [hprinted j hj, ← h.printed j]
        omega

/-- A right neighbor is forked only by an environment that has printed. -/
theorem printed_of_born (h : PrimesInv σ) {j : Nat} (hk : σ.point (j + 1) ≠ .unborn) :
    (σ.point j).Printed ∧ σ.point j ≠ .unborn := by
  have hj := h.point j
  cases hpt : σ.point j <;> rw [hpt] at hj
  case unborn => exact absurd hj.2.2.2 hk
  case top => exact absurd hj.2.2.2 hk
  case fetched => exact absurd hj.2.2.2 hk
  case printed => exact absurd hj.2.2.2.2 hk
  case panicked => exact absurd hj.2.2 hk
  all_goals exact ⟨trivial, by rintro ⟨⟩⟩

theorem printed_before (h : PrimesInv σ) {j : Nat} (hj : j < k) (hk : σ.point k ≠ .unborn) :
    (σ.point j).Printed := by
  induction k with
  | zero => exact absurd hj (Nat.not_lt_zero j)
  | succ k ih =>
    obtain ⟨hprinted, hborn⟩ := h.printed_of_born hk
    rcases Nat.lt_succ_iff_lt_or_eq.mp hj with hj | rfl
    · exact ih hj hborn
    · exact hprinted

/-- The first number that environment `k` receives is the `k`-th prime. -/
theorem first_eq (h : PrimesInv σ) (hgot : (σ.box k).got = [p]) : p = prime k := by
  have hgot' := got_prefix_sent (h.box k)
  rw [hgot] at hgot'
  exact ((h.sieved k).anti hgot').head

theorem passes_drop {l : List Nat} (hi : i % prime k = 0) : passes k (l ++ [i]) = passes k l := by
  have hdvd := Nat.dvd_of_mod_eq_zero hi
  rw [passes, List.filter_append, List.filter_singleton]
  simp [hdvd, passes]

theorem passes_send {l : List Nat} (hi : i % prime k ≠ 0) : passes k (l ++ [i]) = passes k l ++ [i] := by
  have hdvd : ¬ prime k ∣ i := mt Nat.mod_eq_zero_of_dvd hi
  rw [passes, List.filter_append, List.filter_singleton]
  simp [hdvd, passes]

theorem update_box (b : PrimeBox) (k j : Nat) :
    Function.update σ.box k b j = if j = k then b else σ.box j := Function.update_apply ..

theorem inv_update (h : PrimesInv σ) (hb : Mailbox.Inv b) (k j : Nat) :
    Mailbox.Inv (Function.update σ.box k b j) := by
  rw [update_box]
  split
  · exact hb
  · exact h.box j

theorem point_update (σ : PrimesState) (k : Nat) (pt : PrimePoint) :
    ∀ j, j ≠ k → Function.update σ.point k pt j = σ.point j ∨
      (j = k + 1 ∧ σ.point j = .unborn ∧ Function.update σ.point k pt j = .top) :=
  fun _ hj => Or.inl (Function.update_of_ne hj ..)

/-- Environment `k` sends to its right neighbor, or does nothing in the mailboxes. -/
theorem sendStep {pt : PrimePoint} (h : PrimesInv σ) (hb : Mailbox.Inv b) (hgot : b.got = (σ.box (k + 1)).got)
    (hself : PointOk k (σ.box k) b (σ.point (k + 1)) pt) (hborn : pt ≠ .unborn ∧ σ.point k ≠ .unborn)
    (hsieved : Sieved (k + 1) b.sent) (hprinted : pt.Printed ↔ (σ.point k).Printed) :
    PrimesInv ((σ.setBox (k + 1) b).goto k pt) := by
  have hpt : Function.update σ.point k pt k = pt := Function.update_self ..
  have hnext : Function.update σ.point k pt (k + 1) = σ.point (k + 1) :=
    Function.update_of_ne (Nat.succ_ne_self k) ..
  show PrimesInv { σ with point := Function.update σ.point k pt, box := Function.update σ.box (k + 1) b }
  refine h.pointStep (inv_update h hb (k + 1)) (fun j _ => ?_) (fun j hj => ?_) (point_update σ k pt) ?_ ?_ ?_
    (Or.inl ⟨rfl, ?_⟩)
  · rw [update_box]
    split
    · next hj => rw [hj, hgot]
    · rfl
  · rw [update_box, if_neg hj]
    exact ⟨rfl, rfl⟩
  · rw [hpt, hnext, update_box, update_box, if_neg (Nat.succ_ne_self k).symm, if_pos rfl]
    exact hself
  · rw [hpt]
    exact hborn
  · rw [update_box, if_pos rfl]
    exact hsieved
  · rw [hpt]
    exact hprinted

/-- Environment `k` receives from its left neighbor. -/
theorem recvStep {pt : PrimePoint} (h : PrimesInv σ) (hslot : (σ.box k).slot = some ((), i))
    (hwait : (σ.box k).waiting = false)
    (hself : PointOk k (receive (σ.box k) i) (σ.box (k + 1)) (σ.point (k + 1)) pt)
    (hborn : pt ≠ .unborn ∧ σ.point k ≠ .unborn) (hprinted : pt.Printed ↔ (σ.point k).Printed) :
    PrimesInv ((σ.setBox k (receive (σ.box k) i)).goto k pt) := by
  have hpt : Function.update σ.point k pt k = pt := Function.update_self ..
  have hnext : Function.update σ.point k pt (k + 1) = σ.point (k + 1) :=
    Function.update_of_ne (Nat.succ_ne_self k) ..
  show PrimesInv { σ with
    point := Function.update σ.point k pt, box := Function.update σ.box k (receive (σ.box k) i) }
  refine h.pointStep (inv_update h ((h.box k).step (.receive hslot hwait)) k) (fun j hj => ?_) (fun j _ => ?_)
    (point_update σ k pt) ?_ ?_ ?_ (Or.inl ⟨rfl, ?_⟩)
  · rw [update_box, if_neg hj]
  · rw [update_box]
    split
    · next hj =>
      rw [hj]
      exact ⟨rfl, rfl⟩
    · exact ⟨rfl, rfl⟩
  · rw [hpt, hnext, update_box, update_box, if_pos rfl, if_neg (Nat.succ_ne_self k)]
    exact hself
  · rw [hpt]
    exact hborn
  · rw [update_box, if_neg (Nat.succ_ne_self k)]
    exact h.sieved (k + 1)
  · rw [hpt]
    exact hprinted

theorem stepPrint (h : PrimesInv σ) (hk : σ.point k = .fetched p) :
    PrimesInv ({ σ with output := σ.output ++ [p] }.goto k (.printed p)) := by
  have hpoint := h.point k
  rw [hk] at hpoint
  obtain ⟨hgot, hsent, hidle, hnext⟩ := hpoint
  obtain rfl := h.first_eq hgot
  have hpt : Function.update σ.point k (.printed (prime k)) k = .printed (prime k) := Function.update_self ..
  have hnext' : Function.update σ.point k (.printed (prime k)) (k + 1) = σ.point (k + 1) :=
    Function.update_of_ne (Nat.succ_ne_self k) ..
  -- it is the next one to print
  have hlen : σ.output.length = k := by
    refine Nat.le_antisymm (Nat.not_lt.mp fun hlt => ?_) (Nat.not_lt.mp fun hlt => ?_)
    · have hprinted := (h.printed k).mp hlt
      rw [hk] at hprinted
      exact hprinted
    · have hprinted := h.printed_before hlt (by rw [hk]; rintro ⟨⟩)
      exact Nat.lt_irrefl _ ((h.printed _).mpr hprinted)
  show PrimesInv { σ with
    point := Function.update σ.point k (.printed (prime k)), output := σ.output ++ [prime k] }
  refine h.pointStep h.box (fun _ _ => rfl) (fun _ _ => ⟨rfl, rfl⟩) (point_update σ k _) ?_ ?_ (h.sieved _)
    (Or.inr ⟨rfl, ?_, hlen⟩)
  · rw [hpt, hnext']
    exact ⟨rfl, hgot, hsent, hidle, hnext⟩
  · rw [hpt, hk]
    exact ⟨by rintro ⟨⟩, by rintro ⟨⟩⟩
  · rw [hpt]
    trivial

theorem stepFork (h : PrimesInv σ) (hk : σ.point k = .printed p) :
    PrimesInv ((σ.goto k (.recv p)).goto (k + 1) .top) := by
  have hpoint := h.point k
  rw [hk] at hpoint
  obtain ⟨hp, hgot, hsent, hidle, hnext⟩ := hpoint
  have happly : ∀ j, Function.update (Function.update σ.point k (.recv p)) (k + 1) .top j
      = if j = k + 1 then .top else if j = k then .recv p else σ.point j := fun j => by
    rw [Function.update_apply, Function.update_apply]
  have hself : Function.update (Function.update σ.point k (.recv p)) (k + 1) .top k = .recv p := by
    rw [happly, if_neg (Nat.succ_ne_self k).symm, if_pos rfl]
  have hright : Function.update (Function.update σ.point k (.recv p)) (k + 1) .top (k + 1) = .top := by
    rw [happly, if_pos rfl]
  show PrimesInv { σ with point := Function.update (Function.update σ.point k (.recv p)) (k + 1) .top }
  refine h.pointStep (k := k) h.box (fun _ _ => rfl) (fun _ _ => ⟨rfl, rfl⟩) (fun j hj => ?_) ?_ ?_ (h.sieved _)
    (Or.inl ⟨rfl, ?_⟩)
  · by_cases hj' : j = k + 1
    · refine Or.inr ⟨hj', hj' ▸ hnext, ?_⟩
      rw [hj']
      exact hright
    · refine Or.inl ?_
      rw [happly, if_neg hj', if_neg hj]
  · rw [hself, hright]
    refine ⟨hp, ?_, hidle, by rintro ⟨⟩⟩
    rw [hsent, hgot, hp]
    exact (passes_drop (l := []) (Nat.mod_self _)).symm
  · rw [hself, hk]
    exact ⟨by rintro ⟨⟩, by rintro ⟨⟩⟩
  · rw [hself, hk]
    exact Iff.rfl

theorem step (h : PrimesInv σ) (hs : PrimesStep σ σ') : PrimesInv σ' := by
  have hfeed := h.feed
  cases hs with
  | feedFork hf =>
    rw [hf] at hfeed
    have hstep := h.feedStep (b := σ.box 0) (f := .feed 2) rfl (h.box 0) (Or.inr ⟨hfeed.2.2, rfl⟩)
      ⟨hfeed.1, le_rfl, hfeed.2.1, by rintro ⟨⟩⟩ (h.sieved 0)
    rwa [Function.update_eq_self] at hstep
  | feedForkFails hf =>
    rw [hf] at hfeed
    have hstep := h.feedStep (b := σ.box 0) (f := .panicked) rfl (h.box 0) (Or.inl rfl) hfeed (h.sieved 0)
    rwa [Function.update_eq_self, Function.update_eq_self] at hstep
  | @feedSend i hf _ =>
    rw [hf] at hfeed
    obtain ⟨hsent, hi, hidle, hborn⟩ := hfeed
    have hsent' : (call (σ.box 0) i).sent = List.range' 2 (i - 1) := by
      have hlen : i - 1 = (i - 2) + 1 := by omega
      rw [sent_call, hsent, hlen, List.range'_concat]
      congr 2
      omega
    have hstep := h.feedStep (f := .feeding i) (b := call (σ.box 0) i) rfl ((h.box 0).step (.call i hidle))
      (Or.inl rfl) ⟨hsent', hi, sends_call, hborn⟩ (hsent' ▸ sieved_range _)
    rwa [Function.update_eq_self] at hstep
  | @feedSent i hf hacc =>
    rw [hf] at hfeed
    obtain ⟨hsent, hi, -, hborn⟩ := hfeed
    have hstep := h.feedStep (f := .feed (i + 1)) (b := ret (σ.box 0) i) rfl ((h.box 0).step (.ret hacc))
      (Or.inl rfl) ⟨hsent, by omega, rfl, hborn⟩ (h.sieved 0)
    rwa [Function.update_eq_self] at hstep
  | @wait k _ _ hslot => exact h.sameBox rfl ⟨rfl, id, fun _ => id⟩ ((h.box k).step (.wait hslot))
  | @accept k i htry hwait =>
    refine h.sameBox rfl ⟨rfl, fun hc => ?_, fun j hj => ?_⟩ ((h.box k).step (.accept htry hwait))
    · rw [htry] at hc
      cases hc
    · rcases hj with hj | hj <;> rw [htry] at hj <;> cases hj
      exact Or.inr rfl
  | @fetched k p hk hslot hwait =>
    have hpoint := h.point k
    rw [hk] at hpoint
    obtain ⟨hgot, hrest⟩ := hpoint
    refine h.recvStep hslot hwait ⟨?_, hrest⟩ ⟨by rintro ⟨⟩, by rw [hk]; rintro ⟨⟩⟩ (by rw [hk]; exact Iff.rfl)
    rw [got_receive, hgot]
    rfl
  | print hk => exact h.stepPrint hk
  | fork hk => exact h.stepFork hk
  | @forkFails k p hk =>
    have hpoint := h.point k
    rw [hk] at hpoint
    have hstep : PrimesInv ((σ.setBox (k + 1) (σ.box (k + 1))).goto k .panicked) :=
      h.sendStep (h.box (k + 1)) rfl hpoint.2.2 ⟨by rintro ⟨⟩, by rw [hk]; rintro ⟨⟩⟩ (h.sieved _)
        (by rw [hk]; exact Iff.rfl)
    rwa [setBox, Function.update_eq_self] at hstep
  | @recv k p i hk hslot hwait =>
    have hpoint := h.point k
    rw [hk] at hpoint
    obtain ⟨hp, hsent, hidle, hnext⟩ := hpoint
    exact h.recvStep hslot hwait ⟨hp, ⟨_, got_receive, hsent⟩, hidle, hnext⟩
      ⟨by rintro ⟨⟩, by rw [hk]; rintro ⟨⟩⟩ (by rw [hk]; exact Iff.rfl)
  | @drop k p i hk hi =>
    have hpoint := h.point k
    rw [hk] at hpoint
    obtain ⟨rfl, ⟨l, hgot, hsent⟩, hidle, hnext⟩ := hpoint
    have hstep : PrimesInv ((σ.setBox (k + 1) (σ.box (k + 1))).goto k (.recv (prime k))) :=
      h.sendStep (h.box (k + 1)) rfl ⟨rfl, by rw [hgot, passes_drop hi, hsent], hidle, hnext⟩
        ⟨by rintro ⟨⟩, by rw [hk]; rintro ⟨⟩⟩ (h.sieved _) (by rw [hk]; exact Iff.rfl)
    rwa [setBox, Function.update_eq_self] at hstep
  | @send k p i hk hi =>
    have hpoint := h.point k
    rw [hk] at hpoint
    obtain ⟨rfl, ⟨l, hgot, hsent⟩, hidle, hnext⟩ := hpoint
    have hpasses : (call (σ.box (k + 1)) i).sent = passes k (σ.box k).got := by
      rw [sent_call, hsent, hgot, passes_send hi]
    refine h.sendStep ((h.box (k + 1)).step (.call i hidle)) rfl ⟨rfl, hpasses, sends_call, hnext⟩
      ⟨by rintro ⟨⟩, by rw [hk]; rintro ⟨⟩⟩ ?_ (by rw [hk]; exact Iff.rfl)
    rw [hpasses]
    exact ((h.sieved k).anti (got_prefix_sent (h.box k))).filter
  | @sent k p i hk hacc =>
    have hpoint := h.point k
    rw [hk] at hpoint
    obtain ⟨rfl, hsent, -, hnext⟩ := hpoint
    exact h.sendStep ((h.box (k + 1)).step (.ret hacc)) rfl ⟨rfl, hsent, rfl, hnext⟩
      ⟨by rintro ⟨⟩, by rw [hk]; rintro ⟨⟩⟩ (h.sieved (k + 1)) (by rw [hk]; exact Iff.rfl)

theorem run (h : PrimesRun σ) : PrimesInv σ := by
  induction h with
  | start => exact .start
  | step _ hs ih => exact ih.step hs

end PrimesInv

/-! ## What the program does -/

/-- However the environments are scheduled, the program prints the first primes, each once and in their order. -/
theorem primes_prints (h : PrimesRun σ) : σ.output = (List.range σ.output.length).map (Nat.nth Nat.Prime) :=
  (PrimesInv.run h).output

theorem primes_prints_two :
    ∃ σ, PrimesRun σ ∧ σ.output = [2] ∧ σ.output = (List.range σ.output.length).map (Nat.nth Nat.Prime) := by
  have h₁ := PrimesRun.start.step (.feedFork rfl)
  have h₂ := h₁.step (.feedSend (i := 2) rfl (by decide))
  have h₃ := h₂.step (.wait (k := 0) (Or.inl rfl) rfl rfl)
  have h₄ := h₃.step (.accept (k := 0) (i := 2) rfl rfl)
  have h₅ := h₄.step (.fetched (k := 0) (p := 2) rfl rfl rfl)
  have h₆ := h₅.step (.print (k := 0) (p := 2) rfl)
  exact ⟨_, h₆, rfl, primes_prints h₆⟩

/-- No `fork` has failed. -/
structure NoPanic (σ : PrimesState) : Prop where
  feed : σ.feed ≠ .panicked
  point : ∀ k, σ.point k ≠ .panicked

theorem NoPanic.goto {pt : PrimePoint} (h : NoPanic σ) (hpt : pt ≠ .panicked) : NoPanic (σ.goto k pt) := by
  refine ⟨h.feed, fun j => ?_⟩
  show Function.update σ.point k pt j ≠ .panicked
  rw [Function.update_apply]
  split
  · exact hpt
  · exact h.point j

/-- If an environment is in `ipc_send`, it or one to its right can go on. -/
theorem PrimesInv.progress_right (h : PrimesInv σ) (hno : NoPanic σ) {n : Nat} (hn : σ.point (k + n) = .unborn)
    (hk : σ.point k ≠ .unborn) (htry : (σ.box k).sending () = .trying i) : ∃ σ', PrimesStep σ σ' ∧ NoPanic σ' := by
  induction n generalizing k i with
  | zero => exact absurd hn hk
  | succ n ih =>
    have hwait : ∀ b, NoPanic (σ.setBox k b) := fun _ => ⟨hno.feed, hno.point⟩
    have hgoto : ∀ {τ : PrimesState} {pt : PrimePoint}, NoPanic τ → pt ≠ .panicked → NoPanic (τ.goto k pt) :=
      fun hτ hpt => hτ.goto hpt
    cases hw : (σ.box k).waiting with
    | true => exact ⟨_, .accept htry hw, hwait _⟩
    | false =>
      have hpoint := h.point k
      cases hpt : σ.point k with
      | unborn => exact absurd hpt hk
      | panicked => exact absurd hpt (hno.point k)
      | top =>
        cases hslot : (σ.box k).slot with
        | none => exact ⟨_, .wait (Or.inl hpt) hw hslot, hwait _⟩
        | some m => exact ⟨_, .fetched hpt hslot hw, hgoto (hwait _) (by rintro ⟨⟩)⟩
      | fetched p => exact ⟨_, .print hpt, hgoto ⟨hno.feed, hno.point⟩ (by rintro ⟨⟩)⟩
      | printed p => exact ⟨_, .fork hpt, (hno.goto (by rintro ⟨⟩)).goto (by rintro ⟨⟩)⟩
      | recv p =>
        cases hslot : (σ.box k).slot with
        | none => exact ⟨_, .wait (Or.inr ⟨p, hpt⟩) hw hslot, hwait _⟩
        | some m => exact ⟨_, .recv hpt hslot hw, hgoto (hwait _) (by rintro ⟨⟩)⟩
      | recvd p j =>
        by_cases hj : j % p = 0
        · exact ⟨_, .drop hpt hj, hno.goto (by rintro ⟨⟩)⟩
        · exact ⟨_, .send hpt hj, hgoto ⟨hno.feed, hno.point⟩ (by rintro ⟨⟩)⟩
      | send p j =>
        rw [hpt] at hpoint
        obtain ⟨-, -, hsends, hborn⟩ := hpoint
        rcases hsends with htry' | hacc
        · refine ih ?_ hborn htry'
          rw [Nat.add_right_comm]
          exact hn
        · exact ⟨_, .sent hpt hacc, hgoto ⟨hno.feed, hno.point⟩ (by rintro ⟨⟩)⟩

/-- The environments do not block each other: as long as no `fork` has failed and the integers do not overflow, some
environment can take a step in which no `fork` fails. -/
theorem primes_progress (h : PrimesRun σ) (hno : NoPanic σ) (hint : ∀ i, σ.feed = .feed i → i < 2 ^ 31) :
    ∃ σ', PrimesStep σ σ' ∧ NoPanic σ' := by
  have hinv := PrimesInv.run h
  have hfeed := hinv.feed
  cases hf : σ.feed with
  | panicked => exact absurd hf hno.feed
  | fork => exact ⟨_, .feedFork hf, NoPanic.goto ⟨by rintro ⟨⟩, hno.point⟩ (by rintro ⟨⟩)⟩
  | feed i => exact ⟨_, .feedSend hf (hint i hf), ⟨by rintro ⟨⟩, hno.point⟩⟩
  | feeding i =>
    rw [hf] at hfeed
    obtain ⟨-, -, hsends, hborn⟩ := hfeed
    rcases hsends with htry | hacc
    · -- the last environment has no right neighbor yet
      have hlast : σ.point (0 + (σ.output.length + 1)) = .unborn := by
        by_contra hc
        rw [Nat.zero_add] at hc
        exact Nat.lt_irrefl _ ((hinv.printed _).mpr (hinv.printed_of_born hc).1)
      exact hinv.progress_right hno hlast hborn htry
    · exact ⟨_, .feedSent hf hacc, ⟨by rintro ⟨⟩, hno.point⟩⟩

theorem primes_progress_start : ∃ σ', PrimesStep PrimesState.start σ' ∧ NoPanic σ' :=
  primes_progress .start ⟨by rintro ⟨⟩, by rintro _ ⟨⟩⟩ (by rintro _ ⟨⟩)

end Jos
