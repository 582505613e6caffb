import Mathlib.Data.Set.Insert
import Mathlib.Logic.Function.Basic

/-!
# Copy on write

Members of a family have address spaces, which map pages to frames. A fork gives the child the frames of its parent
one after the other and takes write permission away from both; a member that wants to write to such a page copies it
into a frame of its own first, one place after the other. `Step` are the steps of all members in any order. While a
member makes a child it may go on storing to its pages, as the code that gives the pages away has variables too.

In the eager system every member has the contents of its pages to itself, and a fork copies them. What the parent
stores while it makes a child is in the child's copy of the page if that copy is made later. Every run shows the same
loads, stores and forks as a run of the eager system (`Run.eager`): a frame that can be written to is mapped once
(`Inv.writable`), apart from the moment between sharing a frame and protecting it.
-/

namespace Cow

variable {E V F I O : Type*}

/-- What a run shows. -/
inductive Event (E V I O : Type*)
  | load (e : E) (v : V) (i : I) (o : O)
  | store (e : E) (v : V) (i : I) (o : O)
  /-- `e` makes the child `c`, -/
  | fork (e c : E)
  /-- stores something while it does so, -/
  | spill (e : E) (v : V) (i : I) (o : O)
  /-- and is done. -/
  | ready (e c : E)

/-! ## Eager copies -/

/-- The contents of the pages of all members, and the children they are making, with the pages that have been copied
already. -/
structure Eager (E V I O : Type*) where
  mem : E → V → Option (I → O)
  child : E → Option (E × Set V)

section

variable [DecidableEq E] [DecidableEq V] [DecidableEq I]

/-- Change one place of a page. -/
def Eager.write (m : Eager E V I O) (e : E) (v : V) (i : I) (o : O) : Eager E V I O :=
  { m with mem := Function.update m.mem e (Function.update (m.mem e) v
      ((m.mem e v).map fun p => Function.update p i o)) }

theorem Eager.write_mem (m : Eager E V I O) (e : E) (v : V) (i : I) (o : O) (e' : E) (v' : V) :
    (m.write e v i o).mem e' v'
      = if e' = e ∧ v' = v then (m.mem e v).map fun p => Function.update p i o else m.mem e' v' := by
  by_cases he : e' = e
  · subst he
    simp only [Eager.write, Function.update_self, Function.update_apply, true_and]
  · simp only [Eager.write, Function.update_of_ne he, he, false_and, if_false]

/-- The steps when nothing is shared. As long as a page has not been copied, the child has what its parent has. -/
inductive Eager.Step : Eager E V I O → List (Event E V I O) → Eager E V I O → Prop
  | load {m : Eager E V I O} {e : E} {v : V} {p : I → O} (i : I) : m.mem e v = some p →
      Step m [.load e v i (p i)] m
  | store {m : Eager E V I O} {e : E} {v : V} (i : I) (o : O) : m.child e = none → m.mem e v ≠ none →
      Step m [.store e v i o] (m.write e v i o)
  | fork {m : Eager E V I O} {e c : E} : m.child e = none → (∀ v, m.mem c v = none) →
      Step m [.fork e c]
        { mem := Function.update m.mem c (m.mem e), child := Function.update m.child e (some (c, ∅)) }
  | copy {m : Eager E V I O} {e c : E} {s s' : Set V} : m.child e = some (c, s) → s ⊆ s' →
      Step m [] { m with child := Function.update m.child e (some (c, s')) }
  | spill {m : Eager E V I O} {e c : E} {s : Set V} {v : V} (i : I) (o : O) : m.child e = some (c, s) → v ∈ s →
      m.mem e v ≠ none → Step m [.spill e v i o] (m.write e v i o)
  | spillBoth {m : Eager E V I O} {e c : E} {s : Set V} {v : V} (i : I) (o : O) : m.child e = some (c, s) → v ∉ s →
      m.mem e v ≠ none → Step m [.spill e v i o] ((m.write e v i o).write c v i o)
  | ready {m : Eager E V I O} {e c : E} {s : Set V} : m.child e = some (c, s) →
      Step m [.ready e c] { m with child := Function.update m.child e none }

/-- The runs of the eager system, with what they show. -/
inductive Eager.Run (m₀ : Eager E V I O) : List (Event E V I O) → Eager E V I O → Prop
  | start : Run m₀ [] m₀
  | step {tr tr' : List (Event E V I O)} {m m' : Eager E V I O} : Run m₀ tr m → Step m tr' m' →
      Run m₀ (tr ++ tr') m'

end

/-! ## Shared frames -/

/-- What a member is doing. -/
inductive Task (E V : Type*)
  | unborn
  /-- Its parent is giving it pages. -/
  | growing (parent : E)
  | running
  /-- It is giving pages to the child `c`. -/
  | forking (c : E)
  /-- The child has got page `v`, which is not protected yet. -/
  | sharing (c : E) (v : V)

/-- The child that the member is giving pages to. -/
def Task.child : Task E V → Option E
  | .forking c | .sharing c _ => some c
  | _ => none

/-- The member that is giving pages to this one. -/
def Task.parent : Task E V → Option E
  | .growing e => some e
  | _ => none

/-- Who makes a child is not a child. -/
theorem Task.parent_eq_none {x : Task E V} {c : E} (h : x.child = some c) : x.parent = none := by
  cases x with
  | forking c' => rfl
  | sharing c' v => rfl
  | unborn | growing | running => cases h

theorem Task.eq_growing {x : Task E V} {p : E} (h : x.parent = some p) : x = .growing p := by
  cases x with
  | growing e =>
    obtain rfl := Option.some.inj h
    rfl
  | unborn | running | forking | sharing => cases h

/-- The member can load and store. -/
def Task.alive : Task E V → Bool
  | .unborn | .growing _ => false
  | _ => true

theorem Task.parent_eq_none_of_alive {x : Task E V} (h : x.alive = true) : x.parent = none := by
  cases x with
  | unborn | running | forking | sharing => rfl
  | growing e => cases h

/-- What the members do, the copies of a page that they make, with the frame and the places that have been copied,
the frames of their pages with permission to write, and what the frames hold. -/
structure State (E V F I O : Type*) where
  task : E → Task E V
  fill : E → Option (V × F × Set I)
  entry : E → V → Option (F × Bool)
  page : F → I → O

/-- Some member has the frame. -/
def State.Used (σ : State E V F I O) (f : F) : Prop :=
  (∃ e v w, σ.entry e v = some (f, w)) ∨ ∃ e v done, σ.fill e = some (v, f, done)

/-- The contents of the pages of a member. -/
def State.space (σ : State E V F I O) (e : E) (v : V) : Option (I → O) := (σ.entry e v).map fun x => σ.page x.1

/-- The contents of the pages of a member, and of those that its parent has not given it yet. -/
def State.mem (σ : State E V F I O) (e : E) (v : V) : Option (I → O) :=
  (σ.space e v).or ((σ.task e).parent.bind fun p => σ.space p v)

/-- The pages that the child `c` of `e` has got, and that `e` cannot write to in the same frame. -/
def State.settled (σ : State E V F I O) (e c : E) : Set V :=
  {v | ∃ f w, σ.entry c v = some (f, w) ∧ σ.entry e v ≠ some (f, true)}

/-- The state as the eager system sees it. -/
def State.eager (σ : State E V F I O) : Eager E V I O where
  mem := σ.mem
  child e := (σ.task e).child.map fun c => (c, σ.settled e c)

section

variable {σ σ' : State E V F I O} {e e' : E} {v v' : V} {f g : F} {w : Bool}

theorem space_eq (h : σ.entry e v = some (f, w)) : σ.space e v = some (σ.page f) := by
  rw [State.space, h]
  rfl

theorem space_eq_none : σ.space e v = none ↔ σ.entry e v = none := Option.map_eq_none_iff

theorem eager_child : σ.eager.child e = (σ.task e).child.map fun c => (c, σ.settled e c) := rfl

theorem mem_eq (h : σ.entry e v = some (f, w)) : σ.mem e v = some (σ.page f) := by
  rw [State.mem, space_eq h]
  rfl

theorem mem_of_parent {p : E} (h : (σ.task e).parent = some p) : σ.mem e v = (σ.space e v).or (σ.space p v) := by
  rw [State.mem, h]
  rfl

theorem mem_of_no_parent (h : (σ.task e).parent = none) : σ.mem e v = σ.space e v := by
  rw [State.mem, h]
  exact Option.or_none

/-- The contents of pages depend on who makes which child. -/
theorem mem_congr (hparent : ∀ e, (σ'.task e).parent = (σ.task e).parent)
    (hspace : ∀ e v, σ'.space e v = σ.space e v) : σ'.mem = σ.mem := by
  have hspace' : σ'.space = σ.space := funext fun e => funext fun v => hspace e v
  funext e v
  rw [State.mem, State.mem, hspace', hparent]

/-- Change what a member does. -/
def State.setTask [DecidableEq E] (σ : State E V F I O) (e : E) (x : Task E V) : State E V F I O :=
  { σ with task := Function.update σ.task e x }

/-- Change the copy that a member makes. -/
def State.setFill [DecidableEq E] (σ : State E V F I O) (e : E) (x : Option (V × F × Set I)) : State E V F I O :=
  { σ with fill := Function.update σ.fill e x }

/-- Change one entry. -/
def State.setEntry [DecidableEq E] [DecidableEq V] (σ : State E V F I O) (e : E) (v : V) (x : F × Bool) :
    State E V F I O :=
  { σ with entry := Function.update σ.entry e (Function.update (σ.entry e) v (some x)) }

/-- Change one place of a frame. -/
def State.write [DecidableEq F] [DecidableEq I] (σ : State E V F I O) (f : F) (i : I) (o : O) : State E V F I O :=
  { σ with page := Function.update σ.page f (Function.update (σ.page f) i o) }

section

variable [DecidableEq E] (x : Task E V) (y : Option (V × F × Set I))

@[simp] theorem setTask_fill : (σ.setTask e x).fill = σ.fill := rfl
@[simp] theorem setTask_entry : (σ.setTask e x).entry = σ.entry := rfl
@[simp] theorem setTask_page : (σ.setTask e x).page = σ.page := rfl
@[simp] theorem setTask_space : (σ.setTask e x).space = σ.space := rfl
@[simp] theorem setFill_task : (σ.setFill e y).task = σ.task := rfl
@[simp] theorem setFill_entry : (σ.setFill e y).entry = σ.entry := rfl
@[simp] theorem setFill_page : (σ.setFill e y).page = σ.page := rfl

theorem setTask_task : (σ.setTask e x).task e' = if e' = e then x else σ.task e' := Function.update_apply ..

theorem setTask_self : σ.setTask e (σ.task e) = σ := by
  rw [State.setTask, Function.update_eq_self]

theorem setFill_self : σ.setFill e (σ.fill e) = σ := by
  rw [State.setFill, Function.update_eq_self]

theorem setFill_fill : (σ.setFill e y).fill e' = if e' = e then y else σ.fill e' := Function.update_apply ..

end

section

variable [DecidableEq E] [DecidableEq V] (x : F × Bool)

@[simp] theorem setEntry_task : (σ.setEntry e v x).task = σ.task := rfl
@[simp] theorem setEntry_fill : (σ.setEntry e v x).fill = σ.fill := rfl
@[simp] theorem setEntry_page : (σ.setEntry e v x).page = σ.page := rfl

theorem setEntry_entry : (σ.setEntry e v x).entry e' v' = if e' = e ∧ v' = v then some x else σ.entry e' v' := by
  by_cases he : e' = e
  · subst he
    simp only [State.setEntry, Function.update_self, Function.update_apply, true_and]
  · simp only [State.setEntry, Function.update_of_ne he, he, false_and, if_false]

theorem setEntry_space : (σ.setEntry e v x).space e' v'
    = if e' = e ∧ v' = v then some (σ.page x.1) else σ.space e' v' := by
  rw [State.space, setEntry_entry, setEntry_page]
  split
  · rfl
  · rfl

end

section

variable [DecidableEq F] [DecidableEq I] (i : I) (o : O)

@[simp] theorem write_task : (σ.write f i o).task = σ.task := rfl
@[simp] theorem write_fill : (σ.write f i o).fill = σ.fill := rfl
@[simp] theorem write_entry : (σ.write f i o).entry = σ.entry := rfl

theorem write_page : (σ.write f i o).page g = if g = f then Function.update (σ.page f) i o else σ.page g :=
  Function.update_apply ..

theorem write_space (h : σ.entry e v = some (f, w)) :
    (σ.write f i o).space e v = (σ.space e v).map fun p => Function.update p i o := by
  have h' : (σ.write f i o).entry e v = some (f, w) := h
  rw [space_eq h, space_eq h', write_page, if_pos rfl]
  rfl

theorem write_space_of_ne (h : ∀ w, σ.entry e v ≠ some (f, w)) : (σ.write f i o).space e v = σ.space e v := by
  cases hx : σ.entry e v with
  | none =>
    have hx' : (σ.write f i o).entry e v = none := hx
    rw [space_eq_none.mpr hx, space_eq_none.mpr hx']
  | some x =>
    obtain ⟨g, w⟩ := x
    have hx' : (σ.write f i o).entry e v = some (g, w) := hx
    have hne : g ≠ f := by
      rintro rfl
      exact h w hx
    rw [space_eq hx, space_eq hx', write_page, if_neg hne]

end

end

/-! ## The invariant -/

/-- Who may have a frame. -/
structure Inv (σ : State E V F I O) : Prop where
  unborn : ∀ e v, σ.task e = .unborn → σ.entry e v = none
  /-- A frame is mapped for the same page everywhere. -/
  place : ∀ e v e' v' f w w', σ.entry e v = some (f, w) → σ.entry e' v' = some (f, w') → v' = v
  /-- A frame that can be written to is mapped once, except to a page that is being shared. -/
  writable : ∀ e v e' f w, σ.entry e v = some (f, true) → σ.entry e' v = some (f, w) →
    e' = e ∨ σ.task e = .sharing e' v
  idle : ∀ e x, σ.fill e = some x → (σ.task e).alive = true
  /-- The frame of a copy that is being made is not mapped, -/
  temp : ∀ e v f done, σ.fill e = some (v, f, done) → ∀ e' v' w, σ.entry e' v' ≠ some (f, w)
  temp_inj : ∀ e v f done e' v' done', σ.fill e = some (v, f, done) → σ.fill e' = some (v', f, done') → e' = e
  /-- and it agrees with the page as far as it has been copied. -/
  copied : ∀ e v g done, σ.fill e = some (v, g, done) → ∃ f w, σ.entry e v = some (f, w) ∧
    ∀ i ∈ done, σ.page g i = σ.page f i
  /-- A child has one parent, who has one child at a time, -/
  child : ∀ e c, (σ.task e).child = some c → σ.task c = .growing e
  parent : ∀ e c, σ.task c = .growing e → (σ.task e).child = some c
  /-- and has got its frames for reading only. -/
  readOnly : ∀ e c v f w, σ.task c = .growing e → σ.entry c v = some (f, w) → w = false

namespace Inv

section

variable {σ : State E V F I O} {e e' c : E} {v v' : V} {f g : F} {w : Bool} {done : Set I} {x : F × Bool}

/-- One running member alone, with each page in a frame of its own. -/
theorem single (htask : ∀ e', σ.task e' = .running ∨ σ.task e' = .unborn) (hfill : ∀ e', σ.fill e' = none)
    (hentry : ∀ e' v x, σ.entry e' v = some x → e' = e ∧ σ.task e' = .running)
    (hinj : ∀ v v' f w w', σ.entry e v = some (f, w) → σ.entry e v' = some (f, w') → v' = v) : Inv σ := by
  have hno : ∀ e' x, σ.fill e' ≠ some x := fun e' x hx => by
    rw [hfill] at hx
    cases hx
  refine ⟨fun e' v hun => ?_, fun e₁ v e₂ v' f w w' h₁ h₂ => ?_, fun e₁ v e₂ f w h₁ h₂ => Or.inl ?_,
    fun e' x hx => absurd hx (hno e' x), fun e' v f done hx => absurd hx (hno e' _),
    fun e' v f done _ _ _ hx => absurd hx (hno e' _), fun e' v f done hx => absurd hx (hno e' _), fun e' c hc => ?_,
    fun e' c hc => ?_, fun e' c v f w hc => ?_⟩
  · cases hx : σ.entry e' v with
    | none => rfl
    | some x =>
      rw [(hentry e' v x hx).2] at hun
      cases hun
  · obtain ⟨rfl, -⟩ := hentry e₁ v _ h₁
    obtain ⟨rfl, -⟩ := hentry e₂ v' _ h₂
    exact hinj v v' f w w' h₁ h₂
  · rw [(hentry e₁ v _ h₁).1, (hentry e₂ v _ h₂).1]
  · rcases htask e' with ht | ht
    · rw [ht] at hc
      cases hc
    · rw [ht] at hc
      cases hc
  · rcases htask c with ht | ht
    · rw [ht] at hc
      cases hc
    · rw [ht] at hc
      cases hc
  · rcases htask c with ht | ht
    · rw [ht] at hc
      cases hc
    · rw [ht] at hc
      cases hc

theorem memory (h : Inv σ) {page : F → I → O} (hpage : ∀ f, σ.Used f → page f = σ.page f) :
    Inv { σ with page } := by
  refine ⟨h.unborn, h.place, h.writable, h.idle, h.temp, h.temp_inj, fun e v g done hfill => ?_, h.child, h.parent,
    h.readOnly⟩
  obtain ⟨f, w, hf, hcopied⟩ := h.copied e v g done hfill
  refine ⟨f, w, hf, fun i hi => ?_⟩
  show page g i = page f i
  rw [hpage g (Or.inr ⟨e, v, done, hfill⟩), hpage f (Or.inl ⟨e, v, w, hf⟩)]
  exact hcopied i hi

/-- Who else may have a frame that a member can write to. -/
theorem sharer (h : Inv σ) (hf : σ.entry e v = some (f, true)) (hf' : σ.entry e' v' = some (f, w)) :
    v' = v ∧ (e' = e ∨ (σ.task e).child = some e') := by
  obtain rfl := h.place e v e' v' f true w hf hf'
  rcases h.writable e v' e' f w hf hf' with he | hshare
  · exact ⟨rfl, Or.inl he⟩
  · rw [hshare]
    exact ⟨rfl, Or.inr rfl⟩

theorem child_ne (h : Inv σ) (hc : (σ.task e).child = some c) : c ≠ e := by
  rintro rfl
  rw [h.child c c hc] at hc
  cases hc

/-- A child of somebody else. -/
theorem child_ne_of (h : Inv σ) (hchild : (σ.task e).child = some c) {e' c' : E} (hne : e' ≠ e)
    (hchild' : (σ.task e').child = some c') : c' ≠ c ∧ e' ≠ c ∧ c' ≠ e := by
  have hgrow := h.child e c hchild
  have hgrow' := h.child e' c' hchild'
  refine ⟨?_, ?_, ?_⟩
  · rintro rfl
    rw [hgrow] at hgrow'
    exact hne (Task.growing.inj hgrow').symm
  · rintro rfl
    rw [hgrow] at hchild'
    cases hchild'
  · rintro rfl
    rw [hgrow'] at hchild
    cases hchild

section

variable [DecidableEq F] [DecidableEq I]

/-- A write to a frame that no copy is made of or into. -/
theorem write (h : Inv σ) (hidle : σ.fill e = none) (hf : σ.entry e v = some (f, true)) (i : I) (o : O) :
    Inv (σ.write f i o) := by
  refine ⟨h.unborn, h.place, h.writable, h.idle, h.temp, h.temp_inj, fun e₁ v₁ g done hfill => ?_, h.child, h.parent,
    h.readOnly⟩
  obtain ⟨f₁, w₁, hf₁, hcopied⟩ := h.copied e₁ v₁ g done hfill
  have hg : g ≠ f := by
    rintro rfl
    exact h.temp e₁ v₁ g done hfill e v true hf
  have hne : f₁ ≠ f := by
    rintro rfl
    rcases (h.sharer hf hf₁).2 with rfl | hchild
    · rw [write_fill, hidle] at hfill
      cases hfill
    · -- a child that is not born makes no copies
      have halive := h.idle e₁ _ hfill
      rw [h.child e e₁ hchild] at halive
      cases halive
  refine ⟨f₁, w₁, hf₁, fun j hj => ?_⟩
  rw [write_page, write_page, if_neg hg, if_neg hne]
  exact hcopied j hj

variable [DecidableEq E]

theorem copy (h : Inv σ) (hfill : σ.fill e = some (v, g, done)) (hf : σ.entry e v = some (f, w)) (i : I) :
    Inv ((σ.write g i (σ.page f i)).setFill e (some (v, g, insert i done))) := by
  have hcopied := h.copied e v g done hfill
  have htemp := h.temp e v g done hfill
  obtain ⟨h₁, h₂, h₃, h₄, h₅, h₆, h₇, h₈, h₉, h₁₀⟩ := h
  constructor
  case copied =>
    intro e₁ v₁ g₁ done₁ hfill₁
    rw [setFill_fill] at hfill₁
    split at hfill₁
    · next he =>
      cases hfill₁
      obtain ⟨f', w', hf', hdone⟩ := hcopied
      rw [hf] at hf'
      cases hf'
      have hne : f ≠ g := fun hc => htemp e v w (hc ▸ hf)
      refine ⟨f, w, by rw [he]; exact hf, fun j hj => ?_⟩
      rw [setFill_page, write_page, write_page, if_pos rfl, if_neg hne, Function.update_apply]
      split
      · next hji => rw [hji]
      · next hji => exact hdone j (hj.resolve_left hji)
    · next he =>
      obtain ⟨f₁, w₁, hf₁, hdone⟩ := h₇ e₁ v₁ g₁ done₁ hfill₁
      have hg : g₁ ≠ g := by
        rintro rfl
        exact he (h₆ e v g₁ done e₁ v₁ done₁ hfill hfill₁)
      have hne : f₁ ≠ g := fun hc => htemp e₁ v₁ w₁ (hc ▸ hf₁)
      refine ⟨f₁, w₁, hf₁, fun j hj => ?_⟩
      rw [setFill_page, write_page, write_page, if_neg hg, if_neg hne]
      exact hdone j hj
  all_goals simp only [setFill_fill, setFill_task, setFill_entry, write_task, write_entry, write_fill]
  all_goals grind

end

variable [DecidableEq E]

theorem fault (h : Inv σ) (halive : (σ.task e).alive = true) (hx : σ.entry e v = some x) (hf : ¬ σ.Used f) :
    Inv (σ.setFill e (some (v, f, ∅))) := by
  have hfree : ∀ e' v' w, σ.entry e' v' ≠ some (f, w) := fun e' v' w hc => hf (Or.inl ⟨e', v', w, hc⟩)
  have hfree' : ∀ e' v' done, σ.fill e' ≠ some (v', f, done) := fun e' v' done hc => hf (Or.inr ⟨e', v', done, hc⟩)
  obtain ⟨h₁, h₂, h₃, h₄, h₅, h₆, h₇, h₈, h₉, h₁₀⟩ := h
  constructor
  all_goals simp only [setFill_fill, setFill_task, setFill_entry, setFill_page]
  all_goals grind

theorem fork (h : Inv σ) (hrun : σ.task e = .running) (hc : σ.task c = .unborn) :
    Inv ((σ.setTask e (.forking c)).setTask c (.growing e)) := by
  obtain ⟨h₁, h₂, h₃, h₄, h₅, h₆, h₇, h₈, h₉, h₁₀⟩ := h
  constructor
  all_goals simp only [setTask_task, setTask_fill, setTask_entry, setTask_page]
  all_goals grind [Task.child, Task.alive]

theorem ready (h : Inv σ) (hfork : σ.task e = .forking c) : Inv ((σ.setTask e .running).setTask c .running) := by
  have hgrow := h.child e c (by rw [hfork]; rfl)
  obtain ⟨h₁, h₂, h₃, h₄, h₅, h₆, h₇, h₈, h₉, h₁₀⟩ := h
  constructor
  all_goals simp only [setTask_task, setTask_fill, setTask_entry, setTask_page]
  all_goals grind [Task.child, Task.alive]

variable [DecidableEq V]

theorem install (h : Inv σ) (hfill : σ.fill e = some (v, g, done)) :
    Inv ((σ.setEntry e v (g, true)).setFill e none) := by
  have halive := h.idle e _ hfill
  obtain ⟨h₁, h₂, h₃, h₄, h₅, h₆, h₇, h₈, h₉, h₁₀⟩ := h
  constructor
  all_goals simp only [setFill_fill, setFill_task, setFill_entry, setFill_page, setEntry_task, setEntry_entry,
    setEntry_fill, setEntry_page]
  all_goals grind [Task.alive]

theorem share (h : Inv σ) (hfork : σ.task e = .forking c) (hf : σ.entry e v = some (f, w))
    (hnone : σ.entry c v = none) : Inv ((σ.setEntry c v (f, false)).setTask e (.sharing c v)) := by
  have hgrow := h.child e c (by rw [hfork]; rfl)
  obtain ⟨h₁, h₂, h₃, h₄, h₅, h₆, h₇, h₈, h₉, h₁₀⟩ := h
  constructor
  all_goals simp only [setTask_task, setTask_fill, setTask_entry, setTask_page, setEntry_task, setEntry_entry,
    setEntry_fill, setEntry_page]
  all_goals grind [Task.child, Task.alive]

theorem shareRead (h : Inv σ) (hfork : σ.task e = .forking c) (hf : σ.entry e v = some (f, false)) :
    Inv (σ.setEntry c v (f, false)) := by
  have hgrow := h.child e c (by rw [hfork]; rfl)
  obtain ⟨h₁, h₂, h₃, h₄, h₅, h₆, h₇, h₈, h₉, h₁₀⟩ := h
  constructor
  all_goals simp only [setEntry_task, setEntry_entry, setEntry_fill, setEntry_page]
  all_goals grind [Task.child, Task.alive]

theorem protect (h : Inv σ) (hidle : σ.fill e = none) (hshare : σ.task e = .sharing c v)
    (hf : σ.entry e v = some (f, w)) : Inv ((σ.setEntry e v (f, false)).setTask e (.forking c)) := by
  have hgrow := h.child e c (by rw [hshare]; rfl)
  obtain ⟨h₁, h₂, h₃, h₄, h₅, h₆, h₇, h₈, h₉, h₁₀⟩ := h
  constructor
  all_goals simp only [setTask_task, setTask_fill, setTask_entry, setTask_page, setEntry_task, setEntry_entry,
    setEntry_fill, setEntry_page]
  all_goals grind [Task.child, Task.alive]

end

end Inv

/-! ## Steps -/

section

variable [DecidableEq E] [DecidableEq V] [DecidableEq F] [DecidableEq I]

/-- One step of one member, with what it shows. -/
inductive Step : State E V F I O → List (Event E V I O) → State E V F I O → Prop
  | load {σ : State E V F I O} {e : E} {v : V} {f : F} {w : Bool} (i : I) : (σ.task e).alive = true →
      σ.entry e v = some (f, w) → Step σ [.load e v i (σ.page f i)] σ
  | store {σ : State E V F I O} {e : E} {v : V} {f : F} (i : I) (o : O) : σ.task e = .running → σ.fill e = none →
      σ.entry e v = some (f, true) → Step σ [.store e v i o] (σ.write f i o)
  | spill {σ : State E V F I O} {e c : E} {v : V} {f : F} (i : I) (o : O) : (σ.task e).child = some c →
      σ.fill e = none → σ.entry e v = some (f, true) → Step σ [.spill e v i o] (σ.write f i o)
  /-- Frames that nobody has may hold anything. -/
  | memory {σ : State E V F I O} {page : F → I → O} : (∀ f, σ.Used f → page f = σ.page f) →
      Step σ [] { σ with page }
  /-- A new frame for page `v`. -/
  | fault {σ : State E V F I O} {e : E} {v : V} {f : F} {x : F × Bool} : (σ.task e).alive = true →
      σ.entry e v = some x → ¬ σ.Used f → Step σ [] (σ.setFill e (some (v, f, ∅)))
  | copy {σ : State E V F I O} {e : E} {v : V} {f g : F} {w : Bool} {done : Set I} (i : I) :
      σ.fill e = some (v, g, done) → σ.entry e v = some (f, w) →
      Step σ [] ((σ.write g i (σ.page f i)).setFill e (some (v, g, insert i done)))
  /-- The copy takes the place of the page. -/
  | install {σ : State E V F I O} {e : E} {v : V} {g : F} {done : Set I} : σ.fill e = some (v, g, done) →
      (∀ i, i ∈ done) → Step σ [] ((σ.setEntry e v (g, true)).setFill e none)
  | fork {σ : State E V F I O} {e c : E} : σ.task e = .running → σ.task c = .unborn →
      Step σ [.fork e c] ((σ.setTask e (.forking c)).setTask c (.growing e))
  | share {σ : State E V F I O} {e c : E} {v : V} {f : F} {w : Bool} : σ.task e = .forking c →
      σ.entry e v = some (f, w) → σ.entry c v = none →
      Step σ [] ((σ.setEntry c v (f, false)).setTask e (.sharing c v))
  /-- A page that cannot be written to needs no protection. -/
  | shareRead {σ : State E V F I O} {e c : E} {v : V} {f : F} : σ.task e = .forking c →
      σ.entry e v = some (f, false) → σ.entry c v = none → Step σ [] (σ.setEntry c v (f, false))
  | protect {σ : State E V F I O} {e c : E} {v : V} {f : F} {w : Bool} : σ.task e = .sharing c v → σ.fill e = none →
      σ.entry e v = some (f, w) → Step σ [] ((σ.setEntry e v (f, false)).setTask e (.forking c))
  /-- The child has got all pages of its parent. -/
  | ready {σ : State E V F I O} {e c : E} : σ.task e = .forking c →
      (∀ v, σ.entry c v = none → σ.entry e v = none) →
      Step σ [.ready e c] ((σ.setTask e .running).setTask c .running)

/-- Runs, with what they show. -/
inductive Run (σ₀ : State E V F I O) : List (Event E V I O) → State E V F I O → Prop
  | start : Run σ₀ [] σ₀
  | step {tr tr' : List (Event E V I O)} {σ σ' : State E V F I O} : Run σ₀ tr σ → Step σ tr' σ' →
      Run σ₀ (tr ++ tr') σ'

theorem Run.trans {σ₀ σ σ' : State E V F I O} {tr tr' : List (Event E V I O)} (h : Run σ₀ tr σ)
    (h' : Run σ tr' σ') : Run σ₀ (tr ++ tr') σ' := by
  induction h' with
  | start =>
    rw [List.append_nil]
    exact h
  | step _ hs ih =>
    rw [← List.append_assoc]
    exact ih.step hs

theorem Inv.step {σ σ' : State E V F I O} {tr : List (Event E V I O)} (h : Inv σ) (hs : Step σ tr σ') : Inv σ' := by
  cases hs with
  | load => exact h
  | store i o _ hidle hf => exact h.write hidle hf i o
  | spill i o _ hidle hf => exact h.write hidle hf i o
  | memory hpage => exact h.memory hpage
  | fault halive hx hf => exact h.fault halive hx hf
  | copy i hfill hf => exact h.copy hfill hf i
  | install hfill => exact h.install hfill
  | fork hrun hc => exact h.fork hrun hc
  | share hfork hf hnone => exact h.share hfork hf hnone
  | shareRead hfork hf => exact h.shareRead hfork hf
  | protect hshare hidle hf => exact h.protect hidle hshare hf
  | ready hfork => exact h.ready hfork

end

/-! ## The eager system -/

section

variable {σ σ' : State E V F I O} {e e' c : E} {v : V} {f g : F} {w : Bool} {done : Set I}

theorem mem_memory {page : F → I → O} (hpage : ∀ f, σ.Used f → page f = σ.page f) :
    State.mem { σ with page } = σ.mem := by
  refine mem_congr (fun _ => rfl) fun e v => ?_
  show (σ.entry e v).map (fun x => page x.1) = (σ.entry e v).map fun x => σ.page x.1
  refine Option.map_congr fun x hx => ?_
  exact hpage x.1 (Or.inl ⟨e, v, x.2, hx⟩)

/-- What a member does matters only for who makes it. -/
theorem mem_setTask [DecidableEq E] {x : Task E V} (hparent : x.parent = (σ.task e).parent) :
    (σ.setTask e x).mem = σ.mem := by
  refine mem_congr (fun e' => ?_) fun _ _ => rfl
  rw [setTask_task]
  split
  · next he => rw [he, hparent]
  · rfl

/-- Another frame that holds the same. -/
theorem mem_setEntry [DecidableEq E] [DecidableEq V] (hf : σ.entry e v = some (f, w)) (hpage : σ.page g = σ.page f)
    (w' : Bool) : (σ.setEntry e v (g, w')).mem = σ.mem := by
  refine mem_congr (fun _ => rfl) fun e' v' => ?_
  rw [setEntry_space]
  split
  · next hev => rw [hev.1, hev.2, space_eq hf, hpage]
  · rfl

theorem settled_congr (he : ∀ v, σ'.entry e v = σ.entry e v) (hc : ∀ v, σ'.entry c v = σ.entry c v) :
    σ'.settled e c = σ.settled e c := by
  simp only [State.settled, he, hc]

/-- Nobody sees the step, but pages of the child of `e` may have been copied. -/
structure Hidden (σ σ' : State E V F I O) (e : E) : Prop where
  mem : σ'.mem = σ.mem
  child : ∀ e', (σ'.task e').child = (σ.task e').child
  others : ∀ e' c, e' ≠ e → (σ.task e').child = some c → σ'.settled e' c = σ.settled e' c
  grows : ∀ c, (σ.task e).child = some c → σ.settled e c ⊆ σ'.settled e c

/-- The frames of all pages are the same. -/
theorem eager_of_entry (hmem : σ'.mem = σ.mem) (htask : σ'.task = σ.task) (hentry : σ'.entry = σ.entry) :
    σ'.eager = σ.eager := by
  refine congrArg₂ Eager.mk hmem (funext fun e => ?_)
  rw [htask]
  have hsettled : ∀ c, σ'.settled e c = σ.settled e c := fun c =>
    settled_congr (fun v => by rw [hentry]) fun v => by rw [hentry]
  exact Option.map_congr fun c _ => by rw [hsettled]

end

section

variable [DecidableEq E] [DecidableEq V]
variable {σ σ' : State E V F I O} {e c x : E} {v : V} {f g : F} {w : Bool}

/-- The entries of a family that another family does not have. -/
theorem settled_setEntry (hne : x ≠ e) (hne' : x ≠ c) (v : V) (y : F × Bool) :
    (σ.setEntry x v y).settled e c = σ.settled e c :=
  settled_congr (fun v' => by rw [setEntry_entry, if_neg fun hc => hne hc.1.symm])
    fun v' => by rw [setEntry_entry, if_neg fun hc => hne' hc.1.symm]

namespace Inv

/-- The child gets a page that it had from its parent anyway. -/
theorem mem_give (h : Inv σ) (hchild : (σ.task e).child = some c) (hf : σ.entry e v = some (f, w))
    (hnone : σ.entry c v = none) (w' : Bool) : (σ.setEntry c v (f, w')).mem = σ.mem := by
  have hgrow := h.child e c hchild
  funext e' v'
  rw [State.mem, State.mem, setEntry_space]
  split
  · next hcv =>
    rw [hcv.1, hcv.2, space_eq_none.mpr hnone, setEntry_task, hgrow]
    show some (σ.page f) = σ.space e v
    rw [space_eq hf]
  · cases hp : (σ.task e').parent with
    | none => rw [setEntry_task, hp]; rfl
    | some p =>
      rw [setEntry_task, hp]
      show (σ.space e' v').or ((σ.setEntry c v (f, w')).space p v') = (σ.space e' v').or (σ.space p v')
      rw [setEntry_space, if_neg]
      rintro ⟨rfl, -⟩
      -- the child has no child of its own
      have hpc := h.parent p e' (Task.eq_growing hp)
      rw [hgrow] at hpc
      cases hpc

/-- The child gets a page. -/
theorem hidden_give (h : Inv σ) {x : Task E V} (hchild : (σ.task e).child = some c) (hx : x.child = some c)
    (hf : σ.entry e v = some (f, w)) (hnone : σ.entry c v = none) :
    Hidden σ ((σ.setEntry c v (f, false)).setTask e x) e := by
  refine ⟨?_, fun e' => ?_, fun e' c' hne hchild' => ?_, fun c' hchild' => ?_⟩
  · rw [mem_setTask, h.mem_give hchild hf hnone]
    rw [setEntry_task, Task.parent_eq_none hx, Task.parent_eq_none hchild]
  · rw [setTask_task, setEntry_task]
    split
    · next he => rw [he, hx, hchild]
    · rfl
  · obtain ⟨hcc, hec, -⟩ := h.child_ne_of hchild hne hchild'
    exact settled_setEntry hec.symm hcc.symm v _
  · obtain rfl := Option.some.inj (hchild.symm.trans hchild')
    rintro v' ⟨g, w', hg, hg'⟩
    have hv : v' ≠ v := by
      rintro rfl
      cases hnone.symm.trans hg
    refine ⟨g, w', ?_, ?_⟩
    · rw [setTask_entry, setEntry_entry, if_neg fun hc => hv hc.2, hg]
    · rwa [setTask_entry, setEntry_entry, if_neg fun hc => hv hc.2]

/-- A member gets another frame for a page, or another permission. -/
theorem hidden_own (h : Inv σ) (hparent : (σ.task e).parent = none) (hf : σ.entry e v = some (f, w))
    (hpage : σ.page g = σ.page f) {b : Bool} (hsettled : ∀ c w, (σ.task e).child = some c →
      σ.entry c v = some (g, w) → b = false) : Hidden σ (σ.setEntry e v (g, b)) e := by
  refine ⟨mem_setEntry hf hpage b, fun _ => rfl, fun e' c' hne hchild' => ?_, fun c hchild => ?_⟩
  · have hce : c' ≠ e := by
      rintro rfl
      rw [h.child e' c' hchild'] at hparent
      cases hparent
    exact settled_setEntry hne.symm hce.symm v _
  · have hne := h.child_ne hchild
    rintro v' ⟨f', w'', hf', hne'⟩
    refine ⟨f', w'', ?_, ?_⟩
    · rwa [setEntry_entry, if_neg fun hc => hne hc.1]
    · rw [setEntry_entry]
      split
      · next hc =>
        intro heq
        obtain ⟨rfl, rfl⟩ := Prod.mk.inj (Option.some.inj heq)
        cases hsettled c w'' hchild (hc.2 ▸ hf')
      · exact hne'

end Inv

end

section

variable [DecidableEq E] [DecidableEq V] [DecidableEq I]
variable {σ σ' : State E V F I O} {e : E}

/-- The eager system copies these pages, or does nothing. -/
theorem Hidden.run {m₀ : Eager E V I O} {tr : List (Event E V I O)} (h : Hidden σ σ' e)
    (hr : Eager.Run m₀ tr σ.eager) : Eager.Run m₀ (tr ++ []) σ'.eager := by
  have hothers : ∀ e', e' ≠ e → σ'.eager.child e' = σ.eager.child e' := by
    intro e' hne
    rw [eager_child, eager_child, h.child]
    refine Option.map_congr fun c hc => ?_
    rw [h.others e' c hne hc]
  cases hc : (σ.task e).child with
  | none =>
    have heq : σ'.eager = σ.eager := by
      refine congrArg₂ Eager.mk h.mem (funext fun e' => ?_)
      by_cases he : e' = e
      · show σ'.eager.child e' = σ.eager.child e'
        rw [he, eager_child, eager_child, h.child, hc]
        rfl
      · exact hothers e' he
    rw [heq, List.append_nil]
    exact hr
  | some c =>
    have heq : σ'.eager
        = { σ.eager with child := Function.update σ.eager.child e (some (c, σ'.settled e c)) } := by
      refine congrArg₂ Eager.mk h.mem (funext fun e' => ?_)
      rw [Function.update_apply]
      split
      · next he =>
        show σ'.eager.child e' = _
        rw [he, eager_child, h.child, hc]
        rfl
      · next he => exact hothers e' he
    rw [heq]
    refine hr.step (.copy ?_ (h.grows c hc))
    rw [eager_child, hc]
    rfl

end

section

variable [DecidableEq F] [DecidableEq I]
variable {σ σ' : State E V F I O} {e c : E} {v : V} {f g : F} {w : Bool} {done : Set I} {i : I} {o : O}

/-- A write to a frame that is not mapped. -/
theorem mem_write_of_unmapped (hne : ∀ e v w, σ.entry e v ≠ some (f, w)) (i : I) (o : O) :
    (σ.write f i o).mem = σ.mem := mem_congr (fun _ => rfl) fun e v => write_space_of_ne i o (hne e v)

namespace Inv

/-- A write that a member makes is seen by nobody but itself and the child that it is making. -/
theorem write_mem_of_ne (h : Inv σ) (hf : σ.entry e v = some (f, true)) {e' : E} {v' : V}
    (hne : ¬ (v' = v ∧ (e' = e ∨ (σ.task e).child = some e'))) :
    (σ.write f i o).mem e' v' = σ.mem e' v' := by
  have hown : (σ.write f i o).space e' v' = σ.space e' v' :=
    write_space_of_ne i o fun w hw => hne (h.sharer hf hw)
  have hparent : ((σ.task e').parent.bind fun p => (σ.write f i o).space p v')
      = (σ.task e').parent.bind fun p => σ.space p v' := by
    cases hp : (σ.task e').parent with
    | none => rfl
    | some p =>
      refine write_space_of_ne i o fun w hw => ?_
      obtain ⟨hv, hpe⟩ := h.sharer hf hw
      have hchild := h.parent p e' (Task.eq_growing hp)
      rcases hpe with rfl | hpe
      · exact hne ⟨hv, Or.inr hchild⟩
      · -- the child of `e` has no child of its own
        rw [h.child e p hpe] at hchild
        cases hchild
  rw [State.mem, State.mem, hown]
  exact congrArg _ hparent

/-- The page itself. -/
theorem write_mem_self (hparent : (σ.task e).parent = none) (hf : σ.entry e v = some (f, w)) :
    (σ.write f i o).mem e v = (σ.mem e v).map fun p => Function.update p i o := by
  have hparent' : ((σ.write f i o).task e).parent = none := hparent
  rw [mem_of_no_parent hparent, mem_of_no_parent hparent', write_space i o hf]

/-- The child sees what its parent writes to a page that has not been copied. -/
theorem write_mem_child (h : Inv σ) (hchild : (σ.task e).child = some c) (hf : σ.entry e v = some (f, true)) :
    (v ∈ σ.settled e c ∧ (σ.write f i o).mem c v = σ.mem c v) ∨
      (v ∉ σ.settled e c ∧ (σ.write f i o).mem c v = (σ.mem c v).map fun p => Function.update p i o) := by
  have hparent : (σ.task c).parent = some e := by
    rw [h.child e c hchild]
    rfl
  have hparent' : ((σ.write f i o).task c).parent = some e := hparent
  rw [mem_of_parent hparent, mem_of_parent hparent', write_space i o hf]
  cases hc : σ.entry c v with
  | none =>
    have hc' : (σ.write f i o).entry c v = none := hc
    rw [space_eq_none.mpr hc, space_eq_none.mpr hc']
    refine Or.inr ⟨?_, rfl⟩
    rintro ⟨g, w', hg, -⟩
    cases hc.symm.trans hg
  | some x =>
    obtain ⟨g, w'⟩ := x
    by_cases hg : g = f
    · subst hg
      rw [write_space i o hc, space_eq hc]
      refine Or.inr ⟨?_, rfl⟩
      rintro ⟨g', w'', hg', hne⟩
      obtain ⟨rfl, -⟩ := Prod.mk.inj (Option.some.inj (hc.symm.trans hg'))
      exact hne hf
    · have hne : σ.entry e v ≠ some (g, true) := fun hg' =>
        hg (Prod.mk.inj (Option.some.inj (hg'.symm.trans hf))).1
      rw [write_space_of_ne i o fun w'' hw'' => hg (Prod.mk.inj (Option.some.inj (hc.symm.trans hw''))).1,
        space_eq hc]
      exact Or.inl ⟨⟨g, w', hc, hne⟩, rfl⟩

end Inv

end

section

variable [DecidableEq E] [DecidableEq V] [DecidableEq F] [DecidableEq I]
variable {σ : State E V F I O} {e c : E} {v : V} {f : F} {i : I} {o : O}

namespace Inv

/-- A write that no child sees. -/
theorem eager_write (h : Inv σ) (hparent : (σ.task e).parent = none) (hf : σ.entry e v = some (f, true))
    (hchild : ∀ c, (σ.task e).child = some c → (σ.write f i o).mem c v = σ.mem c v) :
    (σ.write f i o).eager = σ.eager.write e v i o := by
  have hmem : (σ.write f i o).mem = (σ.eager.write e v i o).mem := by
    funext e' v'
    rw [Eager.write_mem]
    split
    · next hev =>
      rw [hev.1, hev.2]
      exact write_mem_self hparent hf
    · next hev =>
      by_cases hc : v' = v ∧ (σ.task e).child = some e'
      · rw [hc.1]
        exact hchild e' hc.2
      · refine h.write_mem_of_ne hf fun hne => ?_
        rcases hne with ⟨hv, he | he⟩
        · exact hev ⟨he, hv⟩
        · exact hc ⟨hv, he⟩
  rw [State.eager, hmem]
  rfl

/-- A write that the child sees too. -/
theorem eager_writeBoth (h : Inv σ) (hchild : (σ.task e).child = some c) (hf : σ.entry e v = some (f, true))
    (hc : (σ.write f i o).mem c v = (σ.mem c v).map fun p => Function.update p i o) :
    (σ.write f i o).eager = (σ.eager.write e v i o).write c v i o := by
  have hne := h.child_ne hchild
  have hmem : (σ.write f i o).mem = ((σ.eager.write e v i o).write c v i o).mem := by
    funext e' v'
    rw [Eager.write_mem]
    split
    · next hcv =>
      rw [hcv.1, hcv.2, hc, Eager.write_mem, if_neg fun hc => hne hc.1]
      rfl
    · next hcv =>
      rw [Eager.write_mem]
      split
      · next hev =>
        rw [hev.1, hev.2]
        exact write_mem_self (Task.parent_eq_none hchild) hf
      · next hev =>
        refine h.write_mem_of_ne hf fun hne' => ?_
        rcases hne' with ⟨hv, he | he⟩
        · exact hev ⟨he, hv⟩
        · exact hcv ⟨Option.some.inj (he.symm.trans hchild), hv⟩
  rw [State.eager, hmem]
  rfl

end Inv

end

section

variable [DecidableEq E] {σ : State E V F I O} {e c : E}

namespace Inv

/-- The child starts with the contents of its parent. -/
theorem eager_fork (h : Inv σ) (hrun : σ.task e = .running) (hc : σ.task c = .unborn) :
    ((σ.setTask e (.forking c)).setTask c (.growing e)).eager
      = { mem := Function.update σ.mem c (σ.mem e), child := Function.update σ.eager.child e (some (c, ∅)) } := by
  have hne : c ≠ e := by
    rintro rfl
    rw [hrun] at hc
    cases hc
  have hempty : σ.settled e c = ∅ := by
    refine Set.eq_empty_of_forall_notMem fun v => ?_
    rintro ⟨f, w, hf, -⟩
    rw [h.unborn c v hc] at hf
    cases hf
  have hmem : ((σ.setTask e (.forking c)).setTask c (.growing e)).mem = Function.update σ.mem c (σ.mem e) := by
    funext e' v'
    rw [Function.update_apply, State.mem, setTask_task, setTask_space, setTask_space]
    split
    · next he =>
      rw [he, space_eq_none.mpr (h.unborn c v' hc), mem_of_no_parent (by rw [hrun]; rfl)]
      rfl
    · rw [setTask_task]
      split
      · next he =>
        rw [he, mem_of_no_parent (by rw [hrun]; rfl)]
        exact Option.or_none
      · rfl
  refine congrArg₂ Eager.mk hmem (funext fun e' => ?_)
  show ((σ.setTask e (.forking c)).setTask c (.growing e)).eager.child e' = _
  rw [eager_child, setTask_task, Function.update_apply]
  split
  · next he =>
    rw [he, if_neg hne, eager_child, hc]
    rfl
  · rw [setTask_task]
    split
    · next he =>
      rw [he]
      show some (c, σ.settled e c) = _
      rw [hempty]
    · rfl

/-- A child that has got all pages of its parent needs it no longer. -/
theorem eager_ready (h : Inv σ) (hfork : σ.task e = .forking c)
    (hall : ∀ v, σ.entry c v = none → σ.entry e v = none) :
    ((σ.setTask e .running).setTask c .running).eager
      = { σ.eager with child := Function.update σ.eager.child e none } := by
  have hgrow := h.child e c (by rw [hfork]; rfl)
  have hmem : ((σ.setTask e .running).setTask c .running).mem = σ.mem := by
    funext e' v'
    rw [State.mem, setTask_task, setTask_space, setTask_space]
    split
    · next he =>
      rw [he, mem_of_parent (by rw [hgrow]; rfl)]
      cases hc : σ.entry c v' with
      | none => rw [space_eq_none.mpr hc, space_eq_none.mpr (hall v' hc)]; rfl
      | some x => rw [space_eq (w := x.2) hc]; rfl
    · rw [setTask_task]
      split
      · next he =>
        rw [he, mem_of_no_parent (by rw [hfork]; rfl)]
        exact Option.or_none
      · rfl
  refine congrArg₂ Eager.mk hmem (funext fun e' => ?_)
  show ((σ.setTask e .running).setTask c .running).eager.child e' = _
  rw [eager_child, setTask_task, Function.update_apply]
  split
  · next he =>
    rw [he, eager_child, hgrow]
    split
    · rfl
    · rfl
  · rw [setTask_task]
    split
    · rfl
    · rfl

end Inv

end

section

variable [DecidableEq E] [DecidableEq V] [DecidableEq F] [DecidableEq I]
variable {σ σ' : State E V F I O}

/-- The eager system makes the visible steps too; of the others it sees at most that pages of a child are copied. -/
theorem Inv.eager {m₀ : Eager E V I O} {tr tr₀ : List (Event E V I O)} (h : Inv σ) (hs : Step σ tr σ')
    (hr : Eager.Run m₀ tr₀ σ.eager) : Eager.Run m₀ (tr₀ ++ tr) σ'.eager := by
  have hmapped : ∀ {e v f w}, σ.entry e v = some (f, w) → σ.eager.mem e v ≠ none := by
    intro e v f w hf hc
    cases (mem_eq hf).symm.trans hc
  have hnone : ∀ {e}, (σ.task e).child = none → σ.eager.child e = none := by
    intro e hc
    rw [eager_child, hc]
    rfl
  have hsome : ∀ {e c}, (σ.task e).child = some c → σ.eager.child e = some (c, σ.settled e c) := by
    intro e c hc
    rw [eager_child, hc]
    rfl
  have hsilent : σ'.eager = σ.eager → Eager.Run m₀ (tr₀ ++ []) σ'.eager := by
    intro heq
    rw [heq, List.append_nil]
    exact hr
  cases hs with
  | load i halive hf => exact hr.step (.load i (mem_eq hf))
  | @store e v f i o hrun hidle hf =>
    have hchild : (σ.task e).child = none := by
      rw [hrun]
      rfl
    rw [h.eager_write (by rw [hrun]; rfl) hf fun c hc => ?_]
    · exact hr.step (.store i o (hnone hchild) (hmapped hf))
    · cases hc.symm.trans hchild
  | @spill e c v f i o hchild hidle hf =>
    rcases h.write_mem_child hchild hf (i := i) (o := o) with ⟨hmem, hc⟩ | ⟨hmem, hc⟩
    · rw [h.eager_write (Task.parent_eq_none hchild) hf fun c' hc' => ?_]
      · exact hr.step (.spill i o (hsome hchild) hmem (hmapped hf))
      · rw [← Option.some.inj (hchild.symm.trans hc')]
        exact hc
    · rw [h.eager_writeBoth hchild hf hc]
      exact hr.step (.spillBoth i o (hsome hchild) hmem (hmapped hf))
  | memory hpage => exact hsilent (eager_of_entry (mem_memory hpage) rfl rfl)
  | fault => exact hsilent (eager_of_entry rfl rfl rfl)
  | copy i hfill hf =>
    exact hsilent (eager_of_entry (mem_write_of_unmapped (h.temp _ _ _ _ hfill) i _) rfl rfl)
  | @install e v g done hfill hall =>
    obtain ⟨f, w, hf, hcopied⟩ := h.copied _ _ _ _ hfill
    have hpage : σ.page g = σ.page f := funext fun i => hcopied i (hall i)
    have hown := h.hidden_own (Task.parent_eq_none_of_alive (h.idle _ _ hfill)) hf hpage (b := true)
      fun c w hc hg => absurd hg (h.temp _ _ _ _ hfill c v w)
    exact (⟨hown.mem, hown.child, hown.others, hown.grows⟩ : Hidden σ _ e).run hr
  | @fork e c hrun hc =>
    rw [h.eager_fork hrun hc]
    refine hr.step (.fork (hnone (by rw [hrun]; rfl)) fun v => ?_)
    show σ.mem c v = none
    rw [mem_of_no_parent (by rw [hc]; rfl), space_eq_none.mpr (h.unborn c v hc)]
  | share hfork hf hnone => exact (h.hidden_give (by rw [hfork]; rfl) rfl hf hnone).run hr
  | @shareRead e c v f hfork hf hnone =>
    have hchild : (σ.task e).child = some c := by
      rw [hfork]
      rfl
    have hgive := h.hidden_give hchild hchild hf hnone
    rw [← setEntry_task (σ := σ) (e := c) (v := v) (x := (f, false)), setTask_self] at hgive
    exact hgive.run hr
  | @protect e c v f w hshare hidle hf =>
    have hchild : (σ.task e).child = some c := by
      rw [hshare]
      rfl
    have hown := h.hidden_own (Task.parent_eq_none hchild) hf rfl (b := false) fun _ _ _ _ => rfl
    have hmem : ((σ.setEntry e v (f, false)).setTask e (.forking c)).mem = (σ.setEntry e v (f, false)).mem :=
      mem_setTask (by rw [setEntry_task, hshare]; rfl)
    refine (⟨hmem.trans hown.mem, fun e' => ?_, hown.others, hown.grows⟩ : Hidden σ _ e).run hr
    rw [setTask_task, setEntry_task]
    split
    · next he =>
      rw [he, hchild]
      rfl
    · rfl
  | @ready e c hfork hall =>
    rw [h.eager_ready hfork hall]
    exact hr.step (.ready (hsome (by rw [hfork]; rfl)))

/-- Every run shows what a run of the eager system shows. -/
theorem Run.eager {σ₀ : State E V F I O} {tr : List (Event E V I O)} (h : Inv σ₀) (hr : Run σ₀ tr σ) :
    Inv σ ∧ Eager.Run σ₀.eager tr σ.eager := by
  induction hr with
  | start => exact ⟨h, .start⟩
  | step _ hs ih => exact ⟨ih.1.step hs, ih.1.eager hs ih.2⟩

end

end Cow
