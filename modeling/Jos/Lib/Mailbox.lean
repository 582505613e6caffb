import Mathlib.Data.List.Infix
import Mathlib.Logic.Function.Basic

/-!
# A mailbox with room for one message

Any number of senders put messages into a box, one at a time, while a receiver waits for one; the receiver then
takes it out. A sender is with one message at a time: it tries until the box has accepted the message and then
returns. `Step` are the steps of all parties in any order. In every state they lead to, each sender's messages
have been accepted in the order of its calls, those whose send has returned among them (`Inv.order`), and all that
was accepted has been received, except for the message in the box (`Inv.box`).
-/

namespace Mailbox

variable {S V : Type*}

/-- Where a sender is. -/
inductive Sending (V : Type*)
  | idle
  | trying (v : V)
  | accepted (v : V)

/-- The message that is still to be accepted. -/
def Sending.pending : Sending V → List V
  | .trying v => [v]
  | _ => []

/-- The message that has been accepted by a send that has not returned. -/
def Sending.taken : Sending V → List V
  | .accepted v => [v]
  | _ => []

/-- The parties and the history: for each sender the messages it was called with and those whose send has
returned, and all messages that were accepted and received. -/
@[ext]
structure State (S V : Type*) where
  sending : S → Sending V
  waiting : Bool
  slot : Option (S × V)
  calls : S → List V
  returned : S → List V
  accepted : List (S × V)
  received : List (S × V)

variable [DecidableEq S]

/-- The messages of one sender. -/
def of (s : S) (l : List (S × V)) : List V := (l.filter fun m => m.1 = s).map Prod.snd

/-- One step of one party. -/
inductive Step : State S V → State S V → Prop
  /-- A sender is called with a message. -/
  | call {σ : State S V} {s : S} (v : V) : σ.sending s = .idle →
      Step σ { σ with sending := Function.update σ.sending s (.trying v)
                      calls := Function.update σ.calls s (σ.calls s ++ [v]) }
  /-- The receiver begins to wait. -/
  | wait {σ : State S V} : σ.slot = none → Step σ { σ with waiting := true }
  /-- The box accepts a message. -/
  | accept {σ : State S V} {s : S} {v : V} : σ.sending s = .trying v → σ.waiting = true →
      Step σ { σ with sending := Function.update σ.sending s (.accepted v)
                      waiting := false
                      slot := some (s, v)
                      accepted := σ.accepted ++ [(s, v)] }
  /-- The send returns. -/
  | ret {σ : State S V} {s : S} {v : V} : σ.sending s = .accepted v →
      Step σ { σ with sending := Function.update σ.sending s .idle
                      returned := Function.update σ.returned s (σ.returned s ++ [v]) }
  /-- The receiver takes the message. -/
  | receive {σ : State S V} {m : S × V} : σ.slot = some m → σ.waiting = false →
      Step σ { σ with slot := none, received := σ.received ++ [m] }

theorem Step.congr {σ τ τ' : State S V} (h : Step σ τ) (heq : τ' = τ) : Step σ τ' := heq ▸ h

/-- No message is lost, duplicated or overtaken. -/
structure Inv (σ : State S V) : Prop where
  box : σ.accepted = σ.received ++ σ.slot.toList
  empty : σ.waiting = true → σ.slot = none
  taken : ∀ s, of s σ.accepted = σ.returned s ++ (σ.sending s).taken
  order : ∀ s, σ.calls s = of s σ.accepted ++ (σ.sending s).pending

theorem of_append (s : S) (l l' : List (S × V)) : of s (l ++ l') = of s l ++ of s l' := by
  simp [of]

theorem of_self (s : S) (v : V) : of s [(s, v)] = [v] := by
  simp [of]

theorem of_other {s t : S} (h : t ≠ s) (v : V) : of s [(t, v)] = [] := by
  simp [of, h]

/-- Everyone is idle and nothing has happened. -/
def start : State S V where
  sending _ := .idle
  waiting := false
  slot := none
  calls _ := []
  returned _ := []
  accepted := []
  received := []

theorem inv_start : Inv (start : State S V) := ⟨rfl, fun _ => rfl, fun _ => rfl, fun _ => rfl⟩

theorem Inv.step {σ σ' : State S V} (h : Inv σ) (hs : Step σ σ') : Inv σ' := by
  cases hs with
  | @call s v hidle =>
    refine ⟨h.box, h.empty, fun t => ?_, fun t => ?_⟩
    · by_cases ht : t = s
      · subst ht
        simp only [Function.update_self, h.taken t, hidle]
        rfl
      · simp only [Function.update_of_ne ht, h.taken t]
    · by_cases ht : t = s
      · subst ht
        simp only [Function.update_self, h.order t, hidle, Sending.pending, List.append_nil]
      · simp only [Function.update_of_ne ht, h.order t]
  | wait hslot => exact ⟨h.box, fun _ => hslot, h.taken, h.order⟩
  | @accept s v htry hwait =>
    have hbox := h.box
    rw [h.empty hwait, Option.toList_none, List.append_nil] at hbox
    refine ⟨?_, nofun, fun t => ?_, fun t => ?_⟩
    · simp only [hbox, Option.toList_some]
    · simp only [of_append]
      by_cases ht : t = s
      · subst ht
        simp only [Function.update_self, of_self, h.taken t, htry, Sending.taken, List.append_nil]
      · simp only [Function.update_of_ne ht, of_other (Ne.symm ht), h.taken t, List.append_nil]
    · simp only [of_append]
      by_cases ht : t = s
      · subst ht
        simp only [Function.update_self, of_self, h.order t, htry, Sending.pending, List.append_nil]
      · simp only [Function.update_of_ne ht, of_other (Ne.symm ht), h.order t, List.append_nil]
  | @ret s v hacc =>
    refine ⟨h.box, h.empty, fun t => ?_, fun t => ?_⟩
    · by_cases ht : t = s
      · subst ht
        simp only [Function.update_self, h.taken t, hacc, Sending.taken, List.append_nil]
      · simp only [Function.update_of_ne ht, h.taken t]
    · by_cases ht : t = s
      · subst ht
        simp only [Function.update_self, h.order t, hacc, Sending.pending]
      · simp only [Function.update_of_ne ht, h.order t]
  | @receive m hslot hwait =>
    refine ⟨?_, fun hw => ?_, h.taken, h.order⟩
    · simp only [h.box, hslot, Option.toList_some, Option.toList_none, List.append_nil]
    · rfl

end Mailbox
