import Jos.Console
import Mathlib.Data.List.Infix

/-!
# Console input as a queue

A run is a list of events: an interrupt of one of the devices with the batch it delivers, or a call of `cons_getc`
with the batches it polls. `Session` keeps beside the console what was delivered and what was returned, without the
zeros.

`Backlog` is the invariant. The ring holds the characters that wait, and the accounts are those of a `Ledger`: it
has come around `lost` times with all its characters. `fits` counts how many characters wait in a run, from what the
devices deliver, and as long as it holds nothing is lost.
-/

namespace Jos

/-! ## Runs -/

/-- The nonzero characters that `proc` delivers before it returns -1. -/
def chars {P : Type} (proc : P → Kbd → Int × Kbd) : List P → Kbd → List Int × Kbd
  | [], k => ([], k)
  | p :: ps, k =>
    let (c, k) := proc p k
    if c = -1 then ([], k)
    else if c = 0 then chars proc ps k
    else (c :: (chars proc ps k).1, (chars proc ps k).2)

inductive ConsEvent
  | serialIntr (ps : List SerialPort)
  | kbdIntr (ps : List KbdPort)
  | consGetc (sps : List SerialPort) (kps : List KbdPort)

namespace ConsEvent

/-- The value returned, if it is a call of `cons_getc`, and the console afterwards. -/
def run : ConsEvent → Console → Option Int × Console
  | serialIntr ps, con => (none, Jos.serialIntr ps con)
  | kbdIntr ps, con => (none, Jos.kbdIntr ps con)
  | consGetc sps kps, con => (some (Jos.consGetc sps kps con).1, (Jos.consGetc sps kps con).2)

def serialChars (serialExists : Bool) (ps : List SerialPort) (k : Kbd) : List Int × Kbd :=
  if serialExists then chars (fun p k => (serialProcData p, k)) ps k else ([], k)

/-- The nonzero characters that the devices deliver. -/
def delivers (serialExists : Bool) : ConsEvent → Kbd → List Int × Kbd
  | serialIntr ps, k => serialChars serialExists ps k
  | kbdIntr ps, k => chars kbdProcData ps k
  | consGetc sps kps, k =>
    let (cs, k) := serialChars serialExists sps k
    let (ds, k) := chars kbdProcData kps k
    (cs ++ ds, k)

/-- How many characters it takes out, if there are any. -/
def takes : ConsEvent → Nat
  | serialIntr _ => 0
  | kbdIntr _ => 0
  | consGetc _ _ => 1

end ConsEvent

/-- A console with its history. -/
structure Session where
  console : Console
  delivered : List Int
  returned : List Int
  /-- What the last event returned, if it was a call of `cons_getc`. -/
  answer : Option Int

namespace Session

def start (serialExists : Bool) : Session where
  console := Console.start serialExists
  delivered := []
  returned := []
  answer := none

def step (t : Session) (e : ConsEvent) : Session where
  console := (e.run t.console).2
  delivered := t.delivered ++ (e.delivers t.console.serialExists t.console.kbd).1
  returned := t.returned ++ (e.run t.console).1.toList.filter (· ≠ 0)
  answer := (e.run t.console).1

def run (t : Session) (es : List ConsEvent) : Session := es.foldl step t

/-- What was returned is the first part of what was delivered, and 0 says that this is all of it. -/
def Lossless (t : Session) : Prop :=
  t.returned <+: t.delivered ∧ (t.answer = some 0 → t.returned = t.delivered)

end Session

/-- With `w` characters waiting before them, there is room for all that the events deliver. -/
def fits (serialExists : Bool) : Kbd → Nat → List ConsEvent → Bool
  | _, _, [] => true
  | k, w, e :: es =>
    let (cs, k) := e.delivers serialExists k
    decide (w + cs.length < CONSBUFSIZE) && fits serialExists k (w + cs.length - e.takes) es

/-! ## The device routines -/

/-- A character fits in a byte. -/
def IsChar (c : Int) : Prop := 0 ≤ c ∧ c < 256

instance (c : Int) : Decidable (IsChar c) := inferInstanceAs (Decidable (0 ≤ c ∧ c < 256))

theorem isChar_byte (b : BitVec 8) : IsChar b.toNat := ⟨by omega, by have := b.isLt; omega⟩

/-- What is stored of a character is the character. -/
theorem IsChar.toNat_ofInt {c : Int} (h : IsChar c) : ((BitVec.ofInt 8 c).toNat : Int) = c := by
  obtain ⟨hlo, hhi⟩ := h
  rw [BitVec.toNat_ofInt]
  omega

theorem isChar_capsLetter {c : Int} (h : IsChar c) (shift : BitVec 32) : IsChar (capsLetter shift c) := by
  obtain ⟨hlo, hhi⟩ := h
  unfold capsLetter IsChar
  split_ifs <;> constructor <;> omega

theorem kbdProcData_isChar (p : KbdPort) (k : Kbd) : (kbdProcData p k).1 = -1 ∨ IsChar (kbdProcData p k).1 := by
  have hzero : IsChar 0 := ⟨by omega, by omega⟩
  unfold kbdProcData
  split
  · exact .inl rfl
  split
  · exact .inl rfl
  split
  · exact .inr hzero
  split
  · exact .inr hzero
  · exact .inr (isChar_capsLetter (isChar_byte _) _)

theorem serialProcData_isChar (p : SerialPort) : serialProcData p = -1 ∨ IsChar (serialProcData p) := by
  unfold serialProcData
  split
  · exact .inl rfl
  · exact .inr (isChar_byte _)

section Batch

variable {P : Type} {proc : P → Kbd → Int × Kbd}

theorem chars_cons (p : P) (ps : List P) (k : Kbd) :
    chars proc (p :: ps) k =
      if (proc p k).1 = -1 then ([], (proc p k).2)
      else if (proc p k).1 = 0 then chars proc ps (proc p k).2
      else ((proc p k).1 :: (chars proc ps (proc p k).2).1, (chars proc ps (proc p k).2).2) := rfl

theorem consIntr_cons (p : P) (ps : List P) (con : Console) :
    consIntr proc (p :: ps) con =
      if (proc p con.kbd).1 = -1 then { con with kbd := (proc p con.kbd).2 }
      else if (proc p con.kbd).1 = 0 then consIntr proc ps { con with kbd := (proc p con.kbd).2 }
      else consIntr proc ps
        { con with kbd := (proc p con.kbd).2, cons := con.cons.put (BitVec.ofInt 8 (proc p con.kbd).1) } := rfl

theorem chars_isChar (hproc : ∀ p k, (proc p k).1 = -1 ∨ IsChar (proc p k).1) (ps : List P) (k : Kbd) :
    ∀ c ∈ (chars proc ps k).1, IsChar c ∧ c ≠ 0 := by
  induction ps generalizing k with
  | nil =>
    intro c hc
    nomatch hc
  | cons p ps ih =>
    rw [chars_cons]
    split
    · intro c hc
      nomatch hc
    next hstop =>
      split
      · exact ih _
      next hnz =>
        intro c hc
        rcases List.mem_cons.mp hc with rfl | hc
        · exact ⟨(hproc p k).resolve_left hstop, hnz⟩
        · exact ih _ c hc

/-- `cons_intr` puts the characters of a batch into the ring, one after the other. -/
theorem consIntr_eq (ps : List P) (con : Console) :
    consIntr proc ps con =
      { con with
        kbd := (chars proc ps con.kbd).2
        cons := (chars proc ps con.kbd).1.foldl (fun r c => r.put (BitVec.ofInt 8 c)) con.cons } := by
  induction ps generalizing con with
  | nil => rfl
  | cons p ps ih =>
    rw [consIntr_cons, chars_cons]
    split
    · rfl
    split
    · exact ih _
    · exact ih _

end Batch

/-- All characters that an event delivers can be stored. -/
theorem delivers_isChar (se : Bool) (e : ConsEvent) (k : Kbd) :
    ∀ c ∈ (e.delivers se k).1, IsChar c ∧ c ≠ 0 := by
  have hserial : ∀ ps k, ∀ c ∈ (ConsEvent.serialChars se ps k).1, IsChar c ∧ c ≠ 0 := by
    intro ps k c hc
    unfold ConsEvent.serialChars at hc
    split at hc
    · exact chars_isChar (fun p _ => serialProcData_isChar p) ps k c hc
    · nomatch hc
  cases e with
  | serialIntr ps => exact hserial ps k
  | kbdIntr ps => exact chars_isChar kbdProcData_isChar ps k
  | consGetc sps kps =>
    intro c hc
    rcases List.mem_append.mp hc with hc | hc
    · exact hserial sps k c hc
    · exact chars_isChar kbdProcData_isChar kps _ c hc

/-! ## The backlog -/

/-- The characters `l` wait in the ring, after `p` was delivered and `g` returned. -/
structure Backlog (cons : RingBuffer (BitVec 8) CONSBUFSIZE) (p g l : List Int) (lost : Nat) : Prop where
  holds : cons.Holds (l.map (BitVec.ofInt 8))
  char : ∀ c ∈ l, IsChar c ∧ c ≠ 0
  ledger : Ledger CONSBUFSIZE p g l lost

section Backlog

variable {cons : RingBuffer (BitVec 8) CONSBUFSIZE} {p g l cs : List Int} {c : Int} {lost : Nat}

theorem Backlog.length_lt (h : Backlog cons p g l lost) : l.length < CONSBUFSIZE := by
  simpa using h.holds.length

theorem Backlog.put (h : Backlog cons p g l lost) (hc : IsChar c ∧ c ≠ 0) :
    Backlog (cons.put (BitVec.ofInt 8 c)) (p ++ [c]) g (if l.length + 1 < CONSBUFSIZE then l ++ [c] else [])
      (if l.length + 1 < CONSBUFSIZE then lost else lost + 1) := by
  refine ⟨?_, ?_, h.ledger.put h.length_lt⟩
  · have hput := h.holds.put (a := BitVec.ofInt 8 c)
    rw [List.length_map] at hput
    split
    next hroom =>
      rw [if_pos hroom] at hput
      rw [List.map_append]
      exact hput
    next hfull =>
      rw [if_neg hfull] at hput
      exact hput
  · intro x hx
    split at hx
    · rcases List.mem_append.mp hx with hx | hx
      · exact h.char x hx
      · rw [List.mem_singleton.mp hx]
        exact hc
    · nomatch hx

/-- A batch is lost or not according to the room there is. -/
theorem Backlog.deliver (h : Backlog cons p g l lost) (hcs : ∀ c ∈ cs, IsChar c ∧ c ≠ 0) :
    ∃ l' lost', Backlog (cs.foldl (fun r c => r.put (BitVec.ofInt 8 c)) cons) (p ++ cs) g l' lost' ∧
      (lost' = 0 ↔ lost = 0 ∧ l.length + cs.length < CONSBUFSIZE) ∧
      (lost' = 0 → l'.length = l.length + cs.length) := by
  induction cs generalizing cons p l lost with
  | nil =>
    refine ⟨l, lost, by rw [List.append_nil]; exact h, ?_, fun _ => rfl⟩
    exact ⟨fun h₀ => ⟨h₀, h.length_lt⟩, fun h₀ => h₀.1⟩
  | cons c cs ih =>
    obtain ⟨l', lost', hback, hiff, hlen⟩ :=
      ih (h.put (hcs c (List.mem_cons_self ..))) fun d hd => hcs d (List.mem_cons_of_mem _ hd)
    rw [List.append_assoc, List.singleton_append] at hback
    refine ⟨l', lost', hback, hiff.trans ?_, fun h₀ => (hlen h₀).trans ?_⟩
    · rw [List.length_cons]
      split
      · rw [List.length_append, List.length_singleton]
        omega
      · omega
    · -- nothing was lost, so the character is among those that wait
      have hroom : l.length + 1 < CONSBUFSIZE := by
        have hfirst := (hiff.mp h₀).1
        by_contra hfull
        rw [if_neg hfull] at hfirst
        exact Nat.succ_ne_zero _ hfirst
      rw [if_pos hroom, List.length_append, List.length_singleton, List.length_cons]
      omega

theorem Backlog.get (h : Backlog cons p g (c :: l) lost) :
    ∃ cons', cons.get? = some (BitVec.ofInt 8 c, cons') ∧ Backlog cons' p (g ++ [c]) l lost := by
  obtain ⟨cons', hget, hholds⟩ := RingBuffer.Holds.get?_cons h.holds
  exact ⟨cons', hget, hholds, fun d hd => h.char d (List.mem_cons_of_mem _ hd), h.ledger.get⟩

end Backlog

/-! ## Steps -/

/-- The invariant of a session. -/
structure Session.Inv (t : Session) (l : List Int) (lost : Nat) : Prop where
  backlog : Backlog t.console.cons t.delivered t.returned l lost
  answer : t.answer = some 0 → l = []

namespace Session

variable {t : Session} {l : List Int} {lost : Nat} {e : ConsEvent}

theorem Inv.start (serialExists : Bool) : (Session.start serialExists).Inv [] 0 where
  backlog :=
    { holds := RingBuffer.Holds.empty ..
      char := fun _ hc => nomatch hc
      ledger := ⟨rfl, fun _ => rfl⟩ }
  answer := fun _ => rfl

/-- The console when all that an event delivers has been stored. -/
def polled (t : Session) (e : ConsEvent) : Console :=
  { t.console with
    kbd := (e.delivers t.console.serialExists t.console.kbd).2
    cons := (e.delivers t.console.serialExists t.console.kbd).1.foldl (fun r c => r.put (BitVec.ofInt 8 c))
      t.console.cons }

theorem serialIntr_eq (ps : List SerialPort) (con : Console) :
    serialIntr ps con =
      { con with
        kbd := (ConsEvent.serialChars con.serialExists ps con.kbd).2
        cons := (ConsEvent.serialChars con.serialExists ps con.kbd).1.foldl
          (fun r c => r.put (BitVec.ofInt 8 c)) con.cons } := by
  unfold serialIntr ConsEvent.serialChars
  split
  · exact consIntr_eq ps con
  · rfl

theorem kbdIntr_serialIntr (sps : List SerialPort) (kps : List KbdPort) (t : Session) :
    kbdIntr kps (serialIntr sps t.console) = t.polled (.consGetc sps kps) := by
  rw [kbdIntr, consIntr_eq, serialIntr_eq, polled, ConsEvent.delivers, List.foldl_append]

/-- An event that takes nothing out leaves the console as it is after the delivery. -/
theorem step_console_of_takes (h : e.takes = 0) :
    (t.step e).console = t.polled e ∧ (t.step e).returned = t.returned ∧ (t.step e).answer = none := by
  cases e with
  | serialIntr ps => exact ⟨serialIntr_eq ps t.console, List.append_nil _, rfl⟩
  | kbdIntr ps => exact ⟨consIntr_eq ps t.console, List.append_nil _, rfl⟩
  | consGetc sps kps => nomatch h

theorem consGetc_of_none {sps : List SerialPort} {kps : List KbdPort}
    (h : (t.polled (.consGetc sps kps)).cons.get? = none) :
    consGetc sps kps t.console = (0, t.polled (.consGetc sps kps)) := by
  simp only [consGetc, kbdIntr_serialIntr, h]

theorem consGetc_of_some {sps : List SerialPort} {kps : List KbdPort} {b : BitVec 8}
    {cons : RingBuffer (BitVec 8) CONSBUFSIZE} (h : (t.polled (.consGetc sps kps)).cons.get? = some (b, cons)) :
    consGetc sps kps t.console = ((b.toNat : Int), { t.polled (.consGetc sps kps) with cons := cons }) := by
  simp only [consGetc, kbdIntr_serialIntr, h]

/-- A call of `cons_getc` takes the first of the characters that wait then. -/
theorem Inv.take {sps : List SerialPort} {kps : List KbdPort}
    (h : Backlog (t.polled (.consGetc sps kps)).cons (t.step (.consGetc sps kps)).delivered t.returned l lost) :
    (t.step (.consGetc sps kps)).Inv l.tail lost := by
  have hrun : (ConsEvent.consGetc sps kps).run t.console =
      (some (consGetc sps kps t.console).1, (consGetc sps kps t.console).2) := rfl
  cases l with
  | nil =>
    rw [consGetc_of_none (RingBuffer.Holds.get?_nil h.holds)] at hrun
    have hret : (t.step (.consGetc sps kps)).returned = t.returned := by
      rw [step, hrun]
      exact List.append_nil _
    have hcons : (t.step (.consGetc sps kps)).console = t.polled (.consGetc sps kps) := by rw [step, hrun]
    exact ⟨by rw [hcons, hret]; exact h, fun _ => rfl⟩
  | cons c l =>
    obtain ⟨cons', hget, hback⟩ := h.get
    obtain ⟨hchar, hnz⟩ := h.char c (List.mem_cons_self ..)
    rw [consGetc_of_some hget, hchar.toNat_ofInt] at hrun
    have hret : (t.step (.consGetc sps kps)).returned = t.returned ++ [c] := by
      rw [step, hrun, Option.toList_some, List.filter_singleton]
      simp [hnz]
    have hcons : (t.step (.consGetc sps kps)).console.cons = cons' := by rw [step, hrun]
    refine ⟨by rw [hcons, hret]; exact hback, fun hans => ?_⟩
    rw [step, hrun, Option.some.injEq] at hans
    exact absurd hans hnz

/-- What `delivers` says of an event in this session. -/
def incoming (t : Session) (e : ConsEvent) : List Int := (e.delivers t.console.serialExists t.console.kbd).1

/-- An event loses the characters for which there is no room. -/
theorem Inv.step (h : t.Inv l lost) (e : ConsEvent) :
    ∃ l' lost', (t.step e).Inv l' lost' ∧
      (lost' = 0 ↔ lost = 0 ∧ l.length + (t.incoming e).length < CONSBUFSIZE) ∧
      (lost' = 0 → l'.length = l.length + (t.incoming e).length - e.takes) := by
  obtain ⟨l', lost', hback, hiff, hlen⟩ :=
    h.backlog.deliver (delivers_isChar t.console.serialExists e t.console.kbd)
  have hquiet : e.takes = 0 → (t.step e).Inv l' lost' := by
    intro htakes
    obtain ⟨hcons, hret, hans⟩ := step_console_of_takes (t := t) htakes
    refine ⟨by rw [hcons, hret]; exact hback, fun ha => ?_⟩
    rw [hans] at ha
    nomatch ha
  cases e with
  | serialIntr ps => exact ⟨l', lost', hquiet rfl, hiff, hlen⟩
  | kbdIntr ps => exact ⟨l', lost', hquiet rfl, hiff, hlen⟩
  | consGetc sps kps =>
    refine ⟨l'.tail, lost', Inv.take hback, hiff, fun h₀ => ?_⟩
    rw [List.length_tail, hlen h₀]
    rfl

/-- The devices go on where the delivery has left them. -/
theorem step_devices (t : Session) (e : ConsEvent) :
    (t.step e).console.serialExists = t.console.serialExists ∧
      (t.step e).console.kbd = (e.delivers t.console.serialExists t.console.kbd).2 := by
  cases e with
  | serialIntr ps =>
    have hcons := (step_console_of_takes (t := t) (e := .serialIntr ps) rfl).1
    rw [hcons]
    exact ⟨rfl, rfl⟩
  | kbdIntr ps =>
    have hcons := (step_console_of_takes (t := t) (e := .kbdIntr ps) rfl).1
    rw [hcons]
    exact ⟨rfl, rfl⟩
  | consGetc sps kps =>
    have hrun : (t.step (.consGetc sps kps)).console = (consGetc sps kps t.console).2 := rfl
    rcases hget : (t.polled (.consGetc sps kps)).cons.get? with _ | ⟨b, cons⟩
    · rw [hrun, consGetc_of_none hget]
      exact ⟨rfl, rfl⟩
    · rw [hrun, consGetc_of_some hget]
      exact ⟨rfl, rfl⟩

/-- A whole run loses nothing just when it fits. -/
theorem Inv.run (h : t.Inv l lost) (es : List ConsEvent) :
    ∃ l' lost', (t.run es).Inv l' lost' ∧
      (lost' = 0 ↔ lost = 0 ∧ fits t.console.serialExists t.console.kbd l.length es = true) := by
  induction es generalizing t l lost with
  | nil => exact ⟨l, lost, h, ⟨fun h₀ => ⟨h₀, rfl⟩, fun h₀ => h₀.1⟩⟩
  | cons e es ih =>
    obtain ⟨l₁, lost₁, hinv, hiff, hlen⟩ := h.step e
    obtain ⟨l', lost', hinv', hiff'⟩ := ih hinv
    obtain ⟨hse, hkbd⟩ := step_devices t e
    have hfits : fits t.console.serialExists t.console.kbd l.length (e :: es) =
        (decide (l.length + (t.incoming e).length < CONSBUFSIZE) &&
          fits t.console.serialExists (e.delivers t.console.serialExists t.console.kbd).2
            (l.length + (t.incoming e).length - e.takes) es) := rfl
    refine ⟨l', lost', hinv', hiff'.trans ?_⟩
    rw [hfits, hse, hkbd, Bool.and_eq_true, decide_eq_true_eq, ← and_assoc, ← hiff]
    exact and_congr_right fun h₀ => by rw [hlen h₀]

/-- With nothing lost the session is lossless. -/
theorem Inv.lossless (h : t.Inv l 0) : t.Lossless := by
  refine ⟨h.backlog.ledger.isPrefix, fun hans => ?_⟩
  have hall := h.backlog.ledger.exact rfl
  rw [h.answer hans, List.append_nil] at hall
  exact hall.symm

/-- A call of `cons_getc` that finds nothing new. -/
theorem Inv.polled (h : t.Inv l lost) :
    Backlog (t.polled (.consGetc [] [])).cons (t.step (.consGetc [] [])).delivered t.returned l lost := by
  have hquiet : ConsEvent.serialChars t.console.serialExists [] t.console.kbd = ([], t.console.kbd) := by
    unfold ConsEvent.serialChars
    split <;> rfl
  have hnothing : (ConsEvent.consGetc [] []).delivers t.console.serialExists t.console.kbd =
      ([], t.console.kbd) := by
    rw [ConsEvent.delivers, hquiet]
    rfl
  rw [Session.polled, Session.step, hnothing, List.append_nil]
  exact h.backlog

theorem Inv.drain (h : t.Inv l lost) (k : Nat) :
    (t.run (List.replicate k (.consGetc [] []))).Inv (l.drop k) lost := by
  induction k generalizing t l with
  | zero => exact h
  | succ k ih =>
    rw [← List.drop_tail]
    exact ih (Inv.take h.polled)

/-- When nothing waits any more, the next call returns 0, and it is wrong if something was lost. -/
theorem Inv.not_lossless (h : t.Inv [] lost) (hlost : 0 < lost) : ¬(t.step (.consGetc [] [])).Lossless := by
  intro hall
  have hans : (t.step (.consGetc [] [])).answer = some (consGetc [] [] t.console).1 := rfl
  rw [consGetc_of_none (RingBuffer.Holds.get?_nil h.polled.holds)] at hans
  exact (Inv.take h.polled).backlog.ledger.ne_of_lost (by decide) hlost (hall.2 hans)

end Session

/-! ## Every character, once and in order -/

/-- The session after the events. -/
def session (serialExists : Bool) (es : List ConsEvent) : Session := (Session.start serialExists).run es

theorem fits_of_append {serialExists : Bool} {k : Kbd} {w : Nat} {es es' : List ConsEvent}
    (h : fits serialExists k w (es ++ es') = true) : fits serialExists k w es = true := by
  induction es generalizing k w with
  | nil => rfl
  | cons e es ih =>
    rw [List.cons_append, fits, Bool.and_eq_true] at h
    rw [fits, Bool.and_eq_true]
    exact ⟨h.1, ih h.2⟩

/-- The runs in which the input is a queue, whatever calls of `cons_getc` follow, are those in which fewer than
`CONSBUFSIZE` characters wait at any time. -/
theorem consGetc_lossless_iff (serialExists : Bool) (es : List ConsEvent) :
    (∀ k pre, pre <+: es ++ List.replicate k (.consGetc [] []) → (session serialExists pre).Lossless) ↔
      fits serialExists (Console.start serialExists).kbd 0 es = true := by
  constructor
  · intro h
    by_contra hfull
    obtain ⟨l, lost, hinv, hiff⟩ := (Session.Inv.start serialExists).run es
    have hlost : 0 < lost := Nat.pos_of_ne_zero fun h₀ => hfull (hiff.mp h₀).2
    -- take out what waits, and ask once more
    have hdrain := hinv.drain l.length
    rw [List.drop_length] at hdrain
    refine hdrain.not_lossless hlost ?_
    have hall := h (l.length + 1) _ (List.prefix_refl _)
    rw [List.replicate_succ', ← List.append_assoc, session, Session.run, List.foldl_append, List.foldl_append] at hall
    exact hall
  · intro h k pre hpre
    rcases List.prefix_or_prefix_of_prefix hpre (List.prefix_append es _) with hfirst | ⟨post, rfl⟩
    · obtain ⟨post, rfl⟩ := hfirst
      obtain ⟨l, lost, hinv, hiff⟩ := (Session.Inv.start serialExists).run pre
      have h₀ := hiff.mpr ⟨rfl, fits_of_append h⟩
      rw [h₀] at hinv
      exact hinv.lossless
    · obtain ⟨l, lost, hinv, hiff⟩ := (Session.Inv.start serialExists).run es
      have h₀ := hiff.mpr ⟨rfl, h⟩
      rw [h₀] at hinv
      have hpost := (List.prefix_append_right_inj es).mp hpre
      obtain ⟨j, rfl⟩ : ∃ j, post = List.replicate j (.consGetc [] []) :=
        ⟨post.length, List.eq_replicate_of_mem fun e he => List.eq_of_mem_replicate (hpost.subset he)⟩
      rw [session, Session.run, List.foldl_append]
      exact (hinv.drain j).lossless

/-- The same byte again and again at the serial port. -/
theorem chars_serial_replicate {p : SerialPort} {c : Int} (hp : serialProcData p = c) (hc : IsChar c ∧ c ≠ 0)
    (m : Nat) (k : Kbd) :
    chars (fun p k => (serialProcData p, k)) (List.replicate m p) k = (List.replicate m c, k) := by
  obtain ⟨⟨hlo, -⟩, hnz⟩ := hc
  induction m with
  | zero => rfl
  | succ m ih =>
    rw [List.replicate_succ, chars_cons, ih, hp, if_neg (by omega), if_neg hnz, ← List.replicate_succ]

/-- `CONSBUFSIZE` characters arrive before the first call, which returns 0. -/
theorem consGetc_loses :
    ¬(session true [.serialIntr (List.replicate CONSBUFSIZE ⟨0x61#8, 0x61#8⟩), .consGetc [] []]).Lossless := by
  obtain ⟨p, hp⟩ : ∃ p : SerialPort, p = ⟨0x61#8, 0x61#8⟩ := ⟨_, rfl⟩
  have hin : (Session.start true).incoming (.serialIntr (List.replicate CONSBUFSIZE p)) =
      List.replicate CONSBUFSIZE 97 :=
    congrArg Prod.fst (chars_serial_replicate (by rw [hp]; rfl) (by decide) CONSBUFSIZE _)
  obtain ⟨l, lost, hinv, hiff, -⟩ := (Session.Inv.start true).step (.serialIntr (List.replicate CONSBUFSIZE p))
  rw [hin, List.length_replicate] at hiff
  have hlost : lost ≠ 0 := fun h₀ => Nat.lt_irrefl _ (hiff.mp h₀).2
  -- the ring has come around with all of them
  have hdeliv : (Session.step (Session.start true) (.serialIntr (List.replicate CONSBUFSIZE p))).delivered =
      List.replicate CONSBUFSIZE 97 := hin
  have hcount := hinv.backlog.ledger.count
  rw [hdeliv, List.length_replicate] at hcount
  have hround := Nat.le_mul_of_pos_right CONSBUFSIZE (Nat.pos_of_ne_zero hlost)
  have hnil : l = [] := List.eq_nil_of_length_eq_zero (by omega)
  rw [hnil] at hinv
  rw [← hp]
  exact hinv.not_lossless (Nat.pos_of_ne_zero hlost)

end Jos
