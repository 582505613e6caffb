import Jos.Lib.Mailbox
import Jos.Lib.Sieve

/-!
# The prime sieve of environments (`user/primes.c`)

A chain of environments: the first one sends all integers from 2 on to its right neighbor. Every other one prints the
first number that it receives, forks a right neighbor, and then sends it those numbers that are no multiples of the
first.

An environment has a mailbox, into which only its left neighbor sends, and `ipc_send` and `ipc_recv` take the steps of
a sender and of the receiver there. Any of the environments may take the next step, and `fork` may fail. The model
goes as far as the integers do not overflow.
-/

namespace Jos

/-- Where the first environment is in `umain`. -/
inductive FeedPoint
  | fork
  /-- At the top of the loop, -/
  | feed (i : Nat)
  /-- and in `ipc_send`. -/
  | feeding (i : Nat)
  | panicked

/-- Where another environment is in `primeproc`. -/
inductive PrimePoint
  | unborn
  /-- In the `ipc_recv` at `top`. -/
  | top
  /-- Before `cprintf`, -/
  | fetched (p : Nat)
  /-- and before `fork`. -/
  | printed (p : Nat)
  /-- In the `ipc_recv` of the loop, -/
  | recv (p : Nat)
  /-- after it, -/
  | recvd (p i : Nat)
  /-- and in `ipc_send`. -/
  | send (p i : Nat)
  | panicked

/-- The mailbox of an environment. -/
abbrev PrimeBox := Mailbox.State Unit Nat

/-- The first environment, the others from left to right with their mailboxes, and what has been printed. -/
structure PrimesState where
  feed : FeedPoint
  point : Nat → PrimePoint
  box : Nat → PrimeBox
  output : List Nat

namespace PrimesState

/-- Before the first `fork`. -/
def start : PrimesState where
  feed := .fork
  point _ := .unborn
  box _ := Mailbox.start
  output := []

def goto (σ : PrimesState) (k : Nat) (p : PrimePoint) : PrimesState := { σ with point := Function.update σ.point k p }

def setBox (σ : PrimesState) (k : Nat) (b : PrimeBox) : PrimesState := { σ with box := Function.update σ.box k b }

/-- The environment is in `ipc_recv`. -/
def Receives (σ : PrimesState) (k : Nat) : Prop := σ.point k = .top ∨ ∃ p, σ.point k = .recv p

end PrimesState

namespace PrimeBox

/-- `ipc_send` is called. -/
def call (b : PrimeBox) (i : Nat) : PrimeBox :=
  { b with sending := Function.update b.sending () (.trying i)
           calls := Function.update b.calls () (b.calls () ++ [i]) }

/-- `sys_ipc_recv`. -/
def wait (b : PrimeBox) : PrimeBox := { b with waiting := true }

/-- `sys_ipc_try_send`, when the receiver waits. -/
def accept (b : PrimeBox) (i : Nat) : PrimeBox :=
  { b with sending := Function.update b.sending () (.accepted i)
           waiting := false
           slot := some ((), i)
           accepted := b.accepted ++ [((), i)] }

/-- `ipc_send` returns. -/
def ret (b : PrimeBox) (i : Nat) : PrimeBox :=
  { b with sending := Function.update b.sending () .idle
           returned := Function.update b.returned () (b.returned () ++ [i]) }

/-- `ipc_recv` returns. -/
def receive (b : PrimeBox) (i : Nat) : PrimeBox := { b with slot := none, received := b.received ++ [((), i)] }

end PrimeBox

open PrimesState PrimeBox

/-- The steps of the environments. -/
inductive PrimesStep : PrimesState → PrimesState → Prop
  /-- `umain`. -/
  | feedFork {σ : PrimesState} : σ.feed = .fork → PrimesStep σ ({ σ with feed := .feed 2 }.goto 0 .top)
  | feedForkFails {σ : PrimesState} : σ.feed = .fork → PrimesStep σ { σ with feed := .panicked }
  | feedSend {σ : PrimesState} {i : Nat} : σ.feed = .feed i → i < 2 ^ 31 →
      PrimesStep σ ({ σ with feed := .feeding i }.setBox 0 (call (σ.box 0) i))
  | feedSent {σ : PrimesState} {i : Nat} : σ.feed = .feeding i → (σ.box 0).sending () = .accepted i →
      PrimesStep σ ({ σ with feed := .feed (i + 1) }.setBox 0 (ret (σ.box 0) i))
  /-- The system calls. -/
  | wait {σ : PrimesState} {k : Nat} : σ.Receives k → (σ.box k).waiting = false → (σ.box k).slot = none →
      PrimesStep σ (σ.setBox k (wait (σ.box k)))
  | accept {σ : PrimesState} {k i : Nat} : (σ.box k).sending () = .trying i → (σ.box k).waiting = true →
      PrimesStep σ (σ.setBox k (accept (σ.box k) i))
  /-- `primeproc`. -/
  | fetched {σ : PrimesState} {k p : Nat} : σ.point k = .top → (σ.box k).slot = some ((), p) →
      (σ.box k).waiting = false → PrimesStep σ ((σ.setBox k (receive (σ.box k) p)).goto k (.fetched p))
  | print {σ : PrimesState} {k p : Nat} : σ.point k = .fetched p →
      PrimesStep σ ({ σ with output := σ.output ++ [p] }.goto k (.printed p))
  | fork {σ : PrimesState} {k p : Nat} : σ.point k = .printed p →
      PrimesStep σ ((σ.goto k (.recv p)).goto (k + 1) .top)
  | forkFails {σ : PrimesState} {k p : Nat} : σ.point k = .printed p → PrimesStep σ (σ.goto k .panicked)
  | recv {σ : PrimesState} {k p i : Nat} : σ.point k = .recv p → (σ.box k).slot = some ((), i) →
      (σ.box k).waiting = false → PrimesStep σ ((σ.setBox k (receive (σ.box k) i)).goto k (.recvd p i))
  | drop {σ : PrimesState} {k p i : Nat} : σ.point k = .recvd p i → i % p = 0 → PrimesStep σ (σ.goto k (.recv p))
  | send {σ : PrimesState} {k p i : Nat} : σ.point k = .recvd p i → i % p ≠ 0 →
      PrimesStep σ ((σ.setBox (k + 1) (call (σ.box (k + 1)) i)).goto k (.send p i))
  | sent {σ : PrimesState} {k p i : Nat} : σ.point k = .send p i → (σ.box (k + 1)).sending () = .accepted i →
      PrimesStep σ ((σ.setBox (k + 1) (ret (σ.box (k + 1)) i)).goto k (.recv p))

/-- The states in runs of the program. -/
inductive PrimesRun : PrimesState → Prop
  | start : PrimesRun PrimesState.start
  | step {σ σ' : PrimesState} : PrimesRun σ → PrimesStep σ σ' → PrimesRun σ'

end Jos
