import Mathlib.Tactic.Common

namespace XMachine.Lib

/-!
# Library — clients of a server

A client makes one call after the other, each chosen by what the calls before
it returned, and ends with a result.  A server is a state with a function that
says what a call leaves and returns.

* `Client.run`, `Client.calls` — a client served from a state: what it ends
  with, and the calls it makes on the way;
* `run_bind`, `calls_bind` — one client after another;
* `run_feed`, `calls_feed` — one call after another: what is left of a client
  ends as the client itself would have;
* `AllCalls` — what holds of every call, whatever the server returns.
-/

/-- A client with calls in `Q` that return values in `R`, and a result in `α`. -/
inductive Client (Q R : Type) (α : Type) : Type
  | done (a : α)
  | call (q : Q) (k : R → Client Q R α)

namespace Client

variable {Q R α β S : Type}

/-- The result of the first client chooses the second. -/
def bind : Client Q R α → (α → Client Q R β) → Client Q R β
  | done a, f => f a
  | call q k, f => call q fun r => (k r).bind f

instance : Monad (Client Q R) where
  pure := done
  bind := bind

/-- One call, whose result is read off what it returns. -/
def ask (q : Q) (f : R → α) : Client Q R α := call q fun r => done (f r)

/-- The call the client is about to make. -/
def next : Client Q R α → Option Q
  | done _ => none
  | call q _ => some q

theorem done_of_next {c : Client Q R α} (h : c.next = none) : ∃ a, c = done a := by
  cases c with
  | done a => exact ⟨a, rfl⟩
  | call q k => cases h

/-- The client once its call has returned `r`. -/
def feed (r : R) : Client Q R α → Client Q R α
  | done a => done a
  | call _ k => k r

/-- The state the calls leave, and the result. -/
def run (serve : S → Q → S × R) : Client Q R α → S → S × α
  | done a, s => (s, a)
  | call q k, s => (k (serve s q).2).run serve (serve s q).1

/-- The calls made, the first one first. -/
def calls (serve : S → Q → S × R) : Client Q R α → S → List Q
  | done _, _ => []
  | call q k, s => q :: (k (serve s q).2).calls serve (serve s q).1

section Served

variable (serve : S → Q → S × R) (c : Client Q R α) (f : α → Client Q R β) (s : S)

@[simp] theorem run_pure (a : α) : (pure a : Client Q R α).run serve s = (s, a) := rfl

@[simp] theorem calls_pure (a : α) : (pure a : Client Q R α).calls serve s = [] := rfl

@[simp] theorem run_ask (q : Q) (g : R → α) :
    (ask q g).run serve s = ((serve s q).1, g (serve s q).2) := rfl

@[simp] theorem calls_ask (q : Q) (g : R → α) : (ask q g).calls serve s = [q] := rfl

@[simp] theorem run_bind :
    (c >>= f).run serve s = (f (c.run serve s).2).run serve (c.run serve s).1 := by
  induction c generalizing s with
  | done a => rfl
  | call q k ih => exact ih _ _

@[simp] theorem calls_bind : (c >>= f).calls serve s
    = c.calls serve s ++ (f (c.run serve s).2).calls serve (c.run serve s).1 := by
  induction c generalizing s with
  | done a => rfl
  | call q k ih => exact congrArg (q :: ·) (ih _ _)

variable {c}

theorem run_feed {q : Q} (h : c.next = some q) :
    (c.feed (serve s q).2).run serve (serve s q).1 = c.run serve s := by
  cases c with
  | done a => cases h
  | call q' k =>
    obtain rfl : q' = q := Option.some.inj h
    rfl

theorem calls_feed {q : Q} (h : c.next = some q) :
    c.calls serve s = q :: (c.feed (serve s q).2).calls serve (serve s q).1 := by
  cases c with
  | done a => cases h
  | call q' k =>
    obtain rfl : q' = q := Option.some.inj h
    rfl

end Served

/-! ### All calls -/

/-- Whatever its calls return, the client only makes calls that meet `P`. -/
def AllCalls (P : Q → Prop) : Client Q R α → Prop
  | done _ => True
  | call q k => P q ∧ ∀ r, (k r).AllCalls P

section AllCalls

variable {P : Q → Prop} {c : Client Q R α} {f : α → Client Q R β}

@[simp] theorem allCalls_pure (a : α) : (pure a : Client Q R α).AllCalls P := trivial

@[simp] theorem allCalls_bind (hc : c.AllCalls P) (hf : ∀ a, (f a).AllCalls P) :
    (c >>= f).AllCalls P := by
  induction c with
  | done a => exact hf a
  | call q k ih => exact ⟨hc.1, fun r => ih r (hc.2 r)⟩

theorem AllCalls.of_next {q : Q} (hc : c.AllCalls P) (h : c.next = some q) : P q := by
  cases c with
  | done a => cases h
  | call q' k =>
    obtain rfl : q' = q := Option.some.inj h
    exact hc.1

theorem AllCalls.feed (hc : c.AllCalls P) (r : R) : (c.feed r).AllCalls P := by
  cases c with
  | done a => trivial
  | call q k => exact hc.2 r

end AllCalls

end Client

end XMachine.Lib
