import Mathlib.Data.List.Basic

/-!
# Processes that may run for ever

Library `Base`. A process is a state with a next turn: it returns, raises, or makes a call and
goes on from a state that the answer picks. A tree of calls ends on every path; a process need not.
Its paths are the calls it makes when the answers are arbitrary, so a condition on the
paths is one on the process alone, whatever it runs beside.
-/

namespace InferenceServer.Base

/-- What a process does next. -/
inductive Turn (C : Type) (R : C → Type) (ε S : Type) where
  | ret
  | raise (e : ε)
  | call (c : C) (k : R c → S)

/-- Where a process stands when it is taken one turn at a time. -/
inductive Task (C : Type) (R : C → Type) (ε S : Type) where
  | ready (s : S)
  /-- the call is made, its answer is not there -/
  | awaiting (c : C) (k : R c → S)
  | ended (outcome : Except ε Unit)

variable {C : Type} {R : C → Type} {ε S S' : Type}

/-- The same turn, up to what is raised: the calls agree and every answer leads to related
states. -/
inductive Turn.Related (E : ε → ε → Prop) (P : S → S' → Prop) :
    Turn C R ε S → Turn C R ε S' → Prop
  | ret : Related E P .ret .ret
  | raise {e e' : ε} (h : E e e') : Related E P (.raise e) (.raise e')
  | call (c : C) {k : R c → S} {k' : R c → S'} (h : ∀ r, P (k r) (k' r)) :
      Related E P (.call c k) (.call c k')

/-- Standing at the same place, up to what is raised. -/
inductive Task.Related (E : ε → ε → Prop) (P : S → S' → Prop) :
    Task C R ε S → Task C R ε S' → Prop
  | ready {s : S} {s' : S'} (h : P s s') : Related E P (.ready s) (.ready s')
  | awaiting (c : C) {k : R c → S} {k' : R c → S'} (h : ∀ r, P (k r) (k' r)) :
      Related E P (.awaiting c k) (.awaiting c k')
  | returned : Related E P (.ended (.ok ())) (.ended (.ok ()))
  | raised {e e' : ε} (h : E e e') : Related E P (.ended (.error e)) (.ended (.error e'))

variable {next : S → Turn C R ε S} {s t : S} {cs : List C} {c : C}

/-- The calls of a process from one state to another, under some answers. -/
inductive Path (next : S → Turn C R ε S) : S → List C → S → Prop
  | nil (s : S) : Path next s [] s
  | snoc {s t : S} {cs : List C} {c : C} {k : R c → S} (h : Path next s cs t)
      (hnext : next t = .call c k) (r : R c) : Path next s (cs ++ [c]) (k r)

/-- On every path from `s` at most one call satisfies `p`. -/
def AtMostOnce (next : S → Turn C R ε S) (p : C → Bool) (s : S) : Prop :=
  ∀ cs t, Path next s cs t → cs.countP p ≤ 1

/-- The task ran the process from `s`, and made the calls `cs`. -/
inductive Task.Ran (next : S → Turn C R ε S) (s : S) : List C → Task C R ε S → Prop
  | ready {cs : List C} {t : S} (h : Path next s cs t) : Ran next s cs (.ready t)
  | awaiting {cs : List C} {t : S} {c : C} {k : R c → S} (h : Path next s cs t)
      (hnext : next t = .call c k) : Ran next s (cs ++ [c]) (.awaiting c k)
  | ended {cs : List C} {t : S} (h : Path next s cs t) (outcome : Except ε Unit) :
      Ran next s cs (.ended outcome)

/-- An answer takes the task on. -/
theorem Task.Ran.answer {k : R c → S} (h : Task.Ran next s cs (.awaiting c k)) (r : R c) :
    Task.Ran next s cs (.ready (k r)) := by
  cases h with
  | awaiting hpath hnext => exact .ready (hpath.snoc hnext r)

/-- The call that is made next is within the bound too. -/
theorem AtMostOnce.countP_le {p : C → Bool} {k : R c → S} (h : AtMostOnce next p s)
    (hpath : Path next s cs t) (hnext : next t = .call c k) (r : R c) :
    cs.countP p + (if p c then 1 else 0) ≤ 1 := by
  have hcount := h (cs ++ [c]) (k r) (hpath.snoc hnext r)
  rw [List.countP_append, List.countP_singleton] at hcount
  exact hcount

end InferenceServer.Base
