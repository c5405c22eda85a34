import Mathlib.Data.List.Basic

/-!
# Programs as trees of calls

Library `Base`. A program returns, raises, or makes a call and goes on with the answer. One tree
serves several readings: run to its end by a handler that answers the calls, or taken one call
at a time beside other programs. `Keeps` compares a program with a protocol, an automaton over
its calls; it is proved along the program's shape and holds in every reading.
-/

namespace InferenceServer.Base

/-- A program over calls `C` with answers `R`, which returns an `α` or raises an `ε`. -/
inductive Prog (C : Type) (R : C → Type) (ε α : Type) where
  | ret (a : α)
  | raise (e : ε)
  | call (c : C) (k : R c → Prog C R ε α)

namespace Prog

variable {C : Type} {R : C → Type} {ε ε' α β : Type}

/-- Goes on with `f` after a return and with `g` after a raise. -/
def handle : Prog C R ε α → (α → Prog C R ε' β) → (ε → Prog C R ε' β) → Prog C R ε' β
  | .ret a, f, _ => f a
  | .raise e, _, g => g e
  | .call c k, f, g => .call c fun r ↦ (k r).handle f g

instance : Monad (Prog C R ε) where
  pure := .ret
  bind x f := x.handle f .raise

/-- `try x except`. -/
def tryExcept (x : Prog C R ε α) (g : ε → Prog C R ε α) : Prog C R ε α := x.handle .ret g

/-- `try x finally f`: what `f` raises replaces what `x` raised. -/
def tryFinally (x : Prog C R ε α) (f : Prog C R ε Unit) : Prog C R ε α :=
  x.handle (fun a ↦ f.handle (fun _ ↦ .ret a) .raise) (fun e ↦ f.handle (fun _ ↦ .raise e) .raise)

/-- A statement under a condition. -/
def runIf (c : Prop) [Decidable c] (x : Prog C R ε Unit) : Prog C R ε Unit :=
  if c then x else .ret ()

/-! ### Running to the end -/

variable {σ : Type}

/-- The result of a program whose calls are answered by `answer`, and the state it leaves. -/
def exec (answer : σ → (c : C) → R c × σ) : Prog C R ε α → σ → Except ε α × σ
  | .ret a, s => (.ok a, s)
  | .raise e, s => (.error e, s)
  | .call c k, s => (k (answer s c).1).exec answer (answer s c).2

variable {answer : σ → (c : C) → R c × σ}

/-- A handled program runs its first part and then the continuation of its outcome. -/
theorem exec_handle (x : Prog C R ε α) (f : α → Prog C R ε' β) (g : ε → Prog C R ε' β) (s : σ) :
    (x.handle f g).exec answer s =
      match x.exec answer s with
      | (.ok a, t) => (f a).exec answer t
      | (.error e, t) => (g e).exec answer t := by
  induction x generalizing s with
  | ret a => rfl
  | raise e => rfl
  | call c k ih => exact ih _ _

theorem exec_bind (x : Prog C R ε α) (f : α → Prog C R ε β) (s : σ) :
    (x >>= f).exec answer s =
      match x.exec answer s with
      | (.ok a, t) => (f a).exec answer t
      | (.error e, t) => (.error e, t) :=
  exec_handle x f .raise s

/-- After a return the sequence is its continuation. -/
theorem exec_bind_ok {x : Prog C R ε α} {f : α → Prog C R ε β} {s t : σ} {a : α}
    (h : x.exec answer s = (.ok a, t)) : (x >>= f).exec answer s = (f a).exec answer t := by
  rw [exec_bind, h]

/-- A raise ends the sequence. -/
theorem exec_bind_error {x : Prog C R ε α} {f : α → Prog C R ε β} {s t : σ} {e : ε}
    (h : x.exec answer s = (.error e, t)) : (x >>= f).exec answer s = (.error e, t) := by
  rw [exec_bind, h]

/-- An outcome stands when the `finally` block returns. -/
theorem exec_tryFinally {x : Prog C R ε α} {f : Prog C R ε Unit} {s t u : σ} {r : Except ε α}
    (hx : x.exec answer s = (r, t)) (hf : f.exec answer t = (.ok (), u)) :
    (x.tryFinally f).exec answer s = (r, u) := by
  rw [tryFinally, exec_handle, hx]
  cases r with
  | ok a =>
    change (f.handle (fun _ ↦ .ret a) .raise).exec answer t = _
    rw [exec_handle, hf]
    rfl
  | error e =>
    change (f.handle (fun _ ↦ .raise e) .raise).exec answer t = _
    rw [exec_handle, hf]
    rfl

/-! ### Keeping to a protocol -/

/-- An automaton over calls: which of them may be made in a mode, and where an answer leads. -/
structure Protocol (C : Type) (R : C → Type) (M : Type) where
  allowed : M → C → Prop
  next : M → (c : C) → R c → M

variable {M : Type} {proto : Protocol C R M} {Q : α → M → Prop} {E : ε → M → Prop}
  {Q' : β → M → Prop} {E' : ε' → M → Prop}

/-- From the mode `m` the program makes only allowed calls, whatever they answer; it returns in
a mode of `Q` and raises in a mode of `E`. -/
def Keeps (proto : Protocol C R M) (Q : α → M → Prop) (E : ε → M → Prop) : Prog C R ε α → M → Prop
  | .ret a, m => Q a m
  | .raise e, m => E e m
  | .call c k, m => proto.allowed m c ∧ ∀ r, (k r).Keeps proto Q E (proto.next m c r)

/-- The continuations start in the modes where the first part ends. -/
theorem Keeps.handle {x : Prog C R ε α} {f : α → Prog C R ε' β} {g : ε → Prog C R ε' β} {m : M}
    (hx : x.Keeps proto Q E m) (hf : ∀ a m, Q a m → (f a).Keeps proto Q' E' m)
    (hg : ∀ e m, E e m → (g e).Keeps proto Q' E' m) : (x.handle f g).Keeps proto Q' E' m := by
  induction x generalizing m with
  | ret a => exact hf a m hx
  | raise e => exact hg e m hx
  | call c k ih => exact ⟨hx.1, fun r ↦ ih r (hx.2 r)⟩

/-- Sequencing. -/
theorem Keeps.bind {x : Prog C R ε α} {f : α → Prog C R ε β} {E : ε → M → Prop} {m : M}
    (hx : x.Keeps proto Q E m) (hf : ∀ a m, Q a m → (f a).Keeps proto Q' E m) :
    (x >>= f).Keeps proto Q' E m :=
  hx.handle hf fun _ _ he ↦ he

/-- The `finally` block starts wherever the body ends, and the outcome stands when it returns. -/
theorem Keeps.tryFinally {x : Prog C R ε α} {f : Prog C R ε Unit} {Q' : α → M → Prop}
    {E' : ε → M → Prop} {m : M} (hx : x.Keeps proto Q E m)
    (hret : ∀ a m, Q a m → f.Keeps proto (fun _ ↦ Q' a) E' m)
    (hraise : ∀ e m, E e m → f.Keeps proto (fun _ ↦ E' e) E' m) :
    (x.tryFinally f).Keeps proto Q' E' m :=
  hx.handle (fun a m ha ↦ (hret a m ha).handle (fun _ _ h ↦ h) fun _ _ h ↦ h)
    fun e m he ↦ (hraise e m he).handle (fun _ _ h ↦ h) fun _ _ h ↦ h

/-- Weakening where it may end. -/
theorem Keeps.mono {x : Prog C R ε α} {Q' : α → M → Prop} {E' : ε → M → Prop} {m : M}
    (hx : x.Keeps proto Q E m) (hq : ∀ a m, Q a m → Q' a m) (he : ∀ e m, E e m → E' e m) :
    x.Keeps proto Q' E' m := by
  induction x generalizing m with
  | ret a => exact hq a m hx
  | raise e => exact he e m hx
  | call c k ih => exact ⟨hx.1, fun r ↦ ih r (hx.2 r)⟩

/-- Every call that the program can make, whatever the answers, is in `P`. -/
def Calls (P : C → Prop) : Prog C R ε α → Prop
  | .ret _ => True
  | .raise _ => True
  | .call c k => P c ∧ ∀ r, (k r).Calls P

/-- A program that keeps to a protocol makes only calls that some mode allows. -/
theorem Keeps.calls {P : C → Prop} (hP : ∀ m c, proto.allowed m c → P c) {x : Prog C R ε α} {m : M}
    (hx : x.Keeps proto Q E m) : x.Calls P := by
  induction x generalizing m with
  | ret a => trivial
  | raise e => trivial
  | call c k ih => exact ⟨hP m c hx.1, fun r ↦ ih r (hx.2 r)⟩

/-- The calls of a handled program are those of its parts. -/
theorem Calls.handle {P : C → Prop} {x : Prog C R ε α} {f : α → Prog C R ε' β}
    {g : ε → Prog C R ε' β} (hx : x.Calls P) (hf : ∀ a, (f a).Calls P) (hg : ∀ e, (g e).Calls P) :
    (x.handle f g).Calls P := by
  induction x with
  | ret a => exact hf a
  | raise e => exact hg e
  | call c k ih => exact ⟨hx.1, fun r ↦ ih r (hx.2 r)⟩

/-- A relation between modes and states that every allowed call keeps holds at the end of a
run, in a mode where the program may end. -/
theorem Keeps.exec {J : M → σ → Prop}
    (hJ : ∀ m s c, J m s → proto.allowed m c → J (proto.next m c (answer s c).1) (answer s c).2)
    {x : Prog C R ε α} {m : M} {s : σ} (hx : x.Keeps proto Q E m) (hs : J m s) :
    ∃ m', J m' (x.exec answer s).2 ∧
      match (x.exec answer s).1 with
      | .ok a => Q a m'
      | .error e => E e m' := by
  induction x generalizing m s with
  | ret a => exact ⟨m, hs, hx⟩
  | raise e => exact ⟨m, hs, hx⟩
  | call c k ih => exact ih _ (hx.2 _) (hJ m s c hs hx.1)

end Prog
end InferenceServer.Base
