import Mathlib.Algebra.Order.Ring.Int
import Mathlib.Data.List.Basic

/-!
# The engine interface

Library `Engine`. `cpp/include/cuda_db/engine/execution_engine.hpp:9–32` and
`cpp/include/cuda_db/memory/cuda_error.hpp:10–28`: what one `run_inference` call may
answer. Float values are an arbitrary type, so results hold for every element value.
-/

namespace InferenceServer.Engine

/-- The C++ exceptions the scheduler and the engines raise or pass on.
`other` stands for every further `std::exception`. -/
inductive CppException where
  | inferenceError (what : String)
  | cudaError (what : String)
  | ortError (what : String)
  | futureError (what : String)
  | other (what : String)
  deriving DecidableEq, Repr

/-- A `std::vector<float>`: its bytes are addressable, so it has fewer than `2 ^ 61` elements. -/
structure FloatVec (F : Type) where
  toList : List F
  size_lt : toList.length < 2 ^ 61
  deriving DecidableEq

namespace FloatVec

variable {F : Type}

/-- Number of elements. -/
def size (v : FloatVec F) : Nat := v.toList.length

/-- A copy of all its elements. -/
@[simp] theorem take_size (v : FloatVec F) : v.toList.take v.size = v.toList := List.take_length

/-- The empty vector. -/
def empty : FloatVec F := ⟨[], Nat.two_pow_pos 61⟩

end FloatVec

/-- What the engines compute with: `0.0F`, `-`, `/` and `==`, otherwise uninterpreted. -/
class FloatOps (F : Type) extends Zero F, Sub F, Div F, BEq F

/-- Integers stand in for floats in concrete runs. -/
instance : FloatOps Int where

/-- What one `run_inference` call does: return a vector of any length, or throw. -/
abbrev InferenceAnswer (F : Type) := Except CppException (FloatVec F)

end InferenceServer.Engine
