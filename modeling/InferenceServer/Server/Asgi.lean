import InferenceServer.Base.Process
import InferenceServer.Server.Request

/-!
# ASGI applications

Library `Server`. What passes between the server, the middlewares and an application:
messages, exceptions with their `__cause__` and `__context__`, and the two messages of
`_json_response`, `python/cuda_db/server/admission.py:284–299`. An application is any process
over these calls. It sends only from its own task; what `send`, `receive` and every other await
answer, cancellation included, is left open.
-/

namespace InferenceServer.Server

open InferenceServer.Base

/-! ### Exceptions -/

/-- Which `except` clauses take an exception. -/
inductive ExcClass where
  /-- a subclass of `Exception`, by its `__name__` -/
  | exception (name : String)
  /-- `asyncio.CancelledError` -/
  | cancelled
  /-- any other `BaseException` -/
  | base (name : String)
  deriving DecidableEq, Repr

/-- `except Exception` takes it. -/
def ExcClass.isException : ExcClass → Bool
  | .exception _ => true
  | _ => false

/-- Neither `except Exception` nor `except CancelledError` takes it. -/
def ExcClass.isBare : ExcClass → Bool
  | .base _ => true
  | _ => false

/-- The value of a `__cause__` or `__context__`: `None` or an exception object. -/
inductive Link (A : Type) where
  | none
  | exc (ref : Nat) (cls : ExcClass) (args : A) (cause context : Link A)
  deriving DecidableEq, Repr

/-- An exception object; `ref` is its identity, `args` its message and arguments. -/
structure Exc (A : Type) where
  ref : Nat
  cls : ExcClass
  args : A
  cause : Link A := .none
  context : Link A := .none
  deriving DecidableEq, Repr

variable {A S : Type}

/-- The object is on the chain. -/
def Link.mentions (object : Nat) : Link A → Bool
  | .none => false
  | .exc ref _ _ cause context =>
    ref == object || cause.mentions object || context.mentions object

namespace Exc

def link (e : Exc A) : Link A := .exc e.ref e.cls e.args e.cause e.context

/-- A chain of `__cause__` and `__context__` leads from `e` to `d`, or `e` is `d`. -/
def reaches (e d : Exc A) : Bool :=
  e.ref == d.ref || e.cause.mentions d.ref || e.context.mentions d.ref

/-- The exception as it is after `raise` while `handled` is being handled. An object is not
made its own context. -/
def raisedIn (handled : Option (Exc A)) (e : Exc A) : Exc A :=
  match handled with
  | none => e
  | some h => if e.ref = h.ref then e else { e with context := h.link }

/-- What is raised in an `except` block leads to the exception being handled. -/
theorem reaches_raisedIn (h e : Exc A) : (e.raisedIn (some h)).reaches h = true := by
  unfold raisedIn
  dsimp only
  split
  · next href => simp [reaches, href]
  · simp [reaches, link, Link.mentions]

end Exc

/-! ### Messages -/

/-- A message for the client; a status is `none` where `int(message["status"])` raises. -/
inductive Outgoing where
  | start (status : Option Int) (headers : List (Bytes × Bytes))
  | body (content : Bytes) (moreBody : Bool)
  | other (type : String)
  deriving DecidableEq, Repr

/-- `message["type"] == "http.response.start"`. -/
def Outgoing.isStart : Outgoing → Bool
  | .start _ _ => true
  | _ => false

/-- Who called `send`. -/
inductive Sender where
  | app
  | middleware
  deriving DecidableEq, Repr

/-- The bytes of `{"detail": detail}`, where nothing needs an escape. -/
def jsonDetail (detail : String) : Bytes := asciiBytes ("\x7b\"detail\":\"" ++ detail ++ "\"\x7d")

/-- The first message of `_json_response(send, status, {"detail": detail}, headers=headers)`. The
second one is the body. -/
def jsonStart (status : Int) (detail : String) (headers : List (Bytes × Bytes)) : Outgoing :=
  .start (some status)
    ([(asciiBytes "content-type", asciiBytes "application/json"),
      (asciiBytes "content-length", asciiBytes (toString (jsonDetail detail).length))] ++ headers)

/-! ### Applications -/

/-- What an application calls. -/
inductive AppCall where
  | send (m : Outgoing)
  | receive
  /-- any other await -/
  | pause
  /-- `scope["cuda_db.client_key_id"] = keyId` -/
  | setClientKeyId (keyId : String)
  deriving DecidableEq, Repr

/-- What a call answers: an await can raise. -/
def AppCall.Reply (A : Type) : AppCall → Type
  | .send _ => Except (Exc A) Unit
  | .receive => Except (Exc A) Message
  | .pause => Except (Exc A) Unit
  | .setClientKeyId _ => Unit

/-- The call starts a response. -/
def AppCall.startsResponse : AppCall → Bool
  | .send m => m.isStart
  | _ => false

/-- The application's next turn in a state. -/
abbrev App (A S : Type) := S → Turn AppCall (AppCall.Reply A) (Exc A) S

/-- A task that runs an application. -/
abbrev RunningApp (A S : Type) := Task AppCall (AppCall.Reply A) (Exc A) S

/-- How an awaited task ends. -/
abbrev AppOutcome (A : Type) := Except (Exc A) Unit

/-- A `send` that has nothing to hand over only raises. -/
def Outgoing.admits (m : Outgoing) (r : AppOutcome A) : Bool :=
  match m, r with
  | .start none _, .ok () => false
  | _, _ => true

end InferenceServer.Server
