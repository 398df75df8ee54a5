/-
Requests to servers. A client makes requests and waits; what a resolution
needs from the network is written over any client.
-/
import VersionPick.Remote.Failure

namespace VersionPick

/-- What is asked of a resource. -/
inductive Method
  /-- The resource. -/
  | get
  /-- Whether it is there, and its size. -/
  | head
  deriving DecidableEq, Repr

def Method.name : Method → String
  | .get => "GET"
  | .head => "HEAD"

structure Response where
  status : Nat
  body : String
  /-- The length that the answer declares. -/
  length : Option String
  deriving DecidableEq, Repr

def Response.isSuccess (r : Response) : Bool :=
  200 ≤ r.status && r.status < 300

/-- Makes requests and waits. -/
structure Client (m : Type → Type) where
  request : Method → (url : String) → m (Except TransportFault Response)
  /-- Waits for some milliseconds. -/
  wait : Nat → m Unit

end VersionPick
