/-
A server whose answers are given beforehand, and the client that talks to no
other. It remembers the requests that it has seen and the delays between
them. What the client says of a request without answer is given as well.
-/
import VersionPick.Remote
import VersionPick.Remote.Address
import VersionPick.Remote.Message

namespace VersionPick

/-- What the server does with a request. -/
inductive Reaction
  | respond (r : Response)
  | close
  deriving DecidableEq, Repr

/-- A server with its answers to come. -/
structure Peer where
  base : String
  /-- The reactions to each request, in turn; the last one stays. -/
  routes : List (String × List Reaction)
  /-- The client's message for a request that gets no answer, and the messages
  behind it. There may have been a reaction, but none that is an answer. -/
  complaint : Method → (url : String) → Option Reaction → String × List String
  /-- The requests that were made, such as `GET /x`. -/
  requests : List String := []
  /-- The delays that were waited for, in milliseconds. -/
  delays : List Nat := []

namespace Peer

/-- The answer to a request that the server does not know. -/
def notFound : Response := ⟨404, "", none⟩

/-- The reactions that are left once the first of them is used. -/
def nextReactions : List Reaction → List Reaction
  | _ :: next :: rest => next :: rest
  | reactions => reactions

def handle (p : Peer) (request : String) : Reaction × Peer :=
  let reactions := (p.routes.lookup request).getD []
  let routes := p.routes.map fun (key, rs) => if key == request then (key, nextReactions rs) else (key, rs)
  (reactions.head?.getD (.respond notFound), { p with routes, requests := p.requests ++ [request] })

def isAt (p : Peer) (address : Address) : Bool :=
  (Address.parse? p.base.toList).any address.sameServer

def fault (p : Peer) (badAddress : Bool) (method : Method) (url : String) (reaction : Option Reaction) :
    TransportFault :=
  let (message, causes) := p.complaint method url reaction
  ⟨badAddress, message, causes⟩

/-- Makes a request. The answer comes back as a text; what is no answer then
does not arrive. Another server than this one does not answer. -/
def request (method : Method) (url : String) : StateM Peer (Except TransportFault Response) := do
  let p ← get
  match Address.parse? url.toList with
  | none => return .error (p.fault true method url none)
  | some address =>
    if p.isAt address then
      let (reaction, p) := p.handle (method.name ++ " " ++ String.ofList address.target)
      set p
      match reaction with
      | .respond r =>
        match Message.response? method (Message.answer method r) with
        | some r => return .ok r
        | none => return .error (p.fault false method url (some reaction))
      | .close => return .error (p.fault false method url (some reaction))
    else return .error (p.fault false method url none)

def client : Client (StateM Peer) where
  request := request
  wait delay := modify fun p => { p with delays := p.delays ++ [delay] }

end Peer

end VersionPick
