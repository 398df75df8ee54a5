/-
How a download can fail, and whether trying again may help: after a transport
failure and after any unsuccessful status it may, after an unusable document
or when all attempts are spent it does not.
-/
namespace VersionPick

/-- A request got no answer. The words for that are the client's own. -/
structure TransportFault where
  /-- The address is no address, so no request was made. -/
  badAddress : Bool
  message : String
  /-- The messages of the errors behind it, nearest first. -/
  causes : List String
  deriving DecidableEq, Repr

/-- A download failed. -/
inductive FetchError
  | transport (fault : TransportFault)
  | status (code : Nat) (url : String)
  | document (detail : String)
  /-- The attempts are spent; `last` is the failure of the last of them. -/
  | unavailable (attempts : UInt32) (last : FetchError)
  deriving DecidableEq, Repr

namespace FetchError

def message : FetchError → String
  | .transport fault => "Network error: " ++ fault.message
  | .status code url => "Unexpected status " ++ toString code ++ " from " ++ url
  | .document detail => "Invalid response: " ++ detail
  | .unavailable attempts last =>
    "Unable to download versions.json after " ++ toString attempts.toNat ++ " attempts: " ++
      last.message

/-- Trying again may help. -/
def isRetryable : FetchError → Bool
  | .transport fault => !fault.badAddress
  | .status _ _ => true
  | .document _ => false
  | .unavailable _ _ => false

/-- The failures that led to this one, nearest first, as they are told. -/
def causes : FetchError → List String
  | .transport fault => fault.message :: fault.causes
  | .status _ _ => []
  | .document _ => []
  | .unavailable _ last => last.message :: last.causes

end FetchError

end VersionPick
