/-
Downloading the catalogue. A download that failed is tried again as often as
the settings allow, after a delay that doubles each time up to a limit. A
document that cannot be used is not asked for again.
-/
import VersionPick.Remote
import VersionPick.Remote.Span
import VersionPick.Settings
import VersionPick.Catalogue.Document

namespace VersionPick

/-- The longest delay before a retry, in milliseconds. -/
def delayLimit : UInt64 := 30000

/-- What the first delay is multiplied with before a retry, counted from one:
it doubles as long as it fits into 32 bits, and then is the greatest that
does. -/
def delayFactor (retry : UInt32) : UInt32 :=
  let doublings := retry.toNat - 1
  if doublings < 32 then UInt32.ofNat (Nat.pow 2 doublings) else UInt32.ofNat (UInt32.size - 1)

/-- The span between a failed attempt and a retry. -/
def backoffSpan (first : UInt64) (retry : UInt32) : Span :=
  ((Span.ofMillis first).times (delayFactor retry)).shorter (Span.ofMillis delayLimit)

/-- The delay before a retry, in milliseconds. -/
def backoff (first : UInt64) (retry : UInt32) : Nat :=
  (backoffSpan first retry).millis

section
variable {m : Type → Type} [Monad m] (client : Client m)

/-- One attempt to get a document. -/
def Client.download (url : String) : m (Except FetchError (List Char)) := do
  match ← client.request .get url with
  | .error fault => return .error (.transport fault)
  | .ok response =>
    if response.isSuccess then return .ok response.body.toList
    else return .error (.status response.status url)

/-- Attempts until one succeeds or fails for good, or until no retry is left.
`retries` counts those that were made. -/
def Client.attempt (first : UInt64) (once : m (Except FetchError α)) :
    (left : Nat) → (retries : UInt32) → m (Except FetchError α)
  | left, retries => do
    match ← once with
    | .ok a => return .ok a
    | .error e =>
      if e.isRetryable then
        match left with
        | 0 => return .error (.unavailable (retries + 1) e)
        | left + 1 =>
          client.wait (backoff first (retries + 1))
          attempt first once left (retries + 1)
      else return .error e

/-- The catalogue in a document. -/
def Catalogue.ofDocument (text : List Char) : Except FetchError Catalogue :=
  match Catalogue.read? text with
  | some c => .ok c
  | none => .error (.document "malformed document")

def Client.fetchCatalogue (settings : Settings) : m (Except FetchError Catalogue) := do
  let document ← client.attempt settings.retryDelay (client.download settings.versionsUrl)
    settings.maxRetries.toNat 0
  return document.bind Catalogue.ofDocument

end

end VersionPick
