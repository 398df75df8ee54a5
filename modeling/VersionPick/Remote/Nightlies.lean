/-
Asking a server for nightly builds. A build is there if the request for its
artifact succeeds; any other answer means that it is not, and only a request
without answer is a failure.
-/
import VersionPick.Remote
import VersionPick.Settings
import VersionPick.Nightly
import VersionPick.Catalogue
import VersionPick.Text.Pieces

namespace VersionPick

open Nightly Text

/-- The size that an answer declares, in bytes, or zero if it is no numeral of
64 bits. A plus sign may stand in front. -/
def Response.size (r : Response) : UInt64 :=
  match r.length with
  | none => 0
  | some length =>
    let digits := length.toList
    ((Decimal.read? ((List.isPrefixOf? ['+'] digits).getD digits)).bind Decimal.toWord?).getD 0

/-- The platform that the settings name, or the default one if there are no
builds for it. -/
def Settings.platform (s : Settings) : Platform :=
  (Platform.find? s.nightlyPlatform s.nightlyArch).getD .default

variable {m : Type → Type} [Monad m] (client : Client m)

/-- The size of an artifact, if it is there. -/
def Client.artifactSize? (url : String) : m (Except FetchError (Option UInt64)) := do
  match ← client.request .head url with
  | .error fault => return .error (.transport fault)
  | .ok response => return .ok (if response.isSuccess then some response.size else none)

/-- Whether there is a nightly build of a release branch. -/
def Client.probe (settings : Settings) (branch : String) : m (Except FetchError Bool) := do
  let size ← client.artifactSize? (settings.platform.url settings.nightlyBaseUrl (some branch))
  return size.map Option.isSome

/-- The artifact of a platform as a download. -/
def Nightly.Platform.download (p : Platform) (base : String) (branch : Option String)
    (size : UInt64) : Download where
  url := p.url base branch
  triplet := none
  kind := p.kind.name
  arch := p.arch
  asc := none
  sha256 := none
  size := size
  version := branch.getD "nightly"
  os := p.os
  extension := p.extension

/-- The artifacts of some platforms that are there, in their order. -/
def Client.artifacts (base : String) (branch : Option String) :
    List Platform → m (Except FetchError (List Download))
  | [] => return .ok []
  | p :: platforms => do
    match ← client.artifactSize? (p.url base branch) with
    | .error e => return .error e
    | .ok none => artifacts base branch platforms
    | .ok (some size) =>
      return (← artifacts base branch platforms).map (p.download base branch size :: ·)

/-- All artifacts of the nightly build that are there. -/
def Client.nightlies (base : String) (branch : Option String) :
    m (Except FetchError (List Download)) :=
  client.artifacts base branch platforms

end VersionPick
