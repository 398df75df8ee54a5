/-
The settings of a resolution: where the catalogue and the nightly builds are,
how often and how fast a download is tried again, which release line is the
long-term support line. They are read from a JSON record in which every field
may be missing.
-/
import VersionPick.Json.Reader
import VersionPick.Json.Record
import VersionPick.Range.Reader

namespace VersionPick

open Json

/-- The settings; the defaults are the public servers. -/
structure Settings where
  versionsUrl : String := "https://julialang-s3.julialang.org/bin/versions.json"
  nightlyBaseUrl : String := "https://julialangnightlies-s3.julialang.org/bin"
  /-- The long-term support line, as a range. -/
  ltsVersion : String := "1.10"
  /-- How often a failed download of the catalogue is tried again. -/
  maxRetries : UInt32 := 5
  /-- The delay before the first retry, in milliseconds. -/
  retryDelay : UInt64 := 500
  /-- The longest that a request may take, in milliseconds. -/
  timeout : UInt64 := 30000
  /-- The platform whose nightly builds are asked for. -/
  nightlyPlatform : String := "linux"
  nightlyArch : String := "x86_64"
  deriving DecidableEq, Repr

namespace Settings

/-- The settings that a document leaves alone. -/
def default : Settings := {}

def fieldNames : List String :=
  ["versionsUrl", "nightlyBaseUrl", "ltsVersion", "maxRetries", "retryDelayMs", "timeoutMs",
    "nightlyPlatform", "nightlyArch"]

def ofJson? (v : Value) : Option Settings :=
  match fields? fieldNames v with
  | some [versionsUrl, nightlyBaseUrl, ltsVersion, maxRetries, retryDelay, timeout,
      nightlyPlatform, nightlyArch] => do
    let versionsUrl ← withDefault default.versionsUrl Value.text? versionsUrl
    let nightlyBaseUrl ← withDefault default.nightlyBaseUrl Value.text? nightlyBaseUrl
    let ltsVersion ← withDefault default.ltsVersion Value.text? ltsVersion
    let maxRetries ← withDefault default.maxRetries Value.halfWord? maxRetries
    let retryDelay ← withDefault default.retryDelay Value.word? retryDelay
    let timeout ← withDefault default.timeout Value.word? timeout
    let nightlyPlatform ← withDefault default.nightlyPlatform Value.text? nightlyPlatform
    let nightlyArch ← withDefault default.nightlyArch Value.text? nightlyArch
    some ⟨versionsUrl, nightlyBaseUrl, ltsVersion, maxRetries, retryDelay, timeout,
      nightlyPlatform, nightlyArch⟩
  | _ => none

def read? (text : List Char) : Option Settings :=
  (Json.read? text).bind ofJson?

def lts (s : Settings) : Except InvalidRange Range :=
  Range.parse s.ltsVersion

end Settings

end VersionPick
