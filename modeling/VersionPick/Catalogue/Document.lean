/-
The document in which a catalogue is published: an object with a member for
each version. In a file the triplet, the signature and the hash may be
missing.
-/
import VersionPick.Catalogue
import VersionPick.Json.Reader
import VersionPick.Json.Record

namespace VersionPick

open Json

namespace Download

/-- The fields of a file, in their order. -/
def fieldNames : List String :=
  ["url", "triplet", "kind", "arch", "asc", "sha256", "size", "version", "os", "extension"]

def ofJson? (v : Value) : Option Download :=
  match fields? fieldNames v with
  | some [url, triplet, kind, arch, asc, sha256, size, version, os, extension] => do
    let url ← required Value.text? url
    let triplet ← optional Value.text? triplet
    let kind ← required Value.text? kind
    let arch ← required Value.text? arch
    let asc ← optional Value.text? asc
    let sha256 ← optional Value.text? sha256
    let size ← required Value.word? size
    let version ← required Value.text? version
    let os ← required Value.text? os
    let extension ← required Value.text? extension
    some ⟨url, triplet, kind, arch, asc, sha256, size, version, os, extension⟩
  | _ => none

/-- A member with a text. -/
def member (name : String) (s : String) : List Char × Value :=
  (encode name.toList, .ofText s)

/-- A member that is left out if there is no text. -/
def optionalMember (name : String) (s : Option String) : List (List Char × Value) :=
  s.toList.map (member name)

def toJson (d : Download) : Value :=
  .object ([member "url" d.url] ++ optionalMember "triplet" d.triplet ++
    [member "kind" d.kind, member "arch" d.arch] ++ optionalMember "asc" d.asc ++
    optionalMember "sha256" d.sha256 ++
    [(encode "size".toList, .ofWord d.size), member "version" d.version, member "os" d.os,
      member "extension" d.extension])

end Download

namespace Publication

def ofJson? (v : Value) : Option Publication :=
  match fields? ["files", "stable"] v with
  | some [files, stable] => do
    let files ← required Value.elements? files
    let files ← files.mapM Download.ofJson?
    let stable ← required Value.bool? stable
    some ⟨files, stable⟩
  | _ => none

def toJson (p : Publication) : Value :=
  .object [(encode "files".toList, .array (p.files.map Download.toJson)),
    (encode "stable".toList, .bool p.stable)]

end Publication

namespace Catalogue

/-- The catalogue in a document. Of a version that occurs twice the last value
counts, in the first place. -/
def ofJson? (v : Value) : Option Catalogue := do
  let members ← v.members?
  let writes ← members.mapM fun (version, v) => (Publication.ofJson? v).map (version, ·)
  some (ofList writes)

def toJson (c : Catalogue) : Value :=
  .object (c.entries.map fun (version, p) => (encode version.toList, p.toJson))

def read? (text : List Char) : Option Catalogue :=
  (Json.read? text).bind ofJson?

def text (c : Catalogue) : List Char :=
  c.toJson.write

end Catalogue

end VersionPick
