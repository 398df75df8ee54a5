/-
Nightly builds: the platforms they are made for, and where the artifact of a
build is found. No catalogue lists them; the address says which build it is.
-/
import VersionPick.Text.Pieces

namespace VersionPick.Nightly

open Text

inductive Kind
  | installer
  | archive
  | unknown
  deriving DecidableEq, Repr

/-- The kind of the artifacts with a file extension. -/
def Kind.ofExtension (extension : String) : Kind :=
  if extension = "exe" then .installer
  else if extension = "tar.gz" ∨ extension = "zip" ∨ extension = "dmg" then .archive
  else .unknown

def Kind.name : Kind → String
  | .installer => "installer"
  | .archive => "archive"
  | .unknown => "unknown"

/-- A platform and a form of its artifact. -/
structure Platform where
  os : String
  arch : String
  /-- What stands for the platform in the name of the artifact, if that is not
  `os-arch`. -/
  suffix : Option String
  extension : String
  deriving DecidableEq, Repr

/-- The artifacts that are built every night. -/
def platforms : List Platform := [
  ⟨"winnt", "x64", some "win64", "tar.gz"⟩,
  ⟨"winnt", "x64", some "win64", "exe"⟩,
  ⟨"winnt", "x86", some "win32", "tar.gz"⟩,
  ⟨"winnt", "x86", some "win32", "exe"⟩,
  ⟨"macos", "aarch64", none, "tar.gz"⟩,
  ⟨"macos", "aarch64", none, "dmg"⟩,
  ⟨"macos", "x86_64", none, "tar.gz"⟩,
  ⟨"macos", "x86_64", none, "dmg"⟩,
  ⟨"linux", "x86_64", none, "tar.gz"⟩,
  ⟨"linux", "aarch64", none, "tar.gz"⟩,
  ⟨"linux", "i686", none, "tar.gz"⟩,
  ⟨"freebsd", "x86_64", none, "tar.gz"⟩]

namespace Platform

/-- The platform that is asked for where none is known. -/
def default : Platform :=
  ⟨"linux", "x86_64", none, "tar.gz"⟩

/-- The first artifact of an operating system and architecture. -/
def find? (os arch : String) : Option Platform :=
  platforms.find? fun p => p.os == os && p.arch == arch

def kind (p : Platform) : Kind :=
  .ofExtension p.extension

/-- What stands for the platform in the name of the artifact. -/
def label (p : Platform) : String :=
  p.suffix.getD (p.os ++ "-" ++ p.arch)

/-- The address of the latest artifact, of a release branch if one is given.
Slashes at the end of the base do not matter. -/
def url (p : Platform) (base : String) (branch : Option String) : String :=
  let base := String.ofList (base.toList.reverse.dropWhile (· == '/')).reverse
  let folder := (branch.map (· ++ "/")).getD ""
  base ++ "/" ++ p.os ++ "/" ++ p.arch ++ "/" ++ folder ++ "julia-latest-" ++ p.label ++ "." ++
    p.extension

end Platform

end VersionPick.Nightly
