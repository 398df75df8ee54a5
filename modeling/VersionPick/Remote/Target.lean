/-
The target of an address: what it asks its host for. It is written in ASCII:
other characters become percent codes, and dots among the names of the path
are followed.
-/
import VersionPick.Text.Hex
import VersionPick.Text.Pieces

namespace VersionPick.Target

open Text

def percent (b : UInt8) : List Char :=
  ['%', (Hex.digit (b.toNat / 16)).toUpper, (Hex.digit (b.toNat % 16)).toUpper]

/-- The written form of a character; `reserved` are the printable characters
that are written as percent codes. -/
def encodeChar (reserved : List Char) (c : Char) : List Char :=
  if c ≤ ' ' || '\x7e' < c || reserved.contains c then
    (String.utf8EncodeChar c).flatMap percent
  else [c]

def reservedInPath : List Char := ['"', '#', '<', '>', '?', '\x60', '\x7b', '\x7d']

def reservedInQuery : List Char := ['"', '#', '<', '>', '\'']

def reservedInFragment : List Char := ['"', '<', '>', '\x60']

/-- The name of a path with its dots written as such. -/
def plainDots : List Char → List Char
  | '%' :: '2' :: e :: cs => if e == 'e' || e == 'E' then '.' :: plainDots cs else '%' :: '2' :: e :: cs
  | '.' :: cs => '.' :: plainDots cs
  | cs => cs

/-- The written names of a path, the last one first, behind those in `done`. -/
def followDots (done : List (List Char)) : List (List Char) → List (List Char)
  | [] => done
  | name :: names =>
    let isLast := names.isEmpty
    if plainDots name == ['.'] then followDots (if isLast then [] :: done else done) names
    else if plainDots name == ['.', '.'] then
      followDots (if isLast then [] :: done.tail else done.tail) names
    else followDots (name.flatMap (encodeChar reservedInPath) :: done) names

/-- The target that the part of an address behind its host asks for. -/
def ofRest (rest : List Char) : List Char :=
  let (path, query) := cutFirst '?' (rest.takeWhile (· != '#'))
  let names := List.splitOn '/' (replace '\\' ['/'] path)
  let names := if names.head? == some [] && names.length != 1 then names.tail else names
  '/' :: List.intercalate ['/'] (followDots [] names).reverse ++
    match query with
    | some q => '?' :: q.flatMap (encodeChar reservedInQuery)
    | none => []

/-- The written fragment of the part of an address behind its host, with the
sign in front. It is not asked for. -/
def fragment (rest : List Char) : List Char :=
  match rest.dropWhile (· != '#') with
  | sign :: cs => sign :: cs.flatMap (encodeChar reservedInFragment)
  | [] => []

end VersionPick.Target
