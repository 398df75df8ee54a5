/-
The messages of the web protocol: the text of a request, and the answer in the
text that comes back. A connection carries one request. Answers with a status
from 100 on are preliminary and the answer proper follows them, but 101 is
final.
-/
import VersionPick.Remote
import VersionPick.Text.Decimal
import VersionPick.Text.Pieces

namespace VersionPick.Message

open Text

def request (method : Method) (host target : String) : String :=
  method.name ++ " " ++ target ++ " HTTP/1.0\r\nHost: " ++ host ++
    "\r\nAccept: */*\r\nConnection: close\r\n\r\n"

/-- The text of an answer. Its length is declared where the body is not sent. -/
def answer (method : Method) (r : Response) : List Char :=
  "HTTP/1.1 ".toList ++ Decimal.write r.status ++ " \r\n".toList ++
    (match method, r.length with
    | .head, some length => "content-length: ".toList ++ length.toList ++ "\r\n".toList
    | _, _ => []) ++
    "\r\n".toList ++ r.body.toList

/-- The lines up to the first empty one, at most `count`, and the text behind
it. -/
def cutHead : (count : Nat) → List Char → Option (List (List Char) × List Char)
  | 0, _ => none
  | count + 1, cs => do
    let (line, rest) ← cutAt '\n' cs
    let line := (List.isSuffixOf? ['\r'] line).getD line
    if line.isEmpty then some ([], rest)
    else
      let (lines, body) ← cutHead count rest
      some (line :: lines, body)

/-- A status of three digits; a comment may follow. -/
def status? (line : List Char) : Option Nat := do
  let rest ← List.isPrefixOf? "HTTP/1.".toList line
  match rest with
  | minor :: ' ' :: a :: b :: c :: rest =>
    let code ← Decimal.read? [a, b, c]
    if (minor == '0' || minor == '1') && 100 ≤ code && (rest.isEmpty || rest.head? == some ' ') then
      some code
    else none
  | _ => none

/-- A character of the name of a header field. -/
def isNameChar (c : Char) : Bool :=
  c.isAlphanum || "!#$%&'*+-.^_|~\x60".toList.contains c

/-- A character of the value of a header field: no control character but the
tab. -/
def isValueChar (c : Char) : Bool :=
  c == '\t' || (' ' ≤ c && c != '\x7f')

/-- The space and the tab. -/
def isPadding (c : Char) : Bool :=
  c == ' ' || c == '\t'

/-- The text without the padding around it. -/
def withoutPadding (cs : List Char) : List Char :=
  ((cs.dropWhile isPadding).reverse.dropWhile isPadding).reverse

/-- The name of a header field, in lower case, and its value. -/
def field? (line : List Char) : Option (String × String) := do
  let (name, value) ← cutAt ':' line
  if !name.isEmpty && name.all isNameChar && value.all isValueChar then
    some (String.ofList (name.map Char.toLower), String.ofList (withoutPadding value))
  else none

/-- An answer that comes before the answer proper. -/
def isPreliminary (status : Nat) : Bool :=
  status < 200 && status != 101

/-- An answer that has no body. -/
def hasNoBody (method : Method) (status : Nat) : Bool :=
  method == .head || status == 101 || status == 204 || status == 304

/-- The answer to a request that a text holds, behind `count` preliminary ones
at most. -/
def responseWithin? (method : Method) : (count : Nat) → List Char → Option Response
  | 0, _ => none
  | count + 1, cs => do
    let (lines, body) ← cutHead cs.length cs
    match lines with
    | [] => none
    | first :: lines =>
      let status ← status? first
      let fields ← lines.mapM field?
      if isPreliminary status then responseWithin? method count body
      else
        let body := if hasNoBody method status then "" else String.ofList body
        some ⟨status, body, fields.lookup "content-length"⟩

def response? (method : Method) (text : List Char) : Option Response :=
  responseWithin? method text.length text

end VersionPick.Message
