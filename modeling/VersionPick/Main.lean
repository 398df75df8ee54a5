/-
The program: the command line over the files, the network and the environment
of the machine it runs on. Secured connections are not spoken, so their
servers count as not answering.
-/
import VersionPick.CommandLine
import VersionPick.Remote.Address
import VersionPick.Remote.Message
import Std.Async.TCP
import Std.Async.DNS

namespace VersionPick.Program

open CommandLine Std.Async Std.Net

/-- The refusal behind an error of the file system. -/
def fileFault (e : IO.Error) : FileFault :=
  match e with
  | .noFileOrDirectory .. => .notFound
  | .alreadyExists .. => .exists
  | .inappropriateType _ 20 _ => .notDirectory
  | .inappropriateType _ 21 _ => .isDirectory
  | .permissionDenied .. => .other "Permission denied (os error 13)"
  | e => .other (toString e)

/-- Does something with files, where an error is a refusal. -/
def onFiles (act : IO α) : IO (Except FileFault α) := do
  try
    return .ok (← act)
  catch e =>
    return .error (fileFault e)

def leadsSomewhere (path : String) : IO Bool := do
  return path ≠ "" && (← onFiles (IO.FS.realPath path)).toBool

def isFolder (path : String) : IO Bool := do
  return path ≠ "" && (← leadsSomewhere (path ++ "/."))

def read (path : String) : IO (Except FileFault String) := do
  if ← isFolder path then return .error .isDirectory
  match ← onFiles (IO.FS.readBinFile path) with
  | .error fault => return .error fault
  | .ok content =>
    match String.fromUTF8? content with
    | some s => return .ok s
    | none => return .error .notText

def append (path text : String) : IO (Except FileFault Unit) := do
  if ← isFolder path then return .error .isDirectory
  onFiles do
    let handle ← IO.FS.Handle.mk path .append
    handle.putStr text
    handle.flush

/-- All that comes over a connection. -/
partial def receive (socket : TCP.Socket.Client) (soFar : ByteArray) : Async ByteArray := do
  match ← socket.recv? 65536 with
  | some bytes => receive socket (soFar ++ bytes)
  | none => return soFar

/-- The text that a server sends back over a connection of its own. -/
def exchange (host : String) (number : UInt16) (message : String) : Async String := do
  let addresses ← DNS.getAddrInfo host (toString number)
  let some address := addresses[0]? | throw (.userError "no address")
  let socket ← TCP.Socket.Client.mk
  socket.connect (match address with
    | .v4 a => .v4 ⟨a, number⟩
    | .v6 a => .v6 ⟨a, number⟩)
  socket.send message.toUTF8
  let bytes ← receive socket .empty
  return (String.fromUTF8? bytes).getD (String.ofList (bytes.toList.map fun b => Char.ofNat b.toNat))

def badAddress : TransportFault where
  badAddress := true
  message := "builder error"
  causes := []

def noAnswer (url cause : String) : TransportFault where
  badAddress := false
  message := "error sending request for url (" ++ url ++ ")"
  causes := [cause]

def request (method : Method) (url : String) : IO (Except TransportFault Response) := do
  match Address.parse? url.toList with
  | none => return .error badAddress
  | some address =>
    if address.secured then return .error (noAnswer url "secured connections are not spoken")
    let host := String.ofList address.host.text
    let message := Message.request method (host ++ ":" ++ toString address.number)
      (String.ofList address.target)
    try
      let answer ← (exchange host address.number.toUInt16 message).block
      match Message.response? method answer.toList with
      | some r => return .ok r
      | none => return .error (noAnswer url "malformed answer")
    catch e => return .error (noAnswer url (toString e))

/-- The machine that the program runs on. -/
def host : CommandLine.Host IO where
  files := {
    isFile := fun path => do return (← leadsSomewhere path) && !(← isFolder path)
    isFolder := isFolder
    read := read }
  client := {
    request := request
    wait := fun delay => IO.sleep delay.toUInt32 }
  append := append
  print := fun text => do
    let out ← IO.getStdout
    out.putStr text
    out.flush

/-- The variables that the program looks at. -/
def variableNames : List String :=
  ["INPUT_VERSION", "INPUT_PROJECT", "INPUT_IF-MISSING", "JULIA_PROJECT", "GITHUB_OUTPUT"]

end VersionPick.Program

def main (arguments : List String) : IO UInt32 := do
  let values ← VersionPick.Program.variableNames.mapM fun name => do
    return (name, ← IO.getEnv name)
  VersionPick.CommandLine.run VersionPick.Program.host
    (fun name => (values.lookup name).join) arguments
