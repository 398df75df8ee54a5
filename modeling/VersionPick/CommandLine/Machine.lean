/-
A machine on which all that the program can see is given: a tree of files, one
server, and the text that was printed.
-/
import VersionPick.CommandLine
import VersionPick.Remote.Peer

namespace VersionPick.CommandLine

/-- The state of a machine. -/
structure Machine where
  tree : Tree
  peer : Peer
  output : String := ""

namespace Machine

/-- Does something with the server. -/
def withPeer (act : StateM Peer α) : StateM Machine α := fun machine =>
  let (a, peer) := act machine.peer
  (a, { machine with peer })

def append (path text : String) : StateM Machine (Except FileFault Unit) := fun machine =>
  match machine.tree.append path text.toUTF8 with
  | .ok tree => (.ok (), { machine with tree })
  | .error fault => (.error fault, machine)

def host : Host (StateM Machine) where
  files := {
    isFile := fun path => return (← get).tree.isFile path
    isFolder := fun path => return (← get).tree.isFolder path
    read := fun path => return (← get).tree.read path }
  client := {
    request := fun method url => withPeer (Peer.client.request method url)
    wait := fun delay => withPeer (Peer.client.wait delay) }
  append := append
  print := fun text => modify fun machine => { machine with output := machine.output ++ text }

end Machine

end VersionPick.CommandLine
