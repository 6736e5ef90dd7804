import BalancedTernary.Command.Directory
import BalancedTernary.Output

/-!
# Hosts

A host offers what a tool needs of its surroundings: files, temporary files, standard output and
standard error. What a tool does is a sequence of these operations, the same ones on every host. A
scene is a host that holds a directory and what has been printed as values.
-/

namespace BalancedTernary.Command

/-- Operations in the monad `m`. A temporary file that was made is known by a `τ`. -/
structure Host (m : Type → Type) (τ : Type) where
  read (path : Text) : m (Except FileFault Text)
  write (path text : Text) : m (Except FileFault Unit)
  /-- Makes a file in the folder, under a name that nothing has. -/
  create (folder : Text) : m (Except PathFault τ)
  fill (temporary : τ) (text : Text) : m (Except PathFault Unit)
  move (temporary : τ) (destination : Text) : m (Except PathFault Unit)
  remove (temporary : τ) : m Unit
  /-- Hands over the parts to standard output, up to one that is refused. -/
  print (parts : List Text) : m (Except PathFault Unit)
  log (text : Text) : m Unit

/-- Why a file was not replaced: there is no temporary file, or it cannot be filled or moved. -/
inductive ReplaceFault where
  | creating (fault : FileFault)
  | writing (destination : Text) (fault : FileFault)
deriving DecidableEq, Repr

def ReplaceFault.message : ReplaceFault → String
  | creating fault => s!"creating output: {fault.message}"
  | writing destination fault => s!"writing {String.ofList destination}: {fault.message}"

def errorText (message : String) : Text := s!"Error: {message}\n".toList

namespace Host

variable {m : Type → Type} [Monad m] {τ : Type} (host : Host m τ)

/-- Fills a temporary file and moves it to the destination. -/
def settle (temporary : τ) (destination text : Text) : m (Except FileFault Unit) := do
  let shown := Path.temporary (Path.parent destination)
  match ← host.fill temporary text with
  | .error fault => return .error (.writing shown fault)
  | .ok () =>
    match ← host.move temporary destination with
    | .error fault => return .error (.moving shown destination fault)
    | .ok () => return .ok ()

/-- Writes a temporary file in the folder of the destination and moves it there, so that the
destination is replaced as a whole or not at all. The temporary file does not stay behind. -/
def replace (destination text : Text) : m (Except ReplaceFault Unit) := do
  let folder := Path.parent destination
  match ← host.create folder with
  | .error fault => return .error (.creating (.opening (Path.temporary folder) fault))
  | .ok temporary =>
    match ← host.settle temporary destination text with
    | .ok () => return .ok ()
    | .error fault =>
      host.remove temporary
      return .error (.writing destination fault)

/-- Prints a text. Nothing depends on whether it is taken. -/
def tell (text : Text) : m Unit := do
  let _ ← host.print [text]

/-- Ends a run with a message and the status of a failure. -/
def fail (message : String) : m Nat := do
  host.log (errorText message)
  return 1

end Host

/-- A directory and what has been printed. Standard output takes `room` more parts, or any number
of them. -/
structure Scene where
  directory : Directory
  room : Option Nat
  output : Text := []
  errors : Text := []

namespace Scene

/-- An operation on the directory. One that fails leaves it as it is. -/
def change {ε : Type} (operation : Directory → Except ε Directory) :
    StateM Scene (Except ε Unit) := fun s =>
  match operation s.directory with
  | .error fault => (.error fault, s)
  | .ok directory => (.ok (), { s with directory })

def create (folder : Text) : StateM Scene (Except PathFault Location) := fun s =>
  match s.directory.create folder with
  | .error fault => (.error fault, s)
  | .ok (made, directory) => (.ok made, { s with directory })

def print (parts : List Text) : StateM Scene (Except PathFault Unit) := fun s =>
  let delivery := deliver s.room parts
  (if delivery.complete then .ok () else .error .full,
    { s with room := s.room.map (· - parts.length), output := s.output ++ delivery.text })

def host : Host (StateM Scene) Location where
  read path := return (← get).directory.read path
  write path text := change fun d => d.write path text
  create := create
  fill temporary text := change fun d => .ok (d.insert temporary text)
  move temporary destination := change fun d => d.move temporary destination
  remove temporary := modify fun s => { s with directory := s.directory.erase temporary }
  print := print
  log text := modify fun s => { s with errors := s.errors ++ text }

end Scene

end BalancedTernary.Command
