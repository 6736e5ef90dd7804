import BalancedTernary.Command.Tool

/-!
# The command line

The first argument says which of the two tools to run on the others: `assemble` or `disassemble`.
The host is the operating system.
-/

namespace BalancedTernary.Command

/-- A file where a folder is needed, and the reverse, differ only in the number of the error. -/
def PathFault.ofError : IO.Error → PathFault
  | .noFileOrDirectory .. => .missing
  | .alreadyExists .. => .taken
  | .resourceExhausted .. => .full
  | .inappropriateType _ 20 _ => .notFolder
  | .inappropriateType _ 21 _ => .isFolder
  | e => .other e.toString

def attempt {α : Type} (action : IO α) : IO (Except PathFault α) := do
  try return .ok (← action) catch e => return .error (.ofError e)

namespace Disk

/-- A temporary file, open for writing. -/
structure Temporary where
  path : String
  handle : IO.FS.Handle

/-- Tries names until one is free. No file that is there already is opened. -/
def create (folder : Text) : Nat → IO (Except PathFault Temporary)
  | 0 => return .error .taken
  | tries + 1 => do
    let path := String.ofList (Path.child folder (Path.temporaryStem ++ Text.natural tries))
    match ← attempt (IO.FS.Handle.mk path .writeNew) with
    | .ok handle => return .ok ⟨path, handle⟩
    | .error .taken => create folder tries
    | .error fault => return .error fault

/-- Only the owner may write the file, and anyone may read it. -/
def rights : IO.FileRight where
  user := { read := true, write := true }
  group := { read := true }
  other := { read := true }

def fill (temporary : Temporary) (text : Text) : IO Unit := do
  temporary.handle.putStr (String.ofList text)
  temporary.handle.flush
  IO.setAccessRights temporary.path rights

/-- Hands over the parts until one is refused. -/
def print : List Text → IO (Except PathFault Unit)
  | [] => return .ok ()
  | part :: rest => do
    let out ← IO.getStdout
    match ← attempt (do out.putStr (String.ofList part); out.flush) with
    | .ok () => print rest
    | .error fault => return .error fault

def read (path : Text) : IO (Except FileFault Text) := do
  match ← attempt (IO.FS.Handle.mk (String.ofList path) .read) with
  | .error fault => return .error (.opening path fault)
  | .ok handle =>
    match ← attempt handle.readToEnd with
    | .error fault => return .error (.reading path fault)
    | .ok text => return .ok text.toList

def write (path text : Text) : IO (Except FileFault Unit) := do
  match ← attempt (IO.FS.Handle.mk (String.ofList path) .write) with
  | .error fault => return .error (.opening path fault)
  | .ok handle =>
    match ← attempt (do handle.putStr (String.ofList text); handle.flush) with
    | .error fault => return .error (.writing path fault)
    | .ok () => return .ok ()

/-- A folder in the way of a file counts as a name that is taken. -/
def move (temporary : Temporary) (destination : Text) : IO (Except PathFault Unit) := do
  match ← attempt (IO.FS.rename temporary.path (String.ofList destination)) with
  | .error .isFolder => return .error .taken
  | done => return done

def host : Host IO Temporary where
  read := read
  write := write
  create folder := create folder 10000
  fill temporary text := attempt (fill temporary text)
  move := move
  remove temporary := discard (attempt (IO.FS.removeFile temporary.path))
  print := print
  log text := do (← IO.getStderr).putStr (String.ofList text)

end Disk

def runOnDisk (tool : Tool) (arguments : List String) : IO UInt32 :=
  return (← tool.execute Disk.host (arguments.map String.toList)).toUInt32

end BalancedTernary.Command

def main (arguments : List String) : IO UInt32 :=
  match arguments with
  | "assemble" :: rest => BalancedTernary.Command.runOnDisk .assembler rest
  | "disassemble" :: rest => BalancedTernary.Command.runOnDisk .disassembler rest
  | _ =>
    return (← BalancedTernary.Command.Disk.host.fail
      "the first argument is assemble or disassemble").toUInt32
