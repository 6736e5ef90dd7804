import BalancedTernary.Command.Host
import BalancedTernary.Command.Options
import BalancedTernary.Command.Report
import BalancedTernary.Image
import BalancedTernary.Workbench

/-!
# Tools

The two commands. A command line is a request, and a request is a sequence of operations of a host.
On a directory it has an outcome: what is printed, and the directory that is left.
-/

namespace BalancedTernary.Command

open Assembly

inductive Tool where
  | assembler
  | disassembler
deriving DecidableEq, Repr

/-- What a command line asks for. -/
inductive Request where
  | help
  | assemble (options : Options) (source destination : Text)
  | disassemble (source destination : Text)
deriving DecidableEq, Repr

/-- The source path with `.asm` at its end taken off and `.ter` put on. -/
def defaultDestination (source : Text) : Text :=
  let ending := ".asm".toList
  let stem :=
    if ending.isSuffixOf source then source.take (source.length - ending.length) else source
  stem ++ ".ter".toList

namespace Tool

def flags : Tool → List Flag
  | assembler => [.verbose, .comment, .base, .list, .symbols, .help]
  | disassembler => [.help]

/-- The flags with what they are for. -/
def helpText (tool : Tool) : Text :=
  tool.flags.flatMap fun flag => s!"  {flag.spelling}  {flag.purpose}\n".toList

/-- Faults of the flags come before a wrong number of other arguments. A disassembly without a
destination is printed. -/
def request (tool : Tool) (arguments : List Text) : Except UsageFault Request :=
  match Options.read tool.flags arguments with
  | .error fault => .error fault
  | .ok (o, others) =>
    if o.help then .ok .help
    else
      match tool, others with
      | .assembler, [source] => .ok (.assemble o source (defaultDestination source))
      | .assembler, [source, destination] => .ok (.assemble o source destination)
      | .disassembler, [source] => .ok (.disassemble source [])
      | .disassembler, [source, destination] => .ok (.disassemble source destination)
      | _, others => .error (.argumentCount others.length)

end Tool

/-- The columns of a listing on standard output. -/
def listingColumns : Int64 := 80

def Options.config (o : Options) : Config := .ofSettings o.comment o.base

/-- The events that are logged: all of them, or the warnings alone. -/
def Options.log (o : Options) (source text : Text) : Text :=
  ((trace o.config text).filter fun e => o.verbose || e.level = .warning).flatMap
    (eventLine source)

/-- What is logged once the image is written. -/
def Options.writtenLog (o : Options) (destination : Text) (p : Program) : Text :=
  if o.verbose then writtenLine destination p.size else []

/-- The parts of the listing, if one is asked for. -/
def Options.listing (o : Options) (p : Program) : List Text :=
  if o.list then p.listingParts listingColumns else []

/-- The program in the text of a source file, or a message that says where it has a fault. -/
def assembleText (o : Options) (source text : Text) : Except String Program :=
  match assemble o.config text with
  | .ok p => .ok p
  | .error f => .error s!"{String.ofList source}:{f.line}: {f.fault.message}"

/-- The disassembly of the text of an image file. -/
def disassembleText (source text : Text) : Except String Text :=
  match Image.read text with
  | .ok image => .ok (Disassembly.disassemble image)
  | .error fault => .error s!"{String.ofList source}: {fault.message}"

/-- What is printed once a disassembly is written. -/
def disassemblyNote (destination : Text) : Text :=
  s!"Disassembly written to {String.ofList destination}\n".toList

section Steps

variable {m : Type → Type} [Monad m] {τ : Type} (host : Host m τ)

/-- Prints what is asked for once the image is written. A listing that is refused fails the run,
with the image in place. -/
def printProgram (o : Options) (p : Program) : m Nat := do
  match ← host.print (o.listing p) with
  | .error fault => host.fail (FileFault.writing "/dev/stdout".toList fault).message
  | .ok () =>
    if o.symbols then host.tell (symbolsText p.symbols)
    return 0

def assembleFile (o : Options) (source destination : Text) : m Nat := do
  match ← host.read source with
  | .error fault => host.fail s!"reading source: {fault.message}"
  | .ok text =>
    host.log (o.log source text)
    match assembleText o source text with
    | .error message => host.fail message
    | .ok p =>
      match ← host.replace destination p.output with
      | .error fault => host.fail fault.message
      | .ok () =>
        host.log (o.writtenLog destination p)
        printProgram host o p

def disassembleFile (source destination : Text) : m Nat := do
  match ← host.read source with
  | .error (.reading path fault) =>
    host.fail s!"{String.ofList source}: read image: {(FileFault.reading path fault).message}"
  | .error fault => host.fail s!"reading image: {fault.message}"
  | .ok text =>
    match disassembleText source text with
    | .error message => host.fail message
    | .ok disassembly =>
      if destination.isEmpty then
        host.tell disassembly
        return 0
      else
        match ← host.write destination disassembly with
        | .error fault => host.fail s!"writing output: {fault.message}"
        | .ok () =>
          host.tell (disassemblyNote destination)
          return 0

/-- What a tool does with its arguments. The result is the status of the run. -/
def Tool.execute (tool : Tool) (arguments : List Text) : m Nat :=
  match tool.request arguments with
  | .error fault => host.fail fault.message
  | .ok .help => do
    host.tell tool.helpText
    return 0
  | .ok (.assemble o source destination) => assembleFile host o source destination
  | .ok (.disassemble source destination) => disassembleFile host source destination

end Steps

structure Outcome where
  status : Nat
  output : Text
  errors : Text
  directory : Directory

/-- A run on a directory, with a standard output that takes `room` parts. -/
def Tool.runWithin (room : Option Nat) (tool : Tool) (arguments : List Text) (d : Directory) :
    Outcome :=
  let ended := (tool.execute Scene.host arguments).run { directory := d, room }
  ⟨ended.1, ended.2.output, ended.2.errors, ended.2.directory⟩

/-- A run whose standard output takes everything. -/
def Tool.run (tool : Tool) (arguments : List Text) (d : Directory) : Outcome :=
  tool.runWithin none arguments d

end BalancedTernary.Command
