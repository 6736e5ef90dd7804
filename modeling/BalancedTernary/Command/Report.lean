import BalancedTernary.Assembly.Event

/-!
# Reports

The lines in which events are logged, and the symbol table as it is printed.
-/

namespace BalancedTernary.Command

open Assembly

/-- The characters that need no quotes in a log line. -/
def isPlain (c : Char) : Bool := c.isAlphanum || "-._/@^+".toList.contains c

def logValue (s : Text) : Text := if s.all isPlain then s else Text.quotedWith '\x22' s

def logLine (level : Event.Level) (message : String) (details : List (String × Event.Value)) :
    Text :=
  let levelName := match level with
    | .debug => "debug"
    | .warning => "warning"
  let detail : String × Event.Value → Text
    | (name, .number n) => ' ' :: name.toList ++ '=' :: Text.natural n
    | (name, .text s) => ' ' :: name.toList ++ '=' :: logValue s
  "level=".toList ++ levelName.toList ++ " msg=".toList ++ logValue message.toList ++
    details.flatMap detail ++ ['\n']

/-- The line for an event in the given source file. -/
def eventLine (file : Text) (e : Event) : Text :=
  logLine e.level e.message (("file", .text file) :: e.details)

/-- The event that ends a successful assembly. -/
def writtenLine (destination : Text) (size : Nat) : Text :=
  logLine .debug "image written" [("dest", .text destination), ("trytes", .number size)]

/-- `s` in the given colour of a terminal. -/
def coloured (code : String) (s : Text) : Text :=
  '\x1b' :: '[' :: code.toList ++ 'm' :: s ++ "\x1b[0m".toList

def bold (code : String) (s : Text) : Text := coloured code ("\x1b[1m".toList ++ s)

def typeName : Text := "assembler.".toList ++ coloured "32" "Symbol".toList

def fieldLine (name padding : String) (value : Text) : Text :=
  "    ".toList ++ coloured "33" name.toList ++ padding.toList ++ value ++ [',', '\n']

def numberValue (n : Nat) : Text := bold "34" (Text.natural n)

def nameValue (label : Label) : Text :=
  bold "31" ['\x22'] ++ coloured "31" label ++ bold "31" ['\x22']

def symbolText (s : Symbol) : Text :=
  "  ".toList ++ typeName ++ ['\x7b', '\n'] ++
    fieldLine "Name" ":    " (nameValue s.name) ++
    fieldLine "Address" ": " (numberValue s.address) ++
    fieldLine "Line" ":    " (numberValue s.line) ++
    "  \x7d,\n".toList

/-- The symbol table, one block of lines for each symbol. -/
def symbolsText (symbols : List Symbol) : Text :=
  let head := "[]".toList ++ typeName ++ ['\x7b']
  if symbols.isEmpty then head ++ ['\x7d', '\n']
  else head ++ ['\n'] ++ symbols.flatMap symbolText ++ ['\x7d', '\n']

end BalancedTernary.Command
