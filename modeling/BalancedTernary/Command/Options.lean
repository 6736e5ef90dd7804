import BalancedTernary.Assembly.Source
import BalancedTernary.Text.Integer
import BalancedTernary.Text.Quoted

/-!
# Options

A command line mixes flags with other arguments. A flag has a long name after two hyphens and a
letter after one; letters can be grouped. A switch needs no value, but takes one after an equals
sign; any other flag takes its value from there, from the rest of its group, or from the next
argument. Two hyphens alone end the flags.
-/

namespace BalancedTernary.Command

inductive Flag where
  | verbose
  | comment
  | base
  | list
  | symbols
  | help
deriving DecidableEq, Repr

namespace Flag

def long : Flag → String
  | verbose => "verbose"
  | comment => "comment"
  | base => "base"
  | list => "list"
  | symbols => "symbols"
  | help => "help"

def short : Flag → Char
  | verbose => 'v'
  | comment => 'c'
  | base => 'b'
  | list => 'l'
  | symbols => 's'
  | help => 'h'

def isSwitch : Flag → Bool
  | comment | base => false
  | verbose | list | symbols | help => true

def purpose : Flag → String
  | verbose => "log both passes"
  | comment => "comment marker"
  | base => "load address added to absolute references"
  | list => "print a listing"
  | symbols => "print the symbol table"
  | help => "print this text"

/-- Both spellings, as messages give them. -/
def spelling (f : Flag) : String := s!"-{f.short}, --{f.long}"

end Flag

structure Options where
  verbose : Bool := false
  comment : Text := Assembly.Config.default.comment
  base : Int64 := Assembly.Config.default.base
  list : Bool := false
  symbols : Bool := false
  help : Bool := false
deriving DecidableEq, Repr

inductive UsageFault where
  | badSyntax (argument : Text)
  | unknownName (name : Text)
  | unknownLetter (letter : Char) (group : Text)
  | nameWithoutValue (argument : Text)
  | letterWithoutValue (letter : Char)
  | notInteger (flag : Flag) (value : Text) (fault : Text.ReadFault)
  | notSwitch (flag : Flag) (value : Text)
  | argumentCount (count : Nat)
deriving DecidableEq, Repr

namespace UsageFault

/-- A letter outside ASCII is named by the first byte of its encoding. -/
def firstByte (c : Char) : Char :=
  (String.singleton c).toUTF8.toList.head?.elim c fun byte => Char.ofNat byte.toNat

def readFaultText : Text.ReadFault → String
  | .malformed => "invalid syntax"
  | .overflow => "value out of range"

def message : UsageFault → String
  | badSyntax argument => s!"bad flag syntax: {String.ofList argument}"
  | unknownName name => s!"unknown flag: --{String.ofList name}"
  | unknownLetter letter group =>
    s!"unknown shorthand flag: {Text.quotedChar (firstByte letter)} in -{String.ofList group}"
  | nameWithoutValue argument => s!"flag needs an argument: {String.ofList argument}"
  | letterWithoutValue letter => s!"flag needs an argument: {Text.quotedChar letter} in -{letter}"
  | notInteger flag value fault =>
    s!"invalid argument {Text.quoted value} for {Text.quoted flag.spelling.toList} flag: " ++
      s!"strconv.ParseInt: parsing {Text.quoted value}: {readFaultText fault}"
  | notSwitch flag value =>
    s!"invalid argument {Text.quoted value} for {Text.quoted flag.spelling.toList} flag: " ++
      s!"strconv.ParseBool: parsing {Text.quoted value}: invalid syntax"
  | argumentCount count => s!"accepts between 1 and 2 arg(s), received {count}"

end UsageFault

def readSwitch? (value : Text) : Option Bool :=
  let spelled (words : List String) := words.any fun word => word.toList = value
  if spelled ["1", "t", "T", "true", "TRUE", "True"] then some true
  else if spelled ["0", "f", "F", "false", "FALSE", "False"] then some false
  else none

namespace Options

def set (o : Options) (flag : Flag) (value : Text) : Except UsageFault Options :=
  match flag with
  | .comment => .ok { o with comment := value }
  | .base =>
    match Text.readPrefixed value with
    | .error fault => .error (.notInteger flag value fault)
    | .ok base => .ok { o with base }
  | .verbose => (switch flag value).map fun verbose => { o with verbose }
  | .list => (switch flag value).map fun list => { o with list }
  | .symbols => (switch flag value).map fun symbols => { o with symbols }
  | .help => (switch flag value).map fun help => { o with help }
where
  switch (flag : Flag) (value : Text) : Except UsageFault Bool :=
    match readSwitch? value with
    | some on => .ok on
    | none => .error (.notSwitch flag value)

/-- The value that a switch has when none is given. -/
def switchedOn : Text := "true".toList

/-- What one argument means: it is no flag, it ends the flags, or it sets options, the last of which
may still want the next argument as its value. -/
inductive Reading where
  | other
  | endOfFlags
  | done (options : Options)
  | wantsValue (options : Options) (flag : Flag) (otherwise : UsageFault)

/-- Reads a group of letters. A group that goes on with `test.` is passed over from there. -/
def readGroup (flags : List Flag) (o : Options) : Text → Except UsageFault Reading
  | [] => .ok (.done o)
  | letter :: rest =>
    if "test.".toList.isPrefixOf (letter :: rest) then .ok (.done o)
    else
      match flags.find? fun flag => flag.short = letter with
      | none => .error (.unknownLetter letter (letter :: rest))
      | some flag =>
        match rest with
        | '=' :: c :: value => (o.set flag (c :: value)).map .done
        | _ =>
          if flag.isSwitch then
            match o.set flag switchedOn with
            | .error fault => .error fault
            | .ok o => readGroup flags o rest
          else if rest.isEmpty then .ok (.wantsValue o flag (.letterWithoutValue letter))
          else (o.set flag rest).map .done

/-- Reads a long name, with a value after an equals sign or without. -/
def readName (flags : List Flag) (o : Options) (argument name : Text) :
    Except UsageFault Reading :=
  if name.head? = some '-' || name.head? = some '=' then .error (.badSyntax argument)
  else
    match flags.find? fun flag => flag.long.toList = Text.before ['='] name with
    | none => .error (.unknownName (Text.before ['='] name))
    | some flag =>
      match Text.cut? ['='] name with
      | some (_, value) => (o.set flag value).map .done
      | none =>
        if flag.isSwitch then (o.set flag switchedOn).map .done
        else .ok (.wantsValue o flag (.nameWithoutValue argument))

def readArgument (flags : List Flag) (o : Options) (argument : Text) :
    Except UsageFault Reading :=
  match argument with
  | ['-', '-'] => .ok .endOfFlags
  | '-' :: '-' :: name => readName flags o argument name
  | '-' :: letter :: group => readGroup flags o (letter :: group)
  | _ => .ok .other

/-- Reads the arguments after those in `others`, which are no flags. -/
def readFrom (flags : List Flag) (o : Options) (others : List Text) :
    List Text → Except UsageFault (Options × List Text)
  | [] => .ok (o, others)
  | argument :: rest =>
    match readArgument flags o argument with
    | .error fault => .error fault
    | .ok .other => readFrom flags o (others ++ [argument]) rest
    | .ok .endOfFlags => .ok (o, others ++ rest)
    | .ok (.done o) => readFrom flags o others rest
    | .ok (.wantsValue o flag otherwise) =>
      match rest with
      | [] => .error otherwise
      | value :: rest =>
        match o.set flag value with
        | .error fault => .error fault
        | .ok o => readFrom flags o others rest

/-- The options on a command line, and the other arguments. -/
def read (flags : List Flag) (arguments : List Text) : Except UsageFault (Options × List Text) :=
  readFrom flags {} [] arguments

end Options

end BalancedTernary.Command
