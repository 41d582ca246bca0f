import SchemaForms.Text.Split

/-!
# Arguments of the command line

A command is followed by the path of a document and by options in any order. An option's value
follows it as the next argument or behind an equals sign, and of repeated options the last one
counts. Behind `--` there are no more options.
-/

namespace SchemaForms.CommandLine

inductive Command where
  /-- Expand its references. -/
  | resolve
  /-- Normalize it to its forms. -/
  | normalize
  /-- List its forms. -/
  | forms
deriving DecidableEq, Repr

inductive ValueOption where
  | root
  | overlay
  | slug
  | suffix
  | formId
deriving DecidableEq, Repr

/-- The options that switch something on or off. -/
inductive Switch where
  | allowHttp
  | allowTraversal
deriving DecidableEq, Repr

structure Arguments where
  command : Command
  path : String := ""
  root : Option String := none
  overlay : Option String := none
  slug : String := ""
  suffix : String := ""
  formId : String := ""
  allowHttp : Option Bool := none
  allowTraversal : Option Bool := none
deriving DecidableEq, Repr

inductive UsageFault where
  | noCommand
  | unknownCommand (name : String)
  | unknownOption (name : String)
  | noValue (name : String)
  | unexpectedValue (name : String)
  | noPath
  | unexpectedArgument (argument : String)
deriving DecidableEq, Repr

def UsageFault.text : UsageFault → String
  | .noCommand => "Missing command."
  | .unknownCommand name => "No such command \x27" ++ name ++ "\x27."
  | .unknownOption name => "No such option: " ++ name
  | .noValue name => "Option \x27" ++ name ++ "\x27 requires an argument."
  | .unexpectedValue name => "Option \x27" ++ name ++ "\x27 does not take a value."
  | .noPath => "Missing argument \x27PATH\x27."
  | .unexpectedArgument argument => "Got unexpected extra argument (" ++ argument ++ ")"

namespace Command

def ofName? : String → Option Command
  | "resolve" => some .resolve
  | "normalize" => some .normalize
  | "forms" => some .forms
  | _ => none

def takes (command : Command) (option : ValueOption) : Bool :=
  match command, option with
  | .normalize, _ => true
  | _, .root => true
  | .forms, .slug => true
  | _, _ => false

end Command

def ValueOption.ofName? : String → Option ValueOption
  | "--root" => some .root
  | "--overlay" => some .overlay
  | "--slug" => some .slug
  | "--suffix" => some .suffix
  | "--form-id" => some .formId
  | _ => none

/-- The switch that has the given name, and how it is set by it. -/
def Switch.ofName? : String → Option (Switch × Bool)
  | "--allow-http" => some (.allowHttp, true)
  | "--no-allow-http" => some (.allowHttp, false)
  | "--allow-traversal" => some (.allowTraversal, true)
  | "--no-allow-traversal" => some (.allowTraversal, false)
  | _ => none

namespace Arguments

def setValue (arguments : Arguments) (option : ValueOption) (value : String) : Arguments :=
  match option with
  | .root => { arguments with root := some value }
  | .overlay => { arguments with overlay := some value }
  | .slug => { arguments with slug := value }
  | .suffix => { arguments with suffix := value }
  | .formId => { arguments with formId := value }

def setSwitch (arguments : Arguments) (switch : Switch) (on : Bool) : Arguments :=
  match switch with
  | .allowHttp => { arguments with allowHttp := some on }
  | .allowTraversal => { arguments with allowTraversal := some on }

def setPath (arguments : Arguments) : List String → Except UsageFault Arguments
  | [] => .error .noPath
  | [path] => .ok { arguments with path := path }
  | _ :: argument :: _ => .error (.unexpectedArgument argument)

/-- An argument is an option: it begins with a hyphen, and there is more of it. -/
def isOption (argument : String) : Bool :=
  match argument.toList with
  | '-' :: _ :: _ => true
  | _ => false

inductive Reading where
  /-- There are no more options behind it. -/
  | noMoreOptions
  | path (path : String)
  | switch (option : Switch) (on : Bool)
  /-- An option with its value, or with its value in the next argument. -/
  | value (option : ValueOption) (name : String) (attached : Option String)
  | fault (fault : UsageFault)

def Reading.of (command : Command) (argument : String) : Reading :=
  if argument = "--" then .noMoreOptions
  else if !isOption argument then .path argument
  else
    let (name, attached) := Text.cut '=' argument
    match Switch.ofName? name, attached with
    | some (option, on), none => .switch option on
    | some _, some _ => .fault (.unexpectedValue name)
    | none, _ =>
      match ValueOption.ofName? name with
      | none => .fault (.unknownOption name)
      | some option =>
        if command.takes option then .value option name attached
        else .fault (.unknownOption name)

/-- Read the arguments behind a command. `paths` are those met so far that are no options, last one
first, and `pending` is an option whose value is the next argument. -/
def readFrom (arguments : Arguments) (paths : List String)
    (pending : Option (ValueOption × String)) : List String → Except UsageFault Arguments
  | [] =>
    match pending with
    | some (_, name) => .error (.noValue name)
    | none => arguments.setPath paths.reverse
  | argument :: rest =>
    match pending with
    | some (option, _) => readFrom (arguments.setValue option argument) paths none rest
    | none =>
      match Reading.of arguments.command argument with
      | .noMoreOptions => arguments.setPath (paths.reverse ++ rest)
      | .path path => readFrom arguments (path :: paths) none rest
      | .switch option on => readFrom (arguments.setSwitch option on) paths none rest
      | .value option _ (some value) => readFrom (arguments.setValue option value) paths none rest
      | .value option name none => readFrom arguments paths (some (option, name)) rest
      | .fault fault => .error fault

def read : List String → Except UsageFault Arguments
  | [] => .error .noCommand
  | name :: rest =>
    match Command.ofName? name with
    | none => .error (.unknownCommand name)
    | some command => readFrom { command := command } [] none rest

end Arguments

end SchemaForms.CommandLine
