import SchemaBinding.Project

/-!
# Arguments

The arguments of a run name a command and its switches.  They are read from
left to right, and the first one that is wrong, or that asks for the version
or for help, decides.  A switch is written in full or as a letter; letters can
share an argument, and the value of a switch may stand in its argument or in
the next one.  A switch is given at most once, the one for more log lines
excepted.
-/

namespace SchemaBinding.Command

inductive Key where
  | input
  | output
  | config
  | path
  | watch
  | preview
  | force
  | verbose
  | version
  | help
deriving DecidableEq, Repr

/-- A switch: its name, its letter if it has one, and whether a value follows. -/
structure Switch where
  key : Key
  name : String
  letter : Option Char := none
  takesValue : Bool := false
deriving Repr

/-- What decides a run before a command is known. -/
inductive Stop where
  | refused
  | version
  | help
deriving DecidableEq, Repr

/-- The switches that have been read, with their values; one without a value has the empty text. -/
abbrev Given := List (Key × String)

def give (given : Given) (key : Key) (value : String) : Except Stop Given :=
  match key with
  | .version => .error .version
  | .help => .error .help
  | .verbose => .ok given
  | key => if (given.lookup key).isSome then .error .refused else .ok (given ++ [(key, value)])

/-- Adds a switch with a value, which cannot be empty. -/
def giveValue (given : Given) (key : Key) (value : String) : Except Stop Given :=
  if value = "" then .error .refused else give given key value

/-- Switches that have been read, and the one that waits for its value. -/
structure Progress where
  given : Given := []
  pending : Option Key := none
deriving Repr

def readLetters (switches : List Switch) (given : Given) : List Char → Except Stop Progress
  | [] => .ok ⟨given, none⟩
  | letter :: rest =>
    match switches.find? fun switch => switch.letter = some letter with
    | none => .error .refused
    | some switch =>
      if switch.takesValue then
        match rest with
        | [] => .ok ⟨given, some switch.key⟩
        | '=' :: value => do return ⟨← giveValue given switch.key (String.ofList value), none⟩
        | value => do return ⟨← giveValue given switch.key (String.ofList value), none⟩
      else do
        readLetters switches (← give given switch.key "") rest

def readName (switches : List Switch) (given : Given) (text : List Char) :
    Except Stop Progress :=
  let name := text.takeWhile (· != '=')
  match switches.find? fun switch => switch.name.toList = name with
  | none => .error .refused
  | some switch =>
    match text.dropWhile (· != '='), switch.takesValue with
    | [], true => .ok ⟨given, some switch.key⟩
    | [], false => do return ⟨← give given switch.key "", none⟩
    | _ :: value, true => do return ⟨← giveValue given switch.key (String.ofList value), none⟩
    | _ :: _, false => .error .refused

/-- An argument that cannot be the value of the switch before it. -/
def startsSwitch : List Char → Bool
  | ['-'] => false
  | '-' :: _ => true
  | _ => false

/-- Reads the arguments after a command.  A lone pair of dashes ends the switches, and
nothing else may follow it. -/
def readSwitches (switches : List Switch) (progress : Progress) :
    List String → Except Stop Given
  | [] => if progress.pending.isSome then .error .refused else .ok progress.given
  | argument :: rest =>
    match progress.pending, argument.toList with
    | some key, text =>
      if startsSwitch text then .error .refused
      else do
        let given ← giveValue progress.given key argument
        readSwitches switches ⟨given, none⟩ rest
    | none, ['-', '-'] => if rest = [] then .ok progress.given else .error .refused
    | none, '-' :: '-' :: text => do
      readSwitches switches (← readName switches progress.given text) rest
    | none, '-' :: letter :: letters => do
      readSwitches switches (← readLetters switches progress.given (letter :: letters)) rest
    | none, _ => .error .refused

inductive Verb where
  | generate
  | init
  | validate
  | printSchema
deriving DecidableEq, Repr

def Verb.ofName? (name : String) : Option Verb :=
  if name = "generate" then some .generate
  else if name = "init" then some .init
  else if name = "validate" then some .validate
  else if name = "print-schema" then some .printSchema
  else none

/-- The switch for more log lines, which every command has. -/
def verboseSwitch : Switch := ⟨.verbose, "verbose", some 'v', false⟩

/-- The switch for help, which every command has. -/
def helpSwitch : Switch := ⟨.help, "help", some 'h', false⟩

def leadingSwitches : List Switch :=
  [verboseSwitch, helpSwitch, ⟨.version, "version", some 'V', false⟩]

def Verb.switches (verb : Verb) : List Switch :=
  let input : Switch := ⟨.input, "input", some 'i', true⟩
  let output : Switch := ⟨.output, "output", some 'o', true⟩
  let config : Switch := ⟨.config, "config", some 'c', true⟩
  [verboseSwitch, helpSwitch] ++
    match verb with
    | .generate =>
      [input, output, config, ⟨.watch, "watch", some 'w', false⟩,
        ⟨.preview, "dry-run", none, false⟩]
    | .init => [output, ⟨.force, "force", none, false⟩]
    | .validate => [⟨.path, "path", some 'p', true⟩, input, output, config]
    | .printSchema => [input, config]

structure Sources where
  input : Option Path := none
  output : Option Path := none
  config : Option Path := none
deriving DecidableEq, Repr, Inhabited

end Command

inductive Command where
  /-- Write the binding, or show it only, once or after every change of its schema. -/
  | generate (sources : Command.Sources) (watch preview : Bool)
  | init (path : Path) (force : Bool)
  /-- Compare a binding with the one that would be written. -/
  | validate (binding : Option Path) (sources : Command.Sources)
  | printSchema (sources : Command.Sources)
deriving DecidableEq, Repr

namespace Command

def pathOf (given : Given) (key : Key) : Option Path :=
  (given.lookup key).map Path.mk

def isGiven (given : Given) (key : Key) : Bool :=
  (given.lookup key).isSome

def sourcesOf (given : Given) : Sources :=
  ⟨pathOf given .input, pathOf given .output, pathOf given .config⟩

def ofVerb (verb : Verb) (given : Given) : Command :=
  match verb with
  | .generate => .generate (sourcesOf given) (isGiven given .watch) (isGiven given .preview)
  | .init => .init ((pathOf given .output).getD usualConfiguration) (isGiven given .force)
  | .validate => .validate (pathOf given .path) (sourcesOf given)
  | .printSchema => .printSchema (sourcesOf given)

/-- Reads an argument before the command, which sets nothing that the command sees. -/
def readLeading (argument : String) : Except Stop Unit := do
  match argument.toList with
  | '-' :: '-' :: text => discard (readName leadingSwitches [] text)
  | '-' :: letter :: letters => discard (readLetters leadingSwitches [] (letter :: letters))
  | _ => throw .refused

/-- What a run ends with that asks for help on a command, or on the program where none is named. -/
def helpOn : List String → Stop
  | [] => .help
  | [name] => if (Verb.ofName? name).isSome || name = "help" then .help else .refused
  | _ => .refused

def ofArguments : List String → Except Stop Command
  | [] => .error .refused
  | argument :: rest =>
    match Verb.ofName? argument with
    | some verb => do return ofVerb verb (← readSwitches verb.switches {} rest)
    | none =>
      if argument = "help" then .error (helpOn rest)
      else do
        readLeading argument
        ofArguments rest

end Command

end SchemaBinding
