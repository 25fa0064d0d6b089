import VisualEncoding.Channel.Role

/-!
# Command lines

The command completes one definition, or encodes a dataset from files. Options are written `--name value`
or `--name=value`, in any order and each at most once; the flag for local time may stand before or after
the name of the task. What cannot be understood is a usage fault.
-/

namespace VisualEncoding.Command

/-- The tasks that there is help about. -/
inductive Topic where
  | overview
  | complete
  | encode
  /-- Help itself. -/
  | help
  deriving Repr, DecidableEq

/-- What the command is asked to do. -/
inductive Task where
  | help (topic : Topic)
  | version
  /-- Complete the definition of a channel. -/
  | complete (role : ChannelRole) (definition : String)
  /-- Encode a dataset; all but the last are paths of files to be read. -/
  | encode (channels encoding data : String) (output : Option String)
  deriving Repr, DecidableEq

/-- A task and the time zone it is done in. -/
structure Invocation where
  task : Task
  isLocal : Bool
  deriving Repr, DecidableEq

/-- The words of a command line cannot be understood. -/
inductive UsageFault where
  | unknown (word : String)
  | missingValue (option : String)
  | repeated (option : String)
  | invalidValue (option : String)
  | required (option : String)
  | missingTask
  deriving Repr, DecidableEq

/-- The options that were given. -/
structure Options where
  values : List (String × String) := []
  isLocal : Bool := false
  /-- Whether help was asked for, which ends the reading. -/
  help : Bool := false

/-- The flag for local time. -/
def localFlag : String := "--local-time"

/-- The flags that ask for help. -/
def isHelpFlag (word : String) : Bool := word == "--help" || word.startsWith "-h"

/-- Whether a word cannot be a value, because it looks like an option. -/
def isOptionLike (word : String) : Bool := word.startsWith "-" && word != "-"

/-- Whether a text may be the value of an option. Only a definition may be empty, and a role has to be
known. -/
def isValidValue (option value : String) : Bool :=
  if option == "--channel-type" then (ChannelRole.ofName? value).isSome
  else option == "--def" || value != ""

namespace Options

/-- Adds the value of an option. -/
def add (o : Options) (option value : String) : Except UsageFault Options :=
  if !isValidValue option value then .error (.invalidValue option)
  else if (o.values.lookup option).isSome then .error (.repeated option)
  else .ok { o with values := o.values ++ [(option, value)] }

/-- Turns on local time. -/
def turnOnLocal (o : Options) : Except UsageFault Options :=
  if o.isLocal then .error (.repeated localFlag) else .ok { o with isLocal := true }

/-- An option and its value written as one word. -/
def splitWord (word : String) : String × Option String :=
  let cs := word.toList
  let name := cs.takeWhile (· != '=')
  (String.ofList name, (cs.drop (name.length + 1) |> fun rest =>
    if name.length < cs.length then some (String.ofList rest) else none))

/-- Reads the words after the name of a task that has the given options. -/
def read (known : List String) (o : Options) : List String → Except UsageFault Options
  | [] => .ok o
  | word :: rest =>
    if word == localFlag then do read known (← o.turnOnLocal) rest
    else if isHelpFlag word then .ok { o with help := true }
    else if word == "--" then
      match rest with
      | [] => .ok o
      | extra :: _ => .error (.unknown extra)
    else if known.contains word then
      match rest with
      | [] => .error (.missingValue word)
      | value :: rest =>
        if isOptionLike value then .error (.missingValue word)
        else do read known (← o.add word value) rest
    else
      match splitWord word with
      | (name, some value) =>
        if known.contains name then do read known (← o.add name value) rest
        else .error (.unknown word)
      | (_, none) => .error (.unknown word)

/-- The value of an option that has to be given. -/
def required (o : Options) (option : String) : Except UsageFault String :=
  match o.values.lookup option with
  | some value => .ok value
  | none => .error (.required option)

end Options

/-- Reads the options of the completion of a definition. -/
def readComplete (isLocal : Bool) (words : List String) : Except UsageFault Invocation := do
  let o ← Options.read ["--channel-type", "--def"] {} words
  if o.help then return { task := .help .complete, isLocal }
  let role ← o.required "--channel-type"
  let definition ← o.required "--def"
  match ChannelRole.ofName? role with
  | some role => return { task := .complete role definition, isLocal := isLocal || o.isLocal }
  | none => throw (.invalidValue "--channel-type")

/-- Reads the options of the encoding of a dataset. -/
def readEncode (isLocal : Bool) (words : List String) : Except UsageFault Invocation := do
  let o ← Options.read ["--channels", "--encoding", "--data", "--output"] {} words
  if o.help then return { task := .help .encode, isLocal }
  let channels ← o.required "--channels"
  let encoding ← o.required "--encoding"
  let data ← o.required "--data"
  return { task := .encode channels encoding data (o.values.lookup "--output"),
           isLocal := isLocal || o.isLocal }

/-- Reads what help is asked for about. -/
def readHelp : List String → Except UsageFault Topic
  | [] => .ok .overview
  | ["complete"] => .ok .complete
  | ["encode"] => .ok .encode
  | ["help"] => .ok .help
  | word :: _ => .error (.unknown word)

/-- Reads a command line; `isLocal` says whether local time has been turned on before. -/
def Invocation.readFrom (isLocal : Bool) : List String → Except UsageFault Invocation
  | [] => .error .missingTask
  | word :: rest =>
    if word == localFlag then
      if isLocal then .error (.repeated localFlag) else readFrom true rest
    else if isHelpFlag word then .ok { task := .help .overview, isLocal }
    else if word == "--version" || word.startsWith "-V" then .ok { task := .version, isLocal }
    else match word with
      | "complete" => readComplete isLocal rest
      | "encode" => readEncode isLocal rest
      | "help" => do return { task := .help (← readHelp rest), isLocal }
      | word => .error (.unknown word)

/-- Reads a command line. -/
def Invocation.read (words : List String) : Except UsageFault Invocation := readFrom false words

/-- The text of a usage fault. -/
def UsageFault.message : UsageFault → String
  | .unknown word => "unexpected argument '" ++ word ++ "'"
  | .missingValue option => "a value is required for '" ++ option ++ "'"
  | .repeated option => "the argument '" ++ option ++ "' cannot be used multiple times"
  | .invalidValue option => "invalid value for '" ++ option ++ "'"
  | .required option => "the required argument '" ++ option ++ "' was not provided"
  | .missingTask => "a subcommand is required"

end VisualEncoding.Command
