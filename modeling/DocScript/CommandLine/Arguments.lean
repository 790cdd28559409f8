/-!
# Command line arguments

The arguments of a command: options, one path, and for some commands more arguments for the program
that is run. From the first of those on, and after two hyphens, nothing is an option any more.
-/

namespace DocScript

/-- An option of a command. -/
structure OptionSpec where
  long : String
  short : Option Char := none
  takesValue : Bool := false
  /-- The value is a path, which cannot be empty. -/
  isPath : Bool := false
  deriving DecidableEq, Inhabited, Repr

/-- What a command takes besides its path. -/
structure CommandSpec where
  options : List OptionSpec := []
  takesRest : Bool := false
  deriving DecidableEq, Inhabited, Repr

/-- Why arguments do not lead to a command. -/
inductive UsageStop where
  /-- Help was asked for. -/
  | help
  | misuse
  deriving DecidableEq, Inhabited, Repr

/-- What becomes of a request for help on topics: there is help on the whole, on each command and on
help itself, and none below these. -/
def UsageStop.ofTopics (commands : List String) : List String → UsageStop
  | [] => .help
  | [topic] => if ("help" :: commands).contains topic then .help else .misuse
  | _ => .misuse

/-- What becomes of a line that begins with none of the commands. -/
def UsageStop.ofLine (commands : List String) : List String → UsageStop
  | [] => .misuse
  | "help" :: topics => ofTopics commands topics
  | argument :: _ => if argument = "--help" || argument.startsWith "-h" then .help else .misuse

/-- Arguments that were read so far. -/
structure ArgumentReader where
  path : Option String := none
  rest : List String := []
  /-- The options that were given, with their values. -/
  given : List (OptionSpec × String) := []
  /-- An option whose value comes next. -/
  pending : Option OptionSpec := none
  /-- Nothing is an option any more. -/
  literal : Bool := false
  deriving Inhabited, Repr

namespace ArgumentReader

/-- Notes an option, which can be given once. -/
def give (reader : ArgumentReader) (option : OptionSpec) (value : String) :
    Except UsageStop ArgumentReader :=
  if reader.given.any (·.1 == option) || (option.isPath && value.isEmpty) then .error .misuse
  else .ok { reader with given := reader.given ++ [(option, value)], pending := none }

/-- Takes an argument that is no option. -/
def take (spec : CommandSpec) (reader : ArgumentReader) (argument : String) :
    Except UsageStop ArgumentReader :=
  if reader.pending.isSome then .error .misuse
  else
    match reader.path with
    | none =>
        if argument.isEmpty then .error .misuse else .ok { reader with path := some argument }
    | some _ =>
        if spec.takesRest then
          .ok { reader with rest := reader.rest ++ [argument], literal := true }
        else .error .misuse

/-- Takes an argument that may be the value of an option. -/
def takeValue (spec : CommandSpec) (reader : ArgumentReader) (argument : String) :
    Except UsageStop ArgumentReader :=
  match reader.pending with
  | some option => reader.give option argument
  | none => reader.take spec argument

/-- Whether an argument that looks like an option may belong to the program. -/
def takesHyphens (spec : CommandSpec) (reader : ArgumentReader) : Bool :=
  spec.takesRest && reader.path.isSome

/-- Takes an option with the value that is attached to it, if there is one. -/
def takeOption (reader : ArgumentReader) (option : OptionSpec) (attached : Option String) :
    Except UsageStop ArgumentReader :=
  if reader.pending.isSome then .error .misuse
  else
    match option.takesValue, attached with
    | true, some value => reader.give option value
    | true, none => .ok { reader with pending := some option }
    | false, some _ => .error .misuse
    | false, none => reader.give option ""

/-- Asks for help, which only an option without its value prevents. -/
def askHelp (reader : ArgumentReader) : UsageStop :=
  if reader.pending.isSome then .misuse else .help

/-- Takes an argument that begins with two hyphens; `body` is what follows them. -/
def takeLong (spec : CommandSpec) (reader : ArgumentReader) (body : List Char) :
    Except UsageStop ArgumentReader :=
  let name := String.ofList (body.takeWhile (· ≠ '='))
  let attached :=
    match body.dropWhile (· ≠ '=') with
    | [] => none
    | _ :: value => some (String.ofList value)
  match spec.options.find? (·.long == name) with
  | some option => reader.takeOption option attached
  | none =>
      if name = "help" then
        .error (if attached.isSome then .misuse else reader.askHelp)
      else if reader.takesHyphens spec then
        reader.takeValue spec ("--" ++ String.ofList body)
      else .error .misuse

/-- Takes an argument that begins with one hyphen; `letters` are what follows it. The rest behind
the letter of an option is its value, with or without an equals sign before it. -/
def takeShort (spec : CommandSpec) (reader : ArgumentReader) (letters : List Char) :
    Except UsageStop ArgumentReader :=
  let isKnown (letter : Char) := letter == 'h' || spec.options.any (·.short == some letter)
  if reader.takesHyphens spec && letters.any (!isKnown ·) then
    reader.takeValue spec ("-" ++ String.ofList letters)
  else
    match letters with
    | [] => .error .misuse
    | letter :: rest =>
        match spec.options.find? (·.short == some letter) with
        | some option =>
            match rest with
            | [] => reader.takeOption option none
            | '=' :: value => reader.takeOption option (some (String.ofList value))
            | value => reader.takeOption option (some (String.ofList value))
        | none => .error (if letter = 'h' then reader.askHelp else .misuse)

/-- Takes the next argument. -/
def next (spec : CommandSpec) (reader : ArgumentReader) (argument : String) :
    Except UsageStop ArgumentReader :=
  if reader.literal then reader.take spec argument
  else
    match argument.toList with
    | ['-', '-'] => .ok { reader with literal := true }
    | '-' :: '-' :: body => reader.takeLong spec body
    | '-' :: letter :: letters => reader.takeShort spec (letter :: letters)
    | _ => reader.takeValue spec argument

/-- Takes all arguments. -/
def takeAll (spec : CommandSpec) : List String → ArgumentReader → Except UsageStop ArgumentReader
  | [], reader => .ok reader
  | argument :: rest, reader =>
      match reader.next spec argument with
      | .error stop => .error stop
      | .ok reader => takeAll spec rest reader

end ArgumentReader

/-- The arguments of a command. -/
structure CommandArguments where
  path : String
  rest : List String
  given : List (OptionSpec × String)
  deriving Inhabited, Repr

namespace CommandArguments

/-- The value of an option, if it was given. -/
def value? (arguments : CommandArguments) (option : OptionSpec) : Option String :=
  arguments.given.lookup option

def has (arguments : CommandArguments) (option : OptionSpec) : Bool :=
  (arguments.value? option).isSome

/-- Reads the arguments of a command. -/
def read (spec : CommandSpec) (arguments : List String) : Except UsageStop CommandArguments :=
  match ArgumentReader.takeAll spec arguments {} with
  | .error stop => .error stop
  | .ok reader =>
      match reader.path, reader.pending with
      | some path, none => .ok ⟨path, reader.rest, reader.given⟩
      | _, _ => .error .misuse

end CommandArguments

end DocScript
