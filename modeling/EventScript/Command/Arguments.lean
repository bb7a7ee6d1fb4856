/-! The arguments of the command line. Options may stand before and after the file, short ones may
be joined, a value may be attached to its option, and two dashes end the options. -/
namespace EventScript

inductive Stage where
  | ast | opt
  deriving DecidableEq, Repr

/-- What is asked of the optimizer, by either command. -/
structure Request where
  file : String
  source : Option String := none
  verbose : Bool := false
  dump : Option Stage := none
  output : Option String := none
  deriving DecidableEq, Repr

inductive Invocation where
  | command (request : Request) (checkOnly : Bool)
  | version
  | help
  | nothing
  deriving DecidableEq, Repr

inductive UsageError where
  | unknownCommand (name : String)
  | unknownOption (name : String)
  | missingValue (name : String)
  | unexpectedValue (name : String)
  | invalidValue (name value : String)
  | repeatedOption (name : String)
  | missingFile
  | extraArgument (argument : String)
  deriving DecidableEq, Repr

def UsageError.message : UsageError → String
  | unknownCommand name => "unrecognized subcommand '" ++ name ++ "'"
  | unknownOption name => "unexpected argument '" ++ name ++ "' found"
  | missingValue name => "a value is required for '--" ++ name ++ "' but none was supplied"
  | unexpectedValue name => "unexpected value for '--" ++ name ++ "' found"
  | invalidValue name value => "invalid value '" ++ value ++ "' for '--" ++ name ++ "'"
  | repeatedOption name => "the argument '--" ++ name ++ "' cannot be used multiple times"
  | missingFile => "the following required arguments were not provided: <file>"
  | extraArgument argument => "unexpected argument '" ++ argument ++ "' found"

namespace Arguments

inductive Command where
  | optimize | check
  deriving DecidableEq, Repr

inductive Key where
  | verbose | dump | output | source | help
  deriving DecidableEq, Repr

def Key.short : Key → Char
  | verbose => 'v'
  | dump => 'd'
  | output => 'o'
  | source => 's'
  | help => 'h'

def Key.long : Key → String
  | verbose => "verbose"
  | dump => "dump"
  | output => "output"
  | source => "source"
  | help => "help"

def Key.takesValue : Key → Bool
  | verbose | help => false
  | dump | output | source => true

def Command.keys : Command → List Key
  | optimize => [.verbose, .dump, .output, .source, .help]
  | check => [.source, .help]

structure Draft where
  file : Option String := none
  verbose : Bool := false
  dump : Option Stage := none
  output : Option String := none
  source : Option String := none
  help : Bool := false
  deriving DecidableEq, Repr

namespace Draft

def setFile (draft : Draft) (file : String) : Except UsageError Draft :=
  match draft.file with
  | none => .ok { draft with file := some file }
  | some _ => .error (.extraArgument file)

def setFlag (draft : Draft) (key : Key) : Except UsageError Draft :=
  match key with
  | .help => .ok { draft with help := true }
  | _ =>
      if draft.verbose then .error (.repeatedOption key.long)
      else .ok { draft with verbose := true }

def setValue (draft : Draft) (key : Key) (value : String) : Except UsageError Draft :=
  match key with
  | .dump =>
      if draft.dump.isSome then .error (.repeatedOption key.long)
      else if value = "ast" then .ok { draft with dump := some .ast }
      else if value = "opt" then .ok { draft with dump := some .opt }
      else .error (.invalidValue key.long value)
  | .output =>
      if draft.output.isSome then .error (.repeatedOption key.long)
      else .ok { draft with output := some value }
  | _ =>
      if draft.source.isSome then .error (.repeatedOption key.long)
      else .ok { draft with source := some value }

def invocation (draft : Draft) (command : Command) : Except UsageError Invocation :=
  if draft.help then .ok .help
  else
    match draft.file with
    | none => .error .missingFile
    | some file =>
        let request := ⟨file, draft.source, draft.verbose, draft.dump, draft.output⟩
        .ok (.command request (command = .check))

end Draft

abbrev Pending := Draft × Option Key

def long (command : Command) (draft : Draft) (body : List Char) : Except UsageError Pending :=
  let name := String.ofList (body.takeWhile (· ≠ '='))
  let value? := (body.dropWhile (· ≠ '=')).tail?.map String.ofList
  match command.keys.find? fun key => key.long = name, value? with
  | none, _ => .error (.unknownOption ("--" ++ name))
  | some key, some value =>
      if key.takesValue then do return (← draft.setValue key value, none)
      else .error (.unexpectedValue name)
  | some key, none =>
      if key.takesValue then .ok (draft, some key) else do return (← draft.setFlag key, none)

/-- Short options that are joined after one dash; nothing is looked at after a request for help. -/
def shorts (command : Command) (draft : Draft) : List Char → Except UsageError Pending
  | [] => .ok (draft, none)
  | c :: rest =>
      match command.keys.find? fun key => key.short = c with
      | none => .error (.unknownOption ("-" ++ String.singleton c))
      | some key =>
          if key.takesValue then
            match rest with
            | [] => .ok (draft, some key)
            | '=' :: value => do return (← draft.setValue key (String.ofList value), none)
            | value => do return (← draft.setValue key (String.ofList value), none)
          else do
            let draft ← draft.setFlag key
            if draft.help then return (draft, none) else shorts command draft rest

def filesOnly (draft : Draft) : List String → Except UsageError Draft
  | [] => .ok draft
  | file :: rest => do filesOnly (← draft.setFile file) rest

/-- The arguments of a command. A single dash is a file or a value like any other. -/
def collect (command : Command) : Pending → List String → Except UsageError Draft
  | (draft, none), [] => .ok draft
  | (_, some key), [] => .error (.missingValue key.long)
  | (draft, pending), argument :: rest =>
      if draft.help then .ok draft
      else
        match argument.toList, pending with
        | '-' :: _ :: _, some key => .error (.missingValue key.long)
        | _, some key => do collect command (← draft.setValue key argument, none) rest
        | ['-', '-'], none => filesOnly draft rest
        | '-' :: '-' :: body, none => do collect command (← long command draft body) rest
        | '-' :: c :: body, none => do
            collect command (← shorts command draft (c :: body)) rest
        | _, none => do collect command (← draft.setFile argument, none) rest

def parseCommand (command : Command) (arguments : List String) : Except UsageError Invocation := do
  (← collect command ({}, none) arguments).invocation command

end Arguments

open Arguments in
def Invocation.parse : List String → Except UsageError Invocation
  | [] | ["--"] => .ok .nothing
  | "optimize" :: rest => parseCommand .optimize rest
  | "check" :: rest => parseCommand .check rest
  | ["help"] | ["help", "optimize"] | ["help", "check"] | ["help", "help"] => .ok .help
  | "--version" :: _ => .ok .version
  | "--help" :: _ => .ok .help
  | argument :: _ =>
      match argument.toList with
      | '-' :: 'V' :: _ => .ok .version
      | '-' :: 'h' :: _ => .ok .help
      | '-' :: _ :: _ => .error (.unknownOption argument)
      | _ => .error (.unknownCommand argument)

end EventScript
