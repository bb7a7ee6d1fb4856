import EventScript.Command.Arguments
import EventScript.Command.FileSystem
import EventScript.Command.Screen
import EventScript.Node.Decode
import EventScript.Node.Encode
import EventScript.Node.Outline
import EventScript.Optimizer.Program

/-! Running the command line. All that it does to the world is to read and write files through
the operations that it is given; what it prints and how it ends is its result. -/
namespace EventScript

inductive Exit where
  | success
  | failure
  | usage
  | fault (fault : Fault)
  deriving DecidableEq, Repr

/-- Without memory the run is aborted; every other fault unwinds it. -/
def Exit.code : Exit → Nat
  | success => 0
  | failure => 1
  | usage => 2
  | fault (.outOfMemory _) => 134
  | fault _ => 101

structure Outcome where
  exit : Exit
  out : String := ""
  err : String := ""
  deriving DecidableEq, Repr

namespace Outcome

def failure (screen : Screen) (message : String) (out : String := "") : Outcome where
  exit := .failure
  out := out
  err := Style.error.paint screen "error:" ++ " " ++ message ++ "\n"

def stopped (screen : Screen) (source : Option String) (out : String) : Stop → Outcome
  | .rejected rejection =>
      let (err, fault?) := rejection.screenText source screen
      ⟨fault?.elim .failure .fault, out, err⟩
  | .fault fault => ⟨.fault fault, out, ""⟩

end Outcome

def noteLines (screen : Screen) (notes : List Diagnostic) : String :=
  String.join (notes.map fun note => Style.note.paint screen "note:" ++ " " ++ note.text ++ "\n")

section

variable {m : Type → Type} [Monad m]

def loadSource (files : Files m) : Option String → m (Except String (Option String))
  | none => return .ok none
  | some path => do
      match ← files.readText path with
      | .ok text => return .ok (some text)
      | .error e => return .error ("cannot read source " ++ path ++ ": " ++ e.message)

def loadTree (files : Files m) (path : String) : m (Except String Node) := do
  match ← files.readText path with
  | .error e => return .error ("cannot read " ++ path ++ ": " ++ e.message)
  | .ok text =>
      match Node.ofText text with
      | .ok tree => return .ok tree
      | .error e => return .error (path ++ " is not a valid syntax tree: " ++ e.text)

/-- The source comes first, so its problems are the ones that are reported. -/
def load (files : Files m) (source : Option String) (file : String) :
    m (Except String (Option String × Node)) := do
  match ← loadSource files source with
  | .error message => return .error message
  | .ok source =>
      match ← loadTree files file with
      | .error message => return .error message
      | .ok tree => return .ok (source, tree)

def writeRoot (files : Files m) (screen : Screen) (output : Option String) (root : Node)
    (out : String) : m Outcome := do
  match output with
  | none => return ⟨.success, out, ""⟩
  | some path =>
      match ← files.writeText path root.toText with
      | .ok () => return ⟨.success, out, ""⟩
      | .error e => return .failure screen ("cannot write " ++ path ++ ": " ++ e.message) out

/-- Both commands. A check shows and writes nothing of the program, whatever the request says. -/
def Request.run (request : Request) (checkOnly : Bool) (files : Files m) (screen : Screen) :
    m Outcome := do
  match ← load files request.source request.file with
  | .error message => return .failure screen message
  | .ok (source, tree) =>
      let verbose := !checkOnly && request.verbose
      let dump := if checkOnly then none else request.dump
      let shown := if dump = some .ast then tree.outline else ""
      match (tree.optimizeProgram verbose).outcome with
      | .error stop => return .stopped screen source shown stop
      | .ok program =>
          let shown := shown ++ noteLines screen program.diagnostics
          if checkOnly then
            let success := Style.success.paint screen (request.file ++ ": no errors")
            return ⟨.success, shown ++ success ++ "\n", ""⟩
          else
            match program.root with
            | none => return ⟨.success, shown ++ "program fragment eliminated\n", ""⟩
            | some root =>
                let shown := shown ++ if dump = some .opt then root.outline else ""
                writeRoot files screen request.output root shown

def versionText : String := "pulsec 0.1.0\n"

def helpText : String :=
  "Optimizer for event scripts targeting the pulse VM\n\n" ++
  "Usage: pulsec [COMMAND]\n\n" ++
  "Commands:\n" ++
  "  optimize  Optimize a tree produced by the front end\n" ++
  "  check     Run the optimizer and only report errors\n" ++
  "  help      Print this message or the help of the given subcommand(s)\n\n" ++
  "Options:\n" ++
  "  -h, --help     Print help\n" ++
  "  -V, --version  Print version\n"

def Invocation.run (invocation : Invocation) (files : Files m) (screen : Screen) : m Outcome :=
  match invocation with
  | command request checkOnly => request.run checkOnly files screen
  | version => return ⟨.success, versionText, ""⟩
  | help => return ⟨.success, helpText, ""⟩
  | nothing =>
      return ⟨.failure, "No valid subcommand was used. Use --help for more information.\n", ""⟩

def runCommand (arguments : List String) (files : Files m) (screen : Screen) : m Outcome :=
  match Invocation.parse arguments with
  | .ok invocation => invocation.run files screen
  | .error e => return ⟨.usage, "", "error: " ++ e.message ++ "\n"⟩

end

end EventScript
