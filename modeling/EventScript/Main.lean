import EventScript.Command.Run

/-! The program: the command line on the files of the operating system. -/
namespace EventScript

/-- The details of a system error come with or without a capital, by the call that failed. -/
def fileError (e : IO.Error) : FileError :=
  match e with
  | .noFileOrDirectory .. => .notFound
  | .inappropriateType _ _ details =>
      match details.toLower with
      | "not a directory" => .notDirectory
      | "is a directory" => .isDirectory
      | _ => .other e.toString
  | .invalidArgument _ _ details =>
      if details.toLower.endsWith "name too long" then .nameTooLong else .other e.toString
  | other => .other other.toString

def systemFiles : Files IO where
  readText path := do
    match ← (IO.FS.readBinFile path).toBaseIO with
    | .error e => return .error (fileError e)
    | .ok content =>
        match String.fromUTF8? content with
        | some text => return .ok text
        | none => return .error .notText
  writeText path text := do
    match ← (IO.FS.writeFile path text).toBaseIO with
    | .error e => return .error (fileError e)
    | .ok () => return .ok ()

end EventScript

open EventScript in
def main (arguments : List String) : IO UInt32 := do
  let forced := (← IO.getEnv "CLICOLOR_FORCE").any (· ≠ "0")
  let outcome ← runCommand arguments systemFiles { color := forced }
  IO.print outcome.out
  IO.eprint outcome.err
  if let .fault fault := outcome.exit then
    IO.eprintln fault.message
  return outcome.exit.code.toUInt32
