/-
  The program: reads the script that the arguments name, and prints the response.
-/
import Tao.Command

namespace Tao

/-- The contents of a file, or why there are none. -/
def readContents (file : String) : IO Command.FileContents := do
  try
    let bytes ← IO.FS.readBinFile file
    match String.fromUTF8? bytes with
    | some text => return .text text
    | none => return .unreadable "stream did not contain valid UTF-8"
  catch e => return .unreadable (toString e)

/-- Reads the script that an invocation wants, and responds. -/
def respond : Command.Invocation → IO Command.Response
  | .answer response => return response
  | .script file task config => do
    let contents ← readContents file
    return (Command.Invocation.script file task config).respond fun _ => contents

end Tao

/-- Runs the command. -/
def main (arguments : List String) : IO UInt32 := do
  let response ← Tao.respond (.ofArguments arguments)
  (← IO.getStdout).putStr response.stdout
  (← IO.getStderr).putStr response.stderr
  return response.code
