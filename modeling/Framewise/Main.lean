import Framewise.Command.Run
import Framewise.Service.Listener

/-!
# The program

Reads what the command line needs, runs it, writes what it leaves, and serves the logs if it
says so.
-/

namespace Framewise

/-- The variables that have a meaning. -/
def variableNames : List String := ["PORT", "HOST", "NODE_ENV", "LOG_API_BODY"]

/-- The values that these variables have now. -/
def readEnvironment : IO Service.Environment := do
  let values ← variableNames.mapM fun name => return (name, ← IO.getEnv name)
  return fun name => (valueOf? name values).join

/-- The files of these paths that can be read. -/
def readFiles (paths : List String) : IO (String → Option Text.Chunk) := do
  let files ← paths.eraseDups.mapM fun path : String => do
    let content ← (IO.FS.readBinFile path).toBaseIO
    return (path, content.toOption.map fun bytes => Text.Chunk.bytes bytes.toList)
  return fun path => (valueOf? path files).join

/-- Standard input to its end, chunk by chunk after those read before in reverse. -/
partial def readChunks (input : IO.FS.Stream) (read : List Text.Chunk) : IO (List Text.Chunk) := do
  let bytes ← input.read 65536
  if bytes.isEmpty then return read.reverse
  else readChunks input (.bytes bytes.toList :: read)

/-- Run a command line in the world. -/
def runProgram (argv : List String) : IO UInt32 := do
  let needs := Command.needs argv
  let directory ← readFiles needs.paths
  let input ← if needs.input then readChunks (← IO.getStdin) [] else pure []
  let environment ← readEnvironment
  let outcome := Command.run argv { directory, input, environment }
  IO.print outcome.output
  (← IO.getStdout).flush
  outcome.notices.forM Service.writeNotice
  if let some (store, address) := outcome.serving then
    Service.listen (.ofEnvironment environment) store address
  return UInt32.ofNat outcome.code

end Framewise

def main (argv : List String) : IO UInt32 := do
  try Framewise.runProgram argv
  catch e =>
    Framewise.Service.writeNotice (.text ("error: " ++ toString e ++ "\n"))
    return 1
