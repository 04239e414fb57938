import Offload.CommandLine

namespace Offload

def readFile? (path : Bytes) : IO (Option Bytes) := do
  let some name := String.fromUTF8? ⟨path.toArray⟩ | return none
  let .ok contents ← (IO.FS.readBinFile name).toBaseIO | return none
  return some contents.data.toList

def offline : Environment := { resolutions := [.failure (utf8 "no network")] }

def writeBytes (stream : IO.FS.Stream) (bytes : Bytes) : IO Unit := stream.write ⟨bytes.toArray⟩

def writeEntry (stream : IO.FS.Stream) (entry : Entry) : IO Unit :=
  writeBytes stream (entry.level.name ++ utf8 ": " ++ entry.text ++ [10])

end Offload

open Offload in
def main (args : List String) : IO UInt32 := do
  let args := args.map utf8
  let config ← readFile? (CommandLine.configPath args)
  let input ← readFile? (CommandLine.inputPath args)
  let files (path : Bytes) := if path = CommandLine.configPath args then config else input
  let outcome := CommandLine.run args files offline
  let stderr ← IO.getStderr
  outcome.env.journal.toList.forM (writeEntry stderr)
  writeBytes (← IO.getStdout) outcome.stdout
  writeBytes stderr outcome.stderr
  return outcome.exit.toUInt32
