import Offload.Config.Basic
import Offload.Json.Parser
import Offload.Json.Printer

namespace Offload.Config

def load (path : Bytes) (contents : Option Bytes) : Attempt Json :=
  match contents with
  | none => do
    Attempt.log (.error (utf8 "Unable to open configuration file: " ++ path))
    throw (.cannotOpen .readConfig path)
  | some text =>
    match Json.read text with
    | .ok (json, _) => do
      Attempt.log (.info (utf8 "Configuration file loaded successfully: " ++ path))
      return json
    | .error .malformed => do
      Attempt.log (.error (utf8 "JSON parse error in file " ++ path ++ utf8 ": "
        ++ Json.Fault.message .malformed))
      return .empty
    | .error fault => throw (.json fault)

/-- The contents of a configuration file that is written: the value, indented by four blanks.
`writable` says whether the file can be opened. -/
def save (path : Bytes) (writable : Bool) (json : Json) : Attempt Bytes :=
  if writable then
    match json.dump (.indented 4) with
    | .ok text => do
      Attempt.log (.info (utf8 "Configuration file saved successfully: " ++ path))
      return text
    | .error fault => throw (.json fault)
  else do
    Attempt.log (.error (utf8 "Unable to open configuration file for writing: " ++ path))
    throw (.cannotOpen .writeConfig path)

def loadClient (path : Bytes) (contents : Option Bytes) : Attempt Config := do
  ofJson (← load path contents)

end Offload.Config
