import Offload.Config.File
import Offload.Session.Basic
import Offload.WordCount

namespace Offload.CommandLine

structure Outcome where
  exit : Nat
  stdout : Bytes := []
  stderr : Bytes := []
  env : Environment

def sampleInput : Bytes :=
  utf8 "the quick brown fox\njumps over the lazy dog\nand the dog sleeps\n"

def defaultConfigPath : Bytes := utf8 "config/client_config.json"

def configPath (args : List Bytes) : Bytes := (args[0]?).getD defaultConfigPath

def inputPath (args : List Bytes) : Bytes := (args[1]?).getD []

def resultTimeout : Int := 60000

def breakOff (env : Environment) (stdout : Bytes) (failure : Failure) : Outcome where
  exit := 1
  stdout := stdout
  stderr := utf8 "\n!!! Critical Error: " ++ failure.message ++ utf8 " !!!\n"
  env := env

def heading (config : Config) (input : Bytes) : Bytes :=
  utf8 "\n=== Compute Client ===\nOrchestrator: " ++ Link.nameEndpoint config.host config.port
    ++ utf8 "\nInput: " ++ Bytes.decimal input.length ++ utf8 " bytes\n\n"

def summary (id : Bytes) (status : JobStatus) (result : JobResult) : Bytes :=
  utf8 "Job:    " ++ id ++ utf8 " (" ++ status.status.name ++ utf8 ")\nWords:  " ++ result.data
    ++ utf8 "\nWorker: " ++ result.worker ++ utf8 "\n"

def perform (session : Session) (job : Definition) (input : Bytes) :
    Except Failure Bytes × Session :=
  match session.submit job input session.defaults with
  | (.error failure, session) => (.error failure, session)
  | (.ok id, session) =>
    match session.result id resultTimeout with
    | (.error failure, session) => (.error failure, session)
    | (.ok result, session) =>
      match session.status id with
      | (.error failure, session) => (.error failure, session)
      | (.ok status, session) => (.ok (summary id status result), (session.cleanup id).2)

def runJob (config : Config) (env : Environment) (lines : Chunker) (source input : Bytes) :
    Outcome :=
  let opened := Session.ofConfig config env
  let (connected, session) := opened.connect
  let session :=
    if connected then session
    else session.log (.warning (utf8 "Orchestrator unreachable, the job will run on this host"))
  let (outcome, session) := perform session (WordCount.job lines source) input
  let env := session.disconnect.node.link.env
  match outcome with
  | .ok text => { exit := 0, stdout := heading config input ++ text, env }
  | .error failure => breakOff env (heading config input) failure

/-- A run with the given arguments. `files` tells the contents of the files that can be opened. -/
def run (args : List Bytes) (files : Bytes → Option Bytes) (env : Environment) : Outcome :=
  let inputPath := inputPath args
  let loading : Logged (Except Failure Config) :=
    (Config.loadClient (configPath args) (files (configPath args))).run
  let env := env.logAll loading.entries
  match loading.value with
  | .error failure => breakOff env [] failure
  | .ok config =>
    let env := { env with journal := env.journal.setLevel config.logLevel }
    match if inputPath = [] then some sampleInput else files inputPath with
    | none => breakOff env [] (.cannotOpen .readInput inputPath)
    | some input =>
      match Chunker.make config.chunk.size 1 config.chunk.greatest .lineBased [10, 10] with
      | .error failure => breakOff env [] failure
      | .ok lines =>
        runJob config env lines (if inputPath = [] then utf8 "sample" else inputPath) input

end Offload.CommandLine
