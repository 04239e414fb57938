import Offload.Session.Basic

namespace Offload.Session

def submitAndWait (session : Session) (definition : Definition) (input : Bytes) (options : Options)
    (timeout : Int) : Except Failure JobResult × Session :=
  match session.submit definition input options with
  | (.ok id, submitted) => submitted.result id timeout
  | (.error failure, refused) => (.error failure, refused)

/-- The result of a job, over a connection of its own. An unreachable node is a failure here, and
nothing is run in its place. -/
def once (config : Config) (env : Environment) (definition : Definition) (input : Bytes)
    (options : Options) (timeout : Int) : Except Failure JobResult × Session :=
  match (ofConfig config env).connect with
  | (false, unconnected) =>
    (.error (.unreachable (Link.nameEndpoint config.host config.port)), unconnected)
  | (true, connected) =>
    let (outcome, ended) := connected.submitAndWait definition input options timeout
    (outcome, ended.disconnect)

end Offload.Session
