import Offload.Json.Fault

namespace Offload

inductive FilePurpose
  | readConfig | writeConfig | readInput
  deriving DecidableEq, Repr

/-- The classes of failure that a caller can tell apart. -/
inductive Failure.Kind
  | argument
  | state
  | domain
  | runtime
  | range
  | length
  | future
  | jsonType
  | jsonRange
  | jsonSyntax
  /-- The link to the peer failed in a way that has no class of its own. -/
  | link
  | notConnected
  | callTimeout
  | connectionClosed
  | remote
  | unknownJob
  | jobTimeout
  | jobFailed
  deriving DecidableEq, Repr

/-- Why an operation gave no result. -/
inductive Failure
  | unknownStrategy (name : Bytes)
  | zeroChunkSize
  | chunkBoundsReversed
  | emptyDelimiter
  | zeroTargetCount
  | base64Length
  | base64Malformed
  | base64Overrun
  | base64Overlong
  | digestFinished
  | emptyJobName
  | definitionFrozen (job part : Bytes)
  | jobBoundsReversed
  | manifestLacks (key : Bytes)
  | manifestMalformed (fault : Json.Fault)
  | noEndpoint
  | noNode
  | cannotOpen (purpose : FilePurpose) (path : Bytes)
  | json (fault : Json.Fault)
  | unresolved (host reason : Bytes)
  | namelessService
  | transport (reason : Bytes)
  | notConnected (endpoint : Bytes)
  | unreachable (endpoint : Bytes)
  | callTimeout (milliseconds : Int)
  | aborted
  /-- A call lost the promise of its outcome. -/
  | closed (endpoint : Bytes)
  /-- The peer answered with a status or body that is no success. -/
  | remote (status : Int) (text : Bytes)
  | unknownJob (id : Bytes)
  | jobTimeout (id : Bytes) (milliseconds : Int)
  /-- A job ended without result; the text is the record's. -/
  | jobFailed (text : Bytes)
  /-- A caller's function failed for a reason of its own. -/
  | raised (kind : Failure.Kind) (text : Bytes)
  deriving DecidableEq, Repr

def FilePurpose.complaint : FilePurpose → Bytes
  | .readConfig => utf8 "Could not open config file: "
  | .writeConfig => utf8 "Could not open config file for writing: "
  | .readInput => utf8 "Could not open input file: "

def Json.Fault.kind : Json.Fault → Failure.Kind
  | .memberOf _ | .optionalMemberOf _ | .wrongShape _ _ => .jsonType
  | .invalidByte _ _ | .incompleteText _ => .jsonType
  | .missingKey _ | .overflow _ => .jsonRange
  | .malformed => .jsonSyntax

namespace Failure

def kind : Failure → Kind
  | unknownStrategy _ | zeroChunkSize | chunkBoundsReversed => .argument
  | emptyDelimiter | zeroTargetCount => .argument
  | base64Length | base64Malformed => .argument
  | base64Overrun | base64Overlong => .length
  | digestFinished | definitionFrozen _ _ => .state
  | emptyJobName | jobBoundsReversed | manifestLacks _ | manifestMalformed _ => .argument
  | noEndpoint | noNode => .argument
  | cannotOpen _ _ => .runtime
  | json fault => fault.kind
  | unresolved _ _ | namelessService | transport _ => .link
  | notConnected _ | unreachable _ => .notConnected
  | callTimeout _ => .callTimeout
  | aborted | closed _ => .connectionClosed
  | remote _ _ => .remote
  | unknownJob _ => .unknownJob
  | jobTimeout _ _ => .jobTimeout
  | jobFailed _ => .jobFailed
  | raised kind _ => kind

def wording : Failure → Bytes
  | unknownStrategy name => utf8 "Unknown split strategy: " ++ name
  | zeroChunkSize => utf8 "Chunk size must be greater than zero"
  | chunkBoundsReversed => utf8 "Minimum chunk size exceeds maximum chunk size"
  | emptyDelimiter => utf8 "Record delimiter must not be empty"
  | zeroTargetCount => utf8 "Target chunk count must be greater than zero"
  | base64Length => utf8 "base64 input length is not a multiple of 4"
  | base64Malformed => utf8 "malformed base64 input"
  | base64Overrun | base64Overlong => utf8 "basic_string::_M_replace_aux"
  | digestFinished => utf8 "SHA-256 digest already finalized"
  | emptyJobName => utf8 "Job name must not be empty"
  | definitionFrozen job part =>
    utf8 "Job " ++ job ++ utf8 " is already validated, cannot set " ++ part
  | jobBoundsReversed => utf8 "minChunkSize exceeds maxChunkSize"
  | manifestLacks key => utf8 "Manifest is missing field: " ++ key
  | manifestMalformed fault => utf8 "Malformed manifest: " ++ fault.message
  | noEndpoint => utf8 "Client configuration needs a non-empty host and a non-zero port"
  | noNode => utf8 "ComputeClient needs a node client"
  | cannotOpen purpose path => purpose.complaint ++ path
  | json fault => fault.message
  | unresolved host reason => utf8 "Could not resolve " ++ host ++ utf8 ": " ++ reason
  | namelessService => utf8 "Handshake reply did not name a service"
  | transport reason => utf8 "Transport error: " ++ reason
  | notConnected endpoint => utf8 "Not connected to " ++ endpoint
  | unreachable endpoint => utf8 "Unable to connect to compute service at " ++ endpoint
  | callTimeout milliseconds =>
    utf8 "Call timed out after " ++ Bytes.decimalInt milliseconds ++ utf8 " ms"
  | aborted => utf8 "Request aborted before a reply arrived"
  | closed endpoint =>
    utf8 "Connection to " ++ endpoint ++ utf8 " closed before the call completed"
  | remote _ text => text
  | unknownJob id => utf8 "Unknown job " ++ id
  | jobTimeout id milliseconds =>
    utf8 "Job " ++ id ++ utf8 " did not finish within " ++ Bytes.decimalInt milliseconds
      ++ utf8 " ms"
  | jobFailed text => text
  | raised _ text => text

/-- The text of a failure: its wording up to the first zero byte. -/
def message (failure : Failure) : Bytes := failure.wording.takeWhile (· ≠ 0)

theorem bind_eq_ok_iff {α β : Type} {first : Except Failure α} {next : α → Except Failure β}
    {result : β} :
    (first >>= next) = .ok result ↔ ∃ value, first = .ok value ∧ next value = .ok result := by
  cases first with
  | error failure => exact ⟨nofun, nofun⟩
  | ok value =>
    constructor
    · intro hnext
      exact ⟨value, rfl, hnext⟩
    · rintro ⟨_, hvalue, hnext⟩
      cases hvalue
      exact hnext

end Failure

end Offload
