import Offload.Proofs.Link.Clock
import Offload.Proofs.Session.Delivered

namespace Offload.Session

open JobRecord

variable {session : Session} {id : Bytes} {record : JobRecord}

theorem sleep_clock (session : Session) (milliseconds : Nat) :
    (session.sleep milliseconds).clock = session.clock + milliseconds :=
  session.node.link.sleep_clock milliseconds

end Offload.Session
