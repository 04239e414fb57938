import Offload.Proofs.Link.Inquiry

namespace Offload

namespace Link

open Loop

variable {link : Link} {account : Account} {id deadline : Nat}

theorem firstCompletion?_exchange (began deadline : Nat) (script : Script) :
    firstCompletion? ((began, .begun script) :: ending script began deadline) =
      (script.inTime? (deadline - began)).map fun delivery =>
        (began + script.pause, delivery.decode) := by
  rw [ending]
  cases script.inTime? (deadline - began) <;> rfl

/-- A connection over which a first inquiry got no reply in time. The peer has one for the next. -/
def overdue : Link :=
  let joined := polite.perform (.connect (utf8 "peer") 7000)
  let laid := joined.perform <| .lay
    [{ conduct := .answer 200 (utf8 "1"), delay := 50 }, { conduct := .answer 200 (utf8 "2") }] []
  laid.perform (.invoke (utf8 "ping") .null 10)

end Link

end Offload
