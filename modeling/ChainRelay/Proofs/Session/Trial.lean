import ChainRelay.Session.Attempt

/-! Attempts at a connection as a script gives them: what comes of the dial, what arrives and
how the wait for the handshake ends. -/
namespace ChainRelay.Session

inductive Trial where
  | unreachable (detail : String)
  | unanswered
  | reached (arrivals : List Bytes) (ending : Ending)

/-- What comes of an attempt if no handle that it binds is bound already. -/
def Trial.result (config : SessionConfig) : Trial → Except SessionError Agreed
  | unreachable detail => .error (.io detail)
  | unanswered => .error (.connectTimeout config.connectTimeout)
  | reached _ ending => ending.verdict config

end ChainRelay.Session
