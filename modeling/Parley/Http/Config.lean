import Parley.Http.Header
import Parley.Text.Duration
import Parley.Text.Quoted
import Parley.Transport.Basic

/-! The configuration of the HTTP transport. -/
namespace Parley.Http

def defaultUserAgent : String :=
  "aiagent-http/0.0.0"

/-- Without a timeout a request may take any time. -/
structure Config where
  timeout : Option Duration := none
  connectTimeout : Option Duration := none
  userAgent : String := defaultUserAgent

def Config.describe (c : Config) : String :=
  Text.record "HttpConfig"
    [("timeout", Text.optional (c.timeout.map Duration.text)),
      ("connect_timeout", Text.optional (c.connectTimeout.map Duration.text)),
      ("user_agent", Text.quote c.userAgent)]

/-- What every fault in building a client or a request is called. -/
def builderError : String :=
  "builder error"

/-- A client can be built if its user agent can stand in a header. -/
def Config.check (c : Config) : Except Transport.Failure Unit :=
  if Header.isValue (Utf8.ofString c.userAgent) then .ok ()
  else .error ⟨.other, "failed to build the HTTP client: " ++ builderError⟩

end Parley.Http
