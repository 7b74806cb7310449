import Parley.Http.Config
import Parley.Url.Parse

/-! Sending a request over HTTP. The network is what happens on the connections that are made, one
after the other; redirects make more than one. -/
namespace Parley.Http

structure ServerReply where
  status : Nat
  contentType : Option Bytes := none
  location : Option Bytes := none
  body : Bytes := []
  /-- Bytes of the body that are promised and never sent. -/
  missing : Nat := 0

inductive Connection where
  | refused
  /-- The request is read and the connection closed. -/
  | closed
  /-- No answer comes in time. -/
  | silent
  | answered (r : ServerReply)

/-- A request as the server reads it. -/
structure Received where
  method : String
  target : String
  headers : List Header
  body : Bytes

/-- A request ready to be sent. -/
structure Outgoing where
  url : Url
  method : String
  headers : List Header
  body : Bytes

def forUrl (message : String) (u : Url) : String :=
  message ++ " for url (" ++ u.text ++ ")"

def base64Digit (n : Nat) : UInt8 :=
  .ofNat (if n < 26 then 65 + n else if n < 52 then 71 + n else if n < 62 then n - 4
    else if n = 62 then 43 else 47)

def base64 : Bytes → Bytes
  | [] => []
  | [a] =>
    let n := a.toNat * 16
    [base64Digit (n / 64), base64Digit (n % 64), 61, 61]
  | [a, b] =>
    let n := (a.toNat * 256 + b.toNat) * 4
    [base64Digit (n / 4096), base64Digit (n / 64 % 64), base64Digit (n % 64), 61]
  | a :: b :: c :: rest =>
    let n := (a.toNat * 256 + b.toNat) * 256 + c.toNat
    base64Digit (n / 262144) :: base64Digit (n / 4096 % 64) :: base64Digit (n / 64 % 64)
      :: base64Digit (n % 64) :: base64 rest

/-- Name and password in a URL become a header and leave the URL, if they are text. -/
def credentials (u : Url) : Url × List Header :=
  let name := Url.percentDecode u.username
  let password := Url.percentDecode u.password
  if (u.username.isEmpty && u.password.isEmpty) || (Utf8.decode? name).isNone then (u, [])
  else
    (u.withoutUserinfo,
      [⟨"authorization", Utf8.ofString "Basic " ++ base64 (name ++ 58 :: password)⟩])

def lowerName (s : String) : String :=
  String.ofList (s.toList.map Char.toLower)

def header? (h : String × String) : Option Header :=
  let value := Utf8.ofString h.2
  if Header.isName h.1 && Header.isValue value then some ⟨lowerName h.1, value⟩ else none

def isWebScheme (u : Url) : Bool :=
  u.scheme = "http".toList || u.scheme = "https".toList

/-- Characters that a host may show on the wire. -/
def isWireHost (u : Url) : Bool :=
  match u.host with
  | some (.domain name) => !name.any fun c => "\"`\x7b\x7d".toList.contains c
  | _ => true

/-- What is wrong with a request is found in this order: the URL, its host, a header, the scheme. -/
def prepare (c : Config) (r : Transport.Request) : Except Transport.Failure Outgoing :=
  match Url.parse? r.endpoint with
  | none => .error ⟨.other, builderError⟩
  | some parsed =>
    if !parsed.hasHost then .error ⟨.other, forUrl builderError parsed⟩
    else
      let (url, login) := credentials parsed
      match r.headers.mapM header? with
      | none => .error ⟨.other, builderError⟩
      | some given =>
        if !isWebScheme url || !isWireHost url then .error ⟨.other, forUrl builderError url⟩
        else
          let accept : Header := ⟨"accept", Utf8.ofString Transport.jsonContentType⟩
          let agent : List Header :=
            if given.any fun h => h.name = "user-agent" then []
            else [⟨"user-agent", Utf8.ofString c.userAgent⟩]
          .ok { url, method := "POST", headers := login ++ accept :: given ++ agent, body := r.body }

def Outgoing.received (o : Outgoing) : Received :=
  { method := o.method
    target := String.ofList (o.url.pathChars
      ++ match o.url.query with | some q => '?' :: q | none => [])
    headers := o.headers
    body := o.body }

def without (names : List String) (headers : List Header) : List Header :=
  headers.filter fun h => !names.contains h.name

/-- The request that a redirect asks for. Most ask for the resource without the body; another host
is not shown the credentials. -/
def Outgoing.redirected (o : Outgoing) (status : Nat) (url : Url) : Outgoing :=
  let o :=
    if status = 307 ∨ status = 308 then o
    else { o with method := "GET", headers := without ["content-type"] o.headers, body := [] }
  if url.host = o.url.host ∧ url.port = o.url.port then { o with url }
  else { o with url, headers := without ["authorization"] o.headers }

/-- Where a reply leads, if it is a redirect. -/
def redirect? (o : Outgoing) (r : ServerReply) : Option Url := do
  let location ← r.location
  if [301, 302, 303, 307, 308].contains r.status then
    Url.resolve? o.url (String.ofList (← Utf8.decode? location))
  else none

def toOutcome (o : Outgoing) (r : ServerReply) : Transport.Outcome :=
  if r.missing = 0 then .ok ⟨r.status, r.contentType.bind Header.visible?, r.body⟩
  else .error ⟨.other, forUrl "error decoding response body" o.url⟩

def redirectLimit : Nat := 10

/-- The outcome, the requests that reached a server, and the connections that are left. -/
structure Exchange where
  outcome : Transport.Outcome
  received : List Received := []
  network : List Connection

def follow (o : Outgoing) : Nat → List Connection → Exchange
  | hops, connections =>
    let failed := fun (kind : Transport.FailureKind) =>
      (Except.error ⟨kind, forUrl "error sending request" o.url⟩ : Transport.Outcome)
    match connections with
    | [] => { outcome := failed .connect, network := [] }
    | .refused :: rest => { outcome := failed .connect, network := rest }
    | .closed :: rest => ⟨failed .other, [o.received], rest⟩
    | .silent :: rest => ⟨failed .timeout, [o.received], rest⟩
    | .answered r :: rest =>
      match redirect? o r with
      | none => ⟨toOutcome o r, [o.received], rest⟩
      | some url =>
        match hops with
        | 0 => ⟨.error ⟨.other, forUrl "error following redirect" o.url⟩, [o.received], rest⟩
        | hops + 1 =>
          if isWebScheme url then
            let next := follow (o.redirected r.status url) hops rest
            { next with received := o.received :: next.received }
          else ⟨.error ⟨.other, forUrl builderError url⟩, [o.received], rest⟩

def exchange (c : Config) (r : Transport.Request) (network : List Connection) : Exchange :=
  match c.check with
  | .error f => { outcome := .error f, network }
  | .ok () =>
    match prepare c r with
    | .error f => { outcome := .error f, network }
    | .ok o => follow o redirectLimit network

/-- The network of a host without one: every connection is refused. -/
def offline : List Connection :=
  []

end Parley.Http
