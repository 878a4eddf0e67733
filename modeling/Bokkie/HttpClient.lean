import Bokkie.Accounts
import Bokkie.Tasks
import Bokkie.Urls

/-!
# The outbound HTTP client

One request: the host is resolved, every address is checked, and only a checked one is connected to.
What the network does is the answers to the calls. The client may be dropped after any of them.
-/

namespace Bokkie

open Tasks

namespace Http

inductive HttpError where
  | invalidUrl (reason : String)
  | notPublic (host : String)
  | resolve (host : String)
  | connect (host : String)
  | tls (host reason : String)
  | exchange (host reason : String)

structure Request where
  method : String
  url : Url
  headers : List (String × String)
  body : List UInt8

def Request.get (url : Url) : Request := ⟨"GET", url, [], []⟩

/-- What is sent on a connection. -/
structure Outgoing where
  method : String
  uri : String
  headers : List (String × String)
  body : List UInt8
deriving DecidableEq

structure Response where
  status : ℕ
  headers : List (String × List UInt8)
  body : List UInt8
  truncated : Bool

/-- The first value of a header. -/
def Response.get (response : Response) (name : String) : Option (List UInt8) :=
  (response.headers.find? fun header => header.1 = name).map (·.2)

/-- `HeaderValue::to_str`: visible ASCII and tabs only. -/
def toStr (value : List UInt8) : Option String :=
  if value.all fun b => (32 ≤ b ∧ b < 127) ∨ b = 9 then
    some (String.ofList (value.map fun b => Char.ofNat b.toNat))
  else none

/-- The calls of a web tool. -/
inductive Net : Type → Type
  /-- A fetch takes a place in the counts, or why not. -/
  | reserve : Net (Option String)
  /-- `send` begins a request. -/
  | request (url : Url) : Net Unit
  /-- `lookup_host`. -/
  | resolve (host : String) (port : ℕ) : Net (Option (List IpAddr))
  /-- `TcpStream::connect`. -/
  | connect (address : IpAddr) (port : ℕ) : Net Bool
  /-- TLS on the connection, or why it fails. -/
  | handshake (server : Host) : Net (Option String)
  | exchange (outgoing : Outgoing) (limit : ℕ) : Net (Except String Response)
  /-- A conversion to text on a blocking thread: whether the thread ends. -/
  | convert : Net Bool

/-- The work of the client, which may fail. -/
abbrev Work (ε : Type) := ExceptT ε (Prog Net)

def call {ε α : Type} (op : Net α) : Work ε α := ExceptT.lift (Prog.perform op)

/-- What a partial value is, or the failure. -/
def orThrow {ε α : Type} (value : Option α) (e : ε) : Work ε α :=
  match value with
  | some a => pure a
  | none => throw e

def USER_AGENT : String :=
  "Bokkie/0.1.0 (private household assistant; +https://github.com/robchristie/bokkie)"

/-- `Network::resolve`: each address once. -/
def resolve (host : String) (port : ℕ) : Work HttpError (List IpAddr) := do
  match ← call (.resolve host port) with
  | none => throw (.resolve host)
  | some found => return found.eraseDups

/-- The addresses of a host: its own, or those its name resolves to. -/
def hostAddresses (host : Host) (port : ℕ) : Work HttpError (List IpAddr) :=
  match host with
  | .ipv4 v4 => pure [.v4 v4]
  | .ipv6 v6 => pure [.v6 v6]
  | .domain name => resolve name port

/-- The checked addresses of a link's host, which must all be public. -/
def addresses (url : Url) : Work HttpError (List IpAddr) := do
  let port ← orThrow url.portOrKnownDefault (.invalidUrl "the link has no port")
  let host ← orThrow url.host (.invalidUrl "the link has no host")
  let addresses ← hostAddresses host port
  if addresses = [] then throw (.resolve host.display)
  else if addresses.any fun a => !isPublic a then throw (.notPublic host.display)
  else return addresses

/-- Connects to the first address that takes a connection. -/
def connectAny (port : ℕ) : List IpAddr → Prog Net (Option IpAddr)
  | [] => pure none
  | ip :: addresses => do
    if ← Prog.perform (.connect ip port) then pure (some ip) else connectAny port addresses

/-- The request that goes out on the connection. -/
def outgoing (request : Request) (host : Host) : Outgoing where
  method := request.method
  uri := match request.url.query with
    | some query => request.url.path ++ "?" ++ query
    | none => request.url.path
  headers := [("host", match request.url.port with
      | some port => host.display ++ ":" ++ decimal port
      | none => host.display), ("user-agent", USER_AGENT)] ++
    request.headers.filter fun header => header.1 ≠ "host" ∧ header.1 ≠ "user-agent"
  body := request.body

/-- What stands between a connection and its use: TLS, if the scheme asks for it. -/
def secure (https : Bool) (host : Host) : Work HttpError Unit := do
  if https then
    match ← call (.handshake host) with
    | none => return ()
    | some reason => throw (.tls host.display reason)
  else return ()

/-- Whether the scheme is that of links over TLS, if it is supported. -/
def isHttps (scheme : String) : Work HttpError Bool :=
  if scheme = "https" then pure true
  else if scheme = "http" then pure false
  else throw (.invalidUrl (scheme ++ " links are not supported"))

/-- One request, and at most so much of the body of its response. The library refuses requests that
it cannot build. -/
def send (refused : Outgoing → Option String) (request : Request) (limit : ℕ) :
    Work HttpError Response := do
  call (.request request.url)
  let url := request.url
  let https ← isHttps url.scheme
  if url.username ≠ "" ∨ url.password.isSome then
    throw (.invalidUrl "links with a user name or password are not supported")
  else
    let host ← orThrow url.host (.invalidUrl "the link has no host")
    let port ← orThrow url.portOrKnownDefault (.invalidUrl "the link has no port")
    let addresses ← addresses url
    match ← ExceptT.lift (connectAny port addresses) with
    | none => throw (.connect host.display)
    | some _ =>
      let message := outgoing request host
      match refused message with
      | some reason => throw (.invalidUrl reason)
      | none =>
        secure https host
        match ← call (.exchange message limit) with
        | .ok response => return response
        | .error reason => throw (.exchange host.display reason)

end Http

end Bokkie
