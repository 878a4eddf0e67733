import Bokkie.HttpClient
import Bokkie.Json

/-!
# `web_fetch`

A Bot reads a page from the web: the link it gives is checked, and so is every link that it is
redirected to. Turning a body into text is the tool's own, and a parameter here.
-/

open Tasks

namespace Bokkie.Http

/-- What the tool takes from libraries, and how it renders a body. -/
structure Libraries where
  parse : String → Except UrlError Url
  join : Url → String → Option Url
  refused : Outgoing → Option String
  canonicalReason : ℕ → Option String
  render : String → Option String → List UInt8 → Bool → Except String String

def MAX_BYTES : ℕ := 2 * 1024 * 1024

def MAX_REDIRECTS : ℕ := 5

def URL_CHARS : ℕ := 2048

def ACCEPT : String :=
  "text/html, application/xhtml+xml, application/rss+xml, " ++
    "application/atom+xml, application/feed+json, application/json, " ++
    "text/plain;q=0.9, application/xml;q=0.8, text/xml;q=0.8"

/-- The rules every link must pass before any request. -/
def check (url : Url) : Except String Unit :=
  if URL_CHARS < url.asStr.length then
    .error ("The link is longer than " ++ decimal URL_CHARS ++ " characters.")
  else if url.scheme ≠ "http" ∧ url.scheme ≠ "https" then
    .error ("web_fetch reads only http and https links, not " ++ url.scheme ++ " links.")
  else if url.username ≠ "" ∨ url.password.isSome then
    .error "web_fetch does not send user names or passwords."
  else if url.host = none then .error "The link has no host."
  else if url.portOrKnownDefault = some 80 ∨ url.portOrKnownDefault = some 443 then .ok ()
  else .error "web_fetch reads only from ports 80 and 443."

/-- The link a call asks for, or what to log of it and why it was refused. -/
def parse (libraries : Libraries) (arguments : Json) : Except (String × String) Url :=
  match (arguments.get "url").bind Json.asStr with
  | none => .error ("invalid arguments", "web_fetch needs a url: an http or https link.")
  | some text =>
    let text := trim text
    if URL_CHARS < text.length then
      .error (String.ofList (text.toList.take 100),
        "The link is longer than " ++ decimal URL_CHARS ++ " characters.")
    else match libraries.parse text with
      | .error _ => .error (text, text ++ " is not a link. Give a whole http or https link.")
      | .ok url => match check url with
        | .error error => .error (text, error)
        | .ok () => .ok url

structure Fetched where
  finalUrl : Url
  status : ℕ
  contentType : String
  bytes : ℕ
  truncated : Bool
  text : String

/-- Why a fetch failed: the model's message, and the route and a brief reason for the log. -/
structure FetchFailure where
  message : String
  route : String
  brief : String

/-- A link a site chose, for an error message. -/
def shown (url : Url) : String :=
  if 200 < url.asStr.length then String.ofList (url.asStr.toList.take 199) ++ "…" else url.asStr

def httpMessage (error : HttpError) (url : Url) : String :=
  let host := url.hostStr.getD "the host"
  match error with
  | .notPublic _ =>
    "web_fetch reads only from public web addresses, and " ++ host ++ " is not one."
  | .resolve _ => "Could not find " ++ host ++ "."
  | .connect _ => "Could not connect to " ++ host ++ "."
  | .tls _ _ => "Could not make a secure connection to " ++ host ++ "."
  | .exchange _ _ => "The exchange with " ++ host ++ " failed."
  | .invalidUrl reason => url.asStr ++ " is refused: " ++ reason ++ "."

def httpBrief : HttpError → String
  | .notPublic _ => "refused, not a public address"
  | .resolve _ => "not found"
  | .connect _ => "no connection"
  | .tls _ _ => "TLS failed"
  | .exchange _ _ => "exchange failed"
  | .invalidUrl _ => "refused"

/-- `str::trim_matches` with one character. -/
def trimMatches (c : Char) (s : String) : String :=
  String.ofList ((s.toList.dropWhile (· = c)).reverse.dropWhile (· = c)).reverse

/-- The text before and after the first of a character. -/
def splitOnce (c : Char) (s : String) : Option (String × String) :=
  match s.toList.span (· ≠ c) with
  | (_, []) => none
  | (before, _ :: after) => some (String.ofList before, String.ofList after)

/-- The value of a part that gives a charset. -/
def charsetOf (part : String) : Option String := do
  let (name, value) ← splitOnce '=' part
  if toAsciiLowercase (trim name) = "charset" then some (trimMatches '"' (trim value)) else none

/-- A `Content-Type`'s media type, in lower case, and its charset. -/
def mediaType (value : String) : String × Option String :=
  let parts := (value.toList.splitOn ';').map String.ofList
  (toAsciiLowercase (trim (parts.headD "")), parts.tail.findSome? charsetOf)

def isRedirection (status : ℕ) : Bool := 300 ≤ status ∧ status < 400

def isSuccess (status : ℕ) : Bool := 200 ≤ status ∧ status < 300

section Fetch

variable (libraries : Libraries)

/-- A status as it displays. -/
def statusText (status : ℕ) : String :=
  decimal status ++ " " ++ (libraries.canonicalReason status).getD "<unknown status code>"

/-- The link and, after redirects, where it led. -/
def route (requested url : Url) : String :=
  if url = requested then requested.asStr else requested.asStr ++ " → " ++ url.asStr

/-- What a response that redirects leads to. -/
def redirectedTo (url : Url) (response : Response) : Option Url :=
  match (response.get "location").bind toStr with
  | some location =>
    if response.status ∈ [301, 302, 303, 307, 308] then libraries.join url location else none
  | none => none

/-- What a body's bytes are encoded with, if it is not nothing. -/
def encoding (response : Response) : Option String :=
  (((response.get "content-encoding").bind toStr).map fun v => toAsciiLowercase (trim v)).filter
    fun v => v ≠ "" ∧ v ≠ "identity"

/-- A body as text, which a blocking thread makes. -/
def convert (mime : String) (charset : Option String) (response : Response) :
    Work FetchFailure (Except String String) := do
  if ← call .convert then
    return libraries.render mime charset response.body response.truncated
  else return .error "web_fetch could not read \x7burl\x7d."

/-- What the answer to a link that was not redirected is. -/
def read (requested url : Url) (response : Response) : Work FetchFailure Fetched :=
  if !isSuccess response.status then
    throw {
      message := (url.asStr ++ " answered " ++ decimal response.status ++ " " ++
        (libraries.canonicalReason response.status).getD "" ++ ".").replace " ." "."
      route := route requested url
      brief := decimal response.status }
  else match encoding response with
  | some encoding =>
    throw {
      message := url.asStr ++ " sent " ++ encoding ++
        "-compressed content, which web_fetch cannot read."
      route := route requested url
      brief := encoding ++ " refused" }
  | none => do
    let contentType := ((response.get "content-type").bind toStr).getD ""
    let (mime, charset) := mediaType contentType
    match ← convert libraries mime charset response with
    | .error message =>
      throw {
        message := message.replace "\x7burl\x7d" url.asStr
        route := route requested url
        brief := if mime = "" then "no type" else mime ++ " refused" }
    | .ok text =>
      return {
        finalUrl := url.withoutFragment
        status := response.status
        contentType := mime
        bytes := response.body.length
        truncated := response.truncated
        text := text }

/-- One request of a fetch. -/
def requestOnce (requested url : Url) : Work FetchFailure Response := do
  let request := Request.get url.withoutFragment
  let request := { request with headers := request.headers ++ [("accept", ACCEPT)] }
  let sent ← ExceptT.lift (send libraries.refused request MAX_BYTES).run
  match sent with
  | .ok response => return response
  | .error error => throw ⟨httpMessage error url, route requested url, httpBrief error⟩

/-- The loop of `fetch`, with so many redirects left. -/
def fetchFrom (requested : Url) : ℕ → Url → Work FetchFailure Fetched
  | left, url => do
    let response ← requestOnce libraries requested url
    if isRedirection response.status then
      let next ← orThrow (redirectedTo libraries url response) {
        message := url.asStr ++ " answered " ++ statusText libraries response.status ++
          " without a usable redirect."
        route := route requested url
        brief := decimal response.status }
      match left with
      | 0 => throw {
          message := requested.asStr ++ " redirected more than " ++ decimal MAX_REDIRECTS ++
            " times."
          route := route requested url
          brief := "too many redirects" }
      | left + 1 => match check next with
        | .error error =>
          throw {
            message := url.asStr ++ " redirected to " ++ shown next ++ ", which is refused: " ++
              error
            route := route requested next
            brief := "redirect refused" }
        | .ok () => fetchFrom requested left next
    else read libraries requested url response

/-- Fetches a link, following up to `MAX_REDIRECTS` redirects, each checked as the first was. -/
def fetch (requested : Url) : Work FetchFailure Fetched :=
  fetchFrom libraries requested MAX_REDIRECTS requested

/-- What one fetch came to. -/
inductive Served where
  | failed (summary error : String)
  | refused (url : Url) (refusal : String)
  | fetched (url : Url) (result : Except FetchFailure Fetched)

/-- Serves one `web_fetch` call. Its deadline stops it anywhere. -/
def serve (arguments : Json) : Prog Net Served := do
  match parse libraries arguments with
  | .error (shown, error) => return .failed shown error
  | .ok url =>
    match ← Prog.perform .reserve with
    | some refusal => return .refused url refusal
    | none => return .fetched url (← (fetch libraries url).run)

end Fetch

end Bokkie.Http
