import Bokkie.PublicAddress
import Mathlib.Data.List.Basic

/-!
# Links

A link is a record of its parts as the URL standard has them, and its text is their serialisation.
Reading text as a link, alone or relative to another, is the URL library's.
-/

namespace Bokkie

inductive Host where
  | domain (name : String)
  | ipv4 (address : Ipv4Addr)
  | ipv6 (address : Ipv6Addr)
deriving DecidableEq

/-- A link's parts. The default port of its scheme is not kept. -/
structure Url where
  scheme : String
  username : String
  password : Option String
  host : Option Host
  port : Option ℕ
  path : String
  query : Option String
  fragment : Option String
deriving DecidableEq

inductive UrlError where
  | relativeUrlWithoutBase
  | other
deriving DecidableEq

/-- Texts with a separator between each two. -/
def joined (separator : String) : List String → String
  | [] => ""
  | [text] => text
  | text :: texts => text ++ separator ++ joined separator texts

/-- `u16`'s and `u8`'s own text. -/
def decimal (n : ℕ) : String := String.ofList (Nat.toDigits 10 n)

namespace Ipv4Addr

def display (address : Ipv4Addr) : String :=
  joined "." ([24, 16, 8, 0].map fun shift => decimal (address.toNat / 2 ^ shift % 256))

end Ipv4Addr

namespace Ipv6Addr

def segments (address : Ipv6Addr) : List ℕ :=
  [112, 96, 80, 64, 48, 32, 16, 0].map fun shift => address.toNat / 2 ^ shift % 65536

/-- The zeros at the start of a list. -/
def zeros (segments : List ℕ) : ℕ := (segments.takeWhile (· = 0)).length

/-- Where the first of the longest runs of zeros starts, and its length. -/
def longestZeroSequence (segments : List ℕ) : ℕ × ℕ :=
  (List.range segments.length).foldl (fun longest start =>
    let length := zeros (segments.drop start)
    if longest.2 < length then (start, length) else longest) (0, 0)

def hex (n : ℕ) : String := String.ofList (Nat.toDigits 16 n)

/-- The text of an IPv6 address, with the longest run of zeros, if it has two or more, left out. -/
def display (address : Ipv6Addr) : String :=
  let segments := Ipv6Addr.segments address
  let (start, length) := longestZeroSequence segments
  if 2 ≤ length then
    joined ":" ((segments.take start).map hex) ++ "::" ++
      joined ":" ((segments.drop (start + length)).map hex)
  else joined ":" (segments.map hex)

end Ipv6Addr

def Host.display : Host → String
  | .domain name => name
  | .ipv4 address => Ipv4Addr.display address
  | .ipv6 address => "[" ++ Ipv6Addr.display address ++ "]"

def defaultPort (scheme : String) : Option ℕ :=
  if scheme = "http" ∨ scheme = "ws" then some 80
  else if scheme = "https" ∨ scheme = "wss" then some 443
  else if scheme = "ftp" then some 21
  else none

namespace Url

variable (url : Url)

def hostStr : Option String := url.host.map Host.display

def portOrKnownDefault : Option ℕ := url.port.or (defaultPort url.scheme)

def credentials : String :=
  if url.username = "" ∧ url.password = none then ""
  else url.username ++ (url.password.map (":" ++ ·)).getD "" ++ "@"

/-- What stands between the scheme and the path. -/
def authority : String :=
  match url.host with
  | some host => "//" ++ url.credentials ++ host.display ++
      (url.port.map fun port => ":" ++ decimal port).getD ""
  | none => if ['/', '/'] <+: url.path.toList then "/." else ""

def asStr : String :=
  url.scheme ++ ":" ++ url.authority ++ url.path ++ (url.query.map ("?" ++ ·)).getD "" ++
    (url.fragment.map ("#" ++ ·)).getD ""

/-- `set_fragment(None)`. -/
def withoutFragment : Url := { url with fragment := none }

/-- Without its fragment, a link is no longer. -/
theorem length_withoutFragment_le : url.withoutFragment.asStr.length ≤ url.asStr.length := by
  unfold asStr
  simp only [String.length_append]
  change _ + 0 ≤ _
  exact Nat.add_le_add_left (Nat.zero_le _) _

end Url

end Bokkie
