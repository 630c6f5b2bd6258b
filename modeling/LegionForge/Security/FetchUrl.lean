import LegionForge.Security.Sanitize

/-!
# URLs that may be fetched

`validate_fetch_url` and what it reads off a URL with `urlparse`. The answers of the name
server are a parameter, since they may be others the next time.
-/

namespace LegionForge.Security

open Regex

/-- How `socket.getaddrinfo` comes back. -/
inductive DnsAnswer where
  | addresses (ips : List String)
  | osError
  /-- The name cannot be encoded, which is a `ValueError`. -/
  | valueError
  deriving DecidableEq, Repr

/-- Why a URL is refused. -/
inductive FetchError where
  | invalidUrl
  | malformedUrl
  | forbiddenScheme (scheme : String)
  | noHostname
  | blockedHost (host : String)
  | localDomain (host : String)
  | privateAddress (host : String)
  | resolvesToPrivate (host ip : String)
  | unencodableHost (host : String)
  deriving DecidableEq, Repr

/-- What `urlparse` takes from elsewhere. -/
structure UrlEnv where
  unicode : Unicode
  /-- What stands in the brackets of a network location is an address, and normalisation
  brings no delimiter into it. -/
  netlocValid : List Char → Bool

/-! ## `urlparse` -/

structure ParsedUrl where
  scheme : List Char
  netloc : List Char
  deriving DecidableEq, Repr

def schemeChar (c : Char) : Bool := c.isAlphanum || c = '+' || c = '-' || c = '.'

/-- The scheme and what comes behind its colon; without a scheme, everything does. -/
def splitScheme (url : List Char) : List Char × List Char :=
  let head := url.takeWhile (· ≠ ':')
  if head.length < url.length && head.head?.any (·.isAlpha) && head.all schemeChar then
    (head.map Char.toLower, url.drop (head.length + 1))
  else ([], url)

/-- `urlparse`, `none` where it raises. -/
def urlparse (env : UrlEnv) (url : List Char) : Option ParsedUrl :=
  let url := (url.dropWhile (·.toNat ≤ 32)).filter fun c => c ≠ '\t' && c ≠ '\r' && c ≠ '\n'
  let (scheme, rest) := splitScheme url
  let netloc := if "//".toList.isPrefixOf rest then
      (rest.drop 2).takeWhile fun c => c ≠ '/' && c ≠ '?' && c ≠ '#'
    else []
  if netloc.contains '[' = netloc.contains ']' && env.netlocValid netloc then
    some { scheme, netloc }
  else none

/-- `parsed.hostname`, empty for `None`. -/
def ParsedUrl.hostname (env : UrlEnv) (p : ParsedUrl) : List Char :=
  let hostinfo := (p.netloc.reverse.takeWhile (· ≠ '@')).reverse
  let name := if hostinfo.contains '[' then
      ((hostinfo.dropWhile (· ≠ '[')).drop 1).takeWhile (· ≠ ']')
    else hostinfo.takeWhile (· ≠ ':')
  env.unicode.lower (name.takeWhile (· ≠ '%')) ++ name.dropWhile (· ≠ '%')

/-! ## Private addresses -/

/-- `pattern.match(text)` -/
def matchesStart (d : CharData) (ignoreCase : Bool) (p : Pattern) (text : List Char) : Bool :=
  !(p.ends d ignoreCase ⟨[], text⟩).isEmpty

/-- `$`, which also matches before a last newline. -/
def endOfText : Pattern :=
  let stop : Pattern := .notAhead (.set true [])
  alts [stop, seqs [chr '\n', stop]]

/-- `_PRIVATE_IP_PATTERNS`, each with its `re.I`. -/
def privateIpPatterns : List (Pattern × Bool) :=
  let hexPair := times (.set false [.range '0' '9', .range 'a' 'f']) 2
  [(lit "127.", false), (lit "10.", false),
    (seqs [lit "172.", alts [seqs [lit "1", .set false [.range '6' '9']],
      seqs [lit "2", .set false [.digit]], seqs [lit "3", oneOf "01"]], lit "."], false),
    (lit "192.168.", false), (lit "169.254.", false), (lit "0.", false),
    (seqs [lit "::1", endOfText], false), (seqs [lit "fc", hexPair, lit ":"], true),
    (seqs [lit "fd", hexPair, lit ":"], true), (lit "fe80:", true)]

def isPrivateIp (env : UrlEnv) (ip : List Char) : Bool :=
  privateIpPatterns.any fun (p, ignoreCase) => matchesStart env.unicode.toCharData ignoreCase p ip

/-! ## `validate_fetch_url` -/

def allowedSchemes : List String := ["http", "https"]

def blockedHosts : List String :=
  ["localhost", "metadata.google.internal", "169.254.169.254", "100.100.100.200"]

/-- The error of the address check, where the name resolves to a private address. -/
def resolvedError (env : UrlEnv) (host : String) : DnsAnswer → Option FetchError
  | .addresses ips => (ips.find? fun ip => isPrivateIp env ip.toList).map (.resolvesToPrivate host)
  | .osError => none
  | .valueError => some (.unencodableHost host)

/-- The error that `validate_fetch_url` raises, if it raises. -/
def validateFetchUrl (env : UrlEnv) (getaddrinfo : String → DnsAnswer) (url : String) :
    Option FetchError :=
  if url = "" then some .invalidUrl
  else match urlparse env url.toList with
    | none => some .malformedUrl
    | some parsed =>
      let scheme := String.ofList (env.unicode.lower parsed.scheme)
      let host := env.unicode.lower (parsed.hostname env)
      let name := String.ofList host
      if scheme ∉ allowedSchemes then some (.forbiddenScheme scheme)
      else if host = [] then some .noHostname
      else if name ∈ blockedHosts then some (.blockedHost name)
      else if ".local".toList.isSuffixOf host then some (.localDomain name)
      else if isPrivateIp env host then some (.privateAddress name)
      else resolvedError env name (getaddrinfo name)

end LegionForge.Security
