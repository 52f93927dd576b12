import Vault42.Go.Header

/-!
# The bridge

`cmd/bridge/proxy.go`: the reverse proxy in front of the vault, with what `httputil.ReverseProxy`
does around it. A request is scored and routed under the address `clientIP` finds for it, its
headers are rewritten by `setProxyHeaders`, the standard library clones it, drops the hop-by-hop
headers and the forwarding headers, and `rewriteToUpstream` puts the forwarding headers back. When
the answer to a login comes back, `inspectLoginResponse` finds the address to charge from the
request that went out.

`Host` and the fields that frame a message are not in the header map of `net/http`, and are not
here. The counters behind the scores are not either: what matters is the address they are kept
under.
-/

namespace Vault42.Bridge

open Go
open Strconv (Bytes)

/-- The part of `Config` that the headers depend on. -/
structure Config where
  trustedProxies : List IPNet
  realIPHeader : Bytes
  stripHeaders : List Bytes

/-! ### Whose request it is -/

def maxXFFHops : ℕ := 32

def isTrustedProxy (cfg : Config) (ip : Bytes) : Bool :=
  if cfg.trustedProxies = [] then false
  else
    match parseIP ip with
    | none => false
    | some parsed => cfg.trustedProxies.any fun cidr => cidr.contains parsed

def extractIP (addr : Bytes) : Bytes := ((splitHostPort addr).map Prod.fst).getD addr

def joinHeader (h : Header) (name : Bytes) : Bytes := joinComma (h.values name)

/-- The loop of `rightmostUntrusted`, over the elements from the right. -/
def walk (cfg : Config) : List Bytes → Bytes
  | [] => []
  | part :: parts =>
    let candidate := trimSpace part
    if isTrustedProxy cfg candidate then walk cfg parts
    else if (parseIP candidate).isSome then candidate
    else []

/-- `rightmostUntrusted`; the empty text is no address. -/
def rightmostUntrusted (cfg : Config) (value : Bytes) : Bytes :=
  walk cfg ((splitComma value).reverse.take maxXFFHops)

/-- What a header says, for a peer that may say it. -/
def headerIP (cfg : Config) (r : Request) (name : Bytes) : Bytes :=
  if joinHeader r.header name ≠ [] ∧ isTrustedProxy cfg (extractIP r.remoteAddr) then
    rightmostUntrusted cfg (joinHeader r.header name)
  else []

def clientIP (cfg : Config) (r : Request) : Bytes :=
  let real := if cfg.realIPHeader = [] then [] else headerIP cfg r cfg.realIPHeader
  if real ≠ [] then real
  else
    let forwarded := headerIP cfg r (text "X-Forwarded-For")
    if forwarded ≠ [] then forwarded else extractIP r.remoteAddr

/-! ### What the bridge stamps -/

def defaultStrippedHeaders : List Bytes :=
  ["X-Vault-App", "X-TLS-Fingerprint", "X-Real-IP", "X-Forwarded-Host", "CF-Connecting-IP",
    "CF-IPCountry", "True-Client-IP", "X-Client-IP", "X-Country-Code", "X-GeoIP-Country"].map text

def joinSpaced (kept : List Bytes) : Bytes := [comma, 32].intercalate kept

/-- The tokens of `Connection` that stay. -/
def keptTokens (unicode : Bytes → Bytes) (protect : List Bytes) (values : List Bytes) :
    List Bytes :=
  (values.flatMap splitComma).filterMap fun tok =>
    let t := trimSpace tok
    if t = [] ∨ toLower unicode t ∈ protect.map (toLower unicode) then none else some t

def stripConnectionTokens (unicode : Bytes → Bytes) (h : Header) (protect : List Bytes) : Header :=
  let values := h.values (text "Connection")
  if values = [] then h
  else
    let kept := keptTokens unicode protect values
    let h := h.del (text "Connection")
    if kept ≠ [] then h.set (text "Connection") (joinSpaced kept) else h

/-- The headers that the bridge stamps itself. -/
def stamped : List Bytes := ["X-Real-IP", "X-Forwarded-Proto", "X-Forwarded-For"].map text

/-- The headers with what the bridge must author deleted. -/
def stripHeaders (cfg : Config) (h : Header) : Header :=
  let h := defaultStrippedHeaders.foldl Header.del h
  let h := if cfg.realIPHeader ≠ [] then h.del cfg.realIPHeader else h
  cfg.stripHeaders.foldl Header.del h

/-- The forwarded list that the bridge sends: it extends what a trusted proxy sent. -/
def forwardedFor (cfg : Config) (remoteAddr prior ip : Bytes) : Bytes :=
  if prior ≠ [] ∧ isTrustedProxy cfg (extractIP remoteAddr) then joinSpaced [prior, ip] else ip

def setProxyHeaders (unicode : Bytes → Bytes) (cfg : Config) (r : Request) (ip : Bytes) : Request :=
  let h := stripConnectionTokens unicode r.header stamped
  let h := stripHeaders cfg h
  let h := h.set (text "X-Real-IP") ip
  let h := h.set (text "X-Forwarded-Proto") (text "https")
  let prior := h.get (text "X-Forwarded-For")
  { r with header := h.set (text "X-Forwarded-For") (forwardedFor cfg r.remoteAddr prior ip) }

/-! ### The reverse proxy of the standard library -/

/-- A text without the bytes of a kind at its ends. -/
def trimBytes (p : UInt8 → Bool) (s : Bytes) : Bytes :=
  ((s.dropWhile p).reverse.dropWhile p).reverse

def trimString (s : Bytes) : Bytes := trimBytes (fun b => b == 32 || b == 9 || b == 10 || b == 13) s

def trimOWS (s : Bytes) : Bytes := trimBytes (fun b => b == 32 || b == 9) s

/-- The names that the lines of `Connection` declare hop-by-hop. -/
def connectionTokens (h : Header) : List Bytes :=
  (((h (text "Connection")).getD []).flatMap splitComma).filterMap fun tok =>
    let t := trimString tok
    if t = [] then none else some t

def connectionNamed (h : Header) : List Bytes := (connectionTokens h).map canonicalKey

def hopHeaders : List Bytes :=
  ["Connection", "Proxy-Connection", "Keep-Alive", "Proxy-Authenticate",
    "Proxy-Authorization", "Te", "Trailer", "Transfer-Encoding", "Upgrade"].map text

def removeHopByHopHeaders (h : Header) : Header :=
  hopHeaders.foldl Header.del ((connectionTokens h).foldl Header.del h)

/-- `httpguts.HeaderValuesContainsToken`. -/
def containsToken (values : List Bytes) (token : Bytes) : Bool :=
  (values.flatMap splitComma).any fun t => (trimOWS t).map lowerByte == token

def upgradeType (h : Header) : Bytes :=
  if containsToken ((h (text "Connection")).getD []) (text "upgrade") then h.get (text "Upgrade")
  else []

def forwardingHeaders : List Bytes :=
  ["Forwarded", "X-Forwarded-For", "X-Forwarded-Host", "X-Forwarded-Proto"].map text

/-- What `ReverseProxy` makes of the headers before it calls `Rewrite`. -/
def cloneHeaders (inbound : Header) : Header :=
  let upgrade := upgradeType inbound
  let h := removeHopByHopHeaders inbound
  let h := if containsToken ((inbound (text "Te")).getD []) (text "trailers") then
    h.set (text "Te") (text "trailers") else h
  let h := if upgrade ≠ [] then
    (h.set (text "Connection") (text "Upgrade")).set (text "Upgrade") upgrade else h
  forwardingHeaders.foldl Header.del h

/-- The forwarding headers that `rewriteToUpstream` copies back. -/
def copyForwarding (inbound out : Header) : Header :=
  fun k =>
    if k ∈ forwardingHeaders ∧ (inbound k).isSome ∧ k ∉ connectionNamed inbound then inbound k
    else out k

/-- The peer that `rewriteToUpstream` appends, when its address has a port. -/
def appendPeer (remoteAddr : Bytes) (out : Header) : Header :=
  match splitHostPort remoteAddr with
  | none => out
  | some (host, _) =>
    match out (text "X-Forwarded-For") with
    | none => out.set (text "X-Forwarded-For") host
    -- an entry without lines tells the proxy to omit the header
    | some [] => out
    | some lines => out.set (text "X-Forwarded-For") (joinSpaced (lines ++ [host]))

/-- `rewriteToUpstream`, the part about the headers. -/
def rewriteToUpstream (inbound : Request) (out : Header) : Header :=
  appendPeer inbound.remoteAddr (copyForwarding inbound.header out)

/-- The request that `ReverseProxy` sends. -/
def reverseProxy (inbound : Request) : Request :=
  let h := rewriteToUpstream inbound (cloneHeaders inbound.header)
  let h := if (h (text "User-Agent")).isSome then h else h.set (text "User-Agent") []
  { inbound with header := h }

/-- The request that `ServeHTTP` sends to either upstream. -/
def outbound (unicode : Bytes → Bytes) (cfg : Config) (r : Request) : Request :=
  reverseProxy (setProxyHeaders unicode cfg r (clientIP cfg r))

/-- `inspectLoginResponse`: the address that is charged with a failed login. -/
def inspectLoginResponse (cfg : Config) (method inboundPath : String) (status : ℕ) (out : Request) :
    Option Bytes :=
  if method = "POST" ∧ inboundPath = "/auth/login" ∧ status = 401 then some (clientIP cfg out)
  else none

end Vault42.Bridge
