import Redbox.Http.IpAddress
import Mathlib.Data.Int.Bitwise

/-! `client-ip.ts`: the address of a client, which headers may name where the peer is a
trusted proxy. -/
namespace Redbox
open Text IpAddress

/-- `BigInt` of what is no integer. -/
inductive RangeError where
  | notAnInteger
  deriving DecidableEq

structure TrustedNetwork where
  family : Family
  base : Int
  mask : Int

def TrustedNetwork.covers (network : TrustedNetwork) (parsed : Family × Int) : Bool :=
  decide (network.family = parsed.1) && decide (Int.land parsed.2 network.mask = network.base)

/-- The variables `TRUSTED_PROXY_CIDRS` and `TRUSTED_PROXY_IPS`. -/
structure ProxyEnv where
  trustedProxyCidrs : Option String
  trustedProxyIps : Option String

/-- The address of the peer and the headers that are read. -/
structure HttpRequest where
  remoteAddress : Option String
  cfConnectingIp : Option String
  trueClientIp : Option String
  xForwardedFor : Option String

/-- Express takes it from the socket, as no proxy is trusted by its own setting. -/
def HttpRequest.ip (request : HttpRequest) : Option String := request.remoteAddress

inductive IpSource where
  | cfConnectingIp | trueClientIp | xForwardedFor | remoteAddress
  deriving DecidableEq

structure ClientIpAuditContext where
  ipAddress : Option String
  ipSource : Option IpSource
  proxyTrusted : Bool
  remoteAddress : Option String
  deriving DecidableEq

namespace ClientIp

/-- `slice(1, -1)`. Half of a character outside the basic plane is left as what is no address. -/
def dropLastUnit (cs : List Char) : List Char :=
  match cs.getLast? with
  | some c => if c.toNat < 0x10000 then cs.dropLast else cs.dropLast ++ [Char.ofNat 0xFFFD]
  | none => []

def withoutBrackets : List Char → List Char
  | '[' :: cs => if cs.contains ']' then cs.takeWhile (· != ']') else dropLastUnit cs
  | cs => cs

/-- `replace(/:\d+$/, '')` -/
def withoutTrailingPort (cs : List Char) : List Char :=
  match cs.reverse.dropWhile Char.isDigit with
  | ':' :: rest => if rest.length + 1 < cs.length then rest.reverse else cs
  | _ => cs

def withoutPort (cs : List Char) : List Char :=
  if cs.contains '.' && cs.contains ':' then withoutTrailingPort cs else cs

/-- `replace(/^::ffff:/i, '')` -/
def withoutIpv4MappedPrefix (cs : List Char) : List Char :=
  if (cs.take 7).map Char.toLower = "::ffff:".toList then cs.drop 7 else cs

def normalizeIp (value : Option (List Char)) : Option (List Char) :=
  match value.map trimList with
  | none => none
  | some trimmed =>
    if trimmed = [] then none
    else
      let ip := withoutIpv4MappedPrefix (withoutPort (withoutBrackets trimmed))
      if (isIP ip).isSome then some ip else none

/-- Its parts are decimal. -/
def ipv4ToBigInt (ip : List Char) : Int :=
  (ip.splitOn '.').foldl (fun acc part => acc * 2 ^ 8 + (Nat.ofDigitChars 10 part 0 : Int)) 0

/-- `BigInt(part ? parseInt(part, 16) : 0)` -/
def groupToBigInt (part : List Char) : Except RangeError Int :=
  if part = [] then .ok 0
  else match parseInt16? part with
    | some value => .ok value
    | none => .error .notAnInteger

def ipv6ToBigInt (ip : List Char) : Except RangeError Int :=
  let halves := splitDouble ip
  let head := halves.headD []
  let tail := (halves.tail).headD []
  let headParts := if head = [] then [] else head.splitOn ':'
  let tailParts := if tail = [] then [] else tail.splitOn ':'
  let parts := headParts ++ List.replicate (8 - headParts.length - tailParts.length)
    ['0'] ++ tailParts
  parts.foldlM (fun acc part => (groupToBigInt part).map fun value => acc * 2 ^ 16 + value) 0

def ipToBigInt (ip : List Char) : Except RangeError (Option (Family × Int)) :=
  match normalizeIp (some ip) with
  | none => .ok none
  | some normalized => match isIP normalized with
    | some .ipv4 => .ok (some (.ipv4, ipv4ToBigInt normalized))
    | some .ipv6 => (ipv6ToBigInt normalized).map fun value => some (.ipv6, value)
    | none => .ok none

/-- The ones of a prefix. -/
def maskOf (maxBits prefixLength : Nat) : Nat :=
  let allBits := 1 <<< maxBits - 1
  let hostBits := maxBits - prefixLength
  if hostBits = maxBits then 0 else (allBits <<< hostBits) &&& allBits

def parseCidr (entry : List Char) : Except RangeError (Option TrustedNetwork) :=
  let parts := (trimList entry).splitOn '/'
  match normalizeIp (some (parts.headD [])) with
  | none => .ok none
  | some ip =>
    let maxBits := if isIP ip = some .ipv4 then 32 else 128
    let prefixLength := match parts.tail with
      | [] => some maxBits
      | rawPrefix :: _ => (number? rawPrefix).bind (integerUpTo maxBits)
    match prefixLength with
    | none => .ok none
    | some prefixLength => (ipToBigInt ip).map fun parsedIp => parsedIp.map fun (family, value) =>
      let mask : Int := maskOf maxBits prefixLength
      ⟨family, Int.land value mask, mask⟩

/-- The entries that are not blank. -/
def proxyEntries (env : ProxyEnv) : List (List Char) :=
  let raw := (env.trustedProxyCidrs.or env.trustedProxyIps).getD ""
  ((raw.toList.splitOn ',').map trimList).filter (· ≠ [])

def getTrustedProxyNetworks (env : ProxyEnv) : Except RangeError (List TrustedNetwork) :=
  ((proxyEntries env).mapM parseCidr).map fun networks => networks.filterMap id

def isTrustedProxy (remoteIp : Option (List Char)) (networks : List TrustedNetwork) :
    Except RangeError Bool :=
  match remoteIp with
  | none => .ok false
  | some ip =>
    if networks = [] then .ok false
    else (ipToBigInt ip).map fun parsed => match parsed with
      | none => false
      | some parsed => networks.any fun network => network.covers parsed

def normalized (value : Option String) : Option (List Char) := normalizeIp (value.map String.toList)

def firstForwardedIp (value : Option String) : Option (List Char) :=
  normalizeIp (value.map fun v => (v.toList.splitOn ',').headD [])

end ClientIp

open ClientIp

def getClientIp (env : ProxyEnv) (request : HttpRequest) : Except RangeError String := do
  let remoteAddress := ((normalized request.remoteAddress).or (normalized request.ip)).getD
    "unknown".toList
  let trustedNetworks ← getTrustedProxyNetworks env
  if ← isTrustedProxy (some remoteAddress) trustedNetworks then
    let ip := (normalized request.cfConnectingIp).or <| (normalized request.trueClientIp).or <|
      firstForwardedIp request.xForwardedFor
    return String.ofList (ip.getD remoteAddress)
  else return String.ofList remoteAddress

def getClientIpAuditContext (env : ProxyEnv) (request : HttpRequest) :
    Except RangeError ClientIpAuditContext := do
  let remoteAddress := (normalized request.remoteAddress).or (normalized request.ip)
  let trustedNetworks ← getTrustedProxyNetworks env
  let proxyTrusted ← isTrustedProxy remoteAddress trustedNetworks
  let cfConnectingIp := if proxyTrusted then normalized request.cfConnectingIp else none
  let trueClientIp := if proxyTrusted then normalized request.trueClientIp else none
  let forwardedClientIp := if proxyTrusted then firstForwardedIp request.xForwardedFor else none
  let ipAddress := cfConnectingIp.or <| trueClientIp.or <| forwardedClientIp.or remoteAddress
  return {
    ipAddress := ipAddress.map String.ofList
    ipSource :=
      if cfConnectingIp.isSome then some .cfConnectingIp
      else if trueClientIp.isSome then some .trueClientIp
      else if forwardedClientIp.isSome then some .xForwardedFor
      else if remoteAddress.isSome then some .remoteAddress
      else none
    proxyTrusted := proxyTrusted
    remoteAddress := remoteAddress.map String.ofList }

end Redbox
