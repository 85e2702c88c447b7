import Redbox.Text.Numeral
import Mathlib.Algebra.BigOperators.Group.List.Basic

/-! IP addresses and networks in text. An address is a number of 128 bits, and an IPv4
address is the IPv6 address that it is mapped to. -/
namespace IpAddress
open Text

/-- A decimal number up to 255 without leading zeros. -/
def octet? (cs : List Char) : Option Nat :=
  (decimal? cs).filter fun n => decide (n ≤ 255) && (cs.length == 1 || cs.head? != some '0')

def ipv4Value (octets : List Nat) : Nat := octets.foldl (fun acc n => acc * 2 ^ 8 + n) 0

def ipv4? (cs : List Char) : Option Nat :=
  match (cs.splitOn '.').mapM octet? with
  | some octets => if octets.length = 4 then some (ipv4Value octets) else none
  | none => none

/-- One to four hexadecimal digits. -/
def group? (cs : List Char) : Option Nat := if cs.length ≤ 4 then radix? 16 cs else none

def groups? (cs : List Char) : Option (List Nat) :=
  if cs = [] then some [] else (cs.splitOn ':').mapM group?

/-- Groups of which an IPv4 address stands for the last two. -/
def dottedGroups? (cs : List Char) : Option (List Nat) :=
  match ((cs.splitOn ':').dropLast).mapM group?, ((cs.splitOn ':').getLast?).bind ipv4? with
  | some groups, some n => some (groups ++ [n / 2 ^ 16, n % 2 ^ 16])
  | _, _ => none

/-- `split('::')` -/
def splitDouble : List Char → List (List Char)
  | ':' :: ':' :: cs => [] :: splitDouble cs
  | c :: cs => match splitDouble cs with
    | part :: parts => (c :: part) :: parts
    | [] => [[c]]
  | [] => [[]]

def ipv6Value (groups : List Nat) : Nat := groups.foldl (fun acc n => acc * 2 ^ 16 + n) 0

/-- Eight groups, or a `::` in the place of at least one. -/
def ipv6Groups? (tail? : List Char → Option (List Nat)) (cs : List Char) : Option Nat :=
  match splitDouble cs with
  | [whole] => ((tail? whole).filter fun groups => groups.length == 8).map ipv6Value
  | [head, tail] => match groups? head, tail? tail with
    | some head, some tail =>
      if head.length + tail.length ≤ 7 then
        some (ipv6Value (head ++ List.replicate (8 - head.length - tail.length) 0 ++ tail))
      else none
    | _, _ => none
  | _ => none

def hexIpv6? (cs : List Char) : Option Nat := ipv6Groups? groups? cs

def isZone (c : Char) : Bool := c.isAlphanum || c == '-' || c == '.' || c == ':'

/-- The address before a zone. -/
def withoutZone (cs : List Char) : List Char :=
  match cs.dropWhile (· != '%') with
  | '%' :: zone => if zone ≠ [] ∧ zone.all isZone = true then cs.takeWhile (· != '%') else cs
  | _ => cs

def ipv6? (cs : List Char) : Option Nat :=
  (hexIpv6? cs).or (ipv6Groups? (fun tail => (groups? tail).or (dottedGroups? tail))
    (withoutZone cs))

inductive Family where
  | ipv4 | ipv6
  deriving DecidableEq

/-- `isIP` of the module `net`. -/
def isIP (cs : List Char) : Option Family :=
  if (ipv4? cs).isSome then some .ipv4 else if (ipv6? cs).isSome then some .ipv6 else none

def mapped (n : Nat) : Nat := 0xffff * 2 ^ 32 + n

/-- The address after `::ffff:`. -/
def mappedIpv4? (cs : List Char) : Option Nat :=
  if (cs.take 7).map Char.toLower = "::ffff:".toList then ipv4? (cs.drop 7) else none

/-- The address that a text denotes, with the family that it is written in. -/
def address? (cs : List Char) : Option (Family × Nat) :=
  match ipv4? cs with
  | some n => some (.ipv4, mapped n)
  | none => match mappedIpv4? cs with
    | some n => some (.ipv6, mapped n)
    | none => (ipv6? cs).map fun n => (.ipv6, n)

/-- The addresses that agree with one in all but some low bits. -/
structure Network where
  address : Nat
  hostBits : Nat

def Network.has (network : Network) (address : Nat) : Bool :=
  decide (address / 2 ^ network.hostBits = network.address / 2 ^ network.hostBits)

def familyBits : Family → Nat
  | .ipv4 => 32
  | .ipv6 => 128

/-- The network that a text denotes: an address, or an address, one `/` and the decimal length of
its prefix. -/
def network? (cs : List Char) : Option Network :=
  match cs.splitOn '/' with
  | [address] => (address? address).map fun x => ⟨x.2, 0⟩
  | [address, length] => match address? address, decimal? length with
    | some x, some n => if n ≤ familyBits x.1 then some ⟨x.2, familyBits x.1 - n⟩ else none
    | _, _ => none
  | _ => none

end IpAddress
