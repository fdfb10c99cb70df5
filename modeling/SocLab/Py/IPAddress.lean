import SocLab.Py.Builtin

/-!
# SocLab.Py.IPAddress — the `ipaddress` module

Addresses and networks of both families, their readers `ip_address` and `ip_network` (strict), and
membership of an address in a network.  An IPv6 address may carry a scope (`fe80::1%eth0`), which is
part of its identity and is ignored by membership.
-/

namespace Py

/-- `IPv4Address` and `IPv6Address`. -/
inductive IPAddress where
  | v4 (n : Fin (2 ^ 32))
  | v6 (n : Fin (2 ^ 128)) (scope : Option String)
  deriving DecidableEq

/-- A network; `mask` has the width of the family. -/
inductive IPNetwork where
  | v4 (network mask : Nat)
  | v6 (network mask : Nat)
  deriving DecidableEq

namespace IPAddress

/-- `address in network`; false across families. -/
def inNetwork : IPAddress → IPNetwork → Bool
  | v4 n, .v4 network mask => n.val &&& mask == network
  | v6 n _, .v6 network mask => n.val &&& mask == network
  | _, _ => false

/-- `address.version`. -/
def version : IPAddress → Nat
  | v4 _ => 4
  | v6 _ _ => 6

/-- `_parse_octet`: one to three ASCII digits without a leading zero, at most 255. -/
def parseOctet (l : List Char) : Option Nat :=
  if l ≠ [] ∧ l.all isAsciiDigit ∧ l.length ≤ 3 ∧ (l = ['0'] ∨ l.head? ≠ some '0') then
    let n := l.foldl (fun acc c => acc * 10 + (c.toNat - 0x30)) 0
    if n ≤ 255 then some n else none
  else none

/-- Four octets between dots. -/
def readV4 (l : List Char) : Option (Fin (2 ^ 32)) := do
  let octets ← (l.splitOn '.').mapM parseOctet
  if octets.length = 4 then
    let n := octets.foldl (fun acc o => acc * 256 + o) 0
    if h : n < 2 ^ 32 then some ⟨n, h⟩ else none
  else none

/-- `_parse_hextet`: one to four hexadecimal digits. -/
def parseHextet (l : List Char) : Option Nat :=
  if l ≠ [] ∧ l.all (fun c => (digitValue 16 c).isSome) ∧ l.length ≤ 4 then
    (digits 16 l).map (·.1)
  else none

/-- Hextets joined into a number, appended to `acc`. -/
def joinHextets (acc : Nat) (parts : List (List Char)) : Option Nat := do
  let hs ← parts.mapM parseHextet
  some (hs.foldl (fun acc h => acc * 65536 + h) acc)

/-- A dotted quad in the last place stands for two hextets. -/
def expandV4 (parts : List (List Char)) : Option (List (List Char)) :=
  match parts.getLast? with
  | some last =>
    if last.contains '.' then
      (readV4 last).map fun n =>
        parts.dropLast ++ [Nat.toDigits 16 (n.val / 65536), Nat.toDigits 16 (n.val % 65536)]
    else some parts
  | none => some parts

/-- The parts of an address between its colons; an inner empty part is the `::`. -/
def readHextets (parts : List (List Char)) : Option Nat :=
  let n := parts.length
  let first := (parts.head?.getD []).isEmpty
  let last := (parts.getLast?.getD []).isEmpty
  match ((List.range n).filter fun i => 1 ≤ i ∧ i + 1 < n ∧ parts[i]? = some []) with
  | [] => if n = 8 ∧ ¬ first ∧ ¬ last then joinHextets 0 parts else none
  | [skip] =>
    -- a leading or trailing empty part belongs to the double colon
    let hi := if first then skip - 1 else skip
    let lo := if last then n - skip - 2 else n - skip - 1
    if first ∧ hi ≠ 0 ∨ last ∧ lo ≠ 0 ∨ 8 ≤ hi + lo then none
    else do
      let high ← joinHextets 0 (parts.take hi)
      joinHextets (high * 65536 ^ (8 - (hi + lo))) ((parts.drop (n - lo)))
  | _ => none

/-- An address of the sixth version, with its scope after a `%`. -/
def readV6 (l : List Char) : Option IPAddress := do
  let addr := l.takeWhile (· ≠ '%')
  let rest := l.drop addr.length
  let scope ← match rest with
    | [] => some none
    | _ :: s => if s = [] ∨ '%' ∈ s then none else some (some (String.ofList s))
  let parts := addr.splitOn ':'
  if parts.length < 3 then none
  else
    let parts ← expandV4 parts
    -- eight hextets and one empty part
    if 9 < parts.length then none
    else
      let n ← readHextets parts
      if h : n < 2 ^ 128 then some (v6 ⟨n, h⟩ scope) else none

/-- An address of either family; `/` may stand nowhere in it. -/
def read (l : List Char) : Option IPAddress :=
  if '/' ∈ l then none else ((readV4 l).map v4).or (readV6 l)

end IPAddress

namespace IPNetwork

/-- The mask with `len` leading ones among `bits`. -/
def netmask (bits len : Nat) : Nat := 2 ^ bits - 2 ^ (bits - len)

/-- `_prefix_from_prefix_string`. -/
def prefixLength (bits : Nat) (l : List Char) : Option Nat :=
  if l.all isAsciiDigit then
    match int (String.ofList l) 10 with
    | .ok n => if n ≤ bits then some n.toNat else none
    | .error _ => none
  else none

/-- `_prefix_from_ip_string`: a net mask, or the mask of the host part. -/
def prefixOfMask (l : List Char) : Option Nat := do
  let n ← IPAddress.readV4 l
  let find (m : Nat) := (List.range 33).find? fun len => netmask 32 len == m
  (find n.val).or (find (2 ^ 32 - 1 - n.val))

/-- The network of an address and a mask, unless host bits are set. -/
def ofAddress (a : IPAddress) (mask : Nat) : Option IPNetwork :=
  match a with
  | .v4 n => if n.val &&& mask = n.val then some (v4 n.val mask) else none
  | .v6 n _ => if n.val &&& mask = n.val then some (v6 n.val mask) else none

/-- An address, alone or with a mask after a slash. -/
def read (l : List Char) : Option IPNetwork := do
  let (addr, mask) ← match l.splitOn '/' with
    | [addr] => some (addr, none)
    | [addr, mask] => some (addr, some mask)
    | _ => none
  let a ← IPAddress.read addr
  let bits := if a.version = 4 then 32 else 128
  let len ← match mask with
    | none => some bits
    | some m =>
      if a.version = 4 then (prefixLength 32 m).or (prefixOfMask m) else prefixLength 128 m
  ofAddress a (netmask bits len)

end IPNetwork

/-- `ipaddress.ip_address(text)`. -/
def ipAddress (text : String) : Except Exc IPAddress :=
  match IPAddress.read text.toList with
  | some a => .ok a
  | none => .error .valueError

/-- `ipaddress.ip_network(text)`. -/
def ipNetwork (text : String) : Except Exc IPNetwork :=
  match IPNetwork.read text.toList with
  | some n => .ok n
  | none => .error .valueError

theorem ipAddress_error {text : String} {e : Exc} (h : ipAddress text = .error e) :
    e = .valueError := by
  unfold ipAddress at h
  split at h
  · cases h
  · exact (Except.error.inj h).symm

theorem ipNetwork_error {text : String} {e : Exc} (h : ipNetwork text = .error e) :
    e = .valueError := by
  unfold ipNetwork at h
  split at h
  · cases h
  · exact (Except.error.inj h).symm

example : ipAddress "192.0.2.10" = .ok (.v4 3221225994) := by decide

example : ipAddress "fe80::1%eth0" =
    .ok (.v6 338288524927261089654018896841347694593 (some "eth0")) := by decide

end Py
