import LinuxTest.Libc

/-!
# Internet addresses of the traffic tool

`IPAddress` of `ethernet_test/test-suite/ipaddr.h`: a socket address that is built from a text
`host` or `host@port`, through the resolver of the system, and printed back. The resolver and the
printer of addresses are parameters. The assertions of the header abort the program.

## Main definitions

* `Network`: `getaddrinfo` and `inet_ntop`
* `Sockaddr`: the storage of an address
* `split`: the pieces of a text between delimiters
* `getsockaddrlen`, `getport`, `setport`, `tostring`, `resolve`, `new`: the methods and the
  constructors

## Main results

* `getport_setport`: the port that was set is read back
-/

namespace LinuxTest.Ethernet

/-- An address in a `sockaddr_storage`: the family, the port in network order and the address. -/
structure Sockaddr where
  family : ℕ
  port : BitVec 16
  addr : List (BitVec 8)
deriving Repr, DecidableEq

/-- The address families of the header. -/
def afUnspec : ℕ := 0

@[inherit_doc afUnspec] def afInet : ℕ := 2

@[inherit_doc afUnspec] def afInet6 : ℕ := 10

/-- The functions of the system. -/
structure Network where
  /-- The first address found for a host and a service, with a family hint. -/
  getaddrinfo : Option CString → CString → ℕ → Option Sockaddr
  /-- The text of an address of a family. -/
  inetNtop : ℕ → List (BitVec 8) → CString

namespace IPAddress

/-- Why a method does not return: the exception, or an abort by an assertion. -/
inductive Stop where
  | badFormat
  | assertion (method : String)
deriving Repr, DecidableEq

/-- The text of the exception. -/
def Stop.text : Stop → String
  | .badFormat => "ipaddress not formatted as expected"
  | .assertion method => "Incorrect family setting detected in " ++ method ++ "()\n"

/-- The pieces of a text between delimiters, as repeated `getline` reads them, with the characters
of the current piece read so far: an empty last piece is not one. -/
def splitFrom (delim : Char) (item : CString) : CString → List CString
  | [] => if item = [] then [] else [item]
  | c :: s => if c = delim then item :: splitFrom delim [] s else splitFrom delim (item ++ [c]) s

@[inherit_doc splitFrom]
def split (s : CString) (delim : Char) : List CString := splitFrom delim [] s

example : split "a@@".toList '@' = ["a".toList, []] := by decide

/-- Swap the bytes of a port between host and network order. -/
def htons (x : BitVec 16) : BitVec 16 := x.extractLsb' 0 8 ++ x.extractLsb' 8 8

/-- The length of the address structure of the family. -/
def getsockaddrlen (s : Sockaddr) : Except Stop ℕ :=
  if s.family = afInet then .ok 16
  else if s.family = afInet6 then .ok 28
  else .error (.assertion "getsockaddrlen")

/-- The port, in host order. -/
def getport (s : Sockaddr) : Except Stop (BitVec 16) :=
  if s.family = afInet then .ok (htons s.port)
  else if s.family = afInet6 then .ok (htons s.port)
  else .error (.assertion "getport")

/-- Set the port. -/
def setport (portn : BitVec 16) (s : Sockaddr) : Except Stop Sockaddr :=
  if s.family = afInet then .ok { s with port := htons portn }
  else if s.family = afInet6 then .ok { s with port := htons portn }
  else .error (.assertion "getport")

/-- The text `address@port`. -/
def tostring (net : Network) (s : Sockaddr) : Except Stop CString := do
  let port ← getport s
  return net.inetNtop s.family s.addr ++ '@' :: decimal port.toNat

/-- The common part `_IPAddress` of the constructors. When the resolver fails, the storage stays
zero and no error is raised. -/
def resolve (net : Network) (pip : Option CString) (pport : CString) (afhint : ℕ) :
    Except Stop Sockaddr :=
  match net.getaddrinfo pip pport afhint with
  | none => return ⟨0, 0, []⟩
  | some sa => do
    let s ← setport ((atoi pport).setWidth 16) sa
    -- The address is printed, which asserts its family once more.
    let _ ← tostring net s
    return s

/-- The constructor from a text. -/
def new (net : Network) (ipaddrstr : CString) : Except Stop Sockaddr :=
  match split ipaddrstr '@' with
  | [ipaddr, port] => resolve net (some ipaddr) port afUnspec
  | [ipaddr] => resolve net (some ipaddr) ['0'] afUnspec
  | _ => .error .badFormat

/-! ## Ports -/

theorem htons_htons (x : BitVec 16) : htons (htons x) = x := by
  apply BitVec.eq_of_getLsbD_eq
  intro i hi
  simp only [htons, BitVec.getLsbD_append, BitVec.getLsbD_extractLsb']
  grind

/-- **The port that was set is read back.** -/
theorem getport_setport {portn : BitVec 16} {s s' : Sockaddr} (h : setport portn s = .ok s') :
    getport s' = .ok portn := by
  unfold setport at h
  split_ifs at h with h4 h6
  · cases h
    rw [getport, if_pos h4, htons_htons]
  · cases h
    rw [getport, if_neg h4, if_pos h6, htons_htons]

end IPAddress

end LinuxTest.Ethernet
