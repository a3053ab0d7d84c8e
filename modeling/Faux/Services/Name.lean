import Faux.Channel.Basic

/-! # The name server

`name/nameserver.cpp` keeps, for each socket, the addresses that are registered under a name. A lookup takes the first address of a
list and puts it at the end. `none` stands for the use of the front of an empty list. -/

namespace Faux

def invalidAddress : Nat := sizeMod - 1

structure NameConfig where
  sockNum : Nat
  some : 0 < sockNum

/-- `CORE_TO_SOCK`, of the bits of a core. -/
def NameConfig.coreToSock (cfg : NameConfig) (core : Nat) : Nat := core &&& (cfg.sockNum - 1)

/-- `sock_name_to_addrs`, by socket and name. -/
structure NameServer where
  addrs : Nat → Nat → Option (List Nat)

structure NameLookupResponse where
  epAddr : Nat
  ack : Bool

namespace NameServer

def init : NameServer := { addrs := fun _ _ => none }

def set (s : NameServer) (sock name : Nat) (list : Option (List Nat)) : NameServer :=
  { addrs := Function.update s.addrs sock (Function.update (s.addrs sock) name list) }

variable (cfg : NameConfig)

def nameRegister (s : NameServer) (core name epAddr : Nat) : NameServer :=
  let sock := cfg.coreToSock core
  match s.addrs sock name with
  | some list => s.set sock name (some (epAddr :: list))
  | none => s.set sock name (some [epAddr])

/-- `nameserver_name_unregister`: `std::list::remove` takes out all that are equal. -/
def nameUnregister (s : NameServer) (core name epAddr : Nat) : NameServer :=
  let sock := cfg.coreToSock core
  match s.addrs sock name with
  | some list =>
    let list := list.filter (· ≠ epAddr)
    if list.length = 0 then s.set sock name none else s.set sock name (some list)
  | none => s

def rotate (s : NameServer) (sock name : Nat) : List Nat → Option (NameServer × Nat)
  | [] => none
  | epAddr :: rest => some (s.set sock name (some (rest ++ [epAddr])), epAddr)

/-- The search on the other sockets: the address and the socket that it is from. -/
def lookupOthers (s : NameServer) (sock name : Nat) : List Nat → Option (NameServer × Nat × Option Nat)
  | [] => some (s, invalidAddress, none)
  | sockI :: socks =>
    if sockI = sock then lookupOthers s sock name socks
    else
      match s.addrs sockI name with
      | some list => (s.rotate sockI name list).map fun r => (r.1, r.2, some sockI)
      | none => lookupOthers s sock name socks

def nameLookup (s : NameServer) (core name : Nat) : Option (NameServer × NameLookupResponse × Option Nat) := do
  let sock := cfg.coreToSock core
  let (s, epAddr, served) ←
    match s.addrs sock name with
    | some list => (s.rotate sock name list).map fun r => (r.1, r.2, some sock)
    | none => some (s, invalidAddress, none)
  if epAddr = invalidAddress then do
    let (s, epAddr, served) ← s.lookupOthers sock name (List.range cfg.sockNum)
    some (s, { epAddr, ack := epAddr ≠ invalidAddress }, served)
  else some (s, { epAddr, ack := true }, served)

end NameServer

structure Registration where
  core : Nat
  name : Nat
  epAddr : Nat
  deriving DecidableEq

/-- The registrations that one unregister request takes out together: `std::list::remove` does not look at the core. -/
def Registration.Same (cfg : NameConfig) (q r : Registration) : Prop :=
  q.name = r.name ∧ q.epAddr = r.epAddr ∧ cfg.coreToSock q.core = cfg.coreToSock r.core

instance (cfg : NameConfig) (q r : Registration) : Decidable (q.Same cfg r) := inferInstanceAs (Decidable (_ ∧ _ ∧ _))

structure NameAnswer where
  name : Nat
  sock : Nat
  epAddr : Nat
  deriving DecidableEq

/-- The name server, the registrations that no unregister request has taken out, and the answers that it has given. -/
structure NameSystem where
  server : NameServer
  registered : List Registration
  answers : List NameAnswer

inductive NameEvent where
  | register (r : Registration)
  | unregister (r : Registration)
  | lookup (core name : Nat)

namespace NameSystem

def init : NameSystem := { server := .init, registered := [], answers := [] }

variable (cfg : NameConfig)

def step (s : NameSystem) : NameEvent → Option NameSystem
  | .register r =>
    some { s with server := s.server.nameRegister cfg r.core r.name r.epAddr, registered := r :: s.registered }
  | .unregister r =>
    some { s with
      server := s.server.nameUnregister cfg r.core r.name r.epAddr
      registered := s.registered.filter fun q => ¬q.Same cfg r }
  | .lookup core name => do
    let (server, response, served) ← s.server.nameLookup cfg core name
    some { s with server, answers := s.answers ++ (served.map fun sock => { name, sock, epAddr := response.epAddr }).toList }

/-- No address is the invalid marker. -/
def Allowed (_ : NameSystem) : NameEvent → Prop
  | .register r => r.epAddr ≠ invalidAddress
  | .unregister _ | .lookup _ _ => True

instance (s : NameSystem) : ∀ e, Decidable (s.Allowed e)
  | .register r => inferInstanceAs (Decidable (r.epAddr ≠ invalidAddress))
  | .unregister _ | .lookup _ _ => inferInstanceAs (Decidable True)

/-- The registrations that are left when every unregister request stands for one register request. -/
def outstanding : List NameEvent → List Registration :=
  List.foldl (fun left e => match e with
    | .register r => r :: left
    | .unregister r => left.erase r
    | .lookup _ _ => left) []

def On (sock name : Nat) (r : Registration) : Prop := r.name = name ∧ cfg.coreToSock r.core = sock

instance (sock name : Nat) (r : Registration) : Decidable (On cfg sock name r) := inferInstanceAs (Decidable (_ ∧ _))

def onSock (s : NameSystem) (sock name : Nat) : List Registration := s.registered.filter (On cfg sock name ·)

/-- The requests that change what is registered under a name on a socket. -/
def Changes (sock name : Nat) (s : NameSystem) : NameEvent → Prop
  | .register r => On cfg sock name r
  | .unregister r => On cfg sock name r ∧ ∃ q ∈ s.registered, q.Same cfg r
  | .lookup _ _ => False

end NameSystem

def servedBy (sock name : Nat) (answers : List NameAnswer) : List NameAnswer :=
  answers.filter fun a => a.name = name ∧ a.sock = sock

end Faux
