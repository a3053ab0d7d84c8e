import Faux.Fs.Types
import Faux.Lib.AList
import Faux.Lib.Run

/-! # Incoming connections

The connection manager of a netstack (`sys/net/conn/conn_manager.cpp`, `conn_socket.cpp`) with the transport of the same netstack,
for one listening socket. Each event is handled to its end before the next. The port of the echo server is left out. -/

namespace Faux
open Lib

/-- `flow_t`, the hash of a connection. -/
abbrev FlowId := Nat

/-- The address under which an application waits for connections. -/
abbrev AppAddr := Nat

/-- `PendingFlowSocket`: a connection in its handshake, with the acceptor that was known when the SYN came. -/
structure PendingFlow where
  flow : FlowId
  acceptor : Option AppAddr
  deriving DecidableEq

/-- `FlowSocket`. `m_client_addr` is set only if there was an acceptor when the SYN came. -/
structure FlowSocket where
  clientAddr : Option AppAddr
  claimed : Bool
  deriving DecidableEq

/-- `Connection`: pending at the connection manager; `netstack` is the transport that has it when it is another one. -/
structure PendingConn where
  netstack : Option Nat
  flow : FlowId
  deriving DecidableEq

/-- A connection manager and its transport. The offers are the messages to applications that have not claimed yet. -/
structure Netstack where
  id : Nat
  count : Nat
  curr : Nat
  listening : Bool
  acceptors : List AppAddr
  pending : List PendingConn
  handshakes : List PendingFlow
  flows : AList fun _ : FlowId => FlowSocket
  /-- SYN messages to other transports. -/
  forwarded : List (Nat × PendingFlow)
  offers : List (AppAddr × FlowId)
  apps : List AppAddr
  claims : List (AppAddr × FlowId)

/-- What variables and message fields hold that are never set. -/
structure Unset where
  closed : Bool
  claimed : Bool
  app : AppAddr

inductive Provided where
  | closed
  | claimed (app : Option AppAddr)
  | free

namespace Netstack

/-- `getAcceptor`: the first acceptor goes to the end of the list. -/
def getAcceptor (s : Netstack) : Netstack × Option AppAddr :=
  match s.acceptors with
  | [] => (s, none)
  | a :: rest => ({ s with acceptors := rest ++ [a] }, some a)

def addAcceptor (s : Netstack) (app : AppAddr) (likely : Bool) : Netstack :=
  if app ∈ s.acceptors then s
  else { s with acceptors := if likely then app :: s.acceptors else s.acceptors ++ [app] }

/-- `chooseTransport`; `none` is the transport of this netstack. -/
def chooseTransport (s : Netstack) : Netstack × Option Nat :=
  if s.curr = s.id then (s, none) else ({ s with curr := (s.curr + 1) % s.count }, some s.curr)

def startHandshake (s : Netstack) (netstack : Option Nat) (h : PendingFlow) : Netstack :=
  match netstack with
  | none => { s with handshakes := s.handshakes ++ [h] }
  | some k => { s with forwarded := s.forwarded ++ [(k, h)] }

/-- `incomingConn`: without an acceptor the connection is pending from now on. -/
def incomingConn (s : Netstack) (flow : FlowId) : Netstack :=
  if s.listening then
    let (s, acceptor) := s.getAcceptor
    let (s, netstack) := s.chooseTransport
    let s := s.startHandshake netstack { flow, acceptor }
    if acceptor = none then { s with pending := s.pending ++ [{ netstack, flow }] } else s
  else s

def offerTo (s : Netstack) (acceptor : Option AppAddr) (flow : FlowId) : Netstack :=
  match acceptor with
  | some app => { s with offers := s.offers ++ [(app, flow)] }
  | none => s

def acceptCallback (s : Netstack) (h : PendingFlow) : Res Netstack := do
  require (h.flow ∉ s.flows)
  .ok ({ s with flows := s.flows.insert h.flow { clientAddr := h.acceptor, claimed := false } }.offerTo h.acceptor h.flow)

/-- `provideAppWithConnection`: the application is told of a connection even if it is claimed. -/
def provideAppWithConnection (s : Netstack) (flow : FlowId) (app : AppAddr) : Netstack × Provided :=
  match s.flows.lookup flow with
  | none => (s, .closed)
  | some f => ({ s with offers := s.offers ++ [(app, flow)] }, if f.claimed then .claimed f.clientAddr else .free)

/-- The request to the transport of a pending connection. The fields of the request to another transport are not set, nor is the
    answer known. -/
def provide (s : Netstack) (p : PendingConn) (app : AppAddr) (unset : Unset) : Netstack × Provided :=
  match p.netstack with
  | none => s.provideAppWithConnection p.flow app
  | some _ => (s, if unset.closed then .closed else if unset.claimed then .claimed none else .free)

/-- The loop of `accept` over the pending connections. For a connection that is closed `is_claimed` has not been set. -/
def acceptLoop (app : AppAddr) (unset : Nat → Unset) : List PendingConn → Netstack → Netstack
  | [], s => { s with pending := [] }.addAcceptor app true
  | p :: rest, s =>
    let s := { s with pending := rest }.addAcceptor app false
    let junk := unset rest.length
    match s.provide p app junk with
    | (s, .free) => s
    | (s, .closed) => acceptLoop app unset rest (if junk.claimed then s.addAcceptor junk.app false else s)
    | (s, .claimed a) => acceptLoop app unset rest (s.addAcceptor (a.getD junk.app) false)

def accept (s : Netstack) (app : AppAddr) (unset : Nat → Unset) : Netstack :=
  if s.listening then acceptLoop app unset s.pending { s with apps := app :: s.apps } else s

def claimConnection (s : Netstack) (app : AppAddr) (flow : FlowId) : Netstack :=
  let s := { s with offers := s.offers.eraseP fun o => o.1 = app ∧ o.2 = flow }
  match s.flows.lookup flow with
  | none => s
  | some f =>
    if f.claimed then s
    else { s with flows := s.flows.insert flow { f with claimed := true }, claims := s.claims ++ [(app, flow)] }

def closeConnection (s : Netstack) (flow : FlowId) : Netstack :=
  { s with flows := s.flows.erase flow, claims := s.claims.filter fun o => o.2 ≠ flow }

end Netstack

/-! ### Runs -/

inductive NetstackAct where
  | listen
  | syn (flow : FlowId)
  | complete (i : Nat)
  | abort (i : Nat)
  | accept (app : AppAddr) (unset : Nat → Unset)
  | claim (app : AppAddr) (flow : FlowId)
  | close (flow : FlowId)

namespace Netstack

def step (s : Netstack) : NetstackAct → Option Netstack
  | .listen => some { s with listening := true }
  | .syn flow => some (s.incomingConn flow)
  | .complete i =>
    match s.handshakes[i]? with
    | some h => ({ s with handshakes := s.handshakes.eraseIdx i }.acceptCallback h).toOption
    | none => none
  | .abort i => some { s with handshakes := s.handshakes.eraseIdx i }
  | .accept app unset => some (s.accept app unset)
  | .claim app flow => if s.offers.any fun o => o.1 = app ∧ o.2 = flow then some (s.claimConnection app flow) else none
  | .close flow => some (s.closeConnection flow)

structure Start (s : Netstack) : Prop where
  curr : s.curr = s.id
  acceptors : s.acceptors = []
  pending : s.pending = []
  handshakes : s.handshakes = []
  flows : s.flows = ∅
  claims : s.claims = []

def Waits (s : Netstack) (flow : FlowId) : Prop := ∃ p ∈ s.pending, p.flow = flow

/-- Every connection that is established is pending, offered to an application or claimed; it is claimed at most once; and a
    connection in its handshake has an application as its acceptor or is pending. -/
structure Served (s : Netstack) : Prop where
  live : ∀ flow ∈ s.flows, s.Waits flow ∨ (∃ app ∈ s.apps, (app, flow) ∈ s.offers) ∨ ∃ app, (app, flow) ∈ s.claims
  once : (s.claims.map (·.2)).Nodup
  waiting : ∀ h ∈ s.handshakes, (∃ app ∈ s.apps, h.acceptor = some app) ∨ s.Waits h.flow

def isFree (s : Netstack) (p : PendingConn) : Bool := (s.flows.lookup p.flow).any fun f => !f.claimed

def taken (s : Netstack) : List PendingConn → List PendingConn
  | [] => []
  | p :: rest => if s.isFree p then [p] else p :: s.taken rest

/-- An accept request takes no connection that is in its handshake, and none that is claimed without a known client; and what is not
    set does not say that a connection is claimed. -/
def Guard (s : Netstack) : NetstackAct → Prop
  | .accept _ unset =>
    (∀ p ∈ s.taken s.pending, (∀ h ∈ s.handshakes, h.flow ≠ p.flow) ∧
      ∀ f, s.flows.lookup p.flow = some f → f.claimed = true → f.clientAddr ≠ none) ∧
    ∀ n, (unset n).claimed = false
  | _ => True

end Netstack
end Faux
