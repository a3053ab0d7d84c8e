import Faux.Channel.Basic
import Faux.Lib.AList
import Faux.Lib.Run

/-! # Endpoints

How two endpoints set up a channel (`messaging/channel.cpp`). The region of an endpoint holds its public channel, to which requests
are sent, its side channel, to which responses are sent, and the buffers of its pool. Other regions are reached by name, through a
cache of mappings. A connect waits for its response, so it is two steps. `none`: a failed assertion, an access or an unmapping
outside of a mapping, or a step that cannot be taken or does not end. -/

namespace Faux
open Lib

/-- `sizeof(HalfChannel)`: three aligned words and the buffer. -/
def sizeofHalfChannel : Nat := 3 * (2 * cachelineSize) + sharedSize

def channelSize : Nat := 2 * cachelineSize + 2 * sizeofHalfChannel

def endpointPublicChannels : Nat := 1

def endpointSize : Nat := channelSize * (endpointPublicChannels + 1)

/-- The offset of the public channel that a process writes to, `getpid() % ENDPOINT_PUBLIC_CHANNELS`. -/
def publicChannel : Nat := 0

def sideChannel : Nat := channelSize * endpointPublicChannels

inductive Control where
  | connect (epAddr epSize : Nat)
  | disconnect (epAddr epSize : Nat)
  | response (epAddr chanOff : Nat)
deriving DecidableEq

structure Mapping where
  region : Nat
  size : Nat

/-- `Channel`: its buffer is the region and the offset. -/
structure Chan where
  owned : Bool
  remoteEpAddr : Nat
  region : Nat
  off : Nat
deriving DecidableEq

/-- `Endpoint`, with the address that its process is connecting to and the channels it has got. -/
structure Endpoint where
  localEpAddr : Nat
  epSize : Nat
  localChanPool : List Nat
  remoteEpCache : AList fun _ : Nat => Mapping
  connecting : Option Nat
  channels : List Chan
  destroyed : Bool

/-- What the acceptor recorded of an accepted connect. -/
structure Accept where
  acceptor : Nat
  remoteEpAddr : Nat
  off : Nat
deriving DecidableEq

/-- The endpoints, the names of the shared memory regions, and the queues at offsets of regions. The region of
    an endpoint has the endpoint's number. A queue that has not been set up (`__channel_setup_owned`) has its head at its tail:
    `channel_allocate` finds no room in it. `accepted` records the accepted connects. -/
structure Net where
  endpoints : Nat → Endpoint
  names : Nat → Option Nat
  queue : Nat → Nat → List Control
  setUp : Nat → Nat → Bool
  accepted : List Accept

inductive NetAct where
  /-- `endpoint_connect` up to its request. -/
  | connect (ep remoteEpAddr : Nat)
  | finish (ep : Nat)
  | accept (ep : Nat)
  | destroy (ep : Nat)

namespace Net

def setEndpoint (s : Net) (ep : Nat) (e : Endpoint) : Net := { s with endpoints := Function.update s.endpoints ep e }

def setQueue (s : Net) (region off : Nat) (messages : List Control) : Net :=
  { s with queue := Function.update s.queue region (Function.update (s.queue region) off messages) }

/-- `__channel_setup_owned` of a buffer of the pool. Nothing has been sent to it before, so its queue is empty. -/
def channelSetupOwned (s : Net) (region off : Nat) : Net :=
  { s with setUp := Function.update s.setUp region (Function.update (s.setUp region) off true) }

/-- The loop around `channel_allocate`, and `channel_send`. -/
def send (s : Net) (m : Mapping) (off : Nat) (message : Control) : Option Net :=
  if off + channelSize ≤ m.size ∧ s.setUp m.region off then some (s.setQueue m.region off (s.queue m.region off ++ [message])) else none

/-- The mapping of a remote endpoint from the cache, or a new one of the given size (`__addr_open`). -/
def lookup (s : Net) (e : Endpoint) (addr size : Nat) : Option (Mapping × Endpoint) :=
  match e.remoteEpCache.lookup addr with
  | some m => some (m, e)
  | none => do
    let region ← s.names addr
    let m : Mapping := { region, size }
    some (m, { e with remoteEpCache := e.remoteEpCache.insert addr m })

/-- `endpoint_connect` until it waits for the response. -/
def endpointConnect (s : Net) (ep remoteEpAddr : Nat) : Option Net := do
  let e := s.endpoints ep
  if e.destroyed ∨ e.connecting ≠ none then none
  else
    let (m, e) ← s.lookup e remoteEpAddr endpointSize
    let s ← s.send m publicChannel (.connect e.localEpAddr e.epSize)
    some (s.setEndpoint ep { e with connecting := some remoteEpAddr })

/-- `endpoint_connect` from the response on; the buffer is mapped by the name of the address. -/
def endpointConnected (s : Net) (ep : Nat) : Option Net := do
  let e := s.endpoints ep
  let remoteEpAddr ← e.connecting
  match s.queue ep sideChannel with
  | .response epAddr chanOff :: rest =>
    if epAddr = remoteEpAddr then
      let region ← s.names remoteEpAddr
      let chan : Chan := { owned := false, remoteEpAddr, region, off := chanOff }
      some ((s.setQueue ep sideChannel rest).setEndpoint ep
        { e with connecting := none, channels := e.channels ++ [chan] })
    else none
  | _ => none

/-- `endpoint_accept` of a connect request. The test for a free buffer, `!((Channel *) *j)->closed`, reads a
    field of the shared buffer that nothing writes, so the first buffer of the pool is taken. -/
def acceptConnect (s : Net) (ep remoteEpAddr epSize : Nat) : Option Net := do
  let e := s.endpoints ep
  -- the offset of a cached mapping starts one channel later
  let start := if e.remoteEpCache.lookup remoteEpAddr = none then 0 else channelSize
  let (m, e) ← s.lookup e remoteEpAddr (endpointSize + epSize)
  match e.localChanPool with
  | [] => none
  | buf :: localChanPool =>
    let s := s.channelSetupOwned ep buf
    let s ← s.send m (start + channelSize * endpointPublicChannels) (.response e.localEpAddr buf)
    let chan : Chan := { owned := true, remoteEpAddr, region := ep, off := buf }
    some { s.setEndpoint ep { e with localChanPool, channels := e.channels ++ [chan] } with
      accepted := s.accepted ++ [{ acceptor := ep, remoteEpAddr, off := buf }] }

def endpointAccept (s : Net) (ep : Nat) : Option Net :=
  let e := s.endpoints ep
  if e.destroyed ∨ e.connecting ≠ none then none
  else
    match s.queue ep publicChannel with
    | [] => some s
    | .connect epAddr epSize :: rest => (s.setQueue ep publicChannel rest).acceptConnect ep epAddr epSize
    | .disconnect epAddr epSize :: rest =>
      -- without an entry the pages at address 0 are unmapped
      if (e.remoteEpCache.lookup epAddr).all fun m => m.size = endpointSize + epSize then
        some ((s.setQueue ep publicChannel rest).setEndpoint ep { e with remoteEpCache := e.remoteEpCache.erase epAddr })
      else none
    | .response .. :: _ => none

def sendDisconnects (e : Endpoint) : List Mapping → Net → Option Net
  | [], s => some s
  | m :: ms, s => (s.send m publicChannel (.disconnect e.localEpAddr e.epSize)).bind (sendDisconnects e ms)

def endpointDestroy (s : Net) (ep : Nat) : Option Net := do
  let e := s.endpoints ep
  if e.destroyed ∨ e.connecting ≠ none then none
  else
    let s ← sendDisconnects e (e.remoteEpCache.entries.map (·.2)) s
    some { s.setEndpoint ep { e with destroyed := true } with names := Function.update s.names e.localEpAddr none }

def step (s : Net) : NetAct → Option Net
  | .connect ep remoteEpAddr => s.endpointConnect ep remoteEpAddr
  | .finish ep => s.endpointConnected ep
  | .accept ep => s.endpointAccept ep
  | .destroy ep => s.endpointDestroy ep

structure Start (s : Net) : Prop where
  distinct : ∀ ep ep', (s.endpoints ep).localEpAddr = (s.endpoints ep').localEpAddr → ep = ep'
  named : ∀ ep, s.names (s.endpoints ep).localEpAddr = some ep
  names : ∀ addr ep, s.names addr = some ep → (s.endpoints ep).localEpAddr = addr
  cache : ∀ ep addr, (s.endpoints ep).remoteEpCache.lookup addr = none
  idle : ∀ ep, (s.endpoints ep).connecting = none ∧ (s.endpoints ep).channels = [] ∧ (s.endpoints ep).destroyed = false
  queue : ∀ region off, s.queue region off = []
  setUp : ∀ region off, s.setUp region off = true ↔ off = publicChannel ∨ off = sideChannel
  pool : ∀ ep, ∃ n, (s.endpoints ep).epSize = channelSize * n ∧
    (s.endpoints ep).localChanPool = (List.range n).map fun i => endpointSize + channelSize * i
  accepted : s.accepted = []

/-- The accepted connects of an endpoint, by the acceptor's address and the offset of the buffer. -/
def acceptedOf (s : Net) (ep : Nat) : List Control :=
  (s.accepted.filter fun a => a.remoteEpAddr = (s.endpoints ep).localEpAddr).map fun a =>
    .response (s.endpoints a.acceptor).localEpAddr a.off

def connectedBy (s : Net) (ep : Nat) : List Control :=
  ((s.endpoints ep).channels.filter fun c => !c.owned).map fun c => .response c.remoteEpAddr c.off

/-- Every accepted connect has its response in the side channel of the endpoint that connects until that
    endpoint takes it; a connect that finds a response finds its own and returns; and the channel it returns
    has the buffer that the acceptor's channel has. -/
structure Agree (s : Net) : Prop where
  responses : ∀ ep, s.acceptedOf ep = s.connectedBy ep ++ s.queue ep sideChannel
  own : ∀ ep remoteEpAddr, (s.endpoints ep).connecting = some remoteEpAddr → s.queue ep sideChannel ≠ [] →
    (∃ off, s.queue ep sideChannel = [.response remoteEpAddr off]) ∧ ∃ t, s.step (.finish ep) = some t
  buffers : ∀ ep, ∀ c ∈ (s.endpoints ep).channels, c.owned = false →
    (s.endpoints c.region).localEpAddr = c.remoteEpAddr ∧
      { c with owned := true, remoteEpAddr := (s.endpoints ep).localEpAddr } ∈ (s.endpoints c.region).channels

/-- The endpoint whose request is accepted is not in the acceptor's cache, one that disconnects was entered there when it was
    accepted, and an endpoint is not destroyed while one that it has accepted has not taken the response. -/
def Guard (s : Net) : NetAct → Prop
  | .accept ep =>
    match s.queue ep publicChannel with
    | .connect addr _ :: _ => (s.endpoints ep).remoteEpCache.lookup addr = none
    | .disconnect addr size :: _ => ∀ m, (s.endpoints ep).remoteEpCache.lookup addr = some m → m.size = endpointSize + size
    | _ => True
  | .destroy ep => ∀ ep', (s.endpoints ep').connecting = some (s.endpoints ep).localEpAddr → s.queue ep' sideChannel = []
  | .connect .. | .finish _ => True

end Net
end Faux
