import Faux.Channel.Endpoint

/-! # Connecting and accepting

An endpoint that connects has one request in the public channel of the other one until that accepts it, and then one response in
its own side channel. From a cached mapping the acceptor writes one channel too far, into the first buffer of the pool. -/

namespace Faux
open Function Lib

namespace Net
variable {s t : Net} {ep region off : Nat} {e : Endpoint} {m : Mapping} {message : Control} {l rest : List Control}

/-! ### Updates -/

@[simp] theorem queue_setEndpoint : (s.setEndpoint ep e).queue = s.queue := rfl
@[simp] theorem endpoints_setQueue : (s.setQueue region off l).endpoints = s.endpoints := rfl
@[simp] theorem names_setQueue : (s.setQueue region off l).names = s.names := rfl

theorem queue_setQueue (region' off' : Nat) :
    (s.setQueue region off l).queue region' off' =
      if region' = region ∧ off' = off then l else s.queue region' off' := by
  by_cases same : region' = region
  · subst same
    simp [setQueue, update_apply]
  · simp [setQueue, same]

theorem field_eq {β : Type} (changed : t.endpoints = update s.endpoints ep e) (f : Endpoint → β)
    (same : f e = f (s.endpoints ep)) (ep' : Nat) : f (t.endpoints ep') = f (s.endpoints ep') := by
  rw [changed]
  by_cases is : ep' = ep
  · rw [is, update_self, same]
  · rw [update_of_ne is]

theorem mem_channels {ep' : Nat} {c : Chan} {l : List Chan} (changed : t.endpoints = update s.endpoints ep e)
    (more : e.channels = (s.endpoints ep).channels ++ l) :
    c ∈ (t.endpoints ep').channels ↔ c ∈ (s.endpoints ep').channels ∨ ep' = ep ∧ c ∈ l := by
  rw [changed]
  by_cases is : ep' = ep
  · rw [is, update_self, more, List.mem_append, eq_self, true_and]
  · rw [update_of_ne is, eq_false is, false_and, or_false]

theorem connectedBy_eq {ep' : Nat} {c : Chan} (changed : t.endpoints = update s.endpoints ep e)
    (more : e.channels = (s.endpoints ep).channels ++ [c]) :
    t.connectedBy ep' = s.connectedBy ep' ++ if ep' = ep ∧ c.owned = false then [.response c.remoteEpAddr c.off] else [] := by
  rw [connectedBy, connectedBy, changed]
  by_cases is : ep' = ep
  · grind
  · rw [update_of_ne is, if_neg fun both => is both.1, List.append_nil]

def Control.request : Control → Option Nat
  | .connect addr _ => some addr
  | _ => none

def connectsAt (s : Net) (region : Nat) : List Nat := (s.queue region publicChannel).filterMap Control.request

theorem connectsAt_send (queues : t.queue = (s.setQueue region publicChannel (s.queue region publicChannel ++ [message])).queue)
    (r : Nat) : t.connectsAt r = s.connectsAt r ++ if r = region then (Control.request message).toList else [] := by
  rw [connectsAt, connectsAt, queues, queue_setQueue]
  by_cases here : r = region
  · rw [if_pos ⟨here, rfl⟩, if_pos here, here, List.filterMap_append]
    cases message <;> rfl
  · rw [if_neg fun both => here both.1, if_neg here, List.append_nil]

def addr (s : Net) (ep : Nat) : Nat := (s.endpoints ep).localEpAddr

def Waits (s : Net) (ep region : Nat) : Prop :=
  (s.endpoints ep).connecting = some (s.addr region) ∧ (s.endpoints ep).destroyed = false

def acceptedChan (s : Net) (ep region off : Nat) : Chan := { owned := true, remoteEpAddr := s.addr ep, region, off }

/-- Every endpoint that is there is found by its address, and so is what it has mapped. -/
structure Known (s : Net) : Prop where
  distinct : ∀ ep ep', s.addr ep = s.addr ep' → ep = ep'
  named : ∀ ep, (s.endpoints ep).destroyed = false → s.names (s.addr ep) = some ep
  names : ∀ addr ep, s.names addr = some ep → s.addr ep = addr
  cache : ∀ ep addr m, (s.endpoints ep).remoteEpCache.lookup addr = some m → s.addr m.region = addr

/-- An endpoint waits with a request in the other one's public channel or with a response in its own side channel. -/
structure Inv (s : Net) : Prop extends s.Known where
  requests : ∀ region addr, addr ∈ s.connectsAt region →
    ∃ ep, s.addr ep = addr ∧ s.Waits ep region ∧ s.queue ep sideChannel = []
  once : ∀ region, (s.connectsAt region).Nodup
  side : ∀ ep, s.queue ep sideChannel ≠ [] → ∃ region off, s.queue ep sideChannel = [.response (s.addr region) off] ∧
    s.Waits ep region ∧ (s.endpoints region).destroyed = false ∧ s.acceptedChan ep region off ∈ (s.endpoints region).channels
  responses : ∀ ep, s.acceptedOf ep = s.connectedBy ep ++ s.queue ep sideChannel
  buffers : ∀ ep, ∀ c ∈ (s.endpoints ep).channels, c.owned = false →
    s.addr c.region = c.remoteEpAddr ∧ s.acceptedChan ep c.region c.off ∈ (s.endpoints c.region).channels

theorem inv_of_start (start : s.Start) : s.Inv := by
  have empty : ∀ region, s.connectsAt region = [] := fun region => by rw [connectsAt, start.queue]; rfl
  have none : ∀ ep, (s.endpoints ep).channels = [] := fun ep => (start.idle ep).2.1
  refine ⟨⟨start.distinct, fun ep _ => start.named ep, start.names, ?_⟩, ?_, ?_, fun ep some => absurd (start.queue _ _) some, ?_, ?_⟩
  · simp [start.cache]
  · simp [empty]
  · simp [empty]
  · simp [acceptedOf, connectedBy, start.accepted, none, start.queue]
  · simp [none]

theorem Inv.agree (inv : s.Inv) : s.Agree := by
  refine ⟨inv.responses, fun ep remoteEpAddr connecting some => ?_, inv.buffers⟩
  obtain ⟨region, off, queue, ⟨waits, -⟩, live, -⟩ := inv.side ep some
  obtain rfl : remoteEpAddr = s.addr region := Option.some.inj (connecting.symm.trans waits)
  refine ⟨⟨off, queue⟩, ?_⟩
  simp only [step, endpointConnected, connecting, queue, inv.named region live, Option.bind_eq_bind, Option.bind_some,
    if_true]
  exact ⟨_, rfl⟩

/-! ### Steps -/

theorem send_eq (sent : s.send m off message = some t) :
    t = s.setQueue m.region off (s.queue m.region off ++ [message]) := by
  rw [send] at sent
  split at sent
  · exact (Option.some.inj sent).symm
  · cases sent

theorem Known.lookup (known : s.Known) {addr size : Nat} (found : s.lookup (s.endpoints ep) addr size = some (m, e)) :
    s.addr m.region = addr ∧ (∃ cache, e = { s.endpoints ep with remoteEpCache := cache }) ∧
      ∀ addr' m', e.remoteEpCache.lookup addr' = some m' → s.addr m'.region = addr' := by
  rw [Net.lookup] at found
  split at found
  · next m' cached =>
    obtain ⟨rfl, rfl⟩ := Prod.mk.inj (Option.some.inj found)
    exact ⟨known.cache ep addr _ cached, ⟨_, rfl⟩, known.cache ep⟩
  · obtain ⟨region, named, is⟩ := Option.bind_eq_some_iff.mp found
    obtain ⟨rfl, rfl⟩ := Prod.mk.inj (Option.some.inj is)
    refine ⟨known.names addr region named, ⟨_, rfl⟩, fun addr' m' found' => ?_⟩
    rcases lookup_insert_some.mp found' with ⟨rfl, rfl⟩ | ⟨-, found'⟩
    · exact known.names _ region named
    · exact known.cache ep addr' m' found'

theorem addr_update (changed : t.endpoints = update s.endpoints ep e) (same : e.localEpAddr = s.addr ep) : t.addr = s.addr :=
  funext (field_eq changed (·.localEpAddr) same)

/-- A step of an endpoint that changes no name, and enters only mappings of the right regions. -/
theorem Known.update (known : s.Known) (changed : t.endpoints = update s.endpoints ep e) (same : e.localEpAddr = s.addr ep)
    (live : e.destroyed = (s.endpoints ep).destroyed) (names : t.names = s.names)
    (cache : ∀ addr m, e.remoteEpCache.lookup addr = some m → s.addr m.region = addr) : t.Known := by
  have destroyed := field_eq changed (·.destroyed) live
  refine ⟨?_, ?_, ?_, ?_⟩ <;> rw [addr_update changed same]
  · exact known.distinct
  · exact fun ep' live' => names ▸ known.named ep' (destroyed ep' ▸ live')
  · exact names ▸ known.names
  · rw [changed]
    refine (forall_update_iff s.endpoints fun _ e => ∀ addr m, e.remoteEpCache.lookup addr = some m → s.addr m.region = addr).mpr ?_
    exact ⟨cache, fun ep' _ => known.cache ep'⟩

theorem Inv.no_request (inv : s.Inv) (idle : (s.endpoints ep).connecting = none) : s.addr ep ∉ s.connectsAt region := by
  intro mem
  obtain ⟨ep', same, ⟨waits, -⟩, -⟩ := inv.requests region _ mem
  rw [inv.distinct ep' ep same, idle] at waits
  cases waits

theorem Inv.no_response (inv : s.Inv) (idle : (s.endpoints ep).connecting = none) : s.queue ep sideChannel = [] := by
  by_contra some
  obtain ⟨_, _, -, ⟨waits, -⟩, -⟩ := inv.side ep some
  rw [idle] at waits
  cases waits

theorem Waits.ne {ep' : Nat} (waits : s.Waits ep' region) (idle : (s.endpoints ep).connecting = none) : ep' ≠ ep := by
  rintro rfl
  rw [Waits, idle] at waits
  cases waits.1

theorem public_ne_side : publicChannel ≠ sideChannel := by decide

theorem acceptedOf_congr (addrs : t.addr = s.addr) (accepted : t.accepted = s.accepted) (ep : Nat) :
    t.acceptedOf ep = s.acceptedOf ep := by
  show (t.accepted.filter fun a => a.remoteEpAddr = t.addr ep).map (fun a => Control.response (t.addr a.acceptor) a.off) = _
  rw [addrs, accepted]
  rfl

/-- A step that sends no response and takes none. -/
theorem Inv.keep (inv : s.Inv) (known : t.Known) (addrs : t.addr = s.addr) (accepted : t.accepted = s.accepted)
    (channels : ∀ ep, (t.endpoints ep).channels = (s.endpoints ep).channels)
    (side : ∀ ep, t.queue ep sideChannel = s.queue ep sideChannel)
    (waits : ∀ ep region, s.Waits ep region → t.Waits ep region)
    (live : ∀ ep region, s.Waits ep region → s.queue ep sideChannel ≠ [] → (s.endpoints region).destroyed = false →
      (t.endpoints region).destroyed = false)
    (once : ∀ region, (t.connectsAt region).Nodup)
    (requests : ∀ region, ∀ addr ∈ t.connectsAt region, addr ∈ s.connectsAt region ∨
      ∃ ep, s.addr ep = addr ∧ t.Waits ep region ∧ s.queue ep sideChannel = []) : t.Inv := by
  refine ⟨known, fun region addr mem => ?_, once, fun ep some => ?_, fun ep => ?_, fun ep c mem client => ?_⟩
  · rw [addrs]
    simp only [side]
    rcases requests region addr mem with mem | new
    · obtain ⟨ep, is, waits', none⟩ := inv.requests region addr mem
      exact ⟨ep, is, waits ep region waits', none⟩
    · exact new
  · rw [side] at some
    obtain ⟨region, off, is, waits', live', chan⟩ := inv.side ep some
    refine ⟨region, off, by rw [side, addrs, is], waits ep region waits', live ep region waits' some live', ?_⟩
    rw [acceptedChan, addrs, channels]
    exact chan
  · rw [acceptedOf_congr addrs accepted, inv.responses, side, connectedBy, connectedBy, channels]
  · rw [channels] at mem
    rw [acceptedChan, addrs, channels]
    exact inv.buffers ep c mem client

/-- An endpoint gets a channel, and a response is sent to or taken by `peer`, which then has no request. -/
theorem Inv.grow {peer : Nat} {c : Chan} (inv : s.Inv) (known : t.Known) (changed : t.endpoints = update s.endpoints ep e)
    (same : e.localEpAddr = s.addr ep) (live : e.destroyed = (s.endpoints ep).destroyed)
    (more : e.channels = (s.endpoints ep).channels ++ [c])
    (side : ∀ ep' ≠ peer, t.queue ep' sideChannel = s.queue ep' sideChannel)
    (waits : ∀ ep' ≠ peer, ∀ r, s.Waits ep' r → t.Waits ep' r)
    (connects : ∀ r, (t.connectsAt r).Sublist (s.connectsAt r) ∧ s.addr peer ∉ t.connectsAt r)
    (here : t.queue peer sideChannel ≠ [] → ∃ region off, t.queue peer sideChannel = [.response (s.addr region) off] ∧
      t.Waits peer region ∧ (s.endpoints region).destroyed = false ∧ s.acceptedChan peer region off ∈ (t.endpoints region).channels)
    (responses : ∀ ep', t.acceptedOf ep' = t.connectedBy ep' ++ t.queue ep' sideChannel)
    (buffer : c.owned = false →
      s.addr c.region = c.remoteEpAddr ∧ s.acceptedChan ep c.region c.off ∈ (s.endpoints c.region).channels) : t.Inv := by
  have addrs := addr_update changed same
  have destroyed := field_eq changed (·.destroyed) live
  have chan : t.acceptedChan = s.acceptedChan := by
    funext
    rw [acceptedChan, addrs, acceptedChan]
  have kept : ∀ {ep' c}, c ∈ (s.endpoints ep').channels → c ∈ (t.endpoints ep').channels :=
    fun mem => (mem_channels changed more).mpr (.inl mem)
  refine ⟨known, fun r addr mem => ?_, fun r => (inv.once r).sublist (connects r).1, fun ep' some => ?_, responses, fun ep' c' mem client => ?_⟩
  · obtain ⟨ep', rfl, waiting, empty⟩ := inv.requests r addr ((connects r).1.subset mem)
    have ne : ep' ≠ peer := fun is => (connects r).2 (is ▸ mem)
    exact ⟨ep', by rw [addrs], waits ep' ne r waiting, (side ep' ne).trans empty⟩
  · rw [addrs, chan]
    simp only [destroyed]
    by_cases is : ep' = peer
    · exact is ▸ here (is ▸ some)
    · obtain ⟨r, off, queued, waiting, live', chan'⟩ := inv.side ep' (side ep' is ▸ some)
      exact ⟨r, off, (side ep' is).trans queued, waits ep' is r waiting, live', kept chan'⟩
  · rw [addrs, chan]
    rcases (mem_channels changed more).mp mem with mem | ⟨rfl, is⟩
    · exact (inv.buffers ep' c' mem client).imp_right kept
    · obtain rfl := List.mem_singleton.mp is
      exact (buffer client).imp_right kept

theorem inv_connect {remoteEpAddr : Nat} (inv : s.Inv) (stepped : s.endpointConnect ep remoteEpAddr = some t) : t.Inv := by
  simp only [endpointConnect, Option.bind_eq_bind] at stepped
  split_ifs at stepped with busy
  rw [not_or, ne_eq, not_not, Bool.not_eq_true] at busy
  obtain ⟨live, idle⟩ := busy
  obtain ⟨⟨m, e⟩, found, next⟩ := Option.bind_eq_some_iff.mp stepped
  obtain ⟨u, sent, is⟩ := Option.bind_eq_some_iff.mp next
  obtain ⟨at_addr, ⟨cache, rfl⟩, cached⟩ := inv.lookup found
  obtain rfl := send_eq sent
  have changed : t.endpoints = update s.endpoints ep
      { s.endpoints ep with remoteEpCache := cache, connecting := some remoteEpAddr } := by
    rw [← Option.some.inj is]
    rfl
  have same : t.names = s.names ∧ t.accepted = s.accepted := by
    rw [← Option.some.inj is]
    exact ⟨rfl, rfl⟩
  have queues : t.queue = (s.setQueue m.region publicChannel (s.queue m.region publicChannel ++
      [.connect (s.addr ep) (s.endpoints ep).epSize])).queue := by
    rw [← Option.some.inj is]
    rfl
  have addrs := addr_update changed rfl
  have connects := connectsAt_send queues
  refine inv.keep (inv.update changed rfl rfl same.1 cached) addrs same.2 (field_eq changed (·.channels) rfl) (fun ep' => ?_)
    (fun ep' r waits => ?_) (fun _ r _ _ live' => (field_eq changed (·.destroyed) rfl r).trans live') (fun r => ?_) fun r addr mem => ?_
  · rw [queues, queue_setQueue, if_neg fun both => public_ne_side both.2.symm]
  · rw [Waits, addrs, changed, update_of_ne (waits.ne idle)]
    exact waits
  · rw [connects, List.nodup_append]
    refine ⟨inv.once r, ?_, fun a mem b mem' same => ?_⟩
    · split_ifs
      · exact List.nodup_singleton _
      · exact List.nodup_nil
    · split_ifs at mem'
      · rw [same, List.mem_singleton.mp mem'] at mem
        exact inv.no_request idle mem
      · cases mem'
  · rw [connects] at mem
    rcases List.mem_append.mp mem with mem | mem
    · exact .inl mem
    · split_ifs at mem with here
      · refine .inr ⟨ep, (List.mem_singleton.mp mem).symm, ?_, inv.no_response idle⟩
        rw [Waits, addrs, here, at_addr, changed, update_self]
        exact ⟨rfl, live⟩
      · cases mem

theorem sendDisconnects_spec {ms : List Mapping} (sent : sendDisconnects e ms s = some t) :
    t.endpoints = s.endpoints ∧ t.names = s.names ∧ t.accepted = s.accepted ∧
      (∀ r, t.queue r sideChannel = s.queue r sideChannel) ∧ ∀ r, t.connectsAt r = s.connectsAt r := by
  induction ms generalizing s with
  | nil => exact Option.some.inj sent ▸ ⟨rfl, rfl, rfl, fun _ => rfl, fun _ => rfl⟩
  | cons m ms ih =>
    obtain ⟨u, first, rest⟩ := Option.bind_eq_some_iff.mp sent
    obtain rfl := send_eq first
    obtain ⟨endpoints, names, accepted, side, connects⟩ := ih rest
    refine ⟨endpoints, names, accepted, fun r => ?_, fun r => ?_⟩
    · rw [side, queue_setQueue, if_neg fun both => public_ne_side both.2.symm]
    · rw [connects, connectsAt_send rfl]
      simp [Control.request]

theorem inv_destroy (inv : s.Inv) (guard : s.Guard (.destroy ep)) (stepped : s.endpointDestroy ep = some t) : t.Inv := by
  simp only [endpointDestroy, Option.bind_eq_bind] at stepped
  split_ifs at stepped with busy
  rw [not_or, ne_eq, not_not, Bool.not_eq_true] at busy
  obtain ⟨-, idle⟩ := busy
  obtain ⟨u, sent, is⟩ := Option.bind_eq_some_iff.mp stepped
  obtain ⟨endpoints, names, accepted, side, connects⟩ := sendDisconnects_spec sent
  have changed : t.endpoints = update s.endpoints ep { s.endpoints ep with destroyed := true } := by
    rw [← Option.some.inj is, ← endpoints]
    rfl
  have named : t.names = update s.names (s.addr ep) none := by
    rw [← Option.some.inj is, ← names]
    rfl
  have sent : t.accepted = u.accepted ∧ t.queue = u.queue := by
    rw [← Option.some.inj is]
    exact ⟨rfl, rfl⟩
  have connects' : ∀ r, t.connectsAt r = s.connectsAt r := fun r => by rw [← connects r, connectsAt, sent.2, connectsAt]
  have addrs := addr_update changed rfl
  have known : t.Known := by
    refine ⟨by rw [addrs]; exact inv.distinct, fun ep' live => ?_, fun addr ep' found => ?_, fun ep' addr m found => ?_⟩
    · rw [changed, update_apply] at live
      split_ifs at live with here
      rw [addrs, named, update_of_ne fun same => here (inv.distinct ep' ep same)]
      exact inv.named ep' live
    · rw [named, update_apply] at found
      split_ifs at found
      exact addrs ▸ inv.names addr ep' found
    · exact addrs ▸ inv.cache ep' addr m (field_eq changed (·.remoteEpCache) rfl ep' ▸ found)
  refine inv.keep known addrs (sent.1.trans accepted) (field_eq changed (·.channels) rfl) (fun ep' => by rw [sent.2, side])
    (fun ep' r waits => ?_) (fun ep' r waits some live => ?_) (fun r => connects' r ▸ inv.once r) fun r addr mem => .inl (connects' r ▸ mem)
  · rw [Waits, addrs, changed, update_of_ne (waits.ne idle)]
    exact waits
  · have ne : r ≠ ep := fun same => some (guard ep' (same ▸ waits.1))
    rwa [changed, update_of_ne ne]

theorem connectsAt_pop {r : Nat} (head : s.queue ep publicChannel = message :: rest) :
    ((s.setQueue ep publicChannel rest).connectsAt r).Sublist (s.connectsAt r) := by
  rw [connectsAt, queue_setQueue]
  split
  · next same =>
    rw [connectsAt, same.1, head]
    exact (List.sublist_cons_self ..).filterMap _
  · exact List.Sublist.refl _

theorem inv_disconnect {addr size : Nat} (inv : s.Inv)
    (head : s.queue ep publicChannel = .disconnect addr size :: rest)
    (is : t = (s.setQueue ep publicChannel rest).setEndpoint ep
      { s.endpoints ep with remoteEpCache := (s.endpoints ep).remoteEpCache.erase addr }) : t.Inv := by
  have changed : t.endpoints = update s.endpoints ep
      { s.endpoints ep with remoteEpCache := (s.endpoints ep).remoteEpCache.erase addr } := by rw [is]; rfl
  have destroyed := field_eq changed (·.destroyed) rfl
  have known : t.Known := inv.update changed rfl rfl (by rw [is]; rfl) fun a m found => inv.cache ep a m (lookup_erase_some.mp found).2
  have popped : ∀ r, (t.connectsAt r).Sublist (s.connectsAt r) := by rw [is]; exact fun r => connectsAt_pop head
  refine inv.keep known (addr_update changed rfl) (by rw [is]; rfl) (field_eq changed (·.channels) rfl) ?_ (fun ep' r waits => ?_)
    (fun _ r _ _ live => destroyed r ▸ live) (fun r => (inv.once r).sublist (popped r)) fun r a mem => .inl ((popped r).subset mem)
  · rw [is]
    exact fun ep' => (queue_setQueue ep' sideChannel).trans (if_neg fun both => public_ne_side both.2.symm)
  · rw [Waits, addr_update changed rfl, field_eq changed (·.connecting) rfl, destroyed]
    exact waits

theorem connectsAt_setQueue_side (r : Nat) :
    (s.setQueue ep sideChannel l).connectsAt r = s.connectsAt r := by
  rw [connectsAt, queue_setQueue, if_neg fun both => public_ne_side both.2]
  rfl

theorem inv_finish (inv : s.Inv) (stepped : s.endpointConnected ep = some t) : t.Inv := by
  simp only [endpointConnected, Option.bind_eq_bind] at stepped
  obtain ⟨remoteEpAddr, connecting, next⟩ := Option.bind_eq_some_iff.mp stepped
  split at next
  case h_2 => cases next
  case h_1 epAddr chanOff rest queued =>
  split_ifs at next with same
  obtain ⟨region, named, is⟩ := Option.bind_eq_some_iff.mp next
  obtain ⟨r, off, queued', ⟨waits, -⟩, live, chan⟩ := inv.side ep (by rw [queued]; exact List.cons_ne_nil _ _)
  obtain ⟨head, rfl⟩ := List.cons.inj (queued.symm.trans queued')
  obtain ⟨rfl, rfl⟩ := Control.response.inj head
  subst same
  obtain rfl : region = r := Option.some.inj (named.symm.trans (inv.named r live))
  have changed : t.endpoints = update s.endpoints ep { s.endpoints ep with
      connecting := none
      channels := (s.endpoints ep).channels ++ [{ owned := false, remoteEpAddr := s.addr region, region, off := chanOff }] } := by
    rw [← Option.some.inj is]
    rfl
  have same : t.names = s.names ∧ t.accepted = s.accepted := by
    rw [← Option.some.inj is]
    exact ⟨rfl, rfl⟩
  have side : ∀ ep', t.queue ep' sideChannel = if ep' = ep then [] else s.queue ep' sideChannel := by
    intro ep'
    rw [← Option.some.inj is, queue_setEndpoint, queue_setQueue]
    simp
  have connects : ∀ r, t.connectsAt r = s.connectsAt r := fun r => by
    rw [← Option.some.inj is]
    exact connectsAt_setQueue_side r
  have addrs := addr_update changed rfl
  refine inv.grow (inv.update changed rfl rfl same.1 (inv.cache ep)) changed rfl rfl rfl (fun ep' ne => by rw [side, if_neg ne])
    (fun ep' ne r waits' => ?_) (fun r => ⟨connects r ▸ .refl _, fun mem => ?_⟩) (fun some => absurd (by rw [side, if_pos rfl]) some)
    (fun ep' => ?_) fun _ => ⟨rfl, chan⟩
  · rw [Waits, addrs, changed, update_of_ne ne]
    exact waits'
  · obtain ⟨ep', is', -, empty⟩ := inv.requests r _ (connects r ▸ mem)
    rw [inv.distinct ep' ep is', queued] at empty
    cases empty
  · rw [acceptedOf_congr addrs same.2, inv.responses, side, connectedBy_eq changed rfl]
    by_cases same : ep' = ep
    · rw [same, queued, if_pos ⟨rfl, rfl⟩, if_pos rfl, List.append_nil]
    · rw [if_neg fun both => same both.1, if_neg same, List.append_nil]

theorem acceptedOf_snoc {ep' peer : Nat} (known : s.Known) (addrs : t.addr = s.addr)
    (accepted : t.accepted = s.accepted ++ [{ acceptor := ep, remoteEpAddr := s.addr peer, off }]) :
    t.acceptedOf ep' = s.acceptedOf ep' ++ if ep' = peer then [.response (s.addr ep) off] else [] := by
  show (t.accepted.filter fun a => a.remoteEpAddr = t.addr ep').map (fun a => Control.response (t.addr a.acceptor) a.off) = _
  rw [addrs, accepted, List.filter_append, List.map_append]
  refine congrArg _ ?_
  by_cases same : ep' = peer
  · simp [same]
  · rw [if_neg same, List.filter_cons_of_neg, List.filter_nil, List.map_nil]
    exact fun is => same (known.distinct peer ep' (of_decide_eq_true is)).symm

theorem inv_acceptConnect {addr size : Nat} (inv : s.Inv)
    (idle : (s.endpoints ep).connecting = none) (live : (s.endpoints ep).destroyed = false)
    (head : s.queue ep publicChannel = .connect addr size :: rest)
    (uncached : (s.endpoints ep).remoteEpCache.lookup addr = none)
    (stepped : (s.setQueue ep publicChannel rest).acceptConnect ep addr size = some t) : t.Inv := by
  have first : s.connectsAt ep = addr :: (s.setQueue ep publicChannel rest).connectsAt ep := by
    rw [connectsAt, head, connectsAt, queue_setQueue, if_pos ⟨rfl, rfl⟩]
    rfl
  have single := inv.once ep
  rw [first, List.nodup_cons] at single
  obtain ⟨peer, rfl, waiting, empty⟩ := inv.requests ep addr (first ▸ List.mem_cons_self ..)
  have ne : peer ≠ ep := waiting.ne idle
  simp only [acceptConnect, Net.lookup, endpoints_setQueue, names_setQueue, uncached, inv.named peer waiting.2, if_true, Option.bind_eq_bind,
    Option.bind_some] at stepped
  split at stepped
  case h_1 => cases stepped
  case h_2 buf localChanPool pool =>
  obtain ⟨u, sent, is⟩ := Option.bind_eq_some_iff.mp stepped
  obtain rfl := send_eq sent
  have changed : t.endpoints = update s.endpoints ep { s.endpoints ep with
      remoteEpCache := (s.endpoints ep).remoteEpCache.insert (s.addr peer) { region := peer, size := endpointSize + size }
      localChanPool
      channels := (s.endpoints ep).channels ++ [s.acceptedChan peer ep buf] } := by
    rw [← Option.some.inj is]
    rfl
  have same : t.names = s.names ∧
      t.accepted = s.accepted ++ [{ acceptor := ep, remoteEpAddr := s.addr peer, off := buf }] := by
    rw [← Option.some.inj is]
    exact ⟨rfl, rfl⟩
  have queues : t.queue = ((s.setQueue ep publicChannel rest).setQueue peer sideChannel [.response (s.addr ep) buf]).queue := by
    have before : (s.setQueue ep publicChannel rest).queue peer sideChannel = [] := by
      rw [queue_setQueue, if_neg fun both => ne both.1, empty]
    rw [← Option.some.inj is]
    show ((s.setQueue ep publicChannel rest).setQueue peer (0 + sideChannel)
      ((s.setQueue ep publicChannel rest).queue peer (0 + sideChannel) ++ [.response (s.addr ep) buf])).queue = _
    rw [Nat.zero_add, before, List.nil_append]
  have side : ∀ ep', t.queue ep' sideChannel =
      if ep' = peer then [.response (s.addr ep) buf] else s.queue ep' sideChannel := by
    intro ep'
    rw [queues, queue_setQueue, queue_setQueue, if_neg fun both : ep' = ep ∧ _ => public_ne_side both.2.symm]
    simp
  have connects : ∀ r, t.connectsAt r = (s.setQueue ep publicChannel rest).connectsAt r := fun r => by
    rw [connectsAt, queues]
    exact connectsAt_setQueue_side r
  have addrs := addr_update changed rfl
  have waits : ∀ ep' r, s.Waits ep' r → t.Waits ep' r := fun ep' r waits => by
    rw [Waits, addrs, field_eq changed (·.connecting) rfl, field_eq changed (·.destroyed) rfl]
    exact waits
  have known : t.Known := inv.update changed rfl rfl same.1 fun addr m found => by
    rcases lookup_insert_some.mp found with ⟨rfl, rfl⟩ | ⟨-, found⟩
    · rfl
    · exact inv.cache ep addr m found
  refine inv.grow known changed rfl rfl rfl (fun ep' ne => by rw [side, if_neg ne]) (fun ep' _ => waits ep')
    (fun r => ⟨connects r ▸ connectsAt_pop head, fun mem => ?_⟩)
    (fun _ => ⟨ep, buf, by rw [side, if_pos rfl], waits peer ep waiting, live, ?_⟩) (fun ep' => ?_) Bool.noConfusion
  · -- the other endpoint waits for this one only
    rw [connects] at mem
    obtain ⟨ep', is', waiting', -⟩ := inv.requests r _ ((connectsAt_pop head).subset mem)
    rw [inv.distinct ep' peer is'] at waiting'
    obtain rfl := inv.distinct ep r (Option.some.inj (waiting.1.symm.trans waiting'.1))
    exact single.1 mem
  · exact (mem_channels changed rfl).mpr (.inr ⟨rfl, List.mem_singleton_self _⟩)
  · rw [acceptedOf_snoc inv.toKnown addrs same.2, side, inv.responses, connectedBy_eq changed rfl]
    split
    · next same => simp [same, empty, acceptedChan]
    · simp [acceptedChan]

theorem inv_accept (inv : s.Inv) (guard : s.Guard (.accept ep)) (stepped : s.endpointAccept ep = some t) : t.Inv := by
  simp only [endpointAccept] at stepped
  split_ifs at stepped with busy
  rw [not_or, ne_eq, not_not, Bool.not_eq_true] at busy
  obtain ⟨live, idle⟩ := busy
  split at stepped
  case h_1 => exact Option.some.inj stepped ▸ inv
  case h_2 addr size rest head =>
    rw [Guard, head] at guard
    exact inv_acceptConnect inv idle live head guard stepped
  case h_3 addr size rest head =>
    split_ifs at stepped
    exact inv_disconnect inv head (Option.some.inj stepped).symm
  case h_4 => cases stepped

/-- In every history in which the endpoint whose request is accepted is not in the acceptor's cache, and no
    endpoint is destroyed before those it has accepted have taken their responses, every accepted connect
    gets its own response, and both ends have the same buffer. -/
theorem agree_of_uncached (reached : Reach Start Guard step s) : s.Agree := by
  refine Inv.agree (reached.invariant (fun _ => inv_of_start) fun s t a inv guard stepped => ?_)
  cases a with
  | connect ep remoteEpAddr => exact inv_connect inv stepped
  | finish ep => exact inv_finish inv stepped
  | accept ep => exact inv_accept inv guard stepped
  | destroy ep => exact inv_destroy inv guard stepped

def created : Net where
  endpoints ep :=
    { localEpAddr := 100 + ep
      epSize := 2 * channelSize
      localChanPool := [endpointSize, endpointSize + channelSize]
      remoteEpCache := ∅
      connecting := none
      channels := []
      destroyed := false }
  names addr := if 100 ≤ addr then some (addr - 100) else none
  queue := fun _ _ => []
  setUp := fun _ off => off = publicChannel ∨ off = sideChannel
  accepted := []

theorem start_created : created.Start where
  distinct := fun _ _ same => Nat.add_left_cancel same
  named := fun ep => by simp [created]
  names := fun addr ep named => by
    simp only [created] at named ⊢
    split_ifs at named with le
    have := Option.some.inj named
    omega
  cache := fun _ _ => rfl
  idle := fun _ => ⟨rfl, rfl, rfl⟩
  queue := fun _ _ => rfl
  setUp := fun _ _ => decide_eq_true_iff
  pool := fun _ => ⟨2, rfl, rfl⟩
  accepted := rfl

theorem agree_first_connect :
    ∃ s, run step created [.connect 1 100, .accept 0, .finish 1] = some s ∧
      (s.endpoints 1).channels.map (·.off) = [endpointSize] ∧ s.Agree := by
  have view : (run step created [.connect 1 100, .accept 0, .finish 1]).map (fun s => (s.endpoints 1).channels.map (·.off)) =
      some [endpointSize] := by decide +kernel
  obtain ⟨s, ran, is⟩ := Option.map_eq_some_iff.mp view
  refine ⟨s, ran, is, agree_of_uncached ((Reach.init start_created).of_guarded ?_ ran)⟩
  refine ⟨trivial, fun t stepped => ⟨?_, fun u _ => ⟨trivial, fun _ _ => trivial⟩⟩⟩
  have first : (created.step (.connect 1 100)).map (fun t => (t.queue 0 publicChannel, (t.endpoints 0).remoteEpCache.entries.length)) =
      some ([.connect 101 (2 * channelSize)], 0) := by decide +kernel
  rw [stepped, Option.map_some, Option.some.injEq, Prod.mk.injEq, List.length_eq_zero_iff] at first
  rw [Guard, first.1]
  show (t.endpoints 0).remoteEpCache.lookup 101 = none
  rw [AList.lookup, first.2]
  rfl

/-- An endpoint that has accepted a channel itself connects to another endpoint a second time. The second response is written into
    the buffer of the channel that it has accepted, and it waits forever. -/
theorem exists_lost_response :
    ∃ s, Reach Start (fun _ _ => True) step s ∧ (s.endpoints 1).connecting = some 100 ∧ s.queue 1 sideChannel = [] ∧
      s.acceptedChan 2 1 endpointSize ∈ (s.endpoints 1).channels ∧
      s.queue 1 endpointSize = [.response 100 (endpointSize + channelSize)] ∧ ¬s.Agree := by
  have view : (run step created [.connect 2 101, .accept 1, .finish 2, .connect 1 100, .accept 0, .finish 1, .connect 1 100, .accept 0]).map
      (fun s => ((s.endpoints 1).connecting, s.queue 1 sideChannel, decide (s.acceptedChan 2 1 endpointSize ∈ (s.endpoints 1).channels),
        s.queue 1 endpointSize, (s.acceptedOf 1).length, (s.connectedBy 1).length)) =
      some (some 100, [], true, [.response 100 (endpointSize + channelSize)], 2, 1) := by decide +kernel
  obtain ⟨s, ran, is⟩ := Option.map_eq_some_iff.mp view
  simp only [Prod.mk.injEq, decide_eq_true_iff] at is
  obtain ⟨connecting, side, chan, pool, log, connected⟩ := is
  refine ⟨s, Reach.of_run start_created ran, connecting, side, chan, pool, fun agree => ?_⟩
  have := congrArg List.length (agree.responses 1)
  rw [side, List.append_nil, log, connected] at this
  cases this

end Net
end Faux
