import Faux.Lib.Except
import Faux.Net.ConnManager

/-! Connections between SYN and claim. `Inv` adds to `Served` that the transport is always the one of the netstack, and that the
    acceptors are applications. An accept request is followed through its loop by `Accepted`. -/

namespace Faux
open Lib
namespace Netstack

variable {s t u : Netstack} {app a : AppAddr} {flow : FlowId} {p : PendingConn}

/-- Only the acceptors differ, and they are applications when they were before. -/
structure Same (s t : Netstack) : Prop where
  eq : t = { s with acceptors := t.acceptors }
  apps : (∀ a ∈ s.acceptors, a ∈ s.apps) → ∀ a ∈ t.acceptors, a ∈ t.apps

theorem addAcceptor_same {likely : Bool} (isApp : app ∈ s.apps) : Same s (s.addAcceptor app likely) := by
  unfold addAcceptor
  split_ifs with there likely
  · exact ⟨rfl, fun known => known⟩
  · refine ⟨rfl, fun known b mem => ?_⟩
    rcases List.mem_cons.mp mem with rfl | mem
    · exact isApp
    · exact known b mem
  · refine ⟨rfl, fun known b mem => ?_⟩
    rcases List.mem_append.mp mem with mem | mem
    · exact known b mem
    · cases List.mem_singleton.mp mem
      exact isApp

theorem getAcceptor_same : Same s s.getAcceptor.1 := by
  unfold getAcceptor
  split
  · exact ⟨rfl, fun known => known⟩
  · next b rest eq =>
    refine ⟨rfl, fun known x mem => known x ?_⟩
    rw [eq]
    rcases List.mem_append.mp mem with mem | mem
    · exact List.mem_cons_of_mem _ mem
    · cases List.mem_singleton.mp mem
      exact List.mem_cons_self

theorem getAcceptor_mem (found : s.getAcceptor.2 = some a) : a ∈ s.acceptors := by
  unfold getAcceptor at found
  split at found
  · cases found
  · next b rest eq =>
    cases found
    rw [eq]
    exact List.mem_cons_self

/-! ### The invariant -/

structure Inv (s : Netstack) : Prop extends Served s where
  curr : s.curr = s.id
  here : ∀ p ∈ s.pending, p.netstack = none
  acceptors : ∀ a ∈ s.acceptors, a ∈ s.apps
  clients : ∀ flow f a, s.flows.lookup flow = some f → f.clientAddr = some a → a ∈ s.apps
  claimed : ∀ flow f, s.flows.lookup flow = some f → (f.claimed = true ↔ ∃ a, (a, flow) ∈ s.claims)
  gone : ∀ a flow, (a, flow) ∈ s.claims → flow ∈ s.flows
  called : ∀ h ∈ s.handshakes, ∀ a, h.acceptor = some a → a ∈ s.apps

theorem inv_start (start : Start s) : Inv s where
  live flow mem := by simp [start.flows] at mem
  once := by simp [start.claims]
  waiting h mem := by simp [start.handshakes] at mem
  curr := start.curr
  here p mem := by simp [start.pending] at mem
  acceptors a mem := by simp [start.acceptors] at mem
  clients flow f a found := by simp [start.flows] at found
  claimed flow f found := by simp [start.flows] at found
  gone a flow mem := by simp [start.claims] at mem
  called h mem := by simp [start.handshakes] at mem

theorem Inv.same (inv : Inv s) (same : Same s t) : Inv t := by
  have apps := same.apps inv.acceptors
  rw [same.eq] at apps ⊢
  exact { inv with acceptors := apps, live := inv.live, waiting := inv.waiting, once := inv.once }

theorem Inv.incomingConn (inv : Inv s) : Inv (s.incomingConn flow) := by
  unfold Netstack.incomingConn
  split_ifs
  · have inv' := inv.same getAcceptor_same
    have acceptor : ∀ a, s.getAcceptor.2 = some a → a ∈ s.getAcceptor.1.apps := fun a found => by
      rw [getAcceptor_same.eq]
      exact inv.acceptors a (getAcceptor_mem found)
    generalize s.getAcceptor = r at inv' acceptor ⊢
    obtain ⟨u, found⟩ := r
    have choose : u.chooseTransport = (u, none) := if_pos inv'.curr
    simp only [choose, startHandshake]
    have waits : ∀ p f, u.Waits f → Waits { u with handshakes := u.handshakes ++ [⟨flow, found⟩], pending := u.pending ++ [p] } f :=
      fun p f ⟨q, mem, eq⟩ => ⟨q, List.mem_append_left _ mem, eq⟩
    cases found with
    | some a =>
      refine { inv' with live := inv'.live, once := inv'.once, waiting := fun h mem => ?_, called := fun h mem => ?_ }
      · rcases List.mem_append.mp mem with mem | mem
        · exact inv'.waiting h mem
        · grind
      · rcases List.mem_append.mp mem with mem | mem
        · exact inv'.called h mem
        · cases List.mem_singleton.mp mem
          exact acceptor
    | none =>
      refine { inv' with
        live := fun f mem => (inv'.live f mem).imp_left (waits _ f), once := inv'.once, waiting := fun h mem => ?_, here := fun p mem => ?_,
        called := fun h mem => ?_ }
      · rcases List.mem_append.mp mem with mem | mem
        · exact (inv'.waiting h mem).imp_right (waits _ _)
        · cases List.mem_singleton.mp mem
          exact .inr ⟨_, List.mem_append_right _ (List.mem_singleton_self _), rfl⟩
      · rcases List.mem_append.mp mem with mem | mem
        · exact inv'.here p mem
        · cases List.mem_singleton.mp mem
          rfl
      · rcases List.mem_append.mp mem with mem | mem
        · exact inv'.called h mem
        · cases List.mem_singleton.mp mem
          exact acceptor
  · exact inv

theorem Inv.eraseHandshake (inv : Inv s) (i : Nat) : Inv { s with handshakes := s.handshakes.eraseIdx i } :=
  { inv with
    live := inv.live, once := inv.once, waiting := fun h mem => inv.waiting h (List.mem_of_mem_eraseIdx mem),
    called := fun h mem => inv.called h (List.mem_of_mem_eraseIdx mem) }

theorem offerTo_eq (s : Netstack) (acceptor : Option AppAddr) (flow : FlowId) : ∃ sent, s.offerTo acceptor flow = { s with offers := sent } ∧
    (∀ o ∈ s.offers, o ∈ sent) ∧ ∀ app, acceptor = some app → (app, flow) ∈ sent := by
  cases acceptor with
  | none => exact ⟨s.offers, rfl, fun _ mem => mem, fun _ eq => by cases eq⟩
  | some app =>
    refine ⟨s.offers ++ [(app, flow)], rfl, fun _ mem => List.mem_append_left _ mem, fun _ eq => ?_⟩
    cases eq
    exact List.mem_append_right _ (List.mem_singleton_self _)

theorem Inv.acceptCallback {h : PendingFlow} (inv : Inv s) (served : (∃ app ∈ s.apps, h.acceptor = some app) ∨ s.Waits h.flow)
    (called : ∀ a, h.acceptor = some a → a ∈ s.apps) (done : s.acceptCallback h = .ok t) : Inv t := by
  obtain ⟨u, fresh, done⟩ := bind_eq_ok.mp done
  cases done
  have fresh : h.flow ∉ s.flows := by
    unfold require at fresh
    split at fresh
    · next holds => exact of_decide_eq_true holds
    · cases fresh
  obtain ⟨sent, eq, offers, offered⟩ := offerTo_eq { s with flows := s.flows.insert h.flow ⟨h.acceptor, false⟩ } h.acceptor h.flow
  rw [eq]
  refine { inv with live := fun f mem => ?_, once := inv.once, waiting := inv.waiting, clients := fun f x b found client => ?_,
                    claimed := fun f x found => ?_, gone := fun b f mem => (AList.mem_insert _).mpr (.inr (inv.gone b f mem)) }
  · rcases (AList.mem_insert _).mp mem with rfl | mem
    · rcases served with ⟨app, isApp, eq⟩ | waits
      · exact .inr (.inl ⟨app, isApp, offered app eq⟩)
      · exact .inl waits
    · rcases inv.live f mem with waits | ⟨app, isApp, mem⟩ | claimed
      · exact .inl waits
      · exact .inr (.inl ⟨app, isApp, offers _ mem⟩)
      · exact .inr (.inr claimed)
  · rcases lookup_insert_some.mp found with ⟨rfl, rfl⟩ | ⟨-, found⟩
    · exact called b client
    · exact inv.clients f x b found client
  · rcases lookup_insert_some.mp found with ⟨rfl, rfl⟩ | ⟨-, found⟩
    · exact ⟨fun claimed => (by cases claimed), fun ⟨b, mem⟩ => absurd (inv.gone b _ mem) fresh⟩
    · exact inv.claimed f x found

/-! ### Accept requests -/

/-- What the loop of an accept request does: the connections that it takes are offered to the application if they are there. -/
structure Accepted (app : AppAddr) (ps : List PendingConn) (s t : Netstack) : Prop where
  eq : t = { s with acceptors := t.acceptors, pending := t.pending, offers := t.offers }
  apps : (∀ a ∈ s.acceptors, a ∈ s.apps) → ∀ a ∈ t.acceptors, a ∈ t.apps
  offers : ∀ o ∈ s.offers, o ∈ t.offers
  split : ps = s.taken ps ++ t.pending
  given : ∀ p ∈ s.taken ps, p.flow ∈ s.flows → (app, p.flow) ∈ t.offers

theorem taken_congr (flows : t.flows = s.flows) : ∀ ps : List PendingConn, t.taken ps = s.taken ps := by
  intro ps
  induction ps with
  | nil => rfl
  | cons p rest ih =>
    unfold taken isFree
    rw [flows, ih]

theorem Accepted.cons {ps : List PendingConn} (next : Accepted app ps u t) (notFree : s.isFree p = false)
    (eq : u = { s with acceptors := u.acceptors, pending := u.pending, offers := u.offers })
    (apps : (∀ a ∈ s.acceptors, a ∈ s.apps) → ∀ a ∈ u.acceptors, a ∈ u.apps) (offers : ∀ o ∈ s.offers, o ∈ u.offers)
    (given : p.flow ∈ s.flows → (app, p.flow) ∈ u.offers) : Accepted app (p :: ps) s t := by
  have flows : u.flows = s.flows := by rw [eq]
  have split := next.split
  have givenNext := next.given
  rw [taken_congr flows] at split givenNext
  rw [flows] at givenNext
  refine ⟨?_, fun known => next.apps (apps known), fun o mem => next.offers o (offers o mem), ?_, fun q mem live => ?_⟩
  · rw [next.eq, eq]
  · rw [taken, notFree, if_neg (by decide), List.cons_append, ← split]
  · rw [taken, notFree, if_neg (by decide)] at mem
    rcases List.mem_cons.mp mem with rfl | mem
    · exact next.offers _ (given live)
    · exact givenNext q mem live

theorem acceptLoop_accepted {unset : Nat → Unset} (unclaimed : ∀ n, (unset n).claimed = false) : ∀ {ps : List PendingConn} {s : Netstack},
    app ∈ s.apps → (∀ p ∈ ps, p.netstack = none) →
    (∀ p ∈ s.taken ps, ∀ f, s.flows.lookup p.flow = some f → f.claimed = true → ∃ a ∈ s.apps, f.clientAddr = some a) →
      Accepted app ps s (acceptLoop app unset ps s) := by
  intro ps
  induction ps with
  | nil =>
    intro s isApp _ _
    have same : Same { s with pending := [] } (acceptLoop app unset [] s) := addAcceptor_same isApp
    have eq := same.eq
    refine ⟨?_, same.apps, fun o mem => ?_, ?_, fun p mem => (by cases mem)⟩
    · rw [eq]
    · rw [eq]
      exact mem
    · rw [eq]
      rfl
  | cons p rest ih =>
    intro s isApp here known
    have same : Same { s with pending := rest } (addAcceptor { s with pending := rest } app false) := addAcceptor_same isApp
    have eq := same.eq
    have isApps := same.apps
    simp only [acceptLoop]
    generalize addAcceptor { s with pending := rest } app false = u at eq isApps ⊢
    have flows : u.flows = s.flows := by rw [eq]
    have apps : u.apps = s.apps := by rw [eq]
    have offers : u.offers = s.offers := by rw [eq]
    have goesOn : ∀ v : Netstack, v.flows = s.flows → v.apps = s.apps → s.isFree p = false → Accepted app rest v (acceptLoop app unset rest v) := by
      intro v flows apps notFree
      refine ih (by rwa [apps]) (fun q mem => here q (List.mem_cons_of_mem _ mem)) fun q mem f found claimed => ?_
      rw [taken_congr flows] at mem
      rw [flows] at found
      rw [apps]
      exact known q (by rw [taken, notFree, if_neg (by decide)]; exact List.mem_cons_of_mem _ mem) f found claimed
    simp only [provide, here p List.mem_cons_self, provideAppWithConnection]
    cases found : s.flows.lookup p.flow with
    | none =>
      have notFree : s.isFree p = false := by simp [isFree, found]
      have foundU : u.flows.lookup p.flow = none := by rw [flows, found]
      simp only [foundU, unclaimed, if_neg (by decide : ¬false = true)]
      refine (goesOn u flows apps notFree).cons notFree (by rw [eq]) isApps (fun o mem => by rwa [offers]) fun live => ?_
      exact absurd (AList.lookup_eq_none.mp found) (not_not_intro live)
    | some f =>
      have foundU : u.flows.lookup p.flow = some f := by rw [flows, found]
      simp only [foundU]
      cases isClaimed : f.claimed with
      | true =>
        have notFree : s.isFree p = false := by simp [isFree, found, isClaimed]
        obtain ⟨b, isB, client⟩ := known p (by rw [taken, notFree, if_neg (by decide)]; exact List.mem_cons_self) f found isClaimed
        simp only [↓reduceIte, client, Option.getD_some]
        have same : Same { u with offers := u.offers ++ [(app, p.flow)] }
            (addAcceptor { u with offers := u.offers ++ [(app, p.flow)] } b false) := addAcceptor_same (by rwa [apps])
        have eq' := same.eq
        have isApps' := same.apps
        generalize addAcceptor { u with offers := u.offers ++ [(app, p.flow)] } b false = v at eq' isApps' ⊢
        have sent : v.offers = s.offers ++ [(app, p.flow)] := by rw [eq', offers]
        refine (goesOn v (by rw [eq', flows]) (by rw [eq', apps]) notFree).cons notFree (by rw [eq', eq]) (fun known => ?_)
          (fun o mem => ?_) fun _ => ?_
        · exact isApps' (isApps known)
        · rw [sent]
          exact List.mem_append_left _ mem
        · rw [sent]
          exact List.mem_append_right _ (List.mem_singleton_self _)
      | false =>
        have free : s.isFree p = true := by simp [isFree, found, isClaimed]
        simp only [if_neg (by decide : ¬false = true)]
        refine ⟨by rw [eq], isApps, fun o mem => ?_, ?_, fun q mem live => ?_⟩
        · rw [offers]
          exact List.mem_append_left _ mem
        · rw [taken, if_pos free, eq]
          rfl
        · grind [taken]

/-- An accept request offers what it takes, and does not take a connection that is in its handshake. -/
theorem Inv.accepted (inv : Inv s) (isApp : app ∈ s.apps) (apart : ∀ p ∈ s.taken s.pending, ∀ h ∈ s.handshakes, h.flow ≠ p.flow)
    (accepted : Accepted app s.pending s t) : Inv t := by
  have apps := accepted.apps inv.acceptors
  have sub : ∀ p ∈ t.pending, p ∈ s.pending := fun p mem => by
    rw [accepted.split]
    exact List.mem_append_right _ mem
  -- a pending connection stays or has been taken
  have waits : ∀ {f}, s.Waits f → t.Waits f ∨ ∃ p ∈ s.taken s.pending, p.flow = f := by
    rintro f ⟨p, mem, eq⟩
    rw [accepted.split] at mem
    rcases List.mem_append.mp mem with mem | mem
    · exact .inr ⟨p, mem, eq⟩
    · exact .inl ⟨p, mem, eq⟩
  have live : ∀ f ∈ s.flows, t.Waits f ∨ (∃ a ∈ s.apps, (a, f) ∈ t.offers) ∨ ∃ a, (a, f) ∈ s.claims := by
    intro f mem
    rcases inv.live f mem with pending | ⟨a, isA, offered⟩ | claimed
    · rcases waits pending with stays | ⟨p, taken, rfl⟩
      · exact .inl stays
      · exact .inr (.inl ⟨app, isApp, accepted.given p taken mem⟩)
    · exact .inr (.inl ⟨a, isA, accepted.offers _ offered⟩)
    · exact .inr (.inr claimed)
  have waiting : ∀ h ∈ s.handshakes, (∃ a ∈ s.apps, h.acceptor = some a) ∨ t.Waits h.flow := by
    intro h mem
    rcases inv.waiting h mem with acceptor | pending
    · exact .inl acceptor
    · rcases waits pending with stays | ⟨p, taken, eq⟩
      · exact .inr stays
      · exact absurd eq.symm (apart p taken h mem)
  have eq := accepted.eq
  generalize t.acceptors = acceptors at apps eq
  generalize t.pending = pending at sub eq
  generalize t.offers = offers at live eq
  subst eq
  exact { inv with live, once := inv.once, waiting, here := fun p mem => inv.here p (sub p mem), acceptors := apps }

theorem Inv.accept {unset : Nat → Unset} (inv : Inv s) (guard : Guard s (.accept app unset)) : Inv (s.accept app unset) := by
  unfold Netstack.accept
  split_ifs
  · have more : ∀ a ∈ s.apps, a ∈ app :: s.apps := fun a mem => List.mem_cons_of_mem _ mem
    have inv' : Inv { s with apps := app :: s.apps } :=
      { inv with
        live := fun f mem => (inv.live f mem).imp_right (.imp_left fun ⟨a, isA, offered⟩ => ⟨a, more a isA, offered⟩), once := inv.once
        waiting := fun h mem => (inv.waiting h mem).imp_left fun ⟨a, isA, eq⟩ => ⟨a, more a isA, eq⟩
        acceptors := fun a mem => more a (inv.acceptors a mem)
        clients := fun f x a found client => more a (inv.clients f x a found client)
        called := fun h mem a eq => more a (inv.called h mem a eq) }
    have takes : ∀ ps, taken { s with apps := app :: s.apps } ps = s.taken ps := taken_congr rfl
    refine inv'.accepted List.mem_cons_self (fun p mem => ?_) (acceptLoop_accepted guard.2 List.mem_cons_self inv'.here
      fun p mem f found claimed => ?_)
    · rw [takes] at mem
      exact (guard.1 p mem).1
    · rw [takes] at mem
      obtain ⟨a, client⟩ := Option.ne_none_iff_exists'.mp ((guard.1 p mem).2 f found claimed)
      exact ⟨a, inv'.clients p.flow f a found client, client⟩
  · exact inv

/-! ### Claims -/

theorem offers_eraseP (mem : (a, flow) ∈ s.offers) {b : AppAddr} {f : FlowId} (ne : flow ≠ f) :
    (a, flow) ∈ s.offers.eraseP fun o => o.1 = b ∧ o.2 = f :=
  (List.mem_eraseP_of_neg (by simp [ne])).mpr mem

theorem Inv.claimConnection (inv : Inv s) : Inv (s.claimConnection app flow) := by
  unfold Netstack.claimConnection
  cases found : s.flows.lookup flow with
  | none =>
    have missing : flow ∉ s.flows := AList.lookup_eq_none.mp found
    simp only [found]
    refine { inv with once := inv.once, waiting := inv.waiting, live := fun f mem => ?_ }
    have ne : f ≠ flow := fun eq => missing (eq ▸ mem)
    exact (inv.live f mem).imp_right (.imp_left fun ⟨a, isA, offered⟩ => ⟨a, isA, offers_eraseP offered ne⟩)
  | some x =>
    simp only [found]
    split_ifs with isClaimed
    · refine { inv with once := inv.once, waiting := inv.waiting, live := fun f mem => ?_ }
      by_cases eq : f = flow
      · subst eq
        exact .inr (.inr ((inv.claimed f x found).mp isClaimed))
      · exact (inv.live f mem).imp_right (.imp_left fun ⟨a, isA, offered⟩ => ⟨a, isA, offers_eraseP offered eq⟩)
    · have unclaimed : ∀ a, (a, flow) ∉ s.claims := fun a mem => isClaimed ((inv.claimed flow x found).mpr ⟨a, mem⟩)
      refine { inv with once := ?_, waiting := inv.waiting, live := fun f mem => ?_, clients := fun f y a foundF client => ?_,
                        claimed := fun f y foundF => ?_, gone := fun a f mem => ?_ }
      · by_cases eq : f = flow
        · grind
        · rcases inv.live f (((AList.mem_insert _).mp mem).resolve_left eq) with waits | ⟨a, isA, offered⟩ | ⟨a, claimed⟩
          · exact .inl waits
          · exact .inr (.inl ⟨a, isA, offers_eraseP offered eq⟩)
          · exact .inr (.inr ⟨a, List.mem_append_left _ claimed⟩)
      · rw [List.map_append]
        refine List.nodup_append'.mpr ⟨inv.once, List.nodup_singleton _, ?_⟩
        intro f mem same
        obtain ⟨⟨a, f'⟩, claim, rfl⟩ := List.mem_map.mp mem
        cases List.mem_singleton.mp same
        exact unclaimed a claim
      · rcases lookup_insert_some.mp foundF with ⟨rfl, rfl⟩ | ⟨-, foundF⟩
        · exact inv.clients f x a found client
        · exact inv.clients f y a foundF client
      · rcases lookup_insert_some.mp foundF with ⟨rfl, rfl⟩ | ⟨ne, foundF⟩
        · exact ⟨fun _ => ⟨app, List.mem_append_right _ (List.mem_singleton_self _)⟩, fun _ => rfl⟩
        · rw [inv.claimed f y foundF]
          refine ⟨fun ⟨a, mem⟩ => ⟨a, List.mem_append_left _ mem⟩, fun ⟨a, mem⟩ => ⟨a, ?_⟩⟩
          rcases List.mem_append.mp mem with mem | mem
          · exact mem
          · cases List.mem_singleton.mp mem
            exact absurd rfl ne
      · refine (AList.mem_insert _).mpr ?_
        rcases List.mem_append.mp mem with mem | mem
        · exact .inr (inv.gone a f mem)
        · cases List.mem_singleton.mp mem
          exact .inl rfl

theorem Inv.closeConnection (inv : Inv s) : Inv (s.closeConnection flow) := by
  have kept : ∀ a f, f ≠ flow → (a, f) ∈ s.claims → (a, f) ∈ s.claims.filter fun o => o.2 ≠ flow := fun a f ne mem =>
    List.mem_filter.mpr ⟨mem, by simpa using ne⟩
  refine { inv with once := ?_, waiting := inv.waiting, live := fun f mem => ?_, clients := fun f y a found client => ?_,
                    claimed := fun f y found => ?_, gone := fun a f mem => ?_ }
  · obtain ⟨ne, mem⟩ := (AList.mem_erase).mp mem
    exact (inv.live f mem).imp_right (.imp_right fun ⟨a, mem⟩ => ⟨a, kept a f ne mem⟩)
  · exact inv.once.sublist (List.filter_sublist.map _)
  · exact inv.clients f y a (lookup_erase_some.mp found).2 client
  · obtain ⟨ne, found⟩ := lookup_erase_some.mp found
    rw [inv.claimed f y found]
    exact ⟨fun ⟨a, mem⟩ => ⟨a, kept a f ne mem⟩, fun ⟨a, mem⟩ => ⟨a, (List.mem_filter.mp mem).1⟩⟩
  · obtain ⟨mem, ne⟩ := List.mem_filter.mp mem
    exact AList.mem_erase.mpr ⟨by simpa using ne, inv.gone a f mem⟩

theorem Inv.step {x : NetstackAct} (inv : Inv s) (guard : Guard s x) (stepped : s.step x = some t) : Inv t := by
  cases x with
  | listen =>
    cases stepped
    exact { inv with live := inv.live, once := inv.once, waiting := inv.waiting }
  | syn flow =>
    cases stepped
    exact inv.incomingConn
  | complete i =>
    simp only [Netstack.step] at stepped
    split at stepped
    · next h found =>
      have mem := List.mem_of_getElem? found
      exact (inv.eraseHandshake i).acceptCallback (inv.waiting h mem) (inv.called h mem) (toOption_eq_some.mp stepped)
    · cases stepped
  | abort i =>
    cases stepped
    exact inv.eraseHandshake i
  | accept app unset =>
    cases stepped
    exact inv.accept guard
  | claim app flow =>
    simp only [Netstack.step] at stepped
    split at stepped
    · cases stepped
      exact inv.claimConnection
    · cases stepped
  | close flow =>
    cases stepped
    exact inv.closeConnection

/-- Every established connection is pending, offered or claimed, and claimed once at most, in every run in which no accept request takes a
    connection that is in its handshake. -/
theorem served_of_guarded (reach : Reach Start Guard step s) : Served s :=
  (reach.invariant (fun _ => inv_start) fun _ _ _ => Inv.step).toServed

/-! ### Runs that lose a connection, and one that keeps it -/

def quiet : Netstack where
  id := 0
  count := 1
  curr := 0
  listening := false
  acceptors := []
  pending := []
  handshakes := []
  flows := ∅
  forwarded := []
  offers := []
  apps := []
  claims := []

theorem start_quiet : Start quiet := ⟨rfl, rfl, rfl, rfl, rfl, rfl⟩

def unset (claimed : Bool) : Nat → Unset := fun _ => { closed := false, claimed, app := 77 }

def early : List NetstackAct := [.listen, .syn 5, .accept 1 (unset false), .complete 0]

/-- A connection that never got established is taken for a claimed one, and what is not set becomes an acceptor. -/
def stray : List NetstackAct := [.listen, .syn 5, .abort 0, .accept 1 (unset true), .syn 6, .syn 7, .complete 1]

structure View where
  flows : List FlowId
  pending : List PendingConn
  handshakes : List PendingFlow
  offers : List (AppAddr × FlowId)
  apps : List AppAddr
  claims : List (AppAddr × FlowId)
  claimed : List FlowId
  deriving DecidableEq

def view (s : Netstack) : View where
  flows := s.flows.keys
  pending := s.pending
  handshakes := s.handshakes
  offers := s.offers
  apps := s.apps
  claims := s.claims
  claimed := s.flows.keys.filter fun f => (s.flows.lookup f).any (·.claimed)

theorem exists_unreachable :
    (∃ s, Reach Start (fun _ _ => True) step s ∧ 5 ∈ s.flows ∧ ¬s.Waits 5 ∧ (∀ app, (app, 5) ∉ s.offers) ∧ ∀ app, (app, 5) ∉ s.claims) ∧
    ∃ s, Reach Start (fun _ _ => True) step s ∧ 7 ∈ s.flows ∧ ¬s.Waits 7 ∧ (∀ app ∈ s.apps, (app, 7) ∉ s.offers) ∧
      ∀ app, (app, 7) ∉ s.claims := by
  have early : (run step quiet early).map view = some ⟨[5], [], [], [], [1], [], []⟩ := by decide
  have stray : (run step quiet stray).map view = some ⟨[7], [], [⟨6, some 1⟩], [(77, 7)], [1], [], []⟩ := by decide
  obtain ⟨s, ran, seen⟩ := Option.map_eq_some_iff.mp early
  obtain ⟨t, ran', seen'⟩ := Option.map_eq_some_iff.mp stray
  simp only [view, View.mk.injEq] at seen seen'
  obtain ⟨keys, pending, -, offers, -, claims, -⟩ := seen
  obtain ⟨keys', pending', -, offers', apps', claims', -⟩ := seen'
  have waits : ∀ (u : Netstack) f, u.pending = [] → ¬u.Waits f := fun u f empty ⟨p, mem, _⟩ => by
    rw [empty] at mem
    cases mem
  refine ⟨⟨s, Reach.of_run start_quiet ran, ?_, waits s 5 pending, ?_, ?_⟩,
    t, Reach.of_run start_quiet ran', ?_, waits t 7 pending', ?_, ?_⟩
  · rw [AList.mem_keys, keys]
    exact List.mem_singleton_self _
  · simp [offers]
  · simp [claims]
  · rw [AList.mem_keys, keys']
    exact List.mem_singleton_self _
  · simp [offers', apps']
  · simp [claims']

theorem served_claim : ∃ s, run step quiet [.listen, .syn 5, .complete 0, .accept 1 (unset false), .claim 1 5] = some s ∧
    s.claims = [(1, 5)] ∧ Served s := by
  have ends : (run step quiet [.listen, .syn 5, .complete 0, .accept 1 (unset false), .claim 1 5]).map view =
      some ⟨[5], [], [], [], [1], [(1, 5)], [5]⟩ := by decide
  have established : (run step quiet [.listen, .syn 5, .complete 0]).map view = some ⟨[5], [⟨none, 5⟩], [], [], [], [], []⟩ := by decide
  obtain ⟨s, ran, seen⟩ := Option.map_eq_some_iff.mp ends
  obtain ⟨u, ran', seen'⟩ := Option.map_eq_some_iff.mp established
  refine ⟨s, ran, congrArg View.claims seen, served_of_guarded ((Reach.init start_quiet).of_guarded ?_ ran)⟩
  refine ⟨trivial, fun a h => ⟨trivial, fun b h' => ⟨trivial, fun c h'' => ⟨⟨fun p mem => ⟨?_, ?_⟩, fun _ => rfl⟩, fun _ _ =>
    ⟨trivial, fun _ _ => trivial⟩⟩⟩⟩⟩
  all_goals
    simp only [run, h, h', h'', Option.bind_some, Option.some.injEq] at ran'
    subst ran'
  · have none : c.handshakes = [] := congrArg View.handshakes seen'
    simp [none]
  · intro f found claimed
    have unclaimed : (c.flows.keys.filter fun f => (c.flows.lookup f).any (·.claimed)) = [] := congrArg View.claimed seen'
    have mem := AList.mem_keys.mp (mem_of_lookup found)
    have no := List.filter_eq_nil_iff.mp unclaimed p.flow mem
    simp [found, claimed] at no

end Netstack
end Faux
