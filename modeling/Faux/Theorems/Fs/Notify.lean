import Faux.Fs.Notify
import Faux.Theorems.Channel.Chain
import Faux.Theorems.Fs.Orphans

/-! Sending notifications never stops a server, as long as the rings of its clients hold chains of headers. What can break a chain is a
    RESOLVE reply whose size, which the handler does not set, is that of a wrap sentinel. -/

namespace Faux
open Function Lib

/-! ### Who is notified -/

namespace Server
variable {s t : Server} {env : Env} {app : AppId} {p : FileId} {path : Name} {notes : List Notify}
  {transaction size data : Nat} {st : Status} {q : Request}

def Addressed (s : Server) (app : AppId) (notes : List Notify) : Prop :=
  ∀ n ∈ notes, n.1 ≠ app ∧ ∃ loc, (n.1, loc) ∈ s.apps

theorem addressed_nil : s.Addressed app [] := fun _ mem => absurd mem List.not_mem_nil

theorem appRemoveCache_addressed {entry : VFileLoc} : s.Addressed app (s.appRemoveCache app entry).2 := by
  intro n mem
  simp only [appRemoveCache, List.mem_map, List.mem_filter, decide_eq_true_eq] at mem
  obtain ⟨⟨a, loc⟩, ⟨tracked, -, other⟩, rfl⟩ := mem
  exact ⟨other, loc, tracked⟩

theorem removemap_addressed (done : s.removemap app p path = (t, st, notes)) : s.Addressed app notes := by
  rcases removemap_inv done with ⟨-, -, rfl⟩ | ⟨d, entry, u, -, -, ⟨-, -, rfl⟩ | ⟨-, -, rfl⟩, -, -⟩
  · exact addressed_nil
  · exact addressed_nil
  · exact appRemoveCache_addressed

def Gives (app : AppId) (s t : Server) : Prop := ∀ a loc, (a, loc) ∈ t.apps → a = app ∨ (a, loc) ∈ s.apps

theorem Gives.of_apps (same : t.apps = s.apps) : Gives app s t := fun _ _ mem => .inr (same ▸ mem)

theorem Gives.trans {u : Server} (first : Gives app s t) (second : Gives app t u) : Gives app s u := fun a loc mem =>
  (second a loc mem).elim .inl (first a loc)

theorem Gives.addressed (gives : Gives app s t) (addressed : t.Addressed app notes) : s.Addressed app notes := by
  intro n mem
  obtain ⟨other, loc, tracked⟩ := addressed n mem
  exact ⟨other, loc, (gives _ _ tracked).resolve_left other⟩

theorem lazyDir_apps : (s.lazyDir p).apps = s.apps := by
  unfold lazyDir
  split <;> rfl

theorem noteStats_apps {child : FileId} (noted : s.noteStats env path child = .ok t) : t.apps = s.apps := by
  rcases noteStats_inv noted with ⟨-, updated⟩ | ⟨-, rfl⟩
  · obtain ⟨f, f', bc', st, g, bc, m, n, -, -, -, rfl⟩ := updateStatFile_inv updated
    rfl
  · rfl

theorem appAddLoc_gives {loc : Nat} : Gives app s (s.appAddLoc app loc) := by
  intro a l mem
  unfold appAddLoc at mem
  split_ifs at mem
  · exact .inr mem
  · grind

theorem addEntry_gives {d : Dir} {child : InodeType} : Gives app s (s.addEntry app p d path child) := by
  unfold addEntry
  split_ifs
  · exact .of_apps rfl
  · exact (Gives.of_apps rfl).trans appAddLoc_gives

theorem appRemoveCache_gives {entry : VFileLoc} : Gives app s (s.appRemoveCache app entry).1 := fun _ _ mem =>
  .inr (List.mem_of_mem_filter mem)

theorem addmap_addressed {child i : InodeType} {ow : Bool}
    (added : s.addmap env app p path child ow = .ok (t, st, i, notes)) : s.Addressed app notes ∧ Gives app s t := by
  obtain ⟨s₁, d, noted, -, added⟩ := addmap_inv added
  have same : (s₁.lazyDir p).apps = s.apps := lazyDir_apps.trans (noteStats_apps noted)
  have first : Gives app s (s₁.lazyDir p) := .of_apps same
  rcases added with ⟨entry, -, -, -, ⟨-, rfl, rfl⟩ | ⟨-, rfl, rfl⟩⟩ | ⟨-, -, -, rfl, rfl⟩
  · exact ⟨first.addressed appRemoveCache_addressed, first.trans (appRemoveCache_gives.trans addEntry_gives)⟩
  · exact ⟨addressed_nil, first⟩
  · exact ⟨addressed_nil, first.trans addEntry_gives⟩

theorem delete_apps : (s.delete p).apps = s.apps := by
  unfold delete
  split <;> rfl

theorem removeInode_apps {type : FileType} : (s.removeInode p type).apps = s.apps := by
  unfold removeInode
  split_ifs
  · rfl
  · exact delete_apps

theorem rmdir_apps {phase : RmdirPhase} (done : s.rmdir p phase = .ok (t, st)) : t.apps = s.apps := by
  rcases rmdir_inv done with ⟨rfl, -⟩ | ⟨d, -, -, -, ⟨-, -, rfl⟩ | ⟨-, -, rfl⟩ | ⟨-, -, rfl⟩ | ⟨-, rfl⟩⟩
  · exact lazyDir_apps
  · exact lazyDir_apps
  · exact lazyDir_apps
  · exact removeInode_apps.trans lazyDir_apps
  · exact removeInode_apps.trans lazyDir_apps

theorem handle_addressed {cfg : Config} {r : q.Reply} (handled : s.handle cfg env app q = .ok (t, r, notes)) :
    s.Addressed app notes := by
  cases q with
  | addMap parent path child ow => exact (addmap_addressed (handleAddMap_inv handled)).1
  | updateMap parent path child ow oldParent oldPath =>
    simp only [handle, handleUpdateMap, bind_eq_ok, Prod.exists] at handled
    obtain ⟨u, _, _, _, added, -, -, done⟩ := handled
    cases done
    obtain ⟨addressed, gives⟩ := addmap_addressed (handleAddMap_inv added)
    intro n mem
    rcases List.mem_append.mp mem with mem | mem
    · exact addressed n mem
    · exact gives.addressed (removemap_addressed rfl) n mem
  | removeMap parent path => exact removemap_addressed (Except.ok.inj handled)
  | unlink id entry =>
    rcases handleUnlink_inv handled with ⟨parent, path, u, st, -, removed, -⟩ | ⟨-, -, rfl⟩
    · exact removemap_addressed removed
    · exact addressed_nil
  | rmdirAndMap id parent path =>
    obtain ⟨u, st, removed, ⟨-, unmapped⟩ | ⟨-, -, -, rfl⟩⟩ := handleRmdirAndMap_inv handled
    · exact (Gives.of_apps (rmdir_apps removed)).addressed (removemap_addressed unmapped)
    · exact addressed_nil
  | destroy _ | pipe | dup _ | symlink _ _ _ =>
    cases handled
    exact addressed_nil
  | create _ _ _ _ | «open» _ _ | createOpen _ _ _ _ | read _ _ | write _ _ | lseek _ _ _ | close _ _ _ | readlink _
  | rmdir _ _ | truncate _ _ | resolve _ _ | blocks _ _ _ | flush _ _ _ =>
    simp only [handle, bind_eq_ok] at handled
    obtain ⟨_, -, done⟩ := handled
    cases done
    exact addressed_nil

theorem File.readLoop_length_le {m : Memory} {blocks : List Nat} {fuel : Nat} : ∀ {offset count : Nat} {data : List UInt8},
    Faux.File.readLoop m blocks fuel offset count = .ok data → data.length ≤ count := by
  induction fuel with
  | zero =>
    intro offset count data done
    cases done
    exact Nat.zero_le _
  | succ fuel ih =>
    intro offset count data done
    rw [Faux.File.readLoop] at done
    split_ifs at done
    · cases done
      exact Nat.zero_le _
    · simp only at done
      split at done
      · cases done
      · obtain ⟨rest, isRest, done⟩ := bind_eq_ok.mp done
        cases done
        have := ih isRest
        simp only [List.length_append, Memory.read, List.length_map, List.length_range]
        omega

theorem readInode_le {offset count n : Nat} {data : List UInt8}
    (done : s.readInode p offset count = .ok (t, st, n, data)) : n ≤ count := by
  have counted : ∀ {k : Int} {st : Status} {n : Nat}, (st, n) = countStatus k → k ≤ count → n ≤ count := by
    grind [countStatus]
  rcases readInode_inv done with ⟨f, -, isRead, -, is⟩ | ⟨-, ⟨-, -, -, rfl, -⟩ | ⟨pipe, -, -, is, -⟩⟩
  · refine counted is ?_
    unfold Faux.File.read at isRead
    split_ifs at isRead
    · have := File.readLoop_length_le isRead
      omega
    · have := File.readLoop_length_le isRead
      omega
    · cases isRead
      simp
  · exact Nat.zero_le _
  · grind [Status.again, Faux.Pipe.read]

end Server

/-! ### Buffers -/

section
variable {ring out : HalfChannel} {size data buf n : Nat} {body : List UInt8}

theorem length_leBytes : ∀ {n v : Nat}, (leBytes n v).length = n
  | 0, _ => rfl
  | n + 1, v => by simp [leBytes, length_leBytes (n := n)]

theorem channelGc_next (collected : channelGc ring = some out) : out.next = ring.next := by
  simp only [channelGc, Option.map_eq_some_iff] at collected
  obtain ⟨t, -, rfl⟩ := collected
  rfl

theorem allocateFrom_next {len : Nat} {res : Option Nat} (allocated : allocateFrom ring len = some (out, res)) :
    out.next = ring.next := by
  simp only [allocateFrom] at allocated
  split at allocated
  · cases allocated
    rfl
  · simp only [Option.bind_eq_bind, Option.bind_eq_some_iff] at allocated
    obtain ⟨out', collected, allocated⟩ := allocated
    rw [← channelGc_next collected]
    split at allocated
    · cases allocated
      rfl
    · split_ifs at allocated <;> cases allocated <;> rfl

theorem channelAllocate_next {res : Option Nat} (allocated : channelAllocate ring size = some (out, res)) :
    out.next = ring.next := by
  simp only [channelAllocate] at allocated
  split_ifs at allocated
  · cases allocated
    rfl
  · simp only [Option.bind_eq_bind, Option.bind_eq_some_iff] at allocated
    obtain ⟨out', collected, allocated⟩ := allocated
    rw [allocateFrom_next allocated, channelGc_next collected]
  · exact allocateFrom_next allocated

theorem channelMessageSize_of_gt (large : largestPayload < size) (small : size + sizeofMessage < sizeMod) :
    channelMessageSize size = 0 := by
  simp only [channelMessageSize, Nat.mod_eq_of_lt small]
  rw [if_pos]
  simp only [largestPayload, sharedSize, cachelineSize, sizeofMessage] at *
  omega

theorem allocReply_lent (chains : Chains ring) (small : size + sizeofDispatchHeader + sizeofMessage < sizeMod)
    (allocated : Notifier.allocReply ring size = .ok (out, data)) :
    ∃ buf, data = buf + sizeofDispatchHeader ∧ Lent out buf (size + sizeofDispatchHeader) ∧ out.next = ring.next ∧
      size + sizeofDispatchHeader ≤ largestPayload := by
  unfold Notifier.allocReply dispatchAllocate at allocated
  by_cases large : largestPayload < size + sizeofDispatchHeader
  · grind [channelAllocate, channelMessageSize_of_gt]
  · have positive : 1 ≤ size + sizeofDispatchHeader := Nat.le_add_left 1 _
    obtain ⟨⟨out', res⟩, found, leaves⟩ := chains.allocate positive (Nat.not_lt.mp large)
    simp only [found, Option.map_some] at allocated
    cases res with
    | none => cases allocated
    | some buf =>
      cases allocated
      exact ⟨buf, rfl, leaves, channelAllocate_next found, Nat.not_lt.mp large⟩

theorem Lent.dispatchWrite {handler : Nat} (lent : Lent ring buf (n + sizeofDispatchHeader)) (fits : body.length ≤ n) :
    Lent (dispatchWrite ring (buf + sizeofDispatchHeader) handler transaction body) buf (n + sizeofDispatchHeader) := by
  unfold Faux.dispatchWrite
  rw [Nat.add_sub_cancel]
  refine lent.write ?_
  simp only [List.length_append, length_leBytes, sizeofDispatchHeader]
  omega

theorem Lent.dispatchSend (lent : Lent ring buf n) (plain : (size + sizeofDispatchHeader) % 65536 ≠ sentinelSize) :
    Chains (dispatchSend ring (buf + sizeofDispatchHeader) size) := by
  unfold Faux.dispatchSend
  rw [Nat.add_sub_cancel]
  exact lent.setSize plain

theorem Chains.notify (chains : Chains ring) : ∃ out data, dispatchAllocate ring sizeofInodeNotify = some (some (out, data)) ∧
    ∀ inode closed, Chains (dispatchNotify out data inode closed) ∧ (dispatchNotify out data inode closed).next = ring.next := by
  have line : sizeofInodeNotify + sizeofDispatchHeader + sizeofMessage ≤ cachelineSize := by decide
  obtain ⟨out, buf, found, lent⟩ := chains.allocate_line (by decide) line
  refine ⟨out, buf + sizeofDispatchHeader, by simp only [dispatchAllocate, found, Option.map_some], fun inode closed => ?_⟩
  have written : Lent (dispatchWrite out (buf + sizeofDispatchHeader) 4294967294 4294967295 (inodeBytes inode)) buf _ :=
    lent.dispatchWrite (by simp only [inodeBytes, List.length_append, length_leBytes]; decide)
  have next := channelAllocate_next found
  unfold dispatchNotify
  simp only
  split_ifs
  · exact ⟨written.chains, next⟩
  · exact ⟨written.dispatchSend (by decide), next⟩

end

/-! ### Clients -/

section
variable {ring out : HalfChannel} {closed : Bool}

def Usable (ring : HalfChannel) : Prop := Chains ring ∧ ring.next % cachelineSize = 0

theorem usable_setup (m : Memory) : Usable (channelSetupOwned m) := ⟨chains_setup m, rfl⟩

theorem pollLoop_usable {fuel : Nat} : ∀ {ring : HalfChannel}, Usable ring → pollLoop closed fuel ring = some (out, size) →
    Usable out := by
  induction fuel with
  | zero => exact fun _ polled => by cases polled
  | succ fuel ih =>
    intro ring usable polled
    rw [pollLoop] at polled
    by_cases idle : msgReady ring.shared ring.next false ∨ msgSize ring.shared ring.next = 0
    · rw [if_pos idle] at polled
      cases polled
      exact usable
    rw [if_neg idle] at polled
    by_cases sentinel : msgSize ring.shared ring.next = sentinelSize
    · rw [if_pos sentinel] at polled
      have flags : ∀ x, x % cachelineSize ≠ 4 → setReady ring.shared ring.next false x = ring.shared x := by
        intro x ne
        have next := usable.2
        refine setReady_of_ne ?_
        simp only [cachelineSize] at *
        omega
      exact ih ⟨usable.1.receiver 0 flags, rfl⟩ polled
    · rw [if_neg sentinel] at polled
      cases polled
      exact usable

theorem channelReceive_usable {data : Option Nat} (usable : Usable ring) (whole : Notifier.WholeLines ring closed)
    (received : channelReceive ring closed = some (out, size, data)) :
    Usable out ∧ ∀ d, data = some d → d % cachelineSize = sizeofMessage := by
  simp only [channelReceive, Option.bind_eq_bind, Option.bind_eq_some_iff, Prod.exists] at received
  obtain ⟨polled, n, isPolled, received⟩ := received
  have usable' : Usable polled := pollLoop_usable usable isPolled
  by_cases idle : n = closedSize ∨ n = 0
  · grind
  · rw [if_neg idle] at received
    cases received
    have next := usable'.2
    have lines := whole _ _ isPolled
    refine ⟨⟨usable'.1.receiver _ fun _ _ => rfl, ?_⟩, fun d is => ?_⟩
    · simp only [cachelineSize] at *
      split_ifs <;> omega
    · cases is
      simp only [cachelineSize, sizeofMessage] at *
      omega

theorem freeLoop_of_ne {x : Nat} (ne : x % cachelineSize ≠ 4) : ∀ {fuel message stop : Nat} {m : Memory},
    message % cachelineSize = 0 → freeLoop fuel m message stop x = m x := by
  intro fuel
  induction fuel with
  | zero => exact fun _ => rfl
  | succ fuel ih =>
    intro message stop m aligned
    simp only [freeLoop]
    split_ifs
    · rw [ih (by simp only [cachelineSize] at *; omega), setReady_of_ne (by simp only [cachelineSize] at *; omega)]
    · rfl

theorem channelFree_usable (usable : Usable ring) (isMessage : data % cachelineSize = sizeofMessage) :
    Usable (channelFree ring data) := by
  refine ⟨usable.1.receiver ring.next fun x ne => freeLoop_of_ne ne ?_, usable.2⟩
  simp only [cachelineSize, sizeofMessage] at *
  omega

end

/-! ### Runs -/

namespace Notifier
variable {cfg : Config} {s t : Notifier} {rings rings' : AppId → HalfChannel} {app : AppId} {closed : Nat → Bool}
  {ring : HalfChannel} {server : Server} {body : List UInt8}

theorem usable_setRing (all : ∀ a, Usable (rings a)) (usable : Usable ring) (a : AppId) :
    Usable (setRing rings app ring a) :=
  forall_of_update (fun _ => Usable) rfl usable (fun a _ => all a) a

theorem notifyAll_ok (closed : Nat → Bool) (notes : List Server.Notify) : ∀ {rings}, (∀ a, Usable (rings a)) →
    ∃ rings', notifyAll closed rings notes = .ok rings' ∧ (∀ a, Usable (rings' a)) ∧
      ∀ a, (∀ n ∈ notes, n.1 ≠ a) → rings' a = rings a := by
  induction notes with
  | nil => exact fun {rings} all => ⟨rings, rfl, all, fun _ _ => rfl⟩
  | cons n notes ih =>
    obtain ⟨app, inode⟩ := n
    intro rings all
    obtain ⟨out, data, found, sent⟩ := (all app).1.notify
    obtain ⟨chains, next⟩ := sent inode (closed notes.length)
    have usable : Usable (dispatchNotify out data inode (closed notes.length)) := ⟨chains, by rw [next]; exact (all app).2⟩
    have all' : ∀ a, Usable (setRing rings app (dispatchNotify out data inode (closed notes.length)) a) :=
      usable_setRing all usable
    obtain ⟨rings', done, all', same⟩ := ih all'
    refine ⟨rings', by simp only [notifyAll, found, done], all', fun a others => ?_⟩
    rw [same a fun n mem => others n (List.mem_cons_of_mem _ mem), setRing,
      update_of_ne (others _ List.mem_cons_self).symm]

structure Inv (s : Notifier) : Prop where
  rings : ∀ app, Usable (s.rings app)
  received : ∀ x ∈ s.received, x.2 % cachelineSize = sizeofMessage

theorem inv_start (start : s.Start) : s.Inv where
  rings := fun app => by
    obtain ⟨m, is⟩ := start.2 app
    rw [is]
    exact usable_setup m
  received := fun x mem => absurd mem (start.1 ▸ List.not_mem_nil)

theorem Inv.setRing (inv : s.Inv) (usable : Usable ring) (server : Server) :
    Inv { s with server, rings := setRing s.rings app ring } :=
  ⟨usable_setRing inv.rings usable, inv.received⟩

theorem respond_usable {out : HalfChannel} {sent : Nat} (usable : Usable ring)
    (small : size + sizeofDispatchHeader + sizeofMessage < sizeMod) (fits : body.length ≤ size)
    (allocated : allocReply ring size = .ok (out, data))
    (plain : size + sizeofDispatchHeader ≤ largestPayload → (sent + sizeofDispatchHeader) % 65536 ≠ sentinelSize) :
    Usable (dispatchRespond out data transaction body sent) := by
  obtain ⟨buf, rfl, lent, next, le⟩ := allocReply_lent usable.1 small allocated
  refine ⟨(lent.dispatchWrite fits).dispatchSend (plain le), ?_⟩
  have is : (dispatchRespond out (buf + sizeofDispatchHeader) transaction body sent).next = ring.next := next
  rw [is]
  exact usable.2

theorem plain_of_le {sent : Nat} (le : sent ≤ size) (bound : size + sizeofDispatchHeader ≤ largestPayload) :
    (sent + sizeofDispatchHeader) % 65536 ≠ sentinelSize := by
  simp only [largestPayload, sharedSize, cachelineSize, sizeofMessage, sizeofDispatchHeader, sentinelSize] at *
  omega

theorem allocReply_error {e : Stop} (failed : allocReply ring size = .error e) : e = .reply := by
  unfold allocReply at failed
  split at failed <;> cases failed
  rfl

theorem answer_ne_notify {alloced : Nat} :
    s.answer server app alloced transaction body size ≠ .error .notify := by
  intro failed
  rcases bind_eq_error.mp failed with failed | ⟨_, -, failed⟩
  · exact absurd (allocReply_error failed) (by decide)
  · cases failed

theorem answer_inv (inv : s.Inv) {alloced : Nat}
    (fits : Fits alloced body alloced) (le : size ≤ alloced)
    (done : s.answer server app alloced transaction body size = .ok t) : t.Inv := by
  obtain ⟨⟨ring, data⟩, allocated, done⟩ := bind_eq_ok.mp done
  cases done
  exact inv.setRing (respond_usable (inv.rings app) fits.2 fits.1 allocated (plain_of_le le)) server

/-- The handlers other than that of RESOLVE send their reply with at most the size they have allocated. -/
theorem sentSize_plain {server' : Server} {env : Env} {reply : q.Reply} {notes : List Server.Notify}
    {out : HalfChannel} (handled : server.handle cfg env app q = .ok (server', reply, notes))
    (plain : Plain ring q) (allocated : allocReply ring q.replySize = .ok (out, data))
    (bound : q.replySize + sizeofDispatchHeader ≤ largestPayload) :
    (q.sentSize out.shared data reply + sizeofDispatchHeader) % 65536 ≠ sentinelSize := by
  cases q with
  | resolve parent path =>
    have found : dispatchAllocate ring sizeofResolveReply = some (some (out, data)) := by
      unfold allocReply at allocated
      split at allocated
      · next r is =>
        cases allocated
        exact is
      · cases allocated
    have ne := plain out data found
    simp only [Request.sentSize, sizeMod, sizeofDispatchHeader] at ne ⊢
    omega
  | read fd count =>
    refine plain_of_le ?_ bound
    simp only [Server.handle, Server.read, bind_eq_ok, Prod.exists] at handled
    obtain ⟨_, _, _, _, isRead, done⟩ := handled
    cases done
    split at isRead
    · cases isRead
    · simp only [bind_eq_ok, Prod.exists] at isRead
      obtain ⟨_, _, _, _, inode, done⟩ := isRead
      cases done
      exact Nat.add_le_add_left (Server.readInode_le inode) _
  | readlink id => exact plain_of_le (Nat.le_add_right 12 maxFnameLen) bound
  | blocks id offset count => exact plain_of_le (Nat.le_add_right 13 (count * 8)) bound
  | _ => exact plain_of_le (Nat.le_refl _) bound

theorem step_spec (inv : s.Inv) (a : NotifierAct) (guard : s.Guard a) :
    s.step cfg a ≠ .error .notify ∧ ∀ t, s.step cfg a = .ok t → t.Inv := by
  cases a with
  | request app env q transaction body closed =>
    obtain ⟨⟨fits, small⟩, plain⟩ := guard
    have fits' : body.length ≤ q.replySize := by
      refine Nat.le_trans fits ?_
      cases q <;> first | exact Nat.le_refl _ | (simp only [Request.writtenSize, Request.replySize]; decide)
    simp only [step, request]
    cases allocated : allocReply (s.rings app) q.replySize with
    | error e =>
      have is := allocReply_error allocated
      exact ⟨fun is' => absurd (is.symm.trans (Except.error.inj is')) (by decide), fun t is => (by cases is)⟩
    | ok r =>
      obtain ⟨ring, data⟩ := r
      simp only [ok_bind]
      cases handled : s.server.handle cfg env app q with
      | error e => simp
      | ok r =>
        obtain ⟨server, reply, notes⟩ := r
        obtain ⟨buf, rfl, lent, next, bound⟩ := allocReply_lent (inv.rings app).1 small allocated
        have usable : Usable ring := ⟨lent.chains, by rw [next]; exact (inv.rings app).2⟩
        have all : ∀ a, Usable (setRing s.rings app ring a) := usable_setRing inv.rings usable
        obtain ⟨rings, done, all, same⟩ := notifyAll_ok closed notes all
        -- The requester itself is not notified, so its reply still lies where it was allocated.
        have mine : rings app = ring := by
          rw [same app fun n mem => (Server.handle_addressed handled n mem).1]
          exact update_self ..
        simp only [done, ok_bind]
        refine ⟨fun is => (by cases is), fun t is => ?_⟩
        cases is
        refine ⟨usable_setRing all ?_, inv.received⟩
        rw [mine]
        exact respond_usable (inv.rings app) small fits' allocated (sentSize_plain handled plain allocated)
  | dirent app dir name size transaction body =>
    simp only [step]
    cases s.server.direntry app dir name with
    | error e => exact ⟨fun is => (by cases is), fun t is => (by cases is)⟩
    | ok r => exact ⟨answer_ne_notify, fun t is => answer_inv inv guard (Nat.le_add_right 13 size) is⟩
  | attr app transaction body => exact ⟨answer_ne_notify, fun t is => answer_inv inv guard (Nat.le_refl _) is⟩
  | receive app closed =>
    simp only [step, receive]
    cases received : channelReceive (s.rings app) closed with
    | none => exact ⟨fun is => (by cases is), fun t is => (by cases is)⟩
    | some r =>
      obtain ⟨ring, size, data⟩ := r
      obtain ⟨usable, isMessage⟩ := channelReceive_usable (inv.rings app) guard received
      cases data with
      | none =>
        refine ⟨fun is => (by cases is), fun t is => ?_⟩
        cases is
        exact inv.setRing usable _
      | some data =>
        refine ⟨fun is => (by cases is), fun t is => ?_⟩
        cases is
        refine ⟨usable_setRing inv.rings usable, fun x mem => ?_⟩
        rcases List.mem_cons.mp mem with rfl | mem
        · exact isMessage data rfl
        · exact inv.received x mem
  | free app data =>
    simp only [step]
    split_ifs with held
    · refine ⟨fun is => (by cases is), fun t is => ?_⟩
      cases is
      obtain ⟨⟨a, d⟩, mem, isHeld⟩ := List.any_eq_true.mp held
      obtain ⟨rfl, rfl⟩ : a = app ∧ d = data := of_decide_eq_true isHeld
      exact ⟨usable_setRing inv.rings (channelFree_usable (inv.rings a) (inv.received _ mem)),
        fun x mem => inv.received x (List.mem_of_mem_eraseP mem)⟩
    · exact ⟨fun is => (by cases is), fun t is => (by cases is)⟩
  | connect app m =>
    refine ⟨fun is => (by cases is), fun t is => ?_⟩
    cases is
    exact inv.setRing (usable_setup m) _

/-- Sending notifications never stops the server: as long as no RESOLVE reply looks like a wrap sentinel and the
    clients find whole messages when they poll, every `dispatchAllocate` of a notification returns a buffer,
    whether its client polls, has stopped polling or has exited. -/
theorem notified_of_guarded {a : NotifierAct} (reached : Reach Start Guard (next cfg) s) (guard : s.Guard a) :
    s.step cfg a ≠ .error .notify :=
  (step_spec (reached.invariant (fun _ => inv_start) fun _ t a inv guard stepped =>
    (step_spec inv a guard).2 t (toOption_eq_some.mp stepped)) a guard).1

/-! ### A ring that cannot be collected -/

/-- A lap of two messages and a message that looks like a sentinel: the loop of `_channel_gc` jumps back to the
    start of the buffer, never meets the head, and counts past the size of the ring. -/
theorem gcLoop_spins {m : Memory} (ready : ∀ off ∈ [0, 32704, 65408], msgReady m off true = false)
    (alloced : [0, 32704, 65408].map (msgAlloced m) = [32704, 32704, 64])
    (sizes : [0, 32704, 65408].map (fun off => msgSize m off == sentinelSize) = [false, false, true]) :
    ∀ fuel tail freeing freed, sharedSize ≤ freeing → freed = 0 ∨ 65472 ≤ freed ∧ freed ≠ sharedSize →
      gcLoop m 0 fuel tail freeing freed = none := by
  simp only [List.forall_mem_cons] at ready
  obtain ⟨ready0, ready1, ready2, -⟩ := ready
  simp only [List.map_cons, List.map_nil, List.cons.injEq, and_true, beq_eq_false_iff_ne, beq_iff_eq] at alloced sizes
  have step : ∀ {off len t fuel tail freeing freed}, msgReady m off true = false → msgAlloced m off = len →
      (if msgSize m off ≠ sentinelSize then sizeSub (off + len) 1 else sharedSize - 1) = t →
      freeing ≠ 0 → freed ≠ sharedSize → (if freeing ≥ sharedSize then 0 else freeing) = off →
      gcLoop m 0 (fuel + 1) tail freeing freed = gcLoop m 0 fuel t (t + 1) (freed + len) := by
    rintro off len t fuel tail freeing freed notReady rfl rfl ne ne' rfl
    rw [gcLoop, if_neg (not_or.mpr ⟨ne, ne'⟩)]
    simp [notReady]
  -- One round takes three passes and adds 65472 to the count.
  intro fuel
  induction fuel using Nat.strong_induction_on with
  | _ fuel ih =>
    intro tail freeing freed wraps count
    simp only [sharedSize] at wraps count
    cases fuel with
    | zero => rfl
    | succ fuel =>
      rw [step ready0 alloced.1 (t := 32703) (by rw [if_pos sizes.1]; rfl) (by omega) (by simp only [sharedSize]; omega)
        (if_pos wraps)]
      cases fuel with
      | zero => rfl
      | succ fuel =>
        rw [step ready1 alloced.2.1 (t := 65407) (by rw [if_pos sizes.2.1]; rfl) (by decide)
          (by simp only [sharedSize]; omega) rfl]
        cases fuel with
        | zero => rfl
        | succ fuel => grind [step, sharedSize]

theorem request_spins {env : Env}
    {reply : q.Reply} {peer : AppId} {inode : Inode} {notes : List Server.Notify}
    (allocated : allocReply (s.rings app) q.replySize = .ok (ring, data))
    (handled : s.server.handle cfg env app q = .ok (server, reply, (peer, inode) :: notes)) (full : (s.rings peer).tail = sharedSize)
    (spins : channelGc (s.rings peer) = none) : s.request cfg app env q transaction body closed = .error .notify := by
  have other : peer ≠ app := (Server.handle_addressed handled _ List.mem_cons_self).1
  have stuck : dispatchAllocate (s.rings peer) sizeofInodeNotify = none := by
    simp only [dispatchAllocate, channelAllocate]
    rw [if_neg (by decide), if_pos full, spins]
    rfl
  simp only [request, allocated, handled, ok_bind, notifyAll, setRing, update_of_ne other, stuck]
  rfl

def booted : Notifier where
  server := Server.boot 0 { start := 0, blocks := [0], blocksFree := 1 } fun _ => 0
  rings := fun _ => channelSetupOwned fun _ => 0
  received := []

theorem start_booted : booted.Start := ⟨rfl, fun _ => ⟨_, rfl⟩⟩

def ask (app rand : Nat) (q : Request) (body : List UInt8) : NotifierAct :=
  .request app { rand, rand' := 0, stats := [] } q 7 body fun _ => false

def statusBody : List UInt8 := leBytes 4 0
def countBody (n : Nat) : List UInt8 := leBytes 4 0 ++ leBytes 8 n
def inodeBody (id : FileId) : List UInt8 := leBytes 8 0 ++ leBytes 8 id ++ leBytes 8 FileType.file.code
def openBody (fd : Fd) (id : FileId) : List UInt8 :=
  leBytes 4 0 ++ leBytes 8 fd ++ leBytes 4 FileType.file.code ++ leBytes 8 0 ++ leBytes 4 2 ++ inodeBody id

/-- The last two bytes, at the place of the unset field of a RESOLVE reply, make its size 65535. -/
def crafted : List UInt8 := List.replicate 16 0 ++ [211, 255]

/-- Client 0 opens `f` and reads until its ring is full, the last time what client 1 has written, then reads
    two more large replies, all of which it frees, and looks up `g`. Client 1 removes `g`. -/
def fakeSentinel : List NotifierAct :=
  let root : Inode := { server := 0, id := 0 }
  [ask 0 1 (.createOpen root "f" { creat := true } 420) (openBody 1 2), .receive 0 false, .free 0 8,
    ask 0 0 (.read 1 32656) (countBody 0), .receive 0 false, .free 0 136,
    ask 0 0 (.read 1 32548) (countBody 0), .receive 0 false, .free 0 32840,
    ask 1 2 (.createOpen root "g" { creat := true } 420) (openBody 2 3),
    ask 1 3 (.createOpen root "f" { creat := true } 420) (openBody 3 2),
    ask 1 0 (.write 3 crafted) (countBody 18),
    ask 0 0 (.read 1 64) (countBody 18 ++ crafted), .receive 0 false, .free 0 65416,
    ask 0 0 (.read 1 32656) (countBody 0), .receive 0 false, .free 0 8,
    ask 0 0 (.read 1 32656) (countBody 0), .receive 0 false, .free 0 32712,
    ask 0 0 (.resolve 0 "g") (inodeBody 3 ++ leBytes 4 0), .receive 0 false,
    ask 1 0 (.removeMap 0 "g") statusBody]

structure View where
  head : Nat
  tail : Nat
  ready : List Bool
  alloced : List Nat
  sentinel : List Bool
  allocated : Bool
  notes : Option (List Server.Notify)
deriving DecidableEq

def view (s : Notifier) : View where
  head := (s.rings 0).head
  tail := (s.rings 0).tail
  ready := [0, 32704, 65408].map fun off => msgReady (s.rings 0).shared off true
  alloced := [0, 32704, 65408].map (msgAlloced (s.rings 0).shared)
  sentinel := [0, 32704, 65408].map fun off => msgSize (s.rings 0).shared off == sentinelSize
  allocated := (allocReply (s.rings 1) 4).isOk
  notes := (s.server.handle Server.oneServer { rand := 0, rand' := 0, stats := [] } 1 (.removeMap 0 "f")).toOption.map (·.2.2)

theorem run_fakeSentinel : (run (next Server.oneServer) booted fakeSentinel).map view =
    some ⟨0, sharedSize, [false, false, false], [32704, 32704, 64], [false, false, true], true,
      some [(0, { server := 0, id := 2 })]⟩ := by
  decide +kernel

theorem exists_spinning : ∃ s, Reach Start (fun _ _ => True) (next Server.oneServer) s ∧
    s.step Server.oneServer (ask 1 0 (.removeMap 0 "f") statusBody) = .error .notify ∧
    ∀ fuel, gcLoop (s.rings 0).shared (s.rings 0).head fuel (s.rings 0).tail ((s.rings 0).tail + 1)
      (gcFreed (s.rings 0).head (s.rings 0).tail) = none := by
  obtain ⟨s, ran, seen⟩ := Option.map_eq_some_iff.mp run_fakeSentinel
  have head : (s.rings 0).head = 0 := congrArg View.head seen
  have tail : (s.rings 0).tail = sharedSize := congrArg View.tail seen
  have ready := congrArg View.ready seen
  have notes := congrArg View.notes seen
  have spins : ∀ fuel, gcLoop (s.rings 0).shared (s.rings 0).head fuel (s.rings 0).tail ((s.rings 0).tail + 1)
      (gcFreed (s.rings 0).head (s.rings 0).tail) = none := by
    intro fuel
    rw [head, tail]
    refine gcLoop_spins ?_ (congrArg View.alloced seen) (congrArg View.sentinel seen) fuel _ _ _ (by decide) (.inl (by decide))
    simpa [view] using ready
  refine ⟨s, Reach.of_run start_booted ran, ?_, spins⟩
  simp only [view, Option.map_eq_some_iff, toOption_eq_some, Prod.exists] at notes
  obtain ⟨server, reply, _, handled, rfl⟩ := notes
  have allocated : (allocReply (s.rings 1) 4).isOk = true := congrArg View.allocated seen
  cases found : allocReply (s.rings 1) 4 with
  | error e =>
    rw [found] at allocated
    cases allocated
  | ok r => exact request_spins found handled tail (by rw [channelGc, spins]; rfl)

theorem notified_remove : ∃ s, next Server.oneServer booted (ask 0 1 (.createOpen { server := 0, id := 0 } "f" { creat := true } 420)
      (openBody 1 2)) = some s ∧ s.step Server.oneServer (ask 1 0 (.removeMap 0 "f") statusBody) ≠ .error .notify := by
  have stepped : (next Server.oneServer booted (ask 0 1 (.createOpen { server := 0, id := 0 } "f" { creat := true } 420)
      (openBody 1 2))).isSome := by decide +kernel
  obtain ⟨s, stepped⟩ := Option.isSome_iff_exists.mp stepped
  refine ⟨s, stepped, notified_of_guarded (.step _ (.init start_booted) ?_ stepped) ?_⟩
  · exact ⟨⟨by decide, by decide⟩, trivial⟩
  · exact ⟨⟨by decide, by decide⟩, trivial⟩

end Notifier
end Faux
