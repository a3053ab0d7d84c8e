import Faux.Theorems.Fs.Exclusive
import Faux.Fs.Owners
import Faux.Theorems.Fs.Walks

/-! Invariants of runs of clients that know inodes. What clients do with inodes by themselves only spreads those that are held
    somewhere, so that an invariant has to be shown for requests, and for inodes that others come to know. -/

namespace Faux
open Lib

theorem start_exec (x : InodeType) : x.exec.start = some x := by
  obtain ⟨server, id, type⟩ := x
  cases type <;> rfl

namespace Knowing
variable {cfg : Config} {w w' : Cluster} {s t : Knowing} {c i : Nat} {x y : InodeType} {k : PathPair}

theorem lookup_removeDest {cache : DirCache} {child : Inode} (found : (cache.removeDest child).lookup k = some x) :
    cache.lookup k = some x := by
  unfold DirCache.removeDest at found
  split at found
  · exact found
  · exact (lookup_erase_some.mp found).2

theorem lookup_notified {notes : List (Nat × Inode)} : ∀ {cache : DirCache},
    (Client.notified cache notes).lookup k = some x → cache.lookup k = some x := by
  induction notes with
  | nil => exact fun {_} found => found
  | cons n notes ih => exact fun {_} found => lookup_removeDest (ih found)

theorem request_cache {env : Env} {q : Request} {r : q.Reply} (done : w.request cfg c env i q = .ok (w', r)) (c' : Nat)
    (found : (w'.clients c').cache.lookup k = some x) : (w.clients c').cache.lookup k = some x := by
  obtain ⟨t, notes, -, -, clients⟩ := Cluster.request_eq_ok done
  rw [clients c'] at found
  split_ifs at found with same
  · subst same
    exact lookup_notified found
  · exact found

theorem cache_setClient {k : Client} {c' : Nat} {p : PathPair} (found : ((w.setClient c k).clients c').cache.lookup p = some x) :
    c' = c ∧ k.cache.lookup p = some x ∨ (w.clients c').cache.lookup p = some x := by
  by_cases same : c' = c
  · subst same
    simp only [Cluster.setClient, Function.update_self] at found
    exact .inl ⟨rfl, found⟩
  · simp only [Cluster.setClient, Function.update_of_ne same] at found
    exact .inr found

theorem lookup_poll {k k' : Client} {p : PathPair} (polled : k.poll i = some k') (found : k'.cache.lookup p = some x) :
    k.cache.lookup p = some x := by
  unfold Client.poll at polled
  split at polled
  · cases polled
  · cases polled
    exact lookup_removeDest found

def dirD : InodeType := { server := 1, id := 67108867, type := .dirShared }

end Knowing
end Faux
