import Faux.Fs.System
import Faux.Lib.AList

/-! What an action of a client changes: a request changes one server, and of the clients only caches and
    inboxes. -/

namespace Faux
open Function Lib
namespace Cluster

variable {cfg : Config} {w w' : Cluster} {c i : Nat} {env : Env} {q : Request} {r : q.Reply}

theorem request_eq_ok (done : w.request cfg c env i q = .ok (w', r)) : ∃ s notes,
    (w.servers i).handle cfg env c q = .ok (s, r, notes) ∧ w'.servers = update w.servers i s ∧
      ∀ c', w'.clients c' =
        if c' = c then (((w.setServer i s).notify i notes).clients c).receive i else ((w.setServer i s).notify i notes).clients c' := by
  simp only [request, bind_eq_ok, Prod.exists] at done
  obtain ⟨s, reply, notes, handled, done⟩ := done
  cases done
  refine ⟨s, notes, handled, rfl, fun c' => ?_⟩
  by_cases same : c' = c
  · subst same
    simp [setClient]
  · simp [setClient, same]

theorem exec_rpc {t : Server} {r : q.Reply} {notes : List Server.Notify}
    (handled : (w.servers i).handle cfg env c q = .ok (t, r, notes)) :
    ∃ w', w.exec cfg c env (.rpc i q) = .ok (w', r) ∧ w'.servers = update w.servers i t :=
  ⟨((w.setServer i t).notify i notes).setClient c ((((w.setServer i t).notify i notes).clients c).receive i),
    by simp only [exec, request, handled, ok_bind], rfl⟩

theorem request_files (done : w.request cfg c env i q = .ok (w', r)) (c' : Nat) :
    (w'.clients c').files = (w.clients c').files ∧ (w'.clients c').nextFile = (w.clients c').nextFile := by
  obtain ⟨s, notes, -, -, clients⟩ := request_eq_ok done
  rw [clients c']
  split_ifs with same
  · subst same
    exact ⟨rfl, rfl⟩
  · exact ⟨rfl, rfl⟩

theorem intern_files {j : Nat × Nat} (done : w.intern j = some w') : w'.servers = w.servers ∧
    ∀ c', (w'.clients c').files = (w.clients c').files ∧ (w'.clients c').nextFile = (w.clients c').nextFile := by
  simp only [intern, Option.map_eq_some_iff] at done
  obtain ⟨k, polled, rfl⟩ := done
  refine ⟨rfl, fun c' => ?_⟩
  by_cases same : c' = j.1
  · subst same
    simp only [setClient, update_self]
    simp only [Client.poll] at polled
    split at polled
    · cases polled
    · cases polled
      exact ⟨rfl, rfl⟩
  · simp only [setClient, update_of_ne same, and_self]

end Cluster
end Faux
