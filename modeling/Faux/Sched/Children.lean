import Faux.Lib.Run

/-! # Children of the scheduler server

`SchedServer::exec` after its fork, `child_exit_signal`, `idle` and `cleanup_child` of `sys/sched/server.cpp`. Children exit, and the
signal is delivered, between any two steps of the server. -/

namespace Faux

/-- A child as the operating system knows it, with the control pipe of its exec and the status once it has exited. -/
structure ChildProcess where
  pid : Nat
  pipe : Nat
  status : Option Nat

/-- `WEXITSTATUS`, which is 0 for a child that was killed. -/
def wexitstatus (rc : Nat) : Nat := rc / 256 % 256

/-- What is written to the control pipe: a failed `execve` sets nothing in the shared page, so `exec_rc` is 0. -/
def ChildProcess.report (q : ChildProcess) : Option (Nat × Nat) := q.status.map fun rc => (q.pipe, wexitstatus rc)

inductive IdlePlace where
  | outside
  | clear
  | wait
  deriving DecidableEq

structure SchedChildren where
  /-- `m_children`, with the control pipes. -/
  children : List (Nat × Nat)
  processes : List ChildProcess
  /-- `SIGCHLD` has not been delivered yet. -/
  pending : Bool
  childExited : Bool
  place : IdlePlace
  reports : List (Nat × Nat)
  exits : List (Nat × Nat)

inductive ChildEvent where
  | exec (pid pipe : Nat)
  | exit (pid status : Nat)
  | signal
  | idle
  | clear
  /-- `waitpid` gives the child. -/
  | reap (pid : Nat)
  | noChild

namespace SchedChildren

def init : SchedChildren := ⟨[], [], false, false, .outside, [], []⟩

/-- `none`: the event cannot happen, or the child that has exited is not in `m_children`. -/
def step (s : SchedChildren) : ChildEvent → Option SchedChildren
  | .exec pid pipe =>
    if s.place = .outside ∧ pid ∉ s.processes.map (·.pid) then
      some { s with children := (pid, pipe) :: s.children, processes := ⟨pid, pipe, none⟩ :: s.processes }
    else none
  | .exit pid rc => do
    let q ← s.processes.find? fun q => q.pid = pid ∧ q.status = none
    some { s with
      processes := s.processes.map fun q => if q.pid = pid then { q with status := some rc } else q
      pending := true
      exits := (q.pipe, wexitstatus rc) :: s.exits }
  | .signal => if s.pending then some { s with pending := false, childExited := true } else none
  | .idle => if s.place = .outside then some (if s.children = [] ∨ s.childExited = false then s else { s with place := .clear }) else none
  | .clear => if s.place = .clear then some { s with childExited := false, place := .wait } else none
  | .reap pid => do
    let q ← s.processes.find? fun q => q.pid = pid ∧ q.status ≠ none
    let e ← s.children.find? fun e => e.1 = pid
    let rc ← q.status
    if s.place = .wait then
      some { s with
        children := s.children.filter fun e => e.1 ≠ pid
        processes := s.processes.filter fun q => q.pid ≠ pid
        reports := (e.2, wexitstatus rc) :: s.reports }
    else none
  | .noChild => if s.place = .wait ∧ s.processes.all (·.status = none) then some { s with place := .outside } else none

/-- Every exit is reported once, on the pipe of its exec, or is still to be collected; a child that has exited is in `m_children`, and it is
    going to be looked for. -/
structure Reported (s : SchedChildren) : Prop where
  once : (s.reports ++ s.processes.filterMap ChildProcess.report).Perm s.exits
  known : ∀ q ∈ s.processes, (q.pid, q.pipe) ∈ s.children
  noticed : (∃ q ∈ s.processes, q.status ≠ none) → s.pending = true ∨ s.childExited = true ∨ s.place ≠ .outside

end SchedChildren
end Faux
