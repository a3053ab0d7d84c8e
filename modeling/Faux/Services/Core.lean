import Faux.Channel.Basic

/-! # The core server

`coreserv/coreserver.cpp` hands out the cores of a machine. The free cores are kept in groups, and those of a process in a list
of its own until a sweep finds that the process is gone. `none` stands for a search that does not end, or for the use of an
iterator that points nowhere. -/

namespace Faux

/-- `CORE_NUM`, and `SOCK_NUM` groups. -/
structure CoreConfig where
  cores : Nat
  groups : Nat
  some : 0 < groups

/-- `g_coregroup`, `g_pidcore` and `g_pollpids`, which is a set in ascending order. -/
structure CoreServer where
  coregroup : Nat → List Nat
  pidcore : Int → Option (List Nat)
  pollpids : List Int

structure CoreGetResponse where
  core : Nat
  ack : Bool

namespace CoreServer

def pushBack (s : CoreServer) (group core : Nat) : CoreServer :=
  { s with coregroup := Function.update s.coregroup group (s.coregroup group ++ [core]) }

def pushFront (groups : Nat → List Nat) (group core : Nat) : Nat → List Nat := Function.update groups group (core :: groups group)

def insertPid (pid : Int) : List Int → List Int
  | [] => [pid]
  | p :: ps => if pid < p then pid :: p :: ps else if pid = p then p :: ps else p :: insertPid pid ps

variable (cfg : CoreConfig)

/-- `coreserver_init`. Start at 1, since core 0 is used for bootstrap services. -/
def init : CoreServer :=
  (List.range' 1 (cfg.cores - 1)).foldl (fun s i => s.pushBack (i % cfg.groups) i)
    { coregroup := fun _ => [], pidcore := fun _ => none, pollpids := [] }

/-- The loop of `coreserver_core_get`: a group with a free core, its first core and the others. -/
def searchGroup (s : CoreServer) (startgroup : Nat) : Nat → Nat → Option (Option (Nat × Nat × List Nat))
  | 0, _ => none
  | fuel + 1, group =>
    match s.coregroup group with
    | core :: rest => some (some (group, core, rest))
    | [] => if (group + 1) % cfg.groups ≠ startgroup then searchGroup s startgroup fuel ((group + 1) % cfg.groups) else some none

def coreGet (s : CoreServer) (pid : Int) (group : Nat) : Option (CoreServer × CoreGetResponse) := do
  -- Default group
  let group := if group ≥ cfg.groups then 0 else group
  match ← s.searchGroup cfg group cfg.groups group with
  | some (group, core, rest) =>
    some ({ coregroup := Function.update s.coregroup group rest
            pidcore := Function.update s.pidcore pid (some ((s.pidcore pid).getD [] ++ [core]))
            pollpids := insertPid pid s.pollpids }, { core, ack := true })
  | none => some (s, { core := sizeMod - 1, ack := false })

def reclaim (s : CoreServer) (pid : Int) : Option CoreServer := do
  let cores ← s.pidcore pid
  some { coregroup := cores.reverse.foldl (fun groups core => pushFront groups (core % cfg.groups) core) s.coregroup
         pidcore := Function.update s.pidcore pid none
         pollpids := s.pollpids.filter (· ≠ pid) }

/-- The loop of `coreserver_idleloop`, which goes on with the next process after an erase. -/
def sweep (alive : Int → Bool) : List Int → CoreServer → Option CoreServer
  | [], s => some s
  | pid :: pids, s =>
    if alive pid then sweep alive pids s
    else do
      let s ← s.reclaim cfg pid
      sweep alive pids s

def idleloop (s : CoreServer) (alive : Int → Bool) : Option CoreServer := s.sweep cfg alive s.pollpids

inductive Event where
  | coreGet (pid : Int) (group : Nat)
  | idle (alive : Int → Bool)

def step (s : CoreServer) : Event → Option CoreServer
  | .coreGet pid group => (s.coreGet cfg pid group).map (·.1)
  | .idle alive => s.idleloop cfg alive

end CoreServer

inductive CorePlace where
  | free (group : Nat)
  | held (pid : Int)
  deriving DecidableEq

namespace CoreServer

def coresAt (s : CoreServer) : CorePlace → List Nat
  | .free group => s.coregroup group
  | .held pid => (s.pidcore pid).getD []

def Exhausted (cfg : CoreConfig) (s : CoreServer) : Prop := ∀ group < cfg.groups, s.coregroup group = []

end CoreServer
end Faux
