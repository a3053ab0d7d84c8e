import Faux.Lib.Places
import Faux.Lib.Queue
import Faux.Lib.Run

/-! # Cooperative threads

`messaging/threading.cpp` and `threading.h`. The state is seen when the code of a thread runs; a call of that code goes on through the
scheduler until the code of some thread runs again. A context that is left by `swapcontext` goes on in the code of its thread, and one
that was made by `makecontext` starts the target. -/

namespace Faux
open Lib

def threadPoolSize : Nat := 128

def threadListSize : Nat := 128

inductive ThreadFault where
  | assertion
  | undefined
  | abort

abbrev ThreadRes (α : Type) := Except ThreadFault α

/-- The target of a thread with its argument: `main_target`, a function of the program, or `_threadMain`. -/
inductive ThreadTarget where
  | main
  | user (n : Nat)
  | threadMain (nextThread : Option Nat)

structure Thread where
  tid : Nat
  context : Option Nat
  target : ThreadTarget

/-- What a context does when it is set. -/
inductive Context where
  | start (target : ThreadTarget)
  | saved

/-- Whether the code of the current thread runs, or the loop of `_threadMain` at its beginning. -/
inductive ThreadControl where
  | code
  | threadMain (nextThread : Option Nat)

def ThreadTarget.enter : ThreadTarget → ThreadControl
  | .threadMain nextThread => .threadMain nextThread
  | _ => .code

/-- The state of the library with the lists of the condition variables. `held` are the threads that were created or suspended and are
    in no list. `scheduled` and `resumed` record the threads that were put in the ready list and those that were taken from it and run;
    `waited` and `woken` those that waited on a condition variable and those that it scheduled. -/
structure Threading where
  tid : Nat
  current : Option Nat
  ready : CircularQueue Nat threadListSize
  threads : Lib.Pool Thread
  contexts : Lib.Pool Context
  conds : Nat → CircularQueue Nat threadListSize
  control : ThreadControl
  held : List Nat
  scheduled : List Nat
  resumed : List Nat
  waited : Nat → List Nat
  woken : Nat → List Nat

inductive ThreadCall where
  | create (n : Nat)
  | schedule (thread : Nat)
  | yield (runnable : Bool)
  | wait (cv : Nat)
  | notify (cv : Nat)
  | notifyAll (cv : Nat)
  | finish

namespace Threading

def setContext (s : Threading) (thread : Nat) (context : Option Nat) : Threading :=
  { s with threads := s.threads.set thread { tid := (s.threads.heap thread).tid, context, target := (s.threads.heap thread).target } }

def threadCreate (s : Threading) (target : ThreadTarget) : ThreadRes (Threading × Nat) :=
  match s.threads.allocate with
  | none => .error .abort
  | some (thread, threads) =>
    .ok ({ s with tid := s.tid + 1, threads := threads.set thread { tid := s.tid + 1, context := none, target } }, thread)

def threadSchedule (s : Threading) (thread : Nat) : ThreadRes Threading :=
  match s.ready.push thread with
  | none => .error .abort
  | some ready => .ok { s with ready, scheduled := s.scheduled ++ [thread] }

def threadGetRunnable (s : Threading) : ThreadRes (Threading × Nat × Bool) :=
  match s.ready.pop with
  | some ready => .ok ({ s with ready }, s.ready.front, true)
  | none => do
    let (s, thread) ← s.threadCreate .main
    .ok (s, thread, false)

def threadDestroy (s : Threading) (thread : Nat) : Threading :=
  match (s.threads.heap thread).context with
  | some context => { s with contexts := s.contexts.free context, threads := s.threads.free thread }
  | none => { s with threads := s.threads.free thread }

/-- `_threadMakeContext` of a thread that has none. -/
def threadMakeContext (s : Threading) (thread : Nat) : ThreadRes Threading :=
  match s.contexts.allocate with
  | none => .error .assertion
  | some (context, contexts) =>
    if s.threads.freeList.length ≤ contexts.freeList.length then
      .ok ({ s with contexts := contexts.set context (.start (s.threads.heap thread).target) }.setContext thread (some context))
    else .error .assertion

def setCurrent (s : Threading) (thread : Nat) : ThreadRes Threading :=
  match (s.threads.heap thread).context with
  | none => .error .undefined
  | some context =>
    let control := match s.contexts.heap context with
      | .saved => .code
      | .start target => target.enter
    .ok { s with current := some thread, control }

def threadSwap (s : Threading) (nextThread : Nat) : ThreadRes Threading :=
  match s.current with
  | none => .error .assertion
  | some saved =>
    match (s.threads.heap saved).context with
    | none => .error .assertion
    | some context => do
      let s ← if (s.threads.heap nextThread).context.isNone then s.threadMakeContext nextThread else .ok s
      { s with contexts := s.contexts.set context .saved }.setCurrent nextThread

def threadSwitch (s : Threading) (nextThread : Nat) : ThreadRes Threading :=
  if s.current = some nextThread then .ok s
  else do
    let s := match s.current with
      | some current => s.threadDestroy current
      | none => s
    let s ← if (s.threads.heap nextThread).context.isNone then s.threadMakeContext nextThread else .ok s
    s.setCurrent nextThread

def threadMain (s : Threading) (nextThread : Option Nat) : ThreadRes Threading :=
  match s.current with
  | none => .error .assertion
  | some current =>
    match (s.threads.heap current).context with
    | none => .error .assertion
    | some context => do
      let (s, nextThread, fromReady) ← match nextThread with
        | some nextThread => .ok (s, nextThread, true)
        | none => s.threadGetRunnable
      let s := if fromReady then { s with resumed := s.resumed ++ [nextThread] } else s
      if (s.threads.heap nextThread).context.isSome then ({ s with control := .threadMain none }).threadSwitch nextThread
      else
        let s := ((s.setContext nextThread (some context)).setContext current none).threadDestroy current
        .ok { s with current := some nextThread, control := (s.threads.heap nextThread).target.enter }

/-- Passes of `_threadMain` until the code of a thread runs. The loop has no bound, but one pass is enough. -/
def untilCode : Nat → Threading → ThreadRes Threading
  | passes, s =>
    match s.control, passes with
    | .code, _ => .ok s
    | .threadMain _, 0 => .error .undefined
    | .threadMain nextThread, passes + 1 => (s.threadMain nextThread).bind (untilCode passes)

def threadYieldTo (s : Threading) : ThreadRes Threading :=
  if 0 < s.ready.size then do
    let (s, nextThread, _) ← s.threadGetRunnable
    if (s.threads.heap nextThread).context.isNone then do
      let (s, nextThread) ← s.threadCreate (.threadMain (some nextThread))
      s.threadSwap nextThread
    else ({ s with resumed := s.resumed ++ [nextThread] }).threadSwap nextThread
  else do
    let (s, nextThread) ← s.threadCreate (.threadMain none)
    s.threadSwap nextThread

def threadYield (s : Threading) (runnable : Bool) : ThreadRes Threading :=
  match s.current with
  | none => .error .assertion
  | some current =>
    if runnable then
      if 0 < s.ready.size then do
        let s ← s.threadSchedule current
        s.threadYieldTo
      else .ok s
    else s.threadYieldTo

/-- `condWait`; the result of the push is not looked at. -/
def condWait (s : Threading) (cv : Nat) : ThreadRes Threading :=
  match s.current with
  | none => .error .undefined
  | some current =>
    { s with
      conds := Function.update s.conds cv (((s.conds cv).push current).getD (s.conds cv))
      waited := Function.update s.waited cv (s.waited cv ++ [current]) }.threadYield false

def condNotify (s : Threading) (cv : Nat) : ThreadRes Threading :=
  match (s.conds cv).pop with
  | none => .ok s
  | some list => do
    let thread := (s.conds cv).front
    let s ← s.threadSchedule thread
    .ok { s with conds := Function.update s.conds cv list, woken := Function.update s.woken cv (s.woken cv ++ [thread]) }

def condNotifyAll (cv : Nat) : Nat → Threading → ThreadRes Threading
  | 0, s => .ok s
  | size + 1, s => (s.condNotify cv).bind (condNotifyAll cv size)

def call (s : Threading) : ThreadCall → ThreadRes Threading
  | .create n => do
    let (s, thread) ← s.threadCreate (.user n)
    .ok { s with held := thread :: s.held }
  | .schedule thread => { s with held := s.held.erase thread }.threadSchedule thread
  | .yield true => s.threadYield true
  | .yield false => { s with held := s.current.toList ++ s.held }.threadYield false
  | .wait cv => s.condWait cv
  | .notify cv => s.condNotify cv
  | .notifyAll cv => condNotifyAll cv (s.conds cv).size s
  | .finish => .ok { s with control := .threadMain none }

def step (s : Threading) (c : ThreadCall) : ThreadRes Threading := (s.call c).bind (untilCode 1)

def next (s : Threading) (c : ThreadCall) : Option Threading := (s.step c).toOption

def init : Threading where
  tid := 0
  current := none
  ready := .empty _ 0
  threads := Pool.init threadPoolSize { tid := 0, context := none, target := .main }
  contexts := Pool.init threadPoolSize .saved
  conds _ := .empty _ 0
  control := .code
  held := []
  scheduled := []
  resumed := []
  waited _ := []
  woken _ := []

def threadingStart (s : Threading) : ThreadRes Threading := do
  let (s, nextThread) ← s.threadCreate (.threadMain none)
  let s ← s.threadSwitch nextThread
  untilCode 1 s

end Threading

/-! ### Where the threads are -/

inductive ThreadPlace where
  | free
  | running
  | ready
  | waiting (cv : Nat)
  | held

def threadPlaces (free running ready : List Nat) (waiting : Nat → List Nat) (held : List Nat) : ThreadPlace → List Nat
  | .free => free
  | .running => running
  | .ready => ready
  | .waiting cv => waiting cv
  | .held => held

namespace Threading

def threadsAt (s : Threading) : ThreadPlace → List Nat :=
  threadPlaces s.threads.freeList s.current.toList s.ready.toList (fun cv => (s.conds cv).toList) s.held

def Allocated (s : Threading) (thread : Nat) : Prop := thread < threadPoolSize ∧ thread ∉ s.threads.freeList

/-- Only threads that are not runnable are scheduled. -/
def Documented (s : Threading) : ThreadCall → Prop
  | .schedule thread => s.Allocated thread ∧ s.current ≠ some thread ∧ thread ∉ s.ready.toList
  | _ => True

instance (s : Threading) (thread : Nat) : Decidable (s.Allocated thread) :=
  inferInstanceAs (Decidable (thread < threadPoolSize ∧ thread ∉ s.threads.freeList))

instance (s : Threading) : ∀ c, Decidable (s.Documented c)
  | .schedule thread => inferInstanceAs (Decidable (s.Allocated thread ∧ s.current ≠ some thread ∧ thread ∉ s.ready.toList))
  | .create _ => inferInstanceAs (Decidable True)
  | .yield _ => inferInstanceAs (Decidable True)
  | .wait _ => inferInstanceAs (Decidable True)
  | .notify _ => inferInstanceAs (Decidable True)
  | .notifyAll _ => inferInstanceAs (Decidable True)
  | .finish => inferInstanceAs (Decidable True)

/-- What a program does before it starts the threads. -/
def BeforeStart (s : Threading) : ThreadCall → Prop
  | .create _ => True
  | .schedule thread => s.Documented (.schedule thread)
  | _ => False

instance (s : Threading) : DecidablePred s.BeforeStart := fun c => by
  unfold BeforeStart
  split <;> infer_instance

/-- Every thread is in one place; threads have contexts of their own; those that were scheduled have been resumed, in order, up to those
    in the ready list, and those that waited have been woken, in order, up to those in the list; a call is followed by the code of a
    thread, which is the one that was taken from the ready list if one was, unless the pool has too few threads. -/
structure Sound (s : Threading) : Prop where
  placed : Placed s.threadsAt (· < threadPoolSize)
  runs : s.current ≠ none
  contexts : ∀ thread other context, s.Allocated thread → s.Allocated other → (s.threads.heap thread).context = some context →
    (s.threads.heap other).context = some context → thread = other
  resumes : s.scheduled = s.resumed ++ s.ready.toList
  wakes : ∀ cv, s.waited cv = s.woken cv ++ (s.conds cv).toList
  goesOn : ∀ c, s.Documented c → (∃ t, s.step c = .ok t ∧
      (t.resumed = s.resumed ∨ ∃ thread, t.resumed = s.resumed ++ [thread] ∧ t.current = some thread)) ∨
    s.step c = .error .abort ∧ s.threads.freeList.length < 2

def NotWaiting (s : Threading) : ThreadCall → Prop
  | .schedule thread => ∀ cv, thread ∉ (s.conds cv).toList
  | _ => True

end Threading
end Faux
