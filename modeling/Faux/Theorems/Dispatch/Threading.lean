import Faux.Dispatch.Threading
import Faux.Lib.Except

/-! # Cooperative threads are sound

A thread that gives up the processor is put in a list or held, and another one runs; the thread that is created between the two for
`_threadMain` is gone then. Contexts are saved with threads that yield, and passed on by those that end. -/

namespace Faux
open Function Lib

/-! ### Threads in places -/

namespace ThreadPlace
variable {P : Nat → Prop} {free free' running ready held : List Nat} {waiting : Nat → List Nat} {thread cv : Nat}
  {n cv : Nat}

theorem run_ready (h : Placed (threadPlaces free [] (thread :: ready) waiting held) P) :
    Placed (threadPlaces free [thread] ready waiting held) P :=
  h.move thread .ready .running (by simp) (.refl _) (.refl _) fun place => by cases place <;> simp [threadPlaces]

theorem run_free (h : Placed (threadPlaces free [] ready waiting held) P) (first : free.Perm (thread :: free')) :
    Placed (threadPlaces free' [thread] ready waiting held) P :=
  h.move thread .free .running (by simp) first (.refl _) fun place => by cases place <;> simp [threadPlaces]

theorem create (h : Placed (threadPlaces (thread :: free) running ready waiting held) P) :
    Placed (threadPlaces free running ready waiting (thread :: held)) P :=
  h.move thread .free .held (by simp) (.refl _) (.refl _) fun place => by cases place <;> simp [threadPlaces]

theorem schedule (h : Placed (threadPlaces free running ready waiting held) P) (mem : thread ∈ held) :
    Placed (threadPlaces free running (ready ++ [thread]) waiting (held.erase thread)) P :=
  h.move thread .held .ready (by simp) (List.perm_cons_erase mem) (List.perm_append_singleton ..) fun place => by
    cases place <;> simp [threadPlaces]

theorem wake {list : List Nat} (h : Placed (threadPlaces free running ready waiting held) P)
    (first : waiting cv = thread :: list) :
    Placed (threadPlaces free running (ready ++ [thread]) (update waiting cv list) held) P := by
  refine h.move thread (.waiting cv) .ready (by simp) ?_ (List.perm_append_singleton ..) fun place => ?_
  · simp [threadPlaces, first]
  · cases place <;> simp +contextual [threadPlaces, or_iff_not_imp_left]

theorem park_ready (h : Placed (threadPlaces free [thread] ready waiting held) P) :
    Placed (threadPlaces free [] (ready ++ [thread]) waiting held) P :=
  h.move thread .running .ready (by simp) (.refl _) (List.perm_append_singleton ..) fun place => by
    cases place <;> simp [threadPlaces]

theorem park_held (h : Placed (threadPlaces free [thread] ready waiting held) P) :
    Placed (threadPlaces free [] ready waiting (thread :: held)) P :=
  h.move thread .running .held (by simp) (.refl _) (.refl _) fun place => by cases place <;> simp [threadPlaces]

theorem park_waiting (h : Placed (threadPlaces free [thread] ready waiting held) P) :
    Placed (threadPlaces free [] ready (update waiting cv (waiting cv ++ [thread])) held) P := by
  refine h.move thread .running (.waiting cv) (by simp) (.refl _) ?_ fun place => ?_
  · simp [threadPlaces, List.perm_append_singleton]
  · cases place <;> simp +contextual [threadPlaces, or_iff_not_imp_left]

theorem finish (h : Placed (threadPlaces free [thread] ready waiting held) P) :
    Placed (threadPlaces (thread :: free) [] ready waiting held) P :=
  h.move thread .running .free (by simp) (.refl _) (.refl _) fun place => by cases place <;> simp [threadPlaces]

end ThreadPlace

/-! ### Contexts of threads -/

def contextPlaces (free : List Nat) (owns : Nat → List Nat) : Option Nat → List Nat
  | none => free
  | some thread => owns thread

section
variable {P : Nat → Prop} {free : List Nat} {owns : Nat → List Nat} {context thread other : Nat}

/-- A thread without a context is given a free one. -/
theorem contexts_give (h : Placed (contextPlaces (context :: free) owns) P) (bare : owns thread = []) :
    Placed (contextPlaces free (update owns thread [context])) P := by
  refine h.move context none (some thread) (by simp) (.refl _) ?_ fun place => ?_
  · simp [contextPlaces, bare]
  · cases place <;> simp +contextual [contextPlaces, or_iff_not_imp_left]

/-- The context of a thread becomes free. -/
theorem contexts_take (h : Placed (contextPlaces free owns) P) (has : owns thread = [context]) :
    Placed (contextPlaces (context :: free) (update owns thread [])) P := by
  refine h.move context (some thread) none (by simp) ?_ (.refl _) fun place => ?_
  · simp [contextPlaces, has]
  · cases place <;> simp +contextual [contextPlaces, or_iff_not_imp_left]

theorem contexts_pass (h : Placed (contextPlaces free owns) P) (has : owns thread = [context]) (bare : owns other = []) :
    Placed (contextPlaces free (update (update owns thread []) other [context])) P := by
  have ne : other ≠ thread := fun same => by
    rw [same, has] at bare
    cases bare
  refine contexts_give (contexts_take h has) ?_
  rw [update_of_ne ne, bare]

/-- What is not in a list of distinct numbers below a bound. -/
theorem length_filter_not_mem {l : List Nat} (nodup : l.Nodup) (within : ∀ x ∈ l, x < n) :
    ((List.range n).filter (· ∉ l)).length + l.length = n := by
  have perm : ((List.range n).filter (· ∉ l) ++ l).Perm (List.range n) := by
    refine (List.perm_ext_iff_of_nodup (List.nodup_append.mpr ⟨List.nodup_range.filter _, nodup, ?_⟩) List.nodup_range).mpr fun x => ?_
    · grind
    · grind
  have length := perm.length_eq
  rwa [List.length_append, List.length_range] at length

/-- There are as many free contexts as free threads: distinct threads own distinct contexts. -/
theorem free_le {threads : List Nat} (h : Placed (contextPlaces free owns) (· < n)) (nodup : threads.Nodup)
    (within : ∀ x ∈ threads, x < n) (owner : ∀ t c, c ∈ owns t → t < n ∧ t ∉ threads ∧ owns t = [c]) : threads.length ≤ free.length := by
  have each : ∀ c, ∃ t, c ∈ (List.range n).filter (· ∉ free) → c ∈ owns t := fun c => by
    by_cases mem : c ∈ (List.range n).filter (· ∉ free)
    · obtain ⟨lt, notFree⟩ := List.mem_filter.mp mem
      obtain ⟨place, there⟩ := h.somewhere (List.mem_range.mp lt)
      cases place with
      | none => exact absurd there (of_decide_eq_true notFree)
      | some t => exact ⟨t, fun _ => there⟩
    · exact ⟨0, fun mem' => absurd mem' mem⟩
  choose f spec using each
  have distinct : (((List.range n).filter (· ∉ free)).map f).Nodup := by
    refine List.Nodup.map_on (fun c mem c' mem' same => ?_) (List.nodup_range.filter _)
    have only := (owner _ _ (spec c mem)).2.2
    have there := spec c' mem'
    rw [← same, only] at there
    exact (List.mem_singleton.mp there).symm
  have inside : ((List.range n).filter (· ∉ free)).map f ⊆ (List.range n).filter (· ∉ threads) := fun t mem => by
    obtain ⟨c, mem', rfl⟩ := List.mem_map.mp mem
    obtain ⟨lt, allocated, -⟩ := owner _ _ (spec c mem')
    exact List.mem_filter.mpr ⟨List.mem_range.mpr lt, decide_eq_true allocated⟩
  have le := (List.subperm_of_subset distinct inside).length_le
  rw [List.length_map] at le
  have freeContexts : ((List.range n).filter (· ∉ free)).length + free.length = n :=
    length_filter_not_mem (h.nodup (a := none)) fun x (mem : x ∈ contextPlaces free owns none) => h.thing mem
  have freeThreads := length_filter_not_mem nodup within
  omega

end

def owns (threads : Lib.Pool Thread) (thread : Nat) : List Nat :=
  if thread < threadPoolSize ∧ thread ∉ threads.freeList then (threads.heap thread).context.toList else []

def IsAllocated (threads : Lib.Pool Thread) (thread : Nat) : Prop := thread < threadPoolSize ∧ thread ∉ threads.freeList

section
variable {threads threads' : Lib.Pool Thread} {thread context : Nat}

theorem owns_of_allocated (allocated : IsAllocated threads thread) : owns threads thread = (threads.heap thread).context.toList := if_pos allocated

theorem owns_of_free (free : thread ∈ threads.freeList) : owns threads thread = [] := if_neg fun allocated => allocated.2 free

theorem of_mem_owns (mem : context ∈ owns threads thread) :
    IsAllocated threads thread ∧ (threads.heap thread).context = some context := by
  by_cases allocated : IsAllocated threads thread
  · grind [owns_of_allocated]
  · have none : owns threads thread = [] := if_neg allocated
    rw [none] at mem
    cases mem

end

/-- Threads own their contexts; those that do not run have saved theirs, and those that have none start with code of the program. -/
structure Owned (threads : Lib.Pool Thread) (contexts : Lib.Pool Context) (current : Option Nat) : Prop where
  placed : Placed (contextPlaces contexts.freeList (owns threads)) (· < threadPoolSize)
  saved : ∀ t c, IsAllocated threads t → current ≠ some t → (threads.heap t).context = some c → contexts.heap c = .saved
  target : ∀ t, IsAllocated threads t → (threads.heap t).context = none → (threads.heap t).target.enter = .code

namespace Owned
variable {threads : Lib.Pool Thread} {contexts : Lib.Pool Context} {current : Option Nat} {thread other context : Nat}
  {target : ThreadTarget} {tid : Nat} {free : List Nat}

theorem mem (allocated : IsAllocated threads thread) (has : (threads.heap thread).context = some context) :
    context ∈ contextPlaces contexts.freeList (owns threads) (some thread) := by
  show context ∈ owns threads thread
  rw [owns_of_allocated allocated, has]
  exact List.mem_singleton.mpr rfl

theorem unique (h : Owned threads contexts current) (allocated : IsAllocated threads thread) (allocated' : IsAllocated threads other)
    (has : (threads.heap thread).context = some context) (has' : (threads.heap other).context = some context) : thread = other :=
  Classical.byContradiction fun ne => (h.placed.only (mem allocated has)).2 (some other) (fun same => ne (Option.some.inj same).symm) (mem allocated' has')

theorem not_free (h : Owned threads contexts current) (allocated : IsAllocated threads thread) (has : (threads.heap thread).context = some context) :
    context ∉ contexts.freeList :=
  (h.placed.only (mem allocated has)).2 none (Option.some_ne_none _).symm

theorem available (h : Owned threads contexts current) (nodup : threads.freeList.Nodup) (within : ∀ t ∈ threads.freeList, t < threadPoolSize) :
    threads.freeList.length ≤ contexts.freeList.length := by
  refine free_le h.placed nodup within fun t c mem => ?_
  obtain ⟨allocated, has⟩ := of_mem_owns mem
  exact ⟨allocated.1, allocated.2, by rw [owns_of_allocated allocated, has]; rfl⟩

/-- When a thread can be allocated a context can, and the assertion on the two pools holds. -/
theorem next {running ready held : List Nat} {waiting : Nat → List Nat} (h : Owned threads contexts current)
    (placed : Placed (threadPlaces threads.freeList running ready waiting held) (· < threadPoolSize)) (first : threads.freeList = thread :: free) :
    IsAllocated { heap := threads.heap, freeList := free } thread ∧
      ∃ context rest, contexts.freeList = context :: rest ∧ free.length ≤ rest.length := by
  have nodup : threads.freeList.Nodup := placed.nodup (a := ThreadPlace.free)
  have within : ∀ t ∈ threads.freeList, t < threadPoolSize := fun t (mem : t ∈ threadPlaces threads.freeList _ _ _ _ .free) => placed.thing mem
  have available := h.available nodup within
  rw [first] at nodup within available
  refine ⟨⟨within thread (List.mem_cons_self ..), (List.nodup_cons.mp nodup).1⟩, ?_⟩
  cases firstContext : contexts.freeList with
  | nil => grind
  | cons context rest => grind

/-- A new thread has no context yet. -/
theorem create (h : Owned threads contexts current) (first : threads.freeList = thread :: free)
    (code : target.enter = .code) :
    Owned { heap := update threads.heap thread { tid, context := none, target }, freeList := free } contexts current := by
  have same : owns { heap := update threads.heap thread { tid, context := none, target }, freeList := free } = owns threads := by
    funext t
    grind [owns, update_apply]
  obtain ⟨placed, saved, start⟩ := h
  simp only [IsAllocated] at saved start
  exact ⟨same ▸ placed, by grind [IsAllocated, update_apply], by grind [IsAllocated, update_apply]⟩

/-- A new thread starts on a free context, and the one that ran has saved its own. -/
theorem spawn {list : List Nat} {heap : Nat → Context} (h : Owned threads contexts current) (first : threads.freeList = thread :: free)
    (allocated : IsAllocated { heap := threads.heap, freeList := free } thread) (firstContext : contexts.freeList = context :: list)
    (keeps : ∀ c, c ≠ context → contexts.heap c = .saved → heap c = .saved)
    (saves : ∀ t c, current = some t → (threads.heap t).context = some c → heap c = .saved) :
    Owned { heap := update threads.heap thread { tid, context := some context, target }, freeList := free }
      { heap, freeList := list } (some thread) := by
  have given : owns { heap := update threads.heap thread { tid, context := some context, target }, freeList := free } =
      update (owns threads) thread [context] := by
    funext t
    grind [owns, IsAllocated, update_apply]
  have apart : ∀ t c, IsAllocated threads t → (threads.heap t).context = some c → c ≠ context := fun t c allocated has is =>
    h.not_free allocated has (is ▸ firstContext ▸ List.mem_cons_self ..)
  obtain ⟨placed, saved, start⟩ := h
  simp only [IsAllocated] at saved start apart allocated
  refine ⟨?_, by grind [IsAllocated, update_apply], by grind [IsAllocated, update_apply]⟩
  rw [given]
  exact contexts_give (firstContext ▸ placed) (owns_of_free (first ▸ List.mem_cons_self ..))

/-- A thread that ends gives its context to one that has none. -/
theorem steal (h : Owned threads contexts (some thread)) (allocated : IsAllocated threads thread)
    (has : (threads.heap thread).context = some context) (allocated' : IsAllocated threads other) (bare : (threads.heap other).context = none)
    {old new : Thread} (takes : new.context = some context) :
    Owned { heap := update (update threads.heap other new) thread old, freeList := thread :: threads.freeList }
      contexts (some other) := by
  have passed : owns { heap := update (update threads.heap other new) thread old, freeList := thread :: threads.freeList } =
      update (update (owns threads) thread []) other [context] := by
    funext t
    grind [owns, IsAllocated, update_apply, Option.toList_some]
  obtain ⟨placed, saved, start⟩ := h
  simp only [IsAllocated] at saved start
  refine ⟨?_, by grind [IsAllocated, update_apply], by grind [IsAllocated, update_apply]⟩
  rw [passed]
  exact contexts_pass placed (by rw [owns_of_allocated allocated, has]; rfl) (by rw [owns_of_allocated allocated', bare]; rfl)

/-- A thread that ends frees its context. -/
theorem destroy (h : Owned threads contexts (some thread)) (allocated : IsAllocated threads thread)
    (has : (threads.heap thread).context = some context) :
    Owned (threads.free thread) (contexts.free context) (some other) := by
  have taken : owns (threads.free thread) = update (owns threads) thread [] := by
    funext t
    simp only [owns, Pool.free]
    grind [owns, update_apply]
  obtain ⟨placed, saved, start⟩ := h
  simp only [IsAllocated] at saved start
  refine ⟨?_, by grind [IsAllocated, Pool.free], by grind [IsAllocated, Pool.free]⟩
  rw [taken]
  exact contexts_take placed (by rw [owns_of_allocated allocated, has]; rfl)

/-- Another thread goes on, and the one that ran has saved its context. -/
theorem resume {heap : Nat → Context} (h : Owned threads contexts current) (keeps : ∀ c, contexts.heap c = .saved → heap c = .saved)
    (saves : ∀ t c, current = some t → (threads.heap t).context = some c → heap c = .saved) :
    Owned threads { heap, freeList := contexts.freeList } (some thread) where
  placed := h.placed
  saved t c allocated _ has := by
    by_cases was : current = some t
    · exact saves t c was has
    · exact keeps c (h.saved t c allocated was has)
  target := h.target

end Owned

/-! ### The scheduler -/

namespace Threading

/-- A thread runs on a context while the threads are in places, with those of `taken` taken from the ready list and not resumed yet. -/
structure Going (s : Threading) (thread context : Nat) (free running taken : List Nat) : Prop where
  current : s.current = some thread
  allocated : IsAllocated s.threads thread
  context : (s.threads.heap thread).context = some context
  owned : Owned s.threads s.contexts s.current
  placed : Placed (threadPlaces free running s.ready.toList (fun cv => (s.conds cv).toList) s.held) (· < threadPoolSize)
  resumes : s.scheduled = s.resumed ++ taken ++ s.ready.toList
  wakes : ∀ cv, s.waited cv = s.woken cv ++ (s.conds cv).toList

/-- The code of the thread runs. -/
def Live (s : Threading) (thread : Nat) : Prop := s.control = .code ∧ ∃ context, s.Going thread context s.threads.freeList [thread] []

variable {s t : Threading} {thread nextThread context w : Nat} {free running taken list : List Nat} {target : ThreadTarget}
  {ready : CircularQueue Nat threadListSize} {c : ThreadCall}

theorem threadCreate_ok (first : s.threads.freeList = w :: list) :
    s.threadCreate target = .ok ({ s with
      tid := s.tid + 1
      threads := { heap := update s.threads.heap w { tid := s.tid + 1, context := none, target }, freeList := list } }, w) := by
  rw [threadCreate, Pool.allocate, first]
  rfl

theorem threadCreate_abort (empty : s.threads.freeList = []) : s.threadCreate target = .error .abort := by
  rw [threadCreate, Pool.allocate, empty]

namespace Going

theorem next_allocated (h : s.Going thread context free (nextThread :: running) taken) (list : ∀ t ∈ s.threads.freeList, t ∈ free) :
    IsAllocated s.threads nextThread := by
  have mem : nextThread ∈ threadPlaces free (nextThread :: running) s.ready.toList (fun cv => (s.conds cv).toList) s.held .running :=
    List.mem_cons_self ..
  exact ⟨h.placed.thing mem, fun there => (h.placed.only mem).2 .free ThreadPlace.noConfusion (list _ there)⟩

theorem next_ne (h : s.Going thread context (thread :: free) (nextThread :: running) taken) : nextThread ≠ thread := fun is => by
  have mem : nextThread ∈ threadPlaces (thread :: free) (nextThread :: running) s.ready.toList (fun cv => (s.conds cv).toList) s.held .running :=
    List.mem_cons_self ..
  exact (h.placed.only mem).2 .free ThreadPlace.noConfusion (is ▸ List.mem_cons_self ..)

theorem withControl {control : ThreadControl} (h : s.Going thread context free running taken) :
    ({ s with control }).Going thread context free running taken := { h with }

/-- The first thread of the ready list is taken to run next. -/
theorem take (h : s.Going thread context free [] []) (popped : s.ready.pop = some ready) :
    ({ s with ready }).Going thread context free [s.ready.front] [s.ready.front] := by
  have placed := h.placed
  rw [CircularQueue.toList_of_pop popped] at placed
  have resumes : s.scheduled = s.resumed ++ [s.ready.front] ++ ready.toList := by
    rw [h.resumes, CircularQueue.toList_of_pop popped, List.append_nil, List.append_assoc]
    rfl
  exact { h with placed := ThreadPlace.run_ready placed, resumes }

theorem resume (h : s.Going thread context free running [nextThread]) :
    ({ s with resumed := s.resumed ++ [nextThread] }).Going thread context free running [] := by
  have resumes : s.scheduled = s.resumed ++ [nextThread] ++ [] ++ s.ready.toList := by rw [h.resumes, List.append_nil]
  exact { h with resumes }

/-- When none is ready a thread for `main_target` is created. -/
theorem create_main (h : s.Going thread context (thread :: s.threads.freeList) [] []) (first : s.threads.freeList = w :: list) :
    ({ s with
      tid := s.tid + 1
      threads := { heap := update s.threads.heap w { tid := s.tid + 1, context := none, target := .main }, freeList := list } }).Going
        thread context (thread :: list) [w] [] := by
  have ne : thread ≠ w := fun is => h.allocated.2 (first ▸ is ▸ List.mem_cons_self ..)
  refine { h with
    allocated := ⟨h.allocated.1, fun mem => h.allocated.2 (first ▸ List.mem_cons_of_mem _ mem)⟩
    context := by simp [ne, h.context]
    owned := h.owned.create first rfl
    placed := ThreadPlace.run_free h.placed ?_ }
  rw [first]
  exact List.Perm.swap ..

end Going

/-- The thread saves its context, and one that has saved its own goes on. -/
theorem threadSwap_spec (h : s.Going thread context s.threads.freeList [nextThread] []) (has : (s.threads.heap nextThread).context = some w) :
    ∃ t, s.threadSwap nextThread = .ok t ∧ t.Live nextThread ∧ t.resumed = s.resumed := by
  have allocated := h.next_allocated fun _ => id
  have saves : ∀ c, s.contexts.heap c = .saved → update s.contexts.heap context .saved c = .saved := fun c was => by
    simp [update_apply, was]
  have saved : update s.contexts.heap context .saved w = .saved := by
    by_cases is : w = context
    · rw [is, update_self]
    · refine saves w (h.owned.saved nextThread w allocated (fun same => is ?_) has)
      rw [h.current] at same
      rw [← Option.some.inj same, h.context] at has
      exact (Option.some.inj has).symm
  refine ⟨{ s with contexts := s.contexts.set context .saved, current := some nextThread, control := .code }, ?_, ⟨rfl, w, ?_⟩, rfl⟩
  · simp only [threadSwap, h.current, h.context, has, Option.isNone_some, Bool.false_eq_true, if_false, ok_bind, setCurrent, Pool.set, saved]
  · refine { h with current := rfl, allocated, context := has, owned := h.owned.resume saves fun t c was has' => ?_ }
    rw [h.current] at was
    rw [← Option.some.inj was, h.context] at has'
    rw [← Option.some.inj has', update_self]

/-- `_threadMain` runs a thread without a context on its own. -/
theorem threadMain_steal (h : s.Going thread context (thread :: s.threads.freeList) [nextThread] [])
    (bare : (s.threads.heap nextThread).context = none) :
    ∃ t, ((s.setContext nextThread (some context)).setContext thread none).threadDestroy thread = t ∧
      ({ t with current := some nextThread, control := (t.threads.heap nextThread).target.enter }).Live nextThread ∧ t.resumed = s.resumed := by
  have allocated := h.next_allocated fun _ => List.mem_cons_of_mem _
  have ne : nextThread ≠ thread := fun is => by
    rw [is, h.context] at bare
    cases bare
  let s' := (s.setContext nextThread (some context)).setContext thread none
  have gone : (s'.threads.heap thread).context = none := by
    show (update (s.setContext nextThread (some context)).threads.heap thread _ thread).context = none
    rw [update_self]
  have new : s'.threads.heap nextThread =
      { tid := (s.threads.heap nextThread).tid, context := some context, target := (s.threads.heap nextThread).target } :=
    (update_of_ne ne ..).trans (update_self ..)
  refine ⟨{ s' with threads := s'.threads.free thread }, by rw [threadDestroy, gone], ⟨?_, context, ?_⟩, rfl⟩
  · show (s'.threads.heap nextThread).target.enter = .code
    rw [new]
    exact h.owned.target nextThread allocated bare
  · have allocated' : IsAllocated (s'.threads.free thread) nextThread := ⟨allocated.1, fun mem => (List.mem_cons.mp mem).elim ne allocated.2⟩
    refine { h with current := rfl, allocated := allocated', context := congrArg Thread.context new, owned := ?_ }
    exact (h.current ▸ h.owned).steal h.allocated h.context allocated bare rfl

/-- `_threadMain` destroys its thread and sets the context of the next. -/
theorem threadSwitch_spec (h : s.Going thread context (thread :: s.threads.freeList) [nextThread] [])
    (has : (s.threads.heap nextThread).context = some w) :
    ∃ t, s.threadSwitch nextThread = .ok t ∧ t.Live nextThread ∧ t.resumed = s.resumed := by
  have allocated := h.next_allocated fun _ => List.mem_cons_of_mem _
  have ne : nextThread ≠ thread := h.next_ne
  have notCurrent : s.current ≠ some nextThread := fun is => by
    rw [h.current] at is
    exact ne (Option.some.inj is).symm
  have saved := h.owned.saved nextThread w allocated notCurrent has
  refine ⟨{ s with contexts := s.contexts.free context, threads := s.threads.free thread, current := some nextThread, control := .code },
    ?_, ⟨rfl, w, ?_⟩, rfl⟩
  · rw [threadSwitch, if_neg notCurrent]
    simp only [h.current, threadDestroy, h.context, Pool.free, has, Option.isNone_some, Bool.false_eq_true, if_false, ok_bind, setCurrent, saved]
  · have allocated' : IsAllocated (s.threads.free thread) nextThread := ⟨allocated.1, fun mem => (List.mem_cons.mp mem).elim ne allocated.2⟩
    exact { h with current := rfl, allocated := allocated', context := has, owned := (h.current ▸ h.owned).destroy h.allocated h.context }

/-- The end of a pass of `_threadMain`, in both cases. -/
theorem threadMain_to (h : s.Going thread context (thread :: s.threads.freeList) [nextThread] []) :
    ∃ t, (if (s.threads.heap nextThread).context.isSome then ({ s with control := .threadMain none }).threadSwitch nextThread
      else
        let s := ((s.setContext nextThread (some context)).setContext thread none).threadDestroy thread
        .ok { s with current := some nextThread, control := (s.threads.heap nextThread).target.enter } : ThreadRes Threading) = .ok t ∧
      t.Live nextThread ∧ t.resumed = s.resumed := by
  cases has : (s.threads.heap nextThread).context with
  | some w =>
    have h' : ({ s with control := .threadMain none } : Threading).Going thread context (thread :: s.threads.freeList) [nextThread] [] := h.withControl
    obtain ⟨t, switched, live, resumed⟩ := threadSwitch_spec h' has
    exact ⟨t, switched, live, resumed⟩
  | none =>
    obtain ⟨t, is, live, resumed⟩ := threadMain_steal h has
    rw [is]
    exact ⟨_, rfl, live, resumed⟩

/-- The code of a thread runs, which may have been taken from the ready list; or the pool has too few threads. -/
def Goes (s : Threading) (result : ThreadRes Threading) : Prop :=
  (∃ t, result = .ok t ∧ ∃ thread, t.Live thread ∧ (t.resumed = s.resumed ∨ t.resumed = s.resumed ++ [thread])) ∨
    result = .error .abort ∧ s.threads.freeList.length < 2

theorem threadMain_some (h : s.Going thread context (thread :: s.threads.freeList) [nextThread] [nextThread]) :
    ∃ t, s.threadMain (some nextThread) = .ok t ∧ t.Live nextThread ∧ t.resumed = s.resumed ++ [nextThread] := by
  rw [threadMain, h.current]
  dsimp only
  rw [h.context]
  exact threadMain_to h.resume

/-- A pass of `_threadMain` that has to find a thread. -/
theorem threadMain_none (h : s.Going thread context (thread :: s.threads.freeList) [] []) :
    (∃ t, s.threadMain none = .ok t ∧ ∃ thread, t.Live thread ∧ (t.resumed = s.resumed ∨ t.resumed = s.resumed ++ [thread])) ∨
      s.threadMain none = .error .abort ∧ s.threads.freeList = [] := by
  rw [threadMain, h.current]
  dsimp only
  rw [h.context]
  dsimp only
  rw [threadGetRunnable]
  cases popped : s.ready.pop with
  | some ready =>
    obtain ⟨t, goes, live, resumed⟩ := threadMain_to (h.take popped).resume
    exact .inl ⟨t, goes, _, live, .inr resumed⟩
  | none =>
    cases first : s.threads.freeList with
    | nil =>
      rw [threadCreate_abort first]
      exact .inr ⟨rfl, rfl⟩
    | cons w list =>
      rw [threadCreate_ok first]
      obtain ⟨t, goes, live, resumed⟩ := threadMain_to (h.create_main first)
      exact .inl ⟨t, goes, w, live, .inl resumed⟩

theorem untilCode_code {passes : Nat} (code : s.control = .code) : untilCode passes s = .ok s := by
  cases passes <;> simp only [untilCode, code]

theorem untilCode_main {nextThread : Option Nat} (main : s.control = .threadMain nextThread) :
    untilCode 1 s = (s.threadMain nextThread).bind (untilCode 0) := by
  rw [untilCode.eq_def]
  simp only [main]

/-- A thread for `_threadMain` is created and swapped to. -/
theorem threadSwap_new (nextThread : Option Nat) (h : s.Going thread context s.threads.freeList running taken)
    (first : s.threads.freeList = w :: list) :
    ∃ t context', (s.threadCreate (.threadMain nextThread) >>= fun r => r.1.threadSwap r.2) = .ok t ∧
      t.Going w context' (w :: t.threads.freeList) running taken ∧ t.control = .threadMain nextThread ∧ t.resumed = s.resumed ∧
        t.threads.freeList = list := by
  obtain ⟨fresh, d, rest, firstContext, room⟩ := h.owned.next h.placed first
  have ne : thread ≠ w := fun is => h.allocated.2 (first ▸ is ▸ List.mem_cons_self ..)
  have apart : d ≠ context := fun is => h.owned.not_free h.allocated h.context (firstContext ▸ is ▸ List.mem_cons_self ..)
  refine ⟨{ s with
    tid := s.tid + 1
    threads := { heap := update s.threads.heap w { tid := s.tid + 1, context := some d, target := .threadMain nextThread }, freeList := list }
    contexts := { heap := update (update s.contexts.heap d (.start (.threadMain nextThread))) context .saved, freeList := rest }
    current := some w
    control := .threadMain nextThread }, d, ?_, ?_, rfl, rfl, rfl⟩
  · rw [threadCreate_ok first, ok_bind]
    simp only [threadSwap, h.current, update_of_ne ne, h.context, update_self, Option.isNone_none, if_true, threadMakeContext,
      Pool.allocate, firstContext, room, ok_bind, setCurrent, setContext, Pool.set, update_idem, update_of_ne apart,
      ThreadTarget.enter]
  · constructor
    · rfl
    · exact fresh
    · show (update s.threads.heap w _ w).context = _
      rw [update_self]
    · refine h.owned.spawn first fresh firstContext (fun c ne was => ?_) fun t c was has => ?_
      · by_cases is : c = context
        · rw [is, update_self]
        · rw [update_of_ne is, update_of_ne ne, was]
      · rw [h.current] at was
        rw [← Option.some.inj was, h.context] at has
        rw [← Option.some.inj has, update_self]
    · exact first ▸ h.placed
    · exact h.resumes
    · exact h.wakes

/-- A thread that is in some list or held gives up the processor. -/
theorem threadYieldTo_spec (h : s.Going thread context s.threads.freeList [] []) : s.Goes (s.threadYieldTo.bind (untilCode 1)) := by
  by_cases pos : 0 < s.ready.size
  · obtain ⟨ready, popped⟩ := CircularQueue.pop_of_pos pos
    rw [threadYieldTo, if_pos pos, threadGetRunnable, popped]
    dsimp only
    rw [ok_bind]
    dsimp only
    have taken := h.take popped
    cases has : (s.threads.heap s.ready.front).context with
    | some w =>
      obtain ⟨t, swapped, live, resumed⟩ := threadSwap_spec taken.resume has
      rw [if_neg (show ¬(some w).isNone = true from Bool.false_ne_true), swapped]
      exact .inl ⟨t, untilCode_code live.1, _, live, .inr resumed⟩
    | none =>
      rw [if_pos (show (none : Option Nat).isNone = true from rfl)]
      cases first : s.threads.freeList with
      | nil =>
        rw [threadCreate_abort (s := { s with ready }) first]
        exact .inr ⟨rfl, first ▸ Nat.two_pos⟩
      | cons w list =>
        obtain ⟨t, d, swapped, going, control, resumed, -⟩ := threadSwap_new (some s.ready.front) taken first
        obtain ⟨u, passed, live, resumed'⟩ := threadMain_some going
        rw [swapped]
        refine .inl ⟨u, ?_, _, live, .inr (resumed'.trans (congrArg (· ++ _) resumed))⟩
        show untilCode 1 t = .ok u
        rw [untilCode_main control, passed]
        exact untilCode_code live.1
  · rw [threadYieldTo, if_neg pos]
    cases first : s.threads.freeList with
    | nil =>
      rw [threadCreate_abort first]
      exact .inr ⟨rfl, first ▸ Nat.two_pos⟩
    | cons w list =>
      obtain ⟨t, d, swapped, going, control, resumed, freeList⟩ := threadSwap_new none h first
      rw [swapped]
      show s.Goes (untilCode 1 t)
      rw [untilCode_main control]
      rcases threadMain_none going with ⟨u, passed, n, live, resumed'⟩ | ⟨aborted, empty⟩
      · rw [passed]
        exact .inl ⟨u, untilCode_code live.1, n, live, resumed ▸ resumed'⟩
      · rw [aborted]
        refine .inr ⟨rfl, ?_⟩
        rw [first, ← freeList, empty]
        exact Nat.one_lt_two

/-! ### Calls -/

structure Inv (s : Threading) : Prop where
  code : s.control = .code
  owned : Owned s.threads s.contexts s.current
  placed : Placed s.threadsAt (· < threadPoolSize)
  resumes : s.scheduled = s.resumed ++ s.ready.toList
  wakes : ∀ cv, s.waited cv = s.woken cv ++ (s.conds cv).toList

theorem Live.current (h : s.Live thread) : s.current = some thread := h.2.choose_spec.current

theorem Live.inv (h : s.Live thread) : s.Inv := by
  obtain ⟨code, context, going⟩ := h
  have placed := going.placed
  have resumes := going.resumes
  rw [List.append_nil] at resumes
  have is : s.current.toList = [thread] := by rw [going.current]; rfl
  rw [← is] at placed
  exact ⟨code, going.owned, placed, resumes, going.wakes⟩

theorem Live.mem (h : s.Live thread) : thread ∈ s.threadsAt .running := by
  show thread ∈ s.current.toList
  rw [h.current]
  exact List.mem_singleton.mpr rfl

theorem toList_update (conds : Nat → CircularQueue Nat threadListSize) (cv : Nat) (q : CircularQueue Nat threadListSize) :
    (fun cv' => (update conds cv q cv').toList) = update (fun cv => (conds cv).toList) cv q.toList :=
  funext fun _ => Function.apply_update (fun _ (q : CircularQueue Nat threadListSize) => q.toList) ..

namespace Inv

theorem going (h : s.Inv) (current : s.current = some thread) (has : (s.threads.heap thread).context = some context) :
    s.Going thread context s.threads.freeList [thread] [] := by
  have mem : thread ∈ s.threadsAt .running := by
    show thread ∈ s.current.toList
    rw [current]
    exact List.mem_singleton.mpr rfl
  have placed : Placed (threadPlaces s.threads.freeList s.current.toList s.ready.toList (fun cv => (s.conds cv).toList) s.held) (· < threadPoolSize) := h.placed
  rw [current] at placed
  exact ⟨current, ⟨h.placed.thing mem, (h.placed.only mem).2 .free ThreadPlace.noConfusion⟩, has, h.owned, placed, by rw [h.resumes, List.append_nil], h.wakes⟩

theorem live (h : s.Inv) (current : s.current = some thread) (has : (s.threads.heap thread).context = some context) : s.Live thread :=
  ⟨h.code, context, h.going current has⟩

theorem create (h : s.Inv) (first : s.threads.freeList = w :: list) (code : target.enter = .code) :
    ({ s with
      tid := s.tid + 1
      threads := { heap := update s.threads.heap w { tid := s.tid + 1, context := none, target }, freeList := list }
      held := w :: s.held }).Inv := by
  have placed : Placed (threadPlaces s.threads.freeList s.current.toList s.ready.toList (fun cv => (s.conds cv).toList) s.held) (· < threadPoolSize) := h.placed
  rw [first] at placed
  exact { h with owned := h.owned.create first code, placed := ThreadPlace.create placed }

/-- There is room in the ready list for a thread that is not in it. -/
theorem push_ready (h : s.Inv) (lt : thread < threadPoolSize) (notReady : thread ∉ s.ready.toList) :
    ∃ ready, s.ready.push thread = some ready ∧ ready.toList = s.ready.toList ++ [thread] := by
  obtain ⟨place, mem⟩ := h.placed.somewhere lt
  have other : ThreadPlace.ready ≠ place := fun is => by
    rw [← is] at mem
    exact notReady mem
  have room : s.ready.toList.length < threadPoolSize := h.placed.length_lt mem other
  rw [CircularQueue.length_toList] at room
  exact CircularQueue.toList_push room

theorem schedule (h : s.Inv) (mem : thread ∈ s.held) (pushed : ready.toList = s.ready.toList ++ [thread]) :
    ({ s with ready, scheduled := s.scheduled ++ [thread], held := s.held.erase thread }).Inv := by
  have placed := ThreadPlace.schedule h.placed mem
  rw [← pushed] at placed
  have resumes : s.scheduled ++ [thread] = s.resumed ++ ready.toList := by rw [h.resumes, pushed, List.append_assoc]
  exact { h with placed, resumes }

theorem wake {waiting : CircularQueue Nat threadListSize} (h : s.Inv) (first : (s.conds cv).toList = thread :: waiting.toList)
    (pushed : ready.toList = s.ready.toList ++ [thread]) :
    ({ s with
      ready
      scheduled := s.scheduled ++ [thread]
      conds := update s.conds cv waiting
      woken := update s.woken cv (s.woken cv ++ [thread]) }).Inv where
  code := h.code
  owned := h.owned
  placed := by
    have moved := @ThreadPlace.wake _ _ _ _ _ _ thread cv _ h.placed first
    rw [← pushed, ← toList_update] at moved
    exact moved
  resumes := by
    show s.scheduled ++ [thread] = s.resumed ++ ready.toList
    rw [h.resumes, pushed, List.append_assoc]
  wakes cv' := by
    show s.waited cv' = update s.woken cv (s.woken cv ++ [thread]) cv' ++ (update s.conds cv waiting cv').toList
    by_cases is : cv' = cv
    · rw [is, update_self, update_self, h.wakes, first, List.append_assoc]
      rfl
    · rw [update_of_ne is, update_of_ne is, h.wakes]

/-- A thread that may be scheduled is held, or waits on a condition variable. -/
theorem held_or_waiting (h : s.Inv) (documented : s.Documented (.schedule thread)) : thread ∈ s.held ∨ ∃ cv, thread ∈ (s.conds cv).toList := by
  obtain ⟨⟨lt, notFree⟩, notCurrent, notReady⟩ := documented
  obtain ⟨place, mem⟩ := h.placed.somewhere lt
  cases place with
  | free => exact absurd mem notFree
  | running => exact absurd (Option.mem_toList.mp mem) notCurrent
  | ready => exact absurd mem notReady
  | waiting cv => exact .inr ⟨cv, mem⟩
  | held => exact .inl mem

end Inv

theorem Goes.congr (h : t.Goes r) (resumed : t.resumed = s.resumed) (threads : t.threads = s.threads) : s.Goes r := by
  rw [Goes, resumed, threads] at h
  exact h

/-- The first thread that waits is made ready, and the caller goes on. -/
theorem condNotify_spec (cv : Nat) (h : s.Live thread) :
    ∃ t, s.condNotify cv = .ok t ∧ t.Live thread ∧ t.resumed = s.resumed := by
  obtain ⟨-, context, going⟩ := id h
  rw [condNotify]
  cases popped : (s.conds cv).pop with
  | none => exact ⟨s, rfl, h, rfl⟩
  | some waiting =>
    have first := CircularQueue.toList_of_pop popped
    have mem : (s.conds cv).front ∈ s.threadsAt (.waiting cv) := by
      show _ ∈ (s.conds cv).toList
      rw [first]
      exact List.mem_cons_self ..
    obtain ⟨ready, pushed, list⟩ := h.inv.push_ready (h.inv.placed.thing mem) ((h.inv.placed.only mem).2 .ready ThreadPlace.noConfusion)
    dsimp only
    rw [threadSchedule, pushed]
    exact ⟨_, rfl, (h.inv.wake first list).live going.current going.context, rfl⟩

theorem condNotifyAll_spec (cv : Nat) : ∀ (size : Nat) {s : Threading}, s.Live thread →
    ∃ t, condNotifyAll cv size s = .ok t ∧ t.Live thread ∧ t.resumed = s.resumed
  | 0, s, h => ⟨s, rfl, h, rfl⟩
  | size + 1, s, h => by
    obtain ⟨t, notified, live, resumed⟩ := condNotify_spec cv h
    obtain ⟨u, all, live', resumed'⟩ := condNotifyAll_spec cv size live
    rw [condNotifyAll, notified]
    exact ⟨u, all, live', resumed'.trans resumed⟩

theorem goes_of_call (called : s.call c = .ok t) (live : t.Live thread) (resumed : t.resumed = s.resumed) : s.Goes (s.step c) := by
  rw [step, called]
  exact .inl ⟨t, untilCode_code live.1, thread, live, .inl resumed⟩

theorem create_spec (h : s.Live thread) : s.Goes (s.step (.create n)) := by
  obtain ⟨-, context, going⟩ := id h
  cases first : s.threads.freeList with
  | nil =>
    rw [step, call, threadCreate_abort first]
    exact .inr ⟨rfl, first ▸ Nat.two_pos⟩
  | cons w list =>
    have ne : thread ≠ w := fun is => going.allocated.2 (first ▸ is ▸ List.mem_cons_self ..)
    have code : (ThreadTarget.user n).enter = .code := rfl
    have live := (h.inv.create first code).live going.current (by
      show (update s.threads.heap w _ thread).context = _
      rw [update_of_ne ne, going.context])
    refine goes_of_call ?_ live rfl
    rw [call, threadCreate_ok first]
    rfl

theorem schedule_ok (h : s.Inv) (documented : s.Documented (.schedule nextThread)) : ∃ ready,
    ready.toList = s.ready.toList ++ [nextThread] ∧
      s.step (.schedule nextThread) = .ok { s with ready, scheduled := s.scheduled ++ [nextThread], held := s.held.erase nextThread } := by
  obtain ⟨ready, pushed, list⟩ := h.push_ready documented.1.1 documented.2.2
  refine ⟨ready, list, ?_⟩
  rw [step, call, threadSchedule, pushed]
  exact untilCode_code h.code

theorem yield_spec {runnable : Bool} (h : s.Live thread) : s.Goes (s.step (.yield runnable)) := by
  obtain ⟨-, context, going⟩ := id h
  cases runnable with
  | false =>
    have parked : ({ s with held := thread :: s.held }).Going thread context s.threads.freeList [] [] :=
      { going with placed := ThreadPlace.park_held going.placed }
    have yields : s.call (.yield false) = ({ s with held := thread :: s.held }).threadYieldTo := by
      rw [call, threadYield]
      dsimp only
      rw [going.current]
      rfl
    rw [step, yields]
    exact Goes.congr (threadYieldTo_spec parked) rfl rfl
  | true =>
    by_cases pos : 0 < s.ready.size
    · have notReady : thread ∉ s.ready.toList := (h.inv.placed.only h.mem).2 .ready ThreadPlace.noConfusion
      obtain ⟨ready, pushed, list⟩ := h.inv.push_ready going.allocated.1 notReady
      have placed := ThreadPlace.park_ready going.placed
      rw [← list] at placed
      have resumes : s.scheduled ++ [thread] = s.resumed ++ [] ++ ready.toList := by rw [going.resumes, list, List.append_assoc]
      have parked : ({ s with ready, scheduled := s.scheduled ++ [thread] }).Going thread context s.threads.freeList [] [] :=
        { going with placed, resumes }
      rw [step, call, threadYield, going.current]
      dsimp only
      rw [if_pos rfl, if_pos pos, threadSchedule, pushed]
      exact Goes.congr (threadYieldTo_spec parked) rfl rfl
    · refine goes_of_call ?_ h rfl
      rw [call, threadYield, going.current]
      dsimp only
      rw [if_pos rfl, if_neg pos]

theorem condWait_eq {waiting : CircularQueue Nat threadListSize} (current : s.current = some thread)
    (pushed : (s.conds cv).push thread = some waiting) :
    s.condWait cv = ({ s with
      conds := update s.conds cv waiting
      waited := update s.waited cv (s.waited cv ++ [thread]) }).threadYieldTo := by
  rw [condWait, current]
  dsimp only
  rw [pushed, threadYield]
  rfl

theorem wait_spec (h : s.Live thread) : s.Goes (s.step (.wait cv)) := by
  obtain ⟨-, context, going⟩ := id h
  have room : (s.conds cv).toList.length < threadPoolSize :=
    h.inv.placed.length_lt (b := ThreadPlace.waiting cv) h.mem ThreadPlace.noConfusion
  rw [CircularQueue.length_toList] at room
  obtain ⟨waiting, pushed, list⟩ := @CircularQueue.toList_push _ _ _ thread room
  let s' : Threading := { s with
    conds := update s.conds cv waiting
    waited := update s.waited cv (s.waited cv ++ [thread]) }
  have lists : (fun cv' => (update s.conds cv waiting cv').toList) =
      update (fun cv => (s.conds cv).toList) cv ((s.conds cv).toList ++ [thread]) := by
    rw [← list]
    exact toList_update ..
  have placed := @ThreadPlace.park_waiting _ _ _ _ _ _ cv going.placed
  rw [← lists] at placed
  have wakes : ∀ cv', s'.waited cv' = s'.woken cv' ++ (s'.conds cv').toList := fun cv' => by
    show update s.waited cv (s.waited cv ++ [thread]) cv' = s.woken cv' ++ (update s.conds cv waiting cv').toList
    by_cases is : cv' = cv
    · rw [is, update_self, update_self, going.wakes, list, List.append_assoc]
    · rw [update_of_ne is, update_of_ne is, going.wakes]
  have parked : s'.Going thread context s.threads.freeList [] [] := { going with placed, wakes }
  have yields : s.call (.wait cv) = s'.threadYieldTo := condWait_eq going.current pushed
  rw [step, yields]
  exact Goes.congr (threadYieldTo_spec parked) rfl rfl

theorem finish_spec (h : s.Live thread) : s.Goes (s.step .finish) := by
  obtain ⟨-, context, going⟩ := id h
  have leaving : ({ s with control := .threadMain none }).Going thread context (thread :: s.threads.freeList) [] [] :=
    { going with placed := ThreadPlace.finish going.placed }
  have passes : s.step .finish = (({ s with control := .threadMain none }).threadMain none).bind (untilCode 0) := untilCode_main rfl
  rw [passes]
  rcases threadMain_none leaving with ⟨t, passed, n, live, resumed⟩ | ⟨aborted, empty⟩
  · rw [passed]
    exact .inl ⟨t, untilCode_code live.1, n, live, resumed⟩
  · rw [aborted]
    have empty : s.threads.freeList = [] := empty
    exact .inr ⟨rfl, empty ▸ Nat.two_pos⟩

theorem schedule_spec (h : s.Live thread) (documented : s.Documented (.schedule nextThread)) (notWaiting : s.NotWaiting (.schedule nextThread)) :
    s.Goes (s.step (.schedule nextThread)) := by
  obtain ⟨-, context, going⟩ := id h
  obtain ⟨ready, pushed, stepped⟩ := schedule_ok h.inv documented
  have held : nextThread ∈ s.held := (h.inv.held_or_waiting documented).resolve_right fun ⟨cv, mem⟩ => notWaiting cv mem
  exact .inl ⟨_, stepped, thread, (h.inv.schedule held pushed).live going.current going.context, .inl rfl⟩

/-- Every call that schedules no waiting thread ends with the code of a thread, or without threads in the pool. -/
theorem step_spec (h : s.Live thread) (documented : s.Documented c) (notWaiting : s.NotWaiting c) : s.Goes (s.step c) := by
  cases c with
  | create n => exact create_spec h
  | schedule nextThread => exact schedule_spec h documented notWaiting
  | yield runnable => exact yield_spec h
  | wait cv => exact wait_spec h
  | notify cv =>
    obtain ⟨t, notified, live, resumed⟩ := condNotify_spec cv h
    exact goes_of_call notified live resumed
  | notifyAll cv =>
    obtain ⟨t, notified, live, resumed⟩ := condNotifyAll_spec cv (s.conds cv).size h
    exact goes_of_call notified live resumed
  | finish => exact finish_spec h

/-- What is sound when the code of a thread runs, the next call included. -/
theorem Live.sound (h : s.Live thread) : s.Sound where
  placed := h.inv.placed
  runs := by
    rw [h.current]
    exact Option.some_ne_none _
  contexts _ _ _ allocated allocated' has has' := h.inv.owned.unique allocated allocated' has has'
  resumes := h.inv.resumes
  wakes := h.inv.wakes
  goesOn c documented := by
    cases c with
    | schedule nextThread =>
      obtain ⟨ready, -, stepped⟩ := schedule_ok h.inv documented
      exact .inl ⟨_, stepped, .inl rfl⟩
    | _ =>
      rcases step_spec h documented trivial with ⟨t, stepped, n, live, resumed⟩ | aborted
      · exact .inl ⟨t, stepped, resumed.imp_right fun is => ⟨n, is, live.current⟩⟩
      · exact .inr aborted

/-! ### Runs -/

/-- Before the start there is no current thread, and none waits. -/
structure Pre (s : Threading) : Prop where
  inv : s.Inv
  current : s.current = none
  waiting : ∀ cv, (s.conds cv).toList = []

theorem pre_init : init.Pre := by
  refine ⟨⟨rfl, ⟨.of_all (a := none) ?_ fun b ne => ?_, fun t c _ _ has => ?_, fun t _ _ => rfl⟩, .of_all (a := ThreadPlace.free) ?_ fun place ne => ?_,
    rfl, fun _ => rfl⟩, rfl, fun _ => rfl⟩
  · simp only [contextPlaces, init, Pool.init]
  · cases b with
    | none => exact absurd rfl ne
    | some t =>
      show owns init.threads t = []
      rw [owns, init, Pool.init, Option.toList_none, ite_self]
  · cases has
  · simp only [threadsAt, threadPlaces, init, Pool.init]
  · cases place with
    | free => exact absurd rfl ne
    | _ => rfl

theorem pre_step (h : s.Pre) (before : s.BeforeStart c) (stepped : s.next c = some t) : t.Pre := by
  have stepped := toOption_eq_some.mp stepped
  cases c with
  | create n =>
    cases first : s.threads.freeList with
    | nil =>
      rw [step, call, threadCreate_abort first] at stepped
      cases stepped
    | cons w list =>
      have code : (ThreadTarget.user n).enter = .code := rfl
      have inv := h.inv.create first code
      rw [step, call, threadCreate_ok first] at stepped
      cases (untilCode_code inv.code).symm.trans stepped
      exact ⟨inv, h.current, h.waiting⟩
  | schedule nextThread =>
    have held : nextThread ∈ s.held := (h.inv.held_or_waiting before).resolve_right fun ⟨cv, mem⟩ => by
      rw [h.waiting cv] at mem
      exact List.not_mem_nil mem
    obtain ⟨ready, pushed, scheduled⟩ := schedule_ok h.inv before
    cases scheduled.symm.trans stepped
    exact ⟨h.inv.schedule held pushed, h.current, h.waiting⟩
  | _ => exact before.elim

/-- The first thread runs `_threadMain`, which finds another one. -/
theorem threadingStart_spec (h : s.Pre) : s.Goes s.threadingStart := by
  cases first : s.threads.freeList with
  | nil =>
    rw [threadingStart, threadCreate_abort first]
    exact .inr ⟨rfl, first ▸ Nat.two_pos⟩
  | cons w list =>
    obtain ⟨fresh, d, rest, firstContext, room⟩ := h.inv.owned.next h.inv.placed first
    let t : Threading := { s with
      tid := s.tid + 1
      threads := { heap := update s.threads.heap w { tid := s.tid + 1, context := some d, target := .threadMain none }, freeList := list }
      contexts := { heap := update s.contexts.heap d (.start (.threadMain none)), freeList := rest }
      current := some w
      control := .threadMain none }
    have started : s.threadingStart = untilCode 1 t := by
      rw [threadingStart, threadCreate_ok first, ok_bind]
      simp only [threadSwitch, h.current, reduceCtorEq, if_false, update_self, Option.isNone_none, if_true, threadMakeContext,
        Pool.allocate, firstContext, room, ok_bind, setCurrent, setContext, Pool.set, update_idem, ThreadTarget.enter]
      rfl
    have going : t.Going w d (w :: t.threads.freeList) [] [] := by
      constructor
      · rfl
      · exact fresh
      · show (update s.threads.heap w _ w).context = _
        rw [update_self]
      · refine h.inv.owned.spawn first fresh firstContext (fun c ne was => ?_) fun t c was => ?_
        · rw [update_of_ne ne, was]
        · rw [h.current] at was
          cases was
      · have placed : Placed (threadPlaces s.threads.freeList s.current.toList s.ready.toList (fun cv => (s.conds cv).toList) s.held)
          (· < threadPoolSize) := h.inv.placed
        rw [first, h.current] at placed
        exact placed
      · exact h.inv.resumes.trans (by rw [List.append_nil])
      · exact h.inv.wakes
    rw [started, untilCode_main rfl]
    rcases threadMain_none going with ⟨u, passed, n, live, resumed⟩ | ⟨aborted, empty⟩
    · rw [passed]
      exact .inl ⟨u, untilCode_code live.1, n, live, resumed⟩
    · rw [aborted]
      have empty : list = [] := empty
      refine .inr ⟨rfl, ?_⟩
      rw [first, empty]
      exact Nat.one_lt_two

theorem run_pre : ∀ {calls : List ThreadCall} {s t : Threading}, s.Pre → Guarded BeforeStart next s calls → run next s calls = some t → t.Pre
  | [], _, _, h, _, ran => Option.some.inj ran ▸ h
  | c :: calls, s, t, h, ⟨allowed, later⟩, ran => by
    obtain ⟨u, stepped, rest⟩ := Option.bind_eq_some_iff.mp ran
    exact run_pre (pre_step h allowed stepped) (later u stepped) rest

/-- A thread that is scheduled while it waits is in two lists. -/
theorem waiting_twice (h : s.Live thread) (documented : s.Documented c) (waits : ¬s.NotWaiting c) :
    ∃ t, s.next c = some t ∧ ¬t.Sound := by
  cases c with
  | schedule nextThread =>
    obtain ⟨ready, pushed, stepped⟩ := schedule_ok h.inv documented
    obtain ⟨cv, mem⟩ := not_forall_not.mp waits
    refine ⟨_, toOption_eq_some.mpr stepped, fun sound => ?_⟩
    refine (@Placed.only _ _ _ _ _ nextThread .ready sound.placed ?_).2 (.waiting cv) ThreadPlace.noConfusion mem
    show nextThread ∈ ready.toList
    rw [pushed]
    exact List.mem_append_right _ (List.mem_singleton.mpr rfl)
  | _ => exact absurd trivial waits

/-- Threads that were created and scheduled are started, unless the pool has too few. In a run of calls that schedule only threads that are
    not runnable the threads are sound, exactly when no thread is scheduled that waits on a condition variable. -/
theorem threads_are_sound_iff (before : List ThreadCall) (s : Threading) (only : Guarded BeforeStart next init before)
    (reached : run next init before = some s) :
    (∃ t, s.threadingStart = .ok t ∧ ∀ calls, Guarded Documented next t calls →
      (Throughout Sound next t calls ↔ Guarded NotWaiting next t calls)) ∨
    s.threadingStart = .error .abort ∧ s.threads.freeList.length < 2 := by
  rcases threadingStart_spec (run_pre pre_init only reached) with ⟨t, started, thread, live, -⟩ | aborted
  · refine .inl ⟨t, started, fun calls documented => ?_⟩
    have sound : ∀ s : Threading, (∃ thread, s.Live thread) → s.Sound := fun s ⟨thread, live⟩ => live.sound
    refine throughout_iff_guarded sound ?_ ?_ ⟨thread, live⟩ documented
    · rintro s c t ⟨thread, live⟩ documented notWaiting stepped
      rcases step_spec live documented notWaiting with ⟨t', stepped', n, live', -⟩ | ⟨aborted, -⟩
      · cases stepped'.symm.trans (toOption_eq_some.mp stepped)
        exact ⟨n, live'⟩
      · cases aborted.symm.trans (toOption_eq_some.mp stepped)
    · rintro s c ⟨thread, live⟩ documented waits
      exact waiting_twice live documented waits
  · exact .inr aborted

/-- A thread waits, the one that runs then wakes it, yields to it, and ends after it has been suspended. -/
def handingOver : List ThreadCall := [.create 8, .wait 0, .notify 0, .yield true, .yield false, .finish]

theorem run_handingOver : ((run next init [.create 7, .schedule 127]).bind fun s => s.threadingStart.toOption.bind fun t =>
    (run next t handingOver).map fun u => (t.current, u.current, u.resumed, u.held)) =
      some (some 127, some 125, [127, 127, 124], [127, 126]) := by decide +kernel

theorem threads_are_sound_from_start : ∃ s t u, run next init [.create 7, .schedule 127] = some s ∧ s.threadingStart = .ok t ∧
    run next t handingOver = some u ∧ u.resumed = [127, 127, 124] ∧ Throughout Sound next t handingOver := by
  obtain ⟨s, created, rest⟩ := Option.bind_eq_some_iff.mp run_handingOver
  obtain ⟨t, started, rest⟩ := Option.bind_eq_some_iff.mp rest
  obtain ⟨u, ran, seen⟩ := Option.map_eq_some_iff.mp rest
  simp only [Prod.mk.injEq] at seen
  have documented : checkRun (fun s c => decide (BeforeStart s c)) next init [.create 7, .schedule 127] = true := by decide +kernel
  have starts := toOption_eq_some.mp started
  refine ⟨s, t, u, created, starts, ran, seen.2.2.1, ?_⟩
  rcases threads_are_sound_iff _ s (guarded_of_check (fun s c is => of_decide_eq_true is) init documented) created with
    ⟨t', started', sound⟩ | ⟨aborted, -⟩
  · cases starts.symm.trans started'
    -- none of the calls schedules a thread
    have plain : ∀ c ∈ handingOver, ∀ s : Threading, s.Documented c ∧ s.NotWaiting c := by simp [handingOver, Documented, NotWaiting]
    exact (sound _ (guarded_of_forall (fun c mem s => (plain c mem s).1) t)).mpr
      (guarded_of_forall (fun c mem s => (plain c mem s).2) t)
  · cases starts.symm.trans aborted

theorem waiting_thread_scheduled :
    ∃ s, init.threadingStart = .ok s ∧ Guarded Documented next s [.create 7, .schedule 127, .yield true, .wait 0, .schedule 127] ∧
      ∃ t, run next s [.create 7, .schedule 127, .yield true, .wait 0, .schedule 127] = some t ∧ 127 ∈ t.ready.toList ∧ 127 ∈ (t.conds 0).toList := by
  have checked : (init.threadingStart.toOption.any fun s =>
      checkRun (fun s c => decide (s.Documented c)) next s [.create 7, .schedule 127, .yield true, .wait 0, .schedule 127] &&
        (run next s [.create 7, .schedule 127, .yield true, .wait 0, .schedule 127]).any fun t =>
          decide (127 ∈ t.ready.toList ∧ 127 ∈ (t.conds 0).toList)) = true := by decide +kernel
  obtain ⟨s, started, both⟩ := (Option.any_eq_true _ _).mp checked
  obtain ⟨documented, last⟩ := Bool.and_eq_true_iff.mp both
  obtain ⟨t, ran, twice⟩ := (Option.any_eq_true _ _).mp last
  exact ⟨s, toOption_eq_some.mp started, guarded_of_check (fun s c is => of_decide_eq_true is) s documented, t, ran, of_decide_eq_true twice⟩

end Threading
end Faux
