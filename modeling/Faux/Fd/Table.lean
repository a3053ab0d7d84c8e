import Faux.Fs.Process
import Faux.Utilities.SpaceAlloc

/-! # The descriptor table

`libs/fd/fd.c` with its users in `libs/basicp` and the flattening of `sys/fs/lib/misc.cpp`. Entries are given by addresses that are
not used again, there is memory for them, and the requests to the file servers succeed. What the operating system answers is part
of an event. -/

namespace Faux
open Lib

/-- `FosFDEntry`; of the private data it matters whether it is of a pipe. -/
structure FosFdEntry where
  numFd : Nat
  isPipe : Bool

/-- `FosFDTable` with `fd_map` and the entries. `closed` records the calls of the close operation of entries. -/
structure FosFdTable where
  onceOnlyFds : List BitWord
  fdEntries : Nat → Option Nat
  allocState : SpaceAllocState
  fdMap : Nat → Slot
  heap : Nat → Option FosFdEntry
  nextEntry : Nat
  closed : List Nat

/-- `EXPANSION_SIZE`, for the initial size and for an expansion. -/
def fdTableSizes : SpaceSizes where
  initialSize := 1024
  expansionSize := 1024
  initialSome := by decide
  initialWords := by decide
  initialUnsigned := by decide
  expansionWords := by decide
  expansionUnsigned := by decide

namespace FosFdTable

def fdInitialize : FosFdTable where
  onceOnlyFds := [0#32]
  fdEntries _ := none
  allocState := .spaceAllocInit fdTableSizes true
  fdMap _ := .free
  heap _ := none
  nextEntry := 0
  closed := []

/-! ### Slots and entries -/

/-- `fdFindUnusedFD`, with what `realloc` gives for the bit array. Nothing is modelled of a table that has been expanded. -/
def fdFindUnusedFD (t : FosFdTable) (realloc : Option (Nat → BitWord)) : Res (FosFdTable × Option Nat) :=
  match t.allocState.spaceAllocAllocate realloc with
  | none => .error .undefined
  | some (allocState, none) => .ok ({ t with allocState }, none)
  | some (allocState, some result) =>
    if result < t.allocState.arraySize then .ok ({ t with allocState }, some result) else .error .undefined

def newEntry (t : FosFdTable) (fd : Nat) (isPipe : Bool) : FosFdTable :=
  { t with
    fdEntries := Function.update t.fdEntries fd (some t.nextEntry)
    heap := Function.update t.heap t.nextEntry (some { numFd := 1, isPipe })
    nextEntry := t.nextEntry + 1 }

/-- `fdCreate`: the slot, or that there is none. -/
def fdCreate (t : FosFdTable) (isPipe : Bool) (realloc : Option (Nat → BitWord)) : Res (FosFdTable × Option Nat) := do
  let (t, fd) ← t.fdFindUnusedFD realloc
  match fd with
  | none => .ok (t, none)
  | some fd => .ok (t.newEntry fd isPipe, some fd)

def fdFree (t : FosFdTable) (entry : Nat) : Res FosFdTable :=
  match t.heap entry with
  | none => .error .undefined
  | some e =>
    if e.numFd ≤ 1 then .ok { t with heap := Function.update t.heap entry none }
    else .ok { t with heap := Function.update t.heap entry (some { e with numFd := e.numFd - 1 }) }

/-- `spaceAllocRelease` of the allocation state. -/
def release (t : FosFdTable) (fd : Nat) : Res FosFdTable :=
  match t.allocState.spaceAllocRelease fd with
  | none => .error .undefined
  | some allocState => .ok { t with allocState }

/-- `fdDestroy`, whose result is not looked at. -/
def fdDestroy (t : FosFdTable) (fd : Nat) : Res FosFdTable :=
  if t.allocState.spaceAllocIsAllocated fd then
    match t.fdEntries fd with
    | none => .error .assertion
    | some entry => do
      let t := { t with fdEntries := Function.update t.fdEntries fd none }
      let t ← if bitarrayBitsPerInt ≤ fd ∨ fosBitArrayIsSet t.onceOnlyFds fd = false then t.release fd else .ok t
      t.fdFree entry
  else .ok t

/-- `fdGet`, where a null pointer fails the assertion of the caller: the address of the entry and the entry. -/
def fdGet (t : FosFdTable) (fd : Nat) : Res (Nat × FosFdEntry) :=
  if fd < t.allocState.arraySize then
    match t.fdEntries fd with
    | none => .error .assertion
    | some entry =>
      match t.heap entry with
      | none => .error .undefined
      | some e => .ok (entry, e)
  else .error .assertion

def fdDuplicate (t : FosFdTable) (file : Nat) (realloc : Option (Nat → BitWord)) : Res (FosFdTable × Nat) := do
  let (t, newfd) ← t.fdFindUnusedFD realloc
  match newfd with
  | none => .error .undefined
  | some newfd => do
    let t ← match t.fdEntries newfd with
      | none => .ok t
      | some entry => t.fdFree entry
    match t.heap file with
    | none => .error .undefined
    | some e =>
      .ok ({ t with
        heap := Function.update t.heap file (some { e with numFd := e.numFd + 1 })
        fdEntries := Function.update t.fdEntries newfd (some file) }, newfd)

def fdFlatten (t : FosFdTable) (fd entry : Nat) (e : FosFdEntry) : Res FosFdTable := do
  require (1 < e.numFd)
  .ok ({ t with heap := Function.update t.heap entry (some { e with numFd := e.numFd - 1 }) }.newEntry fd e.isPipe)

def fdOnceOnly (t : FosFdTable) (fd : Nat) : FosFdTable := { t with onceOnlyFds := fosBitArraySet t.onceOnlyFds fd }

def closeLast (t : FosFdTable) (entry : Nat) (e : FosFdEntry) : FosFdTable :=
  if e.numFd = 1 then { t with closed := t.closed ++ [entry] } else t

def setMap (t : FosFdTable) (fd : Nat) (slot : Slot) : FosFdTable := { t with fdMap := Function.update t.fdMap fd slot }

def fdSetInternal (t : FosFdTable) (fd internalfd : Nat) : FosFdTable := t.setMap fd (.internal internalfd)

def fdSetExternal (t : FosFdTable) (fd externalfd : Nat) : FosFdTable := t.setMap fd (.external externalfd)

def fdRemove (t : FosFdTable) (fd : Nat) : FosFdTable := t.setMap fd .free

/-- The loop of `fdAddInternal` and `fdAddExternal`. -/
def fdAdd (t : FosFdTable) (slot : Slot) : Res FosFdTable :=
  match (List.range fdCount).find? fun i => t.fdMap i = .free with
  | some i => .ok (t.setMap i slot)
  | none => .error .assertion

def fdAddInternal (t : FosFdTable) (fd : Nat) : Res FosFdTable := t.fdAdd (.internal fd)

def fdAddExternal (t : FosFdTable) (fd : Nat) : Res FosFdTable := t.fdAdd (.external fd)

def fdExt (t : FosFdTable) (fd : Nat) : Nat :=
  match t.fdMap fd with
  | .external n => n
  | _ => fd

/-! ### Calls -/

def openInternal (t : FosFdTable) (isPipe : Bool) (realloc : Option (Nat → BitWord)) : Res FosFdTable := do
  let (t, internalFd) ← t.fdCreate isPipe realloc
  match internalFd with
  | none => .ok t
  | some internalFd => t.fdAddInternal internalFd

def pipe2 (t : FosFdTable) (realloc : Option (Nat → BitWord)) : Res FosFdTable := do
  let (t, internalFdRead) ← t.fdCreate true realloc
  match internalFdRead with
  | none => .ok t
  | some internalFdRead => do
    let (t, internalFdWrite) ← t.fdCreate true realloc
    match internalFdWrite with
    | none => .ok t
    | some internalFdWrite => do
      let t ← t.fdAddInternal internalFdRead
      t.fdAddInternal internalFdWrite

def fsFlattenFdInternal (t : FosFdTable) (slot : Nat) : Res FosFdTable := do
  let (entry, e) ← t.fdGet slot
  if 1 < e.numFd then t.fdFlatten slot entry e else .ok t

def closeInt (t : FosFdTable) (fd slot : Nat) : Res FosFdTable := do
  let (entry, e) ← t.fdGet slot
  let t ← (t.closeLast entry e).fdDestroy slot
  .ok (t.fdRemove fd)

def close (t : FosFdTable) (fd : Nat) : Res FosFdTable :=
  if 2 < fd ∧ t.fdMap fd = .free then .ok t
  else
    match t.fdMap fd with
    | .internal slot => t.closeInt fd slot
    | _ => .ok (t.fdRemove fd)

/-- `__dup`; `real` is what `real_dup` returns, if it is not negative. -/
def dup (t : FosFdTable) (oldfd : Nat) (real : Option Nat) (realloc : Option (Nat → BitWord)) : Res FosFdTable :=
  match t.fdMap oldfd with
  | .internal slot => do
    let (file, e) ← t.fdGet slot
    let (t, newSlot) ← t.fdDuplicate file realloc
    let t ← t.fdAddInternal newSlot
    if e.isPipe then t.fsFlattenFdInternal newSlot else .ok t
  | _ =>
    match real with
    | some newfd => if 0 < newfd then t.fdAddExternal newfd else .ok t
    | none => .ok t

/-- `__dup2` onto a descriptor; `real` tells whether `real_dup2` succeeds. -/
def dup2 (t : FosFdTable) (oldfd newfd : Nat) (real : Bool) (realloc : Option (Nat → BitWord)) : Res FosFdTable :=
  match t.fdMap oldfd with
  | .internal oldSlot =>
    if oldfd = newfd then .ok t
    else do
      let (oldfile, _) ← t.fdGet oldSlot
      let t ←
        match t.fdMap newfd with
        | .internal newSlot => do
          let (newfile, e) ← t.fdGet newSlot
          let t ← (t.closeLast newfile e).fdDestroy newSlot
          .ok (t.fdRemove newfd)
        | .external _ => .ok (t.fdRemove newfd)
        | .free => .ok t
      let (t, slot) ← t.fdDuplicate oldfile realloc
      .ok (t.fdSetInternal newfd slot)
  | _ => do
    let t ←
      match t.fdMap newfd with
      | .internal _ => t.close newfd
      | _ => .ok t
    if t.fdExt oldfd = newfd then
      if oldfd = newfd then .ok (t.fdSetExternal newfd newfd)
      else .ok ((t.fdSetExternal newfd newfd).fdSetExternal oldfd oldfd)
    else if real then .ok (t.fdSetExternal newfd newfd)
    else .ok t

/-- What a process inherits: a descriptor is of the operating system, or of the file servers and maybe of a pipe. -/
inductive InheritedFd where
  | external (n : Nat)
  | internal (isPipe : Bool)

structure InheritedFds where
  fds : List (Nat × InheritedFd)
  inRange : ∀ p ∈ fds, p.1 < fdCount
  distinct : (fds.map Prod.fst).Nodup

def inheritFds (realloc : Option (Nat → BitWord)) : List (Nat × InheritedFd) → FosFdTable → Res FosFdTable
  | [], t => .ok t
  | (i, .external n) :: fds, t => inheritFds realloc fds (t.fdSetExternal i n)
  | (i, .internal isPipe) :: fds, t => do
    let (t, newInternalFd) ← t.fdCreate isPipe realloc
    match newInternalFd with
    | none => .error .assertion
    | some newInternalFd => inheritFds realloc fds (t.fdSetInternal i newInternalFd)

/-- `faux_init`: three slots are taken for good, and a process that inherits nothing has the three descriptors of the operating
    system. -/
def fauxInit (inherited : Option InheritedFds) (realloc : Option (Nat → BitWord)) : Res FosFdTable := do
  let (t, _) ← fdInitialize.fdCreate false realloc
  let (t, _) ← t.fdCreate false realloc
  let (t, _) ← t.fdCreate false realloc
  let t := ((t.fdOnceOnly 0).fdOnceOnly 1).fdOnceOnly 2
  match inherited with
  | some inherited => inheritFds realloc inherited.fds t
  | none => .ok (((t.fdSetExternal 0 0).fdSetExternal 1 1).fdSetExternal 2 2)

end FosFdTable

/-! ### Sequences of calls -/

inductive DescriptorEvent where
  | openInternal (isPipe : Bool)
  | openExternal (n : Nat)
  | pipe2
  | dup (oldfd : Nat) (real : Option Nat)
  | dup2 (oldfd newfd : Nat) (real : Bool)
  | flatten (fd : Nat)
  | close (fd : Nat)

/-- A call, with what `realloc` gives in it. -/
structure DescriptorCall where
  event : DescriptorEvent
  realloc : Option (Nat → BitWord)

namespace FosFdTable

def step (t : FosFdTable) (c : DescriptorCall) : Res FosFdTable :=
  match c.event with
  | .openInternal isPipe => t.openInternal isPipe c.realloc
  | .openExternal n => t.fdAddExternal n
  | .pipe2 => t.pipe2 c.realloc
  | .dup oldfd real => t.dup oldfd real c.realloc
  | .dup2 oldfd newfd real => t.dup2 oldfd newfd real c.realloc
  | .flatten fd =>
    match t.fdMap fd with
    | .internal slot => t.fsFlattenFdInternal slot
    | _ => .ok t
  | .close fd => t.close fd

def next (t : FosFdTable) (c : DescriptorCall) : Option FosFdTable := (t.step c).toOption

def unmapped (t : FosFdTable) : List Nat := (List.range fdCount).filter fun fd => t.fdMap fd = .free

def Allowed (t : FosFdTable) (c : DescriptorCall) : Prop :=
  match c.event with
  | .openInternal _ => 1 ≤ t.unmapped.length
  | .openExternal _ => 1 ≤ t.unmapped.length
  | .pipe2 => 2 ≤ t.unmapped.length
  | .dup oldfd _ => oldfd < fdCount ∧ 1 ≤ t.unmapped.length
  | .dup2 oldfd newfd _ => oldfd < fdCount ∧ newfd < fdCount
  | .flatten fd => fd < fdCount
  | .close fd => fd < fdCount

instance (t : FosFdTable) (c : DescriptorCall) : Decidable (t.Allowed c) := by
  unfold Allowed
  split <;> infer_instance

def slotsOf (t : FosFdTable) (entry : Nat) : List Nat :=
  (List.range t.allocState.arraySize).filter fun slot => t.fdEntries slot = some entry

/-- Every internal descriptor has a slot of its own that is not empty; a slot that is not reserved is empty exactly when
    its number is free; slots point to entries, whose counts are the numbers of their slots; and the close operation of an
    entry has been called once if it has no slot any more, and not at all before. -/
structure Consistent (t : FosFdTable) : Prop where
  mapped : ∀ fd < fdCount, ∀ slot, t.fdMap fd = .internal slot →
    slot < t.allocState.arraySize ∧ (t.fdEntries slot).isSome = true
  own : ∀ fd < fdCount, ∀ other < fdCount, ∀ slot,
    t.fdMap fd = .internal slot → t.fdMap other = .internal slot → fd = other
  marked : ∀ slot, 3 ≤ slot → ((t.fdEntries slot).isSome = true ↔ t.allocState.spaceAllocIsAllocated slot = true)
  live : ∀ slot entry, t.fdEntries slot = some entry → (t.heap entry).isSome = true
  counted : ∀ entry e, t.heap entry = some e → e.numFd = (t.slotsOf entry).length
  closedOnce : ∀ entry < t.nextEntry, t.closed.count entry = if t.slotsOf entry = [] then 1 else 0

end FosFdTable

/-! ### What a process sees -/

/-- A descriptor that is not in use, of the operating system, or of a file; the files are numbered as they are opened. -/
inductive Descriptor where
  | free
  | external (n : Nat)
  | file (number : Nat) (isPipe : Bool)
  deriving DecidableEq

def Descriptor.number : Descriptor → Option Nat
  | .file number _ => some number
  | _ => none

/-- The descriptors of a process, how many files have been opened, and the files whose close operation has been called. -/
structure Descriptors where
  get : Nat → Descriptor
  opened : Nat
  closed : List Nat

namespace Descriptors

def set (d : Descriptors) (fd : Nat) (x : Descriptor) : Descriptors := { d with get := Function.update d.get fd x }

/-- The lowest descriptor that is not in use. -/
def add (d : Descriptors) (x : Descriptor) : Descriptors :=
  match (List.range fdCount).find? fun fd => d.get fd = .free with
  | some fd => d.set fd x
  | none => d

def create (d : Descriptors) (isPipe : Bool) : Descriptors :=
  { d.add (.file d.opened isPipe) with opened := d.opened + 1 }

/-- Another descriptor is of the same file. -/
def shared (d : Descriptors) (fd number : Nat) : Bool :=
  (List.range fdCount).any fun other => other ≠ fd ∧ (d.get other).number = some number

/-- The close operation of a file is called when its last descriptor is closed. -/
def close (d : Descriptors) (fd : Nat) : Descriptors :=
  match d.get fd with
  | .file number _ => { d.set fd .free with closed := if d.shared fd number then d.closed else d.closed ++ [number] }
  | _ => d.set fd .free

/-- The descriptor gets a file of its own. -/
def flatten (d : Descriptors) (fd : Nat) : Descriptors :=
  match d.get fd with
  | .file number isPipe =>
    if d.shared fd number then { d.set fd (.file d.opened isPipe) with opened := d.opened + 1 } else d
  | _ => d

def ext (d : Descriptors) (fd : Nat) : Nat :=
  match d.get fd with
  | .external n => n
  | _ => fd

/-- A duplicate by the operating system. -/
def dupReal (d : Descriptors) (real : Option Nat) : Descriptors :=
  match real with
  | some newfd => if 0 < newfd then d.add (.external newfd) else d
  | none => d

/-- A duplicate of a pipe is a file of its own at once. -/
def dup (d : Descriptors) (oldfd : Nat) (real : Option Nat) : Descriptors :=
  match d.get oldfd with
  | .file number isPipe => if isPipe then d.create true else d.add (.file number false)
  | _ => d.dupReal real

def dup2Real (d : Descriptors) (oldfd newfd : Nat) (real : Bool) : Descriptors :=
  let d := if (d.get newfd).number.isSome then d.close newfd else d
  if d.ext oldfd = newfd then (d.set newfd (.external newfd)).set oldfd (.external oldfd)
  else if real then d.set newfd (.external newfd)
  else d

/-- `newfd` becomes a descriptor of the file of `oldfd`, and what it was is closed. -/
def dup2 (d : Descriptors) (oldfd newfd : Nat) (real : Bool) : Descriptors :=
  match d.get oldfd with
  | .file number isPipe => if oldfd = newfd then d else (d.close newfd).set newfd (.file number isPipe)
  | _ => d.dup2Real oldfd newfd real

/-- What each call is for. -/
def step (d : Descriptors) : DescriptorEvent → Descriptors
  | .openInternal isPipe => d.create isPipe
  | .openExternal n => d.add (.external n)
  | .pipe2 => (d.create true).create true
  | .dup oldfd real => d.dup oldfd real
  | .dup2 oldfd newfd real => d.dup2 oldfd newfd real
  | .flatten fd => d.flatten fd
  | .close fd => d.close fd

end Descriptors

namespace FosFdTable

def descriptor (t : FosFdTable) (fd : Nat) : Descriptor :=
  match t.fdMap fd with
  | .free => .free
  | .external n => .external n
  | .internal slot =>
    match t.fdEntries slot with
    | some entry => .file entry ((t.heap entry).any (·.isPipe))
    | none => .free

/-- The descriptors that a table stands for. -/
def view (t : FosFdTable) : Descriptors where
  get := t.descriptor
  opened := t.nextEntry
  closed := t.closed

end FosFdTable
end Faux
