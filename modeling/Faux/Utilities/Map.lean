import Faux.Channel.Basic
import Faux.Lib.AList
import Faux.Lib.Queue

/-! # Maps

`common/include/map.hpp` over `common/include/circular_queue.hpp`. An iterator is a pointer into the array of
the queue, here its index there; an index is summed up in `size_t`. -/

namespace Faux
open Lib

variable {κ ν : Type} {capacity : Nat}

abbrev Map (κ ν : Type) (capacity : Nat) := CircularQueue (κ × ν) capacity

namespace Map

/-- A map without entries whose first one will stand at `start`, as pops leave it. -/
def emptyAt (start : Nat) (data : Nat → κ × ν) : Map κ ν capacity :=
  { start, size := 0, data, size_le := Nat.zero_le _ }

def rmOffset (m : Map κ ν capacity) (offset : Nat) : Map κ ν capacity :=
  m.rm ((m.start + offset) % sizeMod % capacity)

/-- The difference of the iterator and the front is negative for an entry behind the end of the array. -/
def rmIterator (m : Map κ ν capacity) (it : Nat) : Map κ ν capacity := m.rmOffset (sizeSub it m.start)

variable [DecidableEq κ]

/-- Takes the value of a key out of the map, if it is found, as `_dispatchCheckPendingResponseMap` does. -/
def take (m : Map κ ν capacity) (key : κ) : Option ν × Map κ ν capacity :=
  let it := m.find key
  if it ≠ m.endIndex then (some (m.data it).2, m.rmIterator it) else (none, m)

end Map

inductive MapCall (κ ν : Type)
  | insert (key : κ) (value : ν)
  | find (key : κ)
  | take (key : κ)

/-- A map and the finite map that it stands for. -/
structure MapUse (κ ν : Type) (capacity : Nat) where
  map : Map κ ν capacity
  present : AList fun _ : κ => ν

namespace MapUse
variable [DecidableEq κ]

def step (s : MapUse κ ν capacity) : MapCall κ ν → Option (MapUse κ ν capacity)
  | .insert key value => some { map := s.map.insert key value, present := s.present.insert key value }
  | .find _ => some s
  | .take key => some { map := (s.map.take key).2, present := s.present.erase key }

end MapUse
end Faux
