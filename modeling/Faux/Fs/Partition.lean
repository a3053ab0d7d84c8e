import Faux.Fs.File
import Faux.Lib.Run

/-! # The partitions of the buffer cache

The constructor of `BufferCache` in `sys/fs/buffer_cache.cpp`: all servers map one shared region, and each of them takes the
blocks of its own partition. Every server maps the region at an address of its own. -/

namespace Faux
open Lib

/-- The options of the buffer cache, which are of type `int`: no product or sum of the constructor wraps around. -/
structure CacheLayout where
  memorySize : Nat
  blockSize : Nat
  serverCount : Nat
  memorySize_lt : memorySize < 2147483648
  blockSize_pos : 0 < blockSize
  blockSize_lt : blockSize < 2147483648
  serverCount_pos : 0 < serverCount
  serverCount_lt : serverCount < 2147483648

namespace CacheLayout

def partitionSize (l : CacheLayout) : Nat := l.memorySize / l.serverCount

def Inside (l : CacheLayout) (i offset : Nat) : Prop :=
  i * l.partitionSize ≤ offset ∧ offset + l.blockSize ≤ (i + 1) * l.partitionSize

instance (l : CacheLayout) (i offset : Nat) : Decidable (l.Inside i offset) := inferInstanceAs (Decidable (_ ∧ _))

end CacheLayout

def regionBlocks (blockSize regionEnd : Nat) : Nat → Nat → List Nat
  | 0, _ => []
  | fuel + 1, offset =>
    if offset < regionEnd then offset :: regionBlocks blockSize regionEnd fuel (offset + blockSize) else []

/-- `BufferCache::BufferCache` of server `id`, which has mapped the region at `memory`. A block has at least one byte, so the
    loop takes at most as many turns as the partition has bytes. -/
def BufferCache.create (l : CacheLayout) (memory id : Nat) : BufferCache :=
  let regionStart := id * l.partitionSize
  let regionEnd := (id + 1) * l.partitionSize
  { start := memory
    blocks := (regionBlocks l.blockSize regionEnd (regionEnd - regionStart) regionStart).map (memory + ·)
    blocksFree := l.memorySize / (l.blockSize * l.serverCount) }

structure Pool where
  caches : Nat → BufferCache
  given : Nat → List Nat

inductive PoolOp where
  | get (i nr : Nat)
  | put (i : Nat) (blocks : List Nat)

namespace Pool

/-- One call. `none`: the behaviour is undefined. -/
def step (s : Pool) : PoolOp → Option Pool
  | .get i nr =>
    match (s.caches i).get nr with
    | .ok (bc, blocks) => some { caches := Function.update s.caches i bc, given := Function.update s.given i (s.given i ++ blocks) }
    | .error _ => none
  | .put i blocks => some { s with caches := Function.update s.caches i ((s.caches i).put blocks) }

def create (l : CacheLayout) (memory : Nat → Nat) : Pool where
  caches i := .create l (memory i) i
  given _ := []

def Guard (l : CacheLayout) (s : Pool) : PoolOp → Prop
  | .get i _ => i < l.serverCount
  | .put i blocks => i < l.serverCount ∧ ∀ a ∈ blocks, a ∈ s.given i

instance (l : CacheLayout) (s : Pool) : DecidablePred (Guard l s)
  | .get i _ => inferInstanceAs (Decidable (i < l.serverCount))
  | .put i blocks => inferInstanceAs (Decidable (i < l.serverCount ∧ ∀ a ∈ blocks, a ∈ s.given i))

end Pool
end Faux
