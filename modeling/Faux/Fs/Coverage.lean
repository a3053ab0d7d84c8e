import Faux.Fs.Footprint

/-! # Where all blocks of a server are

Every block of the buffer cache is free, or it is in one list of one file, and every file has the blocks that its size takes. -/

namespace Faux
open Lib

/-- The blocks of the file cover its size, so that block indices of reads and writes are in range. -/
def File.Covered (f : File) : Prop := f.size ≤ blockSize * f.memoryBlocks.length

namespace Server

/-- The blocks of the cache are conserved, each of them is in one place only, and they cover the sizes of the files. -/
structure Accounted (all : List Nat) (s : Server) : Prop where
  conserved : s.held.Perm all
  once : s.held.Nodup
  covered : ∀ id f, s.files.lookup id = some (.file f) → f.Covered

/-! ### The condition on a request -/

def fileAt (s : Server) (id : FileId) : Option File :=
  match s.files.lookup id with
  | some (.file f) => some f
  | _ => none

/-- The file to which a request writes, with the end of what it writes. A new entry `stats` is written by the server. -/
def growing (s : Server) (env : Env) : Request → Option (File × Nat)
  | .write fd data =>
    if data = [] then none else (s.fds.lookup fd).bind fun d => (s.fileAt d.id).map fun f => (f, d.offset + data.length)
  | .addMap _ path child _ => if path = "stats" then (s.fileAt child.id).map fun f => (f, env.stats.length) else none
  | .updateMap _ path child _ _ _ => if path = "stats" then (s.fileAt child.id).map fun f => (f, env.stats.length) else none
  | .createOpen _ path _ _ => if path = "stats" then some (.new, env.stats.length) else none
  | _ => none

/-- The close is the last one of an orphan, so that its size does not matter. -/
def lastOfOrphan (s : Server) (d : FileDescriptor) : Bool :=
  { d with count := sizeSub d.count 1 }.countInt = 0 && s.orphans.any fun o => o.id = d.id

def sizing (s : Server) : Request → Option (File × Nat)
  | .flush fd size _ => (s.fds.lookup fd).bind fun d => (s.fileAt d.id).map fun f => (f, size)
  | .close fd _ (some size) =>
    (s.fds.lookup fd).bind fun d => if s.lastOfOrphan d then none else (s.fileAt d.id).map fun f => (f, size)
  | _ => none

def allocFile (s : Server) : Request → Option Server
  | .pipe => none
  | q => s.allocIn q

def truncating : Request → Option Nat
  | .truncate _ len => some len
  | _ => none

/-- The requests that do not run into a defect: the id of a new inode is not in use, writes find the blocks that they need, sizes
    do not wrap around, and the sizes that clients compute are covered. -/
structure Fit (s : Server) (a : Act) : Prop where
  alloc : ∀ u ∈ s.allocFile a.req, u.newId ∉ u.files
  small : ∀ len ∈ truncating a.req, len < sizeMod
  grows : ∀ e ∈ s.growing a.env a.req, e.2 < sizeMod ∧ ¬e.1.Lacks s.bufferCache e.2
  sizes : ∀ e ∈ s.sizing a.req, e.2 ≤ blockSize * e.1.memoryBlocks.length

instance (s : Server) (a : Act) : Decidable (s.Fit a) :=
  decidable_of_iff ((∀ u ∈ s.allocFile a.req, u.newId ∉ u.files) ∧ (∀ len ∈ truncating a.req, len < sizeMod) ∧
      (∀ e ∈ s.growing a.env a.req, e.2 < sizeMod ∧ ¬e.1.Lacks s.bufferCache e.2) ∧
      ∀ e ∈ s.sizing a.req, e.2 ≤ blockSize * e.1.memoryBlocks.length)
    ⟨fun all => ⟨all.1, all.2.1, all.2.2.1, all.2.2.2⟩, fun fit => ⟨fit.alloc, fit.small, fit.grows, fit.sizes⟩⟩

end Server
end Faux
