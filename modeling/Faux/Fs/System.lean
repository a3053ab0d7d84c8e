import Faux.Fs.Calls

/-! # Clients and servers

The file system as a system of interleaved calls: every client calls one operation after the other. -/

namespace Faux
open Lib

inductive Op where
  | open (parent : InodeType) (path : Name) (flags : Flags) (mode : Nat)
  | unlink (parent : InodeType) (path : Name)
  | mkdir (parent : InodeType) (path : Name) (mode : Nat)
  | rename (parent : InodeType) (oldPath newPath : Name) (fuel : Nat)
  | rmdir (parent : InodeType) (path : Name) (fuel : Nat)
  | lookup (parent : InodeType) (path : Name)
  | read (h count : Nat)
  | write (h : Nat) (buf : List UInt8)
  | truncate (h len : Nat)
  | close (h : Nat)

def onFile (h : Nat) (op : AppFile → FsProg Int) : FsProg Int := do
  match ← perform (.getFile h) with
  | some f => op f
  | none => .fail .assertion

def Op.code (cfg : Config) : Op → FsProg Int
  | .open parent path flags mode => do
    let (retval, _) ← fosFileOpen cfg parent path flags mode
    .ret retval
  | .unlink parent path => fosUnlink cfg parent path
  | .mkdir parent path mode => fosMkdir cfg parent path mode
  | .rename parent oldPath newPath fuel => fosRename cfg fuel parent oldPath newPath
  | .rmdir parent path fuel => fosRmdir cfg fuel parent path
  | .lookup parent path => do
    let found ← fosLookup cfg parent path false
    .ret found.retval
  | .read h count => onFile h fun f => do
    let (ret, _) ← f.read cfg h count
    .ret ret
  | .write h buf => onFile h fun f => f.write cfg h buf
  | .truncate h len => onFile h fun f => do
    let (_, retval) ← f.truncate cfg h len
    .ret retval
  | .close h => onFile h fun f => f.close cfg h

def fsSystem (cfg : Config) : System Cluster Action Op Fault Int Env (Nat × Nat) Action.Reply where
  exec := Cluster.exec cfg
  intern := Cluster.intern
  code c o := o.code (cfg.client c)

abbrev FsConf := Conf Cluster Action Fault Int Action.Reply

abbrev FsRules := System.Rules Cluster Action Op Int Env Action.Reply

abbrev FsScene := Scene Cluster Action Int Action.Reply

abbrev FsLabel := Label Op Env (Nat × Nat)

abbrev FsEvent := Event Action Action.Reply

structure FsConf.Start (s : FsConf) : Prop where
  call : ∀ c, s.call c = none
  hist : ∀ c, s.hist c = []
  log : s.log = []

namespace Cluster

/-- Servers that have just started, each with the same free blocks, and clients that have done nothing. -/
def boot (bufferCache : BufferCache) : Cluster where
  servers i := Server.boot i bufferCache fun _ => 0
  clients _ := { cache := ∅, inbox := [], files := ∅, nextFile := 0 }

def idle (w : Cluster) : FsConf := { world := w, since := fun _ => w, call := fun _ => none, hist := fun _ => [], log := [] }

theorem start_idle {w : Cluster} : w.idle.Start := ⟨fun _ => rfl, fun _ => rfl, rfl⟩

def root : InodeType := { server := 0, id := 0, type := .dir }

def plain (c : Nat) (o : Op) (n rand : Nat) : List FsLabel :=
  System.wholeCall c o (List.replicate n { rand, rand' := 0, stats := [] })

end Cluster
end Faux
