import Faux.Fs.Cwd
import Faux.Fs.Owners
import Faux.Fs.Process
import Faux.Lib.Digits
import Faux.Sched.Exec

/-! # Descriptors in the environment

A process leaves its descriptors to the program that it executes. `__execve` of `libs/basicp/exec.c` writes them into variables
of the environment, from which `faux_init` of `libs/basicp/start.c` reads them again. -/

namespace Faux
open Lib

/-- A variable of an environment: `name=value`. -/
abbrev Variable := List UInt8

def assign (name value : List UInt8) : Variable := name ++ 61 :: value

def getenv (env : List Variable) (name : List UInt8) : Option (List UInt8) :=
  (env.find? fun v => (name ++ [61]).isPrefixOf v).map fun v => v.drop (name.length + 1)

def unsetenv (env : List Variable) (name : List UInt8) : List Variable := env.filter fun v => !(name ++ [61]).isPrefixOf v

def fauxInitted : List UInt8 := [102, 97, 117, 120, 95, 105, 110, 105, 116, 116, 101, 100]

def hare : List UInt8 := [104, 97, 114, 101, 95]

def hareFdList : List UInt8 := hareFd ++ [108, 105, 115, 116]

def hareCwd : List UInt8 := hare ++ [99, 119, 100]

def hareFsAddr (server : Nat) : List UInt8 := hare ++ [102, 115, 95, 97, 100, 100, 114, 95] ++ showNat 10 server

def fdVariable (fd : Nat) : List UInt8 := hareFd ++ showNat 10 fd

/-- `"%d:%llx:%llx@%d:%x"`. -/
def internalValue (n : Nat) (fd : Fd) (inode : ExecInode) : List UInt8 :=
  showNat 10 n ++ 58 :: (showNat 16 fd ++ 58 :: (showNat 16 inode.id ++ 64 :: (showNat 10 inode.server ++ 58 :: showNat 16 inode.type)))

/-- `"%d::::"`. -/
def externalValue (n : Nat) : List UInt8 := showNat 10 n ++ [58, 58, 58, 58]

/-- `"%llx@%d:%u:%d"`. -/
def cwdValue (cwd : Cwd) : List UInt8 :=
  showNat 16 cwd.inode.id ++ 64 :: (showNat 10 cwd.inode.server ++ 58 :: (showNat 10 cwd.inside.toNat ++ 58 :: showNat 10 cwd.inode.type.code))

def fdEntries (p : Process) : List Nat → Res (List Variable × List UInt8)
  | [] => .ok ([], [])
  | fd :: fds =>
    match p.map fd with
    | .internal _ => do
      let (n, _, e) ← p.fdGet fd
      let (entries, list) ← fdEntries p fds
      .ok (assign (fdVariable fd) (internalValue n e.object.fd e.object.inode.exec) :: entries, showNat 16 fd ++ 58 :: list)
    | .external n => do
      let (entries, list) ← fdEntries p fds
      .ok (assign (fdVariable fd) (externalValue n) :: entries, showNat 16 fd ++ 58 :: list)
    | .free => fdEntries p fds

/-- `sizeof(fd_list)`. -/
def fdListSize : Nat := 4096

/-- The size that is allocated for the environment: the variables for which `strstr` does not find them in `"hare_"`, one for
    each descriptor and for each address of a server, and four more. -/
def environSize (envp : List Variable) (fds addrs : Nat) : Nat := (envp.filter fun v => !strstr v hare).length + fds + addrs + 4

def execve (p : Process) (cwd : Cwd) (addrs : List (Nat × Nat)) (envp : List Variable) : Res (List Variable) := do
  let (entries, list) ← fdEntries p (List.range fdCount)
  if list.length < fdListSize then
    let lists := if list = [] then [] else [assign hareFdList list]
    let names := addrs.map fun a => assign (hareFsAddr a.1) (showNat 16 a.2)
    let env := entries ++ lists ++ assign hareCwd (cwdValue cwd) :: names ++ envp
    if env.length < environSize envp entries.length addrs.length then .ok env else .error .undefined
  else .error .undefined

/-! ### `faux_init` -/

def scanInternal (value : List UInt8) : Option (Nat × Fd × ExecInode) := do
  let (n, s) ← scanNat 10 value
  let s ← scanByte 58 s
  let (fd, s) ← scanNat 16 s
  let s ← scanByte 58 s
  let (id, s) ← scanNat 16 s
  let s ← scanByte 64 s
  let (server, s) ← scanNat 10 s
  let s ← scanByte 58 s
  let (type, _) ← scanNat 16 s
  some (n, fd, { id, server, type })

def Process.copyFd (p : Process) (fd : Nat) (value : List UInt8) : Res Process :=
  -- if there is no fd and what not set, then copy over an underlying fd
  if strstr [58, 58, 58, 58] value then
    match scanNat 10 value with
    | some (n, _) => .ok (p.setSlot fd (.external n))
    | none => .error .undefined
  else
    match scanInternal value with
    | some (_, id, inode) =>
      match inode.start with
      | some inode => do
        let (p, n) ← p.fdCreate (.alloc inode id) false
        .ok (p.setSlot fd (.internal n))
      | none => .error .undefined
    | none => .error .undefined

/-- What is skipped of `fd_list` for a descriptor. -/
def fdWidth (fd : Nat) : Nat := 2 + (if fd > 0xF then 1 else 0) + (if fd > 0xFF then 1 else 0) + (if fd > 0xFFF then 1 else 0)

def Process.copyFds : Nat → List UInt8 → List Variable → Process → Res Process
  | 0, _, _, _ => .error .fuel
  | fuel + 1, list, env, p =>
    match scanNat 16 list with
    | none => .ok p
    | some (fd, _) =>
      if fd < fdCount then
        match getenv env (fdVariable fd) with
        | none => .error .assertion
        | some value => do
          let p ← p.copyFd fd value
          copyFds fuel (list.drop (fdWidth fd)) (unsetenv env (fdVariable fd)) p
      else .error .undefined

def decodeFds (env : List Variable) : Res Process :=
  match getenv env hareFdList with
  | none => .ok .blank
  | some list => Process.copyFds (list.length + 1) list env .blank

/-- The descriptors of `faux_init`: the first program takes only the standard streams. -/
def fauxInit (env : List Variable) : Res Process :=
  match getenv env fauxInitted with
  | none => .ok .fresh
  | some _ => decodeFds env

end Faux
