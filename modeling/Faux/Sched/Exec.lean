import Faux.Fs.Types
import Faux.Lib.CString

/-! # Remote exec

The request with which a process has another core execute a file: `fosExec` of `sys/sched/lib/lib.cpp` builds it, `exec` of
`sys/sched/marshall.cpp` and `SchedServer::exec` take it apart. Which of the standard streams are among the descriptors
matters only for what is relayed afterwards; that is left out. -/

namespace Faux
open Lib

/-- `ExecRequest`, with the bytes from `filename` on. -/
structure ExecRequest where
  pid : Int
  envpOffset : Int
  filename : List UInt8

def sizeofExecRequest : Nat := 8

def execRequestSize (filename : List UInt8) (argv envp : List (List UInt8)) : Nat :=
  sizeofExecRequest + filename.length + 1 + (packed argv).length + (packed envp).length + 2

def hareFd : List UInt8 := [104, 97, 114, 101, 95, 102, 100, 95]

/-- A variable that tells of a descriptor has a `=`, in the part that is copied to find it. -/
def Scannable (env : List UInt8) : Prop := hareFd <+: env → env[8]? ≠ some 108 → 61 ∈ (env.drop 8).take 1023

instance (env : List UInt8) : Decidable (Scannable env) := inferInstanceAs (Decidable (_ → _ → _))

/-- The test for a standard stream writes through the pointer that `strchr` returns. -/
def scanStream (env : List UInt8) : Res Unit := if Scannable env then .ok () else .error .undefined

def copyEnv : List (List UInt8) → List UInt8 → Res (List UInt8)
  | [], out => .ok out
  | e :: es, out => do
    scanStream e
    copyEnv es (out ++ (e ++ [0]))

def fosExec (pid : Int) (filename : List UInt8) (argv envp : List (List UInt8)) : Res ExecRequest := do
  let args := filename ++ 0 :: packed argv ++ [0]
  let out ← copyEnv envp args
  -- an `int`
  .ok { pid, envpOffset := Int.bmod args.length 4294967296, filename := out ++ [0] }

namespace SchedServer
variable (data : List UInt8)

/-- `strlen` and `strcpy` of the string at `p`. -/
def strAt (p : Nat) : Res (List UInt8) :=
  match cstr (data.drop p) with
  | some s => .ok s
  | none => .error .undefined

/-- `while(p + 1 < envs)`: the number of arguments, and where they end. -/
def countArgs (envs : Int) : Nat → Nat → Nat → Res (Nat × Nat)
  | 0, _, _ => .error .fuel
  | fuel + 1, p, ac =>
    if (p + 1 : Int) < envs then do
      let s ← strAt data p
      countArgs envs fuel (p + s.length + 1) (ac + 1)
    else .ok (ac, p)

/-- `while(*p)`: the number of variables, and where they end. -/
def countEnvs : Nat → Nat → Nat → Res (Nat × Nat)
  | 0, _, _ => .error .fuel
  | fuel + 1, p, ec => do
    let s ← strAt data p
    if s = [] then .ok (ec, p) else countEnvs fuel (p + s.length + 1) (ec + 1)

def copyStrings : Nat → Nat → Res (List (List UInt8) × Nat)
  | 0, p => .ok ([], p)
  | n + 1, p => do
    let s ← strAt data p
    let (rest, p) ← copyStrings n (p + s.length + 1)
    .ok (s :: rest, p)

def exec (request : ExecRequest) : Res (List UInt8 × List (List UInt8) × List (List UInt8)) := do
  let data := request.filename
  let filename ← strAt data 0
  let args := filename.length + 1
  let (ac, p) ← countArgs data request.envpOffset (data.length + 1) args 0
  let (ec, p) ← countEnvs data (data.length + 1) (p + 1) 0
  let (av, q) ← copyStrings data ac args
  let (ev, _) ← copyStrings data (ec + 1) (q + 1)
  -- the copies lie in `data_copy`
  if args + (packed av).length + (packed ev).length ≤ p + 1024 then
    -- the last element is set to 0
    .ok (filename, av, ev.dropLast)
  else .error .undefined

end SchedServer
end Faux
