import Faux.Theorems.Fs.IsolationCalls
import Faux.Theorems.Fs.Orphans

/-! Block isolation in every run that meets the rules, and a run in which two clients close one removed file. -/

namespace Faux
open Lib

/-! ### Blocks of two files -/

namespace Server
variable {s : Server} {id id' : FileId} {f f' : File} {a b : Nat}

theorem mem_fileBlocks (found : s.files.lookup id = some (.file f)) (mem : a ∈ f.all) : a ∈ fileBlocks s.files :=
  List.mem_flatMap.mpr ⟨⟨id, .file f⟩, AList.mem_lookup_iff.mp found, mem⟩

theorem Parted.not_free (parted : s.Parted) (found : s.files.lookup id = some (.file f)) (mem : a ∈ f.all) :
    a ∉ s.bufferCache.blocks :=
  fun free => (List.nodup_append.mp parted.nodup).2.2 a free a (mem_fileBlocks found mem) rfl

theorem Parted.not_other (parted : s.Parted) (found : s.files.lookup id = some (.file f)) (mem : a ∈ f.all) (ne : id' ≠ id)
    (found' : s.files.lookup id' = some (.file f')) : a ∉ f'.all := by
  intro mem'
  have nodup : (fileBlocks s.files).Nodup := (List.nodup_append.mp parted.nodup).2.1
  have nodup : ((VFile.file f).blocks ++ fileBlocks (s.files.erase id)).Nodup := (fileBlocks_erase found).nodup_iff.mpr nodup
  have still : (s.files.erase id).lookup id' = some (.file f') := (AList.lookup_erase_ne ne).trans found'
  refine (List.nodup_append.mp nodup).2.2 a mem a ?_ rfl
  exact List.mem_flatMap.mpr ⟨⟨id', .file f'⟩, AList.mem_lookup_iff.mp still, mem'⟩

theorem Parted.apart (parted : s.Parted) (memA : a ∈ s.held) (memB : b ∈ s.held) (ne : a ≠ b) :
    a + blockSize ≤ b ∨ b + blockSize ≤ a :=
  (Nat.lt_or_gt_of_ne ne).imp (parted.spaced a memA b memB) (parted.spaced b memB a memA)

end Server

theorem File.readLoop_congr {m m' : Memory} {blocks : List Nat} (same : ∀ b ∈ blocks, ∀ i < blockSize, m (b + i) = m' (b + i)) :
    ∀ fuel offset count, File.readLoop m blocks fuel offset count = File.readLoop m' blocks fuel offset count := by
  intro fuel
  induction fuel with
  | zero => exact fun _ _ => rfl
  | succ fuel ih =>
    intro offset count
    have small : offset % blockSize < blockSize := Nat.mod_lt _ (by decide)
    unfold File.readLoop
    split_ifs
    · rfl
    · simp only [ih]
      split
      · rfl
      · next block found =>
        have read : m.read (block + offset % blockSize) (min (blockSize - offset % blockSize) count) =
            m'.read (block + offset % blockSize) (min (blockSize - offset % blockSize) count) := by
          refine Memory.read_congr fun i lt => ?_
          rw [Nat.add_assoc]
          exact same block (List.mem_of_getElem? found) _ (by omega)
        rw [read]

theorem File.read_congr {f : File} {m m' : Memory} (same : ∀ b ∈ f.all, ∀ i < blockSize, m (b + i) = m' (b + i)) (count offset : Nat) :
    f.read m count offset = f.read m' count offset := by
  unfold File.read
  rw [File.readLoop_congr fun b mem => same b (List.mem_append_left _ mem)]

namespace Isolation
open Cluster System

theorem isolated_of_inv {w : Cluster} {ghost : Nat → Mine} (inv : Inv w ghost) : w.Isolated := by
  have owned : ∀ c h f, (w.clients c).files.lookup h = some f → ∃ g,
      (w.servers f.inode.server).files.lookup f.inode.id = some (.file g) ∧
        ∀ b ∈ f.blocks, (w.servers f.inode.server).bufferCache.start + b ∈ g.all := by
    intro c h f found
    rw [inv.files c] at found
    exact (inv.backed c _ (Mine.file_mem found)).blocks
  refine ⟨owned, ?_, ?_, ?_⟩
  · intro c h f found b mem
    obtain ⟨g, file, blocks⟩ := owned c h f found
    exact (inv.parted _).not_free file (blocks b mem)
  · intro c h f found b mem id g ne other
    obtain ⟨g₀, file, blocks⟩ := owned c h f found
    exact (inv.parted _).not_other file (blocks b mem) ne other
  · intro c h f found b mem offset data fits id g ne other n pos
    obtain ⟨g₀, file, blocks⟩ := owned c h f found
    have parted := inv.parted f.inode.server
    refine File.read_congr (fun b' mem' i lt => ?_) n pos
    have differ : (w.servers f.inode.server).bufferCache.start + b ≠ b' := by
      rintro rfl
      exact parted.not_other file (blocks b mem) ne other mem'
    -- the write stays inside of its block, which lies before or behind the one that is read
    rcases parted.apart (List.mem_append_right _ (Server.mem_fileBlocks file (blocks b mem)))
      (List.mem_append_right _ (Server.mem_fileBlocks other mem')) differ with before | behind
    · exact Memory.write_of_ge (by omega)
    · exact Memory.write_of_lt (by omega)

theorem safe_of_start {cfg : Config} {s : FsConf} (start : s.Start) (booted : s.world.Booted) : Safe (fsSystem cfg) fileRules spec s := by
  refine ⟨fun _ => { files := ∅, holds := [], lent := [] }, ⟨booted.ids, fun i => Server.inv_of_fresh (booted.fresh i), booted.parted,
    booted.files, ?_, ?_, ?_, ?_, ?_⟩, ?_⟩
  · simp
  · simp [Mine.all]
  · simp
  · simp [Mine.all]
  · simp [Mine.all]
  · intro c
    rw [start.call c]
    exact ⟨rfl, rfl⟩

end Isolation

namespace Cluster
open System

/-- In every run that meets the rules, blocks of open files belong to their inodes alone. -/
theorem isolated_of_rules (cfg : Config) (s : FsConf)
    (reach : Reach (fun s : FsConf => s.Start ∧ s.world.Booted) fileRules.Allow (fsSystem cfg).step s) : s.world.Isolated := by
  obtain ⟨ghost, inv, -⟩ := safe_of_reach Isolation.sound (fun s init => Isolation.safe_of_start init.1 init.2) reach
  exact Isolation.isolated_of_inv inv

/-! ### Runs -/

def twoBlocks : Cluster := boot { start := 4096, blocks := [4096, 8192], blocksFree := 2 }

theorem booted_twoBlocks : twoBlocks.Booted where
  ids _ := rfl
  fresh _ := ⟨rfl, rfl, rfl⟩
  parted i := by
    constructor
    · rw [twoBlocks, boot, Server.held_boot]
      decide
    · rw [twoBlocks, boot, Server.held_boot]
      show ∀ b ∈ [4096, 8192], 4096 ≤ b
      decide
    · rw [twoBlocks, boot, Server.held_boot]
      decide
  files _ := rfl

def oneCached : Config := { Server.oneServer with bufferCache := true }

def viewBlocks (w : Cluster) (c h : Nat) (id : FileId) : Option (Inode × List Nat × List Nat) := do
  let f ← (w.clients c).files.lookup h
  match ← (w.servers 0).files.lookup id with
  | .file g => some (f.inode.only, f.blocks, g.all)
  | _ => none

def checkFile (w : Cluster) (c : Nat) (env : Env) : Action → Bool
  | .rpc i q => (w.servers i).checkGuard ⟨env, c, q⟩ && (w.servers i).checkRange q
  | _ => true

theorem fileRules_of_check {v : FsScene} {c : Nat} {env : Env} {a : Action}
    (checked : checkFile v.world c env a = true) : fileRules.acts v c env a := by
  cases a with
  | rpc i q =>
    simp only [checkFile, Bool.and_eq_true] at checked
    refine ⟨Server.guard_of_check checked.1, ?_⟩
    rintro id offset count rfl
    have range := checked.2
    simp only [Server.checkRange] at range
    split at range
    · next f found => exact ⟨f, found, of_decide_eq_true range⟩
    · cases range
  | _ => trivial

def checkFiles (s : FsConf) (l : FsLabel) : Bool :=
  checkAllow (fun _ _ o => decide (onFiles o)) (fun v c env a => checkFile v.world c env a) s l

theorem allow_of_checkFiles (s : FsConf) (l : FsLabel) (checked : checkFiles s l = true) : fileRules.Allow s l :=
  allow_of_check (fun _ _ o checked => of_decide_eq_true (p := onFiles o) checked)
    (fun _ _ _ _ checked => fileRules_of_check checked) s l checked

def share : List FsLabel :=
  plain 0 (.open root "a" { creat := true, rdwr := true } 420) 5 1 ++ plain 0 (.write 0 [7]) 12 0 ++
  plain 1 (.open root "a" { rdwr := true } 0) 10 2 ++ plain 0 (.unlink root "a") 5 0

theorem checked_share : checkRun checkFiles (fsSystem oneCached).step (idle twoBlocks) share = true := by decide +kernel

theorem run_share : (run (fsSystem oneCached).step (idle twoBlocks) share).map
    (fun s => [0, 1].map fun c => viewBlocks s.world c 0 2) =
      some (List.replicate 2 (some ({ server := 0, id := 2 }, [0], [4096]))) := by decide +kernel

theorem isolated_share : ∃ s,
    Reach (fun s : FsConf => s.Start ∧ s.world.Booted) fileRules.Allow (fsSystem oneCached).step s ∧
    ([0, 1].map fun c => viewBlocks s.world c 0 2) = List.replicate 2 (some ({ server := 0, id := 2 }, [0], [4096])) ∧
    s.world.Isolated := by
  obtain ⟨s, ran, seen⟩ := Option.map_eq_some_iff.mp run_share
  have reach : Reach (fun s : FsConf => s.Start ∧ s.world.Booted) fileRules.Allow (fsSystem oneCached).step s :=
    (Reach.init ⟨start_idle, booted_twoBlocks⟩).of_guarded (guarded_of_check allow_of_checkFiles _ checked_share) ran
  exact ⟨s, reach, seen, isolated_of_rules oneCached s reach⟩

def reuse : List FsLabel :=
  share ++ plain 0 (.close 0) 4 0 ++ plain 0 (.open root "b" { creat := true, rdwr := true } 420) 5 3 ++ plain 0 (.write 1 [7]) 12 0

theorem run_reuse : (run (fsSystem oneCached).step (idle twoBlocks) reuse).map
    (fun s => (viewBlocks s.world 1 0 3, (s.world.servers 0).bufferCache.start)) =
      some (some ({ server := 0, id := 2 }, [0], [4096]), 4096) := by decide +kernel

theorem onFiles_reuse : ∀ l ∈ reuse, ∀ s : FsConf, (onCalls onFiles : FsRules).Allow s l := by
  intro l mem s
  simp only [reuse, share, List.mem_append] at mem
  rcases mem with ((((((mem | mem) | mem) | mem) | mem) | mem) | mem)
  all_goals exact allow_wholeCall trivial mem s

/-- Client 1 has a block of a file that is not its own: the block was given to a new file while client 1 still
    had the removed file open. -/
theorem exists_not_isolated : ∃ s f g b,
    Reach (fun s : FsConf => s.Start ∧ s.world.Booted) (onCalls onFiles : FsRules).Allow (fsSystem oneCached).step s ∧
    (s.world.clients 1).files.lookup 0 = some f ∧ b ∈ f.blocks ∧ f.inode.only = { server := 0, id := 2 } ∧
    (s.world.servers 0).files.lookup 3 = some (.file g) ∧ (s.world.servers 0).bufferCache.start + b ∈ g.all ∧
    ¬s.world.Isolated := by
  obtain ⟨s, ran, seen⟩ := Option.map_eq_some_iff.mp run_reuse
  obtain ⟨seen, start⟩ := Prod.mk.inj seen
  obtain ⟨f, found, seen⟩ := Option.bind_eq_some_iff.mp seen
  obtain ⟨v, other, seen⟩ := Option.bind_eq_some_iff.mp seen
  split at seen
  · next g =>
    simp only [Option.some.injEq, Prod.mk.injEq] at seen
    obtain ⟨inode, blocks, all⟩ := seen
    have server : f.inode.server = 0 := congrArg Inode.server inode
    have id : f.inode.id = 2 := congrArg Inode.id inode
    have mem : 0 ∈ f.blocks := by rw [blocks]; exact List.mem_singleton_self 0
    have mem' : (s.world.servers 0).bufferCache.start + 0 ∈ g.all := by rw [start, all]; exact List.mem_singleton_self _
    refine ⟨s, f, g, 0, (Reach.init ⟨start_idle, booted_twoBlocks⟩).of_guarded (guarded_of_forall onFiles_reuse _) ran, found, mem,
      inode, other, mem', fun isolated => ?_⟩
    have := isolated.notOther 1 0 f found 0 mem 3 g (by rw [id]; decide)
    rw [server] at this
    exact this other mem'
  · cases seen

end Cluster
end Faux
