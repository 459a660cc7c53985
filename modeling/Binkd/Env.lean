import Binkd.FtnNode
import Mathlib.Data.List.AList

/-!
# Files and the outside world

A disk maps path names to files; two spellings of one path are two names.  Each
iteration of the session's main loop runs in an `Env`: the clock, the answers of
the resolver, the file operations that fail, what the other processes have done
to the disk since the last iteration, and so on.  The functions below are the
library calls of the source on a disk and in an environment.
-/

namespace Binkd

/-- What `stat` tells about a name, with the content. -/
structure FileInfo where
  bytes : List Byte := []
  mtime : Int := 0
  isDir : Bool := false
deriving DecidableEq, Repr

abbrev Disk := AList fun _ : Str => FileInfo

/-- An open `FILE`: its name, the content and the position. -/
structure Handle where
  path : Str
  bytes : List Byte
  pos : Nat
deriving DecidableEq, Repr

inductive Errno
  | noent | exist | acces | again | io
deriving DecidableEq, Repr

/-- The file operations that may fail. -/
inductive FsOp
  | openR (path : Str) | openW (path : Str) | create (path : Str) | write (path : Str)
  | close (path : Str) | unlink (path : Str) | rename (source target : Str) | stat (path : Str)
  | opendir (path : Str) | touch (path : Str) | seek (path : Str) (offset : Int)
deriving DecidableEq, Repr

/-- A socket address up to `sockaddr_cmp_addr`: the family and the address. -/
structure SockAddr where
  family : Nat
  addr : List Byte
deriving DecidableEq

structure Env where
  now : Int := 0
  /-- the bytes behind the terminating NUL of a scanned buffer -/
  tail : List Byte := []
  fault : FsOp → Option Errno := fun _ => none
  /-- `getfree`, in kilobytes -/
  getfree : Str → Nat := fun _ => 1000000
  /-- the values of `rnd`, in the order of the calls -/
  rnd : Nat → Nat := fun n => n
  /-- `getaddrinfo` of a host name: `none` where it fails -/
  getaddrinfo : Str → Option (List SockAddr) := fun _ => none
  /-- `state->ipaddr` as an address, if it is one -/
  peer : Option SockAddr := none
  /-- what an uninitialised `sin` of `ADR` holds, if it is an address -/
  sin : Option SockAddr := none
  /-- does `find_port` know the port? -/
  findPort : Str → Bool := fun _ => true
  /-- the random bytes of a challenge -/
  challenge : List Byte := List.replicate 16 0
  /-- the local time and the name of the system, as `banner` prints them -/
  localTime : Str := []
  osString : Str := []
  /-- the number of sessions that this side is answering -/
  nServers : Int := 1
  /-- `compress_init` and `decompress_init` succeed -/
  zInit : Bool := true
  /-- the effect of an external program -/
  run : Str → Disk → Disk := fun _ d => d
  /-- what the rest of the system has done to the disk -/
  outside : Disk → Disk := id

/-! ### Names -/

/-- `stat`. -/
def Disk.stat (env : Env) (disk : Disk) (path : Str) : Option FileInfo :=
  if (env.fault (.stat path)).isSome then none else disk.lookup path

/-- `fopen (path, "r")` and `"rb"`. -/
def Disk.fopenR (env : Env) (disk : Disk) (path : Str) : Option Handle :=
  if (env.fault (.openR path)).isSome then none
  else (disk.lookup path).map fun f => ⟨path, f.bytes, 0⟩

/-- A file that has been opened stands at its beginning, with the bytes that `stat` counts. -/
theorem Disk.fopenR_eq {env : Env} {disk : Disk} {path : Str} {h : Handle}
    (hopen : disk.fopenR env path = some h) :
    h.path = path ∧ h.pos = 0 ∧ ∀ f ∈ disk.stat env path, f.bytes = h.bytes := by
  unfold fopenR at hopen
  split at hopen
  · contradiction
  · obtain ⟨f, hf, rfl⟩ := Option.map_eq_some_iff.mp hopen
    refine ⟨rfl, rfl, fun g hg => ?_⟩
    unfold stat at hg
    split at hg
    · simp at hg
    · rw [hf] at hg
      obtain rfl := Option.some.inj hg
      rfl

/-- `open (path, O_RDWR | O_CREAT | O_EXCL)`, as `create_empty_sem_file` does. -/
def Disk.createEmptySemFile (env : Env) (disk : Disk) (path : Str) : Option Disk :=
  if (env.fault (.create path)).isSome ∨ (disk.lookup path).isSome then none
  else some (disk.insert path { mtime := env.now })

/-- `fopen (path, "w")`, a write and `fclose`; the flag says whether all went well.
A file that could be opened has lost its old content in any case. -/
def Disk.rewrite (env : Env) (disk : Disk) (path : Str) (bytes : List Byte) : Disk × Bool :=
  if (env.fault (.openW path)).isSome then (disk, false)
  else if (env.fault (.write path)).isSome ∨ (env.fault (.close path)).isSome then
    (disk.insert path { mtime := env.now }, false)
  else (disk.insert path { bytes := bytes, mtime := env.now }, true)

/-- `delete`, `unlink`. -/
def Disk.delete (env : Env) (disk : Disk) (path : Str) : Disk × Bool :=
  if (env.fault (.unlink path)).isSome ∨ (disk.lookup path).isNone then (disk, false)
  else (disk.erase path, true)

/-- Deleting a name removes it, unless the system refuses, and nothing else. -/
theorem Disk.delete_lookup (env : Env) (disk : Disk) (path p : Str) :
    ((disk.delete env path).1.lookup p = disk.lookup p ∨ p = path ∧ (disk.delete env path).1.lookup p = none) ∧
    ((disk.delete env path).1.lookup path = none ∨ (env.fault (.unlink path)).isSome) := by
  unfold delete
  split_ifs with h
  · refine ⟨.inl rfl, ?_⟩
    rcases h with hfault | hnone
    · exact .inr hfault
    · exact .inl (by simpa using hnone)
  · refine ⟨?_, .inl (AList.lookup_erase path disk)⟩
    by_cases hp : p = path
    · rw [hp]
      exact .inr ⟨rfl, AList.lookup_erase path disk⟩
    · exact .inl (AList.lookup_erase_ne hp)

/-- `trunc_file`. -/
def Disk.truncFile (env : Env) (disk : Disk) (path : Str) : Disk × Bool :=
  match disk.lookup path with
  | some f => if (env.fault (.openW path)).isSome then (disk, false)
      else (disk.insert path { f with bytes := [], mtime := env.now }, true)
  | none => (disk, false)

/-- `touch`. -/
def Disk.touch (env : Env) (disk : Disk) (path : Str) (t : Int) : Disk :=
  match disk.lookup path with
  | some f => if (env.fault (.touch path)).isSome then disk else disk.insert path { f with mtime := t }
  | none => disk

/-- `o_rename`: the target must not exist. -/
def Disk.rename (env : Env) (disk : Disk) (source target : Str) : Disk × Option Errno :=
  match env.fault (.rename source target), disk.lookup source, disk.lookup target with
  | some e, _, _ => (disk, some e)
  | none, none, _ => (disk, some .noent)
  | none, some _, some _ => (disk, some .exist)
  | none, some f, none => ((disk.erase source).insert target f, none)

/-- `opendir` and `readdir`: the names that lie directly in a directory. -/
def Disk.readdir (env : Env) (disk : Disk) (dir : Str) : Option (List Str) :=
  if (env.fault (.opendir dir)).isSome then none
  else match disk.lookup dir with
    | some ⟨_, _, true⟩ =>
      let base := withSeparator dir
      some ((disk.keys.filter fun p => base.isPrefixOf p && p ≠ base &&
        !(p.drop base.length).contains 47).map fun p => p.drop base.length)
    | _ => none

/-! ### Text files -/

/-- `fgets (buf, size, f)`: the line, and the content behind it; `none` at the end. -/
def fgets (size : Nat) (bytes : List Byte) : Option (List Byte × List Byte) :=
  match bytes with
  | [] => none
  | _ =>
    let body := bytes.takeWhile (· != 10)
    let line := (if body.length < bytes.length then body ++ [10] else body).take (size - 1)
    some (line, bytes.drop line.length)

/-- Removes white space at the end. -/
def rtrim (s : Str) : Str := (s.reverse.dropWhile isspace).reverse

end Binkd
