import Luci.State

/-!
# Search paths for the program

The requests `RTLD_DI_SERINFOSIZE` and `RTLD_DI_SERINFO` of `dlinfo`
(`src/comp/glibc/libdl/interface.cpp`): the first notes the number of directories and the size of
the buffer they need, the second writes a table of the directories and their names behind it.
-/

namespace Luci

open VirtualMemory

/-- The bytes of a C string, which ends before the first NUL. -/
def cString (text : String) : List UInt8 := text.toUTF8.data.toList.takeWhile (· ≠ 0)

/-- `String::copy` of a string and its NUL to an address. -/
def copyCString (memory : Nat → UInt8) (address : Nat) (text : String) : Nat → UInt8 :=
  overlay memory address ((cString text).length + 1) fun i => (cString text).getD i 0

/-- The directories in which an object's libraries are searched, in this order. -/
def searchDirectories (e : Env) (o : Object) : List String :=
  o.rpath ++ e.libraryPathRuntime ++ o.runpath ++ e.libraryPathConfig ++ e.libraryPathDefault

namespace Serinfo

/-- `sizeof(Serinfo)`: `dls_size` has 8 bytes and `dls_cnt` 4. -/
def sizeof : Nat := 16

/-- `sizeof(Serinfo::Serpath)`: `dls_name` has 8 bytes and `dls_flags` 4. -/
def serpathSize : Nat := 16

def dlsSize (memory : Nat → UInt8) (info : Nat) : Nat := wordOf memory 8 info

def dlsCnt (memory : Nat → UInt8) (info : Nat) : Nat := wordOf memory 4 (info + 8)

/-- The address of `dls_serpath[i]`. -/
def serpath (info i : Nat) : Nat := info + sizeof + i * serpathSize

end Serinfo

open Serinfo

/-- `dlinfo` with `RTLD_DI_SERINFOSIZE` (`src/comp/glibc/libdl/interface.cpp:118-137`): the error
message, if any, and the memory. Numbers are cut to the size of their member. -/
def dlinfoSerinfosize (e : Env) (o : Object) (info : Nat) (memory : Nat → UInt8) :
    Option String × (Nat → UInt8) :=
  if info = 0 then (some "Null pointer parameter!", memory)
  else
    let memory := overlay memory (info + 8) 4 (byteOf 0)
    let (cnt, len) := (searchDirectories e o).foldl
      (fun (cnt, len) dir => (cnt + 1, len + (cString dir).length + 1)) (0, 0)
    let memory := overlay memory (info + 8) 4 (byteOf cnt)
    (none, overlay memory info 8 (byteOf (sizeof + cnt * serpathSize + len)))

/-- The loop of `RTLD_DI_SERINFO` (`src/comp/glibc/libdl/interface.cpp:147-163`). -/
def fillSerinfo (info : Nat) :
    List String → Nat → Nat → (Nat → UInt8) → Option String × (Nat → UInt8)
  | [], _, _, memory => (none, memory)
  | dir :: dirs, lib, bufPos, memory =>
    let len := (cString dir).length + 1
    if dlsCnt memory info ≤ lib then
      (some "Info buffer too small for number of libraries!", memory)
    else if dlsSize memory info < (bufPos + len) % 2 ^ 64 then
      (some "Info buffer too small for path strings!", memory)
    else
      let memory := copyCString memory (info + bufPos) dir
      let memory := overlay memory (serpath info lib) 8 (byteOf (info + bufPos))
      let memory := overlay memory (serpath info lib + 8) 4 (byteOf 0)
      fillSerinfo info dirs (lib + 1) ((bufPos + len) % 2 ^ 64) memory

/-- `dlinfo` with `RTLD_DI_SERINFO` (`src/comp/glibc/libdl/interface.cpp:138-165`). -/
def dlinfoSerinfo (e : Env) (o : Object) (info : Nat) (memory : Nat → UInt8) :
    Option String × (Nat → UInt8) :=
  if info = 0 then (some "Null pointer parameter!", memory)
  else
    fillSerinfo info (searchDirectories e o) 0 (sizeof + dlsCnt memory info * serpathSize) memory

end Luci
