import Luci.Object.Base

/-!
# Thread local storage

`TLS` (`src/tls.hpp`, `src/tls.cpp`): modules get their place in the initial block
below the thread pointer until the first thread is set up, later ones are allocated
per thread on first access. A thread finds the blocks through its dynamic thread
vector. The three ways from a variable to its address are `__tls_get_addr`
(`src/comp/glibc/rtld/dl_tls.cpp`), `Object::tls_address` (`src/object/base.cpp`) and
`dlinfo` (`src/comp/glibc/libdl/interface.cpp`).

A thread is addressed by its thread pointer. The functions of `dlh` are parameters.
-/

namespace Luci

open VirtualMemory

/-- `Thread::DynamicThreadVector`: the vector of a thread, with the counters in front of the
entries. -/
structure Dtv where
  /-- The address of the allocated array. -/
  address : Nat
  /-- `dtv_module_size`, the entry at -1. -/
  moduleSize : Nat
  /-- `dtv_generation`, the entry at 0. -/
  generation : Nat
  /-- `pointer.val`; `TLS_UNALLOCATED` is 0. -/
  val : Nat → Nat
  /-- `pointer.to_free`. -/
  toFree : Nat → Nat

/-- `Thread`, the members the loader uses. -/
structure Thread where
  mapBase : Nat
  mapSize : Nat
  dtv : Option Dtv

/-- External code of `dlh`. -/
structure TlsEnv where
  /-- `sizeof(Thread)`. -/
  threadSize : Nat
  /-- `Memory::alloc`, given the live blocks; `none` if there is no memory left. -/
  alloc : List Range → Nat → Option Nat
  /-- `Math::align`. -/
  align : Nat → Nat → Nat

/-- The state of the thread local storage. -/
structure TlsState where
  tls : Tls
  /-- The threads, by thread pointer. -/
  thread : Nat → Option Thread
  /-- The live blocks of the allocator. -/
  heap : List Range
  memory : Nat → UInt8
  /-- `tls_module_id` and `tls_offset` of the identities. -/
  identities : Nat → Nat × Int
  /-- `current->base` of the identities. -/
  currentBase : Nat → Nat

/-- Programs over the thread local storage. -/
abbrev TlsM (α : Type) := Exec TlsState α

/-- The members of `TLS` before any module is added. -/
def Tls.initial : Tls := ⟨0, 0, 1, 0, []⟩

/-- Nothing is loaded. -/
def TlsState.initial : TlsState where
  tls := Tls.initial
  thread _ := none
  heap := []
  memory _ := 0
  identities _ := (0, 0)
  currentBase _ := 0

/-- `TLS::surplus`. -/
def tlsSurplus : Nat := 0x680
/-- `sizeof(Thread::DynamicThreadVector)`. -/
def dtvEntrySize : Nat := 16
/-- `sizeof(void*)`. -/
def pointerSize : Nat := 8

/-! ## Access -/

/-- The thread at an address. -/
def getThread (thread : Nat) : TlsM Thread := do
  let s ← get
  Exec.orAbort (s.thread thread)

/-- The vector of a thread. -/
def getDtv (thread : Nat) : TlsM Dtv := do
  let th ← getThread thread
  Exec.orAbort th.dtv

/-- Write to a thread. -/
def TlsState.setThread (thread : Nat) (th : Thread) (s : TlsState) : TlsState :=
  { s with thread := fun a => if a = thread then some th else s.thread a }

/-- Write to the vector of a thread. -/
def TlsState.modifyDtv (thread : Nat) (f : Dtv → Dtv) (s : TlsState) : TlsState :=
  { s with thread := fun a =>
      if a = thread then (s.thread a).map fun th => { th with dtv := th.dtv.map f }
      else s.thread a }

/-- `Memory::alloc`. -/
def allocBlock (t : TlsEnv) (size : Nat) : TlsM (Option Nat) := do
  let s ← get
  match t.alloc s.heap size with
  | none => return none
  | some address => do
    set { s with heap := ⟨address, size⟩ :: s.heap }
    return some address

/-- `Memory::realloc`; the old block is released. -/
def reallocBlock (t : TlsEnv) (old size : Nat) : TlsM (Option Nat) := do
  let s ← get
  match t.alloc s.heap size with
  | none => return none
  | some address => do
    set { s with heap := ⟨address, size⟩ :: s.heap.filter fun r => r.start ≠ old }
    return some address

/-! ## The dynamic thread vector -/

/-- A zeroed vector. -/
def Dtv.zero : Dtv := ⟨0, 0, 0, fun _ => 0, fun _ => 0⟩

/-- The vector in a new array, with the additional entries unallocated. -/
def Dtv.grow (dtv : Dtv) (address newSize : Nat) : Dtv where
  address := address
  moduleSize := newSize
  generation := dtv.generation
  val i := if dtv.moduleSize < i && i ≤ newSize then 0 else dtv.val i
  toFree i := if dtv.moduleSize < i && i ≤ newSize then 0 else dtv.toFree i

/-- The vector with an entry set. -/
def Dtv.assign (dtv : Dtv) (moduleId address : Nat) : Dtv :=
  { dtv with val := fun i => if i = moduleId then address else dtv.val i }

/-- The number of modules a new vector has entries for (`src/tls.cpp:81`). -/
def Tls.dtvSize (tls : Tls) : Nat := max (tls.modules.length * 2) 16

/-- The size of a vector in bytes, with the two counters. -/
def dtvBytes (entries : Nat) : Nat := (entries + 2) * dtvEntrySize

/-- `TLS::dtv_allocate` (`src/tls.cpp:78-101`). -/
def dtvAllocate (t : TlsEnv) (thread : Nat) : TlsM Nat := do
  let s ← get
  let th ← getThread thread
  let newSize := s.tls.dtvSize
  let address ← match th.dtv with
    | none => allocBlock t (dtvBytes newSize)
    | some dtv => reallocBlock t dtv.address (dtvBytes newSize)
  match address with
  | none => return 0
  | some address => do
    modify (TlsState.setThread thread
      { th with dtv := some ((th.dtv.getD Dtv.zero).grow address newSize) })
    return newSize

/-- The content of a block (`src/tls.cpp:123-125`): the image, followed by zeros. -/
def TlsState.initBlock (s : TlsState) (m : TlsModule) (address : Nat) : Nat → UInt8 :=
  let image := overlay s.memory address m.imageSize fun i =>
    s.memory (s.currentBase m.object + m.image + i)
  overlay image (address + m.imageSize) (m.size - m.imageSize) fun _ => 0

/-- `TLS::dtv_copy` (`src/tls.cpp:116-131`). -/
def dtvCopy (thread moduleId address : Nat) : TlsM Unit := do
  let s ← get
  let m ← Exec.orAbort s.tls.modules[moduleId - 1]?
  let dtv ← getDtv thread
  Exec.require (dtv.val moduleId = 0)
  modify fun s => { s with memory := s.initBlock m address }
  modify (TlsState.modifyDtv thread fun dtv => dtv.assign moduleId address)
  Exec.require (dtv.toFree moduleId = 0)

/-- The address of an initial module in a thread (`src/tls.cpp:65`). -/
def TlsModule.address (m : TlsModule) (thread : Nat) : Nat := wordOfInt (thread - m.offset)

/-- One initial module in `dtv_setup` (`src/tls.cpp:60-71`). -/
def dtvSetupModule (thread moduleId : Nat) : TlsM Unit := do
  let s ← get
  let dtv ← getDtv thread
  Exec.require (dtv.val moduleId = 0)
  let m ← Exec.orAbort s.tls.modules[moduleId - 1]?
  Exec.require (m.address thread < thread)
  dtvCopy thread moduleId (m.address thread)

/-- The generation counter is set by the first thread (`src/tls.cpp:46-47`). -/
def TlsState.start (s : TlsState) : TlsState :=
  { s with tls := { s.tls with gen := if s.tls.gen = 0 then 1 else s.tls.gen } }

/-- `dtv_allocate` where a result of 0 ends in an assertion. -/
def dtvRequire (t : TlsEnv) (thread : Nat) : TlsM Unit := do
  let size ← dtvAllocate t thread
  Exec.require (size ≠ 0)

/-- `TLS::dtv_setup` (`src/tls.cpp:45-76`). -/
def dtvSetup (t : TlsEnv) (thread : Nat) : TlsM Unit := do
  modify TlsState.start
  let th ← getThread thread
  -- Allocate DTV with enough space
  Exec.onlyIf th.dtv.isNone (dtvRequire t thread)
  let s ← get
  Exec.require (s.tls.initialSize ≤ thread)
  let dtv ← getDtv thread
  Exec.require (s.tls.initialCount ≤ dtv.moduleSize)
  Exec.forEach (dtvSetupModule thread) (List.range' 1 s.tls.initialCount)
  -- Set generation
  modify (TlsState.modifyDtv thread fun dtv => { dtv with generation := s.tls.gen })

/-! ## Threads -/

/-- The alignment of a thread is at least 64 (`src/tls.cpp:135-136`). -/
def Tls.raiseAlign (tls : Tls) : Tls :=
  { tls with initialAlign := if tls.initialAlign < 64 then 64 else tls.initialAlign }

/-- The bytes `allocate` asks for (`src/tls.cpp:138`). -/
def Tls.allocationSize (t : TlsEnv) (tls : Tls) : Nat :=
  tls.initialSize + t.threadSize + tlsSurplus + tls.initialAlign

/-- The thread pointer in an allocation (`src/tls.cpp:141`). -/
def Tls.threadPointer (tls : Tls) (mem : Nat) : Nat :=
  alignUp (mem + tls.initialSize + tlsSurplus) tls.initialAlign

/-- The structure of a new thread in its own memory (`src/tls.cpp:134-144`). -/
def newThread (t : TlsEnv) : TlsM Nat := do
  modify fun s => { s with tls := s.tls.raiseAlign }
  let s ← get
  let mem ← allocBlock t (s.tls.allocationSize t)
  let mem ← Exec.orAbort mem
  let thread := s.tls.threadPointer mem
  modify (TlsState.setThread thread
    ⟨mem, s.tls.initialSize + t.threadSize + tlsSurplus, none⟩)
  return thread

/-- `TLS::allocate` (`src/tls.cpp:133-158`); the outcome of `arch_prctl` is only logged. -/
def allocateThread (t : TlsEnv) (thread : Option Nat) : TlsM Nat := do
  let thread ← match thread with
    | some thread => pure thread
    | none => newThread t
  let _ ← dtvAllocate t thread
  return thread

/-- The creation of a thread: `TLS::allocate` and `TLS::dtv_setup`. -/
def createThread (t : TlsEnv) (thread : Option Nat) : TlsM Nat := do
  let thread ← allocateThread t thread
  dtvSetup t thread
  return thread

/-! ## Blocks -/

/-- The check of the generation in `get_addr` (`src/tls.hpp:100-113`). The counter is written
through a reference into the vector as it was before a reallocation. -/
def checkGeneration (t : TlsEnv) (thread : Nat) : TlsM Unit := do
  let s ← get
  let dtv ← getDtv thread
  if dtv.generation ≠ s.tls.gen then do
    Exec.require (dtv.generation < s.tls.gen)
    Exec.onlyIf (dtv.moduleSize < s.tls.modules.length) (dtvRequire t thread)
    modify (TlsState.modifyDtv thread fun new =>
      if new.address = dtv.address then { new with generation := s.tls.gen } else new)
  else pure ()

/-- The bytes that are allocated for a block (`src/tls.hpp:125`). -/
def TlsModule.allocationSize (m : TlsModule) : Nat := m.size + m.align + pointerSize

/-- The aligned address of a block in its allocation (`src/tls.hpp:128`). -/
def TlsModule.dataIn (m : TlsModule) (t : TlsEnv) (mem : Nat) : Nat :=
  t.align (mem + pointerSize) m.align

/-- The address of the allocation is stored before the block (`src/tls.hpp:131`). -/
def TlsState.storePointer (data mem : Nat) (s : TlsState) : TlsState :=
  { s with memory := overlay s.memory (data - pointerSize) pointerSize (byteOf mem) }

/-- The block of a dynamic module on its first use (`src/tls.hpp:121-135`); memory that could
not be allocated faults. -/
def lazyAlloc (t : TlsEnv) (thread moduleId : Nat) : TlsM Unit := do
  let s ← get
  Exec.require (s.tls.initialCount < moduleId && moduleId ≤ s.tls.modules.length)
  let m ← Exec.orAbort s.tls.modules[moduleId - 1]?
  let mem ← allocBlock t m.allocationSize
  let mem ← Exec.orAbort mem
  -- Store address of pointer for free
  modify (TlsState.storePointer (m.dataIn t mem) mem)
  dtvCopy thread moduleId (m.dataIn t mem)

/-- `TLS::get_addr` (`src/tls.hpp:95-139`). -/
def getAddr (t : TlsEnv) (thread moduleId : Nat) (alloc : Bool) : TlsM Nat := do
  if !alloc then do
    let dtv ← getDtv thread
    return if moduleId ≤ dtv.moduleSize then dtv.val moduleId else 0
  else do
    checkGeneration t thread
    let dtv ← getDtv thread
    Exec.require (moduleId ≤ dtv.moduleSize)
    Exec.onlyIf (dtv.val moduleId = 0) (lazyAlloc t thread moduleId)
    let dtv ← getDtv thread
    return dtv.val moduleId

/-! ## Variables -/

/-- `__tls_get_addr` (`src/comp/glibc/rtld/dl_tls.cpp:14-25`). -/
def tlsGetAddr (t : TlsEnv) (thread moduleId offset : Nat) : TlsM Nat := do
  let address ← getAddr t thread moduleId true
  return wordOfInt (address + offset)

/-- `Object::tls_address` (`src/object/base.cpp:245-250`) of an object of an identity. -/
def tlsAddress (t : TlsEnv) (thread file value : Nat) : TlsM Nat := do
  let s ← get
  let address ← getAddr t thread (s.identities file).1 true
  return wordOfInt (address + (s.identities file).2 + value)

/-- `dlinfo` with `RTLD_DI_TLS_DATA` (`src/comp/glibc/libdl/interface.cpp:172-174`). -/
def dlinfoTlsData (t : TlsEnv) (thread file : Nat) : TlsM Nat := do
  let s ← get
  if (s.identities file).2 = 0 then return 0
  else getAddr t thread (s.identities file).1 false

/-- The registration of an identity by its object, `TLS::add_module` with its assertions
(`src/tls.cpp:18-43`, `src/tls.hpp:52-56`). -/
def registerModule (file size align image imageSize : Nat) : TlsM Unit := do
  Exec.require (0 < size)
  let s ← get
  let (moduleId, offset, tls) := s.tls.addModule file size align image imageSize
  Exec.require (imageSize ≤ size)
  set { s with
    tls := tls
    identities := fun i => if i = file then (moduleId, offset) else s.identities i }

/-! ## Release -/

/-- `Memory::free`. -/
def freeBlock (address : Nat) : TlsM Unit :=
  modify fun s => { s with heap := s.heap.filter fun r => r.start ≠ address }

/-- The block of one entry is freed through the pointer in front of it (`src/tls.cpp:109-110`). -/
def dtvFreeEntry (thread i : Nat) : TlsM Unit := do
  let dtv ← getDtv thread
  let s ← get
  Exec.onlyIf (dtv.val i ≠ 0) (freeBlock (wordOf s.memory pointerSize (dtv.val i - pointerSize)))

/-- The vector of a thread is dropped. -/
def TlsState.dropDtv (thread : Nat) (s : TlsState) : TlsState :=
  { s with thread := fun a =>
      if a = thread then (s.thread a).map fun th => { th with dtv := none } else s.thread a }

/-- `TLS::dtv_free` (`src/tls.cpp:103-114`): the loop ends before the last entry. -/
def dtvFree (thread : Nat) : TlsM Unit := do
  let s ← get
  let dtv ← getDtv thread
  Exec.require (s.tls.initialCount ≤ dtv.moduleSize)
  Exec.forEach (dtvFreeEntry thread)
    (List.range' (s.tls.initialCount + 1) (dtv.moduleSize - (s.tls.initialCount + 1)))
  freeBlock dtv.address
  modify (TlsState.dropDtv thread)

/-- The structure of a thread is freed (`src/tls.cpp:164-167`). -/
def freeThreadStruct (t : TlsEnv) (thread : Nat) : TlsM Unit := do
  let s ← get
  let th ← getThread thread
  Exec.require (th.mapSize = s.tls.initialSize + t.threadSize)
  freeBlock th.mapBase

/-- `TLS::free` (`src/tls.cpp:160-168`). -/
def freeThread (t : TlsEnv) (thread : Nat) (freeStruct : Bool) : TlsM Unit := do
  dtvFree thread
  Exec.onlyIf freeStruct (freeThreadStruct t thread)

/-- An instance of the external code: blocks lie behind each other in the user address space, and
`Math::align` rounds up. -/
def TlsEnv.reference : TlsEnv where
  threadSize := 2304
  alloc heap size :=
    let address := heap.foldl (fun a r => max a r.stop) 0x1000
    if address + size ≤ userLimit then some address else none
  align := alignUp

end Luci
