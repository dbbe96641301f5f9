import CppGuard.SynchLocksHeld
import Mathlib

/-!
# `LowLevelAlloc`, the allocator of the lock graph

A first-fit allocator on a 64-bit platform. A block begins with a header; a free block is also a
node of the free list, a skip list in the order of the addresses, whose head is the first member of
the arena. `none` says that a call does not return: an assertion fails in a build with assertions, a
null pointer is followed, an addition overflows, or the system has no pages.
-/
namespace CppGuard

def kMaxLevel : Nat := 30

/-- `sizeof(AllocList::Header)`. -/
def sizeofHeader : Nat := 32

/-- `offsetof(AllocList, next)`. -/
def offsetofNext : Nat := 40

/-- `sizeof(LowLevelAlloc::Arena)`. -/
def sizeofArena : Nat := 320

/-- One allocated block, or one free block. -/
structure AllocList where
  /-- Size of the entire region, with the header. -/
  size : Nat := 0
  /-- `kMagicAllocated` or `kMagicUnallocated` xor the address. -/
  magic : Nat := 0
  arena : Option Addr := none
  /-- Levels in the skip list; client data in an allocated block, as is `next`. -/
  levels : Nat := 0
  next : Nat → Option Addr := fun _ => none

/-- An arena without the head of its free list. -/
structure Arena (σ : Type) where
  /-- An `int32_t`. -/
  allocationCount : Int
  pagesize : Nat
  roundUp : Nat
  minSize : Nat
  /-- PRNG state. -/
  random : σ

/-- What the allocator gets from its platform. -/
structure Platform (σ : Type) where
  pagesize : Nat
  pagesize_eq : ∃ k ≤ 59, pagesize = 2 ^ k
  /-- `Random`. -/
  random : σ → Nat × σ
  random_pos : ∀ state, 1 ≤ (random state).1
  seed : σ
  /-- The address of `unhooked_arena_storage`. -/
  storage : Nat
  /-- Whether assertions are compiled in. -/
  assertions : Bool

/-- The head of the free list of an arena is the node at the address of the arena. -/
structure Memory (σ : Type) where
  node : Addr → AllocList
  arena : Addr → Arena σ
  /-- The page runs that the system has handed out, with their sizes. -/
  runs : List (Nat × Nat) := []

/-! ## Arithmetic -/

/-- The loop of `IntLog2`; a `size_t` has 64 bits. -/
def intLog2From (base : Nat) : Nat → Nat → Nat
  | 0, _ => 0
  | bits + 1, i => if base < i then intLog2From base bits (i / 2) + 1 else 0

def intLog2 (size base : Nat) : Nat := intLog2From base 64 size

/-- `CheckedAdd`: an overflow is refused. -/
def checkedAdd (a b : Nat) : Option Nat := if a + b < 2 ^ 64 then some (a + b) else none

/-- `RoundUp`; the mask is `~(align - 1)`. -/
def roundUp (addr align : Nat) : Option Nat :=
  (checkedAdd addr (align - 1)).map (· &&& (2 ^ 64 - align))

def roundedUpBlockSizeFrom : Nat → Nat → Nat
  | 0, roundUp => roundUp
  | bits + 1, roundUp =>
    if roundUp < sizeofHeader then roundedUpBlockSizeFrom bits (roundUp + roundUp) else roundUp

/-- A power of two close to the header size. -/
def roundedUpBlockSize : Nat := roundedUpBlockSizeFrom 64 16

def kMagicAllocated : Nat := 0x4c833e95

def kMagicUnallocated : Nat := 2 ^ 64 - 1 - kMagicAllocated

/-- `Magic`. -/
def magicOf (magic : Nat) (ptr : Addr) : Nat := magic ^^^ ptr

/-- The loop of `Random`; the state has 32 bits. -/
def randomFrom : Nat → Nat → Option (Nat × Nat)
  | 0, _ => none
  | fuel + 1, r =>
    let r := (r * 1103515245 + 12345) % 2 ^ 32
    if (r >>> 30) &&& 1 = 0 then (randomFrom fuel r).map fun (result, r) => (result + 1, r)
    else some (1, r)

/-- `Random`, and the new state. -/
def random (state : Nat) : Option (Nat × Nat) := randomFrom (2 ^ 32) state

namespace Platform

variable {σ : Type} (platform : Platform σ)

def check (p : Prop) [Decidable p] : Option Unit :=
  if platform.assertions = true ∧ ¬ p then none else some ()

/-- `LLA_SkiplistLevels`; `n` is the value of `Random`, or 1. -/
def skiplistLevels (size base n : Nat) : Option Nat := do
  let maxFit := (size - offsetofNext) / 8
  let level := intLog2 size base + n
  let level := if maxFit < level then maxFit else level
  let level := if kMaxLevel - 1 < level then kMaxLevel - 1 else level
  platform.check (1 ≤ level)
  return level

end Platform

namespace Memory

variable {σ : Type}

def modifyNode (m : Memory σ) (a : Addr) (f : AllocList → AllocList) : Memory σ :=
  { m with node := Function.update m.node a (f (m.node a)) }

def modifyArena (m : Memory σ) (a : Addr) (f : Arena σ → Arena σ) : Memory σ :=
  { m with arena := Function.update m.arena a (f (m.arena a)) }

def setLevels (m : Memory σ) (a : Addr) (levels : Nat) : Memory σ :=
  m.modifyNode a fun b => { b with levels }

def setNext (m : Memory σ) (a : Addr) (i : Nat) (next : Option Addr) : Memory σ :=
  m.modifyNode a fun b => { b with next := Function.update b.next i next }

/-! ## The skip list -/

/-- The inner loop of `LLA_SkiplistSearch`. -/
def walk (m : Memory σ) (level : Nat) (e : Addr) : Nat → Addr → Option Addr
  | 0, _ => none
  | fuel + 1, p =>
    match (m.node p).next level with
    | none => some p
    | some n => if n < e then m.walk level e fuel n else some p

/-- The outer loop, from the level below `level` on. The result is `prev[0]` to
`prev[level - 1]`. -/
def searchFrom (m : Memory σ) (e : Addr) : Nat → Addr → Option (List Addr)
  | 0, _ => some []
  | level + 1, p => do
    let p ← m.walk level e (e + 1) p
    let prev ← m.searchFrom e level p
    return prev ++ [p]

/-- `LLA_SkiplistSearch`: the first element that is not less than `e`, and `prev`. -/
def search (m : Memory σ) (head e : Addr) : Option (Option Addr × List Addr) := do
  let prev ← m.searchFrom e (m.node head).levels head
  match prev with
  | [] => return (none, prev)
  | p :: _ => return ((m.node p).next 0, prev)

/-- Add `e` behind the elements of `prev`, from level `i` on. -/
def link (m : Memory σ) (e : Addr) (i : Nat) : List Addr → Memory σ
  | [] => m
  | p :: prev => ((m.setNext e i ((m.node p).next i)).setNext p i (some e)).link e (i + 1) prev

/-- Take `e` from behind the elements of `prev`, from level `i` on. -/
def unlink (m : Memory σ) (e : Addr) (i : Nat) : List Addr → Memory σ
  | [] => m
  | p :: prev =>
    if (m.node p).next i = some e then
      (m.setNext p i ((m.node e).next i)).unlink e (i + 1) prev
    else m

/-- `LLA_SkiplistInsert`, with `prev`. -/
def insert (m : Memory σ) (head e : Addr) : Option (List Addr × Memory σ) := do
  let (_, prev) ← m.search head e
  let levels := (m.node e).levels
  -- extend prev pointers to all levels of e
  let prev := prev ++ List.replicate (levels - (m.node head).levels) head
  let m := m.setLevels head (max (m.node head).levels levels)
  return (prev, m.link e 0 (prev.take levels))

/-- The levels without the unused ones at the top. -/
def usedLevels (next : Nat → Option Addr) : Nat → Nat
  | 0 => 0
  | levels + 1 => if next levels = none then usedLevels next levels else levels + 1

variable (platform : Platform σ)

/-- `LLA_SkiplistDelete`. -/
def delete (m : Memory σ) (head e : Addr) : Option (Memory σ) := do
  let (found, prev) ← m.search head e
  platform.check (found = some e)
  let m := m.unlink e 0 (prev.take (m.node e).levels)
  return m.setLevels head (usedLevels (m.node head).next (m.node head).levels)

/-! ## Arenas -/

/-- `Arena::Arena`. -/
def constructArena (m : Memory σ) (a : Addr) : Memory σ where
  node := Function.update m.node a
    { size := 0, magic := magicOf kMagicUnallocated a, arena := some a, levels := 0 }
  arena := Function.update m.arena a
    { allocationCount := 0
      pagesize := platform.pagesize
      roundUp := roundedUpBlockSize
      minSize := 2 * roundedUpBlockSize
      random := platform.seed }
  runs := m.runs

/-- `UnhookedArena`: every call constructs the arena. -/
def unhookedArena (m : Memory σ) : Memory σ := m.constructArena platform platform.storage

/-- `LLA_SkiplistLevels` with the random number of the arena, for the node `a`. -/
def assignLevels (m : Memory σ) (arena a : Addr) : Option (Memory σ) := do
  let (n, random) := platform.random (m.arena arena).random
  let levels ← platform.skiplistLevels (m.node a).size (m.arena arena).minSize n
  return (m.modifyArena arena ({ · with random })).setLevels a levels

def coalesce (m : Memory σ) (a : Addr) : Option (Memory σ) :=
  match (m.node a).next 0 with
  | none => some m
  | some n =>
    if a + (m.node a).size = n then do
      let arena ← (m.node a).arena
      let m := m.modifyNode a ({ · with size := (m.node a).size + (m.node n).size })
      let m := m.modifyNode n ({ · with magic := 0, arena := none })
      let m ← m.delete platform arena n
      let m ← m.delete platform arena a
      let m ← m.assignLevels platform arena a
      let (_, m) ← m.insert arena a
      return m
    else some m

def addToFreelist (m : Memory σ) (v arena : Addr) : Option (Memory σ) := do
  let f := v - sizeofHeader
  platform.check ((m.node f).magic = magicOf kMagicAllocated f)
  platform.check ((m.node f).arena = some arena)
  let m ← m.assignLevels platform arena f
  let (prev, m) ← m.insert arena f
  let m := m.modifyNode f ({ · with magic := magicOf kMagicUnallocated f })
  let m ← m.coalesce platform f
  match prev with
  | [] => none
  | p :: _ => m.coalesce platform p

/-- `Free`. -/
def free (m : Memory σ) (v : Addr) : Option (Memory σ) :=
  if v = 0 then some m
  else do
    let arena ← (m.node (v - sizeofHeader)).arena
    let m ← m.addToFreelist platform v arena
    platform.check (0 < (m.arena arena).allocationCount)
    return m.modifyArena arena fun b =>
      { b with allocationCount := (b.allocationCount - 1).bmod (2 ^ 32) }

/-- `Next`, with its sanity checks. -/
def next (m : Memory σ) (i : Nat) (prev arena : Addr) : Option (Option Addr) := do
  platform.check (i < (m.node prev).levels)
  match (m.node prev).next i with
  | none => return none
  | some n =>
    platform.check ((m.node n).magic = magicOf kMagicUnallocated n)
    platform.check ((m.node n).arena = some arena)
    platform.check (prev ≠ arena → prev < n ∧ prev + (m.node prev).size < n)
    return some n

/-- The search of `DoAllocWithArena` on level `i`, behind `before`. -/
def findFrom (m : Memory σ) (arena : Addr) (i reqRnd : Nat) : Nat → Addr → Option (Option Addr)
  | 0, _ => none
  | fuel + 1, before => do
    match ← m.next platform i before arena with
    | none => return none
    | some s =>
      if (m.node s).size < reqRnd then m.findFrom arena i reqRnd fuel s else return some s

def find (m : Memory σ) (arena : Addr) (reqRnd : Nat) : Option (Option Addr) := do
  let levels ← platform.skiplistLevels reqRnd (m.arena arena).minSize 1
  let i := levels - 1
  if i < (m.node arena).levels then m.findFrom platform arena i reqRnd (2 ^ 64) arena
  else return none

/-- What the system hands out: whole pages that nobody has. -/
structure FreshPages (m : Memory σ) (newPages size : Nat) : Prop where
  ne_null : newPages ≠ 0
  aligned : newPages % platform.pagesize = 0
  le : newPages + size ≤ 2 ^ 64
  storage : newPages + size ≤ platform.storage ∨ platform.storage + sizeofArena ≤ newPages
  runs : ∀ run ∈ m.runs, newPages + size ≤ run.1 ∨ run.1 + run.2 ≤ newPages

instance (m : Memory σ) (newPages size : Nat) :
    Decidable (m.FreshPages platform newPages size) :=
  decidable_of_iff (newPages ≠ 0 ∧ newPages % platform.pagesize = 0 ∧ newPages + size ≤ 2 ^ 64 ∧
      (newPages + size ≤ platform.storage ∨ platform.storage + sizeofArena ≤ newPages) ∧
      ∀ run ∈ m.runs, newPages + size ≤ run.1 ∨ run.1 + run.2 ≤ newPages)
    ⟨fun ⟨h₁, h₂, h₃, h₄, h₅⟩ => ⟨h₁, h₂, h₃, h₄, h₅⟩,
      fun ⟨h₁, h₂, h₃, h₄, h₅⟩ => ⟨h₁, h₂, h₃, h₄, h₅⟩⟩

/-- The pages become a block that is pretended to be allocated. -/
def mapPages (m : Memory σ) (arena : Addr) (newPages size : Nat) : Option (Memory σ) :=
  if m.FreshPages platform newPages size then
    some { m.modifyNode newPages ({ · with
        size, magic := magicOf kMagicAllocated newPages, arena := some arena }) with
      runs := (newPages, size) :: m.runs }
  else none

/-- The loop of `DoAllocWithArena`: look for a region, or map pages and look again. The list has the
answers of the system; the result is the region and the new runs. -/
def findRegion (arena : Addr) (reqRnd : Nat) :
    List Nat → Memory σ → Option (Addr × List (Nat × Nat) × Memory σ)
  | [], m => do
    let s ← (← m.find platform arena reqRnd)
    return (s, [], m)
  | newPages :: pages, m => do
    match ← m.find platform arena reqRnd with
    | some s => return (s, [], m)
    | none =>
      let newPagesSize ← CppGuard.roundUp reqRnd ((m.arena arena).pagesize * 16)
      let m ← m.mapPages platform arena newPages newPagesSize
      let m ← m.addToFreelist platform (newPages + sizeofHeader) arena
      let (s, runs, m) ← findRegion arena reqRnd pages m
      return (s, (newPages, newPagesSize) :: runs, m)

/-- The region is split, if it is big enough. -/
def splitRegion (m : Memory σ) (arena s : Addr) (reqRnd : Nat) : Option (Memory σ) := do
  let needed ← checkedAdd reqRnd (m.arena arena).minSize
  if needed ≤ (m.node s).size then
    let n := reqRnd + s
    let m := m.modifyNode n ({ · with
      size := (m.node s).size - reqRnd, magic := magicOf kMagicAllocated n, arena := some arena })
    let m := m.modifyNode s ({ · with size := reqRnd })
    m.addToFreelist platform (n + sizeofHeader) arena
  else return m

/-- The end of `DoAllocWithArena`, from the removal of the region on. -/
def takeRegion (m : Memory σ) (arena s : Addr) (reqRnd : Nat) : Option (Memory σ) := do
  let m ← m.delete platform arena s
  let m ← m.splitRegion platform arena s reqRnd
  let m := m.modifyNode s ({ · with magic := magicOf kMagicAllocated s })
  platform.check ((m.node s).arena = some arena)
  return m.modifyArena arena fun b =>
    { b with allocationCount := (b.allocationCount + 1).bmod (2 ^ 32) }

/-- The size of the block for a request. -/
def roundedSize (m : Memory σ) (arena : Addr) (request : Nat) : Option Nat := do
  let size ← checkedAdd request sizeofHeader
  CppGuard.roundUp size (m.arena arena).roundUp

/-- `AllocWithArena` and `DoAllocWithArena`. -/
def allocWithArena (m : Memory σ) (request : Nat) (arena : Addr) (pages : List Nat) :
    Option (Option Addr × List (Nat × Nat) × Memory σ) := do
  platform.check (arena ≠ 0)
  if request = 0 then return (none, [], m)
  else
    let reqRnd ← m.roundedSize arena request
    let (s, runs, m) ← findRegion platform arena reqRnd pages m
    let m ← m.takeRegion platform arena s reqRnd
    return (some (s + sizeofHeader), runs, m)

def newArena (m : Memory σ) (pages : List Nat) :
    Option (Addr × List (Nat × Nat) × Memory σ) := do
  let m := m.unhookedArena platform
  let (result, runs, m) ← m.allocWithArena platform sizeofArena platform.storage pages
  let result ← result
  return (result, runs, m.constructArena platform result)

/-- The loop of `DeleteArena`. -/
def releaseRegions (arena : Addr) : Nat → Memory σ → Option (Memory σ)
  | 0, _ => none
  | fuel + 1, m =>
    match (m.node arena).next 0 with
    | none => some m
    | some region => do
      let size := (m.node region).size
      let m := m.setNext arena 0 ((m.node region).next 0)
      platform.check ((m.node region).magic = magicOf kMagicUnallocated region)
      platform.check ((m.node region).arena = some arena)
      platform.check (size % (m.arena arena).pagesize = 0)
      platform.check (region % (m.arena arena).pagesize = 0)
      -- munmap
      releaseRegions arena fuel { m with
        runs := m.runs.filter fun run => ¬ (region ≤ run.1 ∧ run.1 + run.2 ≤ region + size) }

/-- `DeleteArena`; the assertion evaluates `UnhookedArena()`. -/
def deleteArena (m : Memory σ) (arena : Addr) : Option (Bool × Memory σ) := do
  let m := if platform.assertions = true ∧ arena ≠ 0 then m.unhookedArena platform else m
  platform.check (arena ≠ 0 ∧ arena ≠ platform.storage)
  if (m.arena arena).allocationCount ≠ 0 then return (false, m)
  else
    let m ← m.releaseRegions platform arena (2 ^ 64)
    let m ← m.free platform arena
    return (true, m)

end Memory
end CppGuard
