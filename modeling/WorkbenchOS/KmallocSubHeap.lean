import WorkbenchOS.ByteMemory
import WorkbenchOS.LibStd

/-!
# The kernel heap: blocks and sub-heaps

`Kernel/Heap/Kmalloc.cpp` on a byte memory. Block headers live in the same
memory as the clients' data and are read and written at byte addresses, so
a wrong link reaches whatever bytes it points at. The two list walks follow
the links found in memory; on a cyclic list they do not end, and each takes
a fuel that makes this outcome `none`.
-/

namespace WorkbenchOS.KmallocSubHeap

open ByteMemory LibStd

/-- Bytes of an `AllocatedBlock` header: canary and data size. -/
def sizeofAllocatedBlock : ℕ := 16

/-- Bytes of a `FreeBlock`: canary, block size and the two links. -/
def sizeofFreeBlock : ℕ := 32

/-- Canary of an allocated block. -/
def allocatedCanary : ℕ := 0xd1d1d1d1d1d1d1d1

/-- Canary of a free block. -/
def freeCanary : ℕ := 0xfefefefefefefefe

/-- The 64-bit header word with the given index. -/
def word (memory : Memory) (block index : ℕ) : ℕ := readLE memory (block+8*index) 8

/-- Store the 64-bit header word with the given index. -/
def setWord (memory : Memory) (block index value : ℕ) : Memory :=
  writeLE memory (block+8*index) 8 value

/-- `m_canary`, of both kinds of block. -/
def canary (memory : Memory) (block : ℕ) : ℕ := word memory block 0

/-- `FreeBlock::m_block_size`. -/
def blockSize (memory : Memory) (block : ℕ) : ℕ := word memory block 1

/-- `AllocatedBlock::m_data_size`. -/
def dataSize (memory : Memory) (block : ℕ) : ℕ := word memory block 1

/-- `FreeBlock::m_previous`. -/
def previous (memory : Memory) (block : ℕ) : ℕ := word memory block 2

/-- `FreeBlock::m_next`. -/
def next (memory : Memory) (block : ℕ) : ℕ := word memory block 3

/-- Placement `new` of a `FreeBlock`, with null links. -/
def newFreeBlock (memory : Memory) (block size : ℕ) : Memory :=
  setWord (setWord (setWord (setWord memory block 0 freeCanary) block 1 size) block 2 0) block 3 0

/-- Placement `new` of an `AllocatedBlock`. -/
def newAllocatedBlock (memory : Memory) (block size : ℕ) : Memory :=
  setWord (setWord memory block 0 allocatedCanary) block 1 size

/-- `FreeBlock::allocatable_size`, wrapping for a block smaller than a header. -/
def allocatableSize (memory : Memory) (block : ℕ) : ℕ :=
  u64Sub (blockSize memory block) sizeofAllocatedBlock

/-- `FreeBlock::can_coalesce_next`. -/
def canCoalesceNext (memory : Memory) (block : ℕ) : Bool :=
  next memory block≠0 ∧ next memory block=u64 (block+blockSize memory block)

/-- `FreeBlock::can_coalesce_previous`. -/
def canCoalescePrevious (memory : Memory) (block : ℕ) : Bool :=
  previous memory block≠0 ∧
    u64 (previous memory block+blockSize memory (previous memory block))=block

/-- `FreeBlock::coalesce_with_next_block`. -/
def coalesceWithNextBlock (memory : Memory) (block : ℕ) : Memory :=
  if canCoalesceNext memory block then
    let grown := setWord memory block 1
      (blockSize memory block+blockSize memory (next memory block))
    let linked := setWord grown block 3 (next grown (next grown block))
    if next linked block≠0 then setWord linked (next linked block) 2 block else linked
  else memory

/-- `FreeBlock::coalesce_with_previous_block`. -/
def coalesceWithPreviousBlock (memory : Memory) (block : ℕ) : Memory :=
  if canCoalescePrevious memory block then
    coalesceWithNextBlock memory (previous memory block)
  else memory

/-- `FreeBlock::split_if_required`. The left block keeps
`request + sizeof(FreeBlock)` bytes, as the source has it, and the old
successor's back link is not updated. -/
def splitIfRequired (memory : Memory) (block request : ℕ) : Memory :=
  if request=allocatableSize memory block then memory
  else
    let rightHandSize := u64Sub (allocatableSize memory block) request
    if rightHandSize<sizeofFreeBlock then memory
    else
      let resized := setWord memory block 1 (request+sizeofFreeBlock)
      let rightHandSide := u64 (block+sizeofAllocatedBlock+request)
      let built := newFreeBlock resized rightHandSide rightHandSize
      let back := setWord built rightHandSide 2 block
      let forward := setWord back rightHandSide 3 (next back block)
      setWord forward block 3 rightHandSide

/-- The fields of `KmallocSubHeap` that its own operations use, with the
memory they act on. -/
structure SubHeap where
  /-- All bytes the heap code can reach. -/
  memory : Memory
  /-- `m_storage`. -/
  storage : ℕ
  /-- `m_free_list`. -/
  freeList : ℕ
  /-- `m_capacity`. -/
  capacity : ℕ
  /-- `m_available`. -/
  available : ℕ

/-- Bytes of every sub-heap. -/
def subHeapSize : ℕ := 0x1000000

/-- `KmallocSubHeap::initialise` once the page allocator has returned the
storage. -/
def initialise (memory : Memory) (storage : ℕ) : SubHeap where
  memory := newFreeBlock memory storage subHeapSize
  storage := storage
  freeList := storage
  capacity := subHeapSize
  available := subHeapSize

/-- `KmallocSubHeap::remove_from_free_list`. -/
def removeFromFreeList (heap : SubHeap) (block : ℕ) : SubHeap :=
  let memory := heap.memory
  let memory := if next memory block≠0 then
    setWord memory (next memory block) 2 (previous memory block) else memory
  let memory := if previous memory block≠0 then
    setWord memory (previous memory block) 3 (next memory block) else memory
  let freeList := if block=heap.freeList then next memory block else heap.freeList
  {heap with memory := memory,freeList := freeList}

/-- The `while` loop of `insert_into_free_list`. It writes at most the three
links of one insertion point but always walks on to the end. -/
def insertLoop (memory : Memory) (block : ℕ) : (fuel cursor : ℕ)→Option Memory
  | 0,_ => none
  | fuel+1,cursor =>
    if cursor=0 then some memory
    else
      let memory := if cursor<block ∧ (next memory cursor=0 ∨ block<next memory cursor) then
          setWord (setWord (setWord memory block 3 (next memory cursor)) block 2 cursor)
            cursor 3 block
        else memory
      insertLoop memory block fuel (next memory cursor)

/-- Iterations the walks are given: more than any list of disjoint blocks
inside the storage can have. -/
def walkFuel (heap : SubHeap) : ℕ := heap.capacity

/-- `KmallocSubHeap::insert_into_free_list`. -/
def insertIntoFreeList (heap : SubHeap) (block : ℕ) : Option SubHeap :=
  if heap.freeList=0 then some {heap with freeList := block}
  else if block<heap.freeList then
    let memory := setWord heap.memory block 3 heap.freeList
    let memory := setWord memory heap.freeList 2 block
    some {heap with memory := memory,freeList := block}
  else
    (insertLoop heap.memory block (walkFuel heap) heap.freeList).map
      (fun memory => {heap with memory := memory})

/-- `KmallocSubHeap::free`. -/
def free (heap : SubHeap) (address : ℕ) : Option (Except Error Unit×SubHeap) :=
  if address=0 then some (.ok (),heap)
  else
    let block := u64Sub address sizeofAllocatedBlock
    if canary heap.memory block≠allocatedCanary then some (.error (.fromCode 1),heap)
    else
      let size := u64 (dataSize heap.memory block+sizeofAllocatedBlock)
      let built := {heap with memory := newFreeBlock heap.memory block size}
      (insertIntoFreeList built block).map (fun inserted =>
        let joined := coalesceWithNextBlock inserted.memory block
        (.ok (),{inserted with memory := coalesceWithPreviousBlock joined block}))

/-- The first-fit walk of `KmallocSubHeap::allocate`. -/
def allocateLoop (heap : SubHeap) (size : ℕ) :
    (fuel cursor : ℕ)→Option (Except Error ℕ×SubHeap)
  | 0,_ => none
  | fuel+1,cursor =>
    if cursor=0 then some (.error (.fromCode 1),heap)
    else if canary heap.memory cursor≠freeCanary then some (.error (.fromCode 1),heap)
    else if size≤allocatableSize heap.memory cursor then
      let split := {heap with memory := splitIfRequired heap.memory cursor size}
      let removed := removeFromFreeList split cursor
      some (.ok (u64 (cursor+sizeofAllocatedBlock)),
        {removed with memory := newAllocatedBlock removed.memory cursor size})
    else allocateLoop heap size fuel (next heap.memory cursor)

/-- The payload size `allocate` works with: at least a free block's. -/
def roundedSize (size : ℕ) : ℕ := if size<sizeofFreeBlock then sizeofFreeBlock else size

/-- `KmallocSubHeap::allocate`. -/
def allocate (heap : SubHeap) (size : ℕ) : Option (Except Error ℕ×SubHeap) :=
  allocateLoop heap (roundedSize size) (walkFuel heap) heap.freeList

/-- `KmallocSubHeap::contains_allocation`. -/
def containsAllocation (heap : SubHeap) (address : ℕ) : Bool :=
  heap.storage≤address ∧ address<u64 (heap.storage+heap.capacity)

end WorkbenchOS.KmallocSubHeap
