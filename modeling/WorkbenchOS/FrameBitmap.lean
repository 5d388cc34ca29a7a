import WorkbenchOS.ByteMemory
import WorkbenchOS.LibStd
import WorkbenchOS.WordBitmaps

/-!
# The physical frame bitmap

`Kernel/Memory/Bitmap.cpp`. One bit for each frame, 64 frames to a block.
The bit storage is a row of words of its own, apart from the physical memory
that `allocate` zeroes. The source's loops with an `int` counter stop after
`2^31` iterations, when the counter turns negative and compares as a huge
unsigned number.
-/

namespace WorkbenchOS.FrameBitmap

open ByteMemory LibStd WordBitmaps

/-- `BitmapError`. -/
inductive BitmapError where
  /-- The page size is no power of two. -/
  | initInvalidPageSize
  /-- The base address is not page aligned. -/
  | initNoPages
  /-- The free-page counter is zero, or no run of frames was found. -/
  | noFreeMemory
  /-- The scan found no clear bit although the counter is not zero. -/
  | allocationFailure
  /-- Declared by the source, never returned. -/
  | range
  /-- The frame to free is not allocated. -/
  | doubleFree
  /-- Declared by the source, never returned. -/
  | full
  deriving DecidableEq,Repr

/-- `BITMAP_FULL`. -/
def bitmapFull : BitVec 64 := 0xffffffffffffffff#64

/-- `Bitmap::pages_per_block`. -/
def pagesPerBlock : ℕ := 64

/-- Iterations after which a loop counter of type `int` has left its range. -/
def intIterations : ℕ := 2^31

/-- `BlockAndOffset`. -/
structure BlockAndOffset where
  /-- Index of the word. -/
  block : ℕ
  /-- Index of the bit in the word. -/
  offset : ℕ

/-- The fields of `Bitmap`, with the words `m_storage` points at. -/
structure Bitmap where
  /-- `m_page_size`. -/
  pageSize : ℕ
  /-- `m_total_pages`. -/
  totalPages : ℕ
  /-- `m_free_pages`. -/
  freePages : ℕ
  /-- `m_block_count`. -/
  blockCount : ℕ
  /-- `m_block_full_size`. -/
  blockFullSize : ℕ
  /-- The words at `m_storage`. -/
  storage : Words
  /-- `m_base_address`. -/
  baseAddress : ℕ

/-- `Bitmap::init` over storage with arbitrary contents. -/
def init (storage : Words) (pageSize ramSize baseAddress : ℕ) : Except BitmapError Bitmap :=
  if pageSize=0 ∨ pageSize &&& (pageSize-1)≠0 then .error .initInvalidPageSize
  else if baseAddress%pageSize≠0 then .error .initNoPages
  else
    let totalPages := ramSize/pageSize
    let blockCount := totalPages/pagesPerBlock
    .ok {
      pageSize := pageSize
      totalPages := totalPages
      freePages := totalPages
      blockCount := blockCount
      blockFullSize := u64 (pageSize*pagesPerBlock)
      storage := fun i => if i < min blockCount intIterations then 0#64 else storage i
      baseAddress := baseAddress}

/-- `Bitmap::address_to_block_and_offset`. -/
def addressToBlockAndOffset (bitmap : Bitmap) (address : ℕ) : BlockAndOffset :=
  let addressAdjusted := u64Sub address bitmap.baseAddress
  { block := addressAdjusted/bitmap.blockFullSize
    offset := addressAdjusted%bitmap.blockFullSize/bitmap.pageSize }

/-- `Bitmap::set_allocated` of a block and offset. -/
def setAllocatedAt (bitmap : Bitmap) (place : BlockAndOffset) : Bitmap :=
  {bitmap with
    storage := orWord bitmap.storage place.block (1#64 <<< place.offset)
    freePages := u64Sub bitmap.freePages 1}

/-- `Bitmap::set_allocated` of an address. -/
def setAllocated (bitmap : Bitmap) (address : ℕ) : Bitmap :=
  setAllocatedAt bitmap (addressToBlockAndOffset bitmap address)

/-- `Bitmap::is_allocated`. -/
def isAllocated (bitmap : Bitmap) (address : ℕ) : Bool :=
  let place := addressToBlockAndOffset bitmap address
  bitmap.storage place.block &&& (1#64 <<< place.offset)≠0#64

/-- `Bitmap::find_free`. -/
def findFree (bitmap : BitVec 64) : Except BitmapError ℕ :=
  match firstSome (fun i => if bitmap &&& (1#64 <<< i)=0#64 then some i else none) 64 0 with
  | some i => .ok i
  | none => .error .noFreeMemory

/-- `make_mask`. -/
def makeMask (n : ℕ) : BitVec 64 := lowMask n

/-- The loop of `Bitmap::find_n_free`, which moves the mask along. -/
def findNFreeLoop (bitmap : BitVec 64) : (remaining i : ℕ)→BitVec 64→Except BitmapError ℕ
  | 0,_,_ => .error .noFreeMemory
  | remaining+1,i,mask =>
    if mask &&& bitmap=0#64 then .ok i
    else findNFreeLoop bitmap remaining (i+1) (mask <<< 1)

/-- `64 - n + 1` as an `int`, compared with a `size_t`: a negative count is a
huge one. -/
def findNFreeIterations (n : ℕ) : ℕ := u64Sub 65 n

/-- `Bitmap::find_n_free`, for `n` already narrowed to `u8`. -/
def findNFree (bitmap : BitVec 64) (n : ℕ) : Except BitmapError ℕ :=
  findNFreeLoop bitmap (findNFreeIterations n) 0 (makeMask n)

/-- `Bitmap::set_n_allocated`. The offset is below 64 unless more than 65
pages were asked for; the shift then uses its low six bits, as the machine
instruction does. -/
def setNAllocated (bitmap : Bitmap) (place : BlockAndOffset) (n : ℕ) : Bitmap :=
  {bitmap with
    storage := orWord bitmap.storage place.block (makeMask n <<< (place.offset%64))
    freePages := u64Sub bitmap.freePages n}

/-- The address `allocate` and `allocate_contiguous` return. -/
def placeToAddress (bitmap : Bitmap) (place : BlockAndOffset) : ℕ :=
  u64 (bitmap.baseAddress+place.block*bitmap.blockFullSize+place.offset*bitmap.pageSize)

/-- The block scan of `Bitmap::allocate`. -/
def findPlace (bitmap : Bitmap) : Option BlockAndOffset :=
  firstSome (fun i =>
    if bitmap.storage i≠bitmapFull then
      match findFree (bitmap.storage i) with
      | .ok offset => some ⟨i,offset⟩
      | .error _ => none
    else none) bitmap.blockCount 0

/-- `Bitmap::allocate`, on the physical memory whose frame it zeroes. -/
def allocate (bitmap : Bitmap) (memory : Memory) : Except BitmapError ℕ×Bitmap×Memory :=
  if bitmap.freePages=0 then (.error .noFreeMemory,bitmap,memory)
  else
    match findPlace bitmap with
    | some place =>
      let address := placeToAddress bitmap place
      (.ok address,setAllocatedAt bitmap place,fill memory address bitmap.pageSize 0)
    | none => (.error .allocationFailure,bitmap,memory)

/-- `Bitmap::free`. -/
def free (bitmap : Bitmap) (address : ℕ) : Except BitmapError Unit×Bitmap :=
  if isAllocated bitmap address=false then (.error .doubleFree,bitmap)
  else
    let place := addressToBlockAndOffset bitmap address
    (.ok (),{bitmap with
      storage := andWord bitmap.storage place.block (~~~(1#64 <<< place.offset))
      freePages := u64 (bitmap.freePages+1)})

/-- The block scan of `Bitmap::allocate_contiguous`. -/
def findRun (bitmap : Bitmap) (n : ℕ) : Option BlockAndOffset :=
  firstSome (fun i =>
    match findNFree (bitmap.storage i) n with
    | .ok offset => some ⟨i,offset⟩
    | .error _ => none) bitmap.blockCount 0

/-- `Bitmap::allocate_contiguous`. The page count is narrowed to `u8` where it
is passed on, and only the first frame is zeroed. -/
def allocateContiguous (bitmap : Bitmap) (memory : Memory) (pages : ℕ) :
    Except BitmapError ℕ×Bitmap×Memory :=
  if bitmap.freePages=0 then (.error .noFreeMemory,bitmap,memory)
  else
    match findRun bitmap (pages%256) with
    | some place =>
      let address := placeToAddress bitmap place
      (.ok address,setNAllocated bitmap place (pages%256),fill memory address bitmap.pageSize 0)
    | none => (.error .noFreeMemory,bitmap,memory)

end WorkbenchOS.FrameBitmap
