import WorkbenchOS.PhysicalMemory
import WorkbenchOS.PageTables

/-!
# The memory manager

`Kernel/Memory/MemoryManager.cpp` over physical memory. The kernel reaches a
frame through its direct map of physical memory, so a pointer into a frame is
the frame's physical address here; the kernel's own page directory is named
by its physical address too. Page-table entries are read and written through
the bit fields of `PageStructures.h`: the three upper levels keep 28 bits of
the physical page number, page tables keep 40.
-/

namespace WorkbenchOS.MemoryManagement

open ByteMemory LibStd WordBitmaps FrameBitmap PhysicalMemory PageTables

/-- `VirtualAddressSpace`. -/
structure VirtualAddressSpace where
  /-- `m_base_address`. -/
  baseAddress : ℕ
  /-- `m_next_address`. -/
  nextAddress : ℕ
  /-- `m_size`. -/
  size : ℕ
  /-- `m_free_pages`. -/
  freePages : ℕ

/-- The constructor of `VirtualAddressSpace`. -/
def newAddressSpace (baseAddress size : ℕ) : VirtualAddressSpace :=
  ⟨baseAddress,baseAddress,size,size/Page⟩

/-- `VirtualAddressSpace::take_page`. -/
def takePage (space : VirtualAddressSpace) :
    Except MemoryManagerError ℕ×VirtualAddressSpace :=
  if space.freePages=0 then (.error .genericError,space)
  else (.ok space.nextAddress,{space with
    nextAddress := u64 (space.nextAddress+Page)
    freePages := space.freePages-1})

/-- The remaining iterations of `take_pages`. -/
def takePagesLoop : ℕ→VirtualAddressSpace→Except MemoryManagerError Unit×VirtualAddressSpace
  | 0,space => (.ok (),space)
  | remaining+1,space =>
    match takePage space with
    | (.error error,after) => (.error error,after)
    | (.ok _,after) => takePagesLoop remaining after

/-- `VirtualAddressSpace::take_pages`. One page is taken before the loop, so
no pages asked for takes one; the loop counter is an `int` that starts at
one. -/
def takePages (space : VirtualAddressSpace) (pageCount : ℕ) :
    Except MemoryManagerError ℕ×VirtualAddressSpace :=
  match takePage space with
  | (.error error,after) => (.error error,after)
  | (.ok virtualAddress,first) =>
    match takePagesLoop (min pageCount intIterations-1) first with
    | (.error error,after) => (.error error,after)
    | (.ok _,after) => (.ok virtualAddress,after)

/-- The fields of `MemoryManager`, the physical memory it works on, and a
record of what `map_kernel_page_directory` has mapped, which nothing reads. -/
structure MemoryManager where
  /-- `m_bitmap`. -/
  bitmap : Bitmap
  /-- Physical memory. -/
  memory : Memory
  /-- `m_kernel_heap_address_space`. -/
  heapSpace : VirtualAddressSpace
  /-- Physical address of the directory `m_kernel_page_directory` points at. -/
  kernelPageDirectory : ℕ
  /-- Physical address of the table `m_pml4` points at. -/
  pml4 : ℕ
  /-- Virtual and physical addresses mapped so far, the latest first. -/
  mapped : List (ℕ×ℕ)

/-- Store an entry of a table. -/
def MemoryManager.store (manager : MemoryManager) (table index : ℕ) (entry : BitVec 64) :
    MemoryManager :=
  {manager with memory := setEntry manager.memory table index entry}

/-- What an operation of the memory manager returns and leaves behind. -/
abbrev Outcome (α : Type) := Except MemoryManagerError α×MemoryManager

/-- `MemoryManager::allocate_physical_page`. -/
def allocateFrame (manager : MemoryManager) : Outcome ℕ :=
  match allocatePhysicalPage manager.bitmap manager.memory with
  | (result,bitmap,memory) => (result,{manager with bitmap := bitmap,memory := memory})

/-- `MemoryManager::virtual_address_to_page_table_index`. -/
def virtualAddressToPageTableIndex (address : ℕ) : Except MemoryManagerError ℕ :=
  let result := (address &&& 0x1ff000) >>> 12
  if 511<result then .error .genericError else .ok result

/-- `MemoryManager::virtual_address_to_page_directory_index`. -/
def virtualAddressToPageDirectoryIndex (address : ℕ) : Except MemoryManagerError ℕ :=
  let result := (address &&& 0x3fe00000) >>> 21
  if 511<result then .error .genericError else .ok result

/-- `get_physical_address` of the three upper levels: a 28-bit page number. -/
def getPhysicalAddress (entry : BitVec 64) : ℕ := getField entry 12 28*4096

/-- `i * 0x1000` as an `int` product, sign-extended to 64 bits. -/
def intPageOffset (i : ℕ) : ℕ :=
  let product := i*0x1000%2^32
  if product<2^31 then product else product+(2^64-2^32)

/-- `physical_address << 12` of an upper level without the cast to 64 bits: a
bit field of 28 bits is promoted to `int` before it is shifted. -/
def shiftedPhysicalAddress (entry : BitVec 64) : ℕ := intPageOffset (getField entry 12 28)

/-- `MemoryManager::kernel_virtual_to_physical_address`. The three `VERIFY`s
test the directory entry, the first entry of the page table and the entry of
the page; a failed one panics and there is no outcome. -/
def kernelVirtualToPhysicalAddress (manager : MemoryManager) (virtualAddress : ℕ) :
    Option (Except MemoryManagerError ℕ) :=
  match virtualAddressToPageDirectoryIndex virtualAddress with
  | .error error => some (.error error)
  | .ok pageDirectoryIndex =>
    let pde := entryAt manager.memory manager.kernelPageDirectory pageDirectoryIndex
    if ¬Present pde then none
    else
      let pagetable := shiftedPhysicalAddress pde
      if ¬Present (entryAt manager.memory pagetable 0) then none
      else
        match virtualAddressToPageTableIndex virtualAddress with
        | .error error => some (.error error)
        | .ok pageTableIndex =>
          let page := entryAt manager.memory pagetable pageTableIndex
          if ¬Present page then none
          else some (.ok (target page+(virtualAddress &&& 0xfff)))

/-- Both mapping functions begin this way: a directory entry that is not
present gets a fresh page table, through the stores each of them makes. -/
def ensurePageTable (stores : BitVec 64→ℕ→BitVec 64) (manager : MemoryManager)
    (directory index : ℕ) : Outcome Unit :=
  if Present (entryAt manager.memory directory index) then (.ok (),manager)
  else
    match allocateFrame manager with
    | (.error error,after) => (.error error,after)
    | (.ok pageTable,after) =>
      (.ok (),after.store directory index
        (stores (entryAt after.memory directory index) pageTable))

/-- The stores of `get_kernel_page_table_entry` into a directory entry. -/
def kernelDirectoryEntry (entry : BitVec 64) (pageTable : ℕ) : BitVec 64 :=
  setField (setField (setField entry 0 1 1) 1 1 1) 12 28 (pageTable >>> 12)

/-- `MemoryManager::get_kernel_page_table_entry`. The pointer returned is the
table and the index of the entry in it. -/
def getKernelPageTableEntry (manager : MemoryManager) (virtualAddress : ℕ) : Outcome (ℕ×ℕ) :=
  match virtualAddressToPageDirectoryIndex virtualAddress with
  | .error error => (.error error,manager)
  | .ok directoryIndex =>
    match ensurePageTable kernelDirectoryEntry manager manager.kernelPageDirectory
      directoryIndex with
    | (.error error,after) => (.error error,after)
    | (.ok _,after) =>
      let pageTable :=
        getPhysicalAddress (entryAt after.memory after.kernelPageDirectory directoryIndex)
      match virtualAddressToPageTableIndex virtualAddress with
      | .error error => (.error error,after)
      | .ok tableIndex => (.ok (pageTable,tableIndex),after)

/-- The stores of `map_kernel_page_directory` into a page-table entry. -/
def kernelTableEntry (entry : BitVec 64) (physicalAddress : ℕ) : BitVec 64 :=
  setField (setField (setField entry 0 1 1) 1 1 1) 12 40 (physicalAddress >>> 12)

/-- `MemoryManager::map_kernel_page_directory`. -/
def mapKernelPageDirectory (manager : MemoryManager) (physicalAddress virtualAddress : ℕ) :
    Outcome Unit :=
  match getKernelPageTableEntry manager virtualAddress with
  | (.error error,after) => (.error error,after)
  | (.ok (table,index),after) =>
    let entry := entryAt after.memory table index
    (.ok (),{after.store table index (kernelTableEntry entry physicalAddress) with
      mapped := (virtualAddress,physicalAddress)::after.mapped})

/-- The stores of `unmap_kernel_page_directory` into a page-table entry. -/
def unmappedTableEntry (entry : BitVec 64) : BitVec 64 :=
  setField (setField (setField entry 0 1 0) 1 1 0) 12 40 0

/-- `MemoryManager::unmap_kernel_page_directory`. -/
def unmapKernelPageDirectory (manager : MemoryManager) (virtualAddress : ℕ) : Outcome Unit :=
  match getKernelPageTableEntry manager virtualAddress with
  | (.error error,after) => (.error error,after)
  | (.ok (table,index),after) =>
    (.ok (),after.store table index (unmappedTableEntry (entryAt after.memory table index)))

/-- `MemoryManager::free_kernel_heap_page`; what `free_page` returns is ignored.
A panic of the translation leaves no outcome. -/
def freeKernelHeapPage (manager : MemoryManager) (virtualAddress : ℕ) : Option (Outcome Unit) :=
  match kernelVirtualToPhysicalAddress manager virtualAddress with
  | none => none
  | some (.error error) => some (.error error,manager)
  | some (.ok physicalAddress) =>
    some (unmapKernelPageDirectory
      {manager with bitmap := (freePage manager.bitmap physicalAddress).2} virtualAddress)

/-- `MemoryManager::allocate_kernel_heap_page`. -/
def allocateKernelHeapPage (manager : MemoryManager) : Outcome ℕ :=
  match allocateFrame manager with
  | (.error error,after) => (.error error,after)
  | (.ok physicalAddress,framed) =>
    match takePage framed.heapSpace with
    | (.error error,space) => (.error error,{framed with heapSpace := space})
    | (.ok virtualAddress,space) =>
      match mapKernelPageDirectory {framed with heapSpace := space} physicalAddress
        virtualAddress with
      | (.error error,after) => (.error error,after)
      | (.ok _,after) => (.ok virtualAddress,after)

/-- The loop of `allocate_kernel_heap_pages`, from page `i` on. -/
def allocateKernelHeapPagesLoop (virtualRange : ℕ) :
    (remaining i : ℕ)→MemoryManager→Outcome Unit
  | 0,_,manager => (.ok (),manager)
  | remaining+1,i,manager =>
    match allocateFrame manager with
    | (.error error,after) => (.error error,after)
    | (.ok physicalAddress,framed) =>
      match mapKernelPageDirectory framed physicalAddress (u64 (virtualRange+i*Page)) with
      | (.error error,after) => (.error error,after)
      | (.ok _,after) => allocateKernelHeapPagesLoop virtualRange remaining (i+1) after

/-- `MemoryManager::allocate_kernel_heap_pages`. -/
def allocateKernelHeapPages (manager : MemoryManager) (pageCount : ℕ) : Outcome ℕ :=
  match takePages manager.heapSpace pageCount with
  | (.error error,space) => (.error error,{manager with heapSpace := space})
  | (.ok virtualRange,space) =>
    match allocateKernelHeapPagesLoop virtualRange pageCount 0
      {manager with heapSpace := space} with
    | (.error error,after) => (.error error,after)
    | (.ok _,after) => (.ok virtualRange,after)

/-- The stores of `map_user_page` into a directory entry. -/
def userDirectoryEntry (entry : BitVec 64) (pageTable : ℕ) : BitVec 64 :=
  setField (setField (setField (setField entry 0 1 1) 1 1 1) 2 1 1) 12 28 (pageTable >>> 12)

/-- The stores of `map_user_page` into a page-table entry. -/
def userTableEntry (entry : BitVec 64) (physicalAddress : ℕ) (write execute : Bool) : BitVec 64 :=
  setField (setField (setField (setField (setField entry 0 1 1) 1 1 (if write then 1 else 0))
    63 1 (if execute then 0 else 1)) 2 1 1) 12 40 (physicalAddress >>> 12)

/-- `MemoryManager::map_user_page`. A page that is already present makes it
loop for ever: no outcome. -/
def mapUserPage (manager : MemoryManager) (pdpt physicalAddress virtualAddress : ℕ)
    (write execute : Bool) : Option (Outcome Unit) :=
  let directory := getPhysicalAddress (entryAt manager.memory pdpt 0)
  match virtualAddressToPageDirectoryIndex virtualAddress with
  | .error error => some (.error error,manager)
  | .ok directoryIndex =>
    match ensurePageTable userDirectoryEntry manager directory directoryIndex with
    | (.error error,after) => some (.error error,after)
    | (.ok _,after) =>
      match virtualAddressToPageTableIndex virtualAddress with
      | .error error => some (.error error,after)
      | .ok tableIndex =>
        let table := getPhysicalAddress (entryAt after.memory directory directoryIndex)
        let page := entryAt after.memory table tableIndex
        if Present page then none
        else some (.ok (),after.store table tableIndex
          (userTableEntry page physicalAddress write execute))

/-- `PHYSICAL_MAPPING_BASE`. -/
def physicalMappingBase : ℕ := 0xffffff0000000000

/-- The loop of `allocate_user_pages`, from page `i` on; it carries
`start_address` and ignores what `map_user_page` returns. -/
def allocateUserPagesLoop (pdpt virtualBase : ℕ) (write execute : Bool) :
    (remaining i start : ℕ)→MemoryManager→Option (Outcome ℕ)
  | 0,_,start,manager => some (.ok start,manager)
  | remaining+1,i,start,manager =>
    match allocateFrame manager with
    | (.error error,after) => some (.error error,after)
    | (.ok page,framed) =>
      match mapUserPage framed pdpt page (u64 (virtualBase+intPageOffset i)) write execute with
      | none => none
      | some (_,after) =>
        allocateUserPagesLoop pdpt virtualBase write execute remaining (i+1)
          (if i=0 then page else start) after

/-- `MemoryManager::allocate_user_pages`: the kernel mapping of the first
frame. The loop counter is an `int`. -/
def allocateUserPages (manager : MemoryManager) (pdpt virtualBase pageCount : ℕ)
    (write execute : Bool) : Option (Outcome ℕ) :=
  (allocateUserPagesLoop pdpt virtualBase write execute (min pageCount intIterations) 0 0
    manager).map (fun outcome => match outcome with
    | (.ok start,after) => (.ok (u64 (start+physicalMappingBase)),after)
    | (.error error,after) => (.error error,after))

/-- The stores of `create_user_mode_directory` into the first entry. -/
def userPointerEntry (entry : BitVec 64) (directory : ℕ) : BitVec 64 :=
  setField (setField (setField (setField entry 0 1 1) 12 28 (directory >>> 12)) 1 1 1) 2 1 1

/-- `MemoryManager::create_user_mode_directory`. -/
def createUserModeDirectory (manager : MemoryManager) : Outcome ℕ :=
  match allocateFrame manager with
  | (.error error,after) => (.error error,after)
  | (.ok pdpt,first) =>
    match allocateFrame first with
    | (.error error,after) => (.error error,after)
    | (.ok directory,second) =>
      (.ok pdpt,second.store pdpt 0 (userPointerEntry (entryAt second.memory pdpt 0) directory))

/-- The stores of `set_user_directory` into the first entry of the root. -/
def userRootEntry (entry : BitVec 64) (address : ℕ) : BitVec 64 :=
  setField (setField (setField (setField entry 0 1 1) 1 1 1) 2 1 1) 12 28 (address >>> 12)

/-- `MemoryManager::set_user_directory`. -/
def setUserDirectory (manager : MemoryManager) (address : ℕ) : Outcome Unit :=
  (.ok (),manager.store manager.pml4 0
    (userRootEntry (entryAt manager.memory manager.pml4 0) address))

end WorkbenchOS.MemoryManagement
