import WorkbenchOS.KernelHeap

/-!
# The page tables of the bootloader

The bootloader counts the pages it needs in a running total and links one page
table for every 512 of them. The virtual layout is a separate chain, in which
each region begins one guard page behind the last. The two count different
things: the stack and the boot state are in the layout only, the pages the
firmware wants preserved in the total only, and the memory map is measured
twice. Regions are mapped into the page tables by their place in the layout,
linked or not.
-/

namespace WorkbenchOS.BootPageTables

open ByteMemory LibStd PhysicalMemory PageTables MemoryManagement PageMapping KernelHeap

/-- `kernel_virtual_base`. -/
def kernelVirtualBase : ℕ := 0xffffffff80000000

/-- `MiB`. -/
def MiB : ℕ := 0x100000

/-- `GiB`. -/
def GiB : ℕ := 0x40000000

/-- `GUARD_PAGE`. -/
def guardPage : ℕ := 1

/-- `kernel_stack_page_count`. -/
def kernelStackPageCount : ℕ := 10

/-- `sizeof(BootState)`. -/
def bootStateSize : ℕ := 429

/-- `VirtualMapping`. -/
structure VirtualMapping where
  /-- `physical_base`. -/
  physicalBase : ℕ
  /-- `virtual_base`. -/
  virtualBase : ℕ
  /-- `size`. -/
  size : ℕ

/-- `next_virtual_mapping`. -/
def nextVirtualMapping (last : VirtualMapping) : ℕ := u64 (last.virtualBase+last.size+Page)

/-- The types the firmware wants preserved. -/
def efiPreserved : MemoryType→Bool
  | .runtimeServicesData => true
  | .runtimeServicesCode => true
  | .acpiReclaim => true
  | .acpiMemoryNvs => true
  | .palCode => true
  | _ => false

/-- `get_efi_preserved_page_count`. -/
def getEfiPreservedPageCount (memoryMap : List MemoryDescriptor) : ℕ :=
  memoryMap.foldl (fun total descriptor =>
    if efiPreserved descriptor.type then u64 (total+descriptor.numberOfPages) else total) 0

/-- `get_pagetable_size`. -/
def getPagetableSize (pages : ℕ) : ℕ :=
  let pagesBytes := u64 (pages*Page)
  let pageTables := divideRoundedUp pagesBytes (2*MiB)
  let pageDirectories := divideRoundedUp pagesBytes GiB
  let pageDirectoryPointers := divideRoundedUp pagesBytes (512*GiB)+1
  let pml4 := 1
  pml4+pageDirectoryPointers+pageDirectories+pageTables

/-- What the mapping phase of the bootloader works on. -/
structure Boot where
  /-- `kernel_pages`. -/
  kernelPages : ℕ
  /-- The memory map while pages are counted. -/
  memoryMap : List MemoryDescriptor
  /-- Its size in bytes. -/
  memoryMapSize : ℕ
  /-- The size in bytes of the memory map that boot services end with. -/
  finalMapSize : ℕ
  /-- `framebuffer_size`. -/
  framebufferSize : ℕ
  /-- `bitmap_size_in_pages`. -/
  bitmapSizeInPages : ℕ
  /-- `kernel_physical_base`. -/
  kernelPhysicalBase : ℕ
  /-- `boot_state_base`. -/
  bootStateBase : ℕ
  /-- `memory_map.m_descriptors`. -/
  memoryMapDescriptors : ℕ
  /-- `framebuffer_base`. -/
  framebufferBase : ℕ
  /-- `kernel_stack_physical_base`. -/
  kernelStackPhysicalBase : ℕ
  /-- `bitmap_physical_base`. -/
  bitmapPhysicalBase : ℕ

namespace Boot

/-- The running total before the page tables are added. -/
def pagesWithoutTables (boot : Boot) : ℕ :=
  u64 (boot.kernelPages+guardPage+(bytesToPages boot.memoryMapSize+guardPage)+
    (bytesToPages boot.framebufferSize+guardPage)+
    (getEfiPreservedPageCount boot.memoryMap+guardPage))

/-- `page_table_size`. -/
def pageTableSize (boot : Boot) : ℕ := getPagetableSize boot.pagesWithoutTables

/-- `pages`, the running total. -/
def pages (boot : Boot) : ℕ :=
  u64 (boot.pagesWithoutTables+(boot.pageTableSize+guardPage)+
    (boot.bitmapSizeInPages+guardPage))

/-- `page_tables_count`. -/
def pageTablesCount (boot : Boot) : ℕ := divideRoundedUp boot.pages 512

/-- `boot_state_page_count`. -/
def bootStatePageCount : ℕ := bytesToPages bootStateSize

/-- The kernel region. -/
def kernel (boot : Boot) : VirtualMapping where
  physicalBase := boot.kernelPhysicalBase
  virtualBase := 0xffffffff80000000
  size := u64 (boot.kernelPages*Page)

/-- The boot state region. -/
def bootState (boot : Boot) : VirtualMapping where
  physicalBase := boot.bootStateBase
  virtualBase := nextVirtualMapping boot.kernel
  size := u64 (bootStatePageCount*Page)

/-- The initial pages region. -/
def initialPages (boot : Boot) : VirtualMapping where
  physicalBase := u64 (boot.kernelPhysicalBase+u64 (boot.kernelPages*Page))
  virtualBase := nextVirtualMapping boot.bootState
  size := u64 (boot.pageTableSize*Page)

/-- The memory map region. -/
def memoryMapRegion (boot : Boot) : VirtualMapping where
  physicalBase := boot.memoryMapDescriptors
  virtualBase := nextVirtualMapping boot.initialPages
  size := u64 (bytesToPages boot.finalMapSize*Page)

/-- The framebuffer region. -/
def framebuffer (boot : Boot) : VirtualMapping where
  physicalBase := boot.framebufferBase
  virtualBase := nextVirtualMapping boot.memoryMapRegion
  size := u64 (bytesToPages boot.framebufferSize*Page)

/-- The stack region. -/
def stack (boot : Boot) : VirtualMapping where
  physicalBase := boot.kernelStackPhysicalBase
  virtualBase := nextVirtualMapping boot.framebuffer
  size := u64 (kernelStackPageCount*Page)

/-- The frame allocator region. -/
def frameAllocator (boot : Boot) : VirtualMapping where
  physicalBase := boot.bitmapPhysicalBase
  virtualBase := nextVirtualMapping boot.stack
  size := u64 (boot.bitmapSizeInPages*Page)

/-- The regions in the order they are mapped, with write combining. -/
def regions (boot : Boot) : List (VirtualMapping×Bool) :=
  [(boot.kernel,false),(boot.bootState,false),(boot.initialPages,false),
    (boot.memoryMapRegion,false),(boot.framebuffer,true),(boot.stack,false),
    (boot.frameAllocator,false)]

end Boot

/-- An upper-level entry leads to the next table. -/
def link (memory : Memory) (table index next : ℕ) : Memory :=
  setEntry memory table index (kernelDirectoryEntry (entryAt memory table index) next)

/-- Zero the page structures; of the page tables only the first page. -/
def clearTables (memory : Memory) (pml4 : ℕ) : Memory :=
  fill (fill (fill (fill (fill memory pml4 tableSize 0) (pml4+0x1000) tableSize 0)
    (pml4+0x2000) tableSize 0) (pml4+0x3000) tableSize 0) (pml4+0x4000) tableSize 0

/-- The stores into an entry of the identity map. -/
def identityEntry (entry : BitVec 64) (i : ℕ) : BitVec 64 :=
  setField (setField (setField (setField (setField (setField entry 0 1 1) 1 1 1) 2 1 0) 7 1 1)
    8 1 1) 12 28 (u64 (i*GiB) >>> 12)

/-- The two upper levels: the kernel's and the identity map, twice. -/
def linkUpper (memory : Memory) (pml4 : ℕ) : Memory :=
  let pdpt := pml4+0x1000
  let pdptIdentity := pml4+0x2000
  let kernelPageDirectory := pml4+0x3000
  let memory := link memory pml4 511 pdpt
  let memory := link memory pml4 0 pdptIdentity
  let memory := (List.range 512).foldl (fun memory i =>
    setEntry memory pdptIdentity i (identityEntry (entryAt memory pdptIdentity i) i)) memory
  let memory := link memory pml4 510 pdptIdentity
  link memory pdpt 510 kernelPageDirectory

/-- The loop over the page tables. -/
def linkTables (memory : Memory) (pml4 pageTablesCount : ℕ) : Memory :=
  (List.range pageTablesCount).foldl (fun memory i =>
    link memory (pml4+0x3000) i (pml4+0x4000+i*Page)) memory

/-- The stores of `map_address_space` into a page-table entry. -/
def bootPageEntry (entry : BitVec 64) (pagePhysical : ℕ) (writeCombining : Bool) : BitVec 64 :=
  let mapped := kernelTableEntry entry pagePhysical
  if writeCombining then setField (setField (setField mapped 3 1 1) 4 1 1) 7 1 1 else mapped

/-- `virtual_to_page_table`. -/
def virtualToPageTable (virtualAddress : ℕ) : ℕ := u64Sub virtualAddress kernelVirtualBase >>> 12

/-- `map_address_space`. -/
def mapAddressSpace (kernelPageTables : ℕ) (memory : Memory) (region : VirtualMapping×Bool) :
    Memory :=
  (List.range (region.1.size/Page)).foldl (fun memory i =>
    let pagePhysical := u64 (region.1.physicalBase+i*Page)
    let pageVirtual := u64 (region.1.virtualBase+i*Page)
    let pageTableEntry := virtualToPageTable pageVirtual
    setEntry memory kernelPageTables pageTableEntry
      (bootPageEntry (entryAt memory kernelPageTables pageTableEntry) pagePhysical region.2)) memory

/-- The mapping phase. -/
def bootMapping (boot : Boot) (memory : Memory) : Memory :=
  let pml4 := boot.initialPages.physicalBase
  boot.regions.foldl (mapAddressSpace (pml4+0x4000))
    (linkTables (linkUpper (clearTables memory pml4) pml4) pml4 boot.pageTablesCount)

/-- Every page of every region is translated to its physical page. -/
def LayoutTranslated (boot : Boot) (memory : Memory) : Prop :=
  ∀ region∈boot.regions,∀ i, i<region.1.size/Page →
    walkFrom (bootMapping boot memory) 4 boot.initialPages.physicalBase
      (region.1.virtualBase+i*4096)=some ((region.1.physicalBase+i*4096)/4096*4096)

section Words

variable (memory : Memory) (pml4 : ℕ)

/-- The page-directory-pointer table in the words from the root on. -/
theorem pdpt_words (i : ℕ) (entry : BitVec 64) :
    entryAt memory (pml4+0x1000) i=entryAt memory pml4 (512+i) ∧
      setEntry memory (pml4+0x1000) i entry=setEntry memory pml4 (512+i) entry :=
  ⟨entryAt_shift memory pml4 512 i,setEntry_shift memory pml4 512 i entry⟩

/-- The identity map in the words from the root on. -/
theorem identity_words (i : ℕ) (entry : BitVec 64) :
    entryAt memory (pml4+0x2000) i=entryAt memory pml4 (1024+i) ∧
      setEntry memory (pml4+0x2000) i entry=setEntry memory pml4 (1024+i) entry :=
  ⟨entryAt_shift memory pml4 1024 i,setEntry_shift memory pml4 1024 i entry⟩

/-- The page directory in the words from the root on. -/
theorem directory_words (i : ℕ) (entry : BitVec 64) :
    entryAt memory (pml4+0x3000) i=entryAt memory pml4 (1536+i) ∧
      setEntry memory (pml4+0x3000) i entry=setEntry memory pml4 (1536+i) entry :=
  ⟨entryAt_shift memory pml4 1536 i,setEntry_shift memory pml4 1536 i entry⟩

/-- The page tables in the words from the root on. -/
theorem tables_words (i : ℕ) (entry : BitVec 64) :
    entryAt memory (pml4+0x4000) i=entryAt memory pml4 (2048+i) ∧
      setEntry memory (pml4+0x4000) i entry=setEntry memory pml4 (2048+i) entry :=
  ⟨entryAt_shift memory pml4 2048 i,setEntry_shift memory pml4 2048 i entry⟩

/-- Clearing keeps a byte that is zero. -/
theorem fill_zero_kept {address count x : ℕ} (h : memory x=0) :
    fill memory address count 0 x=0 := by
  unfold fill
  split
  · rfl
  · exact h

/-- The four upper structures are zero. -/
theorem clearTables_words {w : ℕ} (hw : w<2048) :
    entryAt (clearTables memory pml4) pml4 w=0#64 := by
  have hbyte : ∀ x, pml4+8*w≤x → x<pml4+8*w+8 → clearTables memory pml4 x=0 := by
    intro x hx hy
    have hpage : x<pml4+0x1000 ∨ (pml4+0x1000≤x ∧ x<pml4+0x2000) ∨
        (pml4+0x2000≤x ∧ x<pml4+0x3000) ∨ (pml4+0x3000≤x ∧ x<pml4+0x4000) := by omega
    unfold clearTables tableSize
    rcases hpage with h|h|h|h
    · exact fill_zero_kept _ (fill_zero_kept _ (fill_zero_kept _ (fill_zero_kept _
        (fill_inside _ 0 (by omega) (by omega)))))
    · exact fill_zero_kept _ (fill_zero_kept _ (fill_zero_kept _
        (fill_inside _ 0 (by omega) (by omega))))
    · exact fill_zero_kept _ (fill_zero_kept _ (fill_inside _ 0 (by omega) (by omega)))
    · exact fill_zero_kept _ (fill_inside _ 0 (by omega) (by omega))
  rw [entryAt,readLE_zero hbyte]

/-- The stores into the two upper levels. -/
theorem linkUpper_words (hz : ∀ w, w<2048 → entryAt memory pml4 w=0#64) :
    entryAt (linkUpper memory pml4) pml4 511=kernelDirectoryEntry 0#64 (pml4+0x1000) ∧
    entryAt (linkUpper memory pml4) pml4 1022=kernelDirectoryEntry 0#64 (pml4+0x3000) ∧
    ∀ w, 1536≤w → w<2048 → entryAt (linkUpper memory pml4) pml4 w=0#64 := by
  have hidentity : ∀ (m : Memory) (w : ℕ), entryAt ((List.range 512).foldl (fun memory i =>
      setEntry memory pml4 (1024+i) (identityEntry (entryAt memory pml4 (1024+i)) i)) m) pml4 w=
        if 1024≤w ∧ w<1024+512 then identityEntry (entryAt m pml4 w) (w-1024)
        else entryAt m pml4 w :=
    fun m w => entryAt_foldl m pml4 1024 512 (fun i entry => identityEntry entry i)
      (fun _ _ => rfl) w
  simp only [linkUpper,link,(pdpt_words _ pml4 _ 0#64).1,(pdpt_words _ pml4 _ _).2,
    (identity_words _ pml4 _ 0#64).1,(identity_words _ pml4 _ _).2,entryAt_setEntry,hidentity]
  refine ⟨?_,?_,?_⟩
  · simp [hz]
  · simp [hz]
  · intro w hl hh
    rw [if_neg (by omega),if_neg (by omega),if_neg (by omega),if_neg (by omega),
      if_neg (by omega)]
    exact hz w hh

/-- The stores into the page directory. -/
theorem linkTables_words (count w : ℕ) :
    entryAt (linkTables memory pml4 count) pml4 w=
      if 1536≤w ∧ w<1536+count then
        kernelDirectoryEntry (entryAt memory pml4 w) (pml4+0x4000+(w-1536)*Page)
      else entryAt memory pml4 w := by
  simp only [linkTables,link,(directory_words _ pml4 _ 0#64).1,(directory_words _ pml4 _ _).2]
  exact entryAt_foldl memory pml4 1536 count
    (fun i entry => kernelDirectoryEntry entry (pml4+0x4000+i*Page)) (fun _ _ => rfl) w

end Words

/-- A region by its place in the layout, in pages. -/
structure Placement where
  /-- Physical address. -/
  physical : ℕ
  /-- First page behind `kernelVirtualBase`. -/
  start : ℕ
  /-- Pages. -/
  pages : ℕ
  /-- Write combining. -/
  writeCombining : Bool

namespace Placement

/-- The region as the bootloader describes it. -/
def region (placement : Placement) : VirtualMapping×Bool :=
  (⟨placement.physical,kernelVirtualBase+placement.start*4096,placement.pages*4096⟩,
    placement.writeCombining)

/-- A place inside the gibibyte of the kernel page directory. -/
def Fits (placement : Placement) : Prop := placement.start+placement.pages≤2^18

/-- A place in the address space behind `kernelVirtualBase`. -/
def InWindow (placement : Placement) : Prop := placement.start+placement.pages≤2^19

/-- The gibibyte is part of it. -/
theorem Fits.inWindow {placement : Placement} (h : placement.Fits) : placement.InWindow := by
  rw [Fits] at h
  rw [InWindow]
  omega

/-- The next region begins behind a guard page. -/
theorem next {placement : Placement} (h : placement.Fits) :
    nextVirtualMapping placement.region.1=
      kernelVirtualBase+(placement.start+placement.pages+1)*4096 := by
  rw [Fits] at h
  simp only [nextVirtualMapping,region,kernelVirtualBase,Page]
  rw [u64_of_lt (by omega)]
  omega

/-- The stores for one region. -/
theorem map_words {placement : Placement} (h : placement.InWindow) (memory : Memory)
    (pml4 w : ℕ) :
    entryAt (mapAddressSpace (pml4+0x4000) memory placement.region) pml4 w=
      if 2048+placement.start≤w ∧ w<2048+placement.start+placement.pages then
        bootPageEntry (entryAt memory pml4 w)
          (u64 (placement.physical+(w-(2048+placement.start))*4096)) placement.writeCombining
      else entryAt memory pml4 w := by
  rw [InWindow] at h
  have hcount : placement.region.1.size/Page=placement.pages :=
    Nat.mul_div_cancel _ (by decide)
  have hplace : ∀ i, i<placement.pages →
      2048+virtualToPageTable (u64 (placement.region.1.virtualBase+i*Page))=
        2048+placement.start+i := by
    intro i hi
    simp only [region,virtualToPageTable,kernelVirtualBase,Page]
    rw [u64_of_lt (by omega),u64Sub_of_le (by omega) (by omega),Nat.shiftRight_eq_div_pow]
    omega
  simp only [mapAddressSpace,(tables_words _ pml4 _ 0#64).1,(tables_words _ pml4 _ _).2,hcount]
  exact entryAt_foldl memory pml4 (2048+placement.start) placement.pages
    (fun i entry => bootPageEntry entry (u64 (placement.physical+i*4096))
      placement.writeCombining) hplace w

end Placement

/-- An entry of a region leads to its physical page. -/
theorem bootPageEntry_maps (entry : BitVec 64) {pagePhysical : ℕ} (hlt : pagePhysical<2^52)
    (writeCombining : Bool) :
    Present (bootPageEntry entry pagePhysical writeCombining) ∧
      target (bootPageEntry entry pagePhysical writeCombining)=pagePhysical/4096*4096 := by
  have hpresent : Present (kernelTableEntry entry pagePhysical) := by
    rw [kernelTableEntry,present_setField_apart _ (by decide),
      present_setField_apart _ (by decide)]
    exact present_setField_self entry
  have htarget : target (kernelTableEntry entry pagePhysical)=pagePhysical/4096*4096 := by
    rw [target,kernelTableEntry,getField_setField_self _ (by decide),
      Nat.shiftRight_eq_div_pow,Nat.mod_eq_of_lt (by omega)]
  rw [bootPageEntry]
  cases writeCombining with
  | false => exact ⟨hpresent,htarget⟩
  | true =>
    rw [if_pos rfl]
    constructor
    · rw [present_setField_apart _ (by decide),present_setField_apart _ (by decide),
        present_setField_apart _ (by decide)]
      exact hpresent
    · rw [target,getField_setField_apart _ (by decide) (by decide),
        getField_setField_apart _ (by decide) (by decide),
        getField_setField_apart _ (by decide) (by decide)]
      exact htarget

section Regions

variable {placements : List Placement} {placement : Placement} {w : ℕ} (pml4 : ℕ)

/-- The word is an entry of a page of the region. -/
def Placement.Holds (placement : Placement) (w : ℕ) : Prop :=
  2048+placement.start≤w ∧ w<2048+placement.start+placement.pages

/-- Mapping regions leaves all other words alone. -/
theorem mapRegions_apart (hfits : ∀ placement∈placements,placement.InWindow)
    (hapart : ∀ placement∈placements,¬placement.Holds w) (memory : Memory) :
    entryAt ((placements.map Placement.region).foldl (mapAddressSpace (pml4+0x4000)) memory)
      pml4 w=entryAt memory pml4 w := by
  induction placements generalizing memory with
  | nil => rfl
  | cons first rest ih =>
    obtain ⟨hfirst,hrest⟩ := List.forall_mem_cons.mp hfits
    obtain ⟨hout,hothers⟩ := List.forall_mem_cons.mp hapart
    rw [List.map_cons,List.foldl_cons,ih hrest hothers,Placement.map_words hfirst]
    exact if_neg hout

/-- Regions one behind another. -/
def Behind (first second : Placement) : Prop := first.start+first.pages≤ second.start

/-- The entry of a page of a region after all regions are mapped. -/
theorem mapRegions_page (hfits : ∀ placement∈placements,placement.InWindow)
    (hbehind : placements.Pairwise Behind) (hm : placement∈placements) {i : ℕ}
    (hi : i<placement.pages) (memory : Memory) :
    ∃ entry, entryAt ((placements.map Placement.region).foldl (mapAddressSpace (pml4+0x4000))
      memory) pml4 (2048+placement.start+i)=
        bootPageEntry entry (u64 (placement.physical+i*4096)) placement.writeCombining := by
  induction placements generalizing memory with
  | nil => cases hm
  | cons first rest ih =>
    obtain ⟨hfirst,hrest⟩ := List.forall_mem_cons.mp hfits
    obtain ⟨hnext,hpairs⟩ := List.pairwise_cons.mp hbehind
    rw [List.map_cons,List.foldl_cons]
    rcases List.mem_cons.mp hm with rfl|hmem
    · have hothers : ∀ other∈rest,¬other.Holds (2048+placement.start+i) := by
        intro other ho hholds
        have hb := hnext other ho
        rw [Behind] at hb
        rw [Placement.Holds] at hholds
        omega
      rw [mapRegions_apart pml4 hrest hothers,Placement.map_words hfirst,if_pos (by omega),
        Nat.add_sub_cancel_left]
      exact ⟨_,rfl⟩
    · exact ih hrest hpairs hmem _

end Regions

section Walks

variable {memory : Memory} {pml4 count index : ℕ}

/-- Indices of a page of the window. -/
theorem indexAt_layout (hi : index<2^18) :
    indexAt 3 (kernelVirtualBase+index*4096)=511 ∧ indexAt 2 (kernelVirtualBase+index*4096)=510 ∧
    indexAt 1 (kernelVirtualBase+index*4096)=index/512 ∧
    indexAt 0 (kernelVirtualBase+index*4096)=index%512 := by
  simp only [indexAt,kernelVirtualBase]
  norm_num
  omega

/-- The upper tables as the bootloader leaves them. -/
structure UpperTables (memory : Memory) (pml4 count : ℕ) : Prop where
  /-- The root. -/
  root : entryAt memory pml4 511=kernelDirectoryEntry 0#64 (pml4+0x1000)
  /-- The page-directory-pointer table. -/
  pointer : entryAt memory pml4 1022=kernelDirectoryEntry 0#64 (pml4+0x3000)
  /-- The page directory. -/
  directory : ∀ j, j<512 → entryAt memory pml4 (1536+j)=
    if j<count then kernelDirectoryEntry 0#64 (pml4+0x4000+j*4096) else 0#64

/-- The upper tables before any region is mapped. -/
theorem upperTables_linkTables (memory : Memory) (pml4 count : ℕ) :
    UpperTables (linkTables (linkUpper (clearTables memory pml4) pml4) pml4 count) pml4 count := by
  obtain ⟨hroot,hpointer,hzero⟩ := linkUpper_words (clearTables memory pml4) pml4
    (fun w hw => clearTables_words memory pml4 hw)
  refine ⟨?_,?_,?_⟩
  · rw [linkTables_words,if_neg (by omega),hroot]
  · rw [linkTables_words,if_neg (by omega),hpointer]
  · intro j hj
    rw [linkTables_words,hzero _ (by omega) (by omega),Nat.add_sub_cancel_left,Page]
    by_cases hc : j<count
    · rw [if_pos (by omega),if_pos hc]
    · rw [if_neg (by omega),if_neg hc]

/-- The walk of a page goes through its directory entry and the word of the
page. -/
theorem UpperTables.walk (h : UpperTables memory pml4 count) (ha : pml4%4096=0)
    (hlt : pml4+0x204000≤2^40) (hi : index<2^18) :
    walkFrom memory 4 pml4 (kernelVirtualBase+index*4096)=
      if index/512<count then
        if Present (entryAt memory pml4 (2048+index)) then
          some (target (entryAt memory pml4 (2048+index)))
        else none
      else none := by
  obtain ⟨h3,h2,h1,h0⟩ := indexAt_layout hi
  have hempty : ¬Large 0#64 := by decide
  have hnarrow : Narrow 0#64 := getField_zero (by decide)
  obtain ⟨p3,l3,-,t3⟩ := installs_kernel 0#64 (pml4+0x1000) hempty hnarrow (by omega) (by omega)
  obtain ⟨p2,l2,-,t2⟩ := installs_kernel 0#64 (pml4+0x3000) hempty hnarrow (by omega) (by omega)
  have hdirectory := h.directory (index/512) (by omega)
  have hoffset : (kernelVirtualBase+index*4096)%4096=0 := by
    rw [kernelVirtualBase]
    omega
  rw [walkFrom_descend (by rw [h3,h.root]; exact ⟨p3,fun hl => l3 hl.2⟩),h3,h.root,t3]
  rw [walkFrom_descend (by
    rw [h2,(pdpt_words memory pml4 510 0#64).1,h.pointer]
    exact ⟨p2,fun hl => l2 hl.2⟩),h2,(pdpt_words memory pml4 510 0#64).1,h.pointer,t2]
  by_cases hc : index/512<count
  · obtain ⟨p1,l1,-,t1⟩ := installs_kernel 0#64 (pml4+0x4000+index/512*4096) hempty hnarrow
      (by omega) (by omega)
    rw [if_pos hc] at hdirectory ⊢
    rw [walkFrom_descend (by
      rw [h1,(directory_words memory pml4 _ 0#64).1,hdirectory]
      exact ⟨p1,fun hl => l1 hl.2⟩),h1,(directory_words memory pml4 _ 0#64).1,hdirectory,t1]
    have hentry : entryAt memory (pml4+0x4000+index/512*4096) (index%512)=
        entryAt memory pml4 (2048+index) := by
      have hbase : pml4+0x4000+index/512*4096=pml4+8*(2048+index/512*512) := by omega
      rw [hbase,entryAt_shift,Nat.add_assoc,Nat.div_add_mod']
    rw [walkFrom,h0,hentry]
    by_cases hp : Present (entryAt memory pml4 (2048+index))
    · rw [if_pos hp,if_pos hp,if_neg (by omega),walkFrom,hoffset,Nat.add_zero]
    · rw [if_neg hp,if_neg hp]
  · rw [if_neg hc] at hdirectory ⊢
    refine walkFrom_absent ?_
    rw [h1,(directory_words memory pml4 _ 0#64).1,hdirectory]
    exact not_present_zero

end Walks

namespace Boot

/-- First page of the stack. -/
def stackStart (boot : Boot) : ℕ :=
  boot.kernelPages+bootStatePageCount+boot.pageTableSize+bytesToPages boot.finalMapSize+
    bytesToPages boot.framebufferSize+5

/-- The whole layout fits the gibibyte of the kernel page directory. -/
def Fits (boot : Boot) : Prop :=
  boot.stackStart+kernelStackPageCount+1+boot.bitmapSizeInPages≤2^18

/-- Pages of the layout up to the last page mapped. -/
def layoutPages (boot : Boot) : ℕ :=
  if boot.bitmapSizeInPages=0 then boot.stackStart+kernelStackPageCount
  else boot.stackStart+kernelStackPageCount+1+boot.bitmapSizeInPages

instance (boot : Boot) : Decidable boot.Fits := inferInstanceAs (Decidable (_≤_))

/-- The place of the kernel. -/
def kernelPlace (boot : Boot) : Placement :=
  ⟨boot.kernelPhysicalBase,0,boot.kernelPages,false⟩

/-- The place of the boot state. -/
def bootStatePlace (boot : Boot) : Placement :=
  ⟨boot.bootStateBase,boot.kernelPages+1,bootStatePageCount,false⟩

/-- The place of the initial pages. -/
def initialPlace (boot : Boot) : Placement :=
  ⟨boot.initialPages.physicalBase,boot.kernelPages+bootStatePageCount+2,boot.pageTableSize,false⟩

/-- The place of the memory map. -/
def mapPlace (boot : Boot) : Placement :=
  ⟨boot.memoryMapDescriptors,boot.kernelPages+bootStatePageCount+boot.pageTableSize+3,
    bytesToPages boot.finalMapSize,false⟩

/-- The place of the framebuffer. -/
def framebufferPlace (boot : Boot) : Placement :=
  ⟨boot.framebufferBase,boot.kernelPages+bootStatePageCount+boot.pageTableSize+
    bytesToPages boot.finalMapSize+4,bytesToPages boot.framebufferSize,true⟩

/-- The place of the stack. -/
def stackPlace (boot : Boot) : Placement :=
  ⟨boot.kernelStackPhysicalBase,boot.stackStart,kernelStackPageCount,false⟩

/-- The place of the frame allocator. -/
def bitmapPlace (boot : Boot) : Placement :=
  ⟨boot.bitmapPhysicalBase,boot.stackStart+kernelStackPageCount+1,boot.bitmapSizeInPages,false⟩

/-- The regions by their place in the layout. -/
def placements (boot : Boot) : List Placement :=
  [boot.kernelPlace,boot.bootStatePlace,boot.initialPlace,boot.mapPlace,boot.framebufferPlace,
    boot.stackPlace,boot.bitmapPlace]

/-- A region behind another one whose place is known. -/
theorem region_behind {last next : Placement} {mapping : VirtualMapping} (h : last.Fits)
    (hstart : next.start=last.start+last.pages+1) (hfits : next.Fits)
    (hp : mapping.physicalBase=next.physical)
    (hv : mapping.virtualBase=nextVirtualMapping last.region.1)
    (hsize : mapping.size=u64 (next.pages*Page)) : mapping=next.region.1 := by
  rw [Placement.Fits] at hfits
  have hbytes : u64 (next.pages*Page)=next.pages*4096 := by
    rw [Page,u64_of_lt (by omega)]
  rw [hbytes] at hsize
  rw [Placement.next h,←hstart] at hv
  cases mapping
  cases hp
  cases hv
  cases hsize
  rfl

variable {boot : Boot}

/-- The places one behind another, each with a guard page before it, up to
the end of the layout. -/
theorem places_chain (h : boot.Fits) :
    boot.kernelPlace.Fits ∧ boot.bootStatePlace.Fits ∧ boot.initialPlace.Fits ∧
    boot.mapPlace.Fits ∧ boot.framebufferPlace.Fits ∧ boot.stackPlace.Fits ∧
    boot.bitmapPlace.Fits := by
  simp only [Fits,stackStart] at h
  simp only [Placement.Fits,kernelPlace,bootStatePlace,initialPlace,mapPlace,framebufferPlace,
    stackPlace,bitmapPlace,stackStart]
  omega

/-- Every place fits. -/
theorem placements_fit (h : boot.Fits) : ∀ placement∈boot.placements,placement.Fits := by
  obtain ⟨h0,h1,h2,h3,h4,h5,h6⟩ := places_chain h
  simp only [placements,List.forall_mem_cons,List.not_mem_nil,false_implies,implies_true,
    and_true]
  exact ⟨h0,h1,h2,h3,h4,h5,h6⟩

/-- So every place is in the window. -/
theorem placements_inWindow (h : boot.Fits) : ∀ placement∈boot.placements,placement.InWindow :=
  fun placement hm => (placements_fit h placement hm).inWindow

/-- The places do not overlap. -/
theorem placements_behind (boot : Boot) : boot.placements.Pairwise Behind := by
  simp only [placements,List.pairwise_cons,List.forall_mem_cons,List.not_mem_nil,false_implies,
    implies_true,and_true,Behind,kernelPlace,bootStatePlace,initialPlace,mapPlace,
    framebufferPlace,stackPlace,bitmapPlace,stackStart,List.Pairwise.nil]
  omega

/-- The chain of regions is the layout. -/
theorem regions_eq (h : boot.Fits) : boot.regions=boot.placements.map Placement.region := by
  obtain ⟨f0,f1,f2,f3,f4,f5,f6⟩ := places_chain h
  have e0 : boot.kernel=boot.kernelPlace.region.1 := by
    have hbytes : u64 (boot.kernelPages*Page)=boot.kernelPages*4096 := by
      simp only [Placement.Fits,kernelPlace] at f0
      rw [Page,u64_of_lt (by omega)]
    simp only [kernel,kernelPlace,Placement.region,hbytes,Nat.zero_mul,Nat.add_zero,
      kernelVirtualBase]
  have e1 : boot.bootState=boot.bootStatePlace.region.1 :=
    region_behind f0 (by simp only [kernelPlace,bootStatePlace]; omega) f1 rfl
      (by rw [←e0]; rfl) rfl
  have e2 : boot.initialPages=boot.initialPlace.region.1 :=
    region_behind f1 (by simp only [bootStatePlace,initialPlace]; omega) f2 rfl
      (by rw [←e1]; rfl) rfl
  have e3 : boot.memoryMapRegion=boot.mapPlace.region.1 :=
    region_behind f2 (by simp only [initialPlace,mapPlace]; omega) f3 rfl
      (by rw [←e2]; rfl) rfl
  have e4 : boot.framebuffer=boot.framebufferPlace.region.1 :=
    region_behind f3 (by simp only [mapPlace,framebufferPlace]; omega) f4 rfl
      (by rw [←e3]; rfl) rfl
  have e5 : boot.stack=boot.stackPlace.region.1 :=
    region_behind f4 (by simp only [framebufferPlace,stackPlace,stackStart]; omega) f5 rfl
      (by rw [←e4]; rfl) rfl
  have e6 : boot.frameAllocator=boot.bitmapPlace.region.1 :=
    region_behind f5 (by simp only [stackPlace,bitmapPlace]) f6 rfl (by rw [←e5]; rfl) rfl
  rw [regions,e0,e1,e2,e3,e4,e5,e6]
  rfl

end Boot

section Layout

variable {boot : Boot} {memory : Memory}

/-- The upper tables stand when all regions are mapped. -/
theorem bootMapping_upper (h : boot.Fits) (memory : Memory) :
    UpperTables (bootMapping boot memory) boot.initialPages.physicalBase boot.pageTablesCount := by
  have hlow : ∀ w, w<2048 → ∀ placement∈boot.placements,¬placement.Holds w := by
    intro w hw placement _ hholds
    rw [Placement.Holds] at hholds
    omega
  have hupper := upperTables_linkTables memory boot.initialPages.physicalBase boot.pageTablesCount
  rw [bootMapping,Boot.regions_eq h]
  refine ⟨?_,?_,?_⟩
  · rw [mapRegions_apart _ (Boot.placements_inWindow h) (hlow _ (by decide))]
    exact hupper.root
  · rw [mapRegions_apart _ (Boot.placements_inWindow h) (hlow _ (by decide))]
    exact hupper.pointer
  · intro j hj
    rw [mapRegions_apart _ (Boot.placements_inWindow h) (hlow _ (by omega))]
    exact hupper.directory j hj

/-- Regions end below the limit of physical addresses. -/
def PhysicalBelow (boot : Boot) : Prop :=
  ∀ region∈boot.regions,region.1.physicalBase+region.1.size≤2^52

/-- A page of a region is translated when its page table is linked, and not at
all otherwise. -/
theorem walk_region (h : boot.Fits) (ha : boot.initialPages.physicalBase%4096=0)
    (hlt : boot.initialPages.physicalBase+0x204000≤2^40) (hp : PhysicalBelow boot)
    {placement : Placement} (hm : placement∈boot.placements) {i : ℕ} (hi : i<placement.pages) :
    walkFrom (bootMapping boot memory) 4 boot.initialPages.physicalBase
      (placement.region.1.virtualBase+i*4096)=
      if (placement.start+i)/512<boot.pageTablesCount then
        some ((placement.region.1.physicalBase+i*4096)/4096*4096)
      else none := by
  have hfits := Boot.placements_fit h placement hm
  rw [Placement.Fits] at hfits
  have hbelow : placement.physical+placement.pages*4096≤2^52 := by
    have hregion := hp placement.region (by
      rw [Boot.regions_eq h]
      exact List.mem_map.mpr ⟨placement,hm,rfl⟩)
    exact hregion
  obtain ⟨entry,hentry⟩ := mapRegions_page boot.initialPages.physicalBase
    (Boot.placements_inWindow h) (Boot.placements_behind boot) hm hi
    (linkTables (linkUpper (clearTables memory boot.initialPages.physicalBase)
      boot.initialPages.physicalBase) boot.initialPages.physicalBase boot.pageTablesCount)
  have hword : entryAt (bootMapping boot memory) boot.initialPages.physicalBase
      (2048+(placement.start+i))=
        bootPageEntry entry (placement.physical+i*4096) placement.writeCombining := by
    rw [u64_of_lt (by omega)] at hentry
    rw [bootMapping,Boot.regions_eq h,←Nat.add_assoc,hentry]
  obtain ⟨hpresent,htarget⟩ := bootPageEntry_maps entry
    (show placement.physical+i*4096<2^52 by omega) placement.writeCombining
  have hplace : placement.region.1.virtualBase+i*4096=
      kernelVirtualBase+(placement.start+i)*4096 := by
    simp only [Placement.region]
    omega
  rw [hplace,(bootMapping_upper h memory).walk ha hlt (by omega),hword,if_pos hpresent,htarget]
  rfl

/-- The translation of the layout in terms of its places. -/
theorem layoutTranslated_iff (h : boot.Fits) (ha : boot.initialPages.physicalBase%4096=0)
    (hlt : boot.initialPages.physicalBase+0x204000≤2^40) (hp : PhysicalBelow boot) :
    LayoutTranslated boot memory↔∀ placement∈boot.placements,∀ i, i<placement.pages →
      (placement.start+i)/512<boot.pageTablesCount := by
  have hcount : ∀ placement : Placement, placement.region.1.size/Page=placement.pages :=
    fun placement => Nat.mul_div_cancel _ (by decide)
  rw [LayoutTranslated,Boot.regions_eq h]
  constructor
  · intro ht placement hm i hi
    have hwalk := ht _ (List.mem_map.mpr ⟨placement,hm,rfl⟩) i ((hcount placement).symm ▸ hi)
    rw [walk_region h ha hlt hp hm hi] at hwalk
    by_contra hno
    rw [if_neg hno] at hwalk
    cases hwalk
  · intro ht region hregion i hi
    obtain ⟨placement,hm,rfl⟩ := List.mem_map.mp hregion
    rw [hcount] at hi
    rw [walk_region h ha hlt hp hm hi,if_pos (ht placement hm i hi)]

/-- Pages of a region lie before the end of the layout. -/
theorem place_lt_layoutPages {placement : Placement} (hm : placement∈boot.placements) {i : ℕ}
    (hi : i<placement.pages) : placement.start+i<boot.layoutPages := by
  rw [Boot.layoutPages]
  simp only [Boot.placements,List.mem_cons,List.not_mem_nil,or_false] at hm
  rcases hm with rfl|rfl|rfl|rfl|rfl|rfl|rfl <;>
    simp only [Boot.kernelPlace,Boot.bootStatePlace,Boot.initialPlace,Boot.mapPlace,
      Boot.framebufferPlace,Boot.stackPlace,Boot.bitmapPlace,Boot.stackStart] at hi ⊢ <;>
    split <;> omega

/-- The paging structures begin behind the kernel. -/
theorem pagingBase_eq (hlt : boot.kernelPhysicalBase+boot.kernelPages*4096+0x204000≤2^40) :
    boot.initialPages.physicalBase=boot.kernelPhysicalBase+boot.kernelPages*4096 := by
  have hbytes : u64 (boot.kernelPages*4096)=boot.kernelPages*4096 := u64_of_lt (by omega)
  simp only [Boot.initialPages,Page]
  rw [hbytes,u64_of_lt (by omega)]

end Layout

/-- After the mapping phase every page of every region is translated to its
physical page if and only if the layout is no longer than the page tables
that the running total had linked. -/
theorem layout_translated_iff (boot : Boot) (memory : Memory) (h : boot.Fits)
    (ha : boot.kernelPhysicalBase%4096=0)
    (hlt : boot.kernelPhysicalBase+boot.kernelPages*4096+0x204000≤2^40)
    (hp : PhysicalBelow boot) :
    LayoutTranslated boot memory↔boot.layoutPages≤512*boot.pageTablesCount := by
  have hbase := pagingBase_eq hlt
  rw [layoutTranslated_iff h (by omega) (by omega) hp]
  constructor
  · intro ht
    rw [Boot.layoutPages]
    by_cases hz : boot.bitmapSizeInPages=0
    · -- the last page mapped is the end of the stack
      have hstack := ht boot.stackPlace (by simp [Boot.placements]) 9
        (by simp only [Boot.stackPlace,kernelStackPageCount]; omega)
      simp only [Boot.stackPlace] at hstack
      rw [if_pos hz,kernelStackPageCount]
      omega
    · have hbitmap := ht boot.bitmapPlace (by simp [Boot.placements])
        (boot.bitmapSizeInPages-1) (by simp only [Boot.bitmapPlace]; omega)
      simp only [Boot.bitmapPlace] at hbitmap
      rw [if_neg hz]
      omega
  · intro hle placement hm i hi
    have hplace := place_lt_layoutPages hm hi
    omega

/-- A kernel of 100 pages on a screen of 1280 by 1024, and a firmware that
wants four pages preserved. -/
def sampleBoot (bitmapSizeInPages : ℕ) : Boot where
  kernelPages := 100
  memoryMap := [⟨.conventional,0x100000,0x40000⟩,⟨.runtimeServicesData,0x7f000000,4⟩]
  memoryMapSize := 96
  finalMapSize := 96
  framebufferSize := 5242880
  bitmapSizeInPages := bitmapSizeInPages
  kernelPhysicalBase := 0x1000000
  bootStateBase := 0x2000000
  memoryMapDescriptors := 0x2001000
  framebufferBase := 0x80000000
  kernelStackPhysicalBase := 0x2002000
  bitmapPhysicalBase := 0x2010000

/-- With a bitmap of 16 pages the layout is linked. -/
theorem layout_translated_sample : LayoutTranslated (sampleBoot 16) (fun _ => 0) :=
  (layout_translated_iff (sampleBoot 16) (fun _ => 0) (by decide +kernel) (by decide)
    (by decide) (by rw [PhysicalBelow]; decide +kernel)).mpr (by decide +kernel)

/-- With a bitmap of 138 pages the total is 1536 and three page tables are
linked, but the layout has 1543 pages. -/
theorem layout_not_always_translated :
    ¬∀ (boot : Boot) (memory : Memory), boot.Fits → boot.kernelPhysicalBase%4096=0 →
      boot.kernelPhysicalBase+boot.kernelPages*4096+0x204000≤2^40 → PhysicalBelow boot →
      LayoutTranslated boot memory := by
  intro h
  have hfits : (sampleBoot 138).Fits := by decide +kernel
  have hbelow : PhysicalBelow (sampleBoot 138) := by
    rw [PhysicalBelow]
    decide +kernel
  have ht := h (sampleBoot 138) (fun _ => 0) hfits (by decide) (by decide) hbelow
  rw [layoutTranslated_iff hfits (by decide +kernel) (by decide +kernel) hbelow] at ht
  have hlast := ht (sampleBoot 138).bitmapPlace (by simp [Boot.placements]) 137 (by decide)
  exact absurd hlast (by decide +kernel)

end WorkbenchOS.BootPageTables
