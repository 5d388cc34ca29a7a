import WorkbenchOS.FrameRuns

/-!
# From the firmware's memory map to the frame bitmap

The bootloader sizes the bitmap from one loop over the EFI memory map
(`Bootloader/main.cpp`), the kernel blocks out frames in another
(`MemoryManager::init`). Both loops are here, with the storage the first one
provides and the words the second one touches, and the runs of the physical
page allocator that follow.
-/

namespace WorkbenchOS.PhysicalMemory

open ByteMemory LibStd WordBitmaps FrameBitmap FrameOperations FrameRuns TransitionRuns

/-- `EFI::MemoryType`; descriptors carry a 32-bit number, so there are others. -/
inductive MemoryType where
  /-- `EFI_RESERVED_MEMORY_TYPE`. -/
  | reserved
  /-- `EFI_LOADER_CODE`. -/
  | loaderCode
  /-- `EFI_LOADER_DATA`. -/
  | loaderData
  /-- `EFI_BOOT_SERVICES_CODE`. -/
  | bootServicesCode
  /-- `EFI_BOOT_SERVICES_DATA`. -/
  | bootServicesData
  /-- `EFI_RUNTIME_SERVICES_CODE`. -/
  | runtimeServicesCode
  /-- `EFI_RUNTIME_SERVICES_DATA`. -/
  | runtimeServicesData
  /-- `EFI_CONVENTIONAL_MEMORY`. -/
  | conventional
  /-- `EFI_UNUSABLE_MEMORY`. -/
  | unusable
  /-- `EFI_ACPI_RECLAIM_MEMORY`. -/
  | acpiReclaim
  /-- `EFI_ACPI_MEMORY_NVS`. -/
  | acpiMemoryNvs
  /-- `EFI_MEMORY_MAPPED_IO`. -/
  | memoryMappedIo
  /-- `EFI_MEMORY_MAPPED_IO_PORT_SPACE`. -/
  | memoryMappedIoPortSpace
  /-- `EFI_PAL_CODE`. -/
  | palCode
  /-- `EFI_PERSISTENT_MEMORY`. -/
  | persistent
  /-- A number the header does not name. -/
  | other (code : ℕ)
  deriving DecidableEq

/-- The fields of `EFI::MemoryDescriptor` that the two loops read. -/
structure MemoryDescriptor where
  /-- `type`. -/
  type : MemoryType
  /-- `physical_start`. -/
  physicalStart : ℕ
  /-- `number_of_pages`. -/
  numberOfPages : ℕ
  deriving DecidableEq

/-- `get_physical_memory_extent`. Every descriptor that is not unusable
overwrites the mark. -/
def getPhysicalMemoryExtent (memoryMap : List MemoryDescriptor) : ℕ :=
  memoryMap.foldl (fun highWaterMark descriptor =>
    match descriptor.type with
    | .unusable => highWaterMark
    | _ => u64 (descriptor.physicalStart+u64 (descriptor.numberOfPages*Page))) 0

/-- `bitmap_required_size_in_bytes`. -/
def bitmapRequiredSizeInBytes (poolSize unitSize : ℕ) : ℕ :=
  let poolSizeInBits := u64 (poolSize/unitSize*2)
  poolSizeInBits/8

/-- `divide_rounded_up`. -/
def divideRoundedUp (value divisor : ℕ) : ℕ := u64 (value+(divisor-1))/divisor

/-- `bytes_to_pages` of the bootloader. -/
def bytesToPages (bytes : ℕ) : ℕ := divideRoundedUp bytes Page

/-- Pages the bootloader allocates for the bitmap. -/
def bitmapSizeInPages (memoryMap : List MemoryDescriptor) : ℕ :=
  divideRoundedUp (bitmapRequiredSizeInBytes (getPhysicalMemoryExtent memoryMap) Page) Page

/-- `PhysicalAddress::from_base_and_page_offset`. -/
def fromBaseAndPageOffset (baseAddress pageOffset : ℕ) : ℕ := u64 (baseAddress+pageOffset*Page)

/-- The types `MemoryManager::init` considers as used. -/
def consideredUsed : MemoryType→Bool
  | .palCode => true
  | .loaderData => true
  | .bootServicesData => true
  | .runtimeServicesCode => true
  | .runtimeServicesData => true
  | .acpiReclaim => true
  | .acpiMemoryNvs => true
  | .unusable => true
  | .persistent => true
  | _ => false

/-- Addresses of the first pages of a range. -/
def pageAddresses (baseAddress count : ℕ) : List ℕ :=
  (List.range count).map (fromBaseAndPageOffset baseAddress)

/-- Addresses that one descriptor makes `init` mark; the loop counter is an
`int`. -/
def descriptorAddresses (descriptor : MemoryDescriptor) : List ℕ :=
  if consideredUsed descriptor.type then
    pageAddresses descriptor.physicalStart (min descriptor.numberOfPages intIterations)
  else []

/-- Every address `MemoryManager::init` passes to `set_allocated`, in order:
the used descriptors, then everything below 1 MiB. -/
def blockedAddresses (memoryMap : List MemoryDescriptor) : List ℕ :=
  memoryMap.flatMap descriptorAddresses++pageAddresses 0 256

/-- The bitmap before `init`, as its member initialisers leave it. -/
def uninitialised (storage : Words) : Bitmap where
  pageSize := 0
  totalPages := 0
  freePages := 0
  blockCount := 0
  blockFullSize := 0
  storage := storage
  baseAddress := 0

/-- `m_bitmap.init` as `MemoryManager::init` calls it; the result is ignored. -/
def initBitmap (storage : Words) (physicalMemorySize : ℕ) : Bitmap :=
  match init storage Page physicalMemorySize 0 with
  | .ok bitmap => bitmap
  | .error _ => uninitialised storage

/-- The bitmap once `MemoryManager::init` has blocked out used memory. -/
def blockOut (storage : Words) (physicalMemorySize : ℕ) (memoryMap : List MemoryDescriptor) :
    Bitmap :=
  (blockedAddresses memoryMap).foldl setAllocated (initBitmap storage physicalMemorySize)

/-- Indices of the words that `set_allocated` reads and writes for a list of
addresses. -/
def accessedWords (bitmap : Bitmap) (addresses : List ℕ) : List ℕ :=
  addresses.map (fun address => (addressToBlockAndOffset bitmap address).block)

/-- The bitmap of the kernel: four-kilobyte frames from address zero. -/
structure KernelBitmap (bitmap : Bitmap) : Prop where
  /-- Frames are pages. -/
  page_eq : bitmap.pageSize=4096
  /-- A block is 64 pages. -/
  full_eq : bitmap.blockFullSize=262144
  /-- Frames are numbered from physical address zero. -/
  base_eq : bitmap.baseAddress=0

/-- The kernel's call of `init` succeeds. -/
theorem initBitmap_spec (storage : Words) (physicalMemorySize : ℕ) :
    init storage Page physicalMemorySize 0=.ok (initBitmap storage physicalMemorySize) ∧
      KernelBitmap (initBitmap storage physicalMemorySize) := by
  have hpage : ¬(Page=0 ∨ Page &&& (Page-1)≠0) := by decide
  have hbase : ¬0%Page≠0 := by decide
  unfold initBitmap
  simp only [init,if_neg hpage,if_neg hbase]
  exact ⟨trivial,⟨rfl,(by decide : u64 (Page*pagesPerBlock)=262144),rfl⟩⟩

section Marking

variable {bitmap : Bitmap}

/-- Decoding in the kernel bitmap, for any 64-bit address. -/
theorem decode_kernel (h : KernelBitmap bitmap) {address : ℕ} (ha : address<2^64) :
    addressToBlockAndOffset bitmap address=⟨address/4096/64,address/4096%64⟩ := by
  have hsub : u64Sub address 0=address := u64Sub_of_le (Nat.zero_le _) ha
  simp only [addressToBlockAndOffset,h.base_eq,h.full_eq,h.page_eq,hsub,
    Nat.div_div_eq_div_mul,show (262144 : ℕ)=4096*64 by norm_num,Nat.mod_mul_right_div_self]

/-- `set_allocated` in the kernel bitmap marks the page of the address. -/
theorem setAllocated_kernel (h : KernelBitmap bitmap) {address : ℕ} (ha : address<2^64) :
    setAllocated bitmap address=markFrame bitmap (address/4096) := by
  rw [setAllocated,decode_kernel h ha]
  rfl

/-- Marking keeps the kernel bitmap's geometry. -/
theorem kernelBitmap_setAllocated (h : KernelBitmap bitmap) (address : ℕ) :
    KernelBitmap (setAllocated bitmap address) ∧ SameShape bitmap (setAllocated bitmap address) := by
  have hshape : SameShape bitmap (setAllocated bitmap address) := sameShape_with _ _ _
  exact ⟨⟨hshape.page_eq.trans h.page_eq,hshape.full_eq.trans h.full_eq,
    hshape.base_eq.trans h.base_eq⟩,hshape⟩

/-- After marking a list of addresses, all their pages are set, and what was
set before still is. -/
theorem foldl_setAllocated (h : KernelBitmap bitmap) {addresses : List ℕ}
    (ha : ∀ address∈addresses,address<2^64) :
    SameShape bitmap (addresses.foldl setAllocated bitmap) ∧
      KernelBitmap (addresses.foldl setAllocated bitmap) ∧
      ∀ k, (bitAt bitmap.storage k=true ∨ ∃ address∈addresses,address/4096=k) →
        bitAt (addresses.foldl setAllocated bitmap).storage k=true := by
  induction addresses generalizing bitmap with
  | nil => exact ⟨SameShape.refl _,h,fun k hk => hk.elim id (fun ⟨_,hm,_⟩ => by cases hm)⟩
  | cons address rest ih =>
    obtain ⟨hfirst,hrest⟩ := List.forall_mem_cons.mp ha
    obtain ⟨hkernel,hshape⟩ := kernelBitmap_setAllocated h address
    obtain ⟨hshape',hkernel',hbits⟩ := ih hkernel hrest
    rw [List.foldl_cons]
    refine ⟨hshape.trans hshape',hkernel',fun k hk => hbits k ?_⟩
    rw [setAllocated_kernel h hfirst,bitAt_markFrame,Bool.or_eq_true,decide_eq_true_eq]
    rcases hk with hset|⟨found,hm,hpage⟩
    · exact Or.inl (Or.inl hset)
    · rcases List.mem_cons.mp hm with rfl|hm
      · exact Or.inl (Or.inr hpage.symm)
      · exact Or.inr ⟨found,hm,hpage⟩

end Marking

/-- Every address passed to `set_allocated` is a 64-bit one. -/
theorem blockedAddresses_lt (memoryMap : List MemoryDescriptor) :
    ∀ address∈blockedAddresses memoryMap,address<2^64 := by
  have hpages : ∀ base count, ∀ address∈pageAddresses base count,address<2^64 := by
    intro base count address hm
    obtain ⟨i,-,rfl⟩ := List.mem_map.mp hm
    exact u64_lt _
  intro address hm
  rcases List.mem_append.mp hm with hd|hl
  · obtain ⟨descriptor,-,hin⟩ := List.mem_flatMap.mp hd
    unfold descriptorAddresses at hin
    split at hin
    · exact hpages _ _ address hin
    · cases hin
  · exact hpages _ _ address hl

/-- The extent is a 64-bit number. -/
theorem getPhysicalMemoryExtent_lt (memoryMap : List MemoryDescriptor) :
    getPhysicalMemoryExtent memoryMap<2^64 := by
  unfold getPhysicalMemoryExtent
  refine List.foldlRecOn (motive := fun mark => mark<2^64) memoryMap _ (by decide) ?_
  intro mark hm descriptor _
  split
  · exact hm
  · exact u64_lt _

/-- Pages of bitmap storage: two bits for each page of memory, rounded up. -/
theorem bitmapSizeInPages_eq (memoryMap : List MemoryDescriptor) :
    bitmapSizeInPages memoryMap=(getPhysicalMemoryExtent memoryMap/2^14+4095)/4096 := by
  have hlt := getPhysicalMemoryExtent_lt memoryMap
  unfold bitmapSizeInPages divideRoundedUp bitmapRequiredSizeInBytes u64 Page
  dsimp only
  omega

/-- While blocking out, `init` stays inside the storage the bootloader
provided exactly when the extent is at least 16 KiB and every page of a used
descriptor lies below what that storage can track. -/
theorem blockOut_inside_storage_iff (storage : Words) (memoryMap : List MemoryDescriptor) :
    (∀ word∈accessedWords (initBitmap storage (getPhysicalMemoryExtent memoryMap))
        (blockedAddresses memoryMap),8*word+8≤bitmapSizeInPages memoryMap*Page) ↔
      2^14≤getPhysicalMemoryExtent memoryMap ∧
        ∀ descriptor∈memoryMap,consideredUsed descriptor.type=true →
          ∀ i, i < min descriptor.numberOfPages intIterations →
            fromBaseAndPageOffset descriptor.physicalStart i<
              2^27*((getPhysicalMemoryExtent memoryMap/2^14+4095)/4096) := by
  have hkernel := (initBitmap_spec storage (getPhysicalMemoryExtent memoryMap)).2
  have hlt := blockedAddresses_lt memoryMap
  rw [bitmapSizeInPages_eq]
  set extent := getPhysicalMemoryExtent memoryMap
  have hword : ∀ address∈blockedAddresses memoryMap,
      8*(addressToBlockAndOffset (initBitmap storage extent) address).block+8≤
        (extent/2^14+4095)/4096*Page ↔ address<2^27*((extent/2^14+4095)/4096) := by
    intro address hm
    rw [decode_kernel hkernel (hlt address hm)]
    unfold Page
    dsimp only
    omega
  have hall : (∀ word∈accessedWords (initBitmap storage extent) (blockedAddresses memoryMap),
      8*word+8≤(extent/2^14+4095)/4096*Page) ↔
      ∀ address∈blockedAddresses memoryMap,address<2^27*((extent/2^14+4095)/4096) := by
    rw [accessedWords,List.forall_mem_map]
    exact forall₂_congr hword
  rw [hall,blockedAddresses,List.forall_mem_append,and_comm]
  refine and_congr ?_ ?_
  · -- the first page forces one page of storage, which is enough for all 256
    unfold pageAddresses
    rw [List.forall_mem_map]
    constructor
    · intro h
      have hzero := h 0 (List.mem_range.mpr (by omega))
      unfold fromBaseAndPageOffset u64 at hzero
      omega
    · intro h i hi
      have hi' := List.mem_range.mp hi
      unfold fromBaseAndPageOffset u64 Page
      omega
  · rw [List.forall_mem_flatMap]
    refine forall₂_congr (fun descriptor _ => ?_)
    unfold descriptorAddresses
    split
    · rename_i hused
      unfold pageAddresses
      rw [List.forall_mem_map]
      simp only [List.mem_range,hused,true_implies]
    · rename_i hfree
      exact iff_of_true (by simp) (fun hused => absurd hused hfree)

/-- Unusable memory behind the last usable descriptor is not part of the
extent, but it is blocked out. -/
theorem blockOut_not_always_inside_storage : ¬∀ (storage : Words)
    (memoryMap : List MemoryDescriptor),
    ∀ word∈accessedWords (initBitmap storage (getPhysicalMemoryExtent memoryMap))
      (blockedAddresses memoryMap),8*word+8≤bitmapSizeInPages memoryMap*Page := by
  intro h
  have hw := h (fun _ => 0#64) [⟨.conventional,0,1024⟩,⟨.unusable,0x40000000,1⟩] 4096
    (List.mem_map.mpr ⟨0x40000000,by decide +kernel,by decide +kernel⟩)
  exact absurd hw (by decide +kernel)

/-- `MemoryManagerError::Kind`. -/
inductive MemoryManagerError where
  /-- The frame allocator failed. -/
  | allocatorError
  /-- Everything else. -/
  | genericError
  deriving DecidableEq,Repr

/-- `MemoryManager::allocate_physical_page`. -/
def allocatePhysicalPage (bitmap : Bitmap) (memory : Memory) :
    Except MemoryManagerError ℕ×Bitmap×Memory :=
  match allocate bitmap memory with
  | (.ok address,after) => (.ok address,after)
  | (.error _,after) => (.error .allocatorError,after)

/-- `MemoryManager::allocate_physical_pages`. -/
def allocatePhysicalPages (bitmap : Bitmap) (memory : Memory) (pageCount : ℕ) :
    Except MemoryManagerError ℕ×Bitmap×Memory :=
  match allocateContiguous bitmap memory pageCount with
  | (.ok address,after) => (.ok address,after)
  | (.error _,after) => (.error .genericError,after)

/-- `MemoryManager::free_page`. -/
def freePage (bitmap : Bitmap) (address : ℕ) : Except MemoryManagerError Unit×Bitmap :=
  match free bitmap address with
  | (.ok _,after) => (.ok (),after)
  | (.error _,after) => (.error .allocatorError,after)

/-- The page allocator with the frames its callers hold. -/
structure PageState where
  /-- The frame bitmap. -/
  bitmap : Bitmap
  /-- Physical memory. -/
  memory : Memory
  /-- Addresses of the frames handed out and not yet freed. -/
  held : List ℕ

/-- A call to the page allocator. -/
inductive PageAction where
  /-- `allocate_physical_page`. -/
  | allocatePhysicalPage
  /-- `allocate_physical_pages`. -/
  | allocatePhysicalPages (pageCount : ℕ)
  /-- `free_page`. -/
  | freePage (address : ℕ)
  deriving DecidableEq

/-- One call. A run of pages hands out all of its frames. -/
def pageStep (state : PageState) : PageAction→Option PageState
  | .allocatePhysicalPage => some (match allocatePhysicalPage state.bitmap state.memory with
    | (.ok address,bitmap,memory) => ⟨bitmap,memory,address::state.held⟩
    | (.error _,bitmap,memory) => ⟨bitmap,memory,state.held⟩)
  | .allocatePhysicalPages pageCount =>
    some (match allocatePhysicalPages state.bitmap state.memory pageCount with
    | (.ok address,bitmap,memory) =>
      ⟨bitmap,memory,(List.range pageCount).map (fun j => address+j*Page)++state.held⟩
    | (.error _,bitmap,memory) => ⟨bitmap,memory,state.held⟩)
  | .freePage address => some (match freePage state.bitmap address with
    | (.ok _,bitmap) => {state with bitmap := bitmap,held := state.held.erase address}
    | (.error _,bitmap) => {state with bitmap := bitmap})

/-- Runs of at most a block are asked for, and only held frames are freed. -/
def PageLegal (state : PageState) : PageAction→Prop
  | .allocatePhysicalPage => True
  | .allocatePhysicalPages pageCount => 1≤pageCount ∧ pageCount≤64
  | .freePage address => address∈state.held

instance (state : PageState) : DecidablePred (PageLegal state)
  | .allocatePhysicalPage => isTrue trivial
  | .allocatePhysicalPages _ => inferInstanceAs (Decidable (_ ∧ _))
  | .freePage _ => inferInstanceAs (Decidable (_∈_))

/-- The page allocator right after `MemoryManager::init` has blocked out used
memory. The page tables that `init` then sets up take frames like any other
caller. -/
def booted (storage : Words) (memory : Memory) (physicalMemorySize : ℕ)
    (memoryMap : List MemoryDescriptor) : PageState :=
  ⟨blockOut storage physicalMemorySize memoryMap,memory,[]⟩

/-- A frame the allocator may hand out: page aligned, at or above 1 MiB,
below the end of physical memory, and holding no page of a used descriptor. -/
structure Allowed (physicalMemorySize : ℕ) (memoryMap : List MemoryDescriptor) (address : ℕ) :
    Prop where
  /-- The address is page aligned. -/
  aligned : address%Page=0
  /-- Memory below 1 MiB is reserved. -/
  above : 0x100000≤address
  /-- The frame is physical memory. -/
  below : address+Page≤physicalMemorySize
  /-- No page of a used descriptor starts in the frame. -/
  unused : ∀ descriptor∈memoryMap,consideredUsed descriptor.type=true →
    ∀ i, i < min descriptor.numberOfPages intIterations →
      ¬(address≤fromBaseAndPageOffset descriptor.physicalStart i ∧
        fromBaseAndPageOffset descriptor.physicalStart i<address+Page)

/-- The page is among those blocked out at boot. -/
def Reserved (memoryMap : List MemoryDescriptor) (frame : ℕ) : Prop :=
  ∃ address∈blockedAddresses memoryMap,address/4096=frame

/-- Blocked pages are set, held frames are tracked and not blocked. -/
structure Guarded (physicalMemorySize : ℕ) (memoryMap : List MemoryDescriptor)
    (state : PageState) : Prop where
  /-- Four-kilobyte frames from address zero. -/
  kernel : KernelBitmap state.bitmap
  /-- Sizes are those `init` establishes. -/
  geometry : Geometry state.bitmap
  /-- All tracked frames are physical memory. -/
  frames_le : frames state.bitmap*4096≤physicalMemorySize
  /-- Blocked pages stay marked. -/
  reserved : ∀ frame, Reserved memoryMap frame → bitAt state.bitmap.storage frame=true
  /-- Held frames are tracked and not blocked. -/
  held : ∀ address∈state.held,∃ frame, frame<frames state.bitmap ∧ address=frame*4096 ∧
    ¬Reserved memoryMap frame

section Guarding

variable {physicalMemorySize : ℕ} {memoryMap : List MemoryDescriptor} {state : PageState}

/-- A frame that is not blocked may be handed out. -/
theorem allowed_of_unreserved {frame : ℕ} (hf : (frame+1)*4096≤physicalMemorySize)
    (hr : ¬Reserved memoryMap frame) : Allowed physicalMemorySize memoryMap (frame*4096) := by
  refine ⟨Nat.mul_mod_left _ _,?_,?_,?_⟩
  · by_contra hlow
    have hlt : frame<256 := by omega
    refine hr ⟨frame*4096,List.mem_append_right _ ?_,Nat.mul_div_cancel _ (by decide)⟩
    refine List.mem_map.mpr ⟨frame,List.mem_range.mpr hlt,?_⟩
    unfold fromBaseAndPageOffset Page
    rw [u64_of_lt (by omega)]
    omega
  · unfold Page
    omega
  · intro descriptor hm hused i hi hin
    refine hr ⟨fromBaseAndPageOffset descriptor.physicalStart i,List.mem_append_left _ ?_,?_⟩
    · refine List.mem_flatMap.mpr ⟨descriptor,hm,?_⟩
      rw [descriptorAddresses,if_pos hused]
      exact List.mem_map.mpr ⟨i,List.mem_range.mpr hi,rfl⟩
    · unfold Page at hin
      omega

/-- Addresses of the kernel bitmap's frames. -/
theorem frameAddress_kernel (h : Guarded physicalMemorySize memoryMap state) {frame : ℕ}
    (hf : frame<frames state.bitmap) : frameAddress state.bitmap frame=frame*4096 := by
  have hlt := h.geometry.size_lt
  rw [h.kernel.page_eq] at hlt
  unfold frameAddress
  rw [h.kernel.base_eq,h.kernel.page_eq,u64_of_lt (by omega),Nat.zero_add]

/-- A change of bits that keeps the blocked ones keeps the guard. -/
theorem Guarded.change (h : Guarded physicalMemorySize memoryMap state) {bitmap : Bitmap}
    {memory : Memory} {held : List ℕ} (hs : SameShape state.bitmap bitmap)
    (hbits : ∀ frame, Reserved memoryMap frame → bitAt bitmap.storage frame=true)
    (hheld : ∀ address∈held,∃ frame, frame<frames state.bitmap ∧ address=frame*4096 ∧
      ¬Reserved memoryMap frame) :
    Guarded physicalMemorySize memoryMap ⟨bitmap,memory,held⟩ := by
  refine ⟨⟨hs.page_eq.trans h.kernel.page_eq,hs.full_eq.trans h.kernel.full_eq,
    hs.base_eq.trans h.kernel.base_eq⟩,hs.geometry h.geometry,?_,hbits,?_⟩
  · rw [hs.frames_eq]
    exact h.frames_le
  · rw [hs.frames_eq]
    exact hheld

/-- A clear frame is not a blocked one. -/
theorem Guarded.unreserved (h : Guarded physicalMemorySize memoryMap state) {frame : ℕ}
    (hclear : bitAt state.bitmap.storage frame=false) : ¬Reserved memoryMap frame := by
  intro hr
  rw [h.reserved frame hr] at hclear
  cases hclear

/-- Single pages: the lowest clear frame is handed out. -/
theorem guarded_allocatePhysicalPage (h : Guarded physicalMemorySize memoryMap state) :
    ∃ next, pageStep state .allocatePhysicalPage=some next ∧
      Guarded physicalMemorySize memoryMap next := by
  refine ⟨_,rfl,?_⟩
  rcases allocate_cases h.geometry state.memory with ⟨error,he,-⟩|⟨frame,hlt,hclear,-,-,he⟩
  · simp only [allocatePhysicalPage,he]
    exact h
  · simp only [allocatePhysicalPage,he]
    refine h.change (sameShape_with _ _ _) ?_ ?_
    · intro k hk
      rw [bitAt_markFrame,h.reserved k hk,Bool.true_or]
    · refine List.forall_mem_cons.mpr ⟨⟨frame,hlt,frameAddress_kernel h hlt,?_⟩,h.held⟩
      exact h.unreserved hclear

/-- Runs of pages: a run of clear frames in one block is handed out. -/
theorem guarded_allocatePhysicalPages (h : Guarded physicalMemorySize memoryMap state)
    {pageCount : ℕ} (hl : 1≤pageCount ∧ pageCount≤64) :
    ∃ next, pageStep state (.allocatePhysicalPages pageCount)=some next ∧
      Guarded physicalMemorySize memoryMap next := by
  refine ⟨_,rfl,?_⟩
  have hmod : pageCount%256=pageCount := Nat.mod_eq_of_lt (by omega)
  rcases allocateContiguous_cases state.bitmap state.memory pageCount with
    ⟨error,he⟩|⟨block,offset,hblock,-,hfind,he⟩
  · simp only [allocatePhysicalPages,he]
    exact h
  · rw [hmod] at hfind he
    obtain ⟨hn,hclear⟩ := findNFree_ok (by omega) hfind
    have hfirst : 64*block+offset<frames state.bitmap := by
      unfold frames
      omega
    have haddress : placeToAddress state.bitmap ⟨block,offset⟩=(64*block+offset)*4096 := by
      have hp := placeToAddress_eq h.geometry hfirst
      rw [show (64*block+offset)/64=block by omega,
        show (64*block+offset)%64=offset by omega] at hp
      rw [hp,frameAddress_kernel h hfirst]
    simp only [allocatePhysicalPages,he]
    refine h.change (sameShape_with _ _ _) ?_ ?_
    · intro k hk
      rw [bitAt_setNAllocated state.bitmap hn,h.reserved k hk,Bool.true_or]
    · intro address hm
      rcases List.mem_append.mp hm with hnew|hold
      · obtain ⟨j,hj,rfl⟩ := List.mem_map.mp hnew
        have hjlt := List.mem_range.mp hj
        refine ⟨64*block+offset+j,by unfold frames; omega,?_,h.unreserved ?_⟩
        · rw [haddress]
          unfold Page
          ring
        · have hdiv : (64*block+offset+j)/64=block := by omega
          have hoff : (64*block+offset+j)%64=offset+j := by omega
          rw [bitAt,hdiv,hoff]
          exact hclear (offset+j) (by omega) (by omega)
      · exact h.held address hold

/-- Freeing a held frame clears no blocked page. -/
theorem guarded_freePage (h : Guarded physicalMemorySize memoryMap state) {address : ℕ}
    (hl : address∈state.held) :
    ∃ next, pageStep state (.freePage address)=some next ∧
      Guarded physicalMemorySize memoryMap next := by
  refine ⟨_,rfl,?_⟩
  obtain ⟨frame,hlt,rfl,hr⟩ := h.held address hl
  have htracked := tracked_frameAddress h.geometry hlt
  have hframe := frameOf_frameAddress h.geometry hlt
  rw [frameAddress_kernel h hlt] at htracked hframe
  have hfree := free_eq h.geometry htracked
  rw [hframe] at hfree
  by_cases hbit : bitAt state.bitmap.storage frame=false
  · rw [if_pos hbit] at hfree
    simp only [freePage,hfree]
    exact h
  · rw [if_neg hbit] at hfree
    simp only [freePage,hfree]
    refine h.change (sameShape_with _ _ _) ?_ ?_
    · intro k hk
      have hne : k≠frame := fun he => hr (he ▸ hk)
      simp only [bitAt_releaseFrame,h.reserved k hk,hne,ne_eq,not_false_eq_true,decide_true,
        Bool.and_self]
    · exact fun other hm => h.held other (List.mem_of_mem_erase hm)

/-- Every call of the page allocator keeps the guard. -/
theorem guarded_step (state : PageState) (action : PageAction)
    (h : Guarded physicalMemorySize memoryMap state) (hl : PageLegal state action) :
    ∃ next, pageStep state action=some next ∧ Guarded physicalMemorySize memoryMap next := by
  cases action with
  | allocatePhysicalPage => exact guarded_allocatePhysicalPage h
  | allocatePhysicalPages pageCount => exact guarded_allocatePhysicalPages h hl
  | freePage address => exact guarded_freePage h hl

/-- The guard holds after boot. -/
theorem guarded_booted (storage : Words) (memory : Memory)
    (memoryMap : List MemoryDescriptor) (hs : physicalMemorySize<2^64) :
    Guarded physicalMemorySize memoryMap
      (booted storage memory physicalMemorySize memoryMap) := by
  obtain ⟨hinit,hkernel⟩ := initBitmap_spec storage physicalMemorySize
  obtain ⟨hshape,hkernel',hbits⟩ := foldl_setAllocated hkernel (blockedAddresses_lt memoryMap)
  have hgeometry := init_geometry hinit hs (by decide)
  have hframes : frames (initBitmap storage physicalMemorySize)*4096≤physicalMemorySize := by
    have hcount : (initBitmap storage physicalMemorySize).blockCount=
        physicalMemorySize/Page/pagesPerBlock := by
      have hpage : ¬(Page=0 ∨ Page &&& (Page-1)≠0) := by decide
      have hbase : ¬0%Page≠0 := by decide
      simp only [initBitmap,init,if_neg hpage,if_neg hbase]
    unfold frames
    rw [hcount]
    unfold Page pagesPerBlock
    omega
  refine ⟨hkernel',hshape.geometry hgeometry,?_,fun frame hr => hbits frame (Or.inr hr),?_⟩
  · dsimp only [booted,blockOut]
    rw [hshape.frames_eq]
    exact hframes
  · intro address hm
    cases hm

end Guarding

/-- Over every run after boot, every frame handed out is one the allocator
may hand out. -/
theorem handedOut_allowed (storage : Words) (memory : Memory) {physicalMemorySize : ℕ}
    (memoryMap : List MemoryDescriptor) (hs : physicalMemorySize<2^64)
    {actions : List PageAction}
    (hl : Each pageStep PageLegal (booted storage memory physicalMemorySize memoryMap) actions) :
    Always pageStep (fun state => ∀ address∈state.held,
        Allowed physicalMemorySize memoryMap address)
      (booted storage memory physicalMemorySize memoryMap) actions := by
  refine (always_of_each guarded_step (guarded_booted storage memory memoryMap hs) hl).imp ?_
  intro state h address hm
  obtain ⟨frame,hlt,rfl,hr⟩ := h.held address hm
  have hfit : (frame+1)*4096≤physicalMemorySize :=
    (Nat.mul_le_mul_right _ hlt).trans h.frames_le
  exact allowed_of_unreserved hfit hr

/-- A map with free memory on both sides of a firmware table. -/
def sampleMap : List MemoryDescriptor :=
  [⟨.conventional,0,0x100⟩,⟨.acpiReclaim,0x100000,1⟩,⟨.conventional,0x101000,0xff⟩]

/-- Single pages, a run and a freed page above the table. -/
theorem handedOut_allowed_sample :
    Each pageStep PageLegal (booted (fun _ => 0#64) (fun _ => 0) 0x200000 sampleMap)
        [.allocatePhysicalPage,.allocatePhysicalPages 8,.freePage 0x101000] ∧
      Always pageStep (fun state => ∀ address∈state.held,Allowed 0x200000 sampleMap address)
        (booted (fun _ => 0#64) (fun _ => 0) 0x200000 sampleMap)
        [.allocatePhysicalPage,.allocatePhysicalPages 8,.freePage 0x101000] := by
  have hl : Each pageStep PageLegal (booted (fun _ => 0#64) (fun _ => 0) 0x200000 sampleMap)
      [.allocatePhysicalPage,.allocatePhysicalPages 8,.freePage 0x101000] := by decide +kernel
  exact ⟨hl,handedOut_allowed _ _ _ (by decide) hl⟩

/-- Ordinary RAM the operating system may use. -/
def ordinaryRam : MemoryType→Bool
  | .conventional => true
  | .loaderCode => true
  | .bootServicesCode => true
  | _ => false

/-- The frame lies in the descriptor's range. -/
def MemoryDescriptor.Covers (descriptor : MemoryDescriptor) (address : ℕ) : Prop :=
  descriptor.physicalStart≤address ∧
    address+Page≤descriptor.physicalStart+descriptor.numberOfPages*Page

/-- Memory-mapped registers are handed out like memory: only the listed types
are blocked out, everything else counts as free. -/
theorem handedOut_not_always_ram : ¬∀ (storage : Words) (memory : Memory)
    (memoryMap : List MemoryDescriptor) (actions : List PageAction),
    Each pageStep PageLegal
      (booted storage memory (getPhysicalMemoryExtent memoryMap) memoryMap) actions →
    Always pageStep (fun state => ∀ address∈state.held,0x100000≤address ∧
        ∃ descriptor∈memoryMap,ordinaryRam descriptor.type=true ∧ descriptor.Covers address)
      (booted storage memory (getPhysicalMemoryExtent memoryMap) memoryMap) actions := by
  intro h
  have ha := h (fun _ => 0#64) (fun _ => 0)
    [⟨.conventional,0,0x100⟩,⟨.memoryMappedIo,0x100000,0x100⟩] [.allocatePhysicalPage]
    (by decide +kernel)
  obtain ⟨last,hlast,hram⟩ := ha.final
  have hheld : (run pageStep (booted (fun _ => 0#64) (fun _ => 0) (getPhysicalMemoryExtent
      [⟨.conventional,0,0x100⟩,⟨.memoryMappedIo,0x100000,0x100⟩])
      [⟨.conventional,0,0x100⟩,⟨.memoryMappedIo,0x100000,0x100⟩])
      [.allocatePhysicalPage]).map PageState.held=some [0x100000] := by decide +kernel
  rw [hlast,Option.map_some,Option.some.injEq] at hheld
  obtain ⟨-,descriptor,hm,htype,hcovers⟩ := hram 0x100000 (by rw [hheld]; exact List.mem_cons_self)
  rcases List.mem_cons.mp hm with rfl|hm
  · unfold MemoryDescriptor.Covers Page at hcovers
    dsimp only at hcovers
    omega
  · cases List.mem_singleton.mp hm
    cases htype

end WorkbenchOS.PhysicalMemory
