import WorkbenchOS.PhysicalMemory

/-!
# The memory map of the firmware

`BootServices::get_memory_map` asks the firmware until its buffer is large
enough, and counts the descriptors with the size the firmware gives for one.
The iterator of the map goes from one to the next in steps of the C++ struct,
which is 48 bytes. The loop that looks for the end of physical memory keeps
the end of the last descriptor it met, whatever the order of the map.
-/

namespace WorkbenchOS.EfiMemoryMap

open ByteMemory LibStd PhysicalMemory

/-- `sizeof(EFI::MemoryDescriptor)`, the field `pad` included. -/
def sizeofMemoryDescriptor : ℕ := 48

/-- `EFI::MemoryMap`. -/
structure MemoryMap where
  /-- `m_descriptors`. -/
  descriptors : ℕ
  /-- `m_size`, in bytes. -/
  size : ℕ
  /-- `m_descriptor_count`. -/
  descriptorCount : ℕ
  /-- `m_key`. -/
  key : ℕ
  /-- `m_descriptor_size`. -/
  descriptorSize : ℕ
  /-- `m_descriptor_version`. -/
  descriptorVersion : ℕ

/-- What the firmware's `get_memory_map` returns and leaves in its arguments. -/
structure MapReply where
  /-- The status; zero is success. -/
  status : ℕ
  /-- `*memory_map_size`. -/
  size : ℕ
  /-- `*map_key`. -/
  key : ℕ
  /-- `*descriptor_size`. -/
  descriptorSize : ℕ
  /-- `*descriptor_version`. -/
  descriptorVersion : ℕ

/-- The boot services of a firmware with states of type `σ`. Errors are status
codes. -/
structure BootServices (σ : Type) where
  /-- `get_memory_map` for a buffer and its size. -/
  getMemoryMap : σ→(size descriptors : ℕ)→MapReply×σ
  /-- `allocate_pages`. -/
  allocatePages : σ→(pages : ℕ)→Except ℕ ℕ×σ
  /-- `free_pages`. -/
  freePages : σ→(address pages : ℕ)→Except ℕ Unit×σ

/-- `Error::get_type`: an `ErrorType` is an `int`, so the high half of the
status is lost. -/
def errorType (status : ℕ) : ℕ := status%2^32

/-- `ErrorType::BufferTooSmall`. -/
def bufferTooSmall : ℕ := 5

section Firmware

variable {σ : Type} (services : BootServices σ)

/-- The out-arguments of a call in the map. -/
def MemoryMap.filled (map : MemoryMap) (reply : MapReply) : MemoryMap :=
  {map with
    size := u64 reply.size
    key := u64 reply.key
    descriptorSize := u64 reply.descriptorSize
    descriptorVersion := reply.descriptorVersion%2^32}

/-- The loop of `BootServices::get_memory_map`. -/
def getMemoryMapLoop : (fuel : ℕ)→σ→MemoryMap→(lastAllocatedPageCount : ℕ)→
    Option (Except ℕ MemoryMap×σ)
  | 0,_,_,_ => none
  | fuel+1,state,map,lastAllocatedPageCount =>
    let (reply,state) := services.getMemoryMap state map.size map.descriptors
    let map := map.filled reply
    let sizePages := u64 (map.size+(Page-1))/Page
    if reply.status≠0 then
      if errorType reply.status=bufferTooSmall then
        let (freed,state) := if map.descriptors≠0 then
          services.freePages state map.descriptors lastAllocatedPageCount else (.ok (),state)
        match freed with
        | .error status => some (.error status,state)
        | .ok _ =>
          match services.allocatePages state sizePages with
          | (.error status,state) => some (.error status,state)
          | (.ok address,state) =>
            getMemoryMapLoop fuel state {map with descriptors := u64 address} sizePages
      else some (.error reply.status,state)
    else some (.ok {map with descriptorCount := map.size/map.descriptorSize},state)

/-- `BootServices::get_memory_map`. -/
def getMemoryMap (fuel : ℕ) (state : σ) : Option (Except ℕ MemoryMap×σ) :=
  getMemoryMapLoop services fuel state ⟨0,0,0,0,0,0⟩ 0

end Firmware

/-- `&m_descriptors[i]`. -/
def MemoryMap.element (map : MemoryMap) (i : ℕ) : ℕ :=
  u64 (map.descriptors+i*sizeofMemoryDescriptor)

/-- The pointers a range-based loop goes through: `Iterator::operator!=` before
and `operator++` after each round. -/
def iterate : (fuel pointer stop : ℕ)→Option (List ℕ)
  | 0,_,_ => none
  | fuel+1,pointer,stop =>
    if pointer=stop then some []
    else (iterate fuel (u64 (pointer+sizeofMemoryDescriptor)) stop).map (pointer::·)

/-- The pointers from `begin` to `end`. -/
def MemoryMap.visited (map : MemoryMap) (fuel : ℕ) : Option (List ℕ) :=
  iterate fuel (map.element 0) (map.element map.descriptorCount)

/-- A `u32` of the firmware as an `EFI::MemoryType`. -/
def memoryType (code : ℕ) : MemoryType :=
  ([.reserved,.loaderCode,.loaderData,.bootServicesCode,.bootServicesData,.runtimeServicesCode,
    .runtimeServicesData,.conventional,.unusable,.acpiReclaim,.acpiMemoryNvs,.memoryMappedIo,
    .memoryMappedIoPortSpace,.palCode,.persistent] : List MemoryType).getD code (.other code)

/-- The fields of a descriptor that the loops over the map read, with their
sizes. -/
def fieldReads (pointer : ℕ) : List (ℕ×ℕ) := [(pointer,4),(u64 (pointer+8),8),(u64 (pointer+24),8)]

/-- The descriptor at a pointer. -/
def descriptorAt (memory : Memory) (pointer : ℕ) : MemoryDescriptor where
  type := memoryType (readLE memory pointer 4)
  physicalStart := readLE memory (u64 (pointer+8)) 8
  numberOfPages := readLE memory (u64 (pointer+24)) 8

/-- The pointers to the descriptors the firmware has written. -/
def MemoryMap.firmwarePointers (map : MemoryMap) : List ℕ :=
  (List.range (map.size/map.descriptorSize)).map
    (fun i => u64 (map.descriptors+i*map.descriptorSize))

/-- The descriptors a loop over the map sees in memory. -/
def MemoryMap.read (map : MemoryMap) (memory : Memory) (fuel : ℕ) :
    Option (List MemoryDescriptor) :=
  (map.visited fuel).map (fun pointers => pointers.map (descriptorAt memory))

/-- A loop over the map visits the descriptors of the firmware and reads no
byte behind its buffer. -/
structure FollowsStride (map : MemoryMap) : Prop where
  /-- Each descriptor once, in order. -/
  visits : ∃ fuel,map.visited fuel=some map.firmwarePointers
  /-- Fields that are read lie in the first `m_size` bytes. -/
  inside : ∀ fuel pointers, map.visited fuel=some pointers → ∀ pointer∈pointers,
    ∀ read∈fieldReads pointer,u64Sub read.1 map.descriptors+read.2≤ map.size

section Iteration

variable {map : MemoryMap}

/-- A map as `get_memory_map` returns it. -/
structure Returned (map : MemoryMap) : Prop where
  /-- Descriptors are counted with the firmware's size. -/
  count_eq : map.descriptorCount=map.size/map.descriptorSize
  /-- The buffer has a 64-bit address. -/
  descriptors_lt : map.descriptors<2^64
  /-- The size is a 64-bit number. -/
  size_lt : map.size<2^64
  /-- So is the size of a descriptor. -/
  descriptorSize_lt : map.descriptorSize<2^64

/-- Whatever the firmware answers, the loop returns such a map. -/
theorem returned_of_loop {σ : Type} {services : BootServices σ} {fuel : ℕ} {state after : σ}
    {before : MemoryMap} {pages : ℕ} (hbefore : before.descriptors<2^64)
    (h : getMemoryMapLoop services fuel state before pages=some (.ok map,after)) :
    Returned map := by
  induction fuel generalizing state before pages with
  | zero => cases h
  | succ fuel ih =>
    rw [getMemoryMapLoop] at h
    dsimp only at h
    split at h
    · split at h
      · split at h
        · cases h
        · split at h
          · cases h
          · exact ih (u64_lt _) h
      · cases h
    · cases h
      exact ⟨rfl,hbefore,u64_lt _,u64_lt _⟩

/-- A map of `get_memory_map`. -/
theorem returned_of_getMemoryMap {σ : Type} {services : BootServices σ} {fuel : ℕ}
    {state after : σ} (h : getMemoryMap services fuel state=some (.ok map,after)) :
    Returned map := returned_of_loop (by decide) h

/-- One step of the iterator. -/
theorem element_succ (map : MemoryMap) (i : ℕ) :
    u64 (map.element i+sizeofMemoryDescriptor)=map.element (i+1) := by
  unfold MemoryMap.element u64
  rw [Nat.mod_add_mod,Nat.add_assoc,Nat.succ_mul]

/-- Fewer than 2^60 steps of 48 bytes do not lead around the address space, as
48 is 16 times an odd number. -/
theorem eq_zero_of_wrap {steps : ℕ} (hlt : steps<2^60) (h : 2^64∣steps*sizeofMemoryDescriptor) :
    steps=0 := by
  have hsplit : steps*sizeofMemoryDescriptor=2^4*(steps*3) := by
    unfold sizeofMemoryDescriptor
    ring
  rw [hsplit,show (2 : ℕ)^64=2^4*2^60 by norm_num] at h
  have hodd : 2^60∣steps*3 := Nat.dvd_of_mul_dvd_mul_left (by norm_num) h
  have hpow : 2^60∣steps := (Nat.Coprime.pow_left 60 (by decide)).dvd_of_dvd_mul_right hodd
  exact Nat.eq_zero_of_dvd_of_lt hpow hlt

/-- Elements up to 2^60 have different addresses. -/
theorem element_ne (map : MemoryMap) {i j : ℕ} (hij : i<j) (hj : j<2^60) :
    map.element i≠map.element j := by
  intro heq
  obtain ⟨steps,rfl⟩ : ∃ steps,j=i+steps := ⟨j-i,by omega⟩
  have hlt : steps<2^60 := (Nat.le_add_left _ _).trans_lt hj
  unfold MemoryMap.element u64 at heq
  rw [Nat.add_mul,← Nat.add_assoc] at heq
  have hdvd : 2^64∣steps*sizeofMemoryDescriptor :=
    Nat.modEq_zero_iff_dvd.mp (Nat.ModEq.add_left_cancel' _ (Eq.symm heq))
  rw [eq_zero_of_wrap hlt hdvd] at hij
  exact absurd hij (Nat.lt_irrefl i)

/-- From element `i` on, the iterator visits each element up to the end. -/
theorem iterate_elements (map : MemoryMap) {count : ℕ} (hcount : count<2^60) (left : ℕ) {i : ℕ}
    (hi : i+left=count) (more : ℕ) :
    iterate (left+1+more) (map.element i) (map.element count)=
      some ((List.range' i left).map map.element) := by
  induction left generalizing i with
  | zero =>
    obtain rfl : i=count := by omega
    rw [Nat.zero_add,Nat.add_comm,iterate,if_pos rfl]
    rfl
  | succ left ih =>
    rw [Nat.add_right_comm,Nat.add_right_comm left 1 more,iterate,
      if_neg (element_ne map (by omega) hcount),element_succ,Nat.add_right_comm left more 1,
      ih (by omega),List.range'_succ]
    rfl

/-- The pointers from `begin` to `end`, as array elements. -/
def MemoryMap.elements (map : MemoryMap) : List ℕ :=
  (List.range map.descriptorCount).map map.element

/-- More fuel does not change what a loop visits. -/
theorem iterate_mono {fuel pointer stop : ℕ} {pointers : List ℕ}
    (h : iterate fuel pointer stop=some pointers) (more : ℕ) :
    iterate (fuel+more) pointer stop=some pointers := by
  induction fuel generalizing pointer pointers with
  | zero => cases h
  | succ fuel ih =>
    rw [Nat.add_right_comm,iterate]
    rw [iterate] at h
    split
    · next heq => rwa [if_pos heq] at h
    · next hne =>
      rw [if_neg hne] at h
      obtain ⟨rest,hrest,rfl⟩ := Option.map_eq_some_iff.mp h
      rw [ih hrest]
      rfl

/-- A loop over the map visits its elements, and nothing else. -/
theorem visited_iff (hcount : map.descriptorCount<2^60) (pointers : List ℕ) :
    (∃ fuel,map.visited fuel=some pointers) ↔ pointers=map.elements := by
  have hall := fun more => iterate_elements map hcount map.descriptorCount (Nat.zero_add _) more
  rw [← List.range_eq_range'] at hall
  constructor
  · rintro ⟨fuel,hfuel⟩
    have hmore := iterate_mono hfuel (map.descriptorCount+1)
    rw [Nat.add_comm fuel,hall fuel] at hmore
    exact (Option.some.inj hmore).symm
  · rintro rfl
    exact ⟨_,hall 0⟩

/-- There are fewer elements than it takes to go around the address space. -/
theorem Returned.count_lt (h : Returned map) (hsize : 40≤ map.descriptorSize) :
    map.descriptorCount<2^60 := by
  have hlt := h.size_lt
  have hle : map.size/map.descriptorSize≤ map.size/40 := Nat.div_le_div_left hsize (by decide)
  rw [h.count_eq]
  omega

/-- Distance of an address from the start of the buffer. -/
theorem offset_eq {base offset : ℕ} (hbase : base<2^64) (hoffset : offset<2^64) :
    u64Sub (u64 (base+offset)) base=offset := by
  unfold u64Sub u64
  omega

/-- The fields of an element lie in its first 32 bytes. -/
theorem element_inside (h : Returned map) {i : ℕ}
    (hend : i*sizeofMemoryDescriptor+32≤ map.size) :
    ∀ read∈fieldReads (map.element i),u64Sub read.1 map.descriptors+read.2≤ map.size := by
  have hlt := h.size_lt
  have hfield : ∀ field, field≤24 → u64Sub (u64 (map.element i+field)) map.descriptors=
      i*sizeofMemoryDescriptor+field := by
    intro field hfield
    have hsum : u64 (map.element i+field)=
        u64 (map.descriptors+(i*sizeofMemoryDescriptor+field)) := by
      unfold MemoryMap.element u64
      rw [Nat.mod_add_mod,Nat.add_assoc]
    rw [hsum,offset_eq h.descriptors_lt (by omega)]
  have hfirst : u64Sub (map.element i) map.descriptors=i*sizeofMemoryDescriptor :=
    offset_eq h.descriptors_lt (by omega)
  refine List.forall_mem_cons.mpr ⟨?_,List.forall_mem_cons.mpr ⟨?_,
    List.forall_mem_singleton.mpr ?_⟩⟩
  · rw [hfirst]
    omega
  · rw [hfield 8 (by decide)]
    omega
  · rw [hfield 24 (by decide)]
    omega

/-- The firmware's descriptors are the elements when it has the size of the
struct, or no second descriptor. -/
theorem firmwarePointers_eq_iff (h : Returned map) :
    map.firmwarePointers=map.elements ↔
      map.descriptorSize=sizeofMemoryDescriptor ∨ map.size/map.descriptorSize≤1 := by
  rw [MemoryMap.firmwarePointers,MemoryMap.elements,h.count_eq,List.map_inj_left]
  constructor
  · intro hall
    by_contra hnot
    obtain ⟨hne,hmany⟩ := not_or.mp hnot
    have hsecond := hall 1 (List.mem_range.mpr (Nat.not_le.mp hmany))
    unfold MemoryMap.element u64 at hsecond
    rw [Nat.one_mul,Nat.one_mul] at hsecond
    have hmod : map.descriptorSize%2^64=sizeofMemoryDescriptor%2^64 :=
      Nat.ModEq.add_left_cancel' _ hsecond
    rw [Nat.mod_eq_of_lt h.descriptorSize_lt] at hmod
    exact hne hmod
  · rintro (heq|hfew) i hi
    · rw [heq]
      rfl
    · have hzero : i=0 := Nat.lt_one_iff.mp ((List.mem_range.mp hi).trans_le hfew)
      rw [hzero,Nat.zero_mul,MemoryMap.element,Nat.zero_mul]

end Iteration

/-- Loops over a map of `get_memory_map` follow the stride of the firmware
exactly when that is 48, or when the firmware has at most one descriptor. -/
theorem followsStride_iff {σ : Type} {services : BootServices σ} {fuel : ℕ} {state after : σ}
    {map : MemoryMap} (hmap : getMemoryMap services fuel state=some (.ok map,after))
    (hsize : 40≤ map.descriptorSize) :
    FollowsStride map ↔
      map.descriptorSize=sizeofMemoryDescriptor ∨ map.size/map.descriptorSize≤1 := by
  have h := returned_of_getMemoryMap hmap
  have hvisited := visited_iff (h.count_lt hsize)
  rw [← firmwarePointers_eq_iff h]
  refine ⟨fun hfollows => (hvisited _).mp hfollows.visits,
    fun heq => ⟨(hvisited _).mpr heq,fun fuel pointers hpointers pointer hm => ?_⟩⟩
  rw [(hvisited pointers).mp ⟨fuel,hpointers⟩] at hm
  obtain ⟨i,hi,rfl⟩ := List.mem_map.mp hm
  rw [List.mem_range,h.count_eq] at hi
  refine element_inside h ?_
  have hdescriptors := Nat.mul_div_le map.size map.descriptorSize
  rcases (firmwarePointers_eq_iff h).mp heq with hstride|hfew
  · rw [hstride] at hi hdescriptors
    have hmul := Nat.mul_le_mul_left sizeofMemoryDescriptor (Nat.succ_le_of_lt hi)
    unfold sizeofMemoryDescriptor at *
    omega
  · have hone : map.size/map.descriptorSize=1 := by omega
    rw [hone] at hi hdescriptors
    unfold sizeofMemoryDescriptor
    omega

/-- With such a stride the loops see the map the firmware has written. -/
theorem read_firmwarePointers {map : MemoryMap} (h : FollowsStride map) (memory : Memory) :
    ∃ fuel,map.read memory fuel=some (map.firmwarePointers.map (descriptorAt memory)) := by
  obtain ⟨fuel,hfuel⟩ := h.visits
  exact ⟨fuel,by rw [MemoryMap.read,hfuel]; rfl⟩

/-- A firmware that wants a page for a map of two descriptors of some size. -/
def sampleServices (descriptorSize : ℕ) : BootServices Unit where
  getMemoryMap := fun _ size _ =>
    (⟨if size<2*descriptorSize then 2^63+5 else 0,2*descriptorSize,1,descriptorSize,1⟩,())
  allocatePages := fun _ _ => (.ok 0x1000,())
  freePages := fun _ _ _ => (.ok (),())

/-- The map it returns. -/
def sampleMap (descriptorSize : ℕ) : MemoryMap where
  descriptors := 0x1000
  size := 2*descriptorSize
  descriptorCount := 2
  key := 1
  descriptorSize := descriptorSize
  descriptorVersion := 1

/-- Descriptors of 48 bytes are visited one after the other. -/
theorem followsStride_sample : FollowsStride (sampleMap 48) :=
  (@followsStride_iff Unit (sampleServices 48) 2 () () (sampleMap 48) rfl (by decide)).mpr
    (Or.inl rfl)

/-- Of two descriptors of 40 bytes the second one is missed. -/
theorem not_always_followsStride :
    getMemoryMap (sampleServices 40) 2 ()=some (.ok (sampleMap 40),()) ∧
      40≤(sampleMap 40).descriptorSize ∧ ¬FollowsStride (sampleMap 40) := by
  refine ⟨rfl,by decide,fun h => ?_⟩
  have hpointers := (visited_iff (by decide : (sampleMap 40).descriptorCount<2^60) _).mp h.visits
  exact absurd hpointers (by decide)

section Extent

/-- The address behind a descriptor's memory. -/
def stop (descriptor : MemoryDescriptor) : ℕ :=
  descriptor.physicalStart+descriptor.numberOfPages*Page

/-- Memory that counts: any type but `EFI_UNUSABLE_MEMORY`. -/
def usable (descriptor : MemoryDescriptor) : Bool := decide (descriptor.type≠.unusable)

/-- The high-water mark: the largest end of a usable descriptor, or 0. -/
def highWaterMark (memoryMap : List MemoryDescriptor) : ℕ :=
  ((memoryMap.filter usable).map stop).foldr max 0

/-- Every usable descriptor ends at or below the mark, and nothing lower is such
a bound. -/
theorem highWaterMark_isLUB (memoryMap : List MemoryDescriptor) :
    IsLUB {address | ∃ descriptor∈memoryMap,usable descriptor=true ∧ stop descriptor=address}
      (highWaterMark memoryMap) := by
  constructor
  · rintro address ⟨descriptor,hm,husable,rfl⟩
    refine List.le_max_of_le ?_ le_rfl
    exact List.mem_map_of_mem (List.mem_filter.mpr ⟨hm,husable⟩)
  · intro bound hbound
    refine List.max_le_of_forall_le _ _ fun address hm => ?_
    obtain ⟨descriptor,hfiltered,rfl⟩ := List.mem_map.mp hm
    obtain ⟨hmem,husable⟩ := List.mem_filter.mp hfiltered
    exact hbound ⟨descriptor,hmem,husable,rfl⟩

/-- The order of the map does not matter. -/
theorem highWaterMark_perm {memoryMap other : List MemoryDescriptor} (h : memoryMap.Perm other) :
    highWaterMark memoryMap=highWaterMark other :=
  ((h.filter usable).map stop).foldr_eq 0

/-- The loop returns the end of the last usable descriptor, in 64 bits. -/
theorem getPhysicalMemoryExtent_eq (memoryMap : List MemoryDescriptor) :
    getPhysicalMemoryExtent memoryMap=
      ((memoryMap.filter usable).getLast?).elim 0 (fun last => u64 (stop last)) := by
  induction memoryMap using List.reverseRecOn with
  | nil => rfl
  | append_singleton rest descriptor ih =>
    have hstep : getPhysicalMemoryExtent (rest++[descriptor])=
        if usable descriptor=true then u64 (stop descriptor) else getPhysicalMemoryExtent rest := by
      have hwrap : u64 (descriptor.physicalStart+u64 (descriptor.numberOfPages*Page))=
          u64 (stop descriptor) := Nat.add_mod_mod _ _ _
      rw [getPhysicalMemoryExtent,List.foldl_append,List.foldl_cons,List.foldl_nil,hwrap]
      unfold usable
      cases descriptor.type <;> rfl
    rw [hstep,List.filter_append,List.filter_singleton]
    by_cases husable : usable descriptor=true
    · rw [if_pos husable,husable,cond_true,List.getLast?_concat]
      rfl
    · rw [if_neg husable,Bool.eq_false_of_not_eq_true husable,cond_false,List.append_nil]
      exact ih

/-- A usable descriptor ends at the mark when no other ends above it. -/
theorem highWaterMark_eq_stop_iff {memoryMap : List MemoryDescriptor} {last : MemoryDescriptor}
    (hlast : last∈memoryMap) (husable : usable last=true) :
    stop last=highWaterMark memoryMap ↔
      ∀ descriptor∈memoryMap,usable descriptor=true → stop descriptor≤ stop last := by
  obtain ⟨hupper,hleast⟩ := highWaterMark_isLUB memoryMap
  constructor
  · intro heq descriptor hm husable'
    rw [heq]
    exact hupper ⟨descriptor,hm,husable',rfl⟩
  · intro hall
    refine le_antisymm (hupper ⟨last,hlast,husable,rfl⟩) (hleast ?_)
    rintro address ⟨descriptor,hm,husable',rfl⟩
    exact hall descriptor hm husable'

/-- Its end in 64 bits is the mark only when it fits them. -/
theorem u64_stop_eq_iff {memoryMap : List MemoryDescriptor} {last : MemoryDescriptor}
    (hlast : last∈memoryMap) (husable : usable last=true) :
    u64 (stop last)=highWaterMark memoryMap ↔
      stop last<2^64 ∧ stop last=highWaterMark memoryMap := by
  have hle := (highWaterMark_isLUB memoryMap).1 ⟨last,hlast,husable,rfl⟩
  constructor
  · intro heq
    have hlt := u64_lt (stop last)
    rw [heq] at hlt
    rw [u64_of_lt (hle.trans_lt hlt)] at heq
    exact ⟨hle.trans_lt hlt,heq⟩
  · rintro ⟨hlt,heq⟩
    rwa [u64_of_lt hlt]

/-- The extent is the high-water mark exactly when the last usable descriptor
of the map, if there is one, ends below 2^64 and no other ends above it. -/
theorem getPhysicalMemoryExtent_iff (memoryMap : List MemoryDescriptor) :
    getPhysicalMemoryExtent memoryMap=highWaterMark memoryMap ↔
      ∀ last∈(memoryMap.filter usable).getLast?,stop last<2^64 ∧
        ∀ descriptor∈memoryMap,usable descriptor=true → stop descriptor≤ stop last := by
  rw [getPhysicalMemoryExtent_eq]
  cases hlast : (memoryMap.filter usable).getLast? with
  | none =>
    rw [List.getLast?_eq_none_iff] at hlast
    refine iff_of_true ?_ (fun last hm => by cases hm)
    rw [highWaterMark,hlast]
    rfl
  | some last =>
    obtain ⟨hm,husable⟩ := List.mem_filter.mp (List.mem_of_getLast? hlast)
    rw [Option.elim_some,u64_stop_eq_iff hm husable,highWaterMark_eq_stop_iff hm husable]
    exact ⟨fun h other ho => Option.mem_some.mp ho ▸ h,fun h => h last rfl⟩

/-- A map whose last descriptor is not the highest. -/
theorem not_always_highWaterMark :
    getPhysicalMemoryExtent [⟨.conventional,0x100000,16⟩,⟨.bootServicesData,0,1⟩]≠
      highWaterMark [⟨.conventional,0x100000,16⟩,⟨.bootServicesData,0,1⟩] := by decide

end Extent

end WorkbenchOS.EfiMemoryMap
