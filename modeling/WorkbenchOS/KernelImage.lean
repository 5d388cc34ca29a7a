import WorkbenchOS.BootPageTables
import WorkbenchOS.ElfLoader

/-!
# The kernel in memory

The bootloader reserves for the kernel the pages that the segments have one by
one, and loads each segment at its distance from the virtual base. The sum and
the distance agree for segments that follow one another page by page. A gap
that the rounding does not make up for puts the last segment behind the end of
the reservation, where the paging structures come next.
-/

namespace WorkbenchOS.KernelImage

open ByteMemory LibStd PhysicalMemory ElfLoader BootPageTables

/-- The program headers of the kernel file. -/
def kernelHeaders (memory : Memory) (kernelBytes : ℕ) : List Elf64Phdr :=
  programHeaders (fun i => memory (kernelBytes+i))

/-- `get_total_pages`. -/
def getTotalPages (headers : List Elf64Phdr) : ℕ :=
  headers.foldl (fun totalPages header =>
    if header.type≠ptLoad then totalPages else u64 (totalPages+bytesToPages header.memsz)) 0

/-- `kernel_virtual_to_physical`. -/
def kernelVirtualToPhysical (physicalBase virtualAddress : ℕ) : ℕ :=
  u64 (physicalBase+u64Sub virtualAddress kernelVirtualBase)

/-- The memory and the ranges written so far, by address and size. -/
structure Loading where
  /-- The memory. -/
  memory : Memory
  /-- The ranges. -/
  written : List (ℕ×ℕ)

/-- One iteration of the loop over the program headers. The record of the header
in the boot state is left out, and so is the check of `memcpy` for null, which no
address of a `KernelFile` is. -/
def loadProgramHeader (kernelBytes physicalBase : ℕ) (loading : Loading) (header : Elf64Phdr) :
    Loading :=
  if header.type≠ptLoad then loading
  else
    let size := u64 (loadPages header*Page)
    let physicalAddress := kernelVirtualToPhysical physicalBase header.vaddr
    let loadAddress := u64 (kernelBytes+header.offset)
    let cleared := fill loading.memory physicalAddress size 0
    ⟨copy cleared physicalAddress cleared loadAddress header.filesz,
      loading.written++[(physicalAddress,size),(physicalAddress,header.filesz)]⟩

/-- The loop, unless the file is refused. -/
def loadKernel (memory : Memory) (kernelBytes physicalBase : ℕ) : Option Loading :=
  if readLE memory kernelBytes 4≠elfMagic then none
  else some ((kernelHeaders memory kernelBytes).foldl (loadProgramHeader kernelBytes physicalBase)
    ⟨memory,[]⟩)

/-- The loadable segments. -/
def segmentsOf (headers : List Elf64Phdr) : List Elf64Phdr :=
  headers.filter (fun header => header.type=ptLoad)

/-- Those that have bytes. -/
def loadedOf (headers : List Elf64Phdr) : List Elf64Phdr :=
  (segmentsOf headers).filter (fun header => header.memsz≠0)

/-- A kernel file of `fileSize` bytes in memory, and the physical memory for its
segments. -/
structure KernelFile (memory : Memory) (kernelBytes fileSize physicalBase : ℕ) : Prop where
  /-- The file is an ELF file. -/
  magic : readLE memory kernelBytes 4=elfMagic
  /-- Segments begin at or above the virtual base. -/
  above : ∀ header∈segmentsOf (kernelHeaders memory kernelBytes),kernelVirtualBase≤header.vaddr
  /-- They end in the address space. -/
  end_le : ∀ header∈segmentsOf (kernelHeaders memory kernelBytes),
    header.vaddr+header.memsz≤2^64
  /-- A segment has no more bytes in the file than in memory. -/
  filesz_le : ∀ header∈segmentsOf (kernelHeaders memory kernelBytes),header.filesz≤header.memsz
  /-- They are in the file. -/
  inFile : ∀ header∈segmentsOf (kernelHeaders memory kernelBytes),
    header.offset+header.filesz≤fileSize
  /-- Their address ranges ascend and are disjoint. -/
  ascending : (loadedOf (kernelHeaders memory kernelBytes)).Pairwise
    (fun first second => first.vaddr+first.memsz≤ second.vaddr)
  /-- The file is in the address space. -/
  file_le : kernelBytes+fileSize≤2^64
  /-- `memcpy` refuses a null source. -/
  file_pos : 0<kernelBytes
  /-- And a null destination. -/
  physical_pos : 0<physicalBase
  /-- The physical memory is below its limit. -/
  physical_lt : physicalBase<2^52
  /-- The reservation is apart from the file. -/
  reserved : Apart physicalBase (getTotalPages (kernelHeaders memory kernelBytes)*Page)
    kernelBytes fileSize

/-- The kernel is loaded into the reservation. -/
structure LoadedInside (memory : Memory) (kernelBytes physicalBase : ℕ) (loading : Loading) :
    Prop where
  /-- Every byte written is inside. -/
  inside : ∀ range∈loading.written,∀ x,range.1≤x → x<range.1+range.2 →
    physicalBase≤x ∧ x<physicalBase+getTotalPages (kernelHeaders memory kernelBytes)*Page
  /-- Every segment has its bytes of the file, and zeros behind them. -/
  contents : ∀ header∈segmentsOf (kernelHeaders memory kernelBytes),∀ i<header.memsz,
    loading.memory (kernelVirtualToPhysical physicalBase header.vaddr+i)=
      if i<header.filesz then memory (kernelBytes+header.offset+i) else 0

/-- The pages of some segments. -/
def pagesOf (headers : List Elf64Phdr) : ℕ := (headers.map (fun header => (header.memsz+4095)/4096)).sum

/-- The last segment with bytes begins no further from the virtual base than the
pages of those before it reach. -/
def Reached (headers : List Elf64Phdr) : Prop :=
  ∀ last∈(loadedOf headers).getLast?,
    last.vaddr-kernelVirtualBase≤pagesOf (loadedOf headers).dropLast*4096

section Pages

variable {headers : List Elf64Phdr} {header : Elf64Phdr}

/-- A loadable header is a segment. -/
theorem segmentsOf_cons_load (rest : List Elf64Phdr) (h : header.type=ptLoad) :
    segmentsOf (header::rest)=header::segmentsOf rest := by
  rw [segmentsOf,List.filter_cons,if_pos (by simpa using h)]
  rfl

/-- Any other one is skipped. -/
theorem segmentsOf_cons_skip (rest : List Elf64Phdr) (h : ¬header.type=ptLoad) :
    segmentsOf (header::rest)=segmentsOf rest := by
  rw [segmentsOf,List.filter_cons,if_neg (by simpa using h)]
  rfl

/-- One more segment. -/
theorem pagesOf_cons (header : Elf64Phdr) (headers : List Elf64Phdr) :
    pagesOf (header::headers)=(header.memsz+4095)/4096+pagesOf headers := by
  rw [pagesOf,List.map_cons,List.sum_cons]
  rfl

/-- Segments without bytes have no page. -/
theorem pagesOf_loadedOf (headers : List Elf64Phdr) :
    pagesOf (loadedOf headers)=pagesOf (segmentsOf headers) := by
  rw [loadedOf]
  induction segmentsOf headers with
  | nil => rfl
  | cons header rest ih =>
    rw [List.filter_cons]
    by_cases hzero : header.memsz=0
    · rw [if_neg (by simpa using hzero),ih,pagesOf_cons,hzero]
      omega
    · rw [if_pos (by simpa using hzero),pagesOf_cons,pagesOf_cons,ih]

/-- The total is that of the pages, in 64 bits. -/
theorem getTotalPages_eq (hsize : ∀ header∈segmentsOf headers,header.memsz+4095<2^64) :
    getTotalPages headers=u64 (pagesOf (segmentsOf headers)) := by
  have hfold : ∀ total, total<2^64 → headers.foldl (fun totalPages header =>
      if header.type≠ptLoad then totalPages else u64 (totalPages+bytesToPages header.memsz)) total=
        u64 (total+pagesOf (segmentsOf headers)) := by
    induction headers with
    | nil => exact fun total htotal => (u64_of_lt htotal).symm
    | cons header rest ih =>
      intro total htotal
      rw [List.foldl_cons]
      by_cases hload : header.type=ptLoad
      · rw [segmentsOf_cons_load rest hload] at hsize ⊢
        obtain ⟨hhead,hrest⟩ := List.forall_mem_cons.mp hsize
        have hpages : bytesToPages header.memsz=(header.memsz+4095)/4096 := by
          rw [bytesToPages,divideRoundedUp,Page,u64_of_lt (by omega)]
        rw [if_neg (not_not_intro hload),ih hrest _ (u64_lt _),pagesOf_cons,hpages]
        simp only [u64]
        omega
      · rw [segmentsOf_cons_skip rest hload] at hsize ⊢
        rw [if_pos hload]
        exact ih hsize total htotal
  have hstart := hfold 0 (by decide)
  rw [Nat.zero_add] at hstart
  exact hstart

/-- Ranges behind one another fit between the first and the last address. -/
theorem pagesOf_le {low high : ℕ}
    (hlow : ∀ header∈headers,low≤header.vaddr) (hhigh : ∀ header∈headers,
      header.vaddr+header.memsz≤high) (hle : low≤high)
    (hascending : headers.Pairwise (fun first second => first.vaddr+first.memsz≤ second.vaddr)) :
    low+pagesOf headers≤high := by
  induction headers generalizing low with
  | nil => exact hle
  | cons header rest ih =>
    obtain ⟨hbehind,hrest⟩ := List.pairwise_cons.mp hascending
    have hfirst := hlow header List.mem_cons_self
    have hend := hhigh header List.mem_cons_self
    have htail := ih hbehind (fun other hother => hhigh other (List.mem_cons_of_mem _ hother)) hend
      hrest
    rw [pagesOf_cons]
    omega

end Pages

section Segments

variable {kernelBytes physicalBase : ℕ} {loading : Loading} {header : Elf64Phdr}
  {segments : List Elf64Phdr}

/-- A segment in the kernel's address space. -/
structure Placed (header : Elf64Phdr) : Prop where
  /-- It is loadable. -/
  load : header.type=ptLoad
  /-- It begins at or above the virtual base. -/
  above : kernelVirtualBase≤header.vaddr
  /-- It ends in the address space. -/
  end_le : header.vaddr+header.memsz≤2^64
  /-- It has no more bytes in the file. -/
  filesz_le : header.filesz≤header.memsz

/-- The physical address of a segment. -/
def placeOf (physicalBase : ℕ) (header : Elf64Phdr) : ℕ :=
  physicalBase+(header.vaddr-kernelVirtualBase)

/-- The bytes cleared for a segment. -/
def roundedSize (header : Elf64Phdr) : ℕ := (header.memsz+4095)/4096*4096

/-- The bytes of a segment are among them. -/
theorem memsz_le_roundedSize (header : Elf64Phdr) : header.memsz≤ roundedSize header := by
  rw [roundedSize]
  omega

/-- The segment is at its distance from the virtual base. -/
theorem Placed.place_eq (h : Placed header) (hbase : physicalBase<2^52) :
    kernelVirtualToPhysical physicalBase header.vaddr=placeOf physicalBase header := by
  obtain ⟨-,habove,hend,-⟩ := h
  rw [kernelVirtualToPhysical,placeOf]
  rw [kernelVirtualBase] at habove ⊢
  by_cases hlast : header.vaddr<2^64
  · rw [u64Sub_of_le habove hlast,u64_of_lt (by omega)]
  · -- an empty segment at the very end of the address space
    have hvaddr : header.vaddr=2^64 := by omega
    rw [hvaddr]
    have hdistance : u64Sub (2^64) 0xffffffff80000000=2^31 := by decide
    rw [hdistance,u64_of_lt (by omega)]
    omega

/-- It is cleared in whole pages. -/
theorem Placed.size_eq (h : Placed header) : u64 (loadPages header*Page)=roundedSize header := by
  obtain ⟨-,habove,hend,-⟩ := h
  rw [kernelVirtualBase] at habove
  have hpages : u64 (header.memsz+(4096-1))=header.memsz+4095 := u64_of_lt (by omega)
  rw [loadPages,bytesToPages,divideRoundedUp,Page,roundedSize,hpages,u64_of_lt (by omega)]

/-- The memory after a segment. -/
theorem Placed.memory_eq (h : Placed header) (hbase : physicalBase<2^52) :
    (loadProgramHeader kernelBytes physicalBase loading header).memory=
      copy (fill loading.memory (placeOf physicalBase header) (roundedSize header) 0)
        (placeOf physicalBase header)
        (fill loading.memory (placeOf physicalBase header) (roundedSize header) 0)
        (u64 (kernelBytes+header.offset)) header.filesz := by
  rw [loadProgramHeader,if_neg (not_not_intro h.load)]
  dsimp only
  rw [h.place_eq hbase,h.size_eq]

/-- The ranges written for a segment. -/
theorem Placed.written_eq (h : Placed header) (hbase : physicalBase<2^52) :
    (loadProgramHeader kernelBytes physicalBase loading header).written=
      loading.written++[(placeOf physicalBase header,roundedSize header),
        (placeOf physicalBase header,header.filesz)] := by
  rw [loadProgramHeader,if_neg (not_not_intro h.load)]
  dsimp only
  rw [h.place_eq hbase,h.size_eq]

/-- A byte behind the rounded size is as it was. -/
theorem Placed.apart (h : Placed header) (hbase : physicalBase<2^52) {x : ℕ}
    (hx : ¬(placeOf physicalBase header≤x ∧
      x<placeOf physicalBase header+roundedSize header)) :
    (loadProgramHeader kernelBytes physicalBase loading header).memory x=loading.memory x := by
  have hle := memsz_le_roundedSize header
  have hfile := h.filesz_le
  rw [h.memory_eq hbase,copy_outside _ _ (by omega),fill_outside _ _ (by omega)]

/-- So it is after more segments. -/
theorem run_apart (hplaced : ∀ header∈segments,Placed header) (hbase : physicalBase<2^52) {x : ℕ}
    (hx : ∀ header∈segments,¬(placeOf physicalBase header≤x ∧
      x<placeOf physicalBase header+roundedSize header)) :
    (segments.foldl (loadProgramHeader kernelBytes physicalBase) loading).memory x=
      loading.memory x := by
  induction segments generalizing loading with
  | nil => rfl
  | cons header rest ih =>
    obtain ⟨hhead,hrest⟩ := List.forall_mem_cons.mp hplaced
    obtain ⟨hout,hothers⟩ := List.forall_mem_cons.mp hx
    rw [List.foldl_cons,ih hrest hothers,hhead.apart hbase hout]

/-- The ranges written are those of the segments. -/
theorem mem_written (hplaced : ∀ header∈segments,Placed header) (hbase : physicalBase<2^52)
    {range : ℕ×ℕ} :
    range∈(segments.foldl (loadProgramHeader kernelBytes physicalBase) loading).written ↔
      range∈loading.written ∨ ∃ header∈segments,
        range=(placeOf physicalBase header,roundedSize header) ∨
          range=(placeOf physicalBase header,header.filesz) := by
  induction segments generalizing loading with
  | nil => simp
  | cons header rest ih =>
    obtain ⟨hhead,hrest⟩ := List.forall_mem_cons.mp hplaced
    rw [List.foldl_cons,ih hrest,hhead.written_eq hbase,List.mem_append,List.exists_mem_cons_iff,
      or_assoc]
    simp only [List.mem_cons,List.not_mem_nil,or_false]

/-- Headers of other types are skipped. -/
theorem run_segments (headers : List Elf64Phdr) :
    headers.foldl (loadProgramHeader kernelBytes physicalBase) loading=
      (segmentsOf headers).foldl (loadProgramHeader kernelBytes physicalBase) loading := by
  induction headers generalizing loading with
  | nil => rfl
  | cons header rest ih =>
    rw [List.foldl_cons,ih]
    by_cases hload : header.type=ptLoad
    · rw [segmentsOf_cons_load rest hload,List.foldl_cons]
    · have hskip : loadProgramHeader kernelBytes physicalBase loading header=loading := by
        rw [loadProgramHeader,if_pos hload]
      rw [segmentsOf_cons_skip rest hload,hskip]

/-- The segments of a list behind one another, as far as they have bytes. -/
def Ascending (segments : List Elf64Phdr) : Prop :=
  (segments.filter (fun header => header.memsz≠0)).Pairwise
    (fun first second => first.vaddr+first.memsz≤ second.vaddr)

/-- The first segment ends before all others with bytes, and these are behind one
another. -/
theorem Ascending.cons (h : Ascending (header::segments)) (hbytes : header.memsz≠0) :
    (∀ other∈segments,other.memsz≠0 → header.vaddr+header.memsz≤other.vaddr) ∧
      Ascending segments := by
  rw [Ascending,List.filter_cons,if_pos (by simpa using hbytes)] at h
  obtain ⟨hbehind,hrest⟩ := List.pairwise_cons.mp h
  refine ⟨fun other hother hother' => hbehind other ?_,hrest⟩
  exact List.mem_filter.mpr ⟨hother,by simpa using hother'⟩

/-- Nothing is written for a segment without bytes. -/
theorem Placed.empty (h : Placed header) (hbase : physicalBase<2^52) (hzero : header.memsz=0) :
    (loadProgramHeader kernelBytes physicalBase loading header).memory=loading.memory := by
  funext x
  refine h.apart hbase ?_
  rw [roundedSize,hzero]
  omega

/-- A list with a segment without bytes is as good as the rest. -/
theorem Ascending.tail (h : Ascending (header::segments)) : Ascending segments := by
  by_cases hzero : header.memsz=0
  · rw [Ascending,List.filter_cons,if_neg (by simpa using hzero)] at h
    exact h
  · exact (h.cons hzero).2

/-- With all segments inside the reservation and the file apart from it, every
segment has its bytes in the end. The segments are done from the first on, and
those behind do not reach back. -/
theorem run_contents {limit fileSize : ℕ} {file : Memory}
    (hplaced : ∀ header∈segments,Placed header) (hbase : physicalBase<2^52)
    (hascending : Ascending segments)
    (hinside : ∀ header∈segments,header.memsz≠0 →
      placeOf physicalBase header+roundedSize header≤physicalBase+limit)
    (hinFile : ∀ header∈segments,header.offset+header.filesz≤fileSize)
    (hfile : kernelBytes+fileSize≤2^64) (hreserved : Apart physicalBase limit kernelBytes fileSize)
    (hbytes : ∀ i, i<fileSize → loading.memory (kernelBytes+i)=file (kernelBytes+i)) :
    ∀ header∈segments,∀ i<header.memsz,
      (segments.foldl (loadProgramHeader kernelBytes physicalBase) loading).memory
        (placeOf physicalBase header+i)=
          if i<header.filesz then file (kernelBytes+header.offset+i) else 0 := by
  induction segments generalizing loading with
  | nil => exact fun header hm => absurd hm List.not_mem_nil
  | cons first rest ih =>
    obtain ⟨hfirst,hrest⟩ := List.forall_mem_cons.mp hplaced
    obtain ⟨hfirstInside,hrestInside⟩ := List.forall_mem_cons.mp hinside
    obtain ⟨hfirstFile,hrestFile⟩ := List.forall_mem_cons.mp hinFile
    have hbase_le : physicalBase≤placeOf physicalBase first := Nat.le_add_right _ _
    rw [List.foldl_cons]
    by_cases hzero : first.memsz=0
    · have hempty := @Placed.empty kernelBytes _ loading _ hfirst hbase hzero
      refine List.forall_mem_cons.mpr ⟨fun i hi => absurd hi (by omega),?_⟩
      refine ih hrest hascending.tail hrestInside hrestFile (fun i hi => ?_)
      rw [hempty]
      exact hbytes i hi
    · have hend := hfirstInside hzero
      obtain ⟨hbehind,hothers⟩ := hascending.cons hzero
      rw [Apart] at hreserved
      -- the file is not touched
      have hkept : ∀ i, i<fileSize → (loadProgramHeader kernelBytes physicalBase loading
          first).memory (kernelBytes+i)=file (kernelBytes+i) := by
        intro i hi
        rw [hfirst.apart hbase (by omega)]
        exact hbytes i hi
      refine List.forall_mem_cons.mpr ⟨fun i hi => ?_,
        ih hrest hothers hrestInside hrestFile hkept⟩
      have hle := memsz_le_roundedSize first
      have hfilesz := hfirst.filesz_le
      rw [run_apart hrest hbase,hfirst.memory_eq hbase]
      · by_cases hcopied : i<first.filesz
        · rw [if_pos hcopied,copy_inside _ _ (by omega) (by omega),Nat.add_sub_cancel_left,
            u64_of_lt (by omega),fill_outside _ _ (by omega),Nat.add_assoc]
          exact hbytes _ (by omega)
        · rw [if_neg hcopied,copy_outside _ _ (by omega),fill_inside _ _ (by omega) (by omega)]
      · intro other hother
        by_cases hother' : other.memsz=0
        · rw [roundedSize,hother']
          omega
        · have hvaddr := hbehind other hother hother'
          have habove := hfirst.above
          unfold placeOf
          omega

end Segments

section Reservation

variable {memory : Memory} {kernelBytes fileSize physicalBase : ℕ} {headers : List Elf64Phdr}

/-- The segments of a kernel file are in the kernel's address space. -/
theorem KernelFile.placed (h : KernelFile memory kernelBytes fileSize physicalBase) :
    ∀ header∈segmentsOf (kernelHeaders memory kernelBytes),Placed header := by
  intro header hm
  have hload : header.type=ptLoad := by simpa using (List.mem_filter.mp hm).2
  exact ⟨hload,h.above header hm,h.end_le header hm,h.filesz_le header hm⟩

/-- A segment with bytes. -/
theorem mem_loadedOf {header : Elf64Phdr} :
    header∈loadedOf headers ↔ header∈segmentsOf headers ∧ header.memsz≠0 := by
  rw [loadedOf,List.mem_filter]
  simp

/-- The reservation has the pages of the segments, and they are at most as many
as the address space has bytes. -/
theorem KernelFile.total_eq (h : KernelFile memory kernelBytes fileSize physicalBase) :
    getTotalPages (kernelHeaders memory kernelBytes)=
      pagesOf (loadedOf (kernelHeaders memory kernelBytes)) ∧
    pagesOf (loadedOf (kernelHeaders memory kernelBytes))≤2^31 := by
  have hle : kernelVirtualBase+pagesOf (loadedOf (kernelHeaders memory kernelBytes))≤2^64 :=
    pagesOf_le (fun header hm => h.above header (mem_loadedOf.mp hm).1)
      (fun header hm => h.end_le header (mem_loadedOf.mp hm).1) (by decide) h.ascending
  rw [kernelVirtualBase] at hle
  refine ⟨?_,by omega⟩
  rw [getTotalPages_eq,←pagesOf_loadedOf,u64_of_lt (by omega)]
  intro header hm
  have habove := h.above header hm
  have hend := h.end_le header hm
  rw [kernelVirtualBase] at habove
  omega

/-- All segments with bytes end in the pages of their sum exactly when the last
one begins where those before it reach: an earlier one ends before the page that
the last one takes. -/
theorem inside_iff_reached
    (habove : ∀ header∈loadedOf headers,kernelVirtualBase≤header.vaddr)
    (hascending : (loadedOf headers).Pairwise
      (fun first second => first.vaddr+first.memsz≤ second.vaddr)) :
    (∀ header∈loadedOf headers,
      header.vaddr-kernelVirtualBase+roundedSize header≤pagesOf (loadedOf headers)*4096) ↔
      Reached headers := by
  have hbytes : ∀ header∈loadedOf headers,header.memsz≠0 := fun header hm => (mem_loadedOf.mp hm).2
  unfold Reached
  rcases List.eq_nil_or_concat (loadedOf headers) with hnil|⟨front,last,hlast⟩
  · rw [hnil]
    simp
  · rw [hlast] at habove hascending hbytes ⊢
    rw [List.concat_eq_append] at habove hascending hbytes ⊢
    have hsum : pagesOf (front++[last])=pagesOf front+(last.memsz+4095)/4096 := by
      rw [pagesOf,List.map_append,List.sum_append]
      rfl
    have hlastAbove := habove last (List.mem_append_right front List.mem_cons_self)
    have hlastBytes := hbytes last (List.mem_append_right front List.mem_cons_self)
    rw [List.getLast?_concat,List.dropLast_concat,hsum]
    simp only [Option.mem_some_iff,forall_eq']
    constructor
    · intro h
      have hend := h last (List.mem_append_right front List.mem_cons_self)
      rw [roundedSize] at hend
      omega
    · intro h header hm
      rcases List.mem_append.mp hm with hfront|hsame
      · have hbehind := (List.pairwise_append.mp hascending).2.2 header hfront last
          List.mem_cons_self
        have hheader := habove header hm
        rw [roundedSize]
        omega
      · obtain rfl : header=last := List.mem_singleton.mp hsame
        rw [roundedSize]
        omega

/-- What the loop leaves. -/
theorem KernelFile.loadKernel_eq (h : KernelFile memory kernelBytes fileSize physicalBase) :
    loadKernel memory kernelBytes physicalBase=
      some ((segmentsOf (kernelHeaders memory kernelBytes)).foldl
        (loadProgramHeader kernelBytes physicalBase) ⟨memory,[]⟩) := by
  rw [loadKernel,if_neg (not_not_intro h.magic),run_segments]

/-- Every byte written is in the reservation exactly when every segment with
bytes ends there. -/
theorem KernelFile.inside_iff (h : KernelFile memory kernelBytes fileSize physicalBase)
    {loading : Loading} (hloading : loadKernel memory kernelBytes physicalBase=some loading) :
    (∀ range∈loading.written,∀ x,range.1≤x → x<range.1+range.2 → physicalBase≤x ∧
      x<physicalBase+getTotalPages (kernelHeaders memory kernelBytes)*Page) ↔
    ∀ header∈loadedOf (kernelHeaders memory kernelBytes),
      header.vaddr-kernelVirtualBase+roundedSize header≤
        pagesOf (loadedOf (kernelHeaders memory kernelBytes))*4096 := by
  rw [h.loadKernel_eq] at hloading
  cases hloading
  rw [h.total_eq.1,Page]
  have hwritten := @mem_written kernelBytes physicalBase ⟨memory,[]⟩ _ h.placed h.physical_lt
  constructor
  · intro hinside header hm
    obtain ⟨hsegment,hbytes⟩ := mem_loadedOf.mp hm
    have hle := memsz_le_roundedSize header
    have hlast := hinside (placeOf physicalBase header,roundedSize header)
      (hwritten.mpr (Or.inr ⟨header,hsegment,Or.inl rfl⟩))
      (placeOf physicalBase header+(roundedSize header-1)) (by dsimp only; omega)
      (by dsimp only; omega)
    unfold placeOf at hlast
    omega
  · intro hinside range hrange x hlow hhigh
    rcases hwritten.mp hrange with hnone|⟨header,hm,hsize⟩
    · cases hnone
    · have hfilesz := h.filesz_le header hm
      have hle := memsz_le_roundedSize header
      have hx : placeOf physicalBase header≤x ∧
          x<placeOf physicalBase header+roundedSize header := by
        rcases hsize with rfl|rfl
        · exact ⟨hlow,hhigh⟩
        · dsimp only at hlow hhigh
          omega
      have hbytes : header.memsz≠0 := by
        intro hzero
        rw [roundedSize,hzero] at hx
        omega
      have hend := hinside header (mem_loadedOf.mpr ⟨hm,hbytes⟩)
      unfold placeOf at hx
      omega

end Reservation

section Samples

/-- The words of a kernel file with two segments of a page each, the second one
at this distance from the virtual base. -/
def sampleWords (distance : ℕ) : List ℕ :=
  [0x464c457f,0,0,0,0,0,0,0,64,0,0,0,0,0,2,0]++
  [1,5,176,0,0x80000000,0xffffffff,0,0,4,0,0x1000,0,0x1000,0]++
  [1,6,180,0,0x80000000+distance,0xffffffff,0,0,4,0,0x1000,0,0x1000,0]++
  [0x01010101,0x02020202]

/-- The file at this address of a memory that is zero elsewhere. -/
def sampleMemory (distance : ℕ) : Memory := fun x =>
  if x<0x3000000 then 0
  else UInt8.ofNat ((sampleWords distance).getD ((x-0x3000000)/4) 0/256^((x-0x3000000)%4))

/-- It is a kernel file. -/
theorem sample_kernelFile : KernelFile (sampleMemory 0x1000) 0x3000000 184 0x1000000 := by
  refine ⟨?_,?_,?_,?_,?_,?_,?_,?_,?_,?_,Or.inl ?_⟩ <;> decide +kernel

/-- So is the one with a gap of two pages. -/
theorem gap_kernelFile : KernelFile (sampleMemory 0x3000) 0x3000000 184 0x1000000 := by
  refine ⟨?_,?_,?_,?_,?_,?_,?_,?_,?_,?_,Or.inl ?_⟩ <;> decide +kernel

end Samples

/-- A kernel file is loaded into the pages reserved for it, with its bytes in
place, exactly when its last segment with bytes begins no further from the
virtual base than the pages of the others reach. -/
theorem loadedInside_iff {memory : Memory} {kernelBytes fileSize physicalBase : ℕ}
    (h : KernelFile memory kernelBytes fileSize physicalBase) :
    (∃ loading,loadKernel memory kernelBytes physicalBase=some loading ∧
      LoadedInside memory kernelBytes physicalBase loading) ↔
    Reached (kernelHeaders memory kernelBytes) := by
  have hsegments : ∀ header∈loadedOf (kernelHeaders memory kernelBytes),
      kernelVirtualBase≤header.vaddr := fun header hm => h.above header (mem_loadedOf.mp hm).1
  rw [←inside_iff_reached hsegments h.ascending]
  constructor
  · rintro ⟨loading,hloading,hinside⟩
    exact (h.inside_iff hloading).mp hinside.inside
  · intro hends
    refine ⟨_,h.loadKernel_eq,(h.inside_iff h.loadKernel_eq).mpr hends,?_⟩
    intro header hm i hi
    rw [(h.placed header hm).place_eq h.physical_lt]
    have hreserved := h.reserved
    rw [h.total_eq.1,Page] at hreserved
    refine run_contents h.placed h.physical_lt h.ascending (fun other hother hbytes => ?_) h.inFile
      h.file_le hreserved (fun _ _ => rfl) header hm i hi
    have hend := hends other (mem_loadedOf.mpr ⟨hother,hbytes⟩)
    unfold placeOf
    omega

/-- Two segments page by page are loaded inside. -/
theorem sample_loadedInside : ∃ loading,
    loadKernel (sampleMemory 0x1000) 0x3000000 0x1000000=some loading ∧
      LoadedInside (sampleMemory 0x1000) 0x3000000 0x1000000 loading := by
  refine (loadedInside_iff sample_kernelFile).mpr ?_
  unfold Reached
  decide +kernel

/-- With a gap of two pages the second one is written behind the two pages of
the reservation. -/
theorem not_always_loadedInside :
    KernelFile (sampleMemory 0x3000) 0x3000000 184 0x1000000 ∧
      ¬∃ loading,loadKernel (sampleMemory 0x3000) 0x3000000 0x1000000=some loading ∧
        LoadedInside (sampleMemory 0x3000) 0x3000000 0x1000000 loading := by
  refine ⟨gap_kernelFile,?_⟩
  rintro ⟨loading,hloading,hinside⟩
  have hends := (gap_kernelFile.inside_iff hloading).mp hinside.inside
  revert hends
  decide +kernel

end WorkbenchOS.KernelImage
