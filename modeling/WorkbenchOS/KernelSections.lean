import WorkbenchOS.KernelHeap

/-!
# Protection of the kernel sections

The bootloader records a program header as its address and its size rounded
up to pages; `MemoryManager::init` divides that size back into pages and sets
the flags of so many pages from the address on. The address is not aligned,
so a segment can reach into one page more than its size has. Segments occupy
different pages, hence no call disturbs another one's pages and the page that
was left out keeps the flags it had.
-/

namespace WorkbenchOS.KernelSections

open ByteMemory LibStd FrameBitmap PhysicalMemory PageTables MemoryManagement PageMapping
open KernelHeap

/-- The fields of a loaded program header of the kernel that matter here. -/
structure Segment where
  /-- `p_vaddr`. -/
  vaddr : ℕ
  /-- `p_memsz`. -/
  memsz : ℕ
  /-- `p_flags`. -/
  flags : ℕ
  deriving DecidableEq

/-- `ProgramHeaderFlags`. -/
structure ProgramHeaderFlags where
  /-- `address`. -/
  address : ℕ
  /-- `size`. -/
  size : ℕ
  /-- `flags`, eight bits. -/
  flags : ℕ
  deriving DecidableEq

/-- What the loop of the bootloader records for a loaded segment. The array
`program_header_flags` of `BootState` has room for eight of them; the loop does not
look at that bound, and a ninth record would be stored over what follows. -/
def recordHeader (segment : Segment) : ProgramHeaderFlags where
  address := segment.vaddr
  size := u64 (bytesToPages segment.memsz*Page)
  flags := segment.flags%256

/-- The stores of `set_page_flags` into an entry. -/
def pageFlags (entry : BitVec 64) (write execute : Bool) : BitVec 64 :=
  setField (setField entry 1 1 (if write then 1 else 0)) 63 1 (if execute then 0 else 1)

/-- The loop of `set_page_flags`, from page `i` on. -/
def setPageFlagsLoop (address : ℕ) (write execute : Bool) :
    (remaining i : ℕ)→MemoryManager→Outcome Unit
  | 0,_,manager => (.ok (),manager)
  | remaining+1,i,manager =>
    match getKernelPageTableEntry manager (u64 (address+intPageOffset i)) with
    | (.error error,after) => (.error error,after)
    | (.ok (table,index),after) =>
      setPageFlagsLoop address write execute remaining (i+1)
        (after.store table index (pageFlags (entryAt after.memory table index) write execute))

/-- `MemoryManager::set_page_flags`; the loop counter is an `int`. -/
def setPageFlags (manager : MemoryManager) (address pageCount : ℕ) (write execute : Bool) :
    Outcome Unit :=
  setPageFlagsLoop address write execute (min pageCount intIterations) 0 manager

/-- The call `init` makes for one recorded header; it ignores the result. -/
def protectHeader (manager : MemoryManager) (header : ProgramHeaderFlags) : MemoryManager :=
  (setPageFlags manager header.address (header.size/0x1000)
    (decide ((header.flags &&& 2) >>> 1≠0)) (decide (header.flags &&& 1≠0))).2

/-- The end of `MemoryManager::init`: all headers, then the stack. -/
def protectSections (manager : MemoryManager) (headers : List ProgramHeaderFlags)
    (stackBase stackSize : ℕ) : MemoryManager :=
  (setPageFlags (headers.foldl protectHeader manager) stackBase (stackSize/0x1000) true false).2

/-- The page-table entry of a page, by page number. -/
def pageEntry (manager : MemoryManager) (page : ℕ) : BitVec 64 :=
  entryAt manager.memory (target (entryAt manager.memory manager.kernelPageDirectory
    (indexAt 1 (page*4096)))) (indexAt 0 (page*4096))

/-- `writeable` and `execution_disabled` of an entry are those of a segment. -/
def HasFlags (segment : Segment) (entry : BitVec 64) : Prop :=
  getField entry 1 1=(if segment.flags.testBit 1 then 1 else 0) ∧
    getField entry 63 1=(if segment.flags.testBit 0 then 0 else 1)

instance (segment : Segment) (entry : BitVec 64) : Decidable (HasFlags segment entry) :=
  inferInstanceAs (Decidable (_∧_))

/-- A page that intersects a segment. -/
def Segment.Occupies (segment : Segment) (page : ℕ) : Prop :=
  page*4096<segment.vaddr+segment.memsz ∧ segment.vaddr<(page+1)*4096 ∧ 0<segment.memsz

/-- The pages `init` sets the flags of for a segment. -/
def Segment.Covers (segment : Segment) (page : ℕ) : Prop :=
  segment.vaddr/4096≤page ∧ page<segment.vaddr/4096+(segment.memsz+4095)/4096

/-- A page translated through the kernel page directory. -/
def WindowPage (page : ℕ) : Prop := windowStart≤page*4096 ∧ page*4096<windowEnd

/-- Page tables as the bootloader leaves them: well formed below the kernel
page directory. -/
structure BootTables (tables : ℕ→ℕ→Prop) (manager : MemoryManager) : Prop where
  /-- Tables are well formed. -/
  system : TableSystem manager.memory tables
  /-- The kernel page directory maps small pages. -/
  directory : Directory manager.memory tables manager.kernelPageDirectory
  /-- Its entries fit the 28 bits the kernel reads. -/
  narrow : ∀ i, i<512 → Narrow (entryAt manager.memory manager.kernelPageDirectory i)

/-- The directory entry of a page is present. -/
def Linked (manager : MemoryManager) (page : ℕ) : Prop :=
  Present (entryAt manager.memory manager.kernelPageDirectory (indexAt 1 (page*4096)))

section Pages

variable {tables : ℕ→ℕ→Prop} {manager after : MemoryManager} {page other : ℕ}

/-- Pages of the window are told apart by their indices. -/
theorem page_eq (hp : WindowPage page) (ho : WindowPage other)
    (hi : indexAt 1 (page*4096)=indexAt 1 (other*4096) ∧
      indexAt 0 (page*4096)=indexAt 0 (other*4096)) : page=other := by
  have hdiv := page_eq_of_indexAt hp.1 hp.2 ho.1 ho.2 hi
  rwa [Nat.mul_div_cancel _ (by decide),Nat.mul_div_cancel _ (by decide)] at hdiv

/-- Addresses of one page have the same indices. -/
theorem indexAt_page (level address : ℕ) :
    indexAt level (address/4096*4096)=indexAt level address := by
  have hpow : 2^(12+9*level)=4096*2^(9*level) := by rw [pow_add]; norm_num
  rw [indexAt,indexAt,hpow,←Nat.div_div_eq_div_mul,←Nat.div_div_eq_div_mul,
    Nat.mul_div_cancel _ (by decide)]

/-- The entry of a linked page is found and nothing changes. -/
theorem getKernelPageTableEntry_linked (h : BootTables tables manager) (address : ℕ)
    (hl : Linked manager (address/4096)) :
    getKernelPageTableEntry manager address=
      (.ok (target (entryAt manager.memory manager.kernelPageDirectory
        (indexAt 1 (address/4096*4096))),indexAt 0 (address/4096*4096)),manager) := by
  rw [Linked,indexAt_page] at hl
  rw [indexAt_page,indexAt_page,getKernelPageTableEntry,virtualAddressToPageDirectoryIndex_eq]
  dsimp only
  rw [ensurePageTable,if_pos hl]
  dsimp only
  rw [virtualAddressToPageTableIndex_eq]
  dsimp only
  rw [getPhysicalAddress_eq (h.narrow _ (indexAt_lt 1 address))]

/-- Page tables after the entry of one page is stored. -/
def storePage (manager : MemoryManager) (page : ℕ) (entry : BitVec 64) : MemoryManager :=
  manager.store (target (entryAt manager.memory manager.kernelPageDirectory
    (indexAt 1 (page*4096)))) (indexAt 0 (page*4096)) entry

/-- The directory is not touched by a store into a page table. -/
theorem storePage_directory (h : BootTables tables manager) (hl : Linked manager page)
    (entry : BitVec 64) {i : ℕ} (hi : i<512) :
    entryAt (storePage manager page entry).memory manager.kernelPageDirectory i=
      entryAt manager.memory manager.kernelPageDirectory i := by
  have htable := h.directory.table_of_present h.system (indexAt_lt 1 (page*4096)) hl
  refine entryAt_setEntry_other manager.memory entry (indexAt_lt 0 _) hi
    (h.system.aligned htable) (h.system.aligned h.directory.member) (Or.inl ?_)
  intro heq
  have hmember := h.directory.member
  rw [heq] at hmember
  cases h.system.unique hmember htable

/-- A store into a page table keeps the tables in order. -/
theorem storePage_bootTables (h : BootTables tables manager) (hl : Linked manager page)
    (entry : BitVec 64) : BootTables tables (storePage manager page entry) := by
  have htable := h.directory.table_of_present h.system (indexAt_lt 1 (page*4096)) hl
  refine ⟨?_,?_,?_⟩
  · exact h.system.store htable (indexAt_lt 0 _) (fun _ => Or.inl rfl)
  · exact h.directory.congr (fun i hi => storePage_directory h hl entry hi)
  · intro i hi
    exact (congrArg Narrow (storePage_directory h hl entry hi)).mpr (h.narrow i hi)

/-- Pages stay linked. -/
theorem storePage_linked (h : BootTables tables manager) (hl : Linked manager page)
    (entry : BitVec 64) (other : ℕ) : Linked (storePage manager page entry) other↔Linked manager other := by
  rw [Linked,Linked]
  exact iff_of_eq (congrArg Present (storePage_directory h hl entry (indexAt_lt 1 _)))

/-- The entry that was stored, and every other one. -/
theorem storePage_entry (h : BootTables tables manager) (hl : Linked manager page)
    (ho : Linked manager other) (hw : WindowPage page) (hwo : WindowPage other)
    (entry : BitVec 64) : pageEntry (storePage manager page entry) other=
      if other=page then entry else pageEntry manager other := by
  have htable := h.directory.table_of_present h.system (indexAt_lt 1 (page*4096)) hl
  have hother := h.directory.table_of_present h.system (indexAt_lt 1 (other*4096)) ho
  have hentry : pageEntry (storePage manager page entry) other=
      entryAt (storePage manager page entry).memory (target (entryAt manager.memory
        manager.kernelPageDirectory (indexAt 1 (other*4096)))) (indexAt 0 (other*4096)) := by
    rw [pageEntry]
    exact congrArg (fun e => entryAt _ (target e) _)
      (storePage_directory h hl entry (indexAt_lt 1 _))
  rw [hentry]
  by_cases hsame : other=page
  · rw [if_pos hsame,hsame]
    exact entryAt_setEntry_self manager.memory entry
  · rw [if_neg hsame]
    refine entryAt_setEntry_other manager.memory entry (indexAt_lt 0 _) (indexAt_lt 0 _)
      (h.system.aligned htable) (h.system.aligned hother) ?_
    by_contra hboth
    rw [not_or,not_not,not_not] at hboth
    have hindex := h.directory.distinct _ _ (indexAt_lt 1 _) (indexAt_lt 1 _) ho hl hboth.1
    exact hsame (page_eq hwo hw ⟨hindex,hboth.2⟩)

end Pages

section Flags

variable {tables : ℕ→ℕ→Prop} {manager before middle after : MemoryManager}
  {first second : ℕ→BitVec 64→BitVec 64}

/-- The page tables stay in order and the entries of the window are rewritten,
each by its page. -/
structure Rewritten (tables : ℕ→ℕ→Prop) (before after : MemoryManager)
    (change : ℕ→BitVec 64→BitVec 64) : Prop where
  /-- The tables. -/
  boot : BootTables tables after
  /-- No page is linked or cut off. -/
  linked : ∀ page, Linked after page↔Linked before page
  /-- The entries. -/
  entry : ∀ page, WindowPage page → Linked before page →
    pageEntry after page=change page (pageEntry before page)

/-- One rewriting after another. -/
theorem Rewritten.trans (h : Rewritten tables before middle first)
    (k : Rewritten tables middle after second) :
    Rewritten tables before after (fun page entry => second page (first page entry)) := by
  refine ⟨k.boot,fun page => (k.linked page).trans (h.linked page),?_⟩
  intro page hw hl
  rw [k.entry page hw ((h.linked page).mpr hl),h.entry page hw hl]

/-- Flags of so many pages from an address on. -/
def flagChange (address count : ℕ) (write execute : Bool) (page : ℕ) (entry : BitVec 64) :
    BitVec 64 :=
  if address/4096≤page ∧ page<address/4096+count then pageFlags entry write execute else entry

/-- The address of the loop is in the page it should be. -/
theorem loop_address {address i : ℕ} (hi : i<2^18) (hw : WindowPage (address/4096+i)) :
    u64 (address+intPageOffset i)/4096=address/4096+i := by
  have hend := hw.2
  rw [windowEnd] at hend
  rw [intPageOffset_eq (by omega),u64_of_lt (by omega)]
  omega

/-- The loop sets the flags of its pages and of no other. -/
theorem setPageFlagsLoop_rewritten (address : ℕ) (write execute : Bool) (remaining : ℕ) :
    ∀ (i : ℕ) (manager : MemoryManager), BootTables tables manager → i+remaining≤2^18 →
      (∀ j, i≤j → j< i+remaining →
        WindowPage (address/4096+j) ∧ Linked manager (address/4096+j)) →
      Rewritten tables manager (setPageFlagsLoop address write execute remaining i manager).2
        (flagChange (address/4096*4096+i*4096) remaining write execute) := by
  induction remaining with
  | zero =>
    intro i manager h _ _
    refine ⟨h,fun _ => Iff.rfl,?_⟩
    intro page _ _
    rw [flagChange,if_neg (by omega)]
    rfl
  | succ remaining ih =>
    intro i manager h hn hpages
    obtain ⟨hw,hl⟩ := hpages i (le_refl i) (by omega)
    have haddress := loop_address (by omega) hw
    have hfound := getKernelPageTableEntry_linked h (u64 (address+intPageOffset i))
      (haddress.symm ▸ hl)
    rw [haddress] at hfound
    have hstep : setPageFlagsLoop address write execute (remaining+1) i manager=
        setPageFlagsLoop address write execute remaining (i+1)
          (storePage manager (address/4096+i)
            (pageFlags (pageEntry manager (address/4096+i)) write execute)) := by
      rw [setPageFlagsLoop,hfound]
      rfl
    have hstored := storePage_bootTables h hl
      (pageFlags (pageEntry manager (address/4096+i)) write execute)
    have hlinked := storePage_linked h hl
      (pageFlags (pageEntry manager (address/4096+i)) write execute)
    have hrest := ih (i+1) _ hstored (by omega) (fun j hij hj =>
      ⟨(hpages j (by omega) (by omega)).1,
        (hlinked _).mpr (hpages j (by omega) (by omega)).2⟩)
    rw [hstep]
    refine ⟨hrest.boot,fun page => (hrest.linked page).trans (hlinked page),?_⟩
    intro page hwp hlp
    rw [hrest.entry page hwp ((hlinked page).mpr hlp),storePage_entry h hl hlp hw hwp,
      flagChange,flagChange]
    by_cases hpage : page=address/4096+i
    · rw [if_neg (by omega),if_pos hpage,if_pos (by omega),hpage]
    · rw [if_neg hpage]
      by_cases hin : address/4096+i+1≤page ∧ page<address/4096+i+1+remaining
      · rw [if_pos (by omega),if_pos (by omega)]
      · rw [if_neg (by omega),if_neg (by omega)]

/-- `set_page_flags` on linked pages of the window. -/
theorem setPageFlags_rewritten (h : BootTables tables manager) {address count : ℕ}
    (write execute : Bool)
    (hpages : ∀ j, j<count → WindowPage (address/4096+j) ∧ Linked manager (address/4096+j)) :
    Rewritten tables manager (setPageFlags manager address count write execute).2
      (flagChange address count write execute) := by
  have hcount : count≤2^18 := by
    by_contra hlarge
    have hfirst := (hpages 0 (by omega)).1.1
    have hlast := (hpages (2^18) (by omega)).1.2
    rw [windowStart] at hfirst
    rw [windowEnd] at hlast
    omega
  have hmin : min count intIterations=count := by
    rw [intIterations]
    omega
  have hloop := setPageFlagsLoop_rewritten address write execute count 0 manager h
    (by omega) (fun j _ hj => hpages j (by omega))
  rw [setPageFlags,hmin]
  refine ⟨hloop.boot,hloop.linked,?_⟩
  intro page hw hl
  rw [hloop.entry page hw hl,flagChange,flagChange]
  have hstart : (address/4096*4096+0*4096)/4096=address/4096 := by omega
  rw [hstart]

end Flags

section Segments

variable {tables : ℕ→ℕ→Prop} {manager after : MemoryManager} {segment : Segment}
  {segments : List Segment} {page : ℕ}

/-- The segment needs no page more than its size has. -/
def Segment.LastPageCovered (segment : Segment) : Prop :=
  segment.vaddr%4096+segment.memsz≤(segment.memsz+4095)/4096*4096

instance (segment : Segment) : Decidable segment.LastPageCovered :=
  inferInstanceAs (Decidable (_≤_))

/-- The page of the last byte. -/
def Segment.lastPage (segment : Segment) : ℕ := (segment.vaddr+segment.memsz-1)/4096

/-- What `init` does to the entries of a segment. -/
def segmentChange (segment : Segment) : ℕ→BitVec 64→BitVec 64 :=
  flagChange segment.vaddr ((segment.memsz+4095)/4096) (segment.flags.testBit 1)
    (segment.flags.testBit 0)

/-- Covered pages are occupied. -/
theorem Segment.Covers.occupies (h : segment.Covers page) : segment.Occupies page := by
  rw [Segment.Covers] at h
  rw [Segment.Occupies]
  omega

/-- Only the last page of a segment can be left out. -/
theorem Segment.Occupies.covers_or (h : segment.Occupies page) :
    segment.Covers page ∨ ¬segment.LastPageCovered ∧ page=segment.lastPage := by
  rw [Segment.Occupies] at h
  rw [Segment.Covers,Segment.LastPageCovered,Segment.lastPage]
  omega

/-- Covered pages get the flags of the segment. -/
theorem segmentChange_covered (h : segment.Covers page) (entry : BitVec 64) :
    segmentChange segment page entry=
      pageFlags entry (segment.flags.testBit 1) (segment.flags.testBit 0) := if_pos h

/-- Other pages are left alone. -/
theorem segmentChange_left (h : ¬segment.Covers page) (entry : BitVec 64) :
    segmentChange segment page entry=entry := if_neg h

/-- A last page that is not covered. -/
theorem Segment.lastPage_left (hz : 0<segment.memsz) (h : ¬segment.LastPageCovered) :
    segment.Occupies segment.lastPage ∧ ¬segment.Covers segment.lastPage := by
  rw [Segment.LastPageCovered] at h
  rw [Segment.Occupies,Segment.Covers,Segment.lastPage]
  omega

/-- The flags recorded for a segment are its own. -/
theorem recordHeader_flags (flags : ℕ) :
    decide (((flags%256) &&& 2) >>> 1≠0)=flags.testBit 1 ∧
      decide ((flags%256) &&& 1≠0)=flags.testBit 0 := by
  constructor
  · have hbit := Nat.and_two_pow (flags%2^8) 1
    rw [Nat.testBit_mod_two_pow] at hbit
    change decide (((flags%2^8) &&& 2^1) >>> 1≠0)=_
    rw [hbit]
    cases flags.testBit 1 <;> rfl
  · have hbit := Nat.and_two_pow (flags%2^8) 0
    rw [Nat.testBit_mod_two_pow] at hbit
    change decide ((flags%2^8) &&& 2^0≠0)=_
    rw [hbit]
    cases flags.testBit 0 <;> rfl

/-- Entries with the flags of a segment stored have them. -/
theorem hasFlags_pageFlags (segment : Segment) (entry : BitVec 64) :
    HasFlags segment (pageFlags entry (segment.flags.testBit 1) (segment.flags.testBit 0)) := by
  rw [HasFlags,pageFlags,getField_setField_apart _ (by decide) (by decide),
    getField_setField_self _ (by decide),getField_setField_self _ (by decide)]
  cases segment.flags.testBit 1 <;> cases segment.flags.testBit 0 <;> exact ⟨rfl,rfl⟩

/-- The call `init` makes for a segment. -/
theorem protectHeader_rewritten (h : BootTables tables manager)
    (hpages : ∀ page, segment.Occupies page → WindowPage page ∧ Linked manager page) :
    Rewritten tables manager (protectHeader manager (recordHeader segment))
      (segmentChange segment) := by
  have hflags := recordHeader_flags segment.flags
  have hcovered : ∀ j, j<(segment.memsz+4095)/4096 →
      WindowPage (segment.vaddr/4096+j) ∧ Linked manager (segment.vaddr/4096+j) := by
    intro j hj
    exact hpages _ (Segment.Covers.occupies ⟨by omega,by omega⟩)
  have hbytes : segment.memsz≤2^30 := by
    by_cases hz : segment.memsz=0
    · omega
    · have hfirst := (hpages (segment.vaddr/4096) (by rw [Segment.Occupies]; omega)).1.1
      have hlast := (hpages segment.lastPage
        (by rw [Segment.Occupies,Segment.lastPage]; omega)).1.2
      rw [windowStart] at hfirst
      rw [windowEnd,Segment.lastPage] at hlast
      omega
  have hcount : (recordHeader segment).size/0x1000=(segment.memsz+4095)/4096 := by
    have hround : bytesToPages segment.memsz=(segment.memsz+4095)/4096 := by
      rw [bytesToPages,divideRoundedUp,Page,u64_of_lt (by omega)]
    change u64 (bytesToPages segment.memsz*Page)/0x1000=_
    rw [hround,Page,u64_of_lt (by omega)]
    omega
  rw [protectHeader,hcount]
  change Rewritten tables manager (setPageFlags manager segment.vaddr _
    (decide (((segment.flags%256) &&& 2) >>> 1≠0)) (decide ((segment.flags%256) &&& 1≠0))).2 _
  rw [hflags.1,hflags.2]
  exact setPageFlags_rewritten h _ _ hcovered

/-- The changes of all segments, one after another. -/
def segmentsChange (segments : List Segment) (page : ℕ) (entry : BitVec 64) : BitVec 64 :=
  segments.foldl (fun entry segment => segmentChange segment page entry) entry

/-- All calls for the segments. -/
theorem protectHeaders_rewritten (segments : List Segment) (h : BootTables tables manager)
    (hpages : ∀ segment∈segments,∀ page, segment.Occupies page →
      WindowPage page ∧ Linked manager page) :
    Rewritten tables manager ((segments.map recordHeader).foldl protectHeader manager)
      (segmentsChange segments) := by
  induction segments generalizing manager with
  | nil => exact ⟨h,fun _ => Iff.rfl,fun _ _ _ => rfl⟩
  | cons segment rest ih =>
    obtain ⟨hfirst,hrest⟩ := List.forall_mem_cons.mp hpages
    have hone := protectHeader_rewritten h hfirst
    have hmore := ih hone.boot (fun s hs page hp =>
      ⟨(hrest s hs page hp).1,(hone.linked page).mpr (hrest s hs page hp).2⟩)
    rw [List.map_cons,List.foldl_cons]
    exact hone.trans hmore

/-- Segments that do not occupy a page leave its entry alone. -/
theorem segmentsChange_apart (h : ∀ segment∈segments,¬segment.Occupies page) (entry : BitVec 64) :
    segmentsChange segments page entry=entry := by
  induction segments generalizing entry with
  | nil => rfl
  | cons segment rest ih =>
    obtain ⟨hfirst,hrest⟩ := List.forall_mem_cons.mp h
    rw [segmentsChange,List.foldl_cons,
      segmentChange_left (fun hc => hfirst (Segment.Covers.occupies hc))]
    exact ih hrest entry

/-- Segments occupy different pages. -/
def PagesApart (left right : Segment) : Prop :=
  ∀ page, ¬(left.Occupies page ∧ right.Occupies page)

/-- A page of a segment is changed by that segment only. -/
theorem segmentsChange_page (ha : segments.Pairwise PagesApart) (hm : segment∈segments)
    (hp : segment.Occupies page) (entry : BitVec 64) :
    segmentsChange segments page entry=segmentChange segment page entry := by
  induction segments generalizing entry with
  | nil => cases hm
  | cons first rest ih =>
    obtain ⟨hfirst,hrest⟩ := List.pairwise_cons.mp ha
    rw [segmentsChange,List.foldl_cons]
    rcases List.mem_cons.mp hm with rfl|hmem
    · exact segmentsChange_apart (fun s hs ho => hfirst s hs page ⟨hp,ho⟩) _
    · have hout : ¬first.Covers page := fun hc => hfirst segment hmem page ⟨hc.occupies,hp⟩
      rw [segmentChange_left hout]
      exact ih hrest hmem entry

end Segments

/-- The entries of every page of every segment. -/
def Protected (manager : MemoryManager) (segments : List Segment) : Prop :=
  ∀ segment∈segments,∀ page, segment.Occupies page → HasFlags segment (pageEntry manager page)

/-- After `init` every page of every segment has the flags of the segment if
and only if each segment needs no page more than its size has, or its last
page had its flags before. The list is one that `BootState` can hold, of at most
eight records; the proof needs no bound. -/
theorem sections_protected_iff {tables : ℕ→ℕ→Prop} {manager : MemoryManager}
    {segments : List Segment} {stackBase stackSize : ℕ} (h : BootTables tables manager)
    (hpages : ∀ segment∈segments,∀ page, segment.Occupies page →
      WindowPage page ∧ Linked manager page)
    (hapart : segments.Pairwise PagesApart)
    (hstack : ∀ i, i<stackSize/0x1000 → WindowPage (stackBase/4096+i) ∧
      Linked manager (stackBase/4096+i) ∧
      ∀ segment∈segments,¬segment.Occupies (stackBase/4096+i)) :
    Protected (protectSections manager (segments.map recordHeader) stackBase stackSize) segments↔
      ∀ segment∈segments,0<segment.memsz → segment.LastPageCovered ∨
        HasFlags segment (pageEntry manager segment.lastPage) := by
  have hheaders := protectHeaders_rewritten segments h hpages
  have hall := hheaders.trans (setPageFlags_rewritten hheaders.boot true false
    (fun i hi => ⟨(hstack i hi).1,(hheaders.linked _).mpr (hstack i hi).2.1⟩))
  -- the stack is no page of a segment, so only the segment's own call counts
  have hentry : ∀ segment∈segments,∀ page, segment.Occupies page →
      pageEntry (protectSections manager (segments.map recordHeader) stackBase stackSize) page=
        segmentChange segment page (pageEntry manager page) := by
    intro segment hm page hp
    have hnot : ¬(stackBase/4096≤page ∧ page<stackBase/4096+stackSize/0x1000) := by
      rintro ⟨hlow,hhigh⟩
      obtain ⟨i,rfl⟩ := Nat.exists_eq_add_of_le hlow
      exact (hstack i (by omega)).2.2 segment hm hp
    obtain ⟨hw,hl⟩ := hpages segment hm page hp
    have hchange := hall.entry page hw hl
    rw [flagChange,if_neg hnot,segmentsChange_page hapart hm hp] at hchange
    exact hchange
  constructor
  · intro hprotected segment hm hz
    by_cases hlast : segment.LastPageCovered
    · exact Or.inl hlast
    · obtain ⟨hoccupied,hleft⟩ := segment.lastPage_left hz hlast
      have hflags := hprotected segment hm _ hoccupied
      rw [hentry segment hm _ hoccupied,segmentChange_left hleft] at hflags
      exact Or.inr hflags
  · intro hcondition segment hm page hp
    rw [hentry segment hm page hp]
    by_cases hcovered : segment.Covers page
    · rw [segmentChange_covered hcovered]
      exact hasFlags_pageFlags segment _
    · rw [segmentChange_left hcovered]
      obtain ⟨hlast,hpage⟩ := hp.covers_or.resolve_left hcovered
      rw [hpage]
      exact (hcondition segment hm hp.2.2).resolve_left hlast

/-- A page directory with one page table, which maps two pages as the
bootloader does. -/
def bootMemory : Memory :=
  setEntry (setEntry (setEntry (fun _ => 0) 0x13000 0 0x14003#64) 0x13000 1 0x15003#64)
    0x12000 0 0x13003#64

/-- A memory manager over these tables. -/
def bootManager : MemoryManager := {sampleManager with memory := bootMemory}

/-- Its tables. -/
def bootTables (level table : ℕ) : Prop :=
  (level=2 ∧ table=0x12000) ∨ (level=1 ∧ table=0x13000)

/-- Its directory has one entry. -/
theorem entryAt_bootDirectory {i : ℕ} (hi : i<512) :
    entryAt bootMemory 0x12000 i=if i=0 then 0x13003#64 else 0#64 := by
  rw [bootMemory]
  by_cases hz : i=0
  · rw [if_pos hz,hz,entryAt_setEntry_self]
  · rw [if_neg hz,entryAt_setEntry_other _ _ (by decide) hi (by decide) (by decide) (Or.inr hz),
      entryAt_setEntry_other _ _ (by decide) hi (by decide) (by decide) (Or.inl (by decide)),
      entryAt_setEntry_other _ _ (by decide) hi (by decide) (by decide) (Or.inl (by decide))]
    exact entryAt_zero hi (fun _ _ _ => rfl)

/-- Its tables are in order. -/
theorem bootManager_tables : BootTables bootTables bootManager := by
  have hpresent : ∀ i, i<512 → Present (entryAt bootMemory 0x12000 i) → i=0 := by
    intro i hi hp
    by_contra hz
    rw [entryAt_bootDirectory hi,if_neg hz] at hp
    exact not_present_zero hp
  refine ⟨⟨?_,?_,?_⟩,⟨Or.inl ⟨rfl,rfl⟩,?_,?_⟩,?_⟩
  · rintro level table (⟨-,rfl⟩|⟨-,rfl⟩) <;> decide
  · rintro level other table (⟨rfl,rfl⟩|⟨rfl,rfl⟩) (⟨rfl,h⟩|⟨rfl,h⟩) <;>
      first
      | rfl
      | cases h
  · rintro level table index (⟨hl,rfl⟩|⟨hl,rfl⟩) hi hd
    · have hlevel : level=1 := by omega
      have hindex := hpresent index hi hd.1
      refine Or.inr (Or.inr ⟨hlevel,?_⟩)
      change target (entryAt bootMemory 0x12000 index)=0x13000
      rw [hindex,entryAt_bootDirectory (by decide)]
      decide
    · exact Or.inl (by omega)
  · intro i hi
    change ¬Large (entryAt bootMemory 0x12000 i)
    rw [entryAt_bootDirectory hi]
    split <;> decide
  · intro i j hi hj hp hq _
    rw [hpresent i hi hp,hpresent j hj hq]
  · intro i hi
    change Narrow (entryAt bootMemory 0x12000 i)
    rw [entryAt_bootDirectory hi,Narrow]
    split
    · decide
    · exact getField_zero (by decide)

/-- The first pages of the window are linked. -/
theorem bootManager_page {page : ℕ} (hl : 0xffffffff80000≤page) (hh : page<0xffffffff80004) :
    WindowPage page ∧ Linked bootManager page := by
  have hpage : page=0xffffffff80000 ∨ page=0xffffffff80001 ∨ page=0xffffffff80002 ∨
      page=0xffffffff80003 := by omega
  rw [WindowPage,Linked]
  rcases hpage with rfl|rfl|rfl|rfl <;> exact ⟨by decide,by decide +kernel⟩

/-- One segment in the first three pages of the window and a page of stack in
the fourth. -/
theorem bootManager_layout (segment : Segment) (hv : 0xffffffff80000000≤ segment.vaddr)
    (he : segment.vaddr+segment.memsz≤0xffffffff80003000) :
    (∀ s∈[segment],∀ page, s.Occupies page → WindowPage page ∧ Linked bootManager page) ∧
    ∀ i, i<0x1000/0x1000 → WindowPage (0xffffffff80003000/4096+i) ∧
      Linked bootManager (0xffffffff80003000/4096+i) ∧
      ∀ s∈[segment],¬s.Occupies (0xffffffff80003000/4096+i) := by
  constructor
  · intro s hm page hp
    rw [List.mem_singleton.mp hm,Segment.Occupies] at hp
    exact bootManager_page (by omega) (by omega)
  · intro i hi
    have hz : i=0 := by omega
    rw [hz]
    refine ⟨(bootManager_page (by decide) (by decide)).1,
      (bootManager_page (by decide) (by decide)).2,?_⟩
    intro s hm hp
    rw [List.mem_singleton.mp hm,Segment.Occupies] at hp
    omega

/-- Code of one page. -/
def codeSegment : Segment := ⟨0xffffffff80000000,0x1000,5⟩

/-- Data of one page that begins in the middle of a page. -/
def dataSegment : Segment := ⟨0xffffffff80000800,0x1000,6⟩

/-- Aligned code is protected. -/
theorem sections_protected_code :
    Protected (protectSections bootManager ([codeSegment].map recordHeader)
      0xffffffff80003000 0x1000) [codeSegment] :=
  (sections_protected_iff bootManager_tables
    (bootManager_layout codeSegment (by decide) (by decide)).1 (List.pairwise_singleton _ _)
    (bootManager_layout codeSegment (by decide) (by decide)).2).mpr
    (by
      intro segment hm _
      rw [List.mem_singleton.mp hm]
      exact Or.inl (by decide))

/-- The second page of the data stays executable. -/
theorem sections_not_always_protected :
    ¬∀ (tables : ℕ→ℕ→Prop) (manager : MemoryManager) (segments : List Segment)
      (stackBase stackSize : ℕ), BootTables tables manager →
      (∀ segment∈segments,∀ page, segment.Occupies page →
        WindowPage page ∧ Linked manager page) →
      segments.Pairwise PagesApart →
      (∀ i, i<stackSize/0x1000 → WindowPage (stackBase/4096+i) ∧
        Linked manager (stackBase/4096+i) ∧
        ∀ segment∈segments,¬segment.Occupies (stackBase/4096+i)) →
      Protected (protectSections manager (segments.map recordHeader) stackBase stackSize)
        segments := by
  intro h
  have hlayout := bootManager_layout dataSegment (by decide) (by decide)
  have hprotected := h bootTables bootManager [dataSegment] 0xffffffff80003000 0x1000
    bootManager_tables hlayout.1 (List.pairwise_singleton _ _) hlayout.2
  have hflags := hprotected dataSegment List.mem_cons_self 0xffffffff80001
    (by rw [Segment.Occupies]; decide)
  exact absurd hflags (by decide +kernel)

end WorkbenchOS.KernelSections
