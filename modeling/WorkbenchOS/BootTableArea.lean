import WorkbenchOS.BootPageTables

/-!
# The area of the paging structures

`get_pagetable_size` reserves a page table for every 512 pages of a partial
total. The tables linked later are counted from the total with the reservation
itself, the frame bitmap and two guard pages on top. They fit the reservation
when these additions are left over in the last page table that was counted.
-/

namespace WorkbenchOS.BootTableArea

open LibStd PhysicalMemory BootPageTables

/-- The physical addresses of the paging structures: the four fixed pages and
the page tables linked into the kernel page directory. -/
def pagingPages (boot : Boot) : List ℕ :=
  (List.range 4).map (fun i => boot.initialPages.physicalBase+i*0x1000)++
    (List.range boot.pageTablesCount).map (fun i =>
      boot.initialPages.physicalBase+0x4000+i*Page)

/-- The paging structures are inside the initial pages region. -/
def TablesFit (boot : Boot) : Prop :=
  ∀ page∈pagingPages boot,boot.initialPages.physicalBase≤page ∧
    page+Page≤boot.initialPages.physicalBase+boot.initialPages.size

/-- The page counts of the kernel, the memory map, the framebuffer, what the
firmware wants preserved, and the bitmap. -/
def totalPages (boot : Boot) : ℕ :=
  boot.kernelPages+bytesToPages boot.memoryMapSize+bytesToPages boot.framebufferSize+
    getEfiPreservedPageCount boot.memoryMap+boot.bitmapSizeInPages

/-- The page tables of a number of pages. -/
def tablesOf (pages : ℕ) : ℕ := (pages+511)/512

/-- The page tables themselves, the four pages above them, the bitmap and the
two guard pages are left over in the last of the tables counted. -/
def LeftOver (boot : Boot) : Prop :=
  boot.pagesWithoutTables+(tablesOf boot.pagesWithoutTables+4)+boot.bitmapSizeInPages+2≤
    512*tablesOf boot.pagesWithoutTables

variable {boot : Boot}

/-- The paging structures fit when their number does. -/
theorem tablesFit_iff_count (boot : Boot) :
    TablesFit boot ↔ (4+boot.pageTablesCount)*4096≤boot.initialPages.size := by
  unfold TablesFit pagingPages
  rw [List.forall_mem_append,List.forall_mem_map,List.forall_mem_map]
  simp only [List.mem_range,Page]
  constructor
  · rintro ⟨hfixed,htables⟩
    cases hcount : boot.pageTablesCount with
    | zero =>
      have hlast := hfixed 3 (by decide)
      omega
    | succ count =>
      have hlast := htables count (by omega)
      omega
  · intro h
    refine ⟨fun i hi => ?_,fun i hi => ?_⟩ <;>
    · constructor <;> omega

/-- Rounding up. -/
theorem divideRoundedUp_eq {value divisor : ℕ} (h : value+(divisor-1)<2^64) :
    divideRoundedUp value divisor=(value+(divisor-1))/divisor := by
  rw [divideRoundedUp,u64_of_lt h]

/-- The reservation when nothing is cut off. Pages, directories and pointers are
counted in pages of 4 KiB. -/
theorem getPagetableSize_eq {pages : ℕ} (hle : pages≤2^18+3) :
    getPagetableSize pages=
      1+((pages+(2^27-1))/2^27+1)+(pages+(2^18-1))/2^18+tablesOf pages := by
  have hbytes : u64 (pages*Page)=pages*4096 := by
    rw [Page,u64_of_lt (by omega)]
  rw [getPagetableSize,hbytes]
  simp only [MiB,GiB,tablesOf]
  rw [divideRoundedUp_eq (by omega),divideRoundedUp_eq (by omega),divideRoundedUp_eq (by omega)]
  omega

/-- The reservation for a total of at most a gibibyte. -/
theorem getPagetableSize_low {pages : ℕ} (hpos : 0<pages) (hle : pages≤2^18) :
    getPagetableSize pages=4+tablesOf pages := by
  rw [getPagetableSize_eq (by omega)]
  omega

/-- For up to three pages more there is one more directory. -/
theorem getPagetableSize_high {pages : ℕ} (hlt : 2^18<pages) (hle : pages≤2^18+3) :
    getPagetableSize pages=5+tablesOf pages := by
  rw [getPagetableSize_eq hle]
  omega

/-- The partial total has the four counts and four guard pages. -/
theorem pagesWithoutTables_eq (h : totalPages boot<2^18) :
    boot.pagesWithoutTables+boot.bitmapSizeInPages=totalPages boot+4 := by
  unfold totalPages at h ⊢
  simp only [Boot.pagesWithoutTables,guardPage]
  rw [u64_of_lt (by omega)]
  omega

/-- The tables linked are those of the whole total. -/
theorem pageTablesCount_eq (h : totalPages boot<2^18) (hsize : boot.pageTableSize≤2^18) :
    boot.pageTablesCount=
      tablesOf (boot.pagesWithoutTables+boot.pageTableSize+boot.bitmapSizeInPages+2) := by
  have htotal := pagesWithoutTables_eq h
  simp only [Boot.pageTablesCount,Boot.pages,guardPage,tablesOf]
  rw [u64_of_lt (by omega),divideRoundedUp_eq (by omega)]
  omega

/-- The paging structures fit when the tables linked are as many as reserved. -/
theorem tablesFit_iff_le (hsize : boot.pageTableSize≤2^18) :
    TablesFit boot ↔ 4+boot.pageTablesCount≤boot.pageTableSize := by
  have hbytes : boot.initialPages.size=boot.pageTableSize*4096 := by
    simp only [Boot.initialPages,Page]
    exact u64_of_lt (by omega)
  rw [tablesFit_iff_count,hbytes]
  omega

/-- The comparison in numbers of page tables, for a reservation of some pages
above the tables. -/
theorem tablesFit_iff_tables (h : totalPages boot<2^18) {above : ℕ} (habove : above≤5)
    (hsize : boot.pageTableSize=above+tablesOf boot.pagesWithoutTables) :
    TablesFit boot ↔
      4+tablesOf (boot.pagesWithoutTables+(above+tablesOf boot.pagesWithoutTables)+
        boot.bitmapSizeInPages+2)≤above+tablesOf boot.pagesWithoutTables := by
  have htotal := pagesWithoutTables_eq h
  have hbound : boot.pageTableSize≤2^18 := by
    rw [hsize,tablesOf]
    omega
  rw [tablesFit_iff_le hbound,pageTablesCount_eq h hbound,hsize]

/-- With the five counts together below a gibibyte of pages, the paging
structures fit the initial pages region exactly when what is added to the
partial total is left over in its page tables, or the guard pages push that
total itself above a gibibyte. -/
theorem tablesFit_iff (boot : Boot) (h : totalPages boot<2^18) :
    TablesFit boot ↔ 2^18<boot.pagesWithoutTables ∨ LeftOver boot := by
  have htotal := pagesWithoutTables_eq h
  have hguards : 4≤boot.pagesWithoutTables := by
    unfold totalPages at h htotal
    omega
  by_cases hlow : boot.pagesWithoutTables≤2^18
  · rw [tablesFit_iff_tables h (by omega) (getPagetableSize_low (by omega) hlow)]
    unfold LeftOver tablesOf
    omega
  · rw [tablesFit_iff_tables h le_rfl (getPagetableSize_high (by omega) (by omega))]
    unfold tablesOf
    omega

/-- A bitmap of 16 pages is left over. -/
theorem tablesFit_sample : TablesFit (sampleBoot 16) :=
  (tablesFit_iff (sampleBoot 16) (by decide +kernel)).mpr (Or.inr (by unfold LeftOver; decide +kernel))

/-- For a memory of 32 GiB the bitmap has 512 pages and a page table that was
not reserved is linked behind the region. -/
theorem not_always_tablesFit : totalPages (sampleBoot 512)<2^18 ∧ ¬TablesFit (sampleBoot 512) := by
  refine ⟨by decide +kernel,fun h => ?_⟩
  have hcount := (tablesFit_iff_count (sampleBoot 512)).mp h
  revert hcount
  decide +kernel

end WorkbenchOS.BootTableArea
