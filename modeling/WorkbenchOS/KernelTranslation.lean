import WorkbenchOS.PageMapping

/-!
# The two kernel page-table walkers

`get_kernel_page_table_entry` casts the page number of a directory entry to 64
bits before it shifts it. `kernel_virtual_to_physical_address` does not: its
page number is promoted to `int`, and for a page table from 2 GiB on the
shifted value is another address. The translation tests three entries, one of
which is not the entry of the page. Where the page directory is its own page
table, a mapping may overwrite the directory entry it was found through.
-/

namespace WorkbenchOS.KernelTranslation

open FrameBitmap FrameOperations PhysicalMemory PageTables MemoryManagement PageMapping

/-- The entry of the kernel page directory for an address. -/
def directoryEntry (manager : MemoryManager) (address : ℕ) : BitVec 64 :=
  entryAt manager.memory manager.kernelPageDirectory (indexAt 1 address)

/-- The entry of the page table for an address, as the kernel finds it. -/
def tableEntry (manager : MemoryManager) (address : ℕ) : BitVec 64 :=
  entryAt manager.memory (shiftedPhysicalAddress (directoryEntry manager address)) (indexAt 0 address)

section

variable {manager : MemoryManager} {address : ℕ}

/-- The low twelve bits. -/
theorem and_fff (address : ℕ) : address &&& 0xfff=address%4096 :=
  Nat.and_two_pow_sub_one_eq_mod address 12

/-- The translation of the kernel in terms of the entries it reads. -/
theorem kernelVirtualToPhysicalAddress_eq (manager : MemoryManager) (address : ℕ) :
    kernelVirtualToPhysicalAddress manager address=
      if Present (directoryEntry manager address) ∧
          Present (entryAt manager.memory
            (shiftedPhysicalAddress (directoryEntry manager address)) 0) ∧
          Present (tableEntry manager address) then
        some (.ok (target (tableEntry manager address)+address%4096))
      else none := by
  simp only [kernelVirtualToPhysicalAddress,virtualAddressToPageDirectoryIndex_eq,
    virtualAddressToPageTableIndex_eq,and_fff]
  change (if ¬Present (directoryEntry manager address) then none
    else if ¬Present (entryAt manager.memory
      (shiftedPhysicalAddress (directoryEntry manager address)) 0) then none
    else if ¬Present (tableEntry manager address) then none
    else some (Except.ok (target (tableEntry manager address)+address%4096)))=_
  by_cases hd : Present (directoryEntry manager address)
  · by_cases hf : Present (entryAt manager.memory
      (shiftedPhysicalAddress (directoryEntry manager address)) 0)
    · by_cases hp : Present (tableEntry manager address)
      · simp only [hd,hf,hp,not_true,if_false,and_self,if_true]
      · simp only [hd,hf,hp,not_true,not_false_eq_true,if_false,if_true,and_false]
    · simp only [hd,hf,not_true,not_false_eq_true,if_false,if_true,and_false,false_and]
  · simp only [hd,not_false_eq_true,if_true,false_and,if_false]

end

/-- Every entry the translation of an address tests is present. -/
structure Consulted (manager : MemoryManager) (address : ℕ) : Prop where
  /-- The directory entry. -/
  directory : Present (directoryEntry manager address)
  /-- The first entry of the page table. -/
  first : Present
    (entryAt manager.memory (shiftedPhysicalAddress (directoryEntry manager address)) 0)
  /-- The entry of the page. -/
  page : Present (tableEntry manager address)

/-- The page table the translation of an address reads is the one in which
`get_kernel_page_table_entry` finds its entry. -/
def WalkersAgree (manager : MemoryManager) (address : ℕ) : Prop :=
  ∀ table index after,getKernelPageTableEntry manager address=(.ok (table,index),after) →
    shiftedPhysicalAddress (directoryEntry after address)=table

/-- A page that has been mapped translates byte by byte, if the entries that
are consulted are present. -/
def MappingTranslates (manager : MemoryManager) (page : ℕ) : Prop :=
  ∀ physical after k,page%4096=0 → physical%4096=0 → physical<2^40 → k<4096 →
    mapKernelPageDirectory manager physical page=(.ok (),after) → Consulted after page →
    kernelVirtualToPhysicalAddress after (page+k)=some (.ok (physical+k))

/-- The page table for an address, or the frame that becomes its page table,
is below 2 GiB. -/
def TableLow (manager : MemoryManager) (address : ℕ) : Prop :=
  if Present (directoryEntry manager address) then
    getPhysicalAddress (directoryEntry manager address)<2^31
  else manager.bitmap.freePages≠0 → ∀ frame,NextFree manager.bitmap frame → frame%2^28*4096<2^31

/-- The manager after a frame became the page table for an address. -/
def giveTable (manager : MemoryManager) (address frame : ℕ) : MemoryManager :=
  (takeFrame manager frame).store manager.kernelPageDirectory (indexAt 1 address)
    (kernelDirectoryEntry (entryAt (takeFrame manager frame).memory manager.kernelPageDirectory
      (indexAt 1 address)) (frame*4096))

/-- Whatever page is mapped at an address whose page-table entry is its directory
entry, the table this entry then leads to maps that page there, if it maps one. -/
def LeadsOn (manager : MemoryManager) (page : ℕ) : Prop :=
  ∀ physical,physical%4096=0 → physical<2^40 →
    let table := shiftedPhysicalAddress (kernelTableEntry (directoryEntry manager page) physical)
    table≠manager.kernelPageDirectory → Present (entryAt manager.memory table 0) →
    Present (entryAt manager.memory table (indexAt 0 page)) →
    target (entryAt manager.memory table (indexAt 0 page))=physical

/-- The page-table entry for an address is not its directory entry, in the page
table there is or in the frame that becomes one, or the directory leads on. -/
def SelfMapTranslates (manager : MemoryManager) (page : ℕ) : Prop :=
  page%4096=0 → indexAt 0 page=indexAt 1 page →
    if Present (directoryEntry manager page) then
      getPhysicalAddress (directoryEntry manager page)=manager.kernelPageDirectory →
      LeadsOn manager page
    else manager.bitmap.freePages≠0 → ∀ frame,NextFree manager.bitmap frame →
      frame%2^28*4096=manager.kernelPageDirectory → LeadsOn (giveTable manager page frame) page

/-- The promoted shift gives the address itself below 2 GiB and nowhere else. -/
theorem shiftedPhysicalAddress_eq_iff (entry : BitVec 64) :
    shiftedPhysicalAddress entry=getPhysicalAddress entry ↔ getPhysicalAddress entry<2^31 := by
  have hfield : getField entry 12 28<2^28 := getField_lt entry (by decide)
  unfold shiftedPhysicalAddress intPageOffset getPhysicalAddress
  dsimp only
  split <;> omega

/-- It is the start of a page. -/
theorem shiftedPhysicalAddress_mod (entry : BitVec 64) : shiftedPhysicalAddress entry%4096=0 := by
  unfold shiftedPhysicalAddress intPageOffset
  dsimp only
  split <;> omega

/-- An address behind the first of its page has the page's entries. -/
theorem indexAt_add (level : ℕ) {page k : ℕ} (hp : page%4096=0) (hk : k<4096) :
    indexAt level (page+k)=indexAt level page := by
  have hdiv : (page+k)/4096=page/4096 := by omega
  have hpow : 2^(12+9*level)=4096*2^(9*level) := by rw [pow_add]; norm_num
  rw [indexAt,indexAt,hpow,←Nat.div_div_eq_div_mul,←Nat.div_div_eq_div_mul,hdiv]

section

variable {manager : MemoryManager}

/-- A directory entry that has been stored records its page table in 28
bits. -/
theorem getPhysicalAddress_kernelDirectoryEntry (entry : BitVec 64) (frame : ℕ) :
    getPhysicalAddress (kernelDirectoryEntry entry (frame*4096))=frame%2^28*4096 := by
  unfold getPhysicalAddress kernelDirectoryEntry
  rw [getField_setField_self _ (by decide),Nat.shiftRight_eq_div_pow]
  congr 2
  exact Nat.mul_div_cancel _ (by decide)

/-- The entry that is found, once the directory entry has been prepared. -/
theorem getKernelPageTableEntry_of_ensure {address : ℕ} {found : MemoryManager}
    (h : ensurePageTable kernelDirectoryEntry manager manager.kernelPageDirectory
      (indexAt 1 address)=(.ok (),found)) :
    getKernelPageTableEntry manager address=
      (.ok (getPhysicalAddress (directoryEntry found address),indexAt 0 address),found) := by
  simp only [getKernelPageTableEntry,virtualAddressToPageDirectoryIndex_eq,
    virtualAddressToPageTableIndex_eq,h,directoryEntry]

/-- Giving an address a page table changes the memory and the bitmap only. -/
theorem sameRest_giveTable (manager : MemoryManager) (address frame : ℕ) :
    SameRest manager (giveTable manager address frame) :=
  (sameRest_takeFrame manager frame).trans (sameRest_store _ _ _ _)

/-- It marks one frame. -/
theorem giveTable_bitmap (manager : MemoryManager) (address frame : ℕ) :
    (giveTable manager address frame).bitmap=markFrame manager.bitmap frame := by
  rw [giveTable,store_bitmap,takeFrame_bitmap]

/-- The directory entry of an address that was given a page table. -/
theorem directoryEntry_giveTable (manager : MemoryManager) (address frame : ℕ) :
    directoryEntry (giveTable manager address frame) address=
      kernelDirectoryEntry (entryAt (takeFrame manager frame).memory manager.kernelPageDirectory
        (indexAt 1 address)) (frame*4096) := by
  rw [directoryEntry,(sameRest_giveTable manager address frame).directory_eq,giveTable,
    MemoryManager.store]
  exact entryAt_setEntry_self (takeFrame manager frame).memory _

/-- What finding an entry leaves behind: nothing changed when the directory
entry was present, else a frame became the page table. -/
theorem getKernelPageTableEntry_ok (hk : KernelBitmap manager.bitmap)
    (hg : Geometry manager.bitmap) (address : ℕ) :
    (Present (directoryEntry manager address) ∧ getKernelPageTableEntry manager address=
      (.ok (getPhysicalAddress (directoryEntry manager address),indexAt 0 address),manager)) ∨
    (¬Present (directoryEntry manager address) ∧ Exhausted manager.bitmap ∧
      getKernelPageTableEntry manager address=(.error .allocatorError,manager)) ∨
    (¬Present (directoryEntry manager address) ∧ ∃ frame,NextFree manager.bitmap frame ∧
      manager.bitmap.freePages≠0 ∧ getKernelPageTableEntry manager address=
        (.ok (frame%2^28*4096,indexAt 0 address),giveTable manager address frame)) := by
  rcases ensurePageTable_cases kernelDirectoryEntry hk hg manager.kernelPageDirectory
    (indexAt 1 address) with ⟨hp,he⟩|⟨hp,hnone,he⟩|⟨hp,frame,hf,hfree,he⟩
  · exact Or.inl ⟨hp,getKernelPageTableEntry_of_ensure he⟩
  · refine Or.inr (Or.inl ⟨hp,hnone,?_⟩)
    simp only [getKernelPageTableEntry,virtualAddressToPageDirectoryIndex_eq,he]
  · refine Or.inr (Or.inr ⟨hp,frame,hf,hfree,?_⟩)
    have hensure : ensurePageTable kernelDirectoryEntry manager manager.kernelPageDirectory
        (indexAt 1 address)=(.ok (),giveTable manager address frame) := he
    rw [getKernelPageTableEntry_of_ensure hensure,directoryEntry_giveTable,
      getPhysicalAddress_kernelDirectoryEntry]

/-- Whatever finding an entry does, the entry lies in the page table that the
directory entry for the address records afterwards. -/
theorem getKernelPageTableEntry_table {address table index : ℕ} {found : MemoryManager}
    (h : getKernelPageTableEntry manager address=(.ok (table,index),found)) :
    table=getPhysicalAddress (directoryEntry found address) ∧ index=indexAt 0 address := by
  unfold getKernelPageTableEntry at h
  rw [virtualAddressToPageDirectoryIndex_eq] at h
  dsimp only at h
  split at h
  · cases h
  · rw [virtualAddressToPageTableIndex_eq] at h
    cases h
    exact ⟨rfl,rfl⟩

/-- The walkers agree exactly when the page table is below 2 GiB. -/
theorem walkersAgree_iff (hk : KernelBitmap manager.bitmap) (hg : Geometry manager.bitmap)
    (address : ℕ) : WalkersAgree manager address ↔ TableLow manager address := by
  have hlow : ∀ {table index : ℕ} {after : MemoryManager},
      getKernelPageTableEntry manager address=(.ok (table,index),after) →
      (shiftedPhysicalAddress (directoryEntry after address)=table ↔ table<2^31) := by
    intro table index after h
    rw [(getKernelPageTableEntry_table h).1]
    exact shiftedPhysicalAddress_eq_iff _
  unfold WalkersAgree TableLow
  rcases getKernelPageTableEntry_ok hk hg address with ⟨hp,he⟩|⟨hp,hnone,he⟩|⟨hp,frame,hf,hfree,he⟩
  · rw [if_pos hp]
    constructor
    · intro h
      exact (hlow he).mp (h _ _ _ he)
    · intro h table index after hfound
      rw [he] at hfound
      cases hfound
      exact (hlow he).mpr h
  · rw [if_neg hp]
    constructor
    · exact fun _ hfree frame hf => absurd hf (hnone.not_nextFree hfree)
    · intro _ table index after hfound
      rw [he] at hfound
      cases hfound
  · rw [if_neg hp,hf.forall_iff]
    constructor
    · exact fun h _ => (hlow he).mp (h _ _ _ he)
    · intro h table index after hfound
      rw [he] at hfound
      cases hfound
      exact (hlow he).mpr (h hfree)

/-- A store into another entry leaves the directory entry of an address as it
was. -/
theorem directoryEntry_store_other (manager : MemoryManager) {address table index : ℕ}
    (entry : BitVec 64)
    (hd : manager.kernelPageDirectory%4096=0) (ht : table%4096=0) (hi : index<512)
    (hne : table≠manager.kernelPageDirectory ∨ index≠indexAt 1 address) :
    directoryEntry (manager.store table index entry) address=directoryEntry manager address :=
  entryAt_setEntry_other manager.memory entry hi (indexAt_lt 1 address) ht hd
    (hne.imp Ne.symm Ne.symm)

/-- What a mapping stores, in the entry that is found. -/
theorem mapKernelPageDirectory_of_found {table index physical page : ℕ}
    {found after : MemoryManager}
    (hfound : getKernelPageTableEntry manager page=(.ok (table,index),found))
    (hmap : mapKernelPageDirectory manager physical page=(.ok (),after)) :
    after={found.store table index (kernelTableEntry (entryAt found.memory table index) physical)
      with mapped := (page,physical)::found.mapped} := by
  simp only [mapKernelPageDirectory,hfound] at hmap
  exact (congrArg Prod.snd hmap).symm

/-- A page is translated by the entry that is consulted for it. -/
theorem translates_iff {after : MemoryManager} {page physical : ℕ} (hp : page%4096=0)
    (hconsulted : Consulted after page) :
    (∀ k,k<4096 → kernelVirtualToPhysicalAddress after (page+k)=some (.ok (physical+k))) ↔
      target (tableEntry after page)=physical := by
  have htranslation : ∀ k,k<4096 → kernelVirtualToPhysicalAddress after (page+k)=
      some (.ok (target (tableEntry after page)+k)) := by
    intro k hk
    have hd : directoryEntry after (page+k)=directoryEntry after page := by
      rw [directoryEntry,directoryEntry,indexAt_add 1 hp hk]
    have ht : tableEntry after (page+k)=tableEntry after page := by
      rw [tableEntry,tableEntry,hd,indexAt_add 0 hp hk]
    have hlow : (page+k)%4096=k := by omega
    rw [kernelVirtualToPhysicalAddress_eq,hd,ht,
      if_pos ⟨hconsulted.directory,hconsulted.first,hconsulted.page⟩,hlow]
  constructor
  · intro h
    have hfirst := (htranslation 0 (by omega)).symm.trans (h 0 (by omega))
    simpa using hfirst
  · intro h k hk
    rw [htranslation k hk,h]

/-- A page mapped through an entry that is not the directory entry is consulted
there. -/
theorem target_of_apart {table index physical page : ℕ} {found after : MemoryManager}
    (hd : found.kernelPageDirectory%4096=0) (hphysical : physical%4096=0)
    (hlt : physical<2^40) (hindex : index=indexAt 0 page) (htable : table%4096=0)
    (hagree : shiftedPhysicalAddress (directoryEntry found page)=table)
    (hapart : table≠found.kernelPageDirectory ∨ index≠indexAt 1 page)
    (hafter : after={found.store table index
      (kernelTableEntry (entryAt found.memory table index) physical) with
        mapped := (page,physical)::found.mapped}) :
    target (tableEntry after page)=physical := by
  -- the store leaves the directory entry of the page alone
  have hkept : directoryEntry after page=directoryEntry found page := by
    rw [hafter]
    exact directoryEntry_store_other found _ hd htable (hindex ▸ indexAt_lt 0 page) hapart
  have hpage : tableEntry after page=
      kernelTableEntry (entryAt found.memory table index) physical := by
    rw [tableEntry,hkept,hagree,←hindex,hafter]
    exact entryAt_setEntry_self found.memory _
  rw [hpage]
  exact (kernelTableEntry_maps _ hphysical (by omega)).2

/-- A page mapped through the directory entry is consulted where the entry then
leads. -/
theorem target_of_self {physical page : ℕ} {found after : MemoryManager}
    (hd : found.kernelPageDirectory%4096=0) (hphysical : physical%4096=0)
    (hlt : physical<2^40) (hindex : indexAt 0 page=indexAt 1 page)
    (hafter : after={found.store found.kernelPageDirectory (indexAt 0 page)
      (kernelTableEntry (entryAt found.memory found.kernelPageDirectory (indexAt 0 page)) physical)
        with mapped := (page,physical)::found.mapped}) :
    (Consulted after page → target (tableEntry after page)=physical) ↔
      (let table := shiftedPhysicalAddress (kernelTableEntry (directoryEntry found page) physical)
      table≠found.kernelPageDirectory → Present (entryAt found.memory table 0) →
      Present (entryAt found.memory table (indexAt 0 page)) →
      target (entryAt found.memory table (indexAt 0 page))=physical) := by
  dsimp only
  rw [hindex] at hafter
  have hold : entryAt found.memory found.kernelPageDirectory (indexAt 1 page)=
      directoryEntry found page := rfl
  rw [hold] at hafter
  obtain ⟨hpresent,htarget⟩ := kernelTableEntry_maps (directoryEntry found page) hphysical
    (show physical<2^52 by omega)
  generalize kernelTableEntry (directoryEntry found page) physical=entry at *
  have hstored : directoryEntry after page=entry := by
    rw [hafter]
    exact entryAt_setEntry_self found.memory entry
  by_cases hsame : shiftedPhysicalAddress entry=found.kernelPageDirectory
  · refine ⟨fun _ hne => absurd hsame hne,fun _ _ => ?_⟩
    rw [tableEntry,hstored,hsame,hindex]
    have hself : entryAt after.memory found.kernelPageDirectory (indexAt 1 page)=entry := by
      rw [hafter]
      exact entryAt_setEntry_self found.memory entry
    rw [hself,htarget]
  · have hkept : ∀ i,i<512 → entryAt after.memory (shiftedPhysicalAddress entry) i=
        entryAt found.memory (shiftedPhysicalAddress entry) i := by
      intro i hi
      rw [hafter]
      exact entryAt_setEntry_other found.memory entry (indexAt_lt 1 page) hi hd
        (shiftedPhysicalAddress_mod entry) (Or.inl hsame)
    have hpage : tableEntry after page=
        entryAt found.memory (shiftedPhysicalAddress entry) (indexAt 0 page) := by
      rw [tableEntry,hstored,hkept _ (indexAt_lt 0 page)]
    rw [hpage]
    constructor
    · intro h _ hfirst hentry
      refine h ⟨hstored ▸ hpresent,?_,hpage ▸ hentry⟩
      rw [hstored,hkept 0 (by decide)]
      exact hfirst
    · intro h hconsulted
      have hfirst := hconsulted.first
      rw [hstored,hkept 0 (by decide)] at hfirst
      exact h hsame hfirst (hpage ▸ hconsulted.page)

/-- A mapped page translates exactly when the directory leads on where it is its
own page table for the page. -/
theorem mappingTranslates_iff_of_found {table index page : ℕ} {found : MemoryManager}
    (hd : manager.kernelPageDirectory%4096=0)
    (hdirectory : found.kernelPageDirectory=manager.kernelPageDirectory)
    (hfound : getKernelPageTableEntry manager page=(.ok (table,index),found))
    (hagree : WalkersAgree manager page) :
    MappingTranslates manager page ↔ (page%4096=0 → indexAt 0 page=indexAt 1 page →
      table=manager.kernelPageDirectory → LeadsOn found page) := by
  obtain ⟨htable,hindex⟩ := getKernelPageTableEntry_table hfound
  have hmod : table%4096=0 := by
    rw [htable]
    exact Nat.mul_mod_left _ _
  rw [← hdirectory] at hd ⊢
  constructor
  · intro h hp hself hsame physical hphysical hlt
    subst hindex hsame
    refine (target_of_self hd hphysical hlt hself rfl).mp (fun hconsulted => ?_)
    have hmap : ∀ k,k<4096 → _ := fun k hk =>
      h physical _ k hp hphysical hlt hk (by rw [mapKernelPageDirectory,hfound]) hconsulted
    exact (translates_iff hp hconsulted).mp hmap
  · intro h physical after k hp hphysical hlt hk hmap hconsulted
    have hafter := mapKernelPageDirectory_of_found hfound hmap
    refine (translates_iff hp hconsulted).mpr ?_ k hk
    by_cases hself : table=found.kernelPageDirectory ∧ index=indexAt 1 page
    · obtain ⟨hsame,hslot⟩ := hself
      have hslots : indexAt 0 page=indexAt 1 page := hindex ▸ hslot
      subst hindex hsame
      exact (target_of_self hd hphysical hlt hslots hafter).mpr
        (h hp hslots rfl physical hphysical hlt) hconsulted
    · exact target_of_apart hd hphysical hlt hindex hmod (hagree _ _ _ hfound)
        (not_and_or.mp hself) hafter

/-- Where the walkers agree, mapped pages translate exactly when that holds of the
page table there is or of the frame that becomes one. -/
theorem mappingTranslates_iff (hb : KernelBitmap manager.bitmap) (hg : Geometry manager.bitmap)
    (hd : manager.kernelPageDirectory%4096=0) {page : ℕ} (hagree : WalkersAgree manager page) :
    MappingTranslates manager page ↔ SelfMapTranslates manager page := by
  unfold SelfMapTranslates
  rcases getKernelPageTableEntry_ok hb hg page with ⟨hp,he⟩|⟨hp,hnone,he⟩|⟨hp,frame,hf,hfree,he⟩
  · rw [if_pos hp]
    exact mappingTranslates_iff_of_found hd rfl he hagree
  · rw [if_neg hp]
    constructor
    · exact fun _ _ _ hfree frame hf => absurd hf (hnone.not_nextFree hfree)
    · intro _ physical after k _ _ _ _ hmap
      rw [mapKernelPageDirectory,he] at hmap
      cases hmap
  · rw [if_neg hp,hf.forall_iff,
      mappingTranslates_iff_of_found hd (sameRest_giveTable manager page frame).directory_eq he hagree]
    exact ⟨fun h hpage hself _ => h hpage hself,fun h hpage hself => h hpage hself hfree⟩

/-- The walkers agree on an address, and a page mapped there is translated to
its frame, exactly when its page table is below 2 GiB and the page directory,
where it is this page table and the address's entry its own, leads on to a table
that maps the same page. -/
theorem walkers_agree_iff_low (hk : KernelBitmap manager.bitmap) (hg : Geometry manager.bitmap)
    (hd : manager.kernelPageDirectory%4096=0) (address : ℕ) :
    WalkersAgree manager address ∧ MappingTranslates manager address ↔
      TableLow manager address ∧ SelfMapTranslates manager address := by
  rw [←walkersAgree_iff hk hg address]
  constructor
  · exact fun h => ⟨h.1,(mappingTranslates_iff hk hg hd h.1).mp h.2⟩
  · exact fun h => ⟨h.1,(mappingTranslates_iff hk hg hd h.1).mpr h.2⟩

end

/-- Eight blocks, the first four of them in use. -/
def halfBitmap : Bitmap :=
  ⟨4096,512,256,8,262144,fun block => if block<4 then bitmapFull else 0#64,0⟩

/-- A manager whose kernel page directory records one page table. -/
def oneTable (table : ℕ) : MemoryManager where
  bitmap := halfBitmap
  memory := setEntry (fun _ => 0) 0x12000 0 (kernelDirectoryEntry 0#64 table)
  heapSpace := newAddressSpace 0xffffffff80000000 0x7fffffff
  kernelPageDirectory := 0x12000
  pml4 := 0x10000
  mapped := []

/-- The bitmap manages the frames of the kernel. -/
theorem halfBitmap_kernel : KernelBitmap halfBitmap ∧ Geometry halfBitmap :=
  ⟨⟨rfl,rfl,rfl⟩,⟨by decide,fun _ => rfl,by decide,by decide⟩⟩

/-- The entry the sample records. -/
theorem oneTable_entry (table : ℕ) :
    directoryEntry (oneTable table) 0xffffffff80000000=kernelDirectoryEntry 0#64 table := by
  have hi : indexAt 1 0xffffffff80000000=0 := by decide
  rw [directoryEntry,hi]
  exact entryAt_setEntry_self _ _

/-- A page table at 1 MiB. -/
theorem walkers_agree_at_1MiB :
    WalkersAgree (oneTable 0x100000) 0xffffffff80000000 ∧
      MappingTranslates (oneTable 0x100000) 0xffffffff80000000 := by
  have hlow : TableLow (oneTable 0x100000) 0xffffffff80000000 := by
    rw [TableLow,oneTable_entry,if_pos (by decide)]
    decide
  refine (walkers_agree_iff_low halfBitmap_kernel.1 halfBitmap_kernel.2 rfl _).mpr ⟨hlow,?_⟩
  intro _ _
  rw [oneTable_entry,if_pos (by decide)]
  exact fun htable => absurd htable (by decide)

/-- A page table at 2 GiB is looked for somewhere else. -/
theorem walkers_disagree_at_2GiB :
    ¬∀ (manager : MemoryManager) (address : ℕ),KernelBitmap manager.bitmap →
      Geometry manager.bitmap → manager.kernelPageDirectory%4096=0 →
      WalkersAgree manager address ∧ MappingTranslates manager address := by
  intro h
  obtain ⟨hk,hg⟩ := halfBitmap_kernel
  have hagree := (h (oneTable 0x80000000) 0xffffffff80000000 hk hg rfl).1
  have hlow := (walkersAgree_iff hk hg _).mp hagree
  rw [TableLow,oneTable_entry,if_pos (by decide)] at hlow
  exact absurd hlow (by decide)

end WorkbenchOS.KernelTranslation
