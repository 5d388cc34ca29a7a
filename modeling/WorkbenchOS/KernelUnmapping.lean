import WorkbenchOS.KernelTranslation

/-!
# Unmapping kernel pages

The translation of an address tests the first entry of its page table instead
of looking at the entry of the page alone. Unmapping the first page of a page
table therefore makes the translation of every other page of that table panic.
-/

namespace WorkbenchOS.KernelUnmapping

open FrameOperations PhysicalMemory PageTables MemoryManagement PageMapping KernelTranslation

/-- The page table the translation of an address reads. -/
def consultedTable (manager : MemoryManager) (address : ℕ) : ℕ :=
  shiftedPhysicalAddress (directoryEntry manager address)

/-- The entries the translation of an address tests, by table and index. -/
def tested (manager : MemoryManager) (address : ℕ) : List (ℕ×ℕ) :=
  [(manager.kernelPageDirectory,indexAt 1 address),(consultedTable manager address,0),
    (consultedTable manager address,indexAt 0 address)]

/-- Whoever translates before a page is unmapped or freed gets the same address
afterwards. -/
def Undisturbed (manager : MemoryManager) (unmapped address : ℕ) : Prop :=
  ∀ physical,kernelVirtualToPhysicalAddress manager address=some (.ok physical) →
    kernelVirtualToPhysicalAddress (unmapKernelPageDirectory manager unmapped).2 address=
      some (.ok physical) ∧
    ∀ outcome,freeKernelHeapPage manager unmapped=some outcome →
      kernelVirtualToPhysicalAddress outcome.2 address=some (.ok physical)

/-- The entry that is cleared for one page is none of those tested for the
other. A page without a page table is given one first, in a frame that is
neither the directory nor the other's page table. -/
def Spares (manager : MemoryManager) (unmapped address : ℕ) : Prop :=
  if Present (directoryEntry manager unmapped) then
    (getPhysicalAddress (directoryEntry manager unmapped),indexAt 0 unmapped)∉tested manager address
  else manager.bitmap.freePages≠0 → ∀ frame,NextFree manager.bitmap frame →
    frame*4096≠manager.kernelPageDirectory ∧ frame*4096≠consultedTable manager address ∧
      (frame%2^28*4096,indexAt 0 unmapped)∉tested manager address

/-- The page table that is read is aligned. -/
theorem consultedTable_mod (manager : MemoryManager) (address : ℕ) :
    consultedTable manager address%4096=0 := shiftedPhysicalAddress_mod _

/-- The cleared entry is not present. -/
theorem not_present_unmapped (entry : BitVec 64) : ¬Present (unmappedTableEntry entry) := by
  unfold unmappedTableEntry
  rw [present_setField_apart _ (by decide),present_setField_apart _ (by decide),Present,
    getField_setField_self _ (by decide)]
  decide

section

variable {manager : MemoryManager} {unmapped address : ℕ}

/-- An address is translated exactly when all that is consulted is present. -/
theorem translates_iff (manager : MemoryManager) (address : ℕ) :
    (∃ physical,kernelVirtualToPhysicalAddress manager address=some (.ok physical)) ↔
      Consulted manager address := by
  rw [kernelVirtualToPhysicalAddress_eq]
  constructor
  · rintro ⟨physical,h⟩
    split at h
    · rename_i hp
      exact ⟨hp.1,hp.2.1,hp.2.2⟩
    · cases h
  · intro h
    exact ⟨_,if_pos ⟨h.directory,h.first,h.page⟩⟩

/-- What is not translated panics. -/
theorem translation_of_not_consulted (h : ¬Consulted manager address) :
    kernelVirtualToPhysicalAddress manager address=none := by
  rw [kernelVirtualToPhysicalAddress_eq,if_neg]
  exact fun hp => h ⟨hp.1,hp.2.1,hp.2.2⟩

/-- The translation depends on the tested entries alone. -/
theorem translation_congr {after : MemoryManager}
    (hd : after.kernelPageDirectory=manager.kernelPageDirectory)
    (h : ∀ place∈tested manager address,
      entryAt after.memory place.1 place.2=entryAt manager.memory place.1 place.2) :
    tested after address=tested manager address ∧
      kernelVirtualToPhysicalAddress after address=kernelVirtualToPhysicalAddress manager address := by
  simp only [tested,List.forall_mem_cons,List.not_mem_nil,false_implies,implies_true,and_true] at h
  obtain ⟨hdirectory,hfirst,hpage⟩ := h
  have hde : directoryEntry after address=directoryEntry manager address := by
    rw [directoryEntry,hd,hdirectory,directoryEntry]
  have hct : consultedTable after address=consultedTable manager address := by
    rw [consultedTable,hde,consultedTable]
  refine ⟨by rw [tested,tested,hct,hd],?_⟩
  rw [kernelVirtualToPhysicalAddress_eq,kernelVirtualToPhysicalAddress_eq,tableEntry,tableEntry,hde]
  unfold consultedTable at hfirst hpage
  rw [hfirst,hpage]

/-- A tested entry that is not present makes the translation panic. -/
theorem translation_of_absent {place : ℕ×ℕ} (hp : place∈tested manager address)
    (habsent : ¬Present (entryAt manager.memory place.1 place.2)) :
    kernelVirtualToPhysicalAddress manager address=none := by
  refine translation_of_not_consulted (fun h => ?_)
  simp only [tested,List.mem_cons,List.not_mem_nil,or_false] at hp
  rcases hp with rfl|rfl|rfl
  · exact habsent h.directory
  · exact habsent h.first
  · exact habsent h.page

/-- Tested entries are entries of tables. -/
theorem tested_aligned (hd : manager.kernelPageDirectory%4096=0) {place : ℕ×ℕ}
    (hp : place∈tested manager address) : place.1%4096=0 ∧ place.2<512 := by
  simp only [tested,List.mem_cons,List.not_mem_nil,or_false] at hp
  rcases hp with rfl|rfl|rfl
  · exact ⟨hd,indexAt_lt 1 address⟩
  · exact ⟨consultedTable_mod _ _,Nat.succ_pos 511⟩
  · exact ⟨consultedTable_mod _ _,indexAt_lt 0 address⟩

/-- A store into another entry, named by its table and index, is not seen. -/
theorem entryAt_store_other (manager : MemoryManager) {table index other second : ℕ}
    (entry : BitVec 64) (ht : table%4096=0) (hi : index<512) (ho : other%4096=0) (hs : second<512)
    (hne : (other,second)≠(table,index)) :
    entryAt (manager.store table index entry).memory other second=
      entryAt manager.memory other second := by
  refine entryAt_setEntry_other manager.memory entry hi hs ht ho ?_
  by_contra heq
  rw [not_or,not_not,not_not] at heq
  exact hne (Prod.ext heq.1 heq.2)

/-- Storing an entry that is not present makes the translations panic that test
it, and no other. -/
theorem translation_store (hd : manager.kernelPageDirectory%4096=0) {table index : ℕ}
    (ht : table%4096=0) (hi : index<512) {entry : BitVec 64} (he : ¬Present entry)
    (address : ℕ) :
    kernelVirtualToPhysicalAddress (manager.store table index entry) address=
      if (table,index)∈tested manager address then none
      else kernelVirtualToPhysicalAddress manager address := by
  have hsame := (sameRest_store manager table index entry).directory_eq
  split
  · rename_i hm
    have hself : entryAt (manager.store table index entry).memory table index=entry :=
      entryAt_setEntry_self manager.memory entry
    have hmem : (table,index)∈tested (manager.store table index entry) address := by
      by_cases hdir : (table,index)=(manager.kernelPageDirectory,indexAt 1 address)
      · rw [tested,hsame,hdir]
        exact List.mem_cons_self
      · -- the directory entry is as it was, so the tested entries are the same
        have hentry : directoryEntry (manager.store table index entry) address=
            directoryEntry manager address := by
          rw [directoryEntry,hsame]
          exact entryAt_store_other manager entry ht hi hd (indexAt_lt 1 address) (Ne.symm hdir)
        have htested : tested (manager.store table index entry) address=tested manager address := by
          rw [tested,tested,hsame,consultedTable,consultedTable,hentry]
        rwa [htested]
    refine translation_of_absent hmem ?_
    rwa [hself]
  · rename_i hm
    refine (translation_congr hsame (fun place hp => ?_)).2
    obtain ⟨hmod,hlt⟩ := tested_aligned hd hp
    exact entryAt_store_other manager entry ht hi hmod hlt (fun heq => hm (heq ▸ hp))

/-- Unmapping a page that has a page table clears its entry. -/
theorem unmap_present (hp : Present (directoryEntry manager unmapped)) :
    (unmapKernelPageDirectory manager unmapped).2=
      manager.store (getPhysicalAddress (directoryEntry manager unmapped)) (indexAt 0 unmapped)
        (unmappedTableEntry (entryAt manager.memory
          (getPhysicalAddress (directoryEntry manager unmapped)) (indexAt 0 unmapped))) := by
  have hensure : ensurePageTable kernelDirectoryEntry manager manager.kernelPageDirectory
      (indexAt 1 unmapped)=(.ok (),manager) := by
    rw [directoryEntry] at hp
    rw [ensurePageTable,if_pos hp]
  rw [unmapKernelPageDirectory,getKernelPageTableEntry_of_ensure hensure]

/-- What a translation tests is present, so it is not the directory entry of a
page without a page table. -/
theorem tested_ne_absent (habsent : ¬Present (directoryEntry manager unmapped))
    (hc : Consulted manager address) {place : ℕ×ℕ} (hp : place∈tested manager address) :
    place≠(manager.kernelPageDirectory,indexAt 1 unmapped) := by
  intro heq
  have hnone := translation_of_absent hp (heq ▸ habsent)
  obtain ⟨physical,hphysical⟩ := (translates_iff manager address).mpr hc
  rw [hnone] at hphysical
  cases hphysical

/-- Giving a page a page table changes its directory entry and the frame. -/
theorem entryAt_giveTable (hd : manager.kernelPageDirectory%4096=0) {frame other second : ℕ}
    (ho : other%4096=0) (hs : second<512)
    (hne : (other,second)≠(manager.kernelPageDirectory,indexAt 1 unmapped))
    (hframe : other≠frame*4096) :
    entryAt (giveTable manager unmapped frame).memory other second=
      entryAt manager.memory other second := by
  rw [giveTable,entryAt_store_other _ _ hd (indexAt_lt 1 unmapped) ho hs hne]
  exact entryAt_fill_other manager.memory 0 hs (Nat.mul_mod_left _ _) ho hframe

/-- The other entries of the frame are absent. -/
theorem not_present_giveTable (hd : manager.kernelPageDirectory%4096=0) {frame second : ℕ}
    (hs : second<512)
    (hne : (frame*4096,second)≠(manager.kernelPageDirectory,indexAt 1 unmapped)) :
    ¬Present (entryAt (giveTable manager unmapped frame).memory (frame*4096) second) := by
  have hentry : entryAt (takeFrame manager frame).memory (frame*4096) second=0#64 :=
    entryAt_fill_self manager.memory hs
  rw [giveTable,entryAt_store_other _ _ hd (indexAt_lt 1 unmapped) (Nat.mul_mod_left _ _) hs hne,
    hentry]
  exact not_present_zero

/-- A page table in a frame that another translation does not read leaves that
translation alone. -/
theorem translation_giveTable_kept (hd : manager.kernelPageDirectory%4096=0) {frame : ℕ}
    (habsent : ¬Present (directoryEntry manager unmapped)) (hc : Consulted manager address)
    (hdirectory : frame*4096≠manager.kernelPageDirectory)
    (htable : frame*4096≠consultedTable manager address) :
    tested (giveTable manager unmapped frame) address=tested manager address ∧
      kernelVirtualToPhysicalAddress (giveTable manager unmapped frame) address=
        kernelVirtualToPhysicalAddress manager address := by
  refine translation_congr (sameRest_giveTable manager unmapped frame).directory_eq
    (fun place hp => ?_)
  obtain ⟨hmod,hlt⟩ := tested_aligned hd hp
  refine entryAt_giveTable hd hmod hlt (tested_ne_absent habsent hc hp) ?_
  simp only [tested,List.mem_cons,List.not_mem_nil,or_false] at hp
  rcases hp with rfl|rfl|rfl
  · exact hdirectory.symm
  · exact htable.symm
  · exact htable.symm

/-- A page table in a frame that another translation reads makes it panic. -/
theorem translation_giveTable_lost (hd : manager.kernelPageDirectory%4096=0) {frame : ℕ}
    (habsent : ¬Present (directoryEntry manager unmapped)) (hc : Consulted manager address)
    (hframe : ¬(frame*4096≠manager.kernelPageDirectory ∧
      frame*4096≠consultedTable manager address)) :
    kernelVirtualToPhysicalAddress (giveTable manager unmapped frame) address=none := by
  have hsame := (sameRest_giveTable manager unmapped frame).directory_eq
  have hlow := indexAt_lt 1 address
  have hne := tested_ne_absent habsent hc (List.mem_cons_self : (manager.kernelPageDirectory,
    indexAt 1 address)∈tested manager address)
  by_cases hdir : frame*4096=manager.kernelPageDirectory
  · have hmem : (frame*4096,indexAt 1 address)∈
        tested (giveTable manager unmapped frame) address := by
      rw [tested,hsame,hdir]
      exact List.mem_cons_self
    exact translation_of_absent hmem (not_present_giveTable hd hlow (hdir ▸ hne))
  · -- the directory entry is as it was, and its page table is the frame
    have htable : frame*4096=consultedTable manager address := by
      by_contra hno
      exact hframe ⟨hdir,hno⟩
    have hentry : directoryEntry (giveTable manager unmapped frame) address=
        directoryEntry manager address := by
      rw [directoryEntry,hsame,entryAt_giveTable hd hd hlow hne (Ne.symm hdir),directoryEntry]
    have hmem : (frame*4096,0)∈tested (giveTable manager unmapped frame) address := by
      rw [tested,consultedTable,hentry,htable,consultedTable]
      exact List.mem_cons_of_mem _ List.mem_cons_self
    exact translation_of_absent hmem (not_present_giveTable hd (Nat.succ_pos 511)
      (fun heq => hdir (congrArg Prod.fst heq)))

/-- Unmapping keeps the translation of another page exactly when its entries are
spared. -/
theorem unmap_translation (hk : KernelBitmap manager.bitmap) (hg : Geometry manager.bitmap)
    (hd : manager.kernelPageDirectory%4096=0) (hc : Consulted manager address) :
    kernelVirtualToPhysicalAddress (unmapKernelPageDirectory manager unmapped).2 address=
        kernelVirtualToPhysicalAddress manager address ↔ Spares manager unmapped address := by
  obtain ⟨physical,hphysical⟩ := (translates_iff manager address).mpr hc
  unfold Spares
  rcases getKernelPageTableEntry_ok hk hg unmapped with ⟨hp,-⟩|⟨hp,hnone,he⟩|⟨hp,frame,hf,hfree,he⟩
  · have hmod : getPhysicalAddress (directoryEntry manager unmapped)%4096=0 := Nat.mul_mod_left _ _
    rw [if_pos hp,unmap_present hp,translation_store hd hmod (indexAt_lt 0 _)
      (not_present_unmapped _),hphysical]
    split
    · rename_i hm
      exact iff_of_false (fun h => by cases h) (not_not.mpr hm)
    · rename_i hm
      exact iff_of_true rfl hm
  · rw [if_neg hp,unmapKernelPageDirectory,he]
    exact iff_of_true rfl (fun hfree frame hf => absurd hf (hnone.not_nextFree hfree))
  · have hunmap : (unmapKernelPageDirectory manager unmapped).2=
        (giveTable manager unmapped frame).store (frame%2^28*4096) (indexAt 0 unmapped)
          (unmappedTableEntry (entryAt (giveTable manager unmapped frame).memory
            (frame%2^28*4096) (indexAt 0 unmapped))) := by
      rw [unmapKernelPageDirectory,he]
    have hspares : (manager.bitmap.freePages≠0 → ∀ other,NextFree manager.bitmap other →
        other*4096≠manager.kernelPageDirectory ∧ other*4096≠consultedTable manager address ∧
          (other%2^28*4096,indexAt 0 unmapped)∉tested manager address) ↔
        frame*4096≠manager.kernelPageDirectory ∧ frame*4096≠consultedTable manager address ∧
          (frame%2^28*4096,indexAt 0 unmapped)∉tested manager address := by
      rw [hf.forall_iff]
      exact forall_prop_of_true hfree
    have hdirectory : (giveTable manager unmapped frame).kernelPageDirectory%4096=0 := by
      rw [(sameRest_giveTable manager unmapped frame).directory_eq,hd]
    rw [if_neg hp,hspares,hunmap,translation_store hdirectory (Nat.mul_mod_left _ _)
      (indexAt_lt 0 _) (not_present_unmapped _)]
    by_cases hframe : frame*4096≠manager.kernelPageDirectory ∧
        frame*4096≠consultedTable manager address
    · obtain ⟨htested,heq⟩ := translation_giveTable_kept hd hp hc hframe.1 hframe.2
      rw [htested,heq,hphysical]
      split
      · rename_i hm
        exact iff_of_false (fun h => by cases h) (fun h => h.2.2 hm)
      · rename_i hm
        exact iff_of_true rfl ⟨hframe.1,hframe.2,hm⟩
    · rw [translation_giveTable_lost hd hp hc hframe,ite_self,hphysical]
      exact iff_of_false (fun h => by cases h) (fun h => hframe ⟨h.1,h.2.1⟩)

/-- Freeing a heap page does to the translations what unmapping it does. -/
theorem free_translation {outcome : Outcome Unit}
    (h : freeKernelHeapPage manager unmapped=some outcome) (address : ℕ) :
    kernelVirtualToPhysicalAddress outcome.2 address=
      kernelVirtualToPhysicalAddress (unmapKernelPageDirectory manager unmapped).2 address := by
  by_cases hc : Consulted manager unmapped
  · obtain ⟨physical,hphysical⟩ := (translates_iff manager unmapped).mpr hc
    rw [freeKernelHeapPage,hphysical] at h
    dsimp only at h
    rw [Option.some.injEq] at h
    -- the directory entry is present, so only the bitmap differs
    generalize hfreed : {manager with
      bitmap := (freePage manager.bitmap physical).2}=freed at h
    have hmemory : freed.memory=manager.memory := by rw [←hfreed]
    have hdirectory : freed.kernelPageDirectory=manager.kernelPageDirectory := by rw [←hfreed]
    have hentry : directoryEntry freed unmapped=directoryEntry manager unmapped := by
      rw [directoryEntry,directoryEntry,hmemory,hdirectory]
    have hp : Present (directoryEntry freed unmapped) := by
      rw [hentry]
      exact hc.directory
    rw [←h,unmap_present hp,unmap_present hc.directory,hentry,hmemory]
    refine (translation_congr ?_ (fun place _ => ?_)).2
    · rw [(sameRest_store freed _ _ _).directory_eq,(sameRest_store manager _ _ _).directory_eq,
        hdirectory]
    · rw [MemoryManager.store,MemoryManager.store,hmemory]
  · rw [freeKernelHeapPage,translation_of_not_consulted hc] at h
    cases h

/-- Unmapping one page leaves the translation of another alone exactly when the
entry it clears is spared. -/
theorem undisturbed_iff_spares (hk : KernelBitmap manager.bitmap) (hg : Geometry manager.bitmap)
    (hd : manager.kernelPageDirectory%4096=0) (hc : Consulted manager address) :
    Undisturbed manager unmapped address ↔ Spares manager unmapped address := by
  obtain ⟨physical,hphysical⟩ := (translates_iff manager address).mpr hc
  rw [←unmap_translation hk hg hd hc,hphysical]
  constructor
  · exact fun h => (h physical hphysical).1
  · intro h other hother
    rw [hphysical] at hother
    cases hother
    refine ⟨h,fun outcome ho => ?_⟩
    rw [free_translation ho]
    exact h

/-- Among well-formed tables below 2 GiB: the two pages have different page
tables, or the page that is unmapped is not the first of its page table. -/
theorem spares_iff_of_tabled {tables : ℕ→ℕ→Prop}
    (h : Tabled tables manager.kernelPageDirectory manager)
    (hlow : ∀ i<512,Present (entryAt manager.memory manager.kernelPageDirectory i) →
      getPhysicalAddress (entryAt manager.memory manager.kernelPageDirectory i)<2^31)
    (hp : Present (directoryEntry manager unmapped)) (hc : Consulted manager address) :
    Spares manager unmapped address ↔ indexAt 1 unmapped≠indexAt 1 address ∨
      (indexAt 0 unmapped≠0 ∧ indexAt 0 unmapped≠indexAt 0 address) := by
  have hu := indexAt_lt 1 unmapped
  have ha := indexAt_lt 1 address
  have htable : getPhysicalAddress (directoryEntry manager unmapped)=
      target (directoryEntry manager unmapped) := getPhysicalAddress_eq (h.narrow _ hu)
  have hconsulted : consultedTable manager address=target (directoryEntry manager address) := by
    have hl : getPhysicalAddress (directoryEntry manager address)<2^31 := hlow _ ha hc.directory
    rw [consultedTable,(shiftedPhysicalAddress_eq_iff _).mpr hl]
    exact getPhysicalAddress_eq (h.narrow _ ha)
  have hne : target (directoryEntry manager unmapped)≠manager.kernelPageDirectory := by
    intro heq
    have hmember := h.shape.table_of_present h.backed.system hu hp
    rw [directoryEntry] at heq
    rw [heq] at hmember
    cases h.backed.system.unique hmember h.shape.member
  have hsame : target (directoryEntry manager unmapped)=target (directoryEntry manager address) ↔
      indexAt 1 unmapped=indexAt 1 address := by
    constructor
    · exact h.shape.distinct _ _ hu ha hp hc.directory
    · intro heq
      rw [directoryEntry,directoryEntry,heq]
  rw [Spares,if_pos hp,tested,htable,hconsulted]
  simp only [List.mem_cons,List.not_mem_nil,or_false,Prod.mk.injEq,hne,false_and,false_or,hsame,
    not_or,not_and]
  by_cases heq : indexAt 1 unmapped=indexAt 1 address
  · simp only [heq,forall_const,ne_eq,not_true,false_or]
  · simp only [heq,false_implies,and_self,ne_eq,not_false_eq_true,true_or]

end

/-- Two pages mapped through one page table. -/
def twoPages : MemoryManager :=
  (mapKernelPageDirectory (mapKernelPageDirectory (oneTable 0x100000) 0x5000 0xffffffff80000000).2
    0x6000 0xffffffff80001000).2

/-- Unmapping the second page leaves the first alone. -/
theorem second_page_spares_first :
    Undisturbed twoPages 0xffffffff80001000 0xffffffff80000000 := by
  have hc : Consulted twoPages 0xffffffff80000000 :=
    ⟨by decide +kernel,by decide +kernel,by decide +kernel⟩
  refine (undisturbed_iff_spares halfBitmap_kernel.1 halfBitmap_kernel.2 rfl hc).mpr ?_
  rw [Spares,if_pos (by decide +kernel)]
  decide +kernel

/-- Unmapping the first page makes the translation of the second panic. -/
theorem first_page_disturbs_second :
    ¬∀ (manager : MemoryManager) (unmapped address : ℕ),KernelBitmap manager.bitmap →
      Geometry manager.bitmap → manager.kernelPageDirectory%4096=0 →
      (∀ i<512,Present (entryAt manager.memory manager.kernelPageDirectory i) →
        getPhysicalAddress (entryAt manager.memory manager.kernelPageDirectory i)<2^31) →
      (indexAt 1 unmapped≠indexAt 1 address ∨ indexAt 0 unmapped≠indexAt 0 address) →
      Undisturbed manager unmapped address := by
  intro h
  have hlow : ∀ i<512,Present (entryAt twoPages.memory twoPages.kernelPageDirectory i) →
      getPhysicalAddress (entryAt twoPages.memory twoPages.kernelPageDirectory i)<2^31 := by
    decide +kernel
  have hafter := (h twoPages 0xffffffff80000000 0xffffffff80001000 halfBitmap_kernel.1
    halfBitmap_kernel.2 rfl hlow (by decide) 0x6000 (by decide +kernel)).1
  have hnone : kernelVirtualToPhysicalAddress
      (unmapKernelPageDirectory twoPages 0xffffffff80000000).2 0xffffffff80001000=none := by
    decide +kernel
  rw [hnone] at hafter
  cases hafter

end WorkbenchOS.KernelUnmapping
