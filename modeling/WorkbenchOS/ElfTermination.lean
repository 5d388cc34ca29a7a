import WorkbenchOS.ElfLoader
import WorkbenchOS.HeapAtomicity
import WorkbenchOS.UserMappings

/-!
# Whether the loader returns

`map_user_page` spins for ever on a page that is present. A loader that maps
the pages of one segment after another gets there when two segments, or two
pages of one, share an entry of the page directory's tables, unless the frames
run out before. The frames a fresh process gets lie behind its directory, so
whatever is copied into them the directory keeps its shape.
-/

namespace WorkbenchOS.ElfTermination

open ByteMemory LibStd TransitionRuns WordBitmaps FrameBitmap FrameOperations PhysicalMemory
open PageTables MemoryManagement PageMapping UserPages UserMappings HeapAtomicity ElfLoader

/-- Two addresses use the same entry of the page directory and its tables. -/
def SameEntry (first second : ℕ) : Prop :=
  indexAt 1 first=indexAt 1 second ∧ indexAt 0 first=indexAt 0 second

instance (first second : ℕ) : Decidable (SameEntry first second) :=
  inferInstanceAs (Decidable (_∧_))

/-- The page `j` after page `i` of a block has an entry that is present, or one
that a page between them uses too. -/
def Occupied (memory : Memory) (directory virtualBase i j : ℕ) : Prop :=
  walkFrom memory 2 directory (virtualBase+(i+j)*Page)≠none ∨
    ∃ k<j,SameEntry (virtualBase+(i+k)*Page) (virtualBase+(i+j)*Page)

/-- Among the next `n` pages of a block one is occupied, and there are frames
for the pages up to it and for the page tables they miss. -/
def Clash (memory : Memory) (directory virtualBase i n left : ℕ) : Prop :=
  ∃ j<n,Occupied memory directory virtualBase i j ∧
    j+1+(missingTables memory directory virtualBase i j).card≤left

/-- The condition under which a segment is passed: it is not loaded, or its
pages clash neither with the pages mapped before nor with each other. -/
def Unclashing (pdpt : ℕ) (manager : MemoryManager) (header : Elf64Phdr) : Prop :=
  header.type=ptLoad → ¬Clash manager.memory (getPhysicalAddress (entryAt manager.memory pdpt 0))
    header.vaddr 0 (min (loadPages header) intIterations) (framesLeft manager.bitmap)

/-- A process directory while a program is loaded: no frame up to its tables is
free, so the frames taken lie behind them. -/
structure Loading (pdpt directory : ℕ) (manager : MemoryManager) : Prop where
  /-- The process directory. -/
  user : ∃ tables,UserDirectory tables pdpt directory manager
  /-- The counter of free pages fits 64 bits. -/
  counts : Counts manager
  /-- All frames up to the tables are in use. -/
  settled : ∀ k,k*4096≤pdpt ∨ k*4096≤directory → bitAt manager.bitmap.storage k=true

/-- A segment that gets no pages copies its bytes to the start of memory: they
end below the process directory. -/
def CopiesBelow (pdpt directory : ℕ) (header : Elf64Phdr) : Prop :=
  header.type=ptLoad → loadPages header=0 → header.filesz≤pdpt ∧ header.filesz≤directory

section Pages

variable {tables : ℕ→ℕ→Prop} {pdpt directory page physicalAddress virtualBase : ℕ}
  {write execute : Bool} {manager after : MemoryManager} {i start : ℕ}

/-- A walk through the directory depends on the entry of an address only. -/
theorem walk_ne_none_congr (h : Tabled tables directory manager) {first second : ℕ}
    (hs : SameEntry first second) :
    walkFrom manager.memory 2 directory first≠none ↔
      walkFrom manager.memory 2 directory second≠none := by
  rw [h.shape.walk_eq,h.shape.walk_eq,hs.1,hs.2]
  split
  · split
    · exact iff_of_true (fun he => by cases he) (fun he => by cases he)
    · exact Iff.rfl
  · exact Iff.rfl

/-- `map_user_page` spins exactly on a page that is mapped. -/
theorem mapUserPage_eq_none (h : UserDirectory tables pdpt directory manager) :
    mapUserPage manager pdpt physicalAddress page write execute=none ↔
      walkFrom manager.memory 2 directory page≠none := by
  have hi := indexAt_lt 1 page
  rcases h.tabled.ensure installs_user hi with ⟨habsent,-,he⟩|⟨larger,middle,he,hg,-,hpde,-⟩
  · rw [walkFrom_absent habsent]
    simp only [mapUserPage,h.first_address,virtualAddressToPageDirectoryIndex_eq,he,ne_eq,
      not_true_eq_false,reduceCtorEq]
  · rw [←hg.walk,hg.tabled.shape.walk_eq,if_pos hpde]
    simp only [mapUserPage,h.first_address,virtualAddressToPageDirectoryIndex_eq,
      virtualAddressToPageTableIndex_eq,he,getPhysicalAddress_eq (hg.tabled.narrow _ hi)]
    split
    · exact iff_of_true rfl (fun he => by cases he)
    · exact iff_of_false (fun he => by cases he) (fun hn => hn rfl)

/-- The directory entries after a page was mapped: that of the page is present,
the others are as they were. -/
theorem mapUserPage_presence (h : UserDirectory tables pdpt directory manager)
    (hmap : mapUserPage manager pdpt physicalAddress page write execute=some (.ok (),after)) :
    ∀ i<512,(Present (entryAt after.memory directory i) ↔
      Present (entryAt manager.memory directory i) ∨ i=indexAt 1 page) := by
  intro i hi
  obtain ⟨larger,middle,hg,-,hway,hpde,-,hafter⟩ := mapUserPage_stored h hmap
  have hkept : entryAt after.memory directory i=entryAt middle.memory directory i := by
    rw [hafter]
    exact hg.tabled.entryAt_store _ hpde hg.tabled.shape.member le_rfl hi
  rw [hkept]
  by_cases hindex : i=indexAt 1 page
  · rw [hindex]
    exact iff_of_true hpde (Or.inr rfl)
  · have hsame : entryAt middle.memory directory i=entryAt manager.memory directory i := by
      rcases hway with rfl|⟨frame,hf,rfl⟩
      · rfl
      · have halign := h.tabled.backed.system.aligned h.tabled.shape.member
        exact (entryAt_setEntry_other _ _ (indexAt_lt 1 page) hi halign halign
          (Or.inr hindex)).trans
            (h.tabled.backed.entryAt_takeFrame hf h.tabled.shape.member hi)
    rw [hsame]
    exact ⟨Or.inl,fun hor => hor.resolve_right hindex⟩

/-- What `map_user_page` does to the frames that are left and to the directory. -/
theorem mapUserPage_left (h : UserDirectory tables pdpt directory manager) (hc : Counts manager)
    (hp : physicalAddress%4096=0) (hlt : physicalAddress<2^52) (page : ℕ) (write execute : Bool) :
    (¬Present (entryAt manager.memory directory (indexAt 1 page)) ∧ framesLeft manager.bitmap=0 ∧
      mapUserPage manager pdpt physicalAddress page write execute=
        some (.error .allocatorError,manager)) ∨
    mapUserPage manager pdpt physicalAddress page write execute=none ∨
    ∃ larger after,mapUserPage manager pdpt physicalAddress page write execute=
        some (.ok (),after) ∧ UserDirectory larger pdpt directory after ∧ Counts after ∧
      (∀ address,walkFrom after.memory 2 directory address≠none ↔
        walkFrom manager.memory 2 directory address≠none ∨ SameEntry address page) ∧
      (∀ i<512,(Present (entryAt after.memory directory i) ↔
        Present (entryAt manager.memory directory i) ∨ i=indexAt 1 page)) ∧
      framesLeft after.bitmap+
          (if Present (entryAt manager.memory directory (indexAt 1 page)) then 0 else 1)=
        framesLeft manager.bitmap ∧
      ∀ k,bitAt manager.bitmap.storage k=true → bitAt after.bitmap.storage k=true := by
  rcases h.mapUserPage_cases write execute hp hlt with
    ⟨habsent,hnone,he⟩|he|⟨larger,after,he,hmapped,hway⟩
  · exact Or.inl ⟨habsent,(exhausted_iff _).mp hnone,he⟩
  · exact Or.inr (Or.inl he)
  · have hwalk : ∀ address,walkFrom after.memory 2 directory address≠none ↔
        walkFrom manager.memory 2 directory address≠none ∨ SameEntry address page := by
      intro address
      rw [hmapped.walk]
      by_cases hsame : indexAt 1 address=indexAt 1 page ∧ indexAt 0 address=indexAt 0 page
      · rw [if_pos hsame]
        exact iff_of_true (fun hn => by cases hn) (Or.inr hsame)
      · rw [if_neg hsame]
        exact ⟨Or.inl,fun hor => hor.resolve_right hsame⟩
    refine Or.inr (Or.inr ⟨larger,after,he,(h.onward_mapped hmapped).user,?_,hwalk,
      mapUserPage_presence h he,?_⟩)
    · rcases hway with ⟨-,hb,-⟩|⟨-,-,frame,-,hb⟩
      · rw [Counts,hb]
        exact hc
      · rw [Counts,hb]
        exact freePages_markFrame_lt _ _
    · rcases hway with ⟨hpresent,hb,-⟩|⟨habsent,hfree,frame,hf,hb⟩
      · rw [if_pos hpresent,hb]
        exact ⟨rfl,fun _ hk => hk⟩
      · rw [if_neg habsent,hb]
        refine ⟨(framesLeft_markFrame hf hfree hc).1,fun k hk => ?_⟩
        rw [bitAt_markFrame,hk,Bool.true_or]

/-- The next page of a block is occupied when it is mapped. -/
theorem occupied_zero (memory : Memory) (directory virtualBase i : ℕ) :
    Occupied memory directory virtualBase i 0 ↔
      walkFrom memory 2 directory (virtualBase+i*Page)≠none :=
  ⟨fun ho => ho.resolve_right (fun ⟨_,hk,_⟩ => absurd hk (Nat.not_lt_zero _)),Or.inl⟩

/-- Mapping page `i` occupies the pages with its entry. -/
theorem occupied_succ {before memory : Memory} (j : ℕ)
    (h : ∀ address,walkFrom memory 2 directory address≠none ↔
      walkFrom before 2 directory address≠none ∨ SameEntry address (virtualBase+i*Page)) :
    Occupied before directory virtualBase i (j+1) ↔
      Occupied memory directory virtualBase (i+1) j := by
  unfold Occupied
  rw [h,show i+1+j=i+(j+1) by omega]
  constructor
  · rintro (hw|⟨k,hk,hs⟩)
    · exact Or.inl (Or.inl hw)
    · rcases k with _|k
      · exact Or.inl (Or.inr ⟨hs.1.symm,hs.2.symm⟩)
      · refine Or.inr ⟨k,by omega,?_⟩
        rwa [show i+1+k=i+(k+1) by omega]
  · rintro ((hw|hs)|⟨k,hk,hs⟩)
    · exact Or.inl hw
    · exact Or.inr ⟨0,by omega,hs.1.symm,hs.2.symm⟩
    · refine Or.inr ⟨k+1,by omega,?_⟩
      rwa [show i+(k+1)=i+1+k by omega]

end Pages

section Loop

variable {tables : ℕ→ℕ→Prop} {pdpt directory virtualBase : ℕ} {write execute : Bool}
  {manager after : MemoryManager} {i start : ℕ}

/-- Nothing clashes when no frame is left. -/
theorem not_clash_zero (memory : Memory) (directory virtualBase i n : ℕ) :
    ¬Clash memory directory virtualBase i n 0 := by
  rintro ⟨j,-,-,hleft⟩
  omega

/-- Once page `i` is mapped, the pages behind it clash exactly when they did
before. -/
theorem clash_succ {before memory : Memory} {n left rest : ℕ}
    (hw : ∀ address,walkFrom memory 2 directory address≠none ↔
      walkFrom before 2 directory address≠none ∨ SameEntry address (virtualBase+i*Page))
    (hp : ∀ index<512,(Present (entryAt memory directory index) ↔
      Present (entryAt before directory index) ∨ index=indexAt 1 (virtualBase+i*Page)))
    (hfree : ¬walkFrom before 2 directory (virtualBase+i*Page)≠none)
    (hleft : rest+(if Present (entryAt before directory (indexAt 1 (virtualBase+i*Page))) then 0
      else 1)+1=left) :
    Clash memory directory virtualBase (i+1) n rest ↔
      Clash before directory virtualBase i (n+1) left := by
  constructor
  · rintro ⟨j,hj,ho,hl⟩
    have hcard := card_missingTables j hp
    exact ⟨j+1,by omega,(occupied_succ j hw).mpr ho,by omega⟩
  · rintro ⟨j,hj,ho,hl⟩
    rcases j with _|j
    · exact absurd ((occupied_zero _ _ _ _).mp ho) hfree
    · have hcard := card_missingTables j hp
      exact ⟨j,by omega,(occupied_succ j hw).mp ho,by omega⟩

/-- Without a page table for page `i`, one frame is not enough for a clash. -/
theorem not_clash_one {memory : Memory} {n : ℕ}
    (habsent : ¬Present (entryAt memory directory (indexAt 1 (virtualBase+i*Page)))) :
    ¬Clash memory directory virtualBase i n 1 := by
  rintro ⟨j,hj,ho,hl⟩
  rcases j with _|j
  · exact (occupied_zero _ _ _ _).mp ho (walkFrom_absent habsent)
  · omega

/-- The loop of `allocate_user_pages` spins exactly when pages clash. -/
theorem loop_eq_none (n : ℕ) (h : UserDirectory tables pdpt directory manager)
    (hc : Counts manager) :
    allocateUserPagesLoop pdpt virtualBase write execute n i start manager=none ↔
      Clash manager.memory directory virtualBase i n (framesLeft manager.bitmap) := by
  induction n generalizing tables i start manager with
  | zero => exact iff_of_false (fun he => by cases he) (fun ⟨_,hj,_⟩ => absurd hj (Nat.not_lt_zero _))
  | succ n ih =>
    rw [allocateUserPagesLoop]
    rcases allocateFrame_left h.tabled hc with
      ⟨hzero,hf⟩|⟨frame,framed,hnext,hf,htaken,hleft,hcount,-,-,hkept⟩
    · rw [hf,hzero]
      exact iff_of_false (fun he => by cases he) (not_clash_zero _ _ _ _ _)
    · subst htaken
      have huser := (h.takeFrame hnext).1.user
      have hwalk := (h.tabled.grown_takeFrame hnext).walk
      have hone : ∀ address,SameEntry address (u64 (virtualBase+intPageOffset i)) ↔
          SameEntry address (virtualBase+i*Page) := by
        intro address
        rw [SameEntry,indexAt_pageOffset (by decide),indexAt_pageOffset (by decide),SameEntry]
      have hpage : walkFrom (takeFrame manager frame).memory 2 directory
          (u64 (virtualBase+intPageOffset i))≠none ↔
          walkFrom manager.memory 2 directory (virtualBase+i*Page)≠none := by
        rw [walk_ne_none_congr huser.tabled ((hone _).mp ⟨rfl,rfl⟩),hwalk]
      rw [hf]
      dsimp only
      rcases mapUserPage_left huser hcount (Nat.mul_mod_left frame 4096) (h.takeFrame hnext).2
        (u64 (virtualBase+intPageOffset i)) write execute with
        ⟨habsent,hnone,hmap⟩|hmap|⟨larger,next,hmap,hnextuser,hcount',hwalk',hpresent,hleft',-⟩
      · -- no frame for the page table: the result is ignored, the next frame is missed
        rw [hmap,ih huser hcount,hnone]
        rw [indexAt_pageOffset (by decide),hkept _ (indexAt_lt 1 _)] at habsent
        rw [←hleft,hnone]
        exact iff_of_false (not_clash_zero _ _ _ _ _) (not_clash_one habsent)
      · rw [hmap]
        have hoccupied := hpage.mp ((mapUserPage_eq_none huser).mp hmap)
        refine iff_of_true rfl ⟨0,Nat.succ_pos n,(occupied_zero _ _ _ _).mpr hoccupied,?_⟩
        rw [missingTables_zero,Finset.card_empty]
        omega
      · rw [hmap,ih hnextuser hcount']
        have hfree : ¬walkFrom manager.memory 2 directory (virtualBase+i*Page)≠none := by
          rw [←hpage,←mapUserPage_eq_none huser,hmap]
          exact fun he => by cases he
        refine clash_succ ?_ ?_ hfree ?_
        · intro address
          rw [hwalk',hwalk,hone]
        · intro index hi
          rw [hpresent index hi,hkept index hi,indexAt_pageOffset (by decide)]
        · rw [indexAt_pageOffset (by decide),hkept _ (indexAt_lt 1 _)] at hleft'
          omega

/-- A loop that returns leaves a process directory and gives no frame back. -/
theorem loop_keeps (n : ℕ) (h : UserDirectory tables pdpt directory manager) (hc : Counts manager)
    {result : Except MemoryManagerError ℕ}
    (hl : allocateUserPagesLoop pdpt virtualBase write execute n i start manager=
      some (result,after)) :
    (∃ larger,UserDirectory larger pdpt directory after) ∧ Counts after ∧
      ∀ k,bitAt manager.bitmap.storage k=true → bitAt after.bitmap.storage k=true := by
  induction n generalizing tables i start manager with
  | zero =>
    rw [allocateUserPagesLoop,Option.some.injEq,Prod.mk.injEq] at hl
    rw [←hl.2]
    exact ⟨⟨tables,h⟩,hc,fun _ hk => hk⟩
  | succ n ih =>
    rw [allocateUserPagesLoop] at hl
    rcases allocateFrame_left h.tabled hc with
      ⟨-,hf⟩|⟨frame,framed,hnext,hf,htaken,-,hcount,-,-,-⟩
    · rw [hf,Option.some.injEq,Prod.mk.injEq] at hl
      rw [←hl.2]
      exact ⟨⟨tables,h⟩,hc,fun _ hk => hk⟩
    · subst htaken
      have huser := (h.takeFrame hnext).1.user
      have hmarks : ∀ k,bitAt manager.bitmap.storage k=true →
          bitAt (takeFrame manager frame).bitmap.storage k=true := by
        intro k hk
        rw [takeFrame_bitmap,bitAt_markFrame,hk,Bool.true_or]
      rw [hf] at hl
      dsimp only at hl
      rcases mapUserPage_left huser hcount (Nat.mul_mod_left frame 4096) (h.takeFrame hnext).2
        (u64 (virtualBase+intPageOffset i)) write execute with
        ⟨-,-,hmap⟩|hmap|⟨larger,next,hmap,hnextuser,hcount',-,-,-,hmarks'⟩
      · rw [hmap] at hl
        obtain ⟨hlast,hlastcount,hlastmarks⟩ := ih huser hcount hl
        exact ⟨hlast,hlastcount,fun k hk => hlastmarks k (hmarks k hk)⟩
      · rw [hmap] at hl
        cases hl
      · rw [hmap] at hl
        obtain ⟨hlast,hlastcount,hlastmarks⟩ := ih hnextuser hcount' hl
        exact ⟨hlast,hlastcount,fun k hk => hlastmarks k (hmarks' k (hmarks k hk))⟩

end Loop

section Writes

variable {tables : ℕ→ℕ→Prop} {pdpt directory : ℕ} {manager : MemoryManager}

/-- The tables a process directory itself is made of. -/
def ownTables (memory : Memory) (pdpt directory level table : ℕ) : Prop :=
  (level=3 ∧ table=pdpt) ∨ (level=2 ∧ table=directory) ∨
    (level=1 ∧ ∃ i<512,Present (entryAt memory directory i) ∧
      target (entryAt memory directory i)=table)

/-- They are tables of the process directory. -/
theorem tables_of_ownTables (h : UserDirectory tables pdpt directory manager) {level table : ℕ}
    (ho : ownTables manager.memory pdpt directory level table) : tables level table := by
  rcases ho with ⟨rfl,rfl⟩|⟨rfl,rfl⟩|⟨rfl,i,hi,hp,rfl⟩
  · exact h.root
  · exact h.tabled.shape.member
  · exact h.tabled.shape.table_of_present h.tabled.backed.system hi hp

/-- Whatever is written, the process directory keeps its shape while its two
upper tables are as they were: page tables may hold anything. -/
theorem userDirectory_overwritten (h : UserDirectory tables pdpt directory manager)
    {memory : Memory} (hp : Unchanged manager.memory memory pdpt tableSize)
    (hd : Unchanged manager.memory memory directory tableSize) :
    UserDirectory (ownTables manager.memory pdpt directory) pdpt directory
      {manager with memory := memory} := by
  have hb := h.tabled.backed
  have hfirst : ∀ i<512,entryAt memory pdpt i=entryAt manager.memory pdpt i :=
    fun i hi => entryAt_congr hi hp
  have hsecond : ∀ i<512,entryAt memory directory i=entryAt manager.memory directory i :=
    fun i hi => entryAt_congr hi hd
  have hsystem : TableSystem memory (ownTables manager.memory pdpt directory) := by
    refine ⟨fun ho => hb.system.aligned (tables_of_ownTables h ho),fun ho ho' =>
      hb.system.unique (tables_of_ownTables h ho) (tables_of_ownTables h ho'),?_⟩
    intro level table index ho hi hdescends
    rcases ho with ⟨hl,rfl⟩|⟨hl,rfl⟩|⟨hl,-⟩
    · obtain rfl : level=2 := by omega
      rw [hfirst index hi] at hdescends ⊢
      by_cases hzero : index=0
      · rw [hzero,h.first_eq]
        exact Or.inr (Or.inr (Or.inl ⟨rfl,rfl⟩))
      · exact absurd hdescends.1 (h.rest index (Nat.one_le_iff_ne_zero.mpr hzero) hi)
    · obtain rfl : level=1 := by omega
      rw [hsecond index hi] at hdescends ⊢
      exact Or.inr (Or.inr (Or.inr ⟨rfl,index,hi,hdescends.1,rfl⟩))
    · exact Or.inl (by omega)
  refine ⟨⟨⟨hb.kernel,hb.geometry,hb.reach,hsystem,fun hk hclear ho =>
    hb.taken hk hclear (tables_of_ownTables h ho)⟩,⟨Or.inr (Or.inl ⟨rfl,rfl⟩),?_,?_⟩,?_⟩,
    Or.inl ⟨rfl,rfl⟩,?_,?_,?_,?_⟩
  · intro i hi
    rw [hsecond i hi]
    exact h.tabled.shape.small i hi
  · intro i j hi hj
    rw [hsecond i hi,hsecond j hj]
    exact h.tabled.shape.distinct i j hi hj
  · intro i hi
    rw [hsecond i hi]
    exact h.tabled.narrow i hi
  · rw [hfirst 0 (by decide)]
    exact h.first
  · rw [hfirst 0 (by decide)]
    exact h.narrow
  · rw [hfirst 0 (by decide)]
    exact h.first_eq
  · intro i hi hlt
    rw [hfirst i hlt]
    exact h.rest i hi hlt

end Writes

section Segments

variable {pdpt directory : ℕ} {buffer : Memory} {manager after : MemoryManager}
  {header : Elf64Phdr}

/-- The condition of a segment, with the page directory by name. -/
theorem Loading.unclashing_iff (h : Loading pdpt directory manager) :
    Unclashing pdpt manager header ↔ (header.type=ptLoad →
      ¬Clash manager.memory directory header.vaddr 0 (min (loadPages header) intIterations)
        (framesLeft manager.bitmap)) := by
  obtain ⟨tables,huser⟩ := h.user
  rw [Unclashing,huser.first_address]

/-- Loading a segment spins exactly when its pages clash. -/
theorem Loading.loadSegment_eq_none (h : Loading pdpt directory manager) :
    loadSegment buffer pdpt manager header=none ↔ ¬Unclashing pdpt manager header := by
  obtain ⟨tables,huser⟩ := h.user
  rw [h.unclashing_iff,loadSegment]
  by_cases ht : header.type=ptLoad
  · rw [if_neg (not_not.mpr ht)]
    have hcall : allocateUserPages manager pdpt header.vaddr (loadPages header)
        ((header.flags&&&2)>>>1≠0) (header.flags&&&1≠0)=none ↔
        Clash manager.memory directory header.vaddr 0 (min (loadPages header) intIterations)
          (framesLeft manager.bitmap) := by
      rw [allocateUserPages,Option.map_eq_none_iff,loop_eq_none _ huser h.counts]
    have hopen : ∀ {result}, allocateUserPages manager pdpt header.vaddr (loadPages header)
        ((header.flags&&&2)>>>1≠0) (header.flags&&&1≠0)=some result →
        ¬Clash manager.memory directory header.vaddr 0 (min (loadPages header) intIterations)
          (framesLeft manager.bitmap) := by
      intro result hsome hclash
      rw [hcall.mpr hclash] at hsome
      cases hsome
    split
    · rename_i hnone
      exact iff_of_true rfl (fun hno => hno ht (hcall.mp hnone))
    · rename_i hsome
      exact iff_of_false (fun he => by cases he) (not_not.mpr fun _ => hopen hsome)
    · rename_i hsome
      exact iff_of_false (fun he => by cases he) (not_not.mpr fun _ => hopen hsome)
  · rw [if_pos ht]
    exact iff_of_false (fun he => by cases he) (not_not.mpr fun hload => absurd hload ht)

/-- Where a segment that was loaded has been copied: behind the process
directory, or at the start of memory when it has no pages. -/
theorem Loading.written_place (h : Loading pdpt directory manager) {destination : ℕ}
    {write execute : Bool} (hok : allocateUserPages manager pdpt header.vaddr (loadPages header)
      write execute=some (.ok destination,after)) :
    (loadPages header=0 ∧ u64Sub destination physicalMappingBase=0) ∨
    (pdpt+tableSize≤u64Sub destination physicalMappingBase ∧
      directory+tableSize≤u64Sub destination physicalMappingBase) := by
  obtain ⟨tables,huser⟩ := h.user
  obtain ⟨start,hdestination,hloop⟩ := loop_of_allocateUserPages hok
  by_cases hzero : loadPages header=0
  · rw [hzero,Nat.zero_min,allocateUserPagesLoop,Option.some.injEq,Prod.mk.injEq,
      Except.ok.injEq] at hloop
    refine Or.inl ⟨hzero,?_⟩
    rw [hdestination,←hloop.1]
    decide
  · obtain ⟨n,hn⟩ : ∃ n,min (loadPages header) intIterations=n+1 := by
      refine ⟨min (loadPages header) intIterations-1,?_⟩
      unfold intIterations
      omega
    rw [hn] at hloop
    obtain ⟨frame,hf,haddress⟩ := huser.loop_first hloop
    rw [hdestination,haddress]
    have hclear := hf.clear
    have hroot := huser.tabled.backed.system.aligned huser.root
    have hmember := huser.tabled.backed.system.aligned huser.tabled.shape.member
    have hbehind : ¬(frame*4096≤pdpt ∨ frame*4096≤directory) := by
      intro hle
      rw [h.settled frame hle] at hclear
      cases hclear
    unfold tableSize at hroot hmember ⊢
    exact Or.inr (by omega)

/-- A segment that was loaded leaves the process directory in shape. -/
theorem Loading.keeps (h : Loading pdpt directory manager)
    (hbelow : CopiesBelow pdpt directory header)
    (hok : loadSegment buffer pdpt manager header=some (.ok (),after)) :
    Loading pdpt directory after := by
  by_cases ht : header.type=ptLoad
  · obtain ⟨tables,huser⟩ := h.user
    obtain ⟨destination,middle,hcall,hafter⟩ := loadSegment_load ht hok
    obtain ⟨start,-,hloop⟩ := loop_of_allocateUserPages hcall
    obtain ⟨⟨larger,hmiddle⟩,hcounts,hmarks⟩ := loop_keeps _ huser h.counts hloop
    have houtside : ∀ table,table=pdpt ∨ table=directory → Unchanged middle.memory
        (written buffer header (u64Sub destination physicalMappingBase) middle.memory) table
          tableSize := by
      intro table htable x hx hlt
      unfold written Page
      rcases h.written_place hcall with ⟨hzero,hplace⟩|⟨hroot,hmember⟩
      · have hends := hbelow ht hzero
        rw [hplace,hzero,copy_outside _ buffer (by omega),fill_outside _ 0 (by omega)]
      · rw [copy_outside _ buffer (by omega),fill_outside _ 0 (by omega)]
    have hfree : middle.bitmap.freePages<2^64 := hcounts
    rw [hafter]
    refine ⟨⟨_,userDirectory_overwritten hmiddle (houtside pdpt (Or.inl rfl))
      (houtside directory (Or.inr rfl))⟩,?_,fun k hk => hmarks k (h.settled k hk)⟩
    rw [Counts]
    exact hfree
  · rw [loadSegment,if_pos ht,Option.some.injEq,Prod.mk.injEq] at hok
    rw [←hok.2]
    exact h

/-- The loop over the segments returns exactly when each of them is passed. -/
theorem Loading.loadSegments_returns {headers : List Elf64Phdr}
    (h : Loading pdpt directory manager)
    (hbelow : ∀ header∈headers,CopiesBelow pdpt directory header) :
    loadSegments buffer pdpt headers manager≠none ↔
      Each (loadedSegment buffer pdpt) (Unclashing pdpt) manager headers := by
  induction headers generalizing manager with
  | nil => exact iff_of_true (fun he => by cases he) trivial
  | cons header rest ih =>
    obtain ⟨hfirst,hrest⟩ := List.forall_mem_cons.mp hbelow
    have hspin := @loadSegment_eq_none pdpt directory buffer manager header h
    rw [loadSegments,Each]
    cases hcall : loadSegment buffer pdpt manager header with
    | none => exact iff_of_false (fun hn => hn rfl) (fun he => hspin.mp hcall he.1)
    | some outcome =>
      obtain ⟨result,next⟩ := outcome
      have hpass : Unclashing pdpt manager header := by
        by_contra hclash
        rw [hspin.mpr hclash] at hcall
        cases hcall
      cases result with
      | error error =>
        have hloaded : loadedSegment buffer pdpt manager header=none := by
          rw [loadedSegment,hcall]
        refine iff_of_true (fun he => by cases he) ⟨hpass,fun next' hn => ?_⟩
        rw [hloaded] at hn
        cases hn
      | ok =>
        have hloaded : loadedSegment buffer pdpt manager header=some next := by
          rw [loadedSegment,hcall]
        dsimp only
        rw [ih (h.keeps hfirst hcall) hrest]
        constructor
        · intro he
          refine ⟨hpass,fun next' hn => ?_⟩
          rw [hloaded] at hn
          cases hn
          exact he
        · exact fun he => he.2 next hloaded

end Segments

/-- A process directory that was just created is ready to be loaded. -/
theorem loading_created {tables : ℕ→ℕ→Prop} {before after : MemoryManager} {pdpt : ℕ}
    (h : Backed tables before) (hok : createUserModeDirectory before=(.ok pdpt,after)) :
    ∃ directory,Loading pdpt directory after := by
  obtain ⟨larger,directory,huser,-,-,-,-,-,-,hcount,hsettled⟩ := createUserModeDirectory_made h hok
  exact ⟨directory,⟨larger,huser⟩,hcount,hsettled⟩

/-- `load_elf` returns exactly when the file is rejected or no segment clashes
with the pages that are mapped when it is loaded. -/
theorem loadElf_returns_iff {buffer : Memory} {pdpt directory : ℕ} {manager : MemoryManager}
    (h : Loading pdpt directory manager)
    (hbelow : ∀ header∈programHeaders buffer,CopiesBelow pdpt directory header) :
    loadElf (.ok buffer) pdpt manager≠none ↔ readLE buffer 0 4≠elfMagic ∨
      Each (loadedSegment buffer pdpt) (Unclashing pdpt) manager (programHeaders buffer) := by
  rw [loadElf]
  by_cases hm : readLE buffer 0 4≠elfMagic
  · rw [if_pos hm]
    exact iff_of_true (fun he => by cases he) (Or.inl hm)
  · rw [if_neg hm,h.loadSegments_returns hbelow]
    exact ⟨Or.inr,fun hor => hor.resolve_left hm⟩

/-- A file of this size that describes what is loaded. -/
structure ElfFile (buffer : Memory) (size : ℕ) : Prop where
  /-- It fits the buffer of the loader. -/
  size_le : size≤64*1024
  /-- The magic number. -/
  magic : readLE buffer 0 4=elfMagic
  /-- The program headers are in the file. -/
  headers : readLE buffer 32 8+sizeofElf64Phdr*readLE buffer 56 2≤ size
  /-- So are the bytes of its segments. -/
  bytes : ∀ header∈programHeaders buffer,header.type=ptLoad → header.offset+header.filesz≤ size
  /-- A segment has no more bytes than memory. -/
  filesz_le : ∀ header∈programHeaders buffer,header.type=ptLoad → header.filesz≤header.memsz

/-- Two segments share no byte. -/
def BytesApart (first second : Elf64Phdr) : Prop :=
  first.vaddr+first.memsz≤ second.vaddr ∨ second.vaddr+second.memsz≤first.vaddr

/-- The sample process can be loaded. -/
theorem sampleProcess_loading : ∃ directory,Loading 0x100000 directory UserMappings.sampleProcess := by
  obtain ⟨tables,hrooted⟩ := sampleManager_rooted
  exact loading_created hrooted.backed sampleProcess_created

/-- A segment of one page in a fresh process. -/
theorem loadElf_returns_sample :
    (loadElf (.ok (sampleFile 0)) 0x100000 UserMappings.sampleProcess≠none ↔
      readLE (sampleFile 0) 0 4≠elfMagic ∨ Each (loadedSegment (sampleFile 0) 0x100000)
        (Unclashing 0x100000) UserMappings.sampleProcess (programHeaders (sampleFile 0))) := by
  obtain ⟨directory,hloading⟩ := sampleProcess_loading
  refine loadElf_returns_iff hloading ?_
  intro header hm ht hzero
  rw [sampleFile_headers (Or.inl rfl),List.mem_singleton] at hm
  rw [hm] at hzero
  exact absurd hzero (by decide)

/-- The bytes of a file other than zeros: two segments of 16 bytes at `0x400000`
and `0x400010`. -/
def sharedBytes : List (ℕ×UInt8) :=
  [(0,0x7f),(1,0x45),(2,0x4c),(3,0x46),(32,64),(56,2),
    (64,1),(68,5),(72,176),(82,0x40),(96,1),(104,16),
    (120,1),(124,6),(128,177),(136,0x10),(138,0x40),(152,1),(160,16)]

/-- The file in the buffer. -/
def sharedFile : Memory := fun x => (sharedBytes.lookup x).getD 0

/-- Its program headers. -/
theorem sharedFile_headers :
    programHeaders sharedFile=[⟨1,5,176,0x400000,1,16⟩,⟨1,6,177,0x400010,1,16⟩] := by
  decide +kernel

/-- Two segments that share a page and no byte: the loader does not return. -/
theorem shared_page_never_returns :
    ¬∀ (buffer : Memory) (size pdpt directory : ℕ) (manager : MemoryManager),
      Loading pdpt directory manager → ElfFile buffer size →
      (programHeaders buffer).Pairwise (fun first second => first.type=ptLoad →
        second.type=ptLoad → BytesApart first second) →
      loadElf (.ok buffer) pdpt manager≠none := by
  intro h
  obtain ⟨directory,hloading⟩ := sampleProcess_loading
  have hspins : (loadElf (.ok sharedFile) 0x100000 UserMappings.sampleProcess).isNone=true := by
    decide +kernel
  refine h sharedFile 178 0x100000 directory UserMappings.sampleProcess hloading ?_ ?_
    (Option.isNone_iff_eq_none.mp hspins)
  · refine ⟨by decide,by decide +kernel,by decide +kernel,?_,?_⟩
    · rw [sharedFile_headers]
      simp
    · rw [sharedFile_headers]
      simp
  · rw [sharedFile_headers]
    refine List.pairwise_pair.mpr (fun _ _ => Or.inl ?_)
    decide

end WorkbenchOS.ElfTermination
