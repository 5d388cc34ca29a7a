import WorkbenchOS.PageMapping

/-!
# Blocks of user pages

`allocate_user_pages` maps a block of user pages and returns the kernel
address of the first frame. The frames are taken one at a time, and page
tables are taken from the same bitmap in between. The kernel address stands
for the whole block precisely when the allocator happens to hand out
consecutive frames and no page table comes between them.
-/

namespace WorkbenchOS.UserPages

open ByteMemory LibStd WordBitmaps FrameBitmap FrameOperations FrameRuns PhysicalMemory
open PageTables MemoryManagement PageMapping

/-- The hardware walk through a process directory, which is installed under
entry 0 of the root. -/
def userWalk (memory : Memory) (pdpt address : ℕ) : Option ℕ :=
  if address<2^39 then walkFrom memory 3 pdpt address else none

/-- A process directory as `create_user_mode_directory` makes it: only the
first entry is in use, and it leads to a page directory. -/
structure UserDirectory (tables : ℕ→ℕ→Prop) (pdpt directory : ℕ) (manager : MemoryManager) :
    Prop where
  /-- The memory manager works on the page directory. -/
  tabled : Tabled tables directory manager
  /-- The pointer table is a table. -/
  root : tables 3 pdpt
  /-- The first entry leads on. -/
  first : Descends 2 (entryAt manager.memory pdpt 0)
  /-- It fits the 28 bits the kernel reads. -/
  narrow : Narrow (entryAt manager.memory pdpt 0)
  /-- It leads to the page directory. -/
  first_eq : target (entryAt manager.memory pdpt 0)=directory
  /-- No other entry is in use. -/
  rest : ∀ i, 1≤ i → i<512 → ¬Present (entryAt manager.memory pdpt i)

/-- From one state of a process directory to a later one. -/
structure Onward (tables larger : ℕ→ℕ→Prop) (pdpt directory : ℕ)
    (before after : MemoryManager) : Prop where
  /-- It is a process directory again. -/
  user : UserDirectory larger pdpt directory after
  /-- Pages that are mapped stay mapped to the same frame. -/
  walk : ∀ address physical, walkFrom before.memory 2 directory address=some physical →
    walkFrom after.memory 2 directory address=some physical
  /-- No frame that was in use became a table. -/
  marked : ∀ {k : ℕ}, bitAt before.bitmap.storage k=true → (∀ l, ¬tables l (k*4096)) →
    bitAt after.bitmap.storage k=true ∧ ∀ l, ¬larger l (k*4096)

section Walks

variable {tables larger : ℕ→ℕ→Prop} {pdpt directory : ℕ} {manager after : MemoryManager}

/-- The kernel reads the address of the page directory from the first entry. -/
theorem UserDirectory.first_address (h : UserDirectory tables pdpt directory manager) :
    getPhysicalAddress (entryAt manager.memory pdpt 0)=directory := by
  rw [getPhysicalAddress_eq h.narrow,h.first_eq]

/-- Below one gibibyte the hardware walks through the page directory. -/
theorem UserDirectory.userWalk_low (h : UserDirectory tables pdpt directory manager)
    {address : ℕ} (ha : address<2^30) :
    userWalk manager.memory pdpt address=walkFrom manager.memory 2 directory address := by
  have hindex : indexAt 2 address=0 := by
    unfold indexAt
    norm_num
    omega
  have hfirst := h.first
  rw [← hindex] at hfirst
  rw [userWalk,if_pos (by omega),walkFrom_descend hfirst,hindex,h.first_eq]

/-- Nothing is mapped from one gibibyte on. -/
theorem UserDirectory.userWalk_high (h : UserDirectory tables pdpt directory manager)
    {address : ℕ} (ha : 2^30≤address) : userWalk manager.memory pdpt address=none := by
  unfold userWalk
  by_cases hlt : address<2^39
  · have hindex : 1≤ indexAt 2 address := by
      unfold indexAt
      norm_num
      omega
    rw [if_pos hlt]
    exact walkFrom_absent (h.rest _ hindex (indexAt_lt 2 address))
  · rw [if_neg hlt]

/-- A change below the pointer table leaves it a process directory. -/
theorem UserDirectory.after_below (h : UserDirectory tables pdpt directory manager)
    (ht : Tabled larger directory after)
    (hsub : ∀ {level table : ℕ}, tables level table → larger level table)
    (hupper : ∀ {level table i : ℕ}, tables level table → 3≤level → i<512 →
      entryAt after.memory table i=entryAt manager.memory table i) :
    UserDirectory larger pdpt directory after := by
  have hentry : ∀ i, i<512 → entryAt after.memory pdpt i=entryAt manager.memory pdpt i :=
    fun i hi => hupper h.root le_rfl hi
  refine ⟨ht,hsub h.root,?_,?_,?_,?_⟩
  · rw [hentry 0 (by decide)]
    exact h.first
  · rw [hentry 0 (by decide)]
    exact h.narrow
  · rw [hentry 0 (by decide)]
    exact h.first_eq
  · intro i hi hlt
    rw [hentry i hlt]
    exact h.rest i hi hlt

/-- Present entries that are kept keep the translations. -/
theorem UserDirectory.walk_kept (h : UserDirectory tables pdpt directory manager)
    (hkept : PresentKept manager.memory after.memory tables) {address physical : ℕ}
    (hw : walkFrom manager.memory 2 directory address=some physical) :
    walkFrom after.memory 2 directory address=some physical :=
  walkFrom_kept h.tabled.backed.system.closed hkept (Or.inr h.tabled.shape.member) hw

theorem Onward.refl (h : UserDirectory tables pdpt directory manager) :
    Onward tables tables pdpt directory manager manager :=
  ⟨h,fun _ _ hw => hw,fun hb ht => ⟨hb,ht⟩⟩

theorem Onward.trans {largest : ℕ→ℕ→Prop} {middle : MemoryManager}
    (h : Onward tables larger pdpt directory manager middle)
    (k : Onward larger largest pdpt directory middle after) :
    Onward tables largest pdpt directory manager after := by
  refine ⟨k.user,fun a p hw => k.walk a p (h.walk a p hw),?_⟩
  intro frame hb ht
  obtain ⟨hb',ht'⟩ := h.marked hb ht
  exact k.marked hb' ht'

/-- Growing tables lead onward. -/
theorem UserDirectory.onward_grown (h : UserDirectory tables pdpt directory manager)
    (hg : Grown tables larger directory manager after) :
    Onward tables larger pdpt directory manager after :=
  ⟨h.after_below hg.tabled hg.subset hg.upper,fun _ _ hw => h.walk_kept hg.kept hw,hg.marked⟩

/-- Mapping a page leads onward. -/
theorem UserDirectory.onward_mapped (h : UserDirectory tables pdpt directory manager)
    {page physicalAddress : ℕ}
    (hm : PageMapped tables larger directory manager after page physicalAddress) :
    Onward tables larger pdpt directory manager after :=
  ⟨h.after_below hm.tabled hm.subset hm.upper,fun _ _ hw => h.walk_kept hm.kept hw,hm.marked⟩

/-- Everything `map_user_page` can do: fail for want of a page table, hang on
a page that is mapped already, or map the page, with a page table from the
next free frame when the directory has none. -/
theorem UserDirectory.mapUserPage_cases (h : UserDirectory tables pdpt directory manager)
    {page physicalAddress : ℕ} (write execute : Bool) (hp : physicalAddress%4096=0)
    (hlt : physicalAddress<2^52) :
    (¬Present (entryAt manager.memory directory (indexAt 1 page)) ∧ Exhausted manager.bitmap ∧
      mapUserPage manager pdpt physicalAddress page write execute=
        some (.error .allocatorError,manager)) ∨
    mapUserPage manager pdpt physicalAddress page write execute=none ∨
    ∃ larger after, mapUserPage manager pdpt physicalAddress page write execute=
        some (.ok (),after) ∧
      PageMapped tables larger directory manager after page physicalAddress ∧
      ((Present (entryAt manager.memory directory (indexAt 1 page)) ∧
          after.bitmap=manager.bitmap ∧
          ∀ i, i<512 → entryAt after.memory directory i=entryAt manager.memory directory i) ∨
        (¬Present (entryAt manager.memory directory (indexAt 1 page)) ∧
          manager.bitmap.freePages≠0 ∧ ∃ frame, NextFree manager.bitmap frame ∧
          after.bitmap=markFrame manager.bitmap frame)) := by
  have hi := indexAt_lt 1 page
  have hdirectory := h.first_address
  rcases h.tabled.ensure installs_user hi with ⟨habsent,hnone,he⟩|⟨larger,middle,he,hg,-,hpde,hway⟩
  · refine Or.inl ⟨habsent,hnone,?_⟩
    simp only [mapUserPage,hdirectory,virtualAddressToPageDirectoryIndex_eq,he]
  · have htarget := getPhysicalAddress_eq (hg.tabled.narrow _ hi)
    by_cases hpte : Present (entryAt middle.memory
        (target (entryAt middle.memory directory (indexAt 1 page))) (indexAt 0 page))
    · refine Or.inr (Or.inl ?_)
      simp only [mapUserPage,hdirectory,virtualAddressToPageDirectoryIndex_eq,
        virtualAddressToPageTableIndex_eq,he,htarget,if_pos hpte]
    · obtain ⟨hpe,hte⟩ := userTableEntry_maps (entryAt middle.memory
        (target (entryAt middle.memory directory (indexAt 1 page))) (indexAt 0 page))
        write execute hp hlt
      refine Or.inr (Or.inr ⟨larger,_,?_,hg.mapped (hg.tabled.mapped_store hpde hpte hpe hte),?_⟩)
      · simp only [mapUserPage,hdirectory,virtualAddressToPageDirectoryIndex_eq,
          virtualAddressToPageTableIndex_eq,he,htarget,if_neg hpte]
      · rcases hway with ⟨hpresent,rfl⟩|⟨habsent,hfree,frame,hf,hbitmap⟩
        · refine Or.inl ⟨hpresent,store_bitmap _ _ _ _,?_⟩
          exact fun i hi' => hg.tabled.entryAt_store _ hpde hg.tabled.shape.member le_rfl hi'
        · refine Or.inr ⟨habsent,hfree,frame,hf,?_⟩
          rw [store_bitmap,hbitmap]

end Walks

/-- Below one gibibyte the loop computes the address of page `i`. -/
theorem pageAddress_eq {virtualBase i : ℕ} (h : virtualBase+i*4096<2^30) :
    u64 (virtualBase+intPageOffset i)=virtualBase+i*4096 := by
  rw [intPageOffset_eq (by omega),u64_of_lt (by omega)]

/-- The loop makes every iteration of a block below one gibibyte. -/
theorem intIterations_min {virtualBase n : ℕ} (h : virtualBase+n*4096<2^30) :
    min (n+1) intIterations=n+1 := by
  have hsmall : n*4096<2^30 := lt_of_le_of_lt (Nat.le_add_left _ _) h
  refine Nat.min_eq_left ?_
  unfold intIterations
  omega

/-- The counter of free pages fits 64 bits once a frame was marked. -/
theorem freePages_markFrame_lt (bitmap : Bitmap) (frame : ℕ) :
    (markFrame bitmap frame).freePages<2^64 := by
  rw [freePages_markFrame]
  exact u64_lt _

/-- The next `n` pages of a block, from page `i` on, get `n` consecutive
frames and are all mapped. -/
structure Consecutive (manager : MemoryManager) (directory virtualBase i n frame : ℕ) : Prop where
  /-- The frames are tracked. -/
  tracked : ∀ j, j<n → frame+j<frames manager.bitmap
  /-- They are clear. -/
  clear : ∀ j, j<n → bitAt manager.bitmap.storage (frame+j)=false
  /-- Every lower frame is in use. -/
  lowest : ∀ k, k<frame → bitAt manager.bitmap.storage k=true
  /-- All pages but the last have a page table already. -/
  tables : ∀ j, j+1<n →
    Present (entryAt manager.memory directory (indexAt 1 (virtualBase+(i+j)*4096)))
  /-- So has the last one, or there is a further frame for it. -/
  last : ∀ j, j+1=n →
    Present (entryAt manager.memory directory (indexAt 1 (virtualBase+(i+j)*4096))) ∨
    (manager.bitmap.freePages≠n ∧ ∃ k, frame+n≤k ∧ k<frames manager.bitmap ∧
      bitAt manager.bitmap.storage k=false)

/-- Pages from page `i` on translate to consecutive frames. -/
def MappedFrom (memory : Memory) (directory virtualBase i n frame : ℕ) : Prop :=
  ∀ j, j<n → walkFrom memory 2 directory (virtualBase+(i+j)*4096)=
    some ((frame+j)*4096+virtualBase%4096)

section Loop

variable {tables : ℕ→ℕ→Prop} {pdpt directory virtualBase : ℕ} {write execute : Bool}
  {manager after : MemoryManager} {i start result : ℕ}

/-- One iteration of the loop that goes on: a frame is taken and the page is
passed to `map_user_page`. -/
theorem UserDirectory.loop_step (h : UserDirectory tables pdpt directory manager) {n : ℕ}
    {outcome : Outcome ℕ}
    (hl : allocateUserPagesLoop pdpt virtualBase write execute (n+1) i start manager=
      some outcome) :
    outcome=(.error .allocatorError,manager) ∨
    ∃ frame, NextFree manager.bitmap frame ∧ manager.bitmap.freePages≠0 ∧ ∃ mapped next,
      mapUserPage (takeFrame manager frame) pdpt (frame*4096)
        (u64 (virtualBase+intPageOffset i)) write execute=some (mapped,next) ∧
      allocateUserPagesLoop pdpt virtualBase write execute n (i+1)
        (if i=0 then frame*4096 else start) next=some outcome := by
  have hb := h.tabled.backed
  rw [allocateUserPagesLoop] at hl
  rcases allocateFrame_cases hb.kernel hb.geometry with ⟨he,-⟩|⟨frame,hf,hfree,he⟩
  · rw [he] at hl
    exact Or.inl (Option.some.inj hl).symm
  · rw [he] at hl
    dsimp only at hl
    cases hmap : mapUserPage (takeFrame manager frame) pdpt (frame*4096)
        (u64 (virtualBase+intPageOffset i)) write execute with
    | none =>
      rw [hmap] at hl
      cases hl
    | some outcome' =>
      obtain ⟨mapped,next⟩ := outcome'
      rw [hmap] at hl
      exact Or.inr ⟨frame,hf,hfree,mapped,next,hmap,hl⟩

/-- The frame of a page can be mapped. -/
theorem UserDirectory.takeFrame (h : UserDirectory tables pdpt directory manager) {frame : ℕ}
    (hf : NextFree manager.bitmap frame) :
    Onward tables tables pdpt directory manager (takeFrame manager frame) ∧ frame*4096<2^52 := by
  have hreach := h.tabled.backed.reach
  have htracked := hf.tracked
  exact ⟨h.onward_grown (h.tabled.grown_takeFrame hf),by omega⟩

/-- One iteration leads onward, whatever `map_user_page` returned. -/
theorem UserDirectory.map_onward (h : UserDirectory tables pdpt directory manager)
    {frame page : ℕ} (hf : NextFree manager.bitmap frame)
    {mapped : Except MemoryManagerError Unit} {next : MemoryManager}
    (hmap : mapUserPage (PageMapping.takeFrame manager frame) pdpt (frame*4096) page write
      execute=some (mapped,next)) :
    ∃ larger, Onward tables larger pdpt directory manager next := by
  obtain ⟨htaken,hlt⟩ := h.takeFrame hf
  rcases htaken.user.mapUserPage_cases write execute (Nat.mul_mod_left frame 4096) hlt with
    ⟨-,-,he⟩|he|⟨larger,stored,he,hmapped,-⟩
  · rw [he,Option.some.injEq,Prod.mk.injEq] at hmap
    rw [← hmap.2]
    exact ⟨tables,htaken⟩
  · rw [he] at hmap
    cases hmap
  · rw [he,Option.some.injEq,Prod.mk.injEq] at hmap
    rw [← hmap.2]
    exact ⟨larger,htaken.trans (htaken.user.onward_mapped hmapped)⟩

/-- However the loop ends, the process directory is well formed and mapped
pages stay mapped. -/
theorem UserDirectory.loop_onward (h : UserDirectory tables pdpt directory manager) (n : ℕ)
    {outcome : Outcome ℕ}
    (hl : allocateUserPagesLoop pdpt virtualBase write execute n i start manager=some outcome) :
    ∃ larger, Onward tables larger pdpt directory manager outcome.2 := by
  induction n generalizing tables i start manager with
  | zero =>
    rw [allocateUserPagesLoop,Option.some.injEq] at hl
    rw [← hl]
    exact ⟨tables,Onward.refl h⟩
  | succ n ih =>
    rcases h.loop_step hl with rfl|⟨frame,hf,-,mapped,next,hmap,hrest⟩
    · exact ⟨tables,Onward.refl h⟩
    · obtain ⟨larger,hnext⟩ := h.map_onward hf hmap
      obtain ⟨largest,hon⟩ := ih hnext.user hrest
      exact ⟨largest,hnext.trans hon⟩

/-- One page of the block. Either its page table is missing and there is no
frame for it, or it is mapped to the frame taken for it. -/
theorem UserDirectory.page_cases (h : UserDirectory tables pdpt directory manager) {frame : ℕ}
    (hf : NextFree manager.bitmap frame) (hlow : virtualBase+i*4096<2^30)
    {mapped : Except MemoryManagerError Unit} {next : MemoryManager}
    (hmap : mapUserPage (PageMapping.takeFrame manager frame) pdpt (frame*4096)
      (u64 (virtualBase+intPageOffset i)) write execute=some (mapped,next)) :
    (¬Present (entryAt manager.memory directory (indexAt 1 (virtualBase+i*4096))) ∧
      Exhausted (markFrame manager.bitmap frame) ∧
      next=PageMapping.takeFrame manager frame) ∨
    ∃ larger, Onward tables larger pdpt directory manager next ∧
      walkFrom next.memory 2 directory (virtualBase+i*4096)=
        some (frame*4096+virtualBase%4096) ∧
      bitAt next.bitmap.storage frame=true ∧ (∀ l, ¬larger l (frame*4096)) ∧
      ((Present (entryAt manager.memory directory (indexAt 1 (virtualBase+i*4096))) ∧
          next.bitmap=markFrame manager.bitmap frame ∧
          ∀ j, j<512 → entryAt next.memory directory j=entryAt manager.memory directory j) ∨
        (¬Present (entryAt manager.memory directory (indexAt 1 (virtualBase+i*4096))) ∧
          (markFrame manager.bitmap frame).freePages≠0 ∧ ∃ table,
          NextFree (markFrame manager.bitmap frame) table ∧
          next.bitmap=markFrame (markFrame manager.bitmap frame) table)) := by
  obtain ⟨htaken,hlt⟩ := h.takeFrame hf
  rw [pageAddress_eq hlow] at hmap
  have hentry : ∀ j, j<512 → entryAt (PageMapping.takeFrame manager frame).memory directory j=
      entryAt manager.memory directory j :=
    fun j hj => h.tabled.backed.entryAt_takeFrame hf h.tabled.shape.member hj
  have hbitmap := takeFrame_bitmap manager frame
  have hfresh : bitAt (PageMapping.takeFrame manager frame).bitmap.storage frame=true ∧
      ∀ l, ¬tables l (frame*4096) := by
    refine ⟨?_,fun l => h.tabled.backed.taken hf.tracked hf.clear⟩
    rw [hbitmap,bitAt_markFrame,decide_eq_true rfl,Bool.or_true]
  rcases htaken.user.mapUserPage_cases write execute (Nat.mul_mod_left frame 4096) hlt with
    ⟨habsent,hnone,he⟩|he|⟨larger,stored,he,hmapped,hway⟩
  · rw [he,Option.some.injEq,Prod.mk.injEq] at hmap
    rw [hentry _ (indexAt_lt 1 _)] at habsent
    rw [hbitmap] at hnone
    exact Or.inl ⟨habsent,hnone,hmap.2.symm⟩
  · rw [he] at hmap
    cases hmap
  · rw [he,Option.some.injEq,Prod.mk.injEq] at hmap
    rw [hmap.2] at hmapped hway
    have hon := htaken.user.onward_mapped hmapped
    have hwalk := hmapped.walk (virtualBase+i*4096)
    rw [if_pos ⟨rfl,rfl⟩,Nat.add_mul_mod_self_right] at hwalk
    obtain ⟨hset,hno⟩ := hmapped.marked hfresh.1 hfresh.2
    refine Or.inr ⟨larger,htaken.trans hon,hwalk,hset,hno,?_⟩
    rw [hentry _ (indexAt_lt 1 _),hbitmap] at hway
    rcases hway with ⟨hp,hb,hsame⟩|⟨hp,hfree,table,ht,hb⟩
    · exact Or.inl ⟨hp,hb,fun j hj => (hsame j hj).trans (hentry j hj)⟩
    · exact Or.inr ⟨hp,hfree,table,ht,hb⟩

/-- However a page was mapped, the counter of free pages fits 64 bits. -/
theorem UserDirectory.page_counts (h : UserDirectory tables pdpt directory manager) {frame : ℕ}
    (hf : NextFree manager.bitmap frame) (hlow : virtualBase+i*4096<2^30)
    {mapped : Except MemoryManagerError Unit} {next : MemoryManager}
    (hmap : mapUserPage (PageMapping.takeFrame manager frame) pdpt (frame*4096)
      (u64 (virtualBase+intPageOffset i)) write execute=some (mapped,next)) :
    next.bitmap.freePages<2^64 := by
  rcases h.page_cases hf hlow hmap with
    ⟨-,-,rfl⟩|⟨larger,-,-,-,-,⟨-,hb,-⟩|⟨-,-,table,-,hb⟩⟩
  · rw [takeFrame_bitmap]
    exact freePages_markFrame_lt _ _
  · rw [hb]
    exact freePages_markFrame_lt _ _
  · rw [hb]
    exact freePages_markFrame_lt _ _

/-- Without a frame left, nothing can follow. -/
theorem UserDirectory.loop_exhausted (h : UserDirectory tables pdpt directory manager) {n : ℕ}
    (hnone : Exhausted manager.bitmap) :
    allocateUserPagesLoop pdpt virtualBase write execute (n+1) i start manager≠
      some (.ok result,after) := by
  intro hl
  rcases h.loop_step hl with herror|⟨frame,hf,hfree,-⟩
  · cases herror
  · exact hnone.not_nextFree hfree hf

/-- A mapped page tells its frame. -/
theorem frame_of_walk {memory : Memory} {address offset first second : ℕ}
    (h : walkFrom memory 2 directory address=some (first*4096+offset))
    (k : walkFrom memory 2 directory address=some (second*4096+offset)) : first=second := by
  rw [h,Option.some.injEq] at k
  omega

/-- A block begins with the frame that is taken next. -/
theorem Consecutive.eq_first {taken frame n : ℕ}
    (hc : Consecutive manager directory virtualBase i (n+1) frame)
    (hf : NextFree manager.bitmap taken) : taken=frame :=
  hf.unique (hc.clear 0 (Nat.succ_pos n)) hc.lowest

/-- The last page of a block, given that a page is mapped to its frame. -/
theorem consecutive_one {frame : ℕ} (hf : NextFree manager.bitmap frame)
    (hcount : manager.bitmap.freePages<2^64) (hfree : manager.bitmap.freePages≠0)
    (hway : Present (entryAt manager.memory directory (indexAt 1 (virtualBase+i*4096))) ∨
      ((markFrame manager.bitmap frame).freePages≠0 ∧ ∃ table,
        NextFree (markFrame manager.bitmap frame) table)) :
    Consecutive manager directory virtualBase i 1 frame := by
  refine ⟨?_,?_,hf.lowest,fun j hj => absurd hj (by omega),?_⟩
  · intro j hj
    obtain rfl : j=0 := by omega
    exact hf.tracked
  · intro j hj
    obtain rfl : j=0 := by omega
    exact hf.clear
  · intro j hj
    obtain rfl : j=0 := by omega
    rw [Nat.add_zero]
    refine hway.imp_right ?_
    rintro ⟨hleft,table,ht⟩
    have hbit := ht.clear
    rw [bitAt_markFrame,Bool.or_eq_false_iff,decide_eq_false_iff_not] at hbit
    rw [freePages_markFrame,u64Sub_of_le (by omega) hcount] at hleft
    refine ⟨by omega,table,?_,ht.tracked.trans_eq (sameShape_markFrame _ _).frames_eq,hbit.1⟩
    rcases Nat.lt_trichotomy table frame with hlt|heq|hlt
    · have hset := hf.lowest table hlt
      rw [hbit.1] at hset
      cases hset
    · exact absurd heq hbit.2
    · exact hlt

/-- Pages counted from the second one on. -/
theorem page_succ (virtualBase i j : ℕ) :
    virtualBase+(i+1+j)*4096=virtualBase+(i+(j+1))*4096 := by
  rw [Nat.add_assoc i 1,Nat.add_comm 1 j]

/-- A page and the block behind it are a block. -/
theorem Consecutive.cons {frame n : ℕ} {next : MemoryManager}
    (hf : NextFree manager.bitmap frame) (hleft : next.bitmap.freePages+1=manager.bitmap.freePages)
    (hp : Present (entryAt manager.memory directory (indexAt 1 (virtualBase+i*4096))))
    (hb : next.bitmap=markFrame manager.bitmap frame)
    (he : ∀ j, j<512 → entryAt next.memory directory j=entryAt manager.memory directory j)
    (hc : Consecutive next directory virtualBase (i+1) (n+1) (frame+1)) :
    Consecutive manager directory virtualBase i (n+2) frame := by
  have hframes : frames next.bitmap=frames manager.bitmap := by
    rw [hb,(sameShape_markFrame _ _).frames_eq]
  refine ⟨?_,?_,hf.lowest,?_,?_⟩
  · intro j hj
    rcases j with _|j
    · exact hf.tracked
    · have ht := hc.tracked j (by omega)
      rw [hframes] at ht
      omega
  · intro j hj
    rcases j with _|j
    · exact hf.clear
    · have hcl := hc.clear j (by omega)
      rw [hb,bitAt_markFrame_above (by omega)] at hcl
      rw [show frame+(j+1)=frame+1+j by omega]
      exact hcl
  · intro j hj
    rcases j with _|j
    · exact hp
    · have ht := hc.tables j (by omega)
      rw [page_succ,he _ (indexAt_lt 1 _)] at ht
      exact ht
  · intro j hj
    rcases j with _|j
    · omega
    · rcases hc.last j (by omega) with ht|⟨hne,k,hk,hlt,hcl⟩
      · rw [page_succ,he _ (indexAt_lt 1 _)] at ht
        exact Or.inl ht
      · rw [hb,bitAt_markFrame_above (by omega)] at hcl
        exact Or.inr ⟨by omega,k,by omega,by omega,hcl⟩

/-- Behind the first page of a block the rest is a block. -/
theorem Consecutive.tail {frame n : ℕ} {next : MemoryManager}
    (hf : NextFree manager.bitmap frame) (hleft : next.bitmap.freePages+1=manager.bitmap.freePages)
    (hb : next.bitmap=markFrame manager.bitmap frame)
    (he : ∀ j, j<512 → entryAt next.memory directory j=entryAt manager.memory directory j)
    (hc : Consecutive manager directory virtualBase i (n+2) frame) :
    Consecutive next directory virtualBase (i+1) (n+1) (frame+1) := by
  have hframes : frames next.bitmap=frames manager.bitmap := by
    rw [hb,(sameShape_markFrame _ _).frames_eq]
  refine ⟨?_,?_,?_,?_,?_⟩
  · intro j hj
    have ht := hc.tracked (j+1) (by omega)
    rw [hframes]
    omega
  · intro j hj
    have hcl := hc.clear (j+1) (by omega)
    rw [hb,bitAt_markFrame_above (by omega),show frame+1+j=frame+(j+1) by omega]
    exact hcl
  · rw [hb]
    exact hf.marked_below
  · intro j hj
    rw [page_succ,he _ (indexAt_lt 1 _)]
    exact hc.tables (j+1) (by omega)
  · intro j hj
    rw [page_succ,he _ (indexAt_lt 1 _)]
    refine (hc.last (j+1) (by omega)).imp_right ?_
    rintro ⟨hne,k,hk,hlt,hcl⟩
    refine ⟨by omega,k,by omega,by omega,?_⟩
    rwa [hb,bitAt_markFrame_above (by omega)]

/-- The condition of a block in terms of its first page and the rest. -/
theorem consecutive_succ {frame n : ℕ} {next : MemoryManager}
    (hf : NextFree manager.bitmap frame) (hcount : manager.bitmap.freePages<2^64)
    (hfree : manager.bitmap.freePages≠0)
    (hp : Present (entryAt manager.memory directory (indexAt 1 (virtualBase+i*4096))))
    (hb : next.bitmap=markFrame manager.bitmap frame)
    (he : ∀ j, j<512 → entryAt next.memory directory j=entryAt manager.memory directory j) :
    Consecutive next directory virtualBase (i+1) (n+1) (frame+1) ↔
      Consecutive manager directory virtualBase i (n+2) frame := by
  have hleft : next.bitmap.freePages+1=manager.bitmap.freePages := by
    rw [hb,freePages_markFrame,u64Sub_of_le (by omega) hcount]
    omega
  exact ⟨Consecutive.cons hf hleft hp hb he,Consecutive.tail hf hleft hb he⟩

/-- A page table between two pages of a block breaks it. -/
theorem not_consecutive_next {frame table n : ℕ} {next : MemoryManager}
    (ht : NextFree (markFrame manager.bitmap frame) table)
    (hb : next.bitmap=markFrame (markFrame manager.bitmap frame) table)
    (hf : NextFree manager.bitmap frame) :
    ¬Consecutive next directory virtualBase (i+1) (n+1) (frame+1) := by
  intro hc
  have hcl := hc.clear 0 (by omega)
  rw [Nat.add_zero,hb,bitAt_markFrame,Bool.or_eq_false_iff,decide_eq_false_iff_not] at hcl
  exact hcl.2 (NextFree.unique ht hcl.1 hf.marked_below).symm

/-- Translations of a block in terms of its first page and the rest. -/
theorem mappedFrom_succ {memory : Memory} {frame n : ℕ} :
    MappedFrom memory directory virtualBase i (n+1) frame ↔
      walkFrom memory 2 directory (virtualBase+i*4096)=some (frame*4096+virtualBase%4096) ∧
        MappedFrom memory directory virtualBase (i+1) n (frame+1) := by
  constructor
  · intro h
    refine ⟨h 0 (by omega),fun j hj => ?_⟩
    rw [Nat.add_assoc i 1,Nat.add_assoc frame 1,Nat.add_comm 1 j]
    exact h (j+1) (by omega)
  · rintro ⟨hfirst,hrest⟩ j hj
    rcases j with _|j
    · exact hfirst
    · have hr := hrest j (by omega)
      rw [Nat.add_assoc i 1,Nat.add_assoc frame 1,Nat.add_comm 1 j] at hr
      exact hr

/-- A single page whose page table is missing stays without translation. -/
theorem UserDirectory.not_mapped_exhausted (h : UserDirectory tables pdpt directory manager)
    {taken : ℕ} (frame : ℕ) (hf : NextFree manager.bitmap taken)
    (hcount : manager.bitmap.freePages<2^64) (hfree : manager.bitmap.freePages≠0)
    (habsent : ¬Present (entryAt manager.memory directory (indexAt 1 (virtualBase+i*4096))))
    (hnone : Exhausted (markFrame manager.bitmap taken)) :
    ¬MappedFrom (PageMapping.takeFrame manager taken).memory directory virtualBase i 1 frame ∧
      ¬Consecutive manager directory virtualBase i 1 frame := by
  constructor
  · intro hm
    have hwalk := (mappedFrom_succ.mp hm).1
    rw [(h.tabled.grown_takeFrame hf).walk,walkFrom_absent habsent] at hwalk
    cases hwalk
  · intro hc
    have heq : taken=frame := hc.eq_first hf
    rcases hc.last 0 rfl with hp|⟨hne,k,hk,hlt,hclear⟩
    · exact habsent hp
    · rcases hnone with hzero|hfull
      · rw [freePages_markFrame,u64Sub_of_le (by omega) hcount] at hzero
        omega
      · have hset := hfull k (hlt.trans_eq (sameShape_markFrame _ _).frames_eq.symm)
        rw [bitAt_markFrame,hclear,decide_eq_false (by omega)] at hset
        cases hset

/-- A single mapped page is a block. -/
theorem mappedFrom_one_iff {memory : Memory} {taken : ℕ} (hf : NextFree manager.bitmap taken)
    (hcount : manager.bitmap.freePages<2^64) (hfree : manager.bitmap.freePages≠0)
    (hwalk : walkFrom memory 2 directory (virtualBase+i*4096)=some (taken*4096+virtualBase%4096))
    (hway : Present (entryAt manager.memory directory (indexAt 1 (virtualBase+i*4096))) ∨
      ((markFrame manager.bitmap taken).freePages≠0 ∧ ∃ table,
        NextFree (markFrame manager.bitmap taken) table)) (frame : ℕ) :
    MappedFrom memory directory virtualBase i 1 frame ↔
      Consecutive manager directory virtualBase i 1 frame := by
  constructor
  · intro hm
    rw [frame_of_walk (mappedFrom_succ.mp hm).1 hwalk]
    exact consecutive_one hf hcount hfree hway
  · intro hc
    have heq : taken=frame := hc.eq_first hf
    rw [← heq]
    exact mappedFrom_succ.mpr ⟨hwalk,fun j hj => absurd hj (by omega)⟩

/-- A mapped page whose page table was there extends the block behind it. -/
theorem mappedFrom_cons_iff {memory : Memory} {taken n : ℕ} {next : MemoryManager}
    (hf : NextFree manager.bitmap taken) (hcount : manager.bitmap.freePages<2^64)
    (hfree : manager.bitmap.freePages≠0)
    (hp : Present (entryAt manager.memory directory (indexAt 1 (virtualBase+i*4096))))
    (hb : next.bitmap=markFrame manager.bitmap taken)
    (he : ∀ j, j<512 → entryAt next.memory directory j=entryAt manager.memory directory j)
    (hwalk : walkFrom memory 2 directory (virtualBase+i*4096)=some (taken*4096+virtualBase%4096))
    {frame : ℕ} (hrest : MappedFrom memory directory virtualBase (i+1) (n+1) (frame+1) ↔
      Consecutive next directory virtualBase (i+1) (n+1) (frame+1)) :
    MappedFrom memory directory virtualBase i (n+2) frame ↔
      Consecutive manager directory virtualBase i (n+2) frame := by
  rw [mappedFrom_succ,hrest]
  constructor
  · rintro ⟨hw,hc⟩
    have heq : frame=taken := frame_of_walk hw hwalk
    rw [heq] at hc ⊢
    exact (consecutive_succ hf hcount hfree hp hb he).mp hc
  · intro hc
    have heq : taken=frame := hc.eq_first hf
    rw [← heq] at hc ⊢
    exact ⟨hwalk,(consecutive_succ hf hcount hfree hp hb he).mpr hc⟩

/-- A mapped page that took a page table is followed by no block. -/
theorem not_mappedFrom_cons {memory : Memory} {taken table n : ℕ} {next : MemoryManager}
    (hf : NextFree manager.bitmap taken) (ht : NextFree (markFrame manager.bitmap taken) table)
    (hb : next.bitmap=markFrame (markFrame manager.bitmap taken) table)
    (hwalk : walkFrom memory 2 directory (virtualBase+i*4096)=some (taken*4096+virtualBase%4096))
    {frame : ℕ} (hrest : MappedFrom memory directory virtualBase (i+1) (n+1) (frame+1) ↔
      Consecutive next directory virtualBase (i+1) (n+1) (frame+1)) :
    ¬MappedFrom memory directory virtualBase i (n+2) frame := by
  rw [mappedFrom_succ,hrest]
  rintro ⟨hw,hc⟩
  rw [frame_of_walk hw hwalk] at hc
  exact not_consecutive_next ht hb hf hc

/-- The pages of a block, from page `i` on, translate to consecutive frames
precisely when the allocator is about to hand these out and nothing comes in
between; the frames are then no tables. -/
theorem UserDirectory.loop_iff (n : ℕ) (h : UserDirectory tables pdpt directory manager)
    (hcount : manager.bitmap.freePages<2^64) (hlast : virtualBase+(i+n)*4096<2^30)
    (hl : allocateUserPagesLoop pdpt virtualBase write execute (n+1) i start manager=
      some (.ok result,after)) (frame : ℕ) :
    ∃ larger, Onward tables larger pdpt directory manager after ∧
      (MappedFrom after.memory directory virtualBase i (n+1) frame ↔
        Consecutive manager directory virtualBase i (n+1) frame) ∧
      (MappedFrom after.memory directory virtualBase i (n+1) frame →
        ∀ j, j<n+1 → ∀ l, ¬larger l ((frame+j)*4096)) := by
  induction n generalizing tables i start manager frame with
  | zero =>
    rcases h.loop_step hl with herror|⟨taken,hf,hfree,mapped,next,hmap,hrest⟩
    · cases herror
    · rw [allocateUserPagesLoop,Option.some.injEq,Prod.mk.injEq] at hrest
      obtain ⟨-,rfl⟩ := hrest
      rcases h.page_cases hf hlast hmap with ⟨habsent,hnone,rfl⟩|⟨larger,hon,hwalk,-,hno,hway⟩
      · obtain ⟨hm,hc⟩ := h.not_mapped_exhausted frame hf hcount hfree habsent hnone
        exact ⟨tables,(h.takeFrame hf).1,iff_of_false hm hc,fun hm' => absurd hm' hm⟩
      · have hblock := fun hway' => mappedFrom_one_iff hf hcount hfree hwalk hway' frame
        refine ⟨larger,hon,hblock ?_,?_⟩
        · rcases hway with ⟨hp,-⟩|⟨-,hleft,table,ht,-⟩
          · exact Or.inl hp
          · exact Or.inr ⟨hleft,table,ht⟩
        · intro hm j hj
          obtain rfl : j=0 := by omega
          rw [frame_of_walk (mappedFrom_succ.mp hm).1 hwalk]
          exact hno
  | succ n ih =>
    have hlow : virtualBase+i*4096<2^30 :=
      lt_of_le_of_lt (Nat.add_le_add_left (Nat.mul_le_mul_right 4096 (by omega)) _) hlast
    rw [← Nat.add_assoc,Nat.add_right_comm] at hlast
    rcases h.loop_step hl with herror|⟨taken,hf,hfree,mapped,next,hmap,hrest⟩
    · cases herror
    · rcases h.page_cases hf hlow hmap with ⟨-,hnone,rfl⟩|⟨larger,hon,hwalk,hset,hno,hway⟩
      · rw [← takeFrame_bitmap manager taken] at hnone
        exact absurd hrest ((h.takeFrame hf).1.user.loop_exhausted hnone)
      · have hcount' := h.page_counts hf hlow hmap
        obtain ⟨largest,hon',hiff,hno'⟩ := ih hon.user hcount' hlast hrest (frame+1)
        have hfirst := hon'.walk _ _ hwalk
        refine ⟨largest,hon.trans hon',?_,?_⟩
        · rcases hway with ⟨hp,hb,he⟩|⟨hp,-,table,ht,hb⟩
          · exact mappedFrom_cons_iff hf hcount hfree hp hb he hfirst hiff
          · exact iff_of_false (not_mappedFrom_cons hf ht hb hfirst hiff)
              (fun hc => hp (hc.tables 0 (by omega)))
        · intro hm j hj
          obtain ⟨hw,hrest'⟩ := mappedFrom_succ.mp hm
          rcases j with _|j
          · rw [Nat.add_zero,frame_of_walk hw hfirst]
            exact (hon'.marked hset hno).2
          · rw [show frame+(j+1)=frame+1+j by omega]
            exact hno' hrest' j (by omega)

/-- After its first iteration the loop passes the start address on. -/
theorem UserDirectory.loop_start (n : ℕ) (h : UserDirectory tables pdpt directory manager)
    (hi : i≠0)
    (hl : allocateUserPagesLoop pdpt virtualBase write execute n i start manager=
      some (.ok result,after)) : result=start := by
  induction n generalizing tables i manager with
  | zero =>
    rw [allocateUserPagesLoop,Option.some.injEq,Prod.mk.injEq,Except.ok.injEq] at hl
    exact hl.1.symm
  | succ n ih =>
    rcases h.loop_step hl with herror|⟨taken,hf,-,mapped,next,hmap,hrest⟩
    · cases herror
    · obtain ⟨larger,hnext⟩ := h.map_onward hf hmap
      rw [if_neg hi] at hrest
      exact ih hnext.user (Nat.succ_ne_zero i) hrest

/-- The address a block gets is that of the frame taken first. -/
theorem UserDirectory.loop_first (h : UserDirectory tables pdpt directory manager) {n : ℕ}
    (hl : allocateUserPagesLoop pdpt virtualBase write execute (n+1) 0 0 manager=
      some (.ok result,after)) :
    ∃ frame, NextFree manager.bitmap frame ∧
      u64Sub (u64 (result+physicalMappingBase)) physicalMappingBase=frame*4096 := by
  rcases h.loop_step hl with herror|⟨frame,hf,-,mapped,next,hmap,hrest⟩
  · cases herror
  · obtain ⟨larger,hnext⟩ := h.map_onward hf hmap
    rw [if_pos rfl] at hrest
    have hstart := hnext.user.loop_start n (by decide) hrest
    have hreach := h.tabled.backed.reach
    have htracked := hf.tracked
    refine ⟨frame,hf,?_⟩
    rw [hstart]
    unfold u64Sub u64 physicalMappingBase
    omega

end Loop

/-- The kernel address stands for the block: page `j` of the block lies in
frame `j` behind it, and writing the whole block through it touches no page
table of the process. -/
structure KernelMapping (after : MemoryManager) (pdpt virtualBase pageCount kernelAddress : ℕ) :
    Prop where
  /-- Every page lies where the kernel address says. -/
  mapped : ∀ j, j<pageCount → userWalk after.memory pdpt (virtualBase+j*4096)=
    some (u64Sub kernelAddress physicalMappingBase+j*4096+virtualBase%4096)
  /-- No translation depends on the bytes of the block. -/
  harmless : ∀ memory : Memory, (∀ x, ¬(u64Sub kernelAddress physicalMappingBase≤x ∧
      x<u64Sub kernelAddress physicalMappingBase+pageCount*4096) → memory x=after.memory x) →
    ∀ address, userWalk memory pdpt address=userWalk after.memory pdpt address

/-- Consecutive frames are about to be handed out, the pages lie below one
gibibyte, and no page table has to be made before the last page. -/
def Contiguous (manager : MemoryManager) (pdpt virtualBase pageCount : ℕ) : Prop :=
  pageCount=0 ∨ (virtualBase+(pageCount-1)*4096<2^30 ∧ ∃ frame,
    Consecutive manager (getPhysicalAddress (entryAt manager.memory pdpt 0)) virtualBase 0
      pageCount frame)

section Block

variable {tables : ℕ→ℕ→Prop} {pdpt directory virtualBase pageCount kernelAddress : ℕ}
  {write execute : Bool} {manager after : MemoryManager}

/-- What the loop of a successful call returned. -/
theorem loop_of_allocateUserPages
    (hok : allocateUserPages manager pdpt virtualBase pageCount write execute=
      some (.ok kernelAddress,after)) :
    ∃ start, kernelAddress=u64 (start+physicalMappingBase) ∧
      allocateUserPagesLoop pdpt virtualBase write execute (min pageCount intIterations) 0 0
        manager=some (.ok start,after) := by
  obtain ⟨⟨result,last⟩,hloop,heq⟩ := Option.map_eq_some_iff.mp hok
  cases result with
  | error error => cases heq
  | ok start =>
    rw [Prod.mk.injEq,Except.ok.injEq] at heq
    obtain ⟨hstart,rfl⟩ := heq
    exact ⟨start,hstart.symm,hloop⟩

/-- Memory that differs in frames without tables has the same tables. -/
theorem UserDirectory.entryAt_same (h : UserDirectory tables pdpt directory manager)
    {memory : Memory} {first count : ℕ} (hf : first%4096=0)
    (hno : ∀ j, j<count → ∀ l, ¬tables l (first+j*4096))
    (hsame : ∀ x, ¬(first≤x ∧ x<first+count*4096) → memory x=manager.memory x) :
    ∀ level table index, tables level table → index<512 →
      entryAt memory table index=entryAt manager.memory table index := by
  intro level table index ht hi
  refine entryAt_congr hi ?_
  intro x hx hy
  refine hsame x ?_
  rintro ⟨hlow,hhigh⟩
  have halign := h.tabled.backed.system.aligned ht
  unfold tableSize at halign hy
  refine hno ((table-first)/4096) ?_ level ?_
  · omega
  · rw [show first+(table-first)/4096*4096=table by omega]
    exact ht

/-- Memory that differs in frames without tables has the same translations. -/
theorem UserDirectory.userWalk_same (h : UserDirectory tables pdpt directory manager)
    {memory : Memory} {first count : ℕ} (hf : first%4096=0)
    (hno : ∀ j, j<count → ∀ l, ¬tables l (first+j*4096))
    (hsame : ∀ x, ¬(first≤x ∧ x<first+count*4096) → memory x=manager.memory x) (address : ℕ) :
    userWalk memory pdpt address=userWalk manager.memory pdpt address := by
  have hentry := h.entryAt_same hf hno hsame
  unfold userWalk
  rw [walkFrom_same h.tabled.backed.system.closed hentry (Or.inr h.root)]

/-- Translations of the block, through the process directory. -/
theorem UserDirectory.mapped_iff (h : UserDirectory tables pdpt directory manager) {n frame : ℕ}
    (hlast : virtualBase+n*4096<2^30) :
    (∀ j, j<n+1 → userWalk manager.memory pdpt (virtualBase+j*4096)=
        some (frame*4096+j*4096+virtualBase%4096)) ↔
      MappedFrom manager.memory directory virtualBase 0 (n+1) frame := by
  have hpage : ∀ j, j<n+1 → virtualBase+j*4096<2^30 := fun j hj =>
    lt_of_le_of_lt (Nat.add_le_add_left (Nat.mul_le_mul_right 4096 (Nat.lt_succ_iff.mp hj)) _)
      hlast
  unfold MappedFrom
  refine forall_congr' (fun j => imp_congr_right (fun hj => ?_))
  rw [h.userWalk_low (hpage j hj),Nat.zero_add,Nat.add_mul]

end Block

/-- For every process directory, block and state of the allocator in which
the call succeeds, the address returned stands for the block if and only if
the frames come out consecutive. -/
theorem allocateUserPages_mapping_iff {pdpt virtualBase pageCount kernelAddress : ℕ}
    {write execute : Bool} {manager after : MemoryManager}
    (h : ∃ tables directory, UserDirectory tables pdpt directory manager)
    (hcount : manager.bitmap.freePages<2^64)
    (hok : allocateUserPages manager pdpt virtualBase pageCount write execute=
      some (.ok kernelAddress,after)) :
    KernelMapping after pdpt virtualBase pageCount kernelAddress ↔
      Contiguous manager pdpt virtualBase pageCount := by
  obtain ⟨tables,directory,huser⟩ := h
  obtain ⟨start,hkernel,hloop⟩ := loop_of_allocateUserPages hok
  rw [hkernel]
  have hdirectory := huser.first_address
  rcases Nat.eq_zero_or_pos pageCount with hzero|hpos
  · refine iff_of_true ⟨?_,?_⟩ (Or.inl hzero)
    · intro j hj
      omega
    · intro memory hsame address
      have heq : memory=after.memory := funext (fun x => hsame x (by omega))
      rw [heq]
  · by_cases hlast : virtualBase+(pageCount-1)*4096<2^30
    · obtain ⟨n,rfl⟩ : ∃ n, pageCount=n+1 := ⟨pageCount-1,by omega⟩
      rw [Nat.add_sub_cancel] at hlast
      rw [intIterations_min hlast] at hloop
      obtain ⟨frame,hf,haddress⟩ := huser.loop_first hloop
      have hin : virtualBase+(0+n)*4096<2^30 := by rwa [Nat.zero_add]
      obtain ⟨largest,hon,hiff,hno⟩ := huser.loop_iff n hcount hin hloop frame
      have hmapped : (∀ j, j<n+1 → userWalk after.memory pdpt (virtualBase+j*4096)=
          some (frame*4096+j*4096+virtualBase%4096)) ↔
          MappedFrom after.memory directory virtualBase 0 (n+1) frame :=
        hon.user.mapped_iff hlast
      constructor
      · intro hk
        have hm := hk.mapped
        rw [haddress] at hm
        unfold Contiguous
        rw [hdirectory,Nat.add_sub_cancel]
        exact Or.inr ⟨hlast,frame,hiff.mp (hmapped.mp hm)⟩
      · rintro (hzero|⟨-,other,hc⟩)
        · omega
        · rw [hdirectory] at hc
          have heq : frame=other := hc.eq_first hf
          rw [← heq] at hc
          have hm := hiff.mpr hc
          refine ⟨?_,?_⟩
          · rw [haddress]
            exact hmapped.mpr hm
          · intro memory hsame
            rw [haddress] at hsame
            refine hon.user.userWalk_same (Nat.mul_mod_left frame 4096) ?_ hsame
            intro j hj l
            rw [← Nat.add_mul]
            exact hno hm j hj l
    · refine iff_of_false ?_ ?_
      · intro hk
        have hpage := hk.mapped (pageCount-1) (by omega)
        obtain ⟨larger,hon⟩ := huser.loop_onward _ hloop
        rw [hon.user.userWalk_high (by omega)] at hpage
        cases hpage
      · rintro (hzero|⟨hlow,-⟩)
        · omega
        · exact hlast hlow

/-- The stores into the first entry of a process directory make it lead to
the page directory. -/
theorem installs_pointer : Installs userPointerEntry := by
  intro entry pageTable hlarge hnarrow ha hlt
  obtain ⟨hp,hl,hn,ht⟩ := installs_of_flags (present_setField_self entry)
    (getField_setField_apart entry (by decide) (by decide))
    (getField_setField_apart entry (by decide) (by decide)) hlarge hnarrow ha hlt
  unfold userPointerEntry
  refine ⟨?_,?_,?_,?_⟩
  · rw [present_setField_apart _ (by decide),present_setField_apart _ (by decide)]
    exact hp
  · unfold Large
    rw [getField_setField_apart _ (by decide) (by decide),
      getField_setField_apart _ (by decide) (by decide)]
    exact hl
  · unfold Narrow
    rw [getField_setField_apart _ (by decide) (by decide),
      getField_setField_apart _ (by decide) (by decide)]
    exact hn
  · unfold target
    rw [getField_setField_apart _ (by decide) (by decide),
      getField_setField_apart _ (by decide) (by decide)]
    exact ht

section Creation

variable {tables : ℕ→ℕ→Prop} {manager after : MemoryManager}

/-- A frame just taken becomes an empty table. -/
theorem backed_withTable (h : Backed tables manager) {frame : ℕ}
    (hf : NextFree manager.bitmap frame) (level : ℕ) :
    Backed (withTable tables level (frame*4096)) (takeFrame manager frame) ∧
      ∀ i, i<512 → entryAt (takeFrame manager frame).memory (frame*4096) i=0#64 := by
  have htaken := h.takeFrame hf
  refine ⟨⟨htaken.kernel,htaken.geometry,htaken.reach,?_,
    fun hk hclear => h.taken_withTable hf level hk hclear⟩,
    fun i hi => takeFrame_empty manager frame hi⟩
  refine htaken.system.withTable (Nat.mul_mod_left _ _)
    (fun l => h.taken hf.tracked hf.clear) ?_
  intro i hi
  rw [takeFrame_empty manager frame hi]
  exact not_present_zero

/-- An empty pointer table and an empty directory make a process directory. -/
theorem userDirectory_store (h : Backed tables manager) {pdpt directory : ℕ}
    (hp : tables 3 pdpt) (hd : tables 2 directory) (hlt : directory<2^40)
    (hpz : ∀ i, i<512 → entryAt manager.memory pdpt i=0#64)
    (hdz : ∀ i, i<512 → entryAt manager.memory directory i=0#64) :
    UserDirectory tables pdpt directory (manager.store pdpt 0
      (userPointerEntry (entryAt manager.memory pdpt 0) directory)) ∧
    ∀ i, i<512 → entryAt (manager.store pdpt 0
      (userPointerEntry (entryAt manager.memory pdpt 0) directory)).memory directory i=0#64 := by
  have hpa := h.system.aligned hp
  have hda := h.system.aligned hd
  obtain ⟨hpresent,hsmall,hnarrow,htarget⟩ := installs_pointer 0#64 directory (by decide)
    (getField_zero (by decide)) hda hlt
  rw [← hpz 0 (by decide)] at hpresent hsmall hnarrow htarget
  generalize userPointerEntry (entryAt manager.memory pdpt 0) directory=entry at *
  have hself : entryAt (manager.store pdpt 0 entry).memory pdpt 0=entry :=
    entryAt_setEntry_self manager.memory entry
  have hne : directory≠pdpt := by
    rintro rfl
    cases h.system.unique hp hd
  have hdirectory : ∀ i, i<512 → entryAt (manager.store pdpt 0 entry).memory directory i=0#64 :=
    fun i hi => (entryAt_setEntry_other manager.memory entry (by decide) hi hpa hda
      (Or.inl hne)).trans (hdz i hi)
  have hsystem : TableSystem (manager.store pdpt 0 entry).memory tables :=
    h.system.store hp (by decide) (fun _ => Or.inr (htarget ▸ hd))
  refine ⟨⟨⟨⟨h.kernel,h.geometry,h.reach,hsystem,h.taken⟩,⟨hd,?_,?_⟩,?_⟩,hp,?_,?_,?_,?_⟩,hdirectory⟩
  · intro i hi
    rw [hdirectory i hi]
    decide
  · intro i j hi _ hpi
    rw [hdirectory i hi] at hpi
    exact absurd hpi not_present_zero
  · intro i hi
    rw [hdirectory i hi]
    exact getField_zero (by decide)
  · rw [hself]
    exact ⟨hpresent,fun hl => hsmall hl.2⟩
  · rw [hself]
    exact hnarrow
  · rw [hself]
    exact htarget
  · intro i hi hlt'
    have hother : entryAt (manager.store pdpt 0 entry).memory pdpt i=0#64 :=
      (entryAt_setEntry_other manager.memory entry (by decide) hlt' hpa hpa
        (Or.inr (by omega))).trans (hpz i hlt')
    rw [hother]
    exact not_present_zero

/-- A successful call took two frames and stored one entry. -/
theorem createUserModeDirectory_ok {pdpt : ℕ}
    (hok : createUserModeDirectory manager=(.ok pdpt,after)) :
    ∃ first directory second, allocateFrame manager=(.ok pdpt,first) ∧
      allocateFrame first=(.ok directory,second) ∧
      after=second.store pdpt 0 (userPointerEntry (entryAt second.memory pdpt 0) directory) := by
  unfold createUserModeDirectory at hok
  rcases hfirst : allocateFrame manager with ⟨result,first⟩
  rw [hfirst] at hok
  cases result with
  | error error => cases hok
  | ok address =>
    dsimp only at hok
    rcases hsecond : allocateFrame first with ⟨result',second⟩
    rw [hsecond] at hok
    cases result' with
    | error error => cases hok
    | ok directory =>
      rw [Prod.mk.injEq,Except.ok.injEq] at hok
      obtain ⟨rfl,hafter⟩ := hok
      exact ⟨first,directory,second,rfl,hsecond,hafter.symm⟩

/-- A frame that was taken is the next free one. -/
theorem Backed.taken_of_ok (h : Backed tables manager) {address : ℕ}
    (hok : allocateFrame manager=(.ok address,after)) :
    ∃ frame, NextFree manager.bitmap frame ∧ address=frame*4096 ∧ after=takeFrame manager frame := by
  rcases allocateFrame_cases h.kernel h.geometry with ⟨he,-⟩|⟨frame,hf,-,he⟩
  · rw [he] at hok
    cases hok
  · rw [he,Prod.mk.injEq,Except.ok.injEq] at hok
    exact ⟨frame,hf,hok.1.symm,hok.2.symm⟩

/-- The allocator takes the lowest frames, so all up to two that were taken are
in use. -/
theorem marked_of_le {bitmap : Bitmap} {first second k : ℕ} (hf : NextFree bitmap first)
    (hs : NextFree (markFrame bitmap first) second) (hk : k≤first ∨ k≤ second) :
    bitAt (markFrame (markFrame bitmap first) second).storage k=true := by
  rcases hk with hle|hle
  · rw [bitAt_markFrame,hf.marked_below k (by omega),Bool.true_or]
  · exact hs.marked_below k (by omega)

/-- What `create_user_mode_directory` makes and what it leaves alone. -/
theorem createUserModeDirectory_made (h : Backed tables manager) {pdpt : ℕ}
    (hok : createUserModeDirectory manager=(.ok pdpt,after)) :
    ∃ larger directory, UserDirectory larger pdpt directory after ∧
      (∀ i, i<512 → entryAt after.memory directory i=0#64) ∧
      entryAt after.memory pdpt 0=userPointerEntry 0#64 directory ∧ pdpt<2^40 ∧
      SameRest manager after ∧ (∀ {level table : ℕ}, tables level table → larger level table) ∧
      (∀ {level table i : ℕ}, tables level table → i<512 →
        entryAt after.memory table i=entryAt manager.memory table i) ∧
      after.bitmap.freePages<2^64 ∧
      ∀ k, k*4096≤pdpt ∨ k*4096≤directory → bitAt after.bitmap.storage k=true := by
  obtain ⟨first,directory,second,hfirst,hsecond,hafter⟩ := createUserModeDirectory_ok hok
  obtain ⟨frame,hf,hpdpt,htaken⟩ := Backed.taken_of_ok h hfirst
  obtain ⟨hbacked,hzero⟩ := backed_withTable h hf 3
  rw [← htaken,← hpdpt] at hbacked hzero
  obtain ⟨frame',hf',hdirectory,htaken'⟩ := Backed.taken_of_ok hbacked hsecond
  obtain ⟨hbacked',hzero'⟩ := backed_withTable hbacked hf' 2
  have hp : withTable tables 3 pdpt 3 pdpt := Or.inr ⟨rfl,rfl⟩
  have hkept : ∀ i, i<512 → entryAt second.memory pdpt i=0#64 := by
    intro i hi
    rw [htaken']
    exact (hbacked.entryAt_takeFrame hf' hp hi).trans (hzero i hi)
  rw [← htaken',← hdirectory] at hbacked' hzero'
  have hreach := hbacked.reach
  have htracked := hf'.tracked
  have hreach' := h.reach
  have htracked' := hf.tracked
  obtain ⟨huser,hempty⟩ := userDirectory_store hbacked' (Or.inl hp) (Or.inr ⟨rfl,rfl⟩) (by omega)
    hkept hzero'
  have hbitmap : second.bitmap=markFrame (markFrame manager.bitmap frame) frame' := by
    rw [htaken',takeFrame_bitmap,htaken,takeFrame_bitmap]
  rw [hafter]
  refine ⟨_,directory,huser,hempty,?_,by omega,?_,fun ht => Or.inl (Or.inl ht),?_,?_,?_⟩
  · rw [hkept 0 (by decide)]
    exact entryAt_setEntry_self _ _
  · refine SameRest.trans ?_ (sameRest_store _ _ _ _)
    rw [htaken',htaken]
    exact (sameRest_takeFrame _ _).trans (sameRest_takeFrame _ _)
  · intro level table i ht hi
    have hne : table≠pdpt := by
      rintro rfl
      exact h.taken hf.tracked hf.clear (hpdpt ▸ ht)
    have hother : entryAt (second.store pdpt 0
        (userPointerEntry (entryAt second.memory pdpt 0) directory)).memory table i=
          entryAt second.memory table i :=
      entryAt_setEntry_other _ _ (by decide) hi (hbacked'.system.aligned (Or.inl hp))
        (h.system.aligned ht) (Or.inl hne)
    rw [hother,htaken',hbacked.entryAt_takeFrame hf' (Or.inl ht) hi,htaken,
      h.entryAt_takeFrame hf ht hi]
  · rw [store_bitmap,hbitmap]
    exact freePages_markFrame_lt _ _
  · intro k hk
    rw [htaken,takeFrame_bitmap] at hf'
    rw [store_bitmap,hbitmap]
    exact marked_of_le hf hf' (by omega)

/-- `create_user_mode_directory` makes a process directory that is empty. -/
theorem createUserModeDirectory_user (h : Backed tables manager) {pdpt : ℕ}
    (hok : createUserModeDirectory manager=(.ok pdpt,after)) :
    ∃ larger directory, UserDirectory larger pdpt directory after ∧
      ∀ i, i<512 → entryAt after.memory directory i=0#64 := by
  obtain ⟨larger,directory,huser,hempty,-⟩ := createUserModeDirectory_made h hok
  exact ⟨larger,directory,huser,hempty⟩

end Creation

/-- Two mebibytes of memory with the first one in use. -/
def sampleManager : MemoryManager where
  bitmap := ⟨4096,512,256,8,262144,fun block => if block<4 then bitmapFull else 0#64,0⟩
  memory := fun _ => 0
  heapSpace := newAddressSpace 0xffffffff80200000 0x7fdfffff
  kernelPageDirectory := 0x12000
  pml4 := 0x10000
  mapped := []

/-- A fresh process directory at the first free frame. -/
def sampleProcess : MemoryManager := (createUserModeDirectory sampleManager).2

/-- The sample is an empty process directory. -/
theorem sampleProcess_fresh :
    ∃ tables directory, UserDirectory tables 0x100000 directory sampleProcess ∧
      ∀ i, i<512 → entryAt sampleProcess.memory directory i=0#64 := by
  have hbacked : Backed (fun _ _ => False) sampleManager := by
    refine ⟨⟨rfl,rfl,rfl⟩,⟨by decide,fun _ => rfl,by decide,by decide⟩,by decide,
      ⟨fun h => h.elim,fun h => h.elim,fun _ _ _ h => h.elim⟩,fun _ _ h => h⟩
  have hok : (createUserModeDirectory sampleManager).1.toOption=some 0x100000 := by
    decide +kernel
  rcases hcall : createUserModeDirectory sampleManager with ⟨result,after⟩
  rw [hcall] at hok
  cases result with
  | error error => cases hok
  | ok pdpt =>
    have hpdpt : pdpt=0x100000 := Option.some.inj hok
    have hafter : sampleProcess=after := by rw [sampleProcess,hcall]
    rw [hafter,← hpdpt]
    exact createUserModeDirectory_user hbacked hcall

/-- The sample is a process directory. -/
theorem sampleProcess_user :
    ∃ tables directory, UserDirectory tables 0x100000 directory sampleProcess := by
  obtain ⟨tables,directory,huser,-⟩ := sampleProcess_fresh
  exact ⟨tables,directory,huser⟩

/-- The result of a call and the translation of one address after it. -/
def probe (pdpt address : ℕ) (outcome : Outcome ℕ) : Option ℕ×Option ℕ :=
  (outcome.1.toOption,userWalk outcome.2.memory pdpt address)

/-- What a probed call returned. -/
theorem probe_eq {pdpt address result : ℕ} {walk : Option ℕ} {call : Option (Outcome ℕ)}
    (h : call.map (probe pdpt address)=some (some result,walk)) :
    ∃ after, call=some (.ok result,after) ∧ userWalk after.memory pdpt address=walk := by
  obtain ⟨⟨returned,after⟩,hcall,hprobe⟩ := Option.map_eq_some_iff.mp h
  rw [probe,Prod.mk.injEq] at hprobe
  cases returned with
  | error error => cases hprobe.1
  | ok value =>
    have hvalue : value=result := Option.some.inj hprobe.1
    rw [hvalue] at hcall
    exact ⟨after,hcall,hprobe.2⟩

/-- The sample with one page, and with that a page table. -/
def sampleGrown : MemoryManager :=
  ((allocateUserPages sampleProcess 0x100000 0x400000 1 true true).map Prod.snd).getD sampleProcess

/-- It is a process directory. -/
theorem sampleGrown_user :
    allocateUserPages sampleProcess 0x100000 0x400000 1 true true=
        some (.ok 0xffffff0000102000,sampleGrown) ∧
      ∃ tables directory, UserDirectory tables 0x100000 directory sampleGrown := by
  have hprobe : (allocateUserPages sampleProcess 0x100000 0x400000 1 true true).map
      (probe 0x100000 0x400000)=some (some 0xffffff0000102000,some 0x102000) := by decide +kernel
  obtain ⟨after,hok,-⟩ := probe_eq hprobe
  have hafter : sampleGrown=after := by
    rw [sampleGrown,hok]
    rfl
  obtain ⟨tables,directory,huser⟩ := sampleProcess_user
  obtain ⟨start,-,hloop⟩ := loop_of_allocateUserPages hok
  obtain ⟨larger,honward⟩ := huser.loop_onward _ hloop
  rw [hafter]
  exact ⟨hok,larger,directory,honward.user⟩

/-- The page table of the first page comes after its frame. It serves the next
three pages too, whose frames follow. -/
theorem allocateUserPages_mapping_sample :
    ∃ after, allocateUserPages sampleGrown 0x100000 0x401000 3 true true=
        some (.ok 0xffffff0000104000,after) ∧
      Contiguous sampleProcess 0x100000 0x400000 1 ∧
      KernelMapping sampleGrown 0x100000 0x400000 1 0xffffff0000102000 ∧
      Contiguous sampleGrown 0x100000 0x401000 3 ∧
      KernelMapping after 0x100000 0x401000 3 0xffffff0000104000 := by
  have hprobe : (allocateUserPages sampleGrown 0x100000 0x401000 3 true true).map
      (probe 0x100000 0x403000)=some (some 0xffffff0000104000,some 0x106000) := by decide +kernel
  obtain ⟨after,hok,-⟩ := probe_eq hprobe
  obtain ⟨hfirst,huser⟩ := sampleGrown_user
  have hc : Contiguous sampleProcess 0x100000 0x400000 1 := by
    refine Or.inr ⟨by decide,258,⟨by decide +kernel,by decide +kernel,by decide +kernel,
      fun j hj => absurd hj (by omega),?_⟩⟩
    intro j _
    exact Or.inr ⟨by decide +kernel,259,by decide,by decide +kernel,by decide +kernel⟩
  have hblock : Contiguous sampleGrown 0x100000 0x401000 3 := by
    have htable : ∀ j<3,Present (entryAt sampleGrown.memory
        (getPhysicalAddress (entryAt sampleGrown.memory 0x100000 0))
        (indexAt 1 (0x401000+(0+j)*4096))) := by decide +kernel
    exact Or.inr ⟨by decide,260,⟨by decide +kernel,by decide +kernel,by decide +kernel,
      fun j hj => htable j (by omega),fun j hj => Or.inl (htable j (by omega))⟩⟩
  exact ⟨after,hok,hc,
    (allocateUserPages_mapping_iff sampleProcess_user (by decide +kernel) hfirst).mpr hc,hblock,
    (allocateUserPages_mapping_iff huser (by decide +kernel) hok).mpr hblock⟩

/-- Two pages in a fresh directory: the page table of the first takes the
frame behind it, so the second lies one frame further. -/
theorem allocateUserPages_not_always_mapping :
    ¬∀ (manager after : MemoryManager) (pdpt virtualBase pageCount kernelAddress : ℕ)
      (write execute : Bool),
      (∃ tables directory, UserDirectory tables pdpt directory manager) →
      manager.bitmap.freePages<2^64 →
      allocateUserPages manager pdpt virtualBase pageCount write execute=
        some (.ok kernelAddress,after) →
      KernelMapping after pdpt virtualBase pageCount kernelAddress := by
  intro h
  have hprobe : (allocateUserPages sampleProcess 0x100000 0x400000 2 true true).map
      (probe 0x100000 0x401000)=some (some 0xffffff0000102000,some 0x104000) := by decide +kernel
  obtain ⟨after,hok,hwalk⟩ := probe_eq hprobe
  have hmapping := h _ _ _ _ _ _ _ _ sampleProcess_user (by decide +kernel) hok
  have hpage := hmapping.mapped 1 (by decide)
  rw [hwalk] at hpage
  exact absurd hpage (by decide)

end WorkbenchOS.UserPages
