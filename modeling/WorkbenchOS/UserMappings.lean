import WorkbenchOS.KernelHeap
import WorkbenchOS.UserPages

/-!
# Runs of user mappings

A process directory has one page directory, and its entries are chosen by bits
12 to 29 of an address. Installed under entry 0 of the root it translates one
gibibyte. A page below its end is found by the hardware with the rights that
were asked for, whatever is mapped later. A page from its end on is accepted
and entered where the hardware looks for another page.
-/

namespace WorkbenchOS.UserMappings

open ByteMemory PageTables MemoryManagement PageMapping UserPages TransitionRuns

/-- What the hardware finds for an address. Access needs every entry on the
way to allow it. -/
structure Translation where
  /-- Physical address. -/
  physicalAddress : ℕ
  /-- Every `user_access` bit is set. -/
  userAccess : Bool
  /-- Every `writeable` bit is set. -/
  writeable : Bool
  /-- Some `execution_disabled` bit is set. -/
  executionDisabled : Bool
  deriving DecidableEq

/-- A translation under a further entry. -/
def Translation.under (below : Translation) (entry : BitVec 64) : Translation where
  physicalAddress := below.physicalAddress
  userAccess := below.userAccess && decide (getField entry 2 1=1)
  writeable := below.writeable && decide (getField entry 1 1=1)
  executionDisabled := below.executionDisabled || decide (getField entry 63 1=1)

/-- The hardware walk with access rights. -/
def translate (memory : Memory) : (levels table address : ℕ)→Option Translation
  | 0,page,address => some ⟨page+address%4096,true,true,false⟩
  | level+1,table,address =>
    let entry := entryAt memory table (indexAt level address)
    if Present entry then
      if (level=1 ∨ level=2) ∧ Large entry then
        some (Translation.under ⟨target entry/2^(12+9*level)*2^(12+9*level)+
          address%2^(12+9*level),true,true,false⟩ entry)
      else (translate memory level (target entry) address).map
        (fun below => below.under entry)
    else none

/-- A call of `map_user_page`. -/
structure Call where
  /-- `physical_address`. -/
  physicalAddress : ℕ
  /-- `virtual_address`. -/
  virtualAddress : ℕ
  /-- `write`. -/
  write : Bool
  /-- `execute`. -/
  execute : Bool
  deriving DecidableEq

/-- What a process is built with: frames are taken and pages are mapped. -/
inductive UserAction where
  /-- `allocate_physical_page`. -/
  | allocatePhysicalPage
  /-- `map_user_page`. -/
  | mapUserPage (call : Call)
  deriving DecidableEq

/-- A memory manager, a process directory and the pages mapped in it. -/
structure UserState where
  /-- The memory manager. -/
  manager : MemoryManager
  /-- The directory `create_user_mode_directory` returned. -/
  pdpt : ℕ
  /-- The calls that have mapped a page, the latest first. -/
  calls : List Call

/-- One step. A call that does not map its page is none. -/
def userStep (state : UserState) : UserAction→Option UserState
  | .allocatePhysicalPage => some {state with manager := (allocateFrame state.manager).2}
  | .mapUserPage call =>
    match mapUserPage state.manager state.pdpt call.physicalAddress call.virtualAddress
      call.write call.execute with
    | some (.ok _,after) => some {state with manager := after,calls := call::state.calls}
    | some (.error _,_) => none
    | none => none

/-- The translation of an address once the process directory is installed. -/
def installedWalk (state : UserState) (address : ℕ) : Option Translation :=
  translate (setUserDirectory state.manager state.pdpt).2.memory 4 state.manager.pml4 address

/-- What was asked for. -/
def Call.translation (call : Call) : Translation :=
  ⟨call.physicalAddress,true,call.write,!call.execute⟩

/-- Every page mapped so far is found where and as it was asked for. -/
def Landed (state : UserState) : Prop :=
  ∀ call∈state.calls,installedWalk state call.virtualAddress=some call.translation

instance (state : UserState) : Decidable (Landed state) :=
  inferInstanceAs (Decidable (∀ call∈state.calls,_))

/-- A successful call for a page of the lower canonical half. -/
def Successful (state : UserState) : UserAction→Prop
  | .allocatePhysicalPage => True
  | .mapUserPage call => call.physicalAddress%4096=0 ∧ call.physicalAddress<2^52 ∧
      call.virtualAddress%4096=0 ∧ call.virtualAddress<2^47 ∧
      (userStep state (.mapUserPage call)).isSome

/-- The page lies in the gibibyte the process directory translates. -/
def Low (_ : UserState) : UserAction→Prop
  | .allocatePhysicalPage => True
  | .mapUserPage call => call.virtualAddress<2^30

/-- The lower half of the root as the bootloader leaves it: nothing behind
entry 0, which has neither high address bits nor `execution_disabled`. -/
structure Rooted (tables : ℕ→ℕ→Prop) (manager : MemoryManager) : Prop where
  /-- Allocator and tables agree. -/
  backed : Backed tables manager
  /-- The root is a table of the highest level. -/
  root : tables 4 manager.pml4
  /-- Entry 0 fits 28 bits. -/
  narrow : Narrow (entryAt manager.memory manager.pml4 0)
  /-- Entry 0 allows execution. -/
  executable : getField (entryAt manager.memory manager.pml4 0) 63 1=0
  /-- The rest of the lower half is empty. -/
  lower : ∀ i,1≤ i → i<256 → ¬Present (entryAt manager.memory manager.pml4 i)

instance decidableSuccessful : ∀ state action,Decidable (Successful state action)
  | _,.allocatePhysicalPage => inferInstanceAs (Decidable True)
  | _,.mapUserPage _ => inferInstanceAs (Decidable (_∧_))

instance decidableLow : ∀ state action,Decidable (Low state action)
  | _,.allocatePhysicalPage => inferInstanceAs (Decidable True)
  | _,.mapUserPage _ => inferInstanceAs (Decidable (_<_))

section Translations

variable {memory before after : Memory} {tables : ℕ→ℕ→Prop} {level levels table address : ℕ}

/-- One level of a translation. -/
theorem translate_descend (h : Descends level (entryAt memory table (indexAt level address))) :
    translate memory (level+1) table address=
      (translate memory level (target (entryAt memory table (indexAt level address))) address).map
        (fun below => below.under (entryAt memory table (indexAt level address))) := by
  rw [translate]
  rw [if_pos h.1,if_neg h.2]

/-- An entry that is not present translates nothing. -/
theorem translate_absent (h : ¬Present (entryAt memory table (indexAt level address))) :
    translate memory (level+1) table address=none := by
  rw [translate]
  rw [if_neg h]

/-- A translation survives every change that keeps present entries. -/
theorem translate_kept (hclosed : Closed before tables) (hkept : PresentKept before after tables)
    {result : Translation} (ht : levels=0 ∨ tables levels table)
    (h : translate before levels table address=some result) :
    translate after levels table address=some result := by
  induction levels generalizing table result with
  | zero => exact h
  | succ level ih =>
    have htable : tables (level+1) table := ht.resolve_left (Nat.succ_ne_zero _)
    have hi := indexAt_lt level address
    rw [translate] at h ⊢
    by_cases hp : Present (entryAt before table (indexAt level address))
    · rw [hkept (level+1) table _ htable hi hp]
      rw [if_pos hp] at h ⊢
      by_cases hl : (level=1 ∨ level=2) ∧ Large (entryAt before table (indexAt level address))
      · rwa [if_pos hl] at h ⊢
      · rw [if_neg hl] at h ⊢
        obtain ⟨below,hbelow,hresult⟩ := Option.map_eq_some_iff.mp h
        rw [ih (hclosed level table _ htable hi ⟨hp,hl⟩) hbelow,Option.map_some,hresult]
    · rw [if_neg hp] at h
      cases h

end Translations

/-- The entry allows everything. -/
structure Opens (entry : BitVec 64) : Prop where
  /-- `writeable` is set. -/
  writeable : getField entry 1 1=1
  /-- `user_access` is set. -/
  userAccess : getField entry 2 1=1
  /-- `execution_disabled` is not. -/
  executable : getField entry 63 1=0

/-- Every entry of a page directory allows execution, and all else once it is
present. -/
def Granting (memory : Memory) (directory : ℕ) : Prop :=
  ∀ i<512,getField (entryAt memory directory i) 63 1=0 ∧
    (Present (entryAt memory directory i) → Opens (entryAt memory directory i))

section Rights

variable {entry : BitVec 64}

/-- A flag that was set. -/
theorem getField_setField_set (word : BitVec 64) {low : ℕ} (h : low+1≤64) :
    getField (setField word low 1 1) low 1=1 := getField_setField_self word h

/-- An entry that allows everything takes nothing away. -/
theorem Opens.under (h : Opens entry) (below : Translation) : below.under entry=below := by
  rw [Translation.under,h.userAccess,h.writeable,h.executable,decide_eq_true rfl,
    decide_eq_false (by decide),Bool.and_true,Bool.and_true,Bool.or_false]

/-- The stores into a directory entry of a process. -/
theorem opens_userDirectoryEntry (h : getField entry 63 1=0) (pageTable : ℕ) :
    Opens (userDirectoryEntry entry pageTable) := by
  unfold userDirectoryEntry
  refine ⟨?_,?_,?_⟩
  · rw [getField_setField_apart _ (by decide) (by decide),
      getField_setField_apart _ (by decide) (by decide),getField_setField_set _ (by decide)]
  · rw [getField_setField_apart _ (by decide) (by decide),getField_setField_set _ (by decide)]
  · rw [getField_setField_apart _ (by decide) (by decide),
      getField_setField_apart _ (by decide) (by decide),
      getField_setField_apart _ (by decide) (by decide),
      getField_setField_apart _ (by decide) (by decide),h]

/-- The stores into the first entry of the pointer table. -/
theorem opens_userPointerEntry (h : getField entry 63 1=0) (directory : ℕ) :
    Opens (userPointerEntry entry directory) := by
  unfold userPointerEntry
  refine ⟨?_,?_,?_⟩
  · rw [getField_setField_apart _ (by decide) (by decide),getField_setField_set _ (by decide)]
  · rw [getField_setField_set _ (by decide)]
  · rw [getField_setField_apart _ (by decide) (by decide),
      getField_setField_apart _ (by decide) (by decide),
      getField_setField_apart _ (by decide) (by decide),
      getField_setField_apart _ (by decide) (by decide),h]

/-- A narrow entry leads to the table it was given. -/
theorem userDirectoryEntry_leads (h : Narrow entry) {table : ℕ} (ha : table%4096=0)
    (hlt : table<2^40) :
    Present (userDirectoryEntry entry table) ∧ target (userDirectoryEntry entry table)=table := by
  unfold userDirectoryEntry
  have hnarrow : Narrow (setField (setField (setField (setField entry 0 1 1) 1 1 1) 2 1 1) 12 28
      (table >>> 12)) := by
    unfold Narrow
    rw [getField_setField_apart _ (by decide) (by decide),
      getField_setField_apart _ (by decide) (by decide),
      getField_setField_apart _ (by decide) (by decide),
      getField_setField_apart _ (by decide) (by decide)]
    exact h
  refine ⟨?_,?_⟩
  · rw [present_setField_apart _ (by decide),present_setField_apart _ (by decide),
      present_setField_apart _ (by decide)]
    exact present_setField_self entry
  · rw [← getPhysicalAddress_eq hnarrow,getPhysicalAddress,getField_setField_self _ (by decide),
      Nat.shiftRight_eq_div_pow,Nat.mod_eq_of_lt (by omega)]
    omega

/-- The rights of a page-table entry are those it was stored with. -/
theorem under_userTableEntry (entry : BitVec 64) (physicalAddress found : ℕ)
    (write execute : Bool) :
    Translation.under ⟨found,true,true,false⟩ (userTableEntry entry physicalAddress write execute)=
      ⟨found,true,write,!execute⟩ := by
  have hwrite : getField (userTableEntry entry physicalAddress write execute) 1 1=
      if write then 1 else 0 := by
    unfold userTableEntry
    rw [getField_setField_apart _ (by decide) (by decide),
      getField_setField_apart _ (by decide) (by decide),
      getField_setField_apart _ (by decide) (by decide),getField_setField_self _ (by decide)]
    cases write <;> rfl
  have hexecute : getField (userTableEntry entry physicalAddress write execute) 63 1=
      if execute then 0 else 1 := by
    unfold userTableEntry
    rw [getField_setField_apart _ (by decide) (by decide),
      getField_setField_apart _ (by decide) (by decide),getField_setField_self _ (by decide)]
    cases execute <;> rfl
  have huser : getField (userTableEntry entry physicalAddress write execute) 2 1=1 := by
    unfold userTableEntry
    rw [getField_setField_apart _ (by decide) (by decide),getField_setField_set _ (by decide)]
  rw [Translation.under,hwrite,hexecute,huser]
  cases write <;> cases execute <;> rfl

end Rights

section Mapping

variable {tables : ℕ→ℕ→Prop} {pdpt directory page physicalAddress : ℕ} {write execute : Bool}
  {manager after : MemoryManager}

/-- What a successful `map_user_page` did: the directory entry is there, if
need be after a page table was given to it, and the page-table entry of the
page was not present and has been stored. -/
theorem mapUserPage_stored (h : UserDirectory tables pdpt directory manager)
    (hmap : mapUserPage manager pdpt physicalAddress page write execute=some (.ok (),after)) :
    ∃ larger middle,Grown tables larger directory manager middle ∧ SameRest manager middle ∧
      (middle=manager ∨ ∃ frame,NextFree manager.bitmap frame ∧
        middle=(takeFrame manager frame).store directory (indexAt 1 page)
          (userDirectoryEntry (entryAt (takeFrame manager frame).memory directory
            (indexAt 1 page)) (frame*4096))) ∧
      Present (entryAt middle.memory directory (indexAt 1 page)) ∧
      ¬Present (entryAt middle.memory (target (entryAt middle.memory directory (indexAt 1 page)))
        (indexAt 0 page)) ∧
      after=middle.store (target (entryAt middle.memory directory (indexAt 1 page)))
        (indexAt 0 page) (userTableEntry (entryAt middle.memory
          (target (entryAt middle.memory directory (indexAt 1 page))) (indexAt 0 page))
          physicalAddress write execute) := by
  have hi := indexAt_lt 1 page
  have hfinish : ∀ {larger : ℕ → ℕ → Prop} {middle : MemoryManager},
      Grown tables larger directory manager middle →
      ensurePageTable userDirectoryEntry manager directory (indexAt 1 page)=(.ok (),middle) →
      ¬Present (entryAt middle.memory (target (entryAt middle.memory directory (indexAt 1 page)))
        (indexAt 0 page)) ∧
      after=middle.store (target (entryAt middle.memory directory (indexAt 1 page)))
        (indexAt 0 page) (userTableEntry (entryAt middle.memory
          (target (entryAt middle.memory directory (indexAt 1 page))) (indexAt 0 page))
          physicalAddress write execute) := by
    intro larger middle hg he
    simp only [mapUserPage,h.first_address,virtualAddressToPageDirectoryIndex_eq,
      virtualAddressToPageTableIndex_eq,he,getPhysicalAddress_eq (hg.tabled.narrow _ hi)] at hmap
    split at hmap
    · cases hmap
    · rename_i habsent
      exact ⟨habsent,(Prod.mk.inj (Option.some.inj hmap)).2.symm⟩
  have hb := h.tabled.backed
  rcases ensurePageTable_cases userDirectoryEntry hb.kernel hb.geometry directory (indexAt 1 page)
    with ⟨hp,he⟩|⟨hp,hnone,he⟩|⟨hp,frame,hf,hfree,he⟩
  · have hg := Grown.refl h.tabled
    exact ⟨tables,manager,hg,SameRest.refl manager,Or.inl rfl,hp,hfinish hg he⟩
  · simp only [mapUserPage,h.first_address,virtualAddressToPageDirectoryIndex_eq,he] at hmap
    cases hmap
  · obtain ⟨hg,hpresent⟩ := h.tabled.grown_install installs_user hi hf hp
    exact ⟨_,_,hg,(sameRest_takeFrame manager frame).trans (sameRest_store _ _ _ _),
      Or.inr ⟨frame,hf,rfl⟩,hpresent,hfinish hg he⟩

/-- Taking a frame changes no entry of the directory. -/
theorem granting_takeFrame {frame : ℕ} (h : Tabled tables directory manager)
    (hf : NextFree manager.bitmap frame) (hg : Granting manager.memory directory) :
    Granting (takeFrame manager frame).memory directory := by
  intro i hi
  rw [h.backed.entryAt_takeFrame hf h.shape.member hi]
  exact hg i hi

/-- An entry given a page table allows everything. -/
theorem granting_store {index pageTable : ℕ} (h : Tabled tables directory manager)
    (hindex : index<512) (hg : Granting manager.memory directory) :
    Granting (manager.store directory index
      (userDirectoryEntry (entryAt manager.memory directory index) pageTable)).memory
      directory := by
  intro i hi
  have halign := h.backed.system.aligned h.shape.member
  have hopens := opens_userDirectoryEntry (hg index hindex).1 pageTable
  generalize userDirectoryEntry (entryAt manager.memory directory index) pageTable=entry at hopens
  by_cases heq : i=index
  · have hself : entryAt (manager.store directory index entry).memory directory i=entry := by
      rw [heq]
      exact entryAt_setEntry_self manager.memory entry
    rw [hself]
    exact ⟨hopens.executable,fun _ => hopens⟩
  · have hother : entryAt (manager.store directory index entry).memory directory i=
        entryAt manager.memory directory i :=
      entryAt_setEntry_other manager.memory entry hindex hi halign halign (Or.inr heq)
    rw [hother]
    exact hg i hi

/-- A page that was mapped is found through the directory with the rights it
was mapped with. -/
theorem mapUserPage_translate (h : UserDirectory tables pdpt directory manager)
    (hgranting : Granting manager.memory directory) (ha : physicalAddress%4096=0)
    (hlt : physicalAddress<2^52) (hpage : page%4096=0)
    (hmap : mapUserPage manager pdpt physicalAddress page write execute=some (.ok (),after)) :
    ∃ larger,PageMapped tables larger directory manager after page physicalAddress ∧
      SameRest manager after ∧ Granting after.memory directory ∧
      translate after.memory 2 directory page=some ⟨physicalAddress,true,write,!execute⟩ := by
  obtain ⟨larger,middle,hg,hsame,hway,hpde,hpte,hafter⟩ := mapUserPage_stored h hmap
  have hentry := userTableEntry_maps (entryAt middle.memory
    (target (entryAt middle.memory directory (indexAt 1 page))) (indexAt 0 page)) write execute
    ha hlt
  have hrights := under_userTableEntry (entryAt middle.memory
    (target (entryAt middle.memory directory (indexAt 1 page))) (indexAt 0 page)) physicalAddress
    physicalAddress write execute
  generalize userTableEntry (entryAt middle.memory
    (target (entryAt middle.memory directory (indexAt 1 page))) (indexAt 0 page)) physicalAddress
    write execute=entry at hafter hentry hrights
  have hmapped := hg.tabled.mapped_store hpde hpte hentry.1 hentry.2
  rw [←hafter] at hmapped
  have hmiddle : Granting middle.memory directory := by
    rcases hway with rfl|⟨frame,hf,rfl⟩
    · exact hgranting
    · exact granting_store (h.tabled.takeFrame hf) (indexAt_lt 1 page)
        (granting_takeFrame h.tabled hf hgranting)
  have hkept : ∀ i<512,entryAt after.memory directory i=entryAt middle.memory directory i := by
    intro i hi
    rw [hafter]
    exact hg.tabled.entryAt_store entry hpde hg.tabled.shape.member le_rfl hi
  refine ⟨larger,hg.mapped hmapped,?_,?_,?_⟩
  · rw [hafter]
    exact hsame.trans (sameRest_store _ _ _ _)
  · intro i hi
    rw [hkept i hi]
    exact hmiddle i hi
  · have hdirectory := hkept _ (indexAt_lt 1 page)
    have hself : entryAt after.memory (target (entryAt middle.memory directory (indexAt 1 page)))
        (indexAt 0 page)=entry := by
      rw [hafter]
      exact entryAt_setEntry_self middle.memory entry
    have hopens := (hmiddle _ (indexAt_lt 1 page)).2 hpde
    have hdescends : Descends 1 (entryAt after.memory directory (indexAt 1 page)) := by
      refine ⟨?_,fun hl => hmapped.tabled.shape.small _ (indexAt_lt 1 page) hl.2⟩
      rw [hdirectory]
      exact hpde
    have hleaf : Descends 0 (entryAt after.memory
        (target (entryAt middle.memory directory (indexAt 1 page))) (indexAt 0 page)) := by
      rw [hself]
      exact ⟨hentry.1,fun hl => by simp at hl⟩
    rw [translate_descend hdescends,hdirectory,translate_descend hleaf,hself,translate,
      Option.map_some,Option.map_some,hopens.under,hentry.2,hpage,Nat.add_zero,hrights]

end Mapping

/-- A process being built: its directory hangs together, allows everything, and
translates every page mapped so far as it was asked for. -/
structure Installed (tables : ℕ→ℕ→Prop) (directory : ℕ) (state : UserState) : Prop where
  /-- The process directory. -/
  user : UserDirectory tables state.pdpt directory state.manager
  /-- The lower half of the root. -/
  rooted : Rooted tables state.manager
  /-- The first entry of the pointer table allows everything. -/
  pointer : Opens (entryAt state.manager.memory state.pdpt 0)
  /-- The pointer table fits the entry of the root. -/
  reach : state.pdpt<2^40
  /-- So do the entries of the page directory. -/
  granting : Granting state.manager.memory directory
  /-- The pages mapped so far. -/
  landed : ∀ call∈state.calls,call.virtualAddress<2^30 ∧
    translate state.manager.memory 2 directory call.virtualAddress=some call.translation

/-- What is installed, whatever the tables are. -/
def Ready (directory : ℕ) (state : UserState) : Prop := ∃ tables,Installed tables directory state

section Runs

variable {tables larger : ℕ→ℕ→Prop} {pdpt directory : ℕ} {state : UserState}
  {manager after : MemoryManager}

/-- The tables above the directory decide the lower half of the root. -/
theorem Rooted.after_below (h : Rooted tables manager) (hb : Backed larger after)
    (hsub : ∀ {level table : ℕ},tables level table → larger level table)
    (hroot : after.pml4=manager.pml4)
    (hupper : ∀ i<512,entryAt after.memory manager.pml4 i=entryAt manager.memory manager.pml4 i) :
    Rooted larger after := by
  refine ⟨hb,?_,?_,?_,?_⟩
  · rw [hroot]
    exact hsub h.root
  · rw [hroot,hupper 0 (by decide)]
    exact h.narrow
  · rw [hroot,hupper 0 (by decide)]
    exact h.executable
  · intro i hi hlt
    rw [hroot,hupper i (by omega)]
    exact h.lower i hi hlt

/-- A change below the pointer table that keeps present entries keeps what is
installed. -/
theorem Installed.onward (h : Installed tables directory state)
    (hon : UserDirectory larger state.pdpt directory after)
    (hsub : ∀ {level table : ℕ},tables level table → larger level table)
    (hkept : PresentKept state.manager.memory after.memory tables)
    (hupper : ∀ {level table i : ℕ},tables level table → 3≤level → i<512 →
      entryAt after.memory table i=entryAt state.manager.memory table i)
    (hsame : SameRest state.manager after) (hgranting : Granting after.memory directory) :
    Installed larger directory {state with manager := after} := by
  have hrooted := h.rooted.after_below hon.tabled.backed hsub hsame.root_eq
    (fun i hi => hupper h.rooted.root (by decide) hi)
  refine ⟨hon,hrooted,?_,h.reach,hgranting,?_⟩
  · have hentry := hupper h.user.root le_rfl (show 0<512 by decide)
    exact hentry.symm ▸ h.pointer
  · intro call hcall
    obtain ⟨hlow,htranslate⟩ := h.landed call hcall
    exact ⟨hlow,translate_kept h.user.tabled.backed.system.closed hkept
      (Or.inr h.user.tabled.shape.member) htranslate⟩

/-- Installing the directory makes entry 0 of the root lead to it and changes no
other entry of a table. -/
theorem Installed.set (h : Installed tables directory state) :
    (∀ i<512,i≠0 → entryAt (setUserDirectory state.manager state.pdpt).2.memory
      state.manager.pml4 i=entryAt state.manager.memory state.manager.pml4 i) ∧
    (∀ level table i,level≠4 → tables level table → i<512 →
      entryAt (setUserDirectory state.manager state.pdpt).2.memory table i=
        entryAt state.manager.memory table i) ∧
    ∃ entry,entryAt (setUserDirectory state.manager state.pdpt).2.memory
      state.manager.pml4 0=entry ∧ Present entry ∧ Opens entry ∧ target entry=state.pdpt := by
  have hsystem := h.user.tabled.backed.system
  have hroot := hsystem.aligned h.rooted.root
  have hopens := opens_userDirectoryEntry h.rooted.executable state.pdpt
  have hleads := userDirectoryEntry_leads h.rooted.narrow (hsystem.aligned h.user.root) h.reach
  have hset : (setUserDirectory state.manager state.pdpt).2.memory=
      setEntry state.manager.memory state.manager.pml4 0 (userDirectoryEntry
        (entryAt state.manager.memory state.manager.pml4 0) state.pdpt) := rfl
  rw [hset]
  refine ⟨fun i hi hne => entryAt_setEntry_other _ _ (by decide) hi hroot hroot (Or.inr hne),?_,
    _,entryAt_setEntry_self _ _,?_,hopens,?_⟩
  · intro level table i hl ht hi
    refine entryAt_setEntry_other _ _ (by decide) hi hroot (hsystem.aligned ht) (Or.inl ?_)
    rintro rfl
    exact hl (hsystem.unique ht h.rooted.root)
  · exact hleads.1
  · exact hleads.2

/-- Below one gibibyte the installed directory translates through its page
directory. -/
theorem Installed.installedWalk_low (h : Installed tables directory state) {address : ℕ}
    {result : Translation} (ha : address<2^30)
    (ht : translate state.manager.memory 2 directory address=some result) :
    installedWalk state address=some result := by
  obtain ⟨-,hkept,entry,hentry,hpresent,hopens,htarget⟩ := h.set
  have hsystem := h.user.tabled.backed.system
  have hthree : indexAt 3 address=0 := by
    unfold indexAt
    norm_num
    omega
  have htwo : indexAt 2 address=0 := by
    unfold indexAt
    norm_num
    omega
  -- only entry 0 of the root differs, and no walk from the directory reads the root
  have hclosed : Closed state.manager.memory (fun level table => level<4 ∧ tables level table) := by
    rintro level table index ⟨hl,hm⟩ hi hd
    exact (hsystem.closed level table index hm hi hd).imp_right (fun ht => ⟨by omega,ht⟩)
  have hbelow : translate (setUserDirectory state.manager state.pdpt).2.memory 2 directory address=
      some result := translate_kept hclosed (fun level table i hm hi _ =>
        hkept level table i (Nat.ne_of_lt hm.1) hm.2 hi) (Or.inr ⟨by decide,h.user.tabled.shape.member⟩) ht
  have hpointer := hkept 3 state.pdpt 0 (by decide) h.user.root (by decide)
  unfold installedWalk
  generalize (setUserDirectory state.manager state.pdpt).2.memory=memory at *
  have hroot : Descends 3 (entryAt memory state.manager.pml4 (indexAt 3 address)) := by
    rw [hthree,hentry]
    exact ⟨hpresent,fun hl => by simp at hl⟩
  have hfirst : Descends 2 (entryAt memory state.pdpt (indexAt 2 address)) := by
    rw [htwo,hpointer]
    exact h.user.first
  rw [translate_descend hroot,hthree,hentry,htarget,translate_descend hfirst,htwo,hpointer,
    h.user.first_eq,hbelow,Option.map_some,Option.map_some,h.pointer.under,hopens.under]

/-- From one gibibyte to the end of the lower half it translates nothing. -/
theorem Installed.installedWalk_high (h : Installed tables directory state) {address : ℕ}
    (hlow : 2^30≤address) (hhigh : address<2^47) : installedWalk state address=none := by
  obtain ⟨hother,hkept,entry,hentry,hpresent,-,htarget⟩ := h.set
  have hthree := indexAt_lt 3 address
  unfold installedWalk
  by_cases hzero : indexAt 3 address=0
  · have htwo : 1≤ indexAt 2 address := by
      unfold indexAt at hzero ⊢
      norm_num at hzero ⊢
      omega
    have hrest := h.user.rest _ htwo (indexAt_lt 2 address)
    rw [←hkept 3 state.pdpt _ (by decide) h.user.root (indexAt_lt 2 address)] at hrest
    generalize (setUserDirectory state.manager state.pdpt).2.memory=memory at *
    have hroot : Descends 3 (entryAt memory state.manager.pml4 (indexAt 3 address)) := by
      rw [hzero,hentry]
      exact ⟨hpresent,fun hl => by simp at hl⟩
    rw [translate_descend hroot,hzero,hentry,htarget,translate_absent hrest,Option.map_none]
  · have hbound : indexAt 3 address<256 := by
      unfold indexAt
      norm_num
      omega
    have habsent := h.rooted.lower _ (Nat.one_le_iff_ne_zero.mpr hzero) hbound
    rw [←hother _ hthree hzero] at habsent
    exact translate_absent habsent

/-- Before any page is mapped, the process directory that was created is
installed in this sense. -/
theorem installed_created (h : Rooted tables manager)
    (hok : createUserModeDirectory manager=(.ok pdpt,after)) :
    ∃ larger directory,Installed larger directory ⟨after,pdpt,[]⟩ := by
  obtain ⟨larger,directory,huser,hempty,hfirst,hlt,hsame,hsub,hkept,-⟩ :=
    createUserModeDirectory_made h.backed hok
  refine ⟨larger,directory,huser,?_,?_,hlt,?_,fun _ hm => absurd hm List.not_mem_nil⟩
  · exact h.after_below huser.tabled.backed hsub hsame.root_eq (fun i hi => hkept h.root hi)
  · exact hfirst.symm ▸ opens_userPointerEntry (getField_zero (by decide)) directory
  · intro i hi
    have hzero := hempty i hi
    refine ⟨?_,fun hp => ?_⟩
    · exact hzero.symm ▸ getField_zero (by decide)
    · rw [hzero] at hp
      exact absurd hp not_present_zero

/-- Pages below one gibibyte are found as they were asked for. -/
theorem Installed.landed_all (h : Installed tables directory state) : Landed state := by
  intro call hcall
  obtain ⟨hlow,htranslate⟩ := h.landed call hcall
  exact h.installedWalk_low hlow htranslate

/-- A frame taken between two calls keeps what is installed. -/
theorem Installed.allocate (h : Installed tables directory state) :
    Installed tables directory {state with manager := (allocateFrame state.manager).2} := by
  have hb := h.user.tabled.backed
  rcases allocateFrame_cases hb.kernel hb.geometry with ⟨he,-⟩|⟨frame,hf,-,he⟩
  · rw [he]
    exact h
  · rw [he]
    have hg := h.user.tabled.grown_takeFrame hf
    exact h.onward (h.user.onward_grown hg).user hg.subset hg.kept hg.upper
      (sameRest_takeFrame _ _) (granting_takeFrame h.user.tabled hf h.granting)

/-- A successful call keeps what is installed, and its page is found through
the page directory. -/
theorem Installed.mapUserPage (h : Installed tables directory state) {call : Call}
    (hs : Successful state (.mapUserPage call)) :
    ∃ larger after,userStep state (.mapUserPage call)=
        some {state with manager := after,calls := call::state.calls} ∧
      Installed larger directory {state with manager := after} ∧
      translate after.memory 2 directory call.virtualAddress=some call.translation := by
  obtain ⟨ha,hlt,hpage,-,hmaps⟩ := hs
  unfold userStep at hmaps ⊢
  dsimp only at hmaps ⊢
  split at hmaps
  · rename_i after hmap
    obtain ⟨larger,hmapped,hsame,hgranting,htranslate⟩ :=
      mapUserPage_translate h.user h.granting ha hlt hpage hmap
    exact ⟨larger,after,rfl,h.onward (h.user.onward_mapped hmapped).user hmapped.subset
      hmapped.kept hmapped.upper hsame hgranting,htranslate⟩
  · cases hmaps
  · cases hmaps

/-- A step that maps no page from one gibibyte on keeps what is installed and
what has landed. -/
theorem Installed.step (h : Installed tables directory state) {action : UserAction}
    (hs : Successful state action) (hlow : Low state action) :
    ∃ next,userStep state action=some next ∧ Ready directory next := by
  cases action with
  | allocatePhysicalPage => exact ⟨_,rfl,tables,h.allocate⟩
  | mapUserPage call =>
    obtain ⟨larger,after,hstep,hon,htranslate⟩ := h.mapUserPage hs
    exact ⟨_,hstep,larger,hon.user,hon.rooted,hon.pointer,hon.reach,hon.granting,
      List.forall_mem_cons.mpr ⟨⟨hlow,htranslate⟩,hon.landed⟩⟩

/-- A page from one gibibyte on is not found. -/
theorem Installed.step_high (h : Installed tables directory state) {action : UserAction}
    (hs : Successful state action) (hlow : ¬Low state action) {next : UserState}
    (hstep : userStep state action=some next) : ¬Landed next := by
  cases action with
  | allocatePhysicalPage => exact absurd trivial hlow
  | mapUserPage call =>
    intro hlanded
    obtain ⟨larger,after,hmap,hon,-⟩ := h.mapUserPage hs
    rw [hmap,Option.some.injEq] at hstep
    subst hstep
    have hfound := hlanded call List.mem_cons_self
    have hnone : installedWalk {state with manager := after} call.virtualAddress=none :=
      hon.installedWalk_high (Nat.not_lt.mp hlow) hs.2.2.2.1
    cases hfound.symm.trans hnone

/-- Every page mapped in a fresh process directory is found by the hardware,
from its call on, at its frame and with its rights, exactly when every page is
below one gibibyte. -/
theorem landed_iff_low (h : Rooted tables manager)
    (hok : createUserModeDirectory manager=(.ok pdpt,after)) {actions : List UserAction}
    (hl : Each userStep Successful ⟨after,pdpt,[]⟩ actions) :
    Always userStep Landed ⟨after,pdpt,[]⟩ actions ↔
      Each userStep Low ⟨after,pdpt,[]⟩ actions := by
  obtain ⟨larger,directory,hinstalled⟩ := installed_created h hok
  have hready : Ready directory ⟨after,pdpt,[]⟩ := ⟨larger,hinstalled⟩
  refine always_iff_each ?_ ?_ ?_ hready hl
  · rintro state ⟨tables,hi⟩
    exact hi.landed_all
  · rintro state action ⟨tables,hi⟩ hs hlow
    exact hi.step hs hlow
  · rintro state action ⟨tables,hi⟩ hs hlow next hstep
    exact hi.step_high hs hlow hstep

end Runs

/-- The memory manager after `create_user_mode_directory`. -/
def sampleProcess : MemoryManager := (createUserModeDirectory KernelHeap.sampleManager).2

/-- The root of the sample leads to the kernel only. -/
theorem sampleManager_rooted : ∃ tables,Rooted tables KernelHeap.sampleManager := by
  obtain ⟨tables,hw⟩ := KernelHeap.sampleManager_afterInit.wired
  have hempty : ∀ i<256,entryAt KernelHeap.sampleMemory 0x10000 i=0#64 := by
    intro i hi
    rw [KernelHeap.entryAt_sampleMemory (by decide) (by omega),if_neg (by omega),
      if_neg (by omega)]
  have hzero := hempty 0 (by decide)
  refine ⟨tables,hw.tabled.backed,hw.root,?_,?_,?_⟩
  · exact hzero.symm ▸ getField_zero (by decide)
  · exact hzero.symm ▸ getField_zero (by decide)
  · intro i _ hi
    exact (hempty i hi).symm ▸ not_present_zero

/-- The sample gets its directory at the first free frame. -/
theorem sampleProcess_created :
    createUserModeDirectory KernelHeap.sampleManager=(.ok 0x100000,sampleProcess) :=
  Prod.ext (by decide +kernel) rfl

/-- Two neighbouring pages with different rights. -/
def samplePages : List UserAction :=
  [.allocatePhysicalPage,.mapUserPage ⟨0x102000,0x400000,true,false⟩,.allocatePhysicalPage,
    .mapUserPage ⟨0x104000,0x401000,false,true⟩]

/-- Both pages are found. -/
theorem samplePages_landed :
    Each userStep Successful ⟨sampleProcess,0x100000,[]⟩ samplePages ∧
      Always userStep Landed ⟨sampleProcess,0x100000,[]⟩ samplePages := by
  obtain ⟨tables,hrooted⟩ := sampleManager_rooted
  have hs : Each userStep Successful ⟨sampleProcess,0x100000,[]⟩ samplePages := by
    decide +kernel
  have hlow : Each userStep Low ⟨sampleProcess,0x100000,[]⟩ samplePages := by
    decide +kernel
  exact ⟨hs,(landed_iff_low hrooted sampleProcess_created hs).mpr hlow⟩

/-- A page at one gibibyte is accepted and not found. -/
theorem page_at_1GiB_not_landed :
    ¬∀ (tables : ℕ → ℕ → Prop) (manager after : MemoryManager) (pdpt : ℕ)
      (actions : List UserAction),Rooted tables manager →
      createUserModeDirectory manager=(.ok pdpt,after) →
      Each userStep Successful ⟨after,pdpt,[]⟩ actions →
      Always userStep Landed ⟨after,pdpt,[]⟩ actions := by
  intro h
  obtain ⟨tables,hrooted⟩ := sampleManager_rooted
  have hlanded := h tables _ _ _
    [.allocatePhysicalPage,.mapUserPage ⟨0x102000,0x40000000,true,true⟩] hrooted
    sampleProcess_created (by decide +kernel)
  obtain ⟨last,hlast,hall⟩ := hlanded.final
  have hlost : (run userStep ⟨sampleProcess,0x100000,[]⟩
      [.allocatePhysicalPage,.mapUserPage ⟨0x102000,0x40000000,true,true⟩]).map
        (fun state => decide (Landed state))=some false := by decide +kernel
  rw [hlast,Option.map_some,Option.some.injEq,decide_eq_false_iff_not] at hlost
  exact hlost hall

end WorkbenchOS.UserMappings
