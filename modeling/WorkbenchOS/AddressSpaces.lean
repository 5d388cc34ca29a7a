import WorkbenchOS.FrameOwnership
import WorkbenchOS.KernelUnmapping
import WorkbenchOS.UserMappings

/-!
# Address spaces under one frame allocator

The kernel page directory and the page directories of the processes draw
their page tables and the frames of their pages from one bitmap. Every entry
of a page table under one of the directories is a slot of the ownership model:
it leads to a frame, a frame is used when the bitmap will not hand it out, and
it is reserved when it holds a table. Taking a frame, installing a page table
and storing a page-table entry are the changes of that model.
-/

namespace WorkbenchOS.AddressSpaces

open ByteMemory LibStd WordBitmaps FrameBitmap FrameOperations FrameRuns PhysicalMemory PageTables
open MemoryManagement PageMapping UserPages FrameOwnership

/-- The frame a page of a directory is mapped to. -/
def slotFrame (memory : Memory) (directory i j : ℕ) : Option ℕ :=
  if Present (entryAt memory directory i) ∧
      Present (entryAt memory (target (entryAt memory directory i)) j) then
    some (getField (entryAt memory (target (entryAt memory directory i)) j) 12 40)
  else none

/-- A page-table entry of an address space. -/
structure Slot (ι : Type) where
  /-- The address space. -/
  space : ι
  /-- The entry of its page directory. -/
  directoryIndex : ℕ
  /-- The entry of the page table there. -/
  tableIndex : ℕ
  deriving DecidableEq

/-- The slot of an address. -/
def slotOf {ι : Type} (space : ι) (address : ℕ) : Slot ι :=
  ⟨space,indexAt 1 address,indexAt 0 address⟩

/-- Who leads to which frame, and what the bitmap and the tables say about
it. -/
def ownership {ι : Type} (tables : ℕ→ℕ→Prop) (live : ι→Prop) (directory : ι→ℕ)
    (manager : MemoryManager) : Ownership (Slot ι) ℕ where
  leads slot frame := live slot.space ∧ slot.directoryIndex<512 ∧ slot.tableIndex<512 ∧
    slotFrame manager.memory (directory slot.space) slot.directoryIndex slot.tableIndex=some frame
  managed frame := frame<frames manager.bitmap
  used frame := frame<frames manager.bitmap → bitAt manager.bitmap.storage frame=true
  reserved frame := ∃ level,tables level (frame*4096)

/-- Page directories that share neither themselves nor a page table. -/
structure Spaces {ι : Type} (tables : ℕ→ℕ→Prop) (live : ι→Prop) (directory : ι→ℕ)
    (manager : MemoryManager) : Prop where
  /-- The memory manager works on every one of them. -/
  tabled : ∀ {space : ι},live space → Tabled tables (directory space) manager
  /-- Two spaces have two directories. -/
  roots : ∀ {first second : ι},live first → live second → directory first=directory second →
    first=second
  /-- Their directories lead to different page tables. -/
  apart : ∀ {first second : ι} {i j : ℕ},live first → live second → i<512 → j<512 →
    Present (entryAt manager.memory (directory first) i) →
    Present (entryAt manager.memory (directory second) j) →
    target (entryAt manager.memory (directory first) i)=
      target (entryAt manager.memory (directory second) j) → first=second

/-- The heap goes on at a page of the gibibyte behind its base: the kernel page
directory does not look at more bits of an address. -/
structure Windowed (space : VirtualAddressSpace) : Prop where
  /-- At a page. -/
  aligned : space.nextAddress%4096=0
  /-- Behind its base. -/
  base_le : space.baseAddress≤ space.nextAddress
  /-- No further than a gibibyte. -/
  next_le : space.nextAddress≤ space.baseAddress+2^30
  /-- Which ends in the address space. -/
  end_lt : space.baseAddress+2^30<2^64

/-- The heap goes on from the same base, and stays in its gibibyte. -/
structure MovesOn (before after : VirtualAddressSpace) : Prop where
  /-- The base. -/
  base_eq : after.baseAddress=before.baseAddress
  /-- Addresses are not taken back. -/
  later : before.nextAddress≤after.nextAddress
  /-- The gibibyte. -/
  windowed : Windowed before → Windowed after

theorem MovesOn.of_eq {before after : VirtualAddressSpace} (h : after=before) :
    MovesOn before after := by
  subst h
  exact ⟨rfl,Nat.le_refl _,id⟩

theorem MovesOn.trans {first second third : VirtualAddressSpace} (h : MovesOn first second)
    (k : MovesOn second third) : MovesOn first third :=
  ⟨k.base_eq.trans h.base_eq,h.later.trans k.later,fun hw => k.windowed (h.windowed hw)⟩

/-- From one state of the address spaces to a later one. -/
structure Extends {ι : Type} (tables larger : ℕ→ℕ→Prop) (live : ι→Prop) (directory : ι→ℕ)
    (before after : MemoryManager) : Prop where
  /-- They are address spaces again. -/
  spaces : Spaces larger live directory after
  /-- No table was given up. -/
  subset : ∀ {level table : ℕ},tables level table → larger level table
  /-- Tables above the directories are as they were. -/
  upper : ∀ {level table i : ℕ},tables level table → 3≤level → i<512 →
    entryAt after.memory table i=entryAt before.memory table i
  /-- The manager works on the same kernel page directory. -/
  directory_eq : after.kernelPageDirectory=before.kernelPageDirectory
  /-- And on the same root. -/
  root_eq : after.pml4=before.pml4
  /-- The addresses of the kernel heap move on. -/
  heap : MovesOn before.heapSpace after.heapSpace

/-- Frames in use that hold no table keep their bytes. -/
def Untouched {ι : Type} (tables : ℕ→ℕ→Prop) (live : ι→Prop) (directory : ι→ℕ)
    (before after : MemoryManager) : Prop :=
  ∀ {frame : ℕ},(ownership tables live directory before).used frame →
    ¬(ownership tables live directory before).reserved frame →
    Unchanged before.memory after.memory (frame*4096) 4096

/-- A later state in which no frame was given back. -/
structure Advances {ι : Type} (tables larger : ℕ→ℕ→Prop) (live : ι→Prop) (directory : ι→ℕ)
    (before after : MemoryManager) : Prop extends
    Extends tables larger live directory before after where
  /-- A frame in use that is no table stays so. -/
  marked : ∀ {frame : ℕ},(ownership tables live directory before).used frame →
    ¬(ownership tables live directory before).reserved frame →
    (ownership larger live directory after).used frame ∧
      ¬(ownership larger live directory after).reserved frame
  /-- Its bytes are as they were. -/
  untouched : Untouched tables live directory before after

section Slots

variable {memory after : Memory} {tables : ℕ→ℕ→Prop} {directory i j : ℕ}

/-- The walk from a directory finds the frame of the slot. -/
theorem walk_slot (h : Directory memory tables directory) (address : ℕ) :
    walkFrom memory 2 directory address=
      (slotFrame memory directory (indexAt 1 address) (indexAt 0 address)).map
        (fun frame => frame*4096+address%4096) := by
  rw [h.walk_eq,slotFrame]
  by_cases hd : Present (entryAt memory directory (indexAt 1 address))
  · by_cases hp : Present (entryAt memory (target (entryAt memory directory (indexAt 1 address)))
        (indexAt 0 address))
    · rw [if_pos hd,if_pos hp,if_pos ⟨hd,hp⟩]
      rfl
    · rw [if_pos hd,if_neg hp,if_neg (fun h => hp h.2)]
      rfl
  · rw [if_neg hd,if_neg (fun h => hd h.1)]
    rfl

/-- A slot depends on two entries. -/
theorem slotFrame_congr (hd : entryAt after directory i=entryAt memory directory i)
    (hp : Present (entryAt memory directory i) →
      entryAt after (target (entryAt memory directory i)) j=
        entryAt memory (target (entryAt memory directory i)) j) :
    slotFrame after directory i j=slotFrame memory directory i j := by
  unfold slotFrame
  rw [hd]
  by_cases hpresent : Present (entryAt memory directory i)
  · rw [hp hpresent]
  · rw [if_neg (fun h => hpresent h.1),if_neg (fun h => hpresent h.1)]

/-- Behind an entry that is not present there is nothing. -/
theorem slotFrame_absent (h : ¬Present (entryAt memory directory i)) :
    slotFrame memory directory i j=none := if_neg (fun hp => h hp.1)

/-- Behind an entry that is present the page-table entry decides. -/
theorem slotFrame_present (h : Present (entryAt memory directory i)) :
    slotFrame memory directory i j=
      if Present (entryAt memory (target (entryAt memory directory i)) j) then
        some (getField (entryAt memory (target (entryAt memory directory i)) j) 12 40)
      else none := by
  unfold slotFrame
  by_cases hp : Present (entryAt memory (target (entryAt memory directory i)) j)
  · rw [if_pos ⟨h,hp⟩,if_pos hp]
  · rw [if_neg (fun hb => hp hb.2),if_neg hp]

end Slots

section Primitives

variable {ι : Type} {tables larger : ℕ→ℕ→Prop} {live : ι→Prop} {directory : ι→ℕ}
  {manager after : MemoryManager} {space : ι} {frame i j : ℕ}

theorem Advances.refl (h : Spaces tables live directory manager) :
    Advances tables tables live directory manager manager :=
  ⟨⟨h,id,fun _ _ _ => rfl,rfl,rfl,.of_eq rfl⟩,fun hu hr => ⟨hu,hr⟩,fun _ _ _ _ _ => rfl⟩

theorem Extends.trans {largest : ℕ→ℕ→Prop} {middle : MemoryManager}
    (h : Extends tables larger live directory manager middle)
    (k : Extends larger largest live directory middle after) :
    Extends tables largest live directory manager after :=
  ⟨k.spaces,fun ht => k.subset (h.subset ht),
    fun ht hl hi => (k.upper (h.subset ht) hl hi).trans (h.upper ht hl hi),
    k.directory_eq.trans h.directory_eq,k.root_eq.trans h.root_eq,
    h.heap.trans k.heap⟩

theorem Advances.trans {largest : ℕ→ℕ→Prop} {middle : MemoryManager}
    (h : Advances tables larger live directory manager middle)
    (k : Advances larger largest live directory middle after) :
    Advances tables largest live directory manager after := by
  refine ⟨h.toExtends.trans k.toExtends,?_,?_⟩
  · intro frame hu hr
    obtain ⟨hu',hr'⟩ := h.marked hu hr
    exact k.marked hu' hr'
  · intro frame hu hr x hx hlt
    obtain ⟨hu',hr'⟩ := h.marked hu hr
    exact (k.untouched hu' hr' x hx hlt).trans (h.untouched hu hr x hx hlt)

/-- The directory entry of a live space leads to a page table. -/
theorem Spaces.table (h : Spaces tables live directory manager) (hs : live space) (hi : i<512)
    (hp : Present (entryAt manager.memory (directory space) i)) :
    tables 1 (target (entryAt manager.memory (directory space) i)) :=
  (h.tabled hs).shape.table_of_present (h.tabled hs).backed.system hi hp

/-- When no entry of a directory changes, the spaces are as they were. -/
theorem Spaces.congr (h : Spaces tables live directory manager) (hb : Backed larger after)
    (hsub : ∀ {level table : ℕ},tables level table → larger level table)
    (he : ∀ {s : ι} {k : ℕ},live s → k<512 →
      entryAt after.memory (directory s) k=entryAt manager.memory (directory s) k) :
    Spaces larger live directory after := by
  refine ⟨?_,h.roots,?_⟩
  · intro s hs
    have htabled := h.tabled hs
    have hshape := htabled.shape.congr (fun k hk => he hs hk)
    refine ⟨hb,⟨hsub hshape.member,hshape.small,hshape.distinct⟩,fun k hk => ?_⟩
    rw [he hs hk]
    exact htabled.narrow k hk
  · intro s t k l hs ht hk hl hpk hpl heq
    rw [he hs hk] at hpk heq
    rw [he ht hl] at hpl heq
    exact h.apart hs ht hk hl hpk hpl heq

/-- The frame that is taken next is not in use and no table. -/
theorem Spaces.next (h : Spaces tables live directory manager) (hs : live space)
    (hf : NextFree manager.bitmap frame) :
    ¬(ownership tables live directory manager).used frame ∧
      ¬(ownership tables live directory manager).reserved frame := by
  refine ⟨?_,?_⟩
  · intro hu
    have hset := hu hf.tracked
    rw [hf.clear] at hset
    cases hset
  · rintro ⟨level,ht⟩
    exact (h.tabled hs).backed.taken hf.tracked hf.clear ht

/-- Frames that are marked after one more was. -/
theorem used_markFrame {bitmap : Bitmap} {found : ℕ}
    (h : found<frames bitmap → bitAt bitmap.storage found=true)
    (hf : found<frames (markFrame bitmap frame)) :
    bitAt (markFrame bitmap frame).storage found=true := by
  rw [(sameShape_markFrame bitmap frame).frames_eq] at hf
  rw [bitAt_markFrame,h hf,Bool.true_or]

/-- Taking a frame puts it to use, whatever the spaces lead to. -/
theorem Spaces.takeFrame (h : Spaces tables live directory manager) (hs : live space)
    (hf : NextFree manager.bitmap frame) :
    Advances tables tables live directory manager (PageMapping.takeFrame manager frame) ∧
      Grows (ownership tables live directory manager)
        (ownership tables live directory (PageMapping.takeFrame manager frame)) := by
  have hb := (h.tabled hs).backed
  have he : ∀ {level table k : ℕ},tables level table → k<512 →
      entryAt (PageMapping.takeFrame manager frame).memory table k=entryAt manager.memory table k :=
    fun ht hk => hb.entryAt_takeFrame hf ht hk
  have hspaces := h.congr (hb.takeFrame hf) id
    (fun {s k} hs' hk => he (h.tabled hs').shape.member hk)
  have hnot := (h.next hs hf).1
  have hused : ∀ {found : ℕ},(ownership tables live directory manager).used found →
      (ownership tables live directory (PageMapping.takeFrame manager frame)).used found :=
    fun hu hlt => used_markFrame hu hlt
  have hmanaged : ∀ {found : ℕ},(ownership tables live directory manager).managed found →
      (ownership tables live directory (PageMapping.takeFrame manager frame)).managed found :=
    fun hm => lt_of_lt_of_eq hm (sameShape_markFrame manager.bitmap frame).frames_eq.symm
  have hsame := sameRest_takeFrame manager frame
  refine ⟨⟨⟨hspaces,id,fun ht _ hk => he ht hk,hsame.directory_eq,hsame.root_eq,
    .of_eq hsame.heapSpace_eq⟩,fun hu hr => ⟨hused hu,hr⟩,?_⟩,
    ⟨?_,hmanaged,hused,Or.inl⟩⟩
  · intro found hu _ x hx hlt
    have hne : found≠frame := by
      rintro rfl
      exact hnot hu
    exact fill_outside manager.memory 0 (by unfold tableSize; omega)
  · intro slot found
    refine and_congr_right (fun hl => and_congr_right (fun hk => and_congr_right (fun hj => ?_)))
    rw [slotFrame_congr (he (h.tabled hl).shape.member hk)
      (fun hp => he (h.table hl hk hp) hj)]

/-- A store into a table changes no other frame. -/
theorem Spaces.store_untouched (h : Spaces tables live directory manager) (hs : live space)
    {level table index : ℕ} (ht : tables level table) (hi : index<512) (entry : BitVec 64)
    {found : ℕ} (hr : ¬(ownership tables live directory manager).reserved found) :
    Unchanged manager.memory (manager.store table index entry).memory (found*4096) 4096 := by
  have halign := (h.tabled hs).backed.system.aligned ht
  have hne : found*4096≠table := by
    rintro rfl
    exact hr ⟨level,ht⟩
  have hapart : Apart (found*4096) 4096 (table+8*index) 8 := by
    unfold tableSize at halign
    unfold Apart
    omega
  exact writeLE_unchanged manager.memory hapart

/-- Installing the frame taken next as a page table leads no slot anywhere
else. -/
theorem Spaces.install (h : Spaces tables live directory manager) (hs : live space)
    {stores : BitVec 64→ℕ→BitVec 64} (hstores : Installs stores) (hi : i<512)
    (hf : NextFree manager.bitmap frame)
    (habsent : ¬Present (entryAt manager.memory (directory space) i)) :
    Advances tables (withTable tables 1 (frame*4096)) live directory manager
        ((PageMapping.takeFrame manager frame).store (directory space) i
          (stores (entryAt (PageMapping.takeFrame manager frame).memory (directory space) i)
            (frame*4096))) ∧
      Grows (ownership tables live directory manager)
        (ownership (withTable tables 1 (frame*4096)) live directory
          ((PageMapping.takeFrame manager frame).store (directory space) i
            (stores (entryAt (PageMapping.takeFrame manager frame).memory (directory space) i)
              (frame*4096)))) := by
  obtain ⟨htaken,hgrows⟩ := h.takeFrame hs hf
  obtain ⟨hnot,hfresh⟩ := h.next hs hf
  have htabled := h.tabled hs
  have hb := htabled.backed
  have hmiddle := htaken.spaces.tabled hs
  obtain ⟨hgrown,-⟩ := htabled.grown_install hstores hi hf habsent
  have hreach := hb.reach
  have htracked := hf.tracked
  obtain ⟨hpresent,-,-,htarget⟩ := hstores _ (frame*4096) (hmiddle.shape.small i hi)
    (hmiddle.narrow i hi) (Nat.mul_mod_left _ _) (by omega)
  have hsame := (sameRest_takeFrame manager frame).trans (sameRest_store
    (PageMapping.takeFrame manager frame) (directory space) i
    (stores (entryAt (PageMapping.takeFrame manager frame).memory (directory space) i) (frame*4096)))
  have huntouched : ∀ {found : ℕ},¬(ownership tables live directory manager).reserved found →
      Unchanged (PageMapping.takeFrame manager frame).memory
        ((PageMapping.takeFrame manager frame).store (directory space) i
          (stores (entryAt (PageMapping.takeFrame manager frame).memory (directory space) i)
            (frame*4096))).memory (found*4096) 4096 :=
    fun hr => htaken.spaces.store_untouched hs htabled.shape.member hi _ hr
  generalize stores (entryAt (PageMapping.takeFrame manager frame).memory (directory space) i)
    (frame*4096)=entry at *
  have hdirectory := hb.system.aligned htabled.shape.member
  -- only one entry of one directory differs from what it was
  have hother : ∀ {level table k : ℕ},tables level table → k<512 →
      (table≠directory space ∨ k≠i) →
      entryAt ((PageMapping.takeFrame manager frame).store (directory space) i entry).memory table k=
        entryAt manager.memory table k := by
    intro level table k ht hk hne
    exact (entryAt_setEntry_other _ entry hi hk hdirectory (hb.system.aligned ht) hne).trans
      (hb.entryAt_takeFrame hf ht hk)
  have hself : entryAt ((PageMapping.takeFrame manager frame).store (directory space) i
      entry).memory (directory space) i=entry := entryAt_setEntry_self _ _
  have hold : ∀ {s : ι} {k : ℕ},live s → k<512 → ¬(s=space ∧ k=i) →
      entryAt ((PageMapping.takeFrame manager frame).store (directory space) i entry).memory
        (directory s) k=entryAt manager.memory (directory s) k := by
    intro s k hs' hk hne
    refine hother (h.tabled hs').shape.member hk ?_
    by_cases hk' : k=i
    · exact Or.inl (fun heq => hne ⟨h.roots hs' hs heq,hk'⟩)
    · exact Or.inr hk'
  have htables : ∀ {s : ι} {k : ℕ},live s → k<512 →
      Present (entryAt manager.memory (directory s) k) →
      target (entryAt manager.memory (directory s) k)≠directory space ∧
        target (entryAt manager.memory (directory s) k)≠frame*4096 := by
    intro s k hs' hk hp
    have ht := h.table hs' hk hp
    refine ⟨?_,?_⟩
    · intro heq
      rw [heq] at ht
      cases hb.system.unique ht htabled.shape.member
    · intro heq
      exact hfresh ⟨1,heq ▸ ht⟩
  have hspaces : Spaces (withTable tables 1 (frame*4096)) live directory
      ((PageMapping.takeFrame manager frame).store (directory space) i entry) := by
    refine ⟨?_,h.roots,?_⟩
    · intro s hs'
      by_cases heq : s=space
      · rw [heq]
        exact hgrown.tabled
      · have hshape := (h.tabled hs').shape.congr (fun k hk => hold hs' hk (fun hb => heq hb.1))
        refine ⟨hgrown.tabled.backed,⟨Or.inl hshape.member,hshape.small,hshape.distinct⟩,?_⟩
        intro k hk
        rw [hold hs' hk (fun hb => heq hb.1)]
        exact (h.tabled hs').narrow k hk
    · intro s t k l hs' ht' hk hl hpk hpl heq
      by_cases hsi : s=space ∧ k=i
      · by_cases hti : t=space ∧ l=i
        · rw [hsi.1,hti.1]
        · rw [hold ht' hl hti] at hpl heq
          rw [hsi.1,hsi.2,hself,htarget] at heq
          exact absurd heq.symm (htables ht' hl hpl).2
      · rw [hold hs' hk hsi] at hpk heq
        by_cases hti : t=space ∧ l=i
        · rw [hti.1,hti.2,hself,htarget] at heq
          exact absurd heq (htables hs' hk hpk).2
        · rw [hold ht' hl hti] at hpl heq
          exact h.apart hs' ht' hk hl hpk hpl heq
  have hgrows' : Grows (ownership tables live directory manager)
      (ownership (withTable tables 1 (frame*4096)) live directory
        ((PageMapping.takeFrame manager frame).store (directory space) i entry)) := by
    refine ⟨?_,hgrows.managed,hgrows.used,?_⟩
    · intro slot found
      refine and_congr_right (fun hl => and_congr_right (fun hk => and_congr_right (fun hj => ?_)))
      by_cases hsi : slot.space=space ∧ slot.directoryIndex=i
      · have hempty : ¬Present (entryAt ((PageMapping.takeFrame manager frame).store
            (directory space) i entry).memory (frame*4096) slot.tableIndex) := by
          have hne : frame*4096≠directory space := by
            intro heq
            exact hfresh ⟨2,heq ▸ htabled.shape.member⟩
          have hzero : entryAt ((PageMapping.takeFrame manager frame).store
              (directory space) i entry).memory (frame*4096) slot.tableIndex=0#64 :=
            (entryAt_setEntry_other _ entry hi hj hdirectory (Nat.mul_mod_left _ _)
              (Or.inl hne)).trans (takeFrame_empty manager frame hj)
          rw [hzero]
          exact not_present_zero
        rw [hsi.1,hsi.2,slotFrame_absent habsent,slotFrame_present (hself.symm ▸ hpresent),hself,
          htarget,if_neg hempty]
      · rw [slotFrame_congr (hold hl hk hsi) (fun hp => hother (h.table hl hk hp) hj
          (Or.inl (htables hl hk hp).1))]
    · rintro found ⟨level,ht|⟨-,heq⟩⟩
      · exact Or.inl ⟨level,ht⟩
      · have hframe : found=frame := Nat.eq_of_mul_eq_mul_right (by decide) heq
        exact Or.inr (hframe ▸ hnot)
  refine ⟨⟨⟨hspaces,Or.inl,?_,hsame.directory_eq,hsame.root_eq,
    .of_eq hsame.heapSpace_eq⟩,
    fun hu hr => ⟨hgrows'.used hu,hgrows'.unreserved hu hr⟩,?_⟩,hgrows'⟩
  · intro level table k ht hl hk
    refine hother ht hk (Or.inl ?_)
    rintro rfl
    have hlevel := hb.system.unique ht htabled.shape.member
    omega
  · intro found hu hr x hx hlt
    exact (huntouched hr x hx hlt).trans (htaken.untouched hu hr x hx hlt)

/-- Preparing a directory entry of a space, as both mapping functions do. -/
theorem Spaces.ensure (h : Spaces tables live directory manager) (hs : live space)
    {stores : BitVec 64→ℕ→BitVec 64} (hstores : Installs stores) (hi : i<512) :
    ensurePageTable stores manager (directory space) i=(.error .allocatorError,manager) ∨
    ∃ larger after,ensurePageTable stores manager (directory space) i=(.ok (),after) ∧
      Advances tables larger live directory manager after ∧
      Grows (ownership tables live directory manager) (ownership larger live directory after) ∧
      SameRest manager after ∧ Present (entryAt after.memory (directory space) i) := by
  have hb := (h.tabled hs).backed
  rcases ensurePageTable_cases stores hb.kernel hb.geometry (directory space) i with
    ⟨hp,he⟩|⟨-,-,he⟩|⟨hp,frame,hf,-,he⟩
  · exact Or.inr ⟨tables,manager,he,Advances.refl h,Grows.refl _,SameRest.refl manager,hp⟩
  · exact Or.inl he
  · obtain ⟨hadvances,hgrows⟩ := h.install hs hstores hi hf hp
    obtain ⟨-,hpresent⟩ := (h.tabled hs).grown_install hstores hi hf hp
    exact Or.inr ⟨_,_,he,hadvances,hgrows,(sameRest_takeFrame manager frame).trans
      (sameRest_store _ _ _ _),hpresent⟩

/-- Storing a page-table entry changes the one slot it belongs to. -/
theorem Spaces.store (h : Spaces tables live directory manager) (hs : live space) (hi : i<512)
    (hj : j<512) (hp : Present (entryAt manager.memory (directory space) i)) (entry : BitVec 64) :
    Advances tables tables live directory manager
        (manager.store (target (entryAt manager.memory (directory space) i)) j entry) ∧
      ∀ slot found,(ownership tables live directory
        (manager.store (target (entryAt manager.memory (directory space) i)) j entry)).leads
          slot found ↔
        (slot=⟨space,i,j⟩ ∧ Present entry ∧ found=getField entry 12 40) ∨
          (slot≠⟨space,i,j⟩ ∧ (ownership tables live directory manager).leads slot found) := by
  have hb := (h.tabled hs).backed
  have htable := h.table hs hi hp
  have halign := hb.system.aligned htable
  have hsame := sameRest_store manager (target (entryAt manager.memory (directory space) i)) j entry
  have huntouched : ∀ {found : ℕ},¬(ownership tables live directory manager).reserved found →
      Unchanged manager.memory (manager.store (target (entryAt manager.memory (directory space) i))
        j entry).memory (found*4096) 4096 :=
    fun hr => h.store_untouched hs htable hj entry hr
  have hother : ∀ {level table k : ℕ},tables level table → k<512 →
      (table≠target (entryAt manager.memory (directory space) i) ∨ k≠j) →
      entryAt (manager.store (target (entryAt manager.memory (directory space) i)) j
        entry).memory table k=entryAt manager.memory table k := fun ht hk hne =>
    entryAt_setEntry_other manager.memory entry hj hk halign (hb.system.aligned ht) hne
  have hself : entryAt (manager.store (target (entryAt manager.memory (directory space) i)) j
      entry).memory (target (entryAt manager.memory (directory space) i)) j=entry :=
    entryAt_setEntry_self _ _
  have habove : ∀ {level table k : ℕ},tables level table → 2≤level → k<512 →
      entryAt (manager.store (target (entryAt manager.memory (directory space) i)) j
        entry).memory table k=entryAt manager.memory table k := by
    intro level table k ht hl hk
    refine hother ht hk (Or.inl ?_)
    intro heq
    rw [heq] at ht
    have hlevel := hb.system.unique ht htable
    omega
  have hsystem : TableSystem (manager.store (target (entryAt manager.memory (directory space) i)) j
      entry).memory tables := hb.system.store htable hj (fun _ => Or.inl rfl)
  have hbacked : Backed tables (manager.store (target (entryAt manager.memory
      (directory space) i)) j entry) := ⟨hb.kernel,hb.geometry,hb.reach,hsystem,hb.taken⟩
  have hspaces := h.congr hbacked id
    (fun {s k} hs' hk => habove (h.tabled hs').shape.member le_rfl hk)
  have hbitmap := store_bitmap manager (target (entryAt manager.memory (directory space) i)) j entry
  generalize manager.store (target (entryAt manager.memory (directory space) i)) j entry=after at *
  have hdirectory := habove (h.tabled hs).shape.member le_rfl hi
  have hnew : slotFrame after.memory (directory space) i j=
      if Present entry then some (getField entry 12 40) else none := by
    rw [slotFrame_present (hdirectory.symm ▸ hp),hdirectory,hself]
  have hold : ∀ {slot : Slot ι},live slot.space → slot.directoryIndex<512 → slot.tableIndex<512 →
      slot≠⟨space,i,j⟩ →
      slotFrame after.memory (directory slot.space) slot.directoryIndex slot.tableIndex=
        slotFrame manager.memory (directory slot.space) slot.directoryIndex slot.tableIndex := by
    intro slot hl hk hlow hne
    refine slotFrame_congr (habove (h.tabled hl).shape.member le_rfl hk)
      (fun hp' => hother (h.table hl hk hp') hlow ?_)
    by_contra hno
    rw [not_or,not_not,not_not] at hno
    -- one page table belongs to one entry of one directory
    have hspace := h.apart hl hs hk hi hp' hp hno.1
    rw [hspace] at hp' hno
    have hindex := (h.tabled hs).shape.distinct _ _ hk hi hp' hp hno.1
    exact hne (by rw [←hspace,←hindex,←hno.2])
  have hused : ∀ {found : ℕ},(ownership tables live directory manager).used found →
      (ownership tables live directory after).used found := by
    intro found hu
    simp only [ownership,hbitmap]
    exact hu
  refine ⟨⟨⟨hspaces,id,fun ht hl hk => habove ht (by omega) hk,hsame.directory_eq,hsame.root_eq,
    .of_eq hsame.heapSpace_eq⟩,fun hu hr => ⟨hused hu,hr⟩,
    fun _ hr => huntouched hr⟩,?_⟩
  intro slot found
  by_cases hslot : slot=⟨space,i,j⟩
  · rw [hslot]
    constructor
    · rintro ⟨-,-,-,hfound⟩
      rw [hnew] at hfound
      split at hfound
      · rename_i hpresent
        exact Or.inl ⟨rfl,hpresent,(Option.some.inj hfound).symm⟩
      · cases hfound
    · rintro (⟨-,hpresent,rfl⟩|⟨hne,-⟩)
      · exact ⟨hs,hi,hj,hnew.trans (if_pos hpresent)⟩
      · exact absurd rfl hne
  · constructor
    · rintro ⟨hl,hk,hlow,hfound⟩
      rw [hold hl hk hlow hslot] at hfound
      exact Or.inr ⟨hslot,hl,hk,hlow,hfound⟩
    · rintro (⟨heq,-⟩|⟨-,hl,hk,hlow,hfound⟩)
      · exact absurd heq hslot
      · exact ⟨hl,hk,hlow,(hold hl hk hlow hslot).trans hfound⟩

/-- Storing an entry that is present assigns its frame. -/
theorem Spaces.assigns (h : Spaces tables live directory manager) (hs : live space) (hi : i<512)
    (hj : j<512) (hp : Present (entryAt manager.memory (directory space) i)) {entry : BitVec 64}
    (he : Present entry) (hf : getField entry 12 40=frame) :
    Advances tables tables live directory manager
        (manager.store (target (entryAt manager.memory (directory space) i)) j entry) ∧
      Assigns ⟨space,i,j⟩ frame (ownership tables live directory manager)
        (ownership tables live directory
          (manager.store (target (entryAt manager.memory (directory space) i)) j entry)) := by
  obtain ⟨hadvances,hleads⟩ := h.store hs hi hj hp entry
  refine ⟨hadvances,?_,id,id,Or.inl⟩
  intro slot found
  rw [hleads,hf]
  simp only [he,true_and]

/-- A frame for whoever asked: it is spare, or nothing happened. -/
theorem Spaces.allocateFrame (h : Spaces tables live directory manager) (hs : live space)
    {claimed : Slot ι→Prop} (hx : Exclusive claimed (ownership tables live directory manager)) :
    MemoryManagement.allocateFrame manager=(.error .allocatorError,manager) ∨
    ∃ frame after,MemoryManagement.allocateFrame manager=(.ok (frame*4096),after) ∧
      Advances tables tables live directory manager after ∧
      Grows (ownership tables live directory manager) (ownership tables live directory after) ∧
      Spare (ownership tables live directory after) frame ∧ frame*4096<2^40 ∧
      SameRest manager after := by
  have hb := (h.tabled hs).backed
  rcases allocateFrame_cases hb.kernel hb.geometry with ⟨he,-⟩|⟨frame,hf,-,he⟩
  · exact Or.inl he
  · obtain ⟨hadvances,hgrows⟩ := h.takeFrame hs hf
    obtain ⟨hnot,hfresh⟩ := h.next hs hf
    have hreach := hb.reach
    have htracked := hf.tracked
    have hused : (ownership tables live directory (PageMapping.takeFrame manager frame)).used
        frame := by
      intro _
      rw [takeFrame_bitmap,bitAt_markFrame,decide_eq_true rfl,Bool.or_true]
    exact Or.inr ⟨frame,_,he,hadvances,hgrows,hx.spare hgrows (hgrows.managed hf.tracked) hnot
      hused hfresh,by omega,sameRest_takeFrame manager frame⟩

/-- `map_user_page` on the directory of a space: it fails for want of a page
table, hangs on a page that is mapped, or leads the slot of the page to the
frame. -/
theorem Spaces.mapUserPage (h : Spaces tables live directory manager) (hs : live space)
    {pdpt page : ℕ} (hd : getPhysicalAddress (entryAt manager.memory pdpt 0)=directory space)
    (write execute : Bool) (hlt : frame*4096<2^40) :
    MemoryManagement.mapUserPage manager pdpt (frame*4096) page write execute=
        some (.error .allocatorError,manager) ∨
    MemoryManagement.mapUserPage manager pdpt (frame*4096) page write execute=none ∨
    ∃ larger after,MemoryManagement.mapUserPage manager pdpt (frame*4096) page write execute=
        some (.ok (),after) ∧ Advances tables larger live directory manager after ∧
      Assigns (slotOf space page) frame (ownership tables live directory manager)
        (ownership larger live directory after) ∧
      ∀ found,¬(ownership tables live directory manager).leads (slotOf space page) found := by
  have hi := indexAt_lt 1 page
  rcases h.ensure hs installs_user hi with he|⟨larger,middle,he,hadvances,hgrows,-,hpresent⟩
  · refine Or.inl ?_
    simp only [MemoryManagement.mapUserPage,hd,virtualAddressToPageDirectoryIndex_eq,he]
  · have htarget := getPhysicalAddress_eq ((hadvances.spaces.tabled hs).narrow _ hi)
    by_cases hpte : Present (entryAt middle.memory
        (target (entryAt middle.memory (directory space) (indexAt 1 page))) (indexAt 0 page))
    · refine Or.inr (Or.inl ?_)
      simp only [MemoryManagement.mapUserPage,hd,virtualAddressToPageDirectoryIndex_eq,
        virtualAddressToPageTableIndex_eq,he,htarget,if_pos hpte]
    · obtain ⟨hpe,hte⟩ := userTableEntry_maps (entryAt middle.memory
        (target (entryAt middle.memory (directory space) (indexAt 1 page))) (indexAt 0 page))
        write execute (Nat.mul_mod_left frame 4096) (show frame*4096<2^52 by omega)
      have hframe := Nat.eq_of_mul_eq_mul_right (show 0<4096 by decide) hte
      obtain ⟨hstored,hassigns⟩ := hadvances.spaces.assigns hs hi (indexAt_lt 0 page) hpresent hpe
        hframe
      refine Or.inr (Or.inr ⟨larger,_,?_,hadvances.trans hstored,hgrows.assigns hassigns,?_⟩)
      · simp only [MemoryManagement.mapUserPage,hd,virtualAddressToPageDirectoryIndex_eq,
          virtualAddressToPageTableIndex_eq,he,htarget,if_neg hpte]
      · intro found hleads
        obtain ⟨-,-,-,hfound⟩ := (hgrows.leads _ found).mpr hleads
        have habsent : slotFrame middle.memory (directory space) (indexAt 1 page)
            (indexAt 0 page)=none := by
          rw [slotFrame_present hpresent,if_neg hpte]
        exact absurd (habsent.symm.trans hfound) (by simp)

/-- Only the bitmap, the memory and the two roots matter. -/
theorem Advances.of_same (h : Advances tables larger live directory manager after)
    (other : MemoryManager) (hb : other.bitmap=after.bitmap)
    (hm : other.memory=after.memory) (hd : other.kernelPageDirectory=after.kernelPageDirectory)
    (hp : other.pml4=after.pml4)
    (ha : MovesOn after.heapSpace other.heapSpace) :
    Advances tables larger live directory manager other ∧
      ownership larger live directory other=ownership larger live directory after := by
  have hsame : ownership larger live directory other=ownership larger live directory after := by
    simp only [ownership,hb,hm]
  refine ⟨⟨⟨⟨fun hs => (h.spaces.tabled hs).of_same hb hm,h.spaces.roots,?_⟩,h.subset,?_,
    hd.trans h.directory_eq,hp.trans h.root_eq,h.heap.trans ha⟩,?_,?_⟩,hsame⟩
  · rw [hm]
    exact h.spaces.apart
  · rw [hm]
    exact h.upper
  · rw [hsame]
    exact h.marked
  · unfold Untouched
    rw [hm]
    exact h.untouched

/-- `map_kernel_page_directory`: it fails for want of a page table, or leads the
slot of the page to the frame. -/
theorem Spaces.mapKernelPageDirectory (h : Spaces tables live directory manager)
    (hs : live space) (hd : directory space=manager.kernelPageDirectory) (page : ℕ)
    (hlt : frame*4096<2^40) :
    MemoryManagement.mapKernelPageDirectory manager (frame*4096) page=
        (.error .allocatorError,manager) ∨
    ∃ larger after,MemoryManagement.mapKernelPageDirectory manager (frame*4096) page=
        (.ok (),after) ∧ Advances tables larger live directory manager after ∧
      Assigns (slotOf space page) frame (ownership tables live directory manager)
        (ownership larger live directory after) := by
  have hi := indexAt_lt 1 page
  rcases h.ensure hs installs_kernel hi with he|⟨larger,middle,he,hadvances,hgrows,hsame,hpresent⟩
  · refine Or.inl ?_
    rw [hd] at he
    simp only [MemoryManagement.mapKernelPageDirectory,getKernelPageTableEntry,
      virtualAddressToPageDirectoryIndex_eq,he]
  · have htarget := getPhysicalAddress_eq ((hadvances.spaces.tabled hs).narrow _ hi)
    obtain ⟨hpe,hte⟩ := kernelTableEntry_maps (entryAt middle.memory
      (target (entryAt middle.memory (directory space) (indexAt 1 page))) (indexAt 0 page))
      (Nat.mul_mod_left frame 4096) (show frame*4096<2^52 by omega)
    have hframe := Nat.eq_of_mul_eq_mul_right (show 0<4096 by decide) hte
    obtain ⟨hstored,hassigns⟩ := hadvances.spaces.assigns hs hi (indexAt_lt 0 page) hpresent hpe
      hframe
    obtain ⟨hother,hown⟩ := (hadvances.trans hstored).of_same {middle.store
      (target (entryAt middle.memory (directory space) (indexAt 1 page))) (indexAt 0 page)
      (kernelTableEntry (entryAt middle.memory (target (entryAt middle.memory (directory space)
        (indexAt 1 page))) (indexAt 0 page)) (frame*4096)) with
      mapped := (page,frame*4096)::middle.mapped} rfl rfl rfl rfl (.of_eq rfl)
    refine Or.inr ⟨larger,_,?_,hother,?_⟩
    · rw [hd] at he htarget
      simp only [MemoryManagement.mapKernelPageDirectory,getKernelPageTableEntry,
        virtualAddressToPageDirectoryIndex_eq,virtualAddressToPageTableIndex_eq,he,
        hsame.directory_eq,htarget,hd]
    · rw [hown]
      exact hgrows.assigns hassigns

/-- A frame that holds no table may be given back. -/
theorem Spaces.release (h : Spaces tables live directory manager) (hs : live space) (frame : ℕ)
    (hr : ¬(ownership tables live directory manager).reserved frame) :
    Spaces tables live directory
      {manager with bitmap := releaseFrame manager.bitmap frame} := by
  have hb := (h.tabled hs).backed
  have hshape : SameShape manager.bitmap (releaseFrame manager.bitmap frame) :=
    sameShape_with _ _ _
  refine h.congr ⟨⟨hshape.page_eq.trans hb.kernel.page_eq,hshape.full_eq.trans hb.kernel.full_eq,
    hshape.base_eq.trans hb.kernel.base_eq⟩,hshape.geometry hb.geometry,?_,hb.system,?_⟩ id
    (fun _ _ => rfl)
  · exact (congrArg (· * 4096) hshape.frames_eq).trans_le hb.reach
  · intro level found hlt hclear ht
    have hbit := bitAt_releaseFrame manager.bitmap frame found
    have hfalse : bitAt (releaseFrame manager.bitmap frame).storage found=false := hclear
    rw [hbit,Bool.and_eq_false_iff] at hfalse
    rcases hfalse with hold|hself
    · exact hb.taken (hlt.trans_eq hshape.frames_eq) hold ht
    · rw [decide_eq_false_iff_not,not_not] at hself
      exact hr ⟨level,hself ▸ ht⟩

/-- The address of a tracked frame of the kernel's bitmap. -/
theorem frameAddress_tracked (h : Backed tables manager) (hf : frame<frames manager.bitmap) :
    frameAddress manager.bitmap frame=frame*4096 := by
  have hreach := h.reach
  unfold frameAddress
  rw [h.kernel.base_eq,h.kernel.page_eq,u64_of_lt (by omega),Nat.zero_add]

/-- Where the page table of a page is below 2 GiB, the kernel translates the page
to the frame its slot leads to. -/
theorem Spaces.translated (h : Spaces tables live directory manager) (hs : live space)
    (hd : directory space=manager.kernelPageDirectory) {page : ℕ} (hp : page%4096=0)
    (hlow : getPhysicalAddress (KernelTranslation.directoryEntry manager page)<2^31)
    {result : Except MemoryManagerError ℕ}
    (hr : kernelVirtualToPhysicalAddress manager page=some result) :
    Present (KernelTranslation.directoryEntry manager page) ∧
    getPhysicalAddress (KernelTranslation.directoryEntry manager page)=
      target (entryAt manager.memory (directory space) (indexAt 1 page)) ∧
    ∃ frame,(ownership tables live directory manager).leads (slotOf space page) frame ∧
      result=.ok (frame*4096) := by
  have hi := indexAt_lt 1 page
  rw [KernelTranslation.kernelVirtualToPhysicalAddress_eq,hp,Nat.add_zero] at hr
  split at hr
  · rename_i hall
    obtain ⟨hpde,-,hpte⟩ := hall
    have hentry : KernelTranslation.directoryEntry manager page=
        entryAt manager.memory (directory space) (indexAt 1 page) := by
      rw [KernelTranslation.directoryEntry,hd]
    have htarget : getPhysicalAddress (KernelTranslation.directoryEntry manager page)=
        target (entryAt manager.memory (directory space) (indexAt 1 page)) := by
      rw [hentry]
      exact getPhysicalAddress_eq ((h.tabled hs).narrow _ hi)
    have hshift := (KernelTranslation.shiftedPhysicalAddress_eq_iff _).mpr hlow
    rw [KernelTranslation.tableEntry,hshift,htarget] at hpte hr
    refine ⟨hpde,htarget,_,⟨hs,hi,indexAt_lt 0 page,?_⟩,(Option.some.inj hr).symm⟩
    exact if_pos ⟨hentry ▸ hpde,hpte⟩
  · cases hr

/-- `free_page` gives back a frame in use. -/
theorem freePage_frame (h : Backed tables manager) (hf : frame<frames manager.bitmap)
    (hset : bitAt manager.bitmap.storage frame=true) :
    (freePage manager.bitmap (frame*4096)).2=releaseFrame manager.bitmap frame := by
  have htracked := tracked_frameAddress h.geometry hf
  have hframe := frameOf_frameAddress h.geometry hf
  rw [frameAddress_tracked h hf] at htracked hframe
  have hfree := free_eq h.geometry htracked
  rw [hframe,if_neg (by rw [hset]; decide)] at hfree
  rw [freePage,hfree]

/-- Clearing the entry of a page and giving back its frame releases the slot. -/
theorem Spaces.releases (h : Spaces tables live directory manager) (hs : live space) (hi : i<512)
    (hj : j<512) (hp : Present (entryAt manager.memory (directory space) i)) {entry : BitVec 64}
    (he : ¬Present entry) (hr : ¬(ownership tables live directory manager).reserved frame)
    (hafter : after={manager.store (target (entryAt manager.memory (directory space) i)) j entry with
      bitmap := releaseFrame manager.bitmap frame}) :
    Extends tables tables live directory manager after ∧
      Releases ⟨space,i,j⟩ frame (ownership tables live directory manager)
        (ownership tables live directory after) ∧
      Untouched tables live directory manager after := by
  obtain ⟨hadvances,hleads⟩ := h.store hs hi hj hp entry
  have hspaces := hadvances.spaces.release hs frame hr
  have hshape : SameShape manager.bitmap (releaseFrame manager.bitmap frame) :=
    sameShape_with _ _ _
  have hbitmap : after.bitmap=releaseFrame manager.bitmap frame := by rw [hafter]
  have hmemory : after.memory=(manager.store (target (entryAt manager.memory (directory space) i))
      j entry).memory := by rw [hafter]
  refine ⟨⟨hafter ▸ hspaces,id,?_,?_,?_,?_⟩,⟨?_,?_,?_,id⟩,?_⟩
  · rw [hmemory]
    exact hadvances.upper
  · rw [hafter]
    exact hadvances.directory_eq
  · rw [hafter]
    exact hadvances.root_eq
  · rw [hafter]
    exact hadvances.heap
  · intro slot found
    have hsame : (ownership tables live directory after).leads slot found ↔
        (ownership tables live directory (manager.store (target (entryAt manager.memory
          (directory space) i)) j entry)).leads slot found := by
      simp only [ownership,hmemory]
    rw [hsame,hleads]
    simp only [he,false_and,and_false,false_or]
  · intro found hm
    exact lt_of_lt_of_eq hm (hbitmap ▸ hshape.frames_eq.symm)
  · intro found hu hne hlt
    rw [hbitmap] at hlt ⊢
    rw [bitAt_releaseFrame,hu (hlt.trans_eq hshape.frames_eq),decide_eq_true hne,Bool.and_self]
  · unfold Untouched
    rw [hmemory]
    exact hadvances.untouched

/-- `free_kernel_heap_page` on a claimed page whose page table is below 2 GiB,
if it returns, gives back the frame of the page and clears the entry. -/
theorem Spaces.freeKernelHeapPage (h : Spaces tables live directory manager) (hs : live space)
    (hd : directory space=manager.kernelPageDirectory) {claimed : Slot ι→Prop}
    (hx : Exclusive claimed (ownership tables live directory manager)) {page : ℕ}
    (hc : claimed (slotOf space page)) (hp : page%4096=0)
    (hlow : getPhysicalAddress (KernelTranslation.directoryEntry manager page)<2^31)
    {outcome : Outcome Unit}
    (hfree : MemoryManagement.freeKernelHeapPage manager page=some outcome) :
    ∃ frame,(ownership tables live directory manager).leads (slotOf space page) frame ∧
      Extends tables tables live directory manager outcome.2 ∧
      Releases (slotOf space page) frame (ownership tables live directory manager)
        (ownership tables live directory outcome.2) ∧
      Untouched tables live directory manager outcome.2 := by
  have hb := (h.tabled hs).backed
  unfold MemoryManagement.freeKernelHeapPage at hfree
  cases htranslate : kernelVirtualToPhysicalAddress manager page with
  | none =>
    rw [htranslate] at hfree
    cases hfree
  | some result =>
    obtain ⟨hpde,htarget,frame,hleads,rfl⟩ := h.translated hs hd hp hlow htranslate
    rw [htranslate] at hfree
    dsimp only at hfree
    have hm := hx.managed hc hleads
    rw [freePage_frame hb hm (hx.used hleads hm)] at hfree
    have hpde' : Present (KernelTranslation.directoryEntry {manager with
        bitmap := releaseFrame manager.bitmap frame} page) := hpde
    have hunmap := KernelUnmapping.unmap_present hpde'
    have hpresent : Present (entryAt manager.memory (directory space) (indexAt 1 page)) := by
      rw [hd]
      exact hpde
    have hafter : outcome.2={manager.store (target (entryAt manager.memory (directory space)
        (indexAt 1 page))) (indexAt 0 page) (unmappedTableEntry (entryAt manager.memory
          (target (entryAt manager.memory (directory space) (indexAt 1 page))) (indexAt 0 page))) with
        bitmap := releaseFrame manager.bitmap frame} := by
      rw [←Option.some.inj hfree,hunmap,←htarget]
      rfl
    exact ⟨frame,hleads,h.releases hs (indexAt_lt 1 page) (indexAt_lt 0 page) hpresent
      (KernelUnmapping.not_present_unmapped _) (hx.unreserved hc hleads) hafter⟩

/-- A frame taken for a table above the page tables. -/
theorem Spaces.takeTable (h : Spaces tables live directory manager) (hs : live space)
    (hf : NextFree manager.bitmap frame) (level : ℕ) :
    Advances tables (withTable tables level (frame*4096)) live directory manager
        (PageMapping.takeFrame manager frame) ∧
      Grows (ownership tables live directory manager)
        (ownership (withTable tables level (frame*4096)) live directory
          (PageMapping.takeFrame manager frame)) := by
  obtain ⟨htaken,hgrows⟩ := h.takeFrame hs hf
  obtain ⟨hnot,-⟩ := h.next hs hf
  have hb := (h.tabled hs).backed
  have hspaces : Spaces (withTable tables level (frame*4096)) live directory
      (PageMapping.takeFrame manager frame) := h.congr (backed_withTable hb hf level).1 Or.inl
    (fun {s k} hs' hk => hb.entryAt_takeFrame hf (h.tabled hs').shape.member hk)
  have hgrows' : Grows (ownership tables live directory manager)
      (ownership (withTable tables level (frame*4096)) live directory
        (PageMapping.takeFrame manager frame)) := by
    refine ⟨hgrows.leads,hgrows.managed,hgrows.used,?_⟩
    rintro found ⟨l,ht|⟨-,heq⟩⟩
    · exact Or.inl ⟨l,ht⟩
    · have hframe : found=frame := Nat.eq_of_mul_eq_mul_right (by decide) heq
      exact Or.inr (hframe ▸ hnot)
  exact ⟨⟨⟨hspaces,Or.inl,htaken.upper,htaken.directory_eq,htaken.root_eq,htaken.heap⟩,
    fun hu hr => ⟨hgrows'.used hu,hgrows'.unreserved hu hr⟩,htaken.untouched⟩,hgrows'⟩

/-- Storing an entry of a table above the directories that leads to a table
again leads no slot anywhere else. -/
theorem Spaces.storeUpper (h : Spaces tables live directory manager) (hs : live space)
    {level table index : ℕ} (ht : tables (level+1) table) (hl : 2≤level) (hi : index<512)
    {entry : BitVec 64} (he : tables level (target entry)) :
    Spaces tables live directory (manager.store table index entry) ∧
      (∀ slot found,(ownership tables live directory (manager.store table index entry)).leads
        slot found ↔ (ownership tables live directory manager).leads slot found) ∧
      ∀ {l other k : ℕ},tables l other → k<512 → (other≠table ∨ k≠index) →
        entryAt (manager.store table index entry).memory other k=
          entryAt manager.memory other k := by
  have hb := (h.tabled hs).backed
  have hother : ∀ {l other k : ℕ},tables l other → k<512 → (other≠table ∨ k≠index) →
      entryAt (manager.store table index entry).memory other k=entryAt manager.memory other k :=
    fun ho hk hne => entryAt_setEntry_other manager.memory entry hi hk (hb.system.aligned ht)
      (hb.system.aligned ho) hne
  have hlow : ∀ {l other k : ℕ},tables l other → l≤2 → k<512 →
      entryAt (manager.store table index entry).memory other k=entryAt manager.memory other k := by
    intro l other k ho hle hk
    refine hother ho hk (Or.inl ?_)
    rintro rfl
    have hlevel := hb.system.unique ho ht
    omega
  have hbacked : Backed tables (manager.store table index entry) :=
    ⟨hb.kernel,hb.geometry,hb.reach,hb.system.store ht hi (fun _ => Or.inr he),hb.taken⟩
  have hspaces := h.congr hbacked id
    (fun {s k} hs' hk => hlow (h.tabled hs').shape.member le_rfl hk)
  refine ⟨hspaces,?_,hother⟩
  intro slot found
  refine and_congr_right (fun hlive => and_congr_right (fun hk => and_congr_right (fun hj => ?_)))
  rw [slotFrame_congr (hlow (h.tabled hlive).shape.member le_rfl hk)
    (fun hp => hlow (h.table hlive hk hp) (by decide) hj)]

/-- An empty directory that is a table of its own is a further space. -/
theorem Spaces.add [DecidableEq ι] (h : Spaces tables live directory manager) {fresh : ι}
    {root : ℕ} (hfresh : ¬live fresh) (ht : Tabled tables root manager)
    (hroot : ∀ {s : ι},live s → directory s≠root)
    (hempty : ∀ k,k<512 → ¬Present (entryAt manager.memory root k)) :
    Spaces tables (fun s => s=fresh ∨ live s) (Function.update directory fresh root) manager ∧
      ∀ slot found,(ownership tables (fun s => s=fresh ∨ live s)
        (Function.update directory fresh root) manager).leads slot found ↔
          (ownership tables live directory manager).leads slot found := by
  have hself : Function.update directory fresh root fresh=root := Function.update_self ..
  have hother : ∀ {s : ι},live s → Function.update directory fresh root s=directory s := by
    intro s hs
    refine Function.update_of_ne ?_ ..
    rintro rfl
    exact hfresh hs
  refine ⟨⟨?_,?_,?_⟩,?_⟩
  · rintro s (rfl|hs)
    · rw [hself]
      exact ht
    · rw [hother hs]
      exact h.tabled hs
  · rintro s t (rfl|hs) (rfl|ht') heq
    · rfl
    · rw [hself,hother ht'] at heq
      exact absurd heq.symm (hroot ht')
    · rw [hself,hother hs] at heq
      exact absurd heq (hroot hs)
    · rw [hother hs,hother ht'] at heq
      exact h.roots hs ht' heq
  · rintro s t k l (rfl|hs) (rfl|ht') hk hl hpk hpl heq
    · rfl
    · rw [hself] at hpk
      exact absurd hpk (hempty k hk)
    · rw [hself] at hpl
      exact absurd hpl (hempty l hl)
    · rw [hother hs] at hpk heq
      rw [hother ht'] at hpl heq
      exact h.apart hs ht' hk hl hpk hpl heq
  · intro slot found
    constructor
    · rintro ⟨hs|hs,hk,hj,hfound⟩
      · rw [hs,hself,slotFrame_absent (hempty _ hk)] at hfound
        cases hfound
      · rw [hother hs] at hfound
        exact ⟨hs,hk,hj,hfound⟩
    · rintro ⟨hs,hk,hj,hfound⟩
      exact ⟨Or.inr hs,hk,hj,by rw [hother hs,hfound]⟩

end Primitives

section Operations

variable {ι : Type} {tables : ℕ→ℕ→Prop} {live : ι→Prop} {directory : ι→ℕ}
  {manager : MemoryManager} {space : ι} {claimed : Slot ι→Prop}

/-- The loop of `allocate_user_pages`, however it ends: pages that were mapped
stay mapped, and the claims hold with those on the new pages. -/
theorem Spaces.userPagesLoop (h : Spaces tables live directory manager) (hs : live space)
    {pdpt virtualBase i start : ℕ} {write execute : Bool} (hroot : tables 3 pdpt)
    (hd : getPhysicalAddress (entryAt manager.memory pdpt 0)=directory space)
    (hx : Exclusive claimed (ownership tables live directory manager)) (n : ℕ)
    {outcome : Outcome ℕ}
    (hl : allocateUserPagesLoop pdpt virtualBase write execute n i start manager=some outcome) :
    ∃ larger,Advances tables larger live directory manager outcome.2 ∧
      Exclusive claimed (ownership larger live directory outcome.2) ∧
      ∀ slot found,(ownership tables live directory manager).leads slot found →
        (ownership larger live directory outcome.2).leads slot found := by
  induction n generalizing tables i start manager with
  | zero =>
    rw [allocateUserPagesLoop,Option.some.injEq] at hl
    rw [←hl]
    exact ⟨tables,Advances.refl h,hx,fun _ _ hf => hf⟩
  | succ n ih =>
    rw [allocateUserPagesLoop] at hl
    rcases h.allocateFrame hs hx with he|⟨frame,framed,he,hadvances,hgrows,hspare,hlt,-⟩
    · rw [he,Option.some.injEq] at hl
      rw [←hl]
      exact ⟨tables,Advances.refl h,hx,fun _ _ hf => hf⟩
    · rw [he] at hl
      dsimp only at hl
      have hx' := hx.grows hgrows
      have hd' : getPhysicalAddress (entryAt framed.memory pdpt 0)=directory space := by
        rw [hadvances.upper hroot le_rfl (by decide)]
        exact hd
      rcases hadvances.spaces.mapUserPage hs hd' write execute hlt with
        hmap|hmap|⟨larger,after,hmap,hmapped,hassigns,habsent⟩
      · rw [hmap] at hl
        obtain ⟨largest,hrest,hexclusive,hkept⟩ := ih hadvances.spaces hroot hd' hx' hl
        exact ⟨largest,hadvances.trans hrest,hexclusive,
          fun slot found hf => hkept slot found ((hgrows.leads slot found).mpr hf)⟩
      · rw [hmap] at hl
        cases hl
      · rw [hmap] at hl
        have hd'' : getPhysicalAddress (entryAt after.memory pdpt 0)=directory space := by
          rw [hmapped.upper hroot le_rfl (by decide)]
          exact hd'
        have hx'' := (hx'.assigns hspare hassigns).reclaim (fun hc _ => Or.inr hc)
        obtain ⟨largest,hrest,hexclusive,hkept⟩ :=
          ih hmapped.spaces (hmapped.subset hroot) hd'' hx'' hl
        refine ⟨largest,(hadvances.trans hmapped).trans hrest,hexclusive,fun slot found hf => ?_⟩
        have hframed := (hgrows.leads slot found).mpr hf
        refine hkept slot found ((hassigns.leads slot found).mpr (Or.inr ⟨?_,hframed⟩))
        rintro rfl
        exact habsent found hframed

/-- The slots of the pages from page `i` on. -/
def pageSlots (space : ι) (virtualRange i n : ℕ) (slot : Slot ι) : Prop :=
  ∃ j,i≤j ∧ j< i+n ∧ slot=slotOf space (u64 (virtualRange+j*Page))

/-- The loop of `allocate_kernel_heap_pages`: what other spaces lead to is kept,
and the pages may be claimed once all of them are mapped. -/
theorem Spaces.heapPagesLoop (h : Spaces tables live directory manager) (hs : live space)
    (hd : directory space=manager.kernelPageDirectory) (virtualRange i : ℕ)
    (hx : Exclusive claimed (ownership tables live directory manager)) (n : ℕ) :
    ∃ larger,Advances tables larger live directory manager
        (allocateKernelHeapPagesLoop virtualRange n i manager).2 ∧
      Exclusive claimed (ownership larger live directory
        (allocateKernelHeapPagesLoop virtualRange n i manager).2) ∧
      ((allocateKernelHeapPagesLoop virtualRange n i manager).1=.ok () →
        Exclusive (fun slot => pageSlots space virtualRange i n slot ∨ claimed slot)
          (ownership larger live directory
            (allocateKernelHeapPagesLoop virtualRange n i manager).2)) ∧
      ∀ slot found,slot.space≠space →
        (ownership tables live directory manager).leads slot found →
        (ownership larger live directory
          (allocateKernelHeapPagesLoop virtualRange n i manager).2).leads slot found := by
  induction n generalizing tables i manager claimed with
  | zero =>
    rw [allocateKernelHeapPagesLoop]
    refine ⟨tables,Advances.refl h,hx,fun _ => hx.reclaim ?_,fun _ _ _ hf => hf⟩
    rintro slot found (⟨j,hle,hlt,-⟩|hc) -
    · omega
    · exact hc
  | succ n ih =>
    rcases h.allocateFrame hs hx with he|⟨frame,framed,he,hadvances,hgrows,hspare,hlt,-⟩
    · rw [KernelHeap.pagesLoop_noFrame he]
      exact ⟨tables,Advances.refl h,hx,fun hok => (by cases hok),fun _ _ _ hf => hf⟩
    · have hx' := hx.grows hgrows
      have hd' : directory space=framed.kernelPageDirectory := hd.trans hadvances.directory_eq.symm
      rcases hadvances.spaces.mapKernelPageDirectory hs hd' (u64 (virtualRange+i*Page)) hlt with
        hmap|⟨larger,after,hmap,hmapped,hassigns⟩
      · rw [KernelHeap.pagesLoop_noTable he hmap]
        exact ⟨tables,hadvances,hx',fun hok => (by cases hok),
          fun slot found _ hf => (hgrows.leads slot found).mpr hf⟩
      · rw [KernelHeap.pagesLoop_page he hmap]
        have hd'' : directory space=after.kernelPageDirectory :=
          hd'.trans hmapped.directory_eq.symm
        obtain ⟨largest,hrest,hexclusive,hall,hkept⟩ :=
          ih hmapped.spaces hd'' (i+1) (hx'.assigns hspare hassigns)
        refine ⟨largest,(hadvances.trans hmapped).trans hrest,
          hexclusive.reclaim (fun hc _ => Or.inr hc),fun hok => (hall hok).reclaim ?_,?_⟩
        · rintro slot found (⟨j,hle,hlt',hslot⟩|hc) -
          · by_cases hj : j=i
            · exact Or.inr (Or.inl (hj ▸ hslot))
            · exact Or.inl ⟨j,by omega,by omega,hslot⟩
          · exact Or.inr (Or.inr hc)
        · intro slot found hne hf
          refine hkept slot found hne ((hassigns.leads slot found).mpr (Or.inr ⟨?_,
            (hgrows.leads slot found).mpr hf⟩))
          rintro rfl
          exact hne rfl

end Operations

end WorkbenchOS.AddressSpaces
