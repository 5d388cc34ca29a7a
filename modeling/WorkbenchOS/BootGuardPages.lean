import WorkbenchOS.BootPageTables

/-!
# Guard pages of the boot layout

Each region of the boot layout begins one page behind the last. Whatever the
sizes of the regions are, the page in between belongs to none of them, no entry
of the page tables is written twice, the entries of the guard pages stay zero
and every page of a region leads to its physical page.
-/

namespace WorkbenchOS.BootGuardPages

open ByteMemory LibStd PageTables MemoryManagement BootPageTables

/-- A region before it is given a place. -/
structure Part where
  /-- `physical_base`. -/
  physicalBase : ℕ
  /-- `size`. -/
  size : ℕ
  /-- Mapped with write combining. -/
  writeCombining : Bool

/-- The regions, each at the `next_virtual_mapping` of the last. -/
def layOut : ℕ→List Part→List (VirtualMapping×Bool)
  | _,[] => []
  | virtualBase,part::rest =>
    let region : VirtualMapping := ⟨part.physicalBase,virtualBase,part.size⟩
    (region,part.writeCombining)::layOut (nextVirtualMapping region) rest

/-- The seven regions of the bootloader. -/
def partsOf (boot : Boot) : List Part :=
  [⟨boot.kernel.physicalBase,boot.kernel.size,false⟩,
    ⟨boot.bootState.physicalBase,boot.bootState.size,false⟩,
    ⟨boot.initialPages.physicalBase,boot.initialPages.size,false⟩,
    ⟨boot.memoryMapRegion.physicalBase,boot.memoryMapRegion.size,false⟩,
    ⟨boot.framebuffer.physicalBase,boot.framebuffer.size,true⟩,
    ⟨boot.stack.physicalBase,boot.stack.size,false⟩,
    ⟨boot.frameAllocator.physicalBase,boot.frameAllocator.size,false⟩]

/-- They are laid out so. -/
theorem regions_eq_layOut (boot : Boot) :
    boot.regions=layOut kernelVirtualBase (partsOf boot) := rfl

/-- Whole pages, aligned physical memory and an end of the layout in the address
space. -/
structure Acceptable (parts : List Part) : Prop where
  /-- Sizes are whole pages. -/
  size_mod : ∀ part∈parts,part.size%Page=0
  /-- Physical bases are aligned. -/
  physical_mod : ∀ part∈parts,part.physicalBase%Page=0
  /-- Physical memory is below its limit. -/
  physical_le : ∀ part∈parts,part.physicalBase+part.size≤2^52
  /-- Nothing overflows. -/
  end_le : kernelVirtualBase+(parts.map (fun part => part.size+Page)).sum≤2^64

/-- The address of the guard page behind a region. -/
def guardOf (region : VirtualMapping) : ℕ := region.virtualBase+region.size

/-- The entry of an address in the array of page tables. -/
def entryIndex (virtualAddress : ℕ) : ℕ := (virtualAddress-kernelVirtualBase)/Page

/-- The entries `map_address_space` stores to, in its order. -/
def writtenEntries (regions : List (VirtualMapping×Bool)) : List ℕ :=
  regions.flatMap (fun region => (List.range (region.1.size/Page)).map (fun i =>
    virtualToPageTable (u64 (region.1.virtualBase+i*Page))))

/-- The page tables after all regions are mapped. -/
def mapped (kernelPageTables : ℕ) (memory : Memory) (regions : List (VirtualMapping×Bool)) :
    Memory :=
  regions.foldl (mapAddressSpace kernelPageTables) memory

/-- The guard pages of a layout are real. -/
structure Guarded (kernelPageTables : ℕ) (memory : Memory)
    (regions : List (VirtualMapping×Bool)) : Prop where
  /-- One page is between two regions. -/
  next : regions.IsChain (fun first second => second.1.virtualBase=guardOf first.1+Page)
  /-- The regions are in order, with their guard pages between them. -/
  ordered : regions.Pairwise (fun first second => guardOf first.1+Page≤ second.1.virtualBase)
  /-- A guard page belongs to no region. -/
  free : ∀ region∈regions,∀ other∈regions,
    Apart (guardOf region.1) Page other.1.virtualBase other.1.size
  /-- No entry is written twice. -/
  distinct : (writtenEntries regions).Nodup
  /-- No other entry changes. -/
  others : ∀ index∉writtenEntries regions,
    entryAt (mapped kernelPageTables memory regions) kernelPageTables index=
      entryAt memory kernelPageTables index
  /-- The entry of a guard page is zero. -/
  guard : ∀ region∈regions,
    entryAt (mapped kernelPageTables memory regions) kernelPageTables
      (entryIndex (guardOf region.1))=0#64
  /-- The entry of a page of a region leads to its physical page. -/
  page : ∀ region∈regions,∀ address,region.1.virtualBase≤address → address<guardOf region.1 →
    Present (entryAt (mapped kernelPageTables memory regions) kernelPageTables
      (entryIndex address)) ∧
    target (entryAt (mapped kernelPageTables memory regions) kernelPageTables
      (entryIndex address))=
        region.1.physicalBase+(address-region.1.virtualBase)/Page*Page

section Places

variable {parts : List Part} {start : ℕ} {place : Placement}

/-- The places of the regions, in pages. -/
def placesFrom : ℕ→List Part→List Placement
  | _,[] => []
  | start,part::rest =>
    ⟨part.physicalBase,start,part.size/4096,part.writeCombining⟩::
      placesFrom (start+part.size/4096+1) rest

/-- Pages of a layout with its guard pages. -/
def extent (parts : List Part) : ℕ := (parts.map (fun part => part.size/4096+1)).sum

/-- One more region. -/
theorem extent_cons (part : Part) (rest : List Part) :
    extent (part::rest)=part.size/4096+1+extent rest := by
  rw [extent,List.map_cons,List.sum_cons]
  rfl

/-- The layout in pages. -/
theorem layOut_eq (hsize : ∀ part∈parts,part.size%4096=0) (hend : start+extent parts≤2^19) :
    layOut (kernelVirtualBase+start*4096) parts=(placesFrom start parts).map Placement.region := by
  induction parts generalizing start with
  | nil => rfl
  | cons part rest ih =>
    obtain ⟨hpart,hrest⟩ := List.forall_mem_cons.mp hsize
    rw [extent_cons] at hend
    have hbytes : part.size/4096*4096=part.size := Nat.div_mul_cancel (Nat.dvd_of_mod_eq_zero hpart)
    rw [layOut,placesFrom,List.map_cons]
    have hhead : Placement.region ⟨part.physicalBase,start,part.size/4096,part.writeCombining⟩=
        (⟨part.physicalBase,kernelVirtualBase+start*4096,part.size⟩,part.writeCombining) := by
      rw [Placement.region,hbytes]
    rw [hhead]
    congr 1
    cases rest with
    | nil => rfl
    | cons second rest =>
      -- there is a next region, so its base does not wrap
      rw [extent_cons] at hend
      have hnext : nextVirtualMapping ⟨part.physicalBase,kernelVirtualBase+start*4096,part.size⟩=
          kernelVirtualBase+(start+part.size/4096+1)*4096 := by
        simp only [nextVirtualMapping,kernelVirtualBase,Page]
        rw [u64_of_lt (by omega)]
        omega
      rw [hnext]
      refine ih hrest ?_
      rw [extent_cons]
      omega

/-- A place of the layout is a part of it, in the window with its guard page. -/
theorem mem_placesFrom (hm : place∈placesFrom start parts) :
    start≤place.start ∧ place.start+place.pages+1≤ start+extent parts ∧
      ∃ part∈parts,place.physical=part.physicalBase ∧ place.pages=part.size/4096 := by
  induction parts generalizing start with
  | nil => cases hm
  | cons part rest ih =>
    rw [extent_cons]
    rcases List.mem_cons.mp hm with rfl|hrest
    · refine ⟨le_rfl,?_,part,List.mem_cons_self,rfl,rfl⟩
      dsimp only
      omega
    · obtain ⟨hlow,hhigh,other,hother,hphysical,hpages⟩ := ih hrest
      exact ⟨by omega,by omega,other,List.mem_cons_of_mem part hother,hphysical,hpages⟩

/-- The places are behind one another, with a guard page between them. -/
theorem placesFrom_ordered (start : ℕ) (parts : List Part) :
    (placesFrom start parts).Pairwise (fun first second =>
      first.start+first.pages+1≤ second.start) := by
  induction parts generalizing start with
  | nil => exact List.Pairwise.nil
  | cons part rest ih =>
    refine List.Pairwise.cons (fun other hother => ?_) (ih _)
    exact (mem_placesFrom hother).1

/-- There is one page between two places. -/
theorem placesFrom_next (start : ℕ) (parts : List Part) :
    (placesFrom start parts).IsChain (fun first second =>
      second.start=first.start+first.pages+1) := by
  induction parts generalizing start with
  | nil => exact List.IsChain.nil
  | cons part rest ih =>
    cases rest with
    | nil => exact List.IsChain.singleton _
    | cons second rest => exact List.IsChain.cons_cons rfl (ih _)

/-- Two places are the same or one is behind the guard page of the other. -/
theorem place_apart {other : Placement} (hm : place∈placesFrom start parts)
    (ho : other∈placesFrom start parts) :
    place.start=other.start ∧ place.pages=other.pages ∨
      place.start+place.pages+1≤other.start ∨ other.start+other.pages+1≤place.start := by
  have hordered := placesFrom_ordered start parts
  refine List.Pairwise.forall_of_forall_of_flip (R := fun place other : Placement =>
    place.start=other.start ∧ place.pages=other.pages ∨
      place.start+place.pages+1≤other.start ∨ other.start+other.pages+1≤place.start)
    (fun _ _ => Or.inl ⟨rfl,rfl⟩) ?_ ?_ hm ho
  · exact hordered.imp (fun h => Or.inr (Or.inl h))
  · exact hordered.imp (fun h => Or.inr (Or.inr h))

end Places

section Entries

variable {places : List Placement} {place : Placement}

/-- The entries stored to for one place. -/
theorem placeEntries_eq (h : place.InWindow) :
    (List.range (place.region.1.size/Page)).map (fun i =>
      virtualToPageTable (u64 (place.region.1.virtualBase+i*Page)))=
        (List.range place.pages).map (fun i => place.start+i) := by
  rw [Placement.InWindow] at h
  have hcount : place.region.1.size/Page=place.pages := Nat.mul_div_cancel _ (by decide)
  rw [hcount]
  refine List.map_congr_left (fun i hi => ?_)
  have hlt := List.mem_range.mp hi
  simp only [Placement.region,virtualToPageTable,kernelVirtualBase,Page]
  rw [u64_of_lt (by omega),u64Sub_of_le (by omega) (by omega),Nat.shiftRight_eq_div_pow]
  omega

/-- The entries stored to for all places. -/
theorem writtenEntries_eq (hwindow : ∀ place∈places,place.InWindow) :
    writtenEntries (places.map Placement.region)=
      places.flatMap (fun place => (List.range place.pages).map (fun i => place.start+i)) := by
  rw [writtenEntries,List.flatMap_map]
  exact List.flatMap_congr (fun place hm => placeEntries_eq (hwindow place hm))

/-- They are those of the pages. -/
theorem mem_writtenEntries (hwindow : ∀ place∈places,place.InWindow) {index : ℕ} :
    index∈writtenEntries (places.map Placement.region) ↔
      ∃ place∈places,place.start≤ index ∧ index<place.start+place.pages := by
  rw [writtenEntries_eq hwindow,List.mem_flatMap]
  refine exists_congr (fun place => and_congr_right (fun _ => ?_))
  rw [List.mem_map]
  constructor
  · rintro ⟨i,hi,rfl⟩
    have hlt := List.mem_range.mp hi
    omega
  · rintro ⟨hlow,hhigh⟩
    exact ⟨index-place.start,List.mem_range.mpr (by omega),by omega⟩

/-- No entry of places behind one another is stored to twice. -/
theorem nodup_writtenEntries (hwindow : ∀ place∈places,place.InWindow)
    (hbehind : places.Pairwise Behind) :
    (writtenEntries (places.map Placement.region)).Nodup := by
  rw [writtenEntries_eq hwindow,List.nodup_flatMap]
  constructor
  · intro place _
    exact List.nodup_range.map (fun i j h => Nat.add_left_cancel h)
  · refine hbehind.imp (fun {first second} h => ?_)
    rw [Behind] at h
    intro index hfirst hsecond
    obtain ⟨i,hi,rfl⟩ := List.mem_map.mp hfirst
    obtain ⟨j,hj,hsame⟩ := List.mem_map.mp hsecond
    have hlt := List.mem_range.mp hi
    omega

/-- An entry of no page is as it was. -/
theorem mapped_apart (hwindow : ∀ place∈places,place.InWindow) (pml4 : ℕ) {index : ℕ}
    (h : ∀ place∈places,¬(place.start≤ index ∧ index<place.start+place.pages))
    (memory : Memory) :
    entryAt (mapped (pml4+0x4000) memory (places.map Placement.region)) (pml4+0x4000) index=
      entryAt memory (pml4+0x4000) index := by
  rw [(tables_words _ pml4 index 0#64).1,(tables_words _ pml4 index 0#64).1,mapped]
  refine mapRegions_apart pml4 hwindow (fun place hm hholds => h place hm ?_) memory
  rw [Placement.Holds] at hholds
  omega

/-- The entry of a page leads to its physical page. -/
theorem mapped_page (hwindow : ∀ place∈places,place.InWindow) (hbehind : places.Pairwise Behind)
    (hm : place∈places) {i : ℕ} (hi : i<place.pages) (pml4 : ℕ) (memory : Memory)
    (haligned : place.physical%4096=0) (hbelow : place.physical+place.pages*4096≤2^52) :
    Present (entryAt (mapped (pml4+0x4000) memory (places.map Placement.region)) (pml4+0x4000)
      (place.start+i)) ∧
    target (entryAt (mapped (pml4+0x4000) memory (places.map Placement.region)) (pml4+0x4000)
      (place.start+i))=place.physical+i*4096 := by
  obtain ⟨entry,hentry⟩ := mapRegions_page pml4 hwindow hbehind hm hi memory
  have hphysical : u64 (place.physical+i*4096)=place.physical+i*4096 := u64_of_lt (by omega)
  rw [hphysical] at hentry
  obtain ⟨hpresent,htarget⟩ := bootPageEntry_maps entry
    (show place.physical+i*4096<2^52 by omega) place.writeCombining
  rw [(tables_words _ pml4 _ 0#64).1,mapped,←Nat.add_assoc,hentry]
  refine ⟨hpresent,?_⟩
  rw [htarget]
  omega

end Entries

section Layout

variable {parts : List Part} {pml4 : ℕ} {memory : Memory}

/-- The sizes of the layout in pages. -/
theorem extent_eq (hsize : ∀ part∈parts,part.size%4096=0) :
    (parts.map (fun part => part.size+Page)).sum=extent parts*4096 := by
  induction parts with
  | nil => rfl
  | cons part rest ih =>
    obtain ⟨hpart,hrest⟩ := List.forall_mem_cons.mp hsize
    rw [List.map_cons,List.sum_cons,ih hrest,extent_cons,Page]
    omega

/-- The layout ends in the window. -/
theorem Acceptable.extent_le (h : Acceptable parts) : extent parts≤2^19 := by
  have hend := h.end_le
  rw [extent_eq h.size_mod,kernelVirtualBase] at hend
  omega

/-- Every place is in it, with its guard page. -/
theorem Acceptable.inWindow (h : Acceptable parts) :
    ∀ place∈placesFrom 0 parts,place.start+place.pages+1≤2^19 := by
  intro place hm
  have hextent := h.extent_le
  have hend := (mem_placesFrom hm).2.1
  omega

/-- The guard page of a place. -/
theorem guardOf_region (place : Placement) :
    guardOf place.region.1=kernelVirtualBase+(place.start+place.pages)*4096 := by
  rw [guardOf,Placement.region]
  dsimp only
  omega

/-- Its entry is the one behind those of the place. -/
theorem entryIndex_guardOf (place : Placement) :
    entryIndex (guardOf place.region.1)=place.start+place.pages := by
  rw [entryIndex,guardOf_region,Page]
  omega

/-- It is apart from every place. -/
theorem guardOf_apart {start : ℕ} {place other : Placement} (hm : place∈placesFrom start parts)
    (ho : other∈placesFrom start parts) :
    Apart (guardOf place.region.1) Page other.region.1.virtualBase other.region.1.size := by
  have hapart := place_apart hm ho
  rw [Apart,guardOf_region,Placement.region,Page]
  dsimp only
  omega

/-- The guard pages of every layout are real. -/
theorem Acceptable.guarded (h : Acceptable parts)
    (hzero : ∀ index, index<2^19 → entryAt memory (pml4+0x4000) index=0#64) :
    Guarded (pml4+0x4000) memory (layOut kernelVirtualBase parts) := by
  have hextent := h.extent_le
  have hguard := h.inWindow
  have hwindow : ∀ place∈placesFrom 0 parts,place.InWindow := by
    intro place hm
    have hle := hguard place hm
    rw [Placement.InWindow]
    omega
  have hordered := placesFrom_ordered 0 parts
  have hbehind : (placesFrom 0 parts).Pairwise Behind :=
    hordered.imp (fun {first second} hle => by rw [Behind]; omega)
  have hlayout := @layOut_eq parts 0 h.size_mod (by omega)
  rw [Nat.zero_mul,Nat.add_zero] at hlayout
  rw [hlayout]
  refine ⟨?_,?_,?_,nodup_writtenEntries hwindow hbehind,?_,?_,?_⟩
  · refine (List.isChain_map Placement.region).mpr ((placesFrom_next 0 parts).imp ?_)
    intro first second hnext
    rw [guardOf_region,Placement.region,Page,hnext]
    dsimp only
    omega
  · refine List.pairwise_map.mpr (hordered.imp ?_)
    intro first second hnext
    rw [guardOf_region,Placement.region,Page]
    dsimp only
    omega
  · intro region hregion other hother
    obtain ⟨place,hm,rfl⟩ := List.mem_map.mp hregion
    obtain ⟨second,hs,rfl⟩ := List.mem_map.mp hother
    exact guardOf_apart hm hs
  · intro index hindex
    refine mapped_apart hwindow pml4 (fun place hm hholds => hindex ?_) memory
    exact (mem_writtenEntries hwindow).mpr ⟨place,hm,hholds⟩
  · intro region hregion
    obtain ⟨place,hm,rfl⟩ := List.mem_map.mp hregion
    rw [entryIndex_guardOf,mapped_apart hwindow pml4 (fun other ho hholds => ?_) memory]
    · exact hzero _ (by have hle := hguard place hm; omega)
    · have hapart := place_apart hm ho
      omega
  · intro region hregion address hlow hhigh
    obtain ⟨place,hm,rfl⟩ := List.mem_map.mp hregion
    obtain ⟨-,-,part,hpart,hphysical,hpages⟩ := mem_placesFrom hm
    have hmod := h.physical_mod part hpart
    have hbelow := h.physical_le part hpart
    have hsize := h.size_mod part hpart
    rw [guardOf_region] at hhigh
    simp only [Placement.region] at hlow ⊢
    have hindex : entryIndex address=place.start+
        (address-(kernelVirtualBase+place.start*4096))/4096 := by
      rw [entryIndex,Page]
      omega
    rw [hindex]
    refine mapped_page hwindow hbehind hm ?_ pml4 memory ?_ ?_
    · omega
    · rw [hphysical]
      exact hmod
    · rw [hphysical,hpages]
      rw [Page] at hsize
      omega

end Layout

/-- Starting from zeroed page tables, every layout of whole pages that ends in
the address space has real guard pages, and the seven regions of the bootloader
are such a layout. -/
theorem layOut_guarded {pml4 : ℕ} {memory : Memory}
    (hzero : ∀ index, index<2^19 → entryAt memory (pml4+0x4000) index=0#64) :
    (∀ parts,Acceptable parts →
      Guarded (pml4+0x4000) memory (layOut kernelVirtualBase parts)) ∧
    ∀ boot,Acceptable (partsOf boot) → Guarded (pml4+0x4000) memory boot.regions := by
  refine ⟨fun parts h => h.guarded hzero,fun boot h => ?_⟩
  rw [regions_eq_layOut]
  exact h.guarded hzero

/-- The regions of a small machine. -/
theorem sample_guarded : Guarded (0x1064000+0x4000) (fun _ => 0) (sampleBoot 16).regions := by
  have hzero : ∀ index, index<2^19 → entryAt (fun _ => 0) (0x1064000+0x4000) index=0#64 := by
    intro index _
    rw [entryAt,readLE_zero (fun _ _ _ => rfl)]
  exact (layOut_guarded hzero).2 (sampleBoot 16)
    ⟨by decide +kernel,by decide +kernel,by decide +kernel,by decide +kernel⟩

end WorkbenchOS.BootGuardPages
