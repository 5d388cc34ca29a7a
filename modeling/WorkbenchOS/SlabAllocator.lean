import WorkbenchOS.ByteMemory
import WorkbenchOS.LibStd
import WorkbenchOS.TransitionRuns

/-!
# The slab allocator

`Kernel/Heap/SlabAllocator.cpp` on a byte memory. A slab is one page: 48
bytes of metadata, then objects of one size. Free objects are chained
through their first word. The chain `initialise` builds has no null at its
end; the counter of free objects alone keeps `allocate` off the word behind
the last object.
-/

namespace WorkbenchOS.SlabAllocator

open ByteMemory LibStd TransitionRuns

/-- `sizeof(SlabPage)`. -/
def sizeofSlabPage : ℕ := 48

/-- `MAX_OBJECT_SIZE`. -/
def maxObjectSize : ℕ := Page-sizeofSlabPage

/-- A 64-bit word. -/
def word (memory : Memory) (address : ℕ) : ℕ := readLE memory address 8

/-- Store a 64-bit word. -/
def setWord (memory : Memory) (address value : ℕ) : Memory := writeLE memory address 8 value

/-- `SlabPage::m_object_size`. -/
def objectSize (memory : Memory) (page : ℕ) : ℕ := word memory page

/-- `SlabPage::m_free_objects`. -/
def freeObjects (memory : Memory) (page : ℕ) : ℕ := word memory (page+8)

/-- `SlabPage::m_total_objects`. -/
def totalObjects (memory : Memory) (page : ℕ) : ℕ := word memory (page+16)

/-- `SlabPage::m_next_page`. -/
def nextPage (memory : Memory) (page : ℕ) : ℕ := word memory (page+24)

/-- `SlabPage::m_free_list`. -/
def freeList (memory : Memory) (page : ℕ) : ℕ := word memory (page+40)

/-- `SlabPage::has_free_objects`. -/
def hasFreeObjects (memory : Memory) (page : ℕ) : Bool := 0<freeObjects memory page

/-- `SlabPage::get_object_address`. -/
def getObjectAddress (memory : Memory) (page index : ℕ) : ℕ :=
  u64 (page+sizeofSlabPage+u64 (objectSize memory page*index))

/-- `SlabPage::contains_object_at_address`. -/
def containsObjectAtAddress (page address : ℕ) : Bool :=
  page<address ∧ address<u64 (page+0x1000)

/-- The loop of `SlabPage::initialise`, from object `i` on. The guard of the
conditional is always true, so the last object is linked as well. -/
def linkObjects (page : ℕ) : (remaining i : ℕ)→Memory→Memory
  | 0,_,memory => memory
  | remaining+1,i,memory =>
    let objectAddress := getObjectAddress memory page i
    let nextObjectAddress :=
      if i<totalObjects memory page then getObjectAddress memory page (i+1) else 0
    linkObjects page remaining (i+1) (setWord memory objectAddress nextObjectAddress)

/-- `SlabPage::initialise`. -/
def initialisePage (memory : Memory) (page size : ℕ) : Memory :=
  let sized := setWord memory page size
  let total := (Page-sizeofSlabPage)/size
  let counted := setWord (setWord sized (page+16) total) (page+8) total
  let linked := linkObjects page total 0 counted
  setWord linked (page+40) (getObjectAddress linked page 0)

/-- `SlabPage::allocate`. -/
def allocatePage (memory : Memory) (page : ℕ) : Except Error ℕ×Memory :=
  if freeList memory page=0 then (.error (.fromCode 1),memory)
  else
    let freeObject := freeList memory page
    let unlinked := setWord memory (page+40) (word memory freeObject)
    (.ok freeObject,setWord unlinked (page+8) (u64Sub (freeObjects unlinked page) 1))

/-- `SlabPage::free`. -/
def freeIntoPage (memory : Memory) (page address : ℕ) : Memory :=
  let linked := if freeList memory page=0 then
      setWord (setWord memory (page+40) address) address 0
    else setWord (setWord memory address (freeList memory page)) (page+40) address
  setWord linked (page+8) (freeObjects linked page+1)

/-- `Slab`. -/
structure Slab where
  /-- `m_head`. -/
  head : ℕ
  /-- `m_initialised`. -/
  initialised : Bool
  /-- `m_object_size`. -/
  objectSize : ℕ

/-- `Slab::initialise` once `allocate_kernel_heap_page` has returned a page;
the frame behind it has just been zeroed by `Bitmap::allocate`. -/
def initialise (memory : Memory) (page size : ℕ) : Slab×Memory :=
  (⟨page,true,size⟩,initialisePage (fill memory page Page 0) page size)

/-- The page loop of `Slab::allocate`; pages that do not end in a null link
are walked for ever. -/
def allocateLoop (memory : Memory) : (fuel page : ℕ)→Option (Except Error ℕ×Memory)
  | 0,_ => none
  | fuel+1,page =>
    if page=0 then some (.error (.fromCode 1),memory)
    else if hasFreeObjects memory page then some (allocatePage memory page)
    else allocateLoop memory fuel (nextPage memory page)

/-- The page loop of `Slab::free`. -/
def freeLoop (memory : Memory) (address : ℕ) : (fuel page : ℕ)→Option (Except Error Unit×Memory)
  | 0,_ => none
  | fuel+1,page =>
    if page=0 then some (.error (.fromCode 1),memory)
    else if containsObjectAtAddress page address then
      some (.ok (),freeIntoPage memory page address)
    else freeLoop memory address fuel (nextPage memory page)

/-- Iterations the page loops are given: the page and the null behind it. -/
def pageFuel : ℕ := 2

/-- `Slab::allocate`. The assertion on the head stops the kernel. -/
def allocate (slab : Slab) (memory : Memory) : Option (Except Error ℕ×Memory) :=
  if slab.head=0 then none else allocateLoop memory pageFuel slab.head

/-- `Slab::free`. -/
def free (slab : Slab) (memory : Memory) (address : ℕ) : Option (Except Error Unit×Memory) :=
  freeLoop memory address pageFuel slab.head

/-- Number of objects of a page. -/
def objectCount (size : ℕ) : ℕ := (0x1000-48)/size

/-- Address of object `i`. -/
def slot (page size i : ℕ) : ℕ := page+48+size*i

/-- All object addresses of a page. -/
def slots (page size : ℕ) : List ℕ := (List.range (objectCount size)).map (slot page size)

/-- The chain of free objects that begins at `head`; nothing is said about
the link of its last object. -/
def FreeChain (memory : Memory) : ℕ→List ℕ→Prop
  | _,[] => True
  | head,object::rest => head=object ∧ FreeChain memory (word memory object) rest

/-- Page and object size of a slab. -/
structure Fitting (page size : ℕ) : Prop where
  /-- An object holds a link. -/
  size_ge : 8≤ size
  /-- One object fits. -/
  size_lt : size< maxObjectSize
  /-- The page is not null. -/
  page_pos : 0<page
  /-- The page is not the last one of the address space. -/
  page_lt : page+4096<2^64

/-- The metadata agree with a list of free and a list of live objects, which
together are all objects. -/
structure PageInvariant (memory : Memory) (page size : ℕ) (free live : List ℕ) : Prop where
  /-- `m_object_size`. -/
  size_eq : objectSize memory page=size
  /-- `m_free_objects` counts the free list. -/
  free_eq : freeObjects memory page=free.length
  /-- The only page. -/
  next_eq : nextPage memory page=0
  /-- The free objects are chained. -/
  chain : FreeChain memory (freeList memory page) free
  /-- Every object is free or live, and none is both. -/
  split : (free++live).Perm (slots page size)

section Memory

variable {memory : Memory} {page size : ℕ}

theorem word_setWord_self (memory : Memory) (address value : ℕ) :
    word (setWord memory address value) address=u64 value := by
  unfold word setWord u64
  rw [readLE_writeLE_self]
  norm_num

theorem word_setWord_apart (memory : Memory) {address other value : ℕ}
    (h : address+8≤other ∨ other+8≤address) :
    word (setWord memory address value) other=word memory other := by
  unfold word setWord
  refine readLE_writeLE_apart memory ?_
  unfold Apart
  omega

/-- The objects fit behind the metadata. -/
theorem size_mul_le {i : ℕ} (hi : i≤objectCount size) : size*i≤4048 :=
  (Nat.mul_le_mul_left size hi).trans (Nat.mul_div_le 4048 size)

/-- Every object lies inside the page, behind the metadata. -/
theorem slot_bounds (page : ℕ) {i : ℕ} (hi : i<objectCount size) :
    page+48≤ slot page size i ∧ slot page size i+size≤page+0x1000 := by
  have hmul : size*(i+1)≤4048 := size_mul_le hi
  rw [Nat.mul_succ] at hmul
  unfold slot
  omega

/-- Different objects do not overlap. -/
theorem slot_apart (page size : ℕ) {i j : ℕ} (h : i<j) : slot page size i+size≤ slot page size j := by
  have hmul : size*(i+1)≤ size*j := Nat.mul_le_mul_left size h
  rw [Nat.mul_succ] at hmul
  unfold slot
  omega

theorem mem_slots {object : ℕ} :
    object∈slots page size ↔ ∃ i, i<objectCount size ∧ object=slot page size i := by
  unfold slots
  rw [List.mem_map]
  constructor
  · rintro ⟨i,hi,rfl⟩
    exact ⟨i,List.mem_range.mp hi,rfl⟩
  · rintro ⟨i,hi,rfl⟩
    exact ⟨i,List.mem_range.mpr hi,rfl⟩

/-- Objects of a page are at least a word apart. -/
theorem slots_apart {first second : ℕ} (hf : first∈slots page size)
    (hs : second∈slots page size) (hne : first≠second) :
    first+size≤ second ∨ second+size≤first := by
  obtain ⟨i,-,rfl⟩ := mem_slots.mp hf
  obtain ⟨j,-,rfl⟩ := mem_slots.mp hs
  rcases Nat.lt_trichotomy i j with hlt|heq|hlt
  · exact Or.inl (slot_apart page size hlt)
  · exact absurd (congrArg (slot page size) heq) hne
  · exact Or.inr (slot_apart page size hlt)

/-- As many as are counted. -/
theorem length_slots : (slots page size).length=objectCount size := by
  rw [slots,List.length_map,List.length_range]

/-- A page has at most 4048 objects. -/
theorem length_slots_le : (slots page size).length≤4048 :=
  length_slots.trans_le (Nat.div_le_self _ _)

theorem nodup_slots (hge : 8≤ size) : (slots page size).Nodup := by
  refine List.Nodup.map_on ?_ List.nodup_range
  intro i _ j _ heq
  rcases Nat.lt_trichotomy i j with hlt|heq'|hlt
  · have ha := slot_apart page size hlt
    omega
  · exact heq'
  · have ha := slot_apart page size hlt
    omega

/-- Unchanged links keep the chain. -/
theorem chain_congr {after : Memory} {head : ℕ} {free : List ℕ}
    (h : ∀ object∈free,word after object=word memory object)
    (hc : FreeChain memory head free) : FreeChain after head free := by
  induction free generalizing head with
  | nil => trivial
  | cons object rest ih =>
    refine ⟨hc.1,?_⟩
    rw [h object List.mem_cons_self]
    exact ih (fun other hm => h other (List.mem_cons_of_mem _ hm)) hc.2

/-- Objects that are linked in order form a chain. -/
theorem chain_range {i n : ℕ}
    (h : ∀ j, i≤j → j< i+n → word memory (slot page size j)=slot page size (j+1)) :
    FreeChain memory (slot page size i) ((List.range' i n).map (slot page size)) := by
  induction n generalizing i with
  | zero => trivial
  | succ n ih =>
    rw [List.range'_succ,List.map_cons]
    refine ⟨rfl,?_⟩
    rw [h i le_rfl (by omega)]
    exact ih (fun j hj hlt => h j (by omega) (by omega))

/-- Object addresses do not wrap. -/
theorem getObjectAddress_eq (hlt : page+4096<2^64) (hs : objectSize memory page=size) {i : ℕ}
    (hi : i≤objectCount size) : getObjectAddress memory page i=slot page size i := by
  have hmul : size*i≤4048 := size_mul_le hi
  unfold getObjectAddress slot sizeofSlabPage
  rw [hs,u64_of_lt (by omega : size*i<2^64),u64_of_lt (by omega)]

/-- The linking loop goes on after one object, and the size and the number of
objects stay in the header of the page. -/
theorem linkObjects_succ (h : page+4096<2^64) (remaining : ℕ) {i : ℕ}
    (hs : objectSize memory page=size) (ht : totalObjects memory page=objectCount size)
    (hi : i+remaining<objectCount size) :
    ∃ next,next=setWord memory (slot page size i) (slot page size (i+1)) ∧
      linkObjects page (remaining+1) i memory=linkObjects page remaining (i+1) next ∧
      objectSize next page=size ∧ totalObjects next page=objectCount size := by
  have hlow : page+48≤ slot page size i := by
    unfold slot
    omega
  refine ⟨_,rfl,?_,?_,?_⟩
  · rw [linkObjects,ht,if_pos (by omega),getObjectAddress_eq h hs (by omega),
      getObjectAddress_eq h hs (by omega)]
  · unfold objectSize at hs ⊢
    rw [word_setWord_apart memory (by omega),hs]
  · unfold totalObjects at ht ⊢
    rw [word_setWord_apart memory (by omega),ht]

/-- The linking loop: each object gets the address of the next, and nothing
in front of the first one changes. -/
theorem linkObjects_spec (hge : 8≤ size) (h : page+4096<2^64) (remaining : ℕ) {i : ℕ}
    (hs : objectSize memory page=size) (ht : totalObjects memory page=objectCount size)
    (hi : i+remaining≤objectCount size) :
    (∀ j, i≤j → j< i+remaining →
      word (linkObjects page remaining i memory) (slot page size j)=slot page size (j+1)) ∧
    ∀ address, address+8≤ slot page size i →
      word (linkObjects page remaining i memory) address=word memory address := by
  induction remaining generalizing i memory with
  | zero => exact ⟨fun j hj hlt => absurd hlt (by omega),fun _ _ => rfl⟩
  | succ remaining ih =>
    have hnext := slot_apart page size (Nat.lt_add_one i)
    have hlt : slot page size (i+1)<2^64 := by
      have hmul : size*(i+1)≤4048 := size_mul_le (by omega)
      unfold slot
      omega
    obtain ⟨next,rfl,hstep,hs',ht'⟩ := linkObjects_succ h remaining hs ht
      (show i+remaining<objectCount size by omega)
    obtain ⟨hlinks,hkept⟩ := ih (i := i+1) hs' ht' (by omega)
    rw [hstep]
    refine ⟨?_,?_⟩
    · intro j hj hjlt
      by_cases heq : j=i
      · rw [heq,hkept _ (by omega),word_setWord_self,u64_of_lt hlt]
      · exact hlinks j (by omega) (by omega)
    · intro address ha
      rw [hkept address (by omega),word_setWord_apart memory (by omega)]

/-- The header that a page gets before its objects are linked. -/
theorem header_spec (memory : Memory) (page : ℕ) (hsize : size<2^64) :
    ∃ counted,setWord (setWord (setWord memory page size) (page+16) (objectCount size)) (page+8)
        (objectCount size)=counted ∧
      objectSize counted page=size ∧ totalObjects counted page=objectCount size ∧
      freeObjects counted page=objectCount size ∧ nextPage counted page=nextPage memory page := by
  have hcount : objectCount size≤4048 := Nat.div_le_self _ _
  refine ⟨_,rfl,?_,?_,?_,?_⟩
  · rw [objectSize,word_setWord_apart _ (by omega),word_setWord_apart _ (by omega),
      word_setWord_self,u64_of_lt hsize]
  · rw [totalObjects,word_setWord_apart _ (by omega),word_setWord_self,u64_of_lt (by omega)]
  · rw [freeObjects,word_setWord_self,u64_of_lt (by omega)]
  · rw [nextPage,word_setWord_apart _ (by omega),word_setWord_apart _ (by omega),
      word_setWord_apart _ (by omega)]
    rfl

/-- Behind this header the objects are linked in order, and the list begins
with the first one. -/
theorem linked_spec (hge : 8≤ size) (h : page+4096<2^64) {counted : Memory}
    (hs : objectSize counted page=size) (ht : totalObjects counted page=objectCount size) :
    ∃ linked,setWord (linkObjects page (objectCount size) 0 counted) (page+40)
        (getObjectAddress (linkObjects page (objectCount size) 0 counted) page 0)=linked ∧
      freeList linked page=slot page size 0 ∧
      (∀ j, j<objectCount size → word linked (slot page size j)=slot page size (j+1)) ∧
      ∀ address, address+8≤page+40 → word linked address=word counted address := by
  have hfirst : slot page size 0=page+48 := by
    unfold slot
    omega
  obtain ⟨hlinks,hkept⟩ := linkObjects_spec hge h (objectCount size) (i := 0) hs ht (by omega)
  have hsl : objectSize (linkObjects page (objectCount size) 0 counted) page=size :=
    (hkept page (by omega)).trans hs
  rw [getObjectAddress_eq h hsl (Nat.zero_le _)]
  refine ⟨_,rfl,?_,?_,?_⟩
  · rw [freeList,word_setWord_self,u64_of_lt (by omega)]
  · intro j hj
    have hb := slot_bounds page hj
    rw [word_setWord_apart _ (by omega)]
    exact hlinks j (Nat.zero_le _) (by omega)
  · intro address ha
    rw [word_setWord_apart _ (by omega)]
    exact hkept address (by omega)

/-- `SlabPage::initialise` counts every object as free and links it to the
next one, the last one included. -/
theorem initialisePage_spec (memory : Memory) (hge : 8≤ size) (hle : size≤0x1000-48)
    (h : page+4096<2^64) :
    objectSize (initialisePage memory page size) page=size ∧
      freeObjects (initialisePage memory page size) page=objectCount size ∧
      nextPage (initialisePage memory page size) page=nextPage memory page ∧
      freeList (initialisePage memory page size) page=slot page size 0 ∧
      ∀ j, j<objectCount size →
        word (initialisePage memory page size) (slot page size j)=slot page size (j+1) := by
  obtain ⟨counted,hcounted,hs,ht,hf,hn⟩ := @header_spec size memory page (by omega)
  obtain ⟨linked,hlinked,hhead,hlinks,hkept⟩ := linked_spec hge h hs ht
  have heq : initialisePage memory page size=linked := by
    rw [← hlinked,← hcounted]
    rfl
  rw [heq]
  exact ⟨(hkept page (by omega)).trans hs,(hkept (page+8) (by omega)).trans hf,
    (hkept (page+24) (by omega)).trans hn,hhead,hlinks⟩

/-- The page with its header, before the objects are linked. -/
def countedPage (memory : Memory) (page size : ℕ) : Memory :=
  setWord (setWord (setWord (fill memory page Page 0) page size) (page+16) (objectCount size))
    (page+8) (objectCount size)

/-- The size and the number of objects are in it. -/
theorem countedPage_header (memory : Memory) (h : Fitting page size) :
    objectSize (countedPage memory page size) page=size ∧
      totalObjects (countedPage memory page size) page=objectCount size := by
  have hlt := h.size_lt
  unfold maxObjectSize sizeofSlabPage Page at hlt
  obtain ⟨counted,hcounted,hs,ht,-,-⟩ := @header_spec size (fill memory page Page 0) page (by omega)
  rw [countedPage,hcounted]
  exact ⟨hs,ht⟩

/-- `initialise` links the objects behind this header. -/
theorem initialise_eq (memory : Memory) (page size : ℕ) :
    (initialise memory page size).2=
      setWord (linkObjects page (objectCount size) 0 (countedPage memory page size)) (page+40)
        (getObjectAddress (linkObjects page (objectCount size) 0 (countedPage memory page size))
          page 0) := rfl

/-- `initialise` leaves every object free. -/
theorem initialise_spec (memory : Memory) (h : Fitting page size) :
    PageInvariant (initialise memory page size).2 page size (slots page size) [] := by
  have hlt := h.size_lt
  unfold maxObjectSize sizeofSlabPage Page at hlt
  have hzero : nextPage (fill memory page Page 0) page=0 := by
    refine readLE_zero ?_
    intro x hx hy
    exact fill_inside memory 0 (by omega) (by unfold Page; omega)
  have heq : (initialise memory page size).2=initialisePage (fill memory page Page 0) page size :=
    rfl
  obtain ⟨hs,hf,hn,hhead,hlinks⟩ :=
    initialisePage_spec (fill memory page Page 0) h.size_ge hlt.le h.page_lt
  rw [heq]
  refine ⟨hs,hf.trans length_slots.symm,hn.trans hzero,?_,by rw [List.append_nil]⟩
  rw [hhead]
  unfold slots
  rw [List.range_eq_range']
  exact chain_range (fun j _ hj => hlinks j (by omega))

end Memory

/-- The slab with the objects its clients hold. -/
structure SlabState where
  /-- The slab. -/
  slab : Slab
  /-- The memory. -/
  memory : Memory
  /-- Addresses of the live objects, the latest first. -/
  live : List ℕ

/-- Calls of the slab and stores of its clients. -/
inductive SlabAction where
  /-- `allocate()`. -/
  | allocate
  /-- `free(address)`. -/
  | free (address : ℕ)
  /-- A client stores a byte into an object it holds. -/
  | store (address offset : ℕ) (value : UInt8)
  deriving DecidableEq

/-- One action. -/
def slabStep (state : SlabState) : SlabAction→Option SlabState
  | .allocate => (allocate state.slab state.memory).map (fun outcome => match outcome with
    | (.ok address,memory) => ⟨state.slab,memory,address::state.live⟩
    | (.error _,memory) => ⟨state.slab,memory,state.live⟩)
  | .free address => (free state.slab state.memory address).map (fun outcome =>
      ⟨state.slab,outcome.2,state.live.erase address⟩)
  | .store address offset value =>
    some {state with memory := fill state.memory (address+offset) 1 value}

/-- Only live objects are freed and written, and only inside. -/
def SlabLegal (size : ℕ) (state : SlabState) : SlabAction→Prop
  | .allocate => True
  | .free address => address∈state.live
  | .store address offset _ => address∈state.live ∧ offset< size

instance (size : ℕ) (state : SlabState) : DecidablePred (SlabLegal size state)
  | .allocate => isTrue trivial
  | .free _ => inferInstanceAs (Decidable (_∈_))
  | .store _ _ _ => inferInstanceAs (Decidable (_ ∧ _))

/-- The slab right after `Slab::initialise`. -/
def initialised (memory : Memory) (page size : ℕ) : SlabState :=
  ⟨(initialise memory page size).1,(initialise memory page size).2,[]⟩

/-- Live objects are different objects of the page, and the counter is the
number of objects that are not live. -/
structure SlabSound (page size : ℕ) (state : SlabState) : Prop where
  /-- Every live object is an object of the page, inside it. -/
  objects : ∀ address∈state.live,∃ i, i<(0x1000-48)/size ∧ address=page+48+size*i ∧
    address+size≤page+0x1000
  /-- No address is handed out twice. -/
  nodup : state.live.Nodup
  /-- `m_free_objects` is the number of objects that are not live. -/
  count : freeObjects state.memory page=
    ((List.range ((0x1000-48)/size)).filter (fun i => page+48+size*i∉state.live)).length

/-- `allocate` returns an object that is not live, and fails exactly when
every object is live. -/
def AllocatesRight (page size : ℕ) (state : SlabState) : SlabAction→Prop
  | .allocate => ∃ result memory, allocate state.slab state.memory=some (result,memory) ∧
      (∀ address, result=.ok address → address∉state.live ∧
        ∃ i, i<(0x1000-48)/size ∧ address=page+48+size*i) ∧
      ((∃ error, result=.error error) ↔
        ∀ i, i<(0x1000-48)/size → page+48+size*i∈state.live)
  | _ => True

/-- The state of a slab whose page is in order. -/
structure SlabInvariant (page size : ℕ) (state : SlabState) : Prop where
  /-- The slab's page. -/
  head_eq : state.slab.head=page
  /-- The page is in order. -/
  page : ∃ free, PageInvariant state.memory page size free state.live

section Operations

variable {memory : Memory} {page size : ℕ} {free live : List ℕ}

/-- Free objects are objects of the page. -/
theorem PageInvariant.free_mem (h : PageInvariant memory page size free live) {object : ℕ}
    (ho : object∈free) : object∈slots page size :=
  h.split.mem_iff.mp (List.mem_append_left _ ho)

/-- Live objects are objects of the page. -/
theorem PageInvariant.live_mem (h : PageInvariant memory page size free live) {object : ℕ}
    (ho : object∈live) : object∈slots page size :=
  h.split.mem_iff.mp (List.mem_append_right _ ho)

/-- An object is behind the header of its page and inside the page. -/
theorem slots_bounds {object : ℕ} (h : object∈slots page size) :
    page+48≤object ∧ object+size≤page+0x1000 := by
  obtain ⟨i,hi,rfl⟩ := mem_slots.mp h
  exact slot_bounds page hi

/-- No object is listed twice. -/
theorem PageInvariant.nodup (h : PageInvariant memory page size free live)
    (hf : Fitting page size) : (free++live).Nodup := h.split.nodup_iff.mpr (nodup_slots hf.size_ge)

/-- A free object does not overlap a live one. -/
theorem PageInvariant.free_apart_live (h : PageInvariant memory page size free live)
    (hf : Fitting page size) {other object : ℕ} (hm : other∈free) (ho : object∈live) :
    other+size≤object ∨ object+size≤other := by
  have hne : other≠object := by
    rintro rfl
    exact (List.disjoint_of_nodup_append (h.nodup hf)) hm ho
  exact slots_apart (h.free_mem hm) (h.live_mem ho) hne

/-- There are at most 4048 objects. -/
theorem PageInvariant.length_le (h : PageInvariant memory page size free live) :
    free.length+live.length≤4048 := by
  rw [← List.length_append,h.split.length_eq]
  exact length_slots_le

/-- Memory that agrees on the metadata and on the free objects' links. -/
theorem PageInvariant.congr (h : PageInvariant memory page size free live) {after : Memory}
    (hm : ∀ address, page≤address → address+8≤page+48 → word after address=word memory address)
    (ho : ∀ object∈free,word after object=word memory object) :
    PageInvariant after page size free live := by
  refine ⟨?_,?_,?_,?_,h.split⟩
  · exact (hm page le_rfl (by omega)).trans h.size_eq
  · exact (hm (page+8) (by omega) (by omega)).trans h.free_eq
  · exact (hm (page+24) (by omega) (by omega)).trans h.next_eq
  · refine chain_congr ho ?_
    unfold freeList
    rw [hm (page+40) (by omega) (by omega)]
    exact h.chain

/-- While the head of the list is not null, it is what `allocate` returns. Its
link becomes the head, and one object less is counted. -/
theorem allocatePage_words (h : freeList memory page≠0) :
    ∃ after,allocatePage memory page=(.ok (freeList memory page),after) ∧
      freeList after page=word memory (freeList memory page) ∧
      freeObjects after page=u64Sub (freeObjects memory page) 1 ∧
      ∀ address, address+8≤page+8 ∨ page+16≤address → address+8≤page+40 ∨ page+48≤address →
        word after address=word memory address := by
  have hcount : freeObjects (setWord memory (page+40) (word memory (freeList memory page))) page=
      freeObjects memory page := by
    unfold freeObjects
    rw [word_setWord_apart _ (by omega)]
  have hlink : word memory (freeList memory page)<2^64 := readLE_lt _ _ _
  refine ⟨setWord (setWord memory (page+40) (word memory (freeList memory page))) (page+8)
    (u64Sub (freeObjects memory page) 1),?_,?_,?_,?_⟩
  · rw [allocatePage,if_neg h]
    dsimp only
    rw [hcount]
  · rw [freeList,word_setWord_apart _ (by omega),word_setWord_self,u64_of_lt hlink]
  · rw [freeObjects,word_setWord_self]
    exact u64_of_lt (u64_lt _)
  · intro address hcounter hlist
    rw [word_setWord_apart _ (by omega),word_setWord_apart _ (by omega)]

/-- Taking the first free object. -/
theorem allocatePage_spec {object : ℕ} {rest : List ℕ} (hf : Fitting page size)
    (h : PageInvariant memory page size (object::rest) live) :
    ∃ after, allocatePage memory page=(.ok object,after) ∧
      PageInvariant after page size rest (object::live) := by
  have hlist : freeList memory page=object := h.chain.1
  have hb := slots_bounds (h.free_mem List.mem_cons_self)
  have hge := hf.size_ge
  have hlength := h.length_le
  have hcount := h.free_eq
  rw [List.length_cons] at hlength hcount
  have hne : freeList memory page≠0 := by
    rw [hlist]
    omega
  obtain ⟨after,he,hhead,hless,hwords⟩ := allocatePage_words hne
  rw [hcount,u64Sub_of_le (by omega) (by omega),Nat.add_sub_cancel] at hless
  rw [hlist] at he hhead
  refine ⟨after,he,?_,hless,?_,?_,List.perm_middle.trans h.split⟩
  · exact (hwords page (by omega) (by omega)).trans h.size_eq
  · exact (hwords (page+24) (by omega) (by omega)).trans h.next_eq
  · rw [hhead]
    refine chain_congr (fun other hm => ?_) h.chain.2
    have hother := slots_bounds (h.free_mem (List.mem_cons_of_mem _ hm))
    exact hwords other (by omega) (by omega)

/-- `allocate` takes the first free object, or fails when there is none. -/
theorem allocate_spec {slab : Slab} (hf : Fitting page size) (hs : slab.head=page)
    (h : PageInvariant memory page size free live) :
    (free=[] ∧ allocate slab memory=some (.error (.fromCode 1),memory)) ∨
    ∃ object rest after, free=object::rest ∧ allocate slab memory=some (.ok object,after) ∧
      PageInvariant after page size rest (object::live) := by
  have hpos := hf.page_pos
  have hne : page≠0 := by omega
  cases free with
  | nil =>
    have hno : hasFreeObjects memory page=false := by
      unfold hasFreeObjects
      rw [h.free_eq]
      rfl
    refine Or.inl ⟨rfl,?_⟩
    simp only [allocate,pageFuel,allocateLoop,hs,hne,hno,h.next_eq,if_false,if_true,
      Bool.false_eq_true]
  | cons object rest =>
    obtain ⟨after,he,hafter⟩ := allocatePage_spec hf h
    have hyes : hasFreeObjects memory page=true := by
      unfold hasFreeObjects
      rw [h.free_eq,List.length_cons]
      exact decide_eq_true (Nat.succ_pos _)
    refine Or.inr ⟨object,rest,after,rfl,?_,hafter⟩
    simp only [allocate,pageFuel,allocateLoop,hs,hne,hyes,he,if_false,if_true]

/-- An object put in front of the free list, before it is counted. Both branches
store the old head of the list, or null when it is null already. -/
def linkedIn (memory : Memory) (page object : ℕ) : Memory :=
  if freeList memory page=0 then setWord (setWord memory (page+40) object) object 0
  else setWord (setWord memory object (freeList memory page)) (page+40) object

/-- Only the object's link and the head of the list change. -/
theorem word_linkedIn {object address : ℕ} (hobject : address+8≤object ∨ object+8≤address)
    (hlist : address+8≤page+40 ∨ page+48≤address) :
    word (linkedIn memory page object) address=word memory address := by
  unfold linkedIn
  split
  · rw [word_setWord_apart _ (by omega),word_setWord_apart _ (by omega)]
  · rw [word_setWord_apart _ (by omega),word_setWord_apart _ (by omega)]

/-- The object leads to the old head. -/
theorem linkedIn_object {object : ℕ} (h : page+48≤object) :
    word (linkedIn memory page object) object=freeList memory page := by
  have hlink : freeList memory page<2^64 := readLE_lt memory (page+40) 8
  unfold linkedIn
  split
  · rename_i hzero
    rw [word_setWord_self,hzero]
    rfl
  · rw [word_setWord_apart _ (by omega),word_setWord_self,u64_of_lt hlink]

/-- The object is the new head. -/
theorem linkedIn_freeList {object : ℕ} (h : page+48≤object) (hlt : object<2^64) :
    freeList (linkedIn memory page object) page=object := by
  unfold freeList linkedIn
  split
  · rw [word_setWord_apart _ (by omega),word_setWord_self,u64_of_lt hlt]
  · rw [word_setWord_self,u64_of_lt hlt]

/-- Giving an object back links it in and counts it. -/
theorem freeIntoPage_eq {object : ℕ} (h : page+48≤object) :
    freeIntoPage memory page object=
      setWord (linkedIn memory page object) (page+8) (freeObjects memory page+1) := by
  have hcount : freeObjects (linkedIn memory page object) page=freeObjects memory page :=
    word_linkedIn (by omega) (by omega)
  rw [← hcount]
  rfl

/-- The words of a page that got an object back. -/
theorem freeIntoPage_words {object : ℕ} (h : page+48≤object) (hlt : object<2^64) :
    freeList (freeIntoPage memory page object) page=object ∧
      word (freeIntoPage memory page object) object=freeList memory page ∧
      freeObjects (freeIntoPage memory page object) page=u64 (freeObjects memory page+1) ∧
      ∀ address, address+8≤object ∨ object+8≤address → address+8≤page+8 ∨ page+16≤address →
        address+8≤page+40 ∨ page+48≤address →
          word (freeIntoPage memory page object) address=word memory address := by
  rw [freeIntoPage_eq h]
  refine ⟨?_,?_,?_,?_⟩
  · rw [freeList,word_setWord_apart _ (by omega)]
    exact linkedIn_freeList h hlt
  · rw [word_setWord_apart _ (by omega),linkedIn_object h]
  · rw [freeObjects,word_setWord_self]
  · intro address hobject hcount hlist
    rw [word_setWord_apart _ (by omega),word_linkedIn hobject hlist]

/-- A live object becomes a free one. -/
theorem perm_givenBack {object : ℕ} (ho : object∈live) :
    (object::free++live.erase object).Perm (free++live) := by
  rw [List.cons_append]
  exact List.perm_middle.symm.trans ((List.perm_cons_erase ho).symm.append_left free)

/-- Giving an object back. -/
theorem freeIntoPage_spec {object : ℕ} (hf : Fitting page size)
    (h : PageInvariant memory page size free live) (ho : object∈live) :
    PageInvariant (freeIntoPage memory page object) page size (object::free)
      (live.erase object) := by
  have hb := slots_bounds (h.live_mem ho)
  have hge := hf.size_ge
  have hlt := hf.page_lt
  have hlength := h.length_le
  have hbehind : page+48≤object := hb.1
  obtain ⟨hlist,hlink,hcount,hwords⟩ :=
    @freeIntoPage_words memory page object hbehind (by omega)
  refine ⟨?_,?_,?_,?_,(perm_givenBack ho).trans h.split⟩
  · exact (hwords page (by omega) (by omega) (by omega)).trans h.size_eq
  · rw [hcount,h.free_eq,List.length_cons,u64_of_lt (by omega)]
  · exact (hwords (page+24) (by omega) (by omega) (by omega)).trans h.next_eq
  · refine ⟨hlist,?_⟩
    rw [hlink]
    refine chain_congr (fun other hm => ?_) h.chain
    have hother := slots_bounds (h.free_mem hm)
    have hapart := h.free_apart_live hf hm ho
    exact hwords other (by omega) (by omega) (by omega)

/-- `free` gives a live object back. -/
theorem free_spec {slab : Slab} {object : ℕ} (hf : Fitting page size) (hs : slab.head=page)
    (h : PageInvariant memory page size free live) (ho : object∈live) :
    SlabAllocator.free slab memory object=some (.ok (),freeIntoPage memory page object) := by
  have hb := slots_bounds (h.live_mem ho)
  have hge := hf.size_ge
  have hpos := hf.page_pos
  have hlt := hf.page_lt
  have hne : page≠0 := by omega
  have hcontains : containsObjectAtAddress page object=true := by
    unfold containsObjectAtAddress
    rw [u64_of_lt (by omega)]
    exact decide_eq_true ⟨by omega,by omega⟩
  simp only [SlabAllocator.free,pageFuel,freeLoop,hs,hne,hcontains,if_false,if_true]

/-- A store into a live object leaves the page in order. -/
theorem store_spec {object offset : ℕ} (value : UInt8) (hf : Fitting page size)
    (h : PageInvariant memory page size free live) (ho : object∈live) (hoff : offset< size) :
    PageInvariant (fill memory (object+offset) 1 value) page size free live := by
  have hb := slots_bounds (h.live_mem ho)
  have hge := hf.size_ge
  have hword : ∀ address, address+8≤object ∨ object+size≤address →
      word (fill memory (object+offset) 1 value) address=word memory address := by
    intro address ha
    refine readLE_congr (fill_unchanged memory value ?_)
    unfold Apart
    omega
  refine h.congr (fun address _ ha => hword address (by omega)) ?_
  intro other hm
  have hapart := h.free_apart_live hf hm ho
  exact hword other (by omega)

end Operations

section Runs

variable {page size : ℕ} {state : SlabState}

/-- Every legal action keeps the page in order. -/
theorem slabInvariant_step (hf : Fitting page size) (state : SlabState) (action : SlabAction)
    (h : SlabInvariant page size state) (hl : SlabLegal size state action) :
    ∃ next, slabStep state action=some next ∧ SlabInvariant page size next := by
  obtain ⟨free,hp⟩ := h.page
  cases action with
  | allocate =>
    rcases allocate_spec hf h.head_eq hp with ⟨-,he⟩|⟨object,rest,after,-,he,hafter⟩
    · exact ⟨state,by simp only [slabStep,he,Option.map_some],h⟩
    · exact ⟨⟨state.slab,after,object::state.live⟩,by simp only [slabStep,he,Option.map_some],
        h.head_eq,rest,hafter⟩
  | free address =>
    have he := free_spec hf h.head_eq hp hl
    exact ⟨⟨state.slab,freeIntoPage state.memory page address,state.live.erase address⟩,
      by simp only [slabStep,he,Option.map_some],h.head_eq,address::free,
      freeIntoPage_spec hf hp hl⟩
  | store address offset value =>
    exact ⟨_,rfl,h.head_eq,free,store_spec value hf hp hl.1 hl.2⟩

/-- A page in order is sound. -/
theorem SlabInvariant.sound (h : SlabInvariant page size state) (hf : Fitting page size) :
    SlabSound page size state := by
  obtain ⟨free,hp⟩ := h.page
  refine ⟨?_,(List.nodup_append.mp (hp.nodup hf)).2.1,?_⟩
  · intro address hm
    obtain ⟨i,hi,rfl⟩ := mem_slots.mp (hp.live_mem hm)
    exact ⟨i,hi,rfl,(slot_bounds page hi).2⟩
  · have hdisjoint := List.disjoint_of_nodup_append (hp.nodup hf)
    have hfilter : ((slots page size).filter (fun object => object∉state.live)).Perm free := by
      refine (hp.split.symm.filter _).trans ?_
      rw [List.filter_append]
      have hkeep : free.filter (fun object => object∉state.live)=free :=
        List.filter_eq_self.mpr (fun object ho => decide_eq_true (fun hlive => hdisjoint ho hlive))
      have hdrop : state.live.filter (fun object => object∉state.live)=[] :=
        List.filter_eq_nil_iff.mpr (fun object ho => by simp [ho])
      rw [hkeep,hdrop,List.append_nil]
    rw [hp.free_eq,← hfilter.length_eq]
    unfold slots
    rw [List.filter_map,List.length_map]
    rfl

/-- In a page in order, `allocate` does what it should. -/
theorem SlabInvariant.allocates (h : SlabInvariant page size state) (hf : Fitting page size)
    (action : SlabAction) : AllocatesRight page size state action := by
  obtain ⟨free,hp⟩ := h.page
  cases action with
  | allocate =>
    rcases allocate_spec hf h.head_eq hp with ⟨hnil,he⟩|⟨object,rest,after,hcons,he,-⟩
    · refine ⟨_,_,he,?_,iff_of_true ⟨_,rfl⟩ ?_⟩
      · intro address hok
        cases hok
      · intro i hi
        have hmem := hp.split.mem_iff.mpr (mem_slots.mpr ⟨i,hi,rfl⟩)
        rw [hnil,List.nil_append] at hmem
        exact hmem
    · have hfree : object∈free := hcons ▸ List.mem_cons_self
      have hlive : object∉state.live :=
        fun hm => List.disjoint_of_nodup_append (hp.nodup hf) hfree hm
      obtain ⟨i,hi,hobject⟩ := mem_slots.mp (hp.free_mem hfree)
      refine ⟨_,_,he,?_,iff_of_false ?_ ?_⟩
      · intro address hok
        cases hok
        exact ⟨hlive,i,hi,hobject⟩
      · rintro ⟨error,herror⟩
        cases herror
      · intro hall
        refine hlive ?_
        rw [hobject]
        exact hall i hi
  | free address => trivial
  | store address offset value => trivial

end Runs

/-- Over every run of calls on live objects and stores into them, live
objects are different objects of the page, the counter counts the others, and
`allocate` fails exactly when there is no other. -/
theorem slab_sound {page size : ℕ} (h : Fitting page size) (memory : Memory)
    {actions : List SlabAction}
    (hl : Each slabStep (SlabLegal size) (initialised memory page size) actions) :
    Always slabStep (SlabSound page size) (initialised memory page size) actions ∧
      Each slabStep (AllocatesRight page size) (initialised memory page size) actions := by
  have hinit : SlabInvariant page size (initialised memory page size) :=
    ⟨rfl,slots page size,initialise_spec memory h⟩
  refine ⟨?_,?_⟩
  · exact (always_of_each (slabInvariant_step h) hinit hl).imp (fun _ hi => hi.sound h)
  · exact each_of_each (slabInvariant_step h) (fun _ action hi _ => hi.allocates h action) hinit hl

/-- A page of two objects is exhausted, and what is freed then is handed out
again. -/
theorem slab_sound_sample :
    Each slabStep (SlabLegal 2000) (initialised (fun _ => 1) 0x1000 2000)
        [.allocate,.store 0x1030 5 7,.allocate,.allocate,.free 0x1030,.allocate] ∧
      Always slabStep (SlabSound 0x1000 2000) (initialised (fun _ => 1) 0x1000 2000)
        [.allocate,.store 0x1030 5 7,.allocate,.allocate,.free 0x1030,.allocate] ∧
      Each slabStep (AllocatesRight 0x1000 2000) (initialised (fun _ => 1) 0x1000 2000)
        [.allocate,.store 0x1030 5 7,.allocate,.allocate,.free 0x1030,.allocate] := by
  have hl : Each slabStep (SlabLegal 2000) (initialised (fun _ => 1) 0x1000 2000)
      [.allocate,.store 0x1030 5 7,.allocate,.allocate,.free 0x1030,.allocate] := by
    decide +kernel
  exact ⟨hl,slab_sound ⟨by decide,by decide,by decide,by decide⟩ (fun _ => 1) hl⟩

end WorkbenchOS.SlabAllocator
