import WorkbenchOS.SlabAllocator

/-!
# The table of slabs

`SlabAllocator` keeps 32 slabs and hands one out for each object size. A new
slab is marked as initialised before its page has been allocated. When that
allocation fails the mark stays, and the next request for the size is given a
slab without a page.
-/

namespace WorkbenchOS.SlabTable

open ByteMemory LibStd TransitionRuns SlabAllocator

/-- `SlabError`. -/
inductive SlabError where
  /-- It has no fields. -/
  | slabError
  deriving DecidableEq

/-- `SlabAllocator` and the memory its pages are in. -/
structure Allocator where
  /-- `m_slabs`. -/
  slabs : List Slab
  /-- The memory. -/
  memory : Memory

/-- A request, with the page `allocate_kernel_heap_page` returns if it is
asked for one. -/
structure Request where
  /-- The object size. -/
  size : ℕ
  /-- The page, or nothing when its allocation fails. -/
  page : Option ℕ

/-- `Slab::is_slab_for`. -/
def isSlabFor (size : ℕ) (slab : Slab) : Bool := slab.initialised && slab.objectSize==size

/-- `Slab::initialise`: the fields are set first. -/
def slabInitialise (slab : Slab) (memory : Memory) (size : ℕ) :
    Option ℕ→Except SlabError Unit×Slab×Memory
  | none => (.error .slabError,{slab with initialised := true,objectSize := size},memory)
  | some page => (.ok (),⟨page,true,size⟩,
      initialisePage (fill memory page Page 0) page size)

/-- `SlabAllocator::find_slab`; a slab is named by its index. -/
def findSlab (allocator : Allocator) (size : ℕ) : Except SlabError ℕ :=
  match allocator.slabs.findIdx? (isSlabFor size) with
  | some i => .ok i
  | none => .error .slabError

/-- `SlabAllocator::create_slab`: the first slab that is not initialised. -/
def createSlab (allocator : Allocator) (request : Request) : Except SlabError ℕ×Allocator :=
  match allocator.slabs.findIdx? (fun slab => !slab.initialised) with
  | none => (.error .slabError,allocator)
  | some i =>
    match allocator.slabs[i]? with
    | none => (.error .slabError,allocator)
    | some slab =>
      let outcome := slabInitialise slab allocator.memory request.size request.page
      (outcome.1.map (fun _ => i),⟨allocator.slabs.set i outcome.2.1,outcome.2.2⟩)

/-- `SlabAllocator::get_or_create_slab`. The assertion stops the kernel. -/
def getOrCreateSlab (allocator : Allocator) (request : Request) :
    Option (Except SlabError ℕ×Allocator) :=
  if request.size< maxObjectSize then
    match findSlab allocator request.size with
    | .ok i => some (.ok i,allocator)
    | .error _ => some (createSlab allocator request)
  else none

/-- The allocator after a request. -/
def step (allocator : Allocator) (request : Request) : Option Allocator :=
  (getOrCreateSlab allocator request).map Prod.snd

/-- The allocator before its first request. -/
def initial (memory : Memory) : Allocator := ⟨List.replicate 32 ⟨0,false,0⟩,memory⟩

/-- A slab whose page has been allocated and initialised for the size, with
every object free. -/
structure Usable (memory : Memory) (size : ℕ) (slab : Slab) : Prop where
  /-- The slab may be found. -/
  initialised : slab.initialised=true
  /-- It has the size. -/
  size_eq : slab.objectSize=size
  /-- `m_head` is not null. -/
  head_ne : slab.head≠0
  /-- The page is in order. -/
  page : PageInvariant memory slab.head size (slots slab.head size) []

/-- Initialised slabs have different sizes. -/
def DistinctSizes (slabs : List Slab) : Prop :=
  ∀ (i j : ℕ) (first second : Slab),slabs[i]?=some first → slabs[j]?=some second → first.initialised=true →
    second.initialised=true → first.objectSize=second.objectSize → i=j

/-- What a request has to give: it returns; a slab it hands out is usable, and
allocating from that slab does not stop the kernel; initialised slabs have
different sizes; and if it fails the table is what it was. -/
def Served (allocator : Allocator) (request : Request) : Prop :=
  ∃ result after,getOrCreateSlab allocator request=some (result,after) ∧
    (∀ i,result=.ok i → ∃ slab,after.slabs[i]?=some slab ∧
      Usable after.memory request.size slab ∧ (allocate slab after.memory).isSome) ∧
    DistinctSizes after.slabs ∧
    ∀ error,result=.error error → after.slabs=allocator.slabs

/-- The object size is allowed, and a page that is returned lies inside the
address space, apart from the pages of the other slabs. -/
structure Legal (allocator : Allocator) (request : Request) : Prop where
  /-- An object holds a link. -/
  size_ge : 8≤request.size
  /-- The bound `get_or_create_slab` asserts. -/
  size_lt : request.size< maxObjectSize
  /-- A page is not null and not the last one of the address space. -/
  page : ∀ page∈request.page,0<page ∧ page+4096<2^64
  /-- It is a new page. -/
  apart : ∀ page∈request.page,∀ slab∈allocator.slabs,slab.initialised=true →
    Apart slab.head 4096 page 4096

/-- No page is refused to a request that needs one: the page is there, or the
size has a slab already, or the table is full. -/
def Backed (allocator : Allocator) (request : Request) : Prop :=
  request.page≠none ∨ (∃ slab∈allocator.slabs,isSlabFor request.size slab=true) ∨
    ∀ slab∈allocator.slabs,slab.initialised=true

/-- An allocator whose initialised slabs are all usable. -/
structure Ready (allocator : Allocator) : Prop where
  /-- Initialised slabs have pages. -/
  usable : ∀ slab∈allocator.slabs,slab.initialised=true →
    Usable allocator.memory slab.objectSize slab
  /-- Their pages hold objects of the size. -/
  fitting : ∀ slab∈allocator.slabs,slab.initialised=true → Fitting slab.head slab.objectSize
  /-- No two have one size. -/
  distinct : DistinctSizes allocator.slabs

section

variable {memory : Memory} {page size : ℕ}

/-- The linking loop writes only inside the page. -/
theorem linkObjects_outside (h : Fitting page size) (remaining : ℕ) {i x : ℕ}
    (hs : objectSize memory page=size) (ht : totalObjects memory page=objectCount size)
    (hi : i+remaining≤objectCount size) (hx : x<page ∨ page+4096≤x) :
    linkObjects page remaining i memory x=memory x := by
  induction remaining generalizing i memory with
  | zero => rfl
  | succ remaining ih =>
    have hge := h.size_ge
    have hb := slot_bounds page (show i<objectCount size by omega)
    obtain ⟨next,rfl,hstep,hs',ht'⟩ := linkObjects_succ h.page_lt remaining hs ht
      (show i+remaining<objectCount size by omega)
    rw [hstep,ih hs' ht' (by omega)]
    exact writeLE_outside memory (by omega)

/-- A page of its own is all that `initialise` writes. -/
theorem initialise_outside (memory : Memory) (h : Fitting page size) {x : ℕ}
    (hx : x<page ∨ page+4096≤x) : (initialise memory page size).2 x=memory x := by
  obtain ⟨hs,ht⟩ := countedPage_header memory h
  have hkept : countedPage memory page size x=memory x := by
    unfold countedPage setWord
    rw [writeLE_outside _ (by omega),writeLE_outside _ (by omega),writeLE_outside _ (by omega),
      fill_outside memory 0 (by unfold Page; omega)]
  rw [initialise_eq]
  unfold setWord
  rw [writeLE_outside _ (by omega),linkObjects_outside h _ hs ht (by omega) hx,hkept]

/-- A usable slab stays usable when another page is initialised. -/
theorem Usable.initialise {slab : Slab} {other : ℕ} (h : Usable memory other slab)
    (hf : Fitting page size) (hslab : Fitting slab.head other)
    (ha : Apart slab.head 4096 page 4096) :
    Usable (initialise memory page size).2 other slab := by
  have hkept : Unchanged memory (SlabAllocator.initialise memory page size).2 slab.head 4096 := by
    intro x hx hy
    refine initialise_outside memory hf ?_
    unfold Apart at ha
    omega
  refine ⟨h.initialised,h.size_eq,h.head_ne,h.page.congr ?_ ?_⟩
  · intro address hl hr
    exact readLE_congr (hkept.mono hl (by omega))
  · intro object ho
    have hge := hslab.size_ge
    obtain ⟨i,hi,rfl⟩ := mem_slots.mp ho
    have hb := slot_bounds slab.head hi
    exact readLE_congr (hkept.mono (by omega) (by omega))

/-- Allocating from a usable slab does not stop the kernel. -/
theorem Usable.allocate_isSome {slab : Slab} (h : Usable memory size slab)
    (hf : Fitting slab.head size) : (allocate slab memory).isSome := by
  rcases allocate_spec hf rfl h.page with ⟨-,he⟩|⟨object,rest,after,-,he,-⟩
  · rw [he]
    rfl
  · rw [he]
    rfl

end

section

variable {allocator : Allocator} {request : Request}

/-- What a request does: it finds a slab, or the table is full, or the first
free slab is initialised for it. -/
theorem getOrCreateSlab_cases (allocator : Allocator) (h : request.size< maxObjectSize) :
    (∃ i slab,allocator.slabs[i]?=some slab ∧ isSlabFor request.size slab=true ∧
      getOrCreateSlab allocator request=some (.ok i,allocator)) ∨
    ((∀ slab∈allocator.slabs,isSlabFor request.size slab=false) ∧
      (∀ slab∈allocator.slabs,slab.initialised=true) ∧
      getOrCreateSlab allocator request=some (.error .slabError,allocator)) ∨
    ∃ i slab,allocator.slabs[i]?=some slab ∧ slab.initialised=false ∧
      (∀ slab∈allocator.slabs,isSlabFor request.size slab=false) ∧
      getOrCreateSlab allocator request=some
        ((slabInitialise slab allocator.memory request.size request.page).1.map (fun _ => i),
          ⟨allocator.slabs.set i
            (slabInitialise slab allocator.memory request.size request.page).2.1,
          (slabInitialise slab allocator.memory request.size request.page).2.2⟩) := by
  cases hfind : allocator.slabs.findIdx? (isSlabFor request.size) with
  | some i =>
    obtain ⟨hlt,hp,-⟩ := List.findIdx?_eq_some_iff_getElem.mp hfind
    refine Or.inl ⟨i,_,List.getElem?_eq_getElem hlt,hp,?_⟩
    simp only [getOrCreateSlab,if_pos h,findSlab,hfind]
  | none =>
    have hno := List.findIdx?_eq_none_iff.mp hfind
    cases hfree : allocator.slabs.findIdx? (fun slab => !slab.initialised) with
    | none =>
      have hfull := List.findIdx?_eq_none_iff.mp hfree
      refine Or.inr (Or.inl ⟨hno,fun slab hm => by simpa using hfull slab hm,?_⟩)
      simp only [getOrCreateSlab,if_pos h,findSlab,hfind,createSlab,hfree]
    | some i =>
      obtain ⟨hlt,hp,-⟩ := List.findIdx?_eq_some_iff_getElem.mp hfree
      have hget := List.getElem?_eq_getElem hlt
      refine Or.inr (Or.inr ⟨i,_,hget,by simpa using hp,hno,?_⟩)
      simp only [getOrCreateSlab,if_pos h,findSlab,hfind,createSlab,hfree,hget]

/-- A slab that is initialised with a page leaves the allocator ready. -/
theorem Ready.create (h : Ready allocator) (hl : Legal allocator request) {page i : ℕ}
    (hp : request.page=some page) {slab : Slab} (hget : allocator.slabs[i]?=some slab)
    (hno : ∀ slab∈allocator.slabs,isSlabFor request.size slab=false) :
    Ready ⟨allocator.slabs.set i ⟨page,true,request.size⟩,
      (SlabAllocator.initialise allocator.memory page request.size).2⟩ := by
  obtain ⟨hpos,hend⟩ := hl.page page hp
  have hfit : Fitting page request.size := ⟨hl.size_ge,hl.size_lt,hpos,hend⟩
  have hi : i<allocator.slabs.length := (List.getElem?_eq_some_iff.mp hget).1
  -- every other slab has another size
  have hother : ∀ slab∈allocator.slabs,slab.initialised=true → slab.objectSize≠request.size := by
    intro slab hm hinit hsize
    have hfalse := hno slab hm
    rw [isSlabFor,hinit,hsize,Bool.true_and,beq_self_eq_true] at hfalse
    exact Bool.noConfusion hfalse
  have hnew : Usable (SlabAllocator.initialise allocator.memory page request.size).2
      request.size ⟨page,true,request.size⟩ :=
    ⟨rfl,rfl,hpos.ne',initialise_spec allocator.memory hfit⟩
  refine ⟨?_,?_,?_⟩
  · intro slab hm hinit
    rcases List.mem_or_eq_of_mem_set hm with hold|rfl
    · exact (h.usable slab hold hinit).initialise hfit (h.fitting slab hold hinit)
        (hl.apart page hp slab hold hinit)
    · exact hnew
  · intro slab hm hinit
    rcases List.mem_or_eq_of_mem_set hm with hold|rfl
    · exact h.fitting slab hold hinit
    · exact hfit
  · intro j k first second hj hk hfirst hsecond hsize
    dsimp only at hj hk
    rw [List.getElem?_set] at hj hk
    by_cases hij : i=j
    · by_cases hik : i=k
      · exact hij.symm.trans hik
      · rw [if_pos hij,if_pos (hij ▸ hi),Option.some.injEq] at hj
        rw [if_neg hik] at hk
        rw [←hj] at hsize
        exact absurd hsize.symm (hother second (List.mem_of_getElem? hk) hsecond)
    · rw [if_neg hij] at hj
      by_cases hik : i=k
      · rw [if_pos hik,if_pos (hik ▸ hi),Option.some.injEq] at hk
        rw [←hk] at hsize
        exact absurd hsize (hother first (List.mem_of_getElem? hj) hfirst)
      · rw [if_neg hik] at hk
        exact h.distinct j k first second hj hk hfirst hsecond hsize

/-- The slab a request finds is usable. -/
theorem Ready.found (h : Ready allocator) {i : ℕ} {slab : Slab}
    (hget : allocator.slabs[i]?=some slab) {size : ℕ} (hfor : isSlabFor size slab=true) :
    Usable allocator.memory size slab ∧ (allocate slab allocator.memory).isSome := by
  have hm := List.mem_of_getElem? hget
  rw [isSlabFor,Bool.and_eq_true,beq_iff_eq] at hfor
  obtain ⟨hinit,hsize⟩ := hfor
  have hu := h.usable slab hm hinit
  rw [hsize] at hu
  have hf := h.fitting slab hm hinit
  rw [hsize] at hf
  exact ⟨hu,hu.allocate_isSome hf⟩

/-- A backed request keeps the allocator ready, and is served. -/
theorem Ready.backed (h : Ready allocator) (hl : Legal allocator request)
    (hb : Backed allocator request) :
    Served allocator request ∧ ∀ next,step allocator request=some next → Ready next := by
  rcases getOrCreateSlab_cases allocator hl.size_lt with
    ⟨i,slab,hget,hfor,he⟩|⟨-,-,he⟩|⟨i,slab,hget,hinit,hno,he⟩
  · refine ⟨⟨_,_,he,?_,h.distinct,fun _ _ => rfl⟩,?_⟩
    · intro j hj
      cases hj
      exact ⟨slab,hget,h.found hget hfor⟩
    · intro next hn
      rw [step,he,Option.map_some,Option.some.injEq] at hn
      exact hn ▸ h
  · refine ⟨⟨_,_,he,fun i hi => (by cases hi),h.distinct,fun _ _ => rfl⟩,?_⟩
    intro next hn
    rw [step,he,Option.map_some,Option.some.injEq] at hn
    exact hn ▸ h
  · have hm := List.mem_of_getElem? hget
    have hpage : request.page≠none := by
      rcases hb with hp|⟨other,ho,hfor⟩|hfull
      · exact hp
      · rw [hno other ho] at hfor
        exact Bool.noConfusion hfor
      · rw [hfull slab hm] at hinit
        exact Bool.noConfusion hinit
    obtain ⟨page,hp⟩ := Option.ne_none_iff_exists'.mp hpage
    rw [hp] at he
    have hready := h.create hl hp hget hno
    have hi : i<allocator.slabs.length := (List.getElem?_eq_some_iff.mp hget).1
    have hnew : (allocator.slabs.set i ⟨page,true,request.size⟩)[i]?=
        some ⟨page,true,request.size⟩ := List.getElem?_set_self hi
    have hfor : isSlabFor request.size ⟨page,true,request.size⟩=true := by
      simp only [isSlabFor,beq_self_eq_true,Bool.and_self]
    refine ⟨⟨_,_,he,?_,hready.distinct,fun _ hj => (by cases hj)⟩,?_⟩
    · intro j hj
      cases hj
      exact ⟨_,hnew,hready.found hnew hfor⟩
    · intro next hn
      rw [step,he,Option.map_some,Option.some.injEq] at hn
      exact hn ▸ hready

/-- A refused page leaves a marked slab behind. -/
theorem not_served (hl : Legal allocator request) (hb : ¬Backed allocator request) :
    ¬Served allocator request := by
  rintro ⟨result,after,hr,-,-,hkept⟩
  have hnone : request.page=none := by
    by_contra hp
    exact hb (Or.inl hp)
  rcases getOrCreateSlab_cases allocator hl.size_lt with
    ⟨i,slab,hget,hfor,-⟩|⟨-,hfull,-⟩|⟨i,slab,hget,hinit,-,he⟩
  · exact hb (Or.inr (Or.inl ⟨slab,List.mem_of_getElem? hget,hfor⟩))
  · exact hb (Or.inr (Or.inr hfull))
  · rw [hnone] at he
    have hpair := Option.some.inj (hr.symm.trans he)
    have herror : result=.error .slabError := congrArg Prod.fst hpair
    have hafter : after.slabs=allocator.slabs.set i
        {slab with initialised := true,objectSize := request.size} :=
      congrArg (fun p => p.2.slabs) hpair
    have hi : i<allocator.slabs.length := (List.getElem?_eq_some_iff.mp hget).1
    have hset := hkept _ herror
    rw [hafter] at hset
    have hmarked := List.getElem?_set_self (a:=(⟨slab.head,true,request.size⟩ : Slab)) hi
    rw [hset,hget,Option.some.injEq] at hmarked
    rw [hmarked] at hinit
    exact Bool.noConfusion hinit

end

/-- Nothing is initialised at first. -/
theorem initial_ready (memory : Memory) : Ready (initial memory) := by
  have hno : ∀ slab∈(initial memory).slabs,slab.initialised≠true := by
    intro slab hm hinit
    rw [List.eq_of_mem_replicate hm] at hinit
    exact Bool.noConfusion hinit
  refine ⟨fun slab hm hi => absurd hi (hno slab hm),fun slab hm hi => absurd hi (hno slab hm),?_⟩
  intro i j first second hi hj hfirst
  exact absurd hfirst (hno first (List.mem_of_getElem? hi))

/-- Every request of a sequence is served exactly when no page is refused to a
request that needs one. -/
theorem requests_served_iff_backed (memory : Memory) {requests : List Request}
    (hl : Each step Legal (initial memory) requests) :
    Each step Served (initial memory) requests ↔ Each step Backed (initial memory) requests := by
  have hkeep : ∀ allocator request,Ready allocator → Legal allocator request →
      Backed allocator request → ∀ next,step allocator request=some next → Ready next := by
    intro allocator request h hlegal hb
    exact (h.backed hlegal hb).2
  refine each_iff_each hkeep ?_ (initial_ready memory) hl
  intro allocator request h hlegal
  constructor
  · intro hs
    by_contra hb
    exact not_served hlegal hb hs
  · intro hb
    exact (h.backed hlegal hb).1

/-- The table after one slab for 64 bytes was made. -/
def sampleAllocator : Allocator :=
  ⟨⟨65536,true,64⟩::List.replicate 31 ⟨0,false,0⟩,
    (SlabAllocator.initialise (fun _ => 0) 65536 64).2⟩

/-- The second request needs no page. -/
theorem sample_requests_served :
    Each step Served (initial fun _ => 0) [⟨64,some 65536⟩,⟨64,none⟩] := by
  have hstep : step (initial fun _ => 0) ⟨64,some 65536⟩=some sampleAllocator := rfl
  have hlegal : ∀ allocator,Legal allocator ⟨64,none⟩ := fun allocator =>
    ⟨by decide,by decide,fun page hp => (by cases hp),fun page hp => (by cases hp)⟩
  have hno : ∀ slab∈(initial fun _ => 0).slabs,slab.initialised≠true := by decide
  have hfirst : Legal (initial fun _ => 0) ⟨64,some 65536⟩ := by
    refine ⟨by decide,by decide,?_,fun page _ slab hm hi => absurd hi (hno slab hm)⟩
    rintro page ⟨⟩
    decide
  have hl : Each step Legal (initial fun _ => 0) [⟨64,some 65536⟩,⟨64,none⟩] :=
    ⟨hfirst,fun next _ => ⟨hlegal next,fun _ _ => trivial⟩⟩
  refine (requests_served_iff_backed (fun _ => 0) hl).mpr ⟨Or.inl (by decide),?_⟩
  intro next hn
  cases hstep.symm.trans hn
  exact ⟨Or.inr (Or.inl ⟨_,List.mem_cons_self,rfl⟩),fun _ _ => trivial⟩

/-- After a refused page the next request for the size is given a slab without
one. -/
theorem refused_page_leaves_null_head :
    ¬Each step Served (initial fun _ => 0) [⟨64,none⟩,⟨64,some 65536⟩] ∧
      ∃ after,step (initial fun _ => 0) ⟨64,none⟩=some after ∧
        getOrCreateSlab after ⟨64,some 65536⟩=some (.ok 0,after) ∧
        after.slabs[0]?=some ⟨0,true,64⟩ ∧ allocate ⟨0,true,64⟩ after.memory=none := by
  have hlegal : Legal (initial fun _ => 0) ⟨64,none⟩ :=
    ⟨by decide,by decide,fun page hp => (by cases hp),fun page hp => (by cases hp)⟩
  have hb : ¬Backed (initial fun _ => 0) ⟨64,none⟩ := by
    unfold Backed
    decide
  exact ⟨fun hs => not_served hlegal hb hs.1,_,rfl,rfl,rfl,rfl⟩

end WorkbenchOS.SlabTable
