import WorkbenchOS.AddressSpaces

/-!
# Isolation of processes

Processes get their page directories and their pages from the memory manager,
the kernel heap gets and returns pages of its own, and user programs store
through whatever process directory is installed. In every run of these calls
no two pages of processes share a frame, no frame of a process is a table, a
live heap page or anything else the kernel page directory maps, and what a
process has mapped holds what the process itself stored. The kernel page
directory has entries for one gibibyte, so the heap is asked for no more
addresses than that.
-/

namespace WorkbenchOS.ProcessIsolation

open ByteMemory LibStd WordBitmaps FrameBitmap FrameOperations FrameRuns PhysicalMemory PageTables
open MemoryManagement PageMapping UserPages FrameOwnership AddressSpaces TransitionRuns

/-- The memory manager with the processes and heap pages made so far. -/
structure State where
  /-- The memory manager. -/
  manager : MemoryManager
  /-- What `create_user_mode_directory` returned, the latest first. -/
  processes : List ℕ
  /-- The process directory installed under entry 0 of the root. -/
  running : Option ℕ
  /-- Kernel heap pages handed out and not freed. -/
  pages : List ℕ

/-- What the kernel and the user programs do. -/
inductive Action where
  /-- `create_user_mode_directory`. -/
  | createUserModeDirectory
  /-- `allocate_user_pages`. -/
  | allocateUserPages (pdpt virtualBase pageCount : ℕ) (write execute : Bool)
  /-- `set_user_directory`. -/
  | setUserDirectory (pdpt : ℕ)
  /-- `allocate_kernel_heap_page`. -/
  | allocateKernelHeapPage
  /-- `allocate_kernel_heap_pages`. -/
  | allocateKernelHeapPages (pageCount : ℕ)
  /-- `free_kernel_heap_page`. -/
  | freeKernelHeapPage (page : ℕ)
  /-- A byte stored by the user program that runs. -/
  | userStore (address : ℕ) (value : UInt8)
  /-- A byte stored by the kernel in its heap. -/
  | heapStore (address : ℕ) (value : UInt8)
  deriving DecidableEq

/-- Where the address of a process or, without one, of the kernel page
directory leads. -/
def State.walk (state : State) : Option ℕ→ℕ→Option ℕ
  | none,address => walkFrom state.manager.memory 2 state.manager.kernelPageDirectory address
  | some pdpt,address => userWalk state.manager.memory pdpt address

/-- The byte found there. -/
def State.load (state : State) (space : Option ℕ) (address : ℕ) : Option UInt8 :=
  (state.walk space address).map state.manager.memory

/-- A byte of physical memory is stored. -/
def State.poke (state : State) (physical : ℕ) (value : UInt8) : State :=
  {state with manager := {state.manager with
    memory := fun x => if x=physical then value else state.manager.memory x}}

/-- What the hardware finds for a user program: the walk from the root, if every
entry on the way allows user accesses and stores. -/
def State.userTarget (state : State) (address : ℕ) : Option ℕ :=
  match UserMappings.translate state.manager.memory 4 state.manager.pml4 address with
  | none => none
  | some found =>
    if found.userAccess=true ∧ found.writeable=true then some found.physicalAddress else none

/-- One call or store. A call that does not return and a store that faults are
none. -/
def step (state : State) : Action→Option State
  | .createUserModeDirectory => some (match createUserModeDirectory state.manager with
    | (.ok pdpt,after) => {state with manager := after,processes := pdpt::state.processes}
    | (.error _,after) => {state with manager := after})
  | .allocateUserPages pdpt virtualBase pageCount write execute =>
    (allocateUserPages state.manager pdpt virtualBase pageCount write execute).map
      (fun outcome => {state with manager := outcome.2})
  | .setUserDirectory pdpt =>
    some {state with manager := (setUserDirectory state.manager pdpt).2,running := some pdpt}
  | .allocateKernelHeapPage => some (match allocateKernelHeapPage state.manager with
    | (.ok page,after) => {state with manager := after,pages := page::state.pages}
    | (.error _,after) => {state with manager := after})
  | .allocateKernelHeapPages pageCount =>
    some (match allocateKernelHeapPages state.manager pageCount with
    | (.ok range,after) => {state with
      manager := after
      pages := (List.range pageCount).map (fun i => u64 (range+i*Page))++state.pages}
    | (.error _,after) => {state with manager := after})
  | .freeKernelHeapPage page => (freeKernelHeapPage state.manager page).map
    (fun outcome => {state with manager := outcome.2,pages := state.pages.erase page})
  | .userStore address value => (state.userTarget address).map (fun x => state.poke x value)
  | .heapStore address value => (state.walk none address).map (fun x => state.poke x value)

/-- The byte belongs to a live heap page. -/
def State.InHeap (state : State) (address : ℕ) : Prop :=
  ∃ page∈state.pages,address/4096=page/4096

/-- The heap has so many addresses left in the gibibyte behind its base. -/
def State.HasRoom (state : State) (pageCount : ℕ) : Prop :=
  state.manager.heapSpace.nextAddress+pageCount*4096≤ state.manager.heapSpace.baseAddress+2^30

/-- Directories are those of processes, the heap is asked for pages of its first
gibibyte, pages that are freed are live and have their page table below 2 GiB,
programs run in a process and store in the lower half, and the kernel stores in
live pages. -/
def Legal (state : State) : Action→Prop
  | .createUserModeDirectory => True
  | .allocateUserPages pdpt _ _ _ _ => pdpt∈state.processes
  | .setUserDirectory pdpt => pdpt∈state.processes
  | .allocateKernelHeapPage => state.HasRoom 1
  | .allocateKernelHeapPages pageCount => state.HasRoom (max 1 pageCount)
  | .freeKernelHeapPage page => page∈state.pages ∧
    getPhysicalAddress (KernelTranslation.directoryEntry state.manager page)<2^31
  | .userStore address _ => state.running≠none ∧ address<2^47
  | .heapStore address _ => state.InHeap address

/-- The address is one of a process, or of a live heap page. -/
def State.Owns (state : State) : Option ℕ→ℕ→Prop
  | none,address => state.InHeap address
  | some pdpt,_ => pdpt∈state.processes

/-- The space is the kernel's or that of a process. -/
def State.Live (state : State) : Option ℕ→Prop
  | none => True
  | some pdpt => pdpt∈state.processes

/-- Processes and heap pages have their frames for themselves. -/
structure Isolated (state : State) : Prop where
  /-- No two live heap pages have one frame. -/
  apart : ∀ {page other x y : ℕ},page∈state.pages → other∈state.pages →
    state.walk none page=some x → state.walk none other=some y → x/4096=y/4096 → other=page
  /-- No address in another page or another space reaches the frame; the kernel
  page directory looks at the low 30 bits of an address. -/
  sole : ∀ {space other : Option ℕ} {address second x y : ℕ},state.Owns space address →
    state.Live other → state.walk space address=some x → state.walk other second=some y →
    x/4096=y/4096 → other=space ∧ second%2^30/4096=address%2^30/4096
  /-- The allocator manages the frame and does not hand it out. -/
  held : ∀ {space : Option ℕ} {address x : ℕ},state.Owns space address →
    state.walk space address=some x → x/4096<frames state.manager.bitmap ∧
      bitAt state.manager.bitmap.storage (x/4096)=true
  /-- No translation depends on the bytes of the frame. -/
  harmless : ∀ {space other : Option ℕ} {address second x : ℕ} (value : UInt8),
    state.Owns space address → state.Live other → state.walk space address=some x →
    (state.poke x value).walk other second=state.walk other second

/-- The process itself stores. -/
def StoresAs (state : State) (pdpt : ℕ) : Action→Prop
  | .userStore _ _ => state.running=some pdpt
  | _ => False

/-- The kernel as the bootloader and `init` leave it: no process and no heap
page yet, and no frame that the kernel page directory maps can be handed
out. -/
structure Booted (state : State) : Prop where
  /-- The kernel page directory and the root are in place. -/
  tables : ∃ tables,Tabled tables state.manager.kernelPageDirectory state.manager ∧
    UserMappings.Rooted tables state.manager
  /-- Frames that are mapped are in use. -/
  mapped : ∀ address physical,
    walkFrom state.manager.memory 2 state.manager.kernelPageDirectory address=some physical →
    physical/4096<frames state.manager.bitmap →
    bitAt state.manager.bitmap.storage (physical/4096)=true
  /-- The heap starts at a page, more than a gibibyte below the last address. -/
  heap : Windowed state.manager.heapSpace
  /-- There is no process. -/
  processes : state.processes=[]
  /-- None runs. -/
  running : state.running=none
  /-- The heap has handed out nothing. -/
  pages : state.pages=[]

/-- Every slot of a process is claimed, and those of live heap pages are. -/
def State.Claimed (state : State) (slot : Slot (Option ℕ)) : Prop :=
  match slot.space with
  | none => ∃ page∈state.pages,slot=slotOf none page
  | some _ => True

/-- The heap has handed out the page. -/
structure HandedOut (space : VirtualAddressSpace) (page : ℕ) : Prop where
  /-- It is one. -/
  aligned : page%4096=0
  /-- Behind the base. -/
  base_le : space.baseAddress≤page
  /-- Before what is handed out next. -/
  lt_next : page<space.nextAddress

/-- What every run keeps. -/
structure Owned (tables : ℕ→ℕ→Prop) (directory : Option ℕ→ℕ) (state : State) : Prop where
  /-- The address spaces share no page table. -/
  spaces : Spaces tables state.Live directory state.manager
  /-- One of them is the kernel's. -/
  kernel : directory none=state.manager.kernelPageDirectory
  /-- The lower half of the root holds at most one process directory. -/
  rooted : UserMappings.Rooted tables state.manager
  /-- The others are those of the processes. -/
  user : ∀ {pdpt : ℕ},pdpt∈state.processes →
    UserDirectory tables pdpt (directory (some pdpt)) state.manager ∧ pdpt<2^40
  /-- The directory that is installed is that of a process. -/
  running : ∀ {pdpt : ℕ},state.running=some pdpt → pdpt∈state.processes ∧
    Present (entryAt state.manager.memory state.manager.pml4 0) ∧
    target (entryAt state.manager.memory state.manager.pml4 0)=pdpt
  /-- Processes and live heap pages have their frames for themselves. -/
  exclusive : Exclusive state.Claimed (ownership tables state.Live directory state.manager)
  /-- The kernel heap goes on in its gibibyte. -/
  heap : Windowed state.manager.heapSpace
  /-- It has handed out the live pages. -/
  pages : ∀ page∈state.pages,HandedOut state.manager.heapSpace page

/-- Two addresses have one slot when they are in one page of one space. -/
theorem slotOf_eq_iff {first second : Option ℕ} {address other : ℕ} :
    slotOf first address=slotOf second other ↔
      first=second ∧ address%2^30/4096=other%2^30/4096 := by
  have hpage : (indexAt 1 address=indexAt 1 other ∧ indexAt 0 address=indexAt 0 other) ↔
      address%2^30/4096=other%2^30/4096 := by
    unfold indexAt
    norm_num
    omega
  rw [slotOf,slotOf,Slot.mk.injEq,hpage]

/-- The walk finds what the translation with rights finds. -/
theorem translate_physical (memory : Memory) (levels table address : ℕ) :
    (UserMappings.translate memory levels table address).map
      UserMappings.Translation.physicalAddress=walkFrom memory levels table address := by
  induction levels generalizing table with
  | zero => rfl
  | succ level ih =>
    rw [UserMappings.translate,walkFrom]
    by_cases hp : Present (entryAt memory table (indexAt level address))
    · rw [if_pos hp,if_pos hp]
      by_cases hl : (level=1 ∨ level=2) ∧ Large (entryAt memory table (indexAt level address))
      · rw [if_pos hl,if_pos hl]
        rfl
      · rw [if_neg hl,if_neg hl,←ih,Option.map_map]
        rfl
    · rw [if_neg hp,if_neg hp]
      rfl

section Reading

variable {tables larger : ℕ→ℕ→Prop} {directory : Option ℕ→ℕ} {state next : State}
  {space other : Option ℕ} {address second x y pdpt : ℕ}

/-- An address of a live space leads where its slot does; processes have only
the first gibibyte. -/
theorem Owned.walk_iff (h : Owned tables directory state) (hs : state.Live space) :
    state.walk space address=some x ↔ (space≠none → address<2^30) ∧
      ∃ frame,(ownership tables state.Live directory state.manager).leads (slotOf space address)
        frame ∧ x=frame*4096+address%4096 := by
  have htabled := h.spaces.tabled hs
  have hwalk := walk_slot htabled.shape address
  have hslot : walkFrom state.manager.memory 2 (directory space) address=some x ↔
      ∃ frame,(ownership tables state.Live directory state.manager).leads (slotOf space address)
        frame ∧ x=frame*4096+address%4096 := by
    rw [hwalk,Option.map_eq_some_iff]
    constructor
    · rintro ⟨frame,hf,rfl⟩
      exact ⟨frame,⟨hs,indexAt_lt 1 address,indexAt_lt 0 address,hf⟩,rfl⟩
    · rintro ⟨frame,⟨-,-,-,hf⟩,rfl⟩
      exact ⟨frame,hf,rfl⟩
  cases space with
  | none =>
    rw [State.walk,←h.kernel,hslot]
    simp only [ne_eq,not_true,false_implies,true_and]
  | some pdpt =>
    have huser := (h.user hs).1
    rw [State.walk]
    by_cases hlow : address<2^30
    · rw [huser.userWalk_low hlow,hslot]
      simp only [hlow,implies_true,true_and]
    · rw [huser.userWalk_high (Nat.not_lt.mp hlow)]
      exact iff_of_false (fun hn => by cases hn)
        (fun hb => hlow (hb.1 (Option.some_ne_none pdpt)))

/-- Addresses that are owned have claimed slots. -/
theorem State.Owns.claimed (h : state.Owns space address) :
    state.Live space ∧ state.Claimed (slotOf space address) := by
  cases space with
  | none =>
    obtain ⟨page,hm,heq⟩ := h
    exact ⟨trivial,page,hm,slotOf_eq_iff.mpr ⟨rfl,by omega⟩⟩
  | some pdpt => exact ⟨h,trivial⟩

/-- Another memory in which the tables have the same entries leads to the same
frames. -/
theorem Owned.walk_same (h : Owned tables directory state)
    (hk : next.manager.kernelPageDirectory=state.manager.kernelPageDirectory)
    (he : ∀ level table index,tables level table → index<512 →
      entryAt next.manager.memory table index=entryAt state.manager.memory table index)
    (hs : state.Live space) (address : ℕ) :
    next.walk space address=state.walk space address := by
  have hclosed := h.rooted.backed.system.closed
  cases space with
  | none =>
    rw [State.walk,State.walk,hk,←h.kernel]
    exact walkFrom_same hclosed he (Or.inr (h.spaces.tabled hs).shape.member)
  | some pdpt =>
    rw [State.walk,State.walk,userWalk,userWalk]
    rw [walkFrom_same hclosed he (Or.inr (h.user hs).1.root)]

/-- A byte of a frame that holds no table is in no entry of a table. -/
theorem Owned.entryAt_poke (h : Owned tables directory state) (value : UInt8)
    (hr : ¬(ownership tables state.Live directory state.manager).reserved (x/4096)) :
    ∀ level table index,tables level table → index<512 →
      entryAt (state.poke x value).manager.memory table index=
        entryAt state.manager.memory table index := by
  intro level table index ht hi
  have halign := h.rooted.backed.system.aligned ht
  refine entryAt_congr hi (fun y hy hlt => if_neg ?_)
  rintro rfl
  unfold tableSize at halign hlt
  refine hr ⟨level,?_⟩
  rw [show y/4096*4096=table by omega]
  exact ht

/-- What every run keeps isolates processes and heap pages. -/
theorem Owned.isolated (h : Owned tables directory state) : Isolated state := by
  have hsole : ∀ {space other : Option ℕ} {address second x y : ℕ},state.Owns space address →
      state.Live other → state.walk space address=some x → state.walk other second=some y →
      x/4096=y/4096 → other=space ∧ second%2^30/4096=address%2^30/4096 := by
    intro space other address second x y ho hl hx hy heq
    obtain ⟨hlive,hclaimed⟩ := ho.claimed
    obtain ⟨-,frame,hleads,rfl⟩ := (h.walk_iff hlive).mp hx
    obtain ⟨-,found,hleads',rfl⟩ := (h.walk_iff hl).mp hy
    have hframe : frame=found := by omega
    exact slotOf_eq_iff.mp (h.exclusive.sole hclaimed hleads (hframe ▸ hleads'))
  refine ⟨?_,hsole,?_,?_⟩
  · intro page other x y hm ho hx hy heq
    have howns : state.Owns none page := ⟨page,hm,rfl⟩
    have hlow := (hsole howns (show state.Live none from trivial) hx hy heq).2
    -- both are in the heap's gibibyte
    obtain ⟨haligned,hbase,hnext⟩ := h.pages page hm
    obtain ⟨haligned',hbase',hnext'⟩ := h.pages other ho
    have hwindow := h.heap.next_le
    omega
  · intro space address x ho hx
    obtain ⟨hlive,hclaimed⟩ := ho.claimed
    obtain ⟨-,frame,hleads,rfl⟩ := (h.walk_iff hlive).mp hx
    rw [show (frame*4096+address%4096)/4096=frame by omega]
    have hmanaged := h.exclusive.managed hclaimed hleads
    exact ⟨hmanaged,h.exclusive.used hleads hmanaged⟩
  · intro space other address second x value ho hl hx
    obtain ⟨hlive,hclaimed⟩ := ho.claimed
    obtain ⟨-,frame,hleads,rfl⟩ := (h.walk_iff hlive).mp hx
    have hr := h.exclusive.unreserved hclaimed hleads
    have hpage : (frame*4096+address%4096)/4096=frame := by omega
    have he := h.entryAt_poke (x:=frame*4096+address%4096) value (hpage.symm ▸ hr)
    generalize frame*4096+address%4096=physical at *
    have hsame : (state.poke physical value).manager.kernelPageDirectory=
        state.manager.kernelPageDirectory := rfl
    exact h.walk_same hsame he hl second

/-- The user program that runs stores through its own process directory. -/
theorem Owned.userTarget (h : Owned tables directory state) (hr : state.running=some pdpt)
    (ha : address<2^47) (hx : state.userTarget address=some x) :
    state.walk (some pdpt) address=some x := by
  obtain ⟨-,hpresent,htarget⟩ := h.running hr
  have hwalk : walkFrom state.manager.memory 4 state.manager.pml4 address=some x := by
    unfold State.userTarget at hx
    split at hx
    · cases hx
    · rename_i found hfound
      split at hx
      · rw [←translate_physical,hfound]
        exact hx
      · cases hx
  have hroot := indexAt_lt 3 address
  by_cases hzero : indexAt 3 address=0
  · have hlow : address<2^39 := by
      unfold indexAt at hzero
      norm_num at hzero
      omega
    have hdescends : Descends 3 (entryAt state.manager.memory state.manager.pml4
        (indexAt 3 address)) := by
      rw [hzero]
      exact ⟨hpresent,fun hl => by simp at hl⟩
    rw [walkFrom_descend hdescends,hzero,htarget] at hwalk
    rw [State.walk,userWalk,if_pos hlow]
    exact hwalk
  · have hbound : indexAt 3 address<256 := by
      unfold indexAt
      norm_num
      omega
    have habsent := h.rooted.lower _ (Nat.one_le_iff_ne_zero.mpr hzero) hbound
    rw [walkFrom_absent habsent] at hwalk
    cases hwalk

end Reading

/-- What a process finds in its memory it still finds. -/
def Keeps (state next : State) (pdpt : ℕ) : Prop :=
  ∀ address value,state.load (some pdpt) address=some value →
    next.load (some pdpt) address=some value

section Space

variable {space after : VirtualAddressSpace} {page : ℕ}

/-- A page is taken from the front of a space that has it in its gibibyte. -/
theorem takePage_movesOn (hw : Windowed space)
    (hroom : space.nextAddress+4096≤ space.baseAddress+2^30) :
    MovesOn space (takePage space).2 ∧ ∀ page,(takePage space).1=.ok page →
      page=space.nextAddress ∧ (takePage space).2.nextAddress=space.nextAddress+4096 := by
  obtain ⟨haligned,hbase,hnext,hend⟩ := hw
  unfold takePage
  split
  · exact ⟨.of_eq rfl,fun page hp => by cases hp⟩
  · have hmoved : u64 (space.nextAddress+Page)=space.nextAddress+4096 := u64_of_lt (by
      unfold Page
      omega)
    dsimp only
    rw [hmoved]
    refine ⟨⟨rfl,Nat.le_add_right _ _,fun _ => ⟨?_,?_,hroom,hend⟩⟩,fun page hp => ?_⟩
    · dsimp only
      omega
    · exact hbase.trans (Nat.le_add_right _ _)
    · cases hp
      exact ⟨rfl,rfl⟩

/-- So are several. -/
theorem takePagesLoop_movesOn (n : ℕ) (hw : Windowed space)
    (hroom : space.nextAddress+n*4096≤ space.baseAddress+2^30) :
    MovesOn space (takePagesLoop n space).2 ∧ ((takePagesLoop n space).1=.ok () →
      (takePagesLoop n space).2.nextAddress=space.nextAddress+n*4096) := by
  induction n generalizing space with
  | zero => exact ⟨.of_eq rfl,fun _ => by rw [takePagesLoop,Nat.zero_mul,Nat.add_zero]⟩
  | succ n ih =>
    obtain ⟨hmoves,htaken⟩ := takePage_movesOn hw (by omega)
    rw [takePagesLoop]
    cases htake : takePage space with
    | mk result after =>
      rw [htake] at hmoves htaken
      cases result with
      | error error => exact ⟨hmoves,fun hok => by cases hok⟩
      | ok page =>
        have hnext := (htaken page rfl).2
        have hbase := hmoves.base_eq
        dsimp only at hmoves hnext hbase ⊢
        obtain ⟨hmore,hlast⟩ := ih (hmoves.windowed hw) (by omega)
        exact ⟨hmoves.trans hmore,fun hok => (hlast hok).trans (by omega)⟩

/-- A range of pages begins where the space went on, and ends before it goes on
again. -/
theorem takePages_movesOn {n : ℕ} (hw : Windowed space)
    (hroom : space.nextAddress+max 1 n*4096≤ space.baseAddress+2^30) :
    MovesOn space (takePages space n).2 ∧ ∀ page,(takePages space n).1=.ok page →
      page=space.nextAddress ∧ space.nextAddress+n*4096≤(takePages space n).2.nextAddress := by
  have hbase := hw.base_le
  have hcount : min n intIterations=n := Nat.min_eq_left (by
    unfold intIterations
    omega)
  obtain ⟨hmoves,htaken⟩ := takePage_movesOn hw (by omega)
  rw [takePages,hcount]
  cases htake : takePage space with
  | mk result after =>
    rw [htake] at hmoves htaken
    cases result with
    | error error => exact ⟨hmoves,fun page hp => by cases hp⟩
    | ok first =>
      obtain ⟨hfirst,hnext⟩ := htaken first rfl
      have hsame := hmoves.base_eq
      dsimp only at hmoves hnext hsame ⊢
      obtain ⟨hmore,hlast⟩ := takePagesLoop_movesOn (n-1) (hmoves.windowed hw) (by omega)
      cases hloop : takePagesLoop (n-1) after with
      | mk result last =>
        rw [hloop] at hmore hlast
        dsimp only at hmore
        cases result with
        | error error =>
          refine ⟨hmoves.trans hmore,fun page hp => ?_⟩
          cases hp
        | ok done =>
          have hend := hlast rfl
          have hpages : n*4096≤4096+(n-1)*4096 := by
            clear hroom hbase hsame hend
            omega
          dsimp only at hend ⊢
          refine ⟨hmoves.trans hmore,fun page hp => ?_⟩
          cases hp
          rw [hend,hnext,Nat.add_assoc]
          exact ⟨hfirst,Nat.add_le_add_left hpages _⟩

/-- What has been handed out stays so. -/
theorem HandedOut.movesOn (h : HandedOut space page) (hm : MovesOn space after) :
    HandedOut after page :=
  ⟨h.aligned,hm.base_eq.trans_le h.base_le,h.lt_next.trans_le hm.later⟩

end Space

section Steps

variable {tables larger : ℕ→ℕ→Prop} {directory second : Option ℕ→ℕ} {state next : State}
  {after : MemoryManager} {pdpt : ℕ}

/-- Address spaces that moved on keep everything but the claims, which are to be
shown. -/
theorem Owned.extend (h : Owned tables directory state) {pages : List ℕ}
    (ha : Extends tables larger state.Live directory state.manager after)
    (hx : Exclusive (State.Claimed ⟨after,state.processes,state.running,pages⟩)
      (ownership larger state.Live directory after))
    (hp : ∀ page∈pages,HandedOut after.heapSpace page) :
    Owned larger directory ⟨after,state.processes,state.running,pages⟩ := by
  have hroot : ∀ i<512,entryAt after.memory state.manager.pml4 i=
      entryAt state.manager.memory state.manager.pml4 i :=
    fun i hi => ha.upper h.rooted.root (by decide) hi
  have hbacked := (ha.spaces.tabled (show state.Live none from trivial)).backed
  refine ⟨ha.spaces,h.kernel.trans ha.directory_eq.symm,
    h.rooted.after_below hbacked ha.subset ha.root_eq hroot,?_,?_,hx,ha.heap.windowed h.heap,hp⟩
  · intro pdpt hm
    obtain ⟨huser,hlt⟩ := h.user hm
    exact ⟨huser.after_below (ha.spaces.tabled (show state.Live (some pdpt) from hm)) ha.subset
      ha.upper,hlt⟩
  · intro pdpt hr
    obtain ⟨hm,hentry⟩ := h.running hr
    refine ⟨hm,?_⟩
    dsimp only
    rw [ha.root_eq,hroot 0 (by decide)]
    exact hentry

/-- A process whose slots lead where they did, to frames that were not touched,
finds what it found. -/
theorem Owned.keeps (h : Owned tables directory state) (k : Owned larger second next)
    (hm : pdpt∈state.processes) (hm' : pdpt∈next.processes)
    (hleads : ∀ slot frame,slot.space=some pdpt →
      (ownership tables state.Live directory state.manager).leads slot frame →
      (ownership larger next.Live second next.manager).leads slot frame)
    (hu : Untouched tables state.Live directory state.manager next.manager) :
    Keeps state next pdpt := by
  intro address value hload
  obtain ⟨x,hwalk,hvalue⟩ := Option.map_eq_some_iff.mp hload
  obtain ⟨hlow,frame,hf,hx⟩ := (h.walk_iff (show state.Live (some pdpt) from hm)).mp hwalk
  have hclaimed : state.Claimed (slotOf (some pdpt) address) := trivial
  have hsame := hu (h.exclusive.used hf) (h.exclusive.unreserved hclaimed hf) x (by omega)
    (by omega)
  have hwalk' : next.walk (some pdpt) address=some x :=
    (k.walk_iff (show next.Live (some pdpt) from hm')).mpr ⟨hlow,frame,hleads _ _ rfl hf,hx⟩
  rw [State.load,hwalk',Option.map_some,hsame,hvalue]

/-- What `allocate_user_pages` and `allocate_kernel_heap_pages` do to every
process. -/
structure Stepped (state next : State) : Prop where
  /-- The invariant holds again. -/
  owned : ∃ tables directory,Owned tables directory next
  /-- Every process finds what it found. -/
  keeps : ∀ pdpt∈state.processes,Keeps state next pdpt

/-- `allocate_user_pages`. -/
theorem Owned.allocateUserPages (h : Owned tables directory state) (hm : pdpt∈state.processes)
    {virtualBase pageCount : ℕ} {write execute : Bool} {outcome : Outcome ℕ}
    (hok : MemoryManagement.allocateUserPages state.manager pdpt virtualBase pageCount write
      execute=some outcome) : Stepped state {state with manager := outcome.2} := by
  obtain ⟨loop,hloop,heq⟩ := Option.map_eq_some_iff.mp hok
  have hlast : outcome.2=loop.2 := by
    rw [←heq]
    rcases loop with ⟨error|start,last⟩ <;> rfl
  have hs : state.Live (some pdpt) := hm
  have huser := (h.user hm).1
  obtain ⟨larger,hadvances,hx,hkept⟩ := h.spaces.userPagesLoop hs huser.root huser.first_address
    h.exclusive _ hloop
  rw [hlast]
  have howned := h.extend hadvances.toExtends hx
    (fun page hp => (h.pages page hp).movesOn hadvances.heap)
  exact ⟨⟨larger,directory,howned⟩,fun other hother => h.keeps howned hother hother
    (fun slot frame _ hf => hkept slot frame hf) hadvances.untouched⟩

/-- Address spaces that advanced, with the claims as they were. -/
theorem Owned.advanced (h : Owned tables directory state)
    (ha : Advances tables larger state.Live directory state.manager after)
    (hx : Exclusive state.Claimed (ownership larger state.Live directory after))
    (hkept : ∀ slot frame,slot.space≠none →
      (ownership tables state.Live directory state.manager).leads slot frame →
      (ownership larger state.Live directory after).leads slot frame) :
    Stepped state {state with manager := after} := by
  have howned := h.extend ha.toExtends hx (fun page hp => (h.pages page hp).movesOn ha.heap)
  refine ⟨⟨larger,directory,howned⟩,fun pdpt hm => h.keeps howned hm hm ?_ ha.untouched⟩
  intro slot frame hspace hf
  exact hkept slot frame (fun hn => Option.some_ne_none pdpt (hspace.symm.trans hn)) hf

/-- Address spaces that advanced, with claims on further heap pages. -/
theorem Owned.claims (h : Owned tables directory state) (pages : List ℕ)
    (ha : Advances tables larger state.Live directory state.manager after)
    (hx : Exclusive (fun slot => (∃ page∈pages,slot=slotOf none page) ∨ state.Claimed slot)
      (ownership larger state.Live directory after))
    (hp : ∀ page∈pages,HandedOut after.heapSpace page)
    (hkept : ∀ slot frame,slot.space≠none →
      (ownership tables state.Live directory state.manager).leads slot frame →
      (ownership larger state.Live directory after).leads slot frame) :
    Stepped state {state with manager := after,pages := pages++state.pages} := by
  have hclaims : Exclusive (State.Claimed ⟨after,state.processes,state.running,
      pages++state.pages⟩) (ownership larger state.Live directory after) := by
    refine hx.reclaim ?_
    intro slot frame hc _
    unfold State.Claimed at hc ⊢
    split at hc
    · obtain ⟨page,hm,hslot⟩ := hc
      rcases List.mem_append.mp hm with hnew|hold
      · exact Or.inl ⟨page,hnew,hslot⟩
      · exact Or.inr ⟨page,hold,hslot⟩
    · exact Or.inr trivial
  have howned := h.extend ha.toExtends hclaims (fun page hm =>
    (List.mem_append.mp hm).elim (hp page) (fun hold => (h.pages page hold).movesOn ha.heap))
  refine ⟨⟨larger,directory,howned⟩,fun pdpt hm => h.keeps howned hm hm ?_ ha.untouched⟩
  intro slot frame hspace hf
  exact hkept slot frame (fun hn => Option.some_ne_none pdpt (hspace.symm.trans hn)) hf

/-- `allocate_kernel_heap_page`. -/
theorem Owned.allocateKernelHeapPage (h : Owned tables directory state)
    (hroom : state.HasRoom 1) (hstep : step state .allocateKernelHeapPage=some next) :
    Stepped state next := by
  have hs : state.Live none := trivial
  rw [step,Option.some.injEq] at hstep
  subst hstep
  unfold MemoryManagement.allocateKernelHeapPage
  rcases h.spaces.allocateFrame hs h.exclusive with
    he|⟨frame,framed,he,hadvances,hgrows,hspare,hlt,hrest⟩
  · rw [he]
    exact h.advanced (Advances.refl h.spaces) h.exclusive (fun _ _ _ hf => hf)
  · rw [he]
    dsimp only
    rw [hrest.heapSpace_eq]
    obtain ⟨hmoves,htaken⟩ := takePage_movesOn h.heap (by
      unfold State.HasRoom at hroom
      omega)
    have hx := h.exclusive.grows hgrows
    have hleads := fun slot frame hf => (hgrows.leads slot frame).mpr hf
    rcases htake : takePage state.manager.heapSpace with ⟨result,space⟩
    rw [htake] at hmoves htaken
    obtain ⟨hmiddle,hown⟩ := hadvances.of_same {framed with heapSpace := space} rfl rfl rfl rfl
      (hrest.heapSpace_eq.symm ▸ hmoves)
    rw [←hown] at hx hspare hleads
    cases result with
    | error error => exact h.advanced hmiddle hx (fun slot frame _ hf => hleads slot frame hf)
    | ok page =>
      dsimp only
      have hd : directory none=({framed with heapSpace := space} : MemoryManager).kernelPageDirectory :=
        h.kernel.trans hadvances.directory_eq.symm
      rcases hmiddle.spaces.mapKernelPageDirectory hs hd page hlt with
        hmap|⟨larger,last,hmap,hmapped,hassigns⟩
      · rw [hmap]
        exact h.advanced hmiddle hx (fun slot frame _ hf => hleads slot frame hf)
      · rw [hmap]
        dsimp only
        refine h.claims [page] (hmiddle.trans hmapped) ?_ ?_ ?_
        · refine (hx.assigns hspare hassigns).reclaim ?_
          rintro slot frame (⟨found,hm,hslot⟩|hc) -
          · rw [List.mem_singleton.mp hm] at hslot
            exact Or.inl hslot
          · exact Or.inr hc
        · intro found hm
          rw [List.mem_singleton.mp hm]
          obtain ⟨hpage,hnext⟩ := htaken page rfl
          have hout : HandedOut space page := by
            refine ⟨hpage ▸ h.heap.aligned,?_,?_⟩
            · exact hmoves.base_eq.trans_le (hpage ▸ h.heap.base_le)
            · dsimp only at hnext
              omega
          exact hout.movesOn hmapped.heap
        · intro slot found hne hf
          refine (hassigns.leads slot found).mpr (Or.inr ⟨?_,hleads slot found hf⟩)
          rintro rfl
          exact hne rfl

/-- `allocate_kernel_heap_pages`. -/
theorem Owned.allocateKernelHeapPages (h : Owned tables directory state) {pageCount : ℕ}
    (hroom : state.HasRoom (max 1 pageCount))
    (hstep : step state (.allocateKernelHeapPages pageCount)=some next) : Stepped state next := by
  have hs : state.Live none := trivial
  rw [step,Option.some.injEq] at hstep
  subst hstep
  unfold MemoryManagement.allocateKernelHeapPages
  obtain ⟨hmoves,htaken⟩ := takePages_movesOn h.heap hroom
  rcases htake : takePages state.manager.heapSpace pageCount with ⟨result,space⟩
  rw [htake] at hmoves htaken
  obtain ⟨hmiddle,hown⟩ := (Advances.refl h.spaces).of_same {state.manager with
    heapSpace := space} rfl rfl rfl rfl hmoves
  have hx := h.exclusive
  rw [←hown] at hx
  cases result with
  | error error => exact h.advanced hmiddle hx (fun slot frame _ hf => hown ▸ hf)
  | ok range =>
    dsimp only
    obtain ⟨larger,hadvances,hexclusive,hall,hkept⟩ :=
      hmiddle.spaces.heapPagesLoop hs h.kernel range 0 hx pageCount
    have hkept' : ∀ slot frame,slot.space≠none →
        (ownership tables state.Live directory state.manager).leads slot frame →
        (ownership larger state.Live directory (allocateKernelHeapPagesLoop range pageCount 0
          {state.manager with heapSpace := space}).2).leads slot frame :=
      fun slot frame hne hf => hkept slot frame hne (hown ▸ hf)
    have htrans := hmiddle.trans hadvances
    have hadvances' := hadvances
    rcases hloop : allocateKernelHeapPagesLoop range pageCount 0
      {state.manager with heapSpace := space} with ⟨answer,last⟩
    rw [hloop] at hexclusive hall hkept' htrans hadvances'
    cases answer with
    | error error => exact h.advanced htrans hexclusive hkept'
    | ok done =>
      dsimp only
      refine h.claims _ htrans ((hall rfl).reclaim ?_) ?_ hkept'
      · rintro slot frame (⟨page,hm,hslot⟩|hc) -
        · obtain ⟨j,hj,rfl⟩ := List.mem_map.mp hm
          have hlt := List.mem_range.mp hj
          exact Or.inl ⟨j,Nat.zero_le j,by omega,hslot⟩
        · exact Or.inr hc
      · intro page hm
        obtain ⟨j,hj,rfl⟩ := List.mem_map.mp hm
        have hlt := List.mem_range.mp hj
        obtain ⟨hrange,hnext⟩ := htaken range rfl
        obtain ⟨haligned,hbase,-,-⟩ := h.heap
        have hsame := hmoves.base_eq
        have hinside := hmoves.windowed h.heap
        have hlast := hinside.next_le
        have hend := hinside.end_lt
        dsimp only at hnext hsame hlast hend
        rw [u64_of_lt (by unfold Page; omega)]
        have hout : HandedOut space (range+j*Page) :=
          ⟨by unfold Page; omega,by unfold Page; omega,by unfold Page; omega⟩
        exact hout.movesOn hadvances'.heap

/-- `free_kernel_heap_page`. -/
theorem Owned.freeKernelHeapPage (h : Owned tables directory state) {page : ℕ}
    (hl : Legal state (.freeKernelHeapPage page))
    (hstep : step state (.freeKernelHeapPage page)=some next) : Stepped state next := by
  obtain ⟨hm,hlow⟩ := hl
  obtain ⟨outcome,hfree,rfl⟩ := Option.map_eq_some_iff.mp hstep
  have hs : state.Live none := trivial
  have hclaimed : state.Claimed (slotOf none page) := ⟨page,hm,rfl⟩
  obtain ⟨frame,hleads,hextends,hreleases,huntouched⟩ := h.spaces.freeKernelHeapPage hs h.kernel
    h.exclusive hclaimed (h.pages page hm).aligned hlow hfree
  have hx : Exclusive (State.Claimed ⟨outcome.2,state.processes,state.running,
      state.pages.erase page⟩) (ownership tables state.Live directory outcome.2) := by
    refine (h.exclusive.releases hclaimed hleads hreleases).reclaim ?_
    intro slot found hc _
    unfold State.Claimed at hc ⊢
    split at hc
    · obtain ⟨other,hother,hslot⟩ := hc
      exact ⟨other,List.mem_of_mem_erase hother,hslot⟩
    · trivial
  have howned := h.extend hextends hx (fun other hother =>
    (h.pages other (List.mem_of_mem_erase hother)).movesOn hextends.heap)
  refine ⟨⟨tables,directory,howned⟩,fun pdpt hm' => h.keeps howned hm' hm' ?_ huntouched⟩
  intro slot found hspace hf
  refine (hreleases.leads slot found).mpr ⟨?_,hf⟩
  rintro rfl
  cases hspace

/-- A process directory whose pointer table is as it was. -/
theorem userDirectory_same {manager : MemoryManager} {root : ℕ}
    (h : UserDirectory tables pdpt root manager) (ht : Tabled larger root after)
    (hroot : larger 3 pdpt)
    (he : ∀ i,i<512 → entryAt after.memory pdpt i=entryAt manager.memory pdpt i) :
    UserDirectory larger pdpt root after := by
  refine ⟨ht,hroot,?_,?_,?_,?_⟩
  · rw [he 0 (by decide)]
    exact h.first
  · rw [he 0 (by decide)]
    exact h.narrow
  · rw [he 0 (by decide)]
    exact h.first_eq
  · intro i hi hlt
    rw [he i hlt]
    exact h.rest i hi hlt

/-- The entry stored in the root fits 28 bits again. -/
theorem narrow_userDirectoryEntry {entry : BitVec 64} (h : Narrow entry) (table : ℕ) :
    Narrow (userDirectoryEntry entry table) := by
  unfold Narrow userDirectoryEntry
  rw [getField_setField_apart _ (by decide) (by decide),
    getField_setField_apart _ (by decide) (by decide),
    getField_setField_apart _ (by decide) (by decide),
    getField_setField_apart _ (by decide) (by decide)]
  exact h

/-- `set_user_directory`. -/
theorem Owned.setUserDirectory (h : Owned tables directory state) (hm : pdpt∈state.processes) :
    Stepped state {state with
      manager := (MemoryManagement.setUserDirectory state.manager pdpt).2
      running := some pdpt} := by
  have hs : state.Live none := trivial
  obtain ⟨huser,hlt⟩ := h.user hm
  have hsystem := h.rooted.backed.system
  obtain ⟨hpresent,htarget⟩ := UserMappings.userDirectoryEntry_leads h.rooted.narrow
    (hsystem.aligned huser.root) hlt
  have hopens := UserMappings.opens_userDirectoryEntry h.rooted.executable pdpt
  have hnarrow := narrow_userDirectoryEntry h.rooted.narrow pdpt
  have hset : (MemoryManagement.setUserDirectory state.manager pdpt).2=
      state.manager.store state.manager.pml4 0 (userDirectoryEntry
        (entryAt state.manager.memory state.manager.pml4 0) pdpt) := rfl
  rw [hset]
  generalize userDirectoryEntry (entryAt state.manager.memory state.manager.pml4 0) pdpt=entry at *
  have hleads : tables 3 (target entry) := htarget.symm ▸ huser.root
  obtain ⟨hspaces,hsame,hother⟩ := h.spaces.storeUpper hs
    (show tables (3+1) _ from h.rooted.root) (by decide) (show 0<512 by decide) hleads
  have hself : entryAt (state.manager.store state.manager.pml4 0 entry).memory
      state.manager.pml4 0=entry := entryAt_setEntry_self _ _
  have hrest := sameRest_store state.manager state.manager.pml4 0 entry
  have huntouched : Untouched tables state.Live directory state.manager
      (state.manager.store state.manager.pml4 0 entry) := fun {frame} _ hr =>
    h.spaces.store_untouched hs h.rooted.root (by decide) entry hr
  have hx : Exclusive state.Claimed (ownership tables state.Live directory
      (state.manager.store state.manager.pml4 0 entry)) :=
    h.exclusive.grows ⟨hsame,id,id,Or.inl⟩
  have hpointer : ∀ {other i : ℕ},other∈state.processes → i<512 →
      entryAt (state.manager.store state.manager.pml4 0 entry).memory other i=
        entryAt state.manager.memory other i := by
    intro other i ho hi
    refine hother (h.user ho).1.root hi (Or.inl ?_)
    intro heq
    have hroot := (h.user ho).1.root
    rw [heq] at hroot
    cases hsystem.unique hroot h.rooted.root
  have howned : Owned tables directory ⟨state.manager.store state.manager.pml4 0 entry,
      state.processes,some pdpt,state.pages⟩ := by
    refine ⟨hspaces,h.kernel.trans hrest.directory_eq.symm,
      ⟨(hspaces.tabled hs).backed,?_,?_,?_,?_⟩,?_,?_,hx,?_,?_⟩
    · exact hrest.root_eq.symm ▸ h.rooted.root
    · dsimp only
      rw [hrest.root_eq,hself]
      exact hnarrow
    · dsimp only
      rw [hrest.root_eq,hself]
      exact hopens.executable
    · intro i hi hlt'
      dsimp only
      rw [hrest.root_eq,hother h.rooted.root (by omega) (Or.inr (by omega))]
      exact h.rooted.lower i hi hlt'
    · intro other ho
      obtain ⟨huser',hlt'⟩ := h.user ho
      exact ⟨userDirectory_same huser' (hspaces.tabled (show state.Live (some other) from ho))
        huser'.root (fun i hi => hpointer ho hi),hlt'⟩
    · intro other ho
      cases ho
      dsimp only
      rw [hrest.root_eq,hself]
      exact ⟨hm,hpresent,htarget⟩
    · exact hrest.heapSpace_eq.symm ▸ h.heap
    · exact fun page hp => hrest.heapSpace_eq.symm ▸ h.pages page hp
  exact ⟨⟨tables,directory,howned⟩,fun other ho => h.keeps howned ho ho
    (fun slot frame _ hf => (hsame slot frame).mpr hf) huntouched⟩

/-- A byte stored in a frame that holds no table leaves all that every run
keeps. -/
theorem Owned.poke (h : Owned tables directory state) {x : ℕ} (value : UInt8)
    (hr : ¬(ownership tables state.Live directory state.manager).reserved (x/4096)) :
    Owned tables directory (state.poke x value) := by
  have he := h.entryAt_poke value hr
  have hb := h.rooted.backed
  have hsystem : TableSystem (state.poke x value).manager.memory tables := hb.system.congr he
  have hbacked : Backed tables (state.poke x value).manager :=
    ⟨hb.kernel,hb.geometry,hb.reach,hsystem,hb.taken⟩
  have hspaces := h.spaces.congr hbacked id
    (fun {s k} hs hk => he 2 _ k (h.spaces.tabled hs).shape.member hk)
  have hextends : Extends tables tables state.Live directory state.manager
      (state.poke x value).manager :=
    ⟨hspaces,id,fun ht _ hi => he _ _ _ ht hi,rfl,rfl,.of_eq rfl⟩
  have hgrows : Grows (ownership tables state.Live directory state.manager)
      (ownership tables state.Live directory (state.poke x value).manager) := by
    refine ⟨?_,id,id,Or.inl⟩
    intro slot found
    refine and_congr_right (fun hl => and_congr_right (fun hk => and_congr_right (fun hj => ?_)))
    rw [slotFrame_congr (he 2 _ _ (h.spaces.tabled hl).shape.member hk)
      (fun hp => he 1 _ _ (h.spaces.table hl hk hp) hj)]
  exact h.extend hextends (h.exclusive.grows hgrows) h.pages

/-- A store through an address that is owned keeps what every run keeps and
what every other process finds. -/
theorem Owned.stored (h : Owned tables directory state) {space : Option ℕ} {address x : ℕ}
    (value : UInt8) (ho : state.Owns space address) (hx : state.walk space address=some x) :
    Owned tables directory (state.poke x value) ∧
      ∀ pdpt∈state.processes,space≠some pdpt → Keeps state (state.poke x value) pdpt := by
  obtain ⟨hlive,hclaimed⟩ := ho.claimed
  obtain ⟨-,frame,hf,heq⟩ := (h.walk_iff hlive).mp hx
  have hpage : x/4096=frame := by omega
  have hisolated := h.isolated
  refine ⟨h.poke value (hpage ▸ h.exclusive.unreserved hclaimed hf),?_⟩
  intro pdpt hm hne second found hload
  obtain ⟨y,hwalk,hvalue⟩ := Option.map_eq_some_iff.mp hload
  have hlive' : state.Live (some pdpt) := hm
  have hxy : y≠x := by
    rintro rfl
    exact hne (hisolated.sole ho hlive' hx hwalk rfl).1.symm
  rw [State.load,hisolated.harmless value ho hlive' hx,hwalk,Option.map_some,←hvalue]
  exact congrArg some (if_neg hxy)

/-- Processes can only be created in frames that hold no table, so no process
had the directory before. -/
theorem Owned.fresh (h : Owned tables directory state) {frame : ℕ}
    (hf : NextFree state.manager.bitmap frame) : frame*4096∉state.processes := fun hm =>
  h.rooted.backed.taken hf.tracked hf.clear (h.user hm).1.root

/-- The spaces once a process was added. -/
theorem live_cons (state : State) (manager : MemoryManager) (pdpt : ℕ) :
    State.Live ⟨manager,pdpt::state.processes,state.running,state.pages⟩=
      fun space => space=some pdpt ∨ state.Live space := by
  funext space
  cases space with
  | none => simp [State.Live]
  | some other => simp [State.Live]

/-- A pointer table that is led to an empty directory of its own is a further
process. -/
theorem Owned.addProcess (h : Owned tables directory state) {middle : MemoryManager} {root : ℕ}
    {entry : BitVec 64} (ha : Advances tables larger state.Live directory state.manager middle)
    (hg : Grows (ownership tables state.Live directory state.manager)
      (ownership larger state.Live directory middle))
    (hm : pdpt∉state.processes) (hlt : pdpt<2^40) (ht : larger 3 pdpt)
    (hnew : ∀ {level : ℕ},¬tables level pdpt)
    (hroot : ∀ {space : Option ℕ},state.Live space → directory space≠root)
    (huser : UserDirectory larger pdpt root (middle.store pdpt 0 entry))
    (hblank : ∀ i,i<512 → entryAt (middle.store pdpt 0 entry).memory root i=0#64) :
    Stepped state ⟨middle.store pdpt 0 entry,pdpt::state.processes,state.running,state.pages⟩ := by
  have hs : state.Live none := trivial
  have htarget := huser.first_eq
  rw [show entryAt (middle.store pdpt 0 entry).memory pdpt 0=entry from
    entryAt_setEntry_self _ _] at htarget
  have hdirectory : larger 2 (target entry) := htarget.symm ▸ huser.tabled.shape.member
  obtain ⟨hspaces,hsame,hother⟩ := ha.spaces.storeUpper hs (show larger (2+1) pdpt from ht) le_rfl
    (show 0<512 by decide) hdirectory
  have hrest := sameRest_store middle pdpt 0 entry
  have htouched : Untouched tables state.Live directory state.manager
      (middle.store pdpt 0 entry) := by
    intro frame hu hr x hx hlt'
    have hstore := ha.spaces.store_untouched hs ht (show 0<512 by decide) entry (ha.marked hu hr).2
    exact (hstore x hx hlt').trans (ha.untouched hu hr x hx hlt')
  have hold : ∀ {level table i : ℕ},tables level table → 3≤level → i<512 →
      entryAt (middle.store pdpt 0 entry).memory table i=
        entryAt state.manager.memory table i := by
    intro level table i ht' hl hi
    refine (hother (ha.subset ht') hi (Or.inl ?_)).trans (ha.upper ht' hl hi)
    rintro rfl
    exact hnew ht'
  have hbitmap := store_bitmap middle pdpt 0 entry
  generalize middle.store pdpt 0 entry=after at *
  obtain ⟨hadded,hleads⟩ := hspaces.add (show ¬state.Live (some pdpt) from hm) huser.tabled hroot
    (fun k hk => by rw [hblank k hk]; exact not_present_zero)
  rw [←live_cons state after pdpt] at hadded hleads
  have hgrows : Grows (ownership tables state.Live directory state.manager)
      (ownership larger (State.Live ⟨after,pdpt::state.processes,state.running,state.pages⟩)
        (Function.update directory (some pdpt) root) after) := by
    refine hg.trans ⟨fun slot frame => (hleads slot frame).trans (hsame slot frame),?_,?_,Or.inl⟩
    · intro frame hk
      exact lt_of_lt_of_eq hk (congrArg frames hbitmap.symm)
    · intro frame hu
      simp only [ownership,hbitmap]
      exact hu
  have howned : Owned larger (Function.update directory (some pdpt) root)
      ⟨after,pdpt::state.processes,state.running,state.pages⟩ := by
    refine ⟨hadded,?_,h.rooted.after_below huser.tabled.backed ha.subset
      (hrest.root_eq.trans ha.root_eq) (fun i hi => hold h.rooted.root (by decide) hi),?_,?_,
      (h.exclusive.grows hgrows).reclaim (fun hc _ => hc),
      hrest.heapSpace_eq.symm ▸ ha.heap.windowed h.heap,
      fun page hp => hrest.heapSpace_eq.symm ▸ (h.pages page hp).movesOn ha.heap⟩
    · rw [Function.update_of_ne (Option.some_ne_none pdpt).symm]
      exact h.kernel.trans (hrest.directory_eq.trans ha.directory_eq).symm
    · intro other ho
      rcases List.mem_cons.mp ho with heq|ho
      · rw [heq,Function.update_self]
        exact ⟨huser,hlt⟩
      · have hne : some other≠some pdpt := by
          intro heq
          exact hm (Option.some.inj heq ▸ ho)
        rw [Function.update_of_ne hne]
        obtain ⟨hold',hlt'⟩ := h.user ho
        exact ⟨userDirectory_same hold' (hspaces.tabled (show state.Live (some other) from ho))
          (ha.subset hold'.root) (fun i hi => hold hold'.root le_rfl hi),hlt'⟩
    · intro other hr
      obtain ⟨ho,hentry⟩ := h.running hr
      refine ⟨List.mem_cons_of_mem _ ho,?_⟩
      dsimp only
      rw [hrest.root_eq,ha.root_eq,hold h.rooted.root (by decide) (by decide)]
      exact hentry
  exact ⟨⟨larger,_,howned⟩,fun other ho => h.keeps howned ho (List.mem_cons_of_mem _ ho)
    (fun slot frame _ hf => (hgrows.leads slot frame).mpr hf) htouched⟩

/-- The two frames taken next become a further process. -/
theorem Owned.created (h : Owned tables directory state) {frame found : ℕ}
    (hf : NextFree state.manager.bitmap frame)
    (hg : NextFree (takeFrame state.manager frame).bitmap found) :
    Stepped state ⟨(takeFrame (takeFrame state.manager frame) found).store (frame*4096) 0
      (userPointerEntry (entryAt (takeFrame (takeFrame state.manager frame) found).memory
        (frame*4096) 0) (found*4096)),frame*4096::state.processes,state.running,state.pages⟩ := by
  have hs : state.Live none := trivial
  have hb := h.rooted.backed
  obtain ⟨hfirst,hgrows⟩ := h.spaces.takeTable hs hf 3
  obtain ⟨hsecond,hgrows'⟩ := hfirst.spaces.takeTable hs hg 2
  obtain ⟨hbf,hzero⟩ := backed_withTable hb hf 3
  obtain ⟨hbg,hempty⟩ := backed_withTable hbf hg 2
  have hpointer : withTable tables 3 (frame*4096) 3 (frame*4096) := Or.inr ⟨rfl,rfl⟩
  have hzero' : ∀ i,i<512 → entryAt (takeFrame (takeFrame state.manager frame) found).memory
      (frame*4096) i=0#64 :=
    fun i hi => (hbf.entryAt_takeFrame hg hpointer hi).trans (hzero i hi)
  have hreach := hb.reach
  have hreach' := hbf.reach
  have htracked := hf.tracked
  have htracked' := hg.tracked
  obtain ⟨huser,hblank⟩ := userDirectory_store hbg (Or.inl hpointer) (Or.inr ⟨rfl,rfl⟩)
    (by omega) hzero' hempty
  refine h.addProcess (hfirst.trans hsecond) (hgrows.trans hgrows') (h.fresh hf) (by omega)
    (Or.inl hpointer) (fun ht => hb.taken hf.tracked hf.clear ht) ?_ huser hblank
  intro space hl heq
  have hmember := (hfirst.spaces.tabled hl).shape.member
  rw [heq] at hmember
  exact (hfirst.spaces.next hs hg).2 ⟨2,hmember⟩

/-- A call of the allocator that fails changes nothing. -/
theorem allocateFrame_error {manager : MemoryManager} (h : Backed tables manager)
    {error : MemoryManagerError} (he : allocateFrame manager=(.error error,after)) :
    after=manager := by
  rcases allocateFrame_cases h.kernel h.geometry with ⟨hsame,-⟩|⟨frame,-,-,hok⟩
  · rw [hsame] at he
    exact (congrArg Prod.snd he).symm
  · rw [hok] at he
    cases congrArg Prod.fst he

/-- A call of `create_user_mode_directory` that fails has taken at most one
frame. -/
theorem createUserModeDirectory_error {manager : MemoryManager} (h : Backed tables manager)
    {error : MemoryManagerError} (he : createUserModeDirectory manager=(.error error,after)) :
    after=manager ∨ ∃ frame,NextFree manager.bitmap frame ∧ after=takeFrame manager frame := by
  unfold createUserModeDirectory at he
  rcases hfirst : allocateFrame manager with ⟨result,first⟩
  rw [hfirst] at he
  cases result with
  | error problem =>
    rw [allocateFrame_error h hfirst] at he
    exact Or.inl (congrArg Prod.snd he).symm
  | ok pdpt =>
    obtain ⟨frame,hf,-,htaken⟩ := Backed.taken_of_ok h hfirst
    have hb := h.takeFrame hf
    rw [←htaken] at hb
    dsimp only at he
    rcases hsecond : allocateFrame first with ⟨result',second⟩
    rw [hsecond] at he
    cases result' with
    | error problem =>
      rw [allocateFrame_error hb hsecond] at he
      exact Or.inr ⟨frame,hf,(congrArg Prod.snd he).symm.trans htaken⟩
    | ok found => cases congrArg Prod.fst he

/-- `create_user_mode_directory`. -/
theorem Owned.createUserModeDirectory (h : Owned tables directory state)
    (hstep : step state .createUserModeDirectory=some next) : Stepped state next := by
  have hs : state.Live none := trivial
  have hb := h.rooted.backed
  rw [step,Option.some.injEq] at hstep
  rcases hcall : MemoryManagement.createUserModeDirectory state.manager with ⟨result,after⟩
  rw [hcall] at hstep
  cases result with
  | error error =>
    subst hstep
    rcases createUserModeDirectory_error hb hcall with heq|⟨frame,hf,heq⟩
    · rw [heq]
      exact h.advanced (Advances.refl h.spaces) h.exclusive (fun _ _ _ hl => hl)
    · obtain ⟨hadvances,hgrows⟩ := h.spaces.takeFrame hs hf
      rw [heq]
      exact h.advanced hadvances (h.exclusive.grows hgrows)
        (fun slot k _ hl => (hgrows.leads slot k).mpr hl)
  | ok pdpt =>
    subst hstep
    obtain ⟨first,root,second,hfirst,hsecond,hafter⟩ := createUserModeDirectory_ok hcall
    obtain ⟨frame,hf,hpdpt,htaken⟩ := Backed.taken_of_ok hb hfirst
    have hbf := hb.takeFrame hf
    rw [←htaken] at hbf
    obtain ⟨found,hg,hroot,htaken'⟩ := Backed.taken_of_ok hbf hsecond
    rw [htaken] at hg
    rw [hafter,htaken',htaken,hroot,hpdpt]
    exact h.created hf hg

/-- Every step keeps what every run keeps, and what every process finds that
does not store itself. -/
theorem Owned.step (h : Owned tables directory state) {action : Action}
    (hl : Legal state action) (hstep : step state action=some next) :
    (∃ tables directory,Owned tables directory next) ∧
      ∀ pdpt∈state.processes,¬StoresAs state pdpt action → Keeps state next pdpt := by
  cases action with
  | createUserModeDirectory =>
    have hs := h.createUserModeDirectory hstep
    exact ⟨hs.owned,fun pdpt hm _ => hs.keeps pdpt hm⟩
  | allocateUserPages pdpt virtualBase pageCount write execute =>
    obtain ⟨outcome,hok,rfl⟩ := Option.map_eq_some_iff.mp hstep
    have hs := h.allocateUserPages hl hok
    exact ⟨hs.owned,fun pdpt hm _ => hs.keeps pdpt hm⟩
  | setUserDirectory pdpt =>
    have hs := h.setUserDirectory hl
    rw [ProcessIsolation.step,Option.some.injEq] at hstep
    rw [hstep] at hs
    exact ⟨hs.owned,fun pdpt hm _ => hs.keeps pdpt hm⟩
  | allocateKernelHeapPage =>
    have hs := h.allocateKernelHeapPage hl hstep
    exact ⟨hs.owned,fun pdpt hm _ => hs.keeps pdpt hm⟩
  | allocateKernelHeapPages pageCount =>
    have hs := h.allocateKernelHeapPages hl hstep
    exact ⟨hs.owned,fun pdpt hm _ => hs.keeps pdpt hm⟩
  | freeKernelHeapPage page =>
    have hs := h.freeKernelHeapPage hl hstep
    exact ⟨hs.owned,fun pdpt hm _ => hs.keeps pdpt hm⟩
  | userStore address value =>
    obtain ⟨x,hx,rfl⟩ := Option.map_eq_some_iff.mp hstep
    obtain ⟨hr,ha⟩ := hl
    obtain ⟨running,hrunning⟩ := Option.ne_none_iff_exists'.mp hr
    have howns : state.Owns (some running) address := (h.running hrunning).1
    obtain ⟨howned,hkeeps⟩ := h.stored value howns (h.userTarget hrunning ha hx)
    refine ⟨⟨tables,directory,howned⟩,fun pdpt hm hno => hkeeps pdpt hm (fun heq => hno ?_)⟩
    exact hrunning.trans heq
  | heapStore address value =>
    obtain ⟨x,hx,rfl⟩ := Option.map_eq_some_iff.mp hstep
    have howns : state.Owns none address := hl
    obtain ⟨howned,hkeeps⟩ := h.stored value howns hx
    exact ⟨⟨tables,directory,howned⟩,fun pdpt hm _ => hkeeps pdpt hm (fun heq => by cases heq)⟩

/-- An address with given entries on its way. -/
theorem indexAt_entries {i j : ℕ} (hi : i<512) (hj : j<512) :
    indexAt 1 (i*2^21+j*4096)=i ∧ indexAt 0 (i*2^21+j*4096)=j := by
  unfold indexAt
  norm_num
  omega

/-- Before the first process, nothing is claimed. -/
theorem Booted.owned (h : Booted state) : ∃ tables directory,Owned tables directory state := by
  obtain ⟨tables,htabled,hrooted⟩ := h.tables
  have hlive : ∀ {space : Option ℕ},state.Live space → space=none := by
    intro space hs
    cases space with
    | none => rfl
    | some pdpt =>
      have hm : pdpt∈state.processes := hs
      rw [h.processes] at hm
      cases hm
  have hspaces : Spaces tables state.Live (fun _ => state.manager.kernelPageDirectory)
      state.manager :=
    ⟨fun _ => htabled,fun hs ht _ => (hlive hs).trans (hlive ht).symm,
      fun hs ht _ _ _ _ _ => (hlive hs).trans (hlive ht).symm⟩
  have hclaims : ∀ {slot : Slot (Option ℕ)},state.Live slot.space → ¬state.Claimed slot := by
    intro slot hs hc
    unfold State.Claimed at hc
    rw [hlive hs] at hc
    obtain ⟨page,hm,-⟩ := hc
    rw [h.pages] at hm
    cases hm
  refine ⟨tables,fun _ => state.manager.kernelPageDirectory,hspaces,rfl,hrooted,?_,?_,
    ⟨?_,?_,?_,?_⟩,h.heap,?_⟩
  · intro pdpt hm
    rw [h.processes] at hm
    cases hm
  · intro pdpt hr
    rw [h.running] at hr
    cases hr
  · rintro slot frame ⟨hs,hi,hj,hf⟩ hlt
    have hwalk := walk_slot htabled.shape (slot.directoryIndex*2^21+slot.tableIndex*4096)
    obtain ⟨hdirectory,htable⟩ := indexAt_entries hi hj
    rw [hdirectory,htable,hf,Option.map_some] at hwalk
    have hframe : (frame*4096+(slot.directoryIndex*2^21+slot.tableIndex*4096)%4096)/4096=frame := by
      omega
    have hset := h.mapped _ _ hwalk
    rw [hframe] at hset
    exact hset hlt
  · intro slot frame hc hf
    exact absurd hc (hclaims hf.1)
  · intro slot frame hc hf
    exact absurd hc (hclaims hf.1)
  · intro slot other frame hc hf
    exact absurd hc (hclaims hf.1)
  · intro page hm
    rw [h.pages] at hm
    cases hm

end Steps

instance (state : State) (address : ℕ) : Decidable (state.InHeap address) :=
  inferInstanceAs (Decidable (∃ page∈state.pages,_))

instance (state : State) (pageCount : ℕ) : Decidable (state.HasRoom pageCount) :=
  inferInstanceAs (Decidable (_≤_))

instance decidableLegal : ∀ state action,Decidable (Legal state action)
  | _,.createUserModeDirectory => inferInstanceAs (Decidable True)
  | _,.allocateUserPages .. => inferInstanceAs (Decidable (_∈_))
  | _,.setUserDirectory _ => inferInstanceAs (Decidable (_∈_))
  | state,.allocateKernelHeapPage => inferInstanceAs (Decidable (state.HasRoom 1))
  | state,.allocateKernelHeapPages pageCount =>
    inferInstanceAs (Decidable (state.HasRoom (max 1 pageCount)))
  | _,.freeKernelHeapPage _ => inferInstanceAs (Decidable (_∧_))
  | _,.userStore .. => inferInstanceAs (Decidable (_∧_))
  | state,.heapStore address _ => inferInstanceAs (Decidable (state.InHeap address))

/-- Two mebibytes of memory with the first one in use. -/
def sampleState : State := ⟨KernelHeap.sampleManager,[],none,[]⟩

/-- The sample is a state after boot. -/
theorem sampleState_booted : Booted sampleState := by
  obtain ⟨tables,hw⟩ := KernelHeap.sampleManager_afterInit.wired
  have hempty : ∀ i<256,entryAt KernelHeap.sampleMemory 0x10000 i=0#64 := by
    intro i hi
    rw [KernelHeap.entryAt_sampleMemory (by decide) (by omega),if_neg (by omega),
      if_neg (by omega)]
  have hzero := hempty 0 (by decide)
  refine ⟨⟨tables,hw.tabled,hw.tabled.backed,hw.root,?_,?_,?_⟩,?_,
    ⟨by decide,by decide,by decide,by decide⟩,rfl,rfl,rfl⟩
  · exact hzero.symm ▸ getField_zero (by decide)
  · exact hzero.symm ▸ getField_zero (by decide)
  · intro i _ hi
    exact (hempty i hi).symm ▸ not_present_zero
  · intro address physical hwalk
    have hentry : entryAt KernelHeap.sampleMemory 0x12000 (indexAt 1 address)=0#64 :=
      KernelHeap.entryAt_sampleDirectory (indexAt_lt 1 address)
    have habsent : ¬Present (entryAt sampleState.manager.memory
        sampleState.manager.kernelPageDirectory (indexAt 1 address)) := by
      change ¬Present (entryAt KernelHeap.sampleMemory 0x12000 (indexAt 1 address))
      rw [hentry]
      exact not_present_zero
    rw [walkFrom_absent habsent] at hwalk
    cases hwalk

/-- Two processes with a page each, a store by the first, and a heap page whose
frame goes to the second. -/
def sampleActions : List Action :=
  [.createUserModeDirectory,.allocateUserPages 0x100000 0x400000 1 true false,
    .createUserModeDirectory,.allocateUserPages 0x104000 0x400000 1 true true,
    .allocateKernelHeapPage,.setUserDirectory 0x100000,.userStore 0x400010 0xab,
    .heapStore 0xffffffff80200020 0xcd,.freeKernelHeapPage 0xffffffff80200000,
    .allocateUserPages 0x104000 0x401000 1 true true]

end WorkbenchOS.ProcessIsolation
