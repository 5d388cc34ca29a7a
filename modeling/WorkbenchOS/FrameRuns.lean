import WorkbenchOS.FrameOperations
import WorkbenchOS.TransitionRuns

/-!
# Runs of the frame bitmap

Frames are allocated singly or in runs, freed, and marked as allocated from
outside, in any order. Two results about whole runs: a frame handed out is
the lowest clear one and stays exclusive until it is freed, and the
free-page counter counts the clear bits along exactly those runs that never
mark a frame twice and never ask for a run of more than 65 pages.
-/

namespace WorkbenchOS.FrameRuns

open ByteMemory LibStd WordBitmaps FrameBitmap FrameOperations TransitionRuns

/-- A bitmap with the physical memory whose frames it hands out. -/
structure FrameState where
  /-- The frame bitmap. -/
  bitmap : Bitmap
  /-- Physical memory. -/
  memory : Memory

/-- A call to one of the bitmap's operations. -/
inductive FrameAction where
  /-- `allocate`. -/
  | allocate
  /-- `allocate_contiguous`. -/
  | allocateContiguous (pages : ℕ)
  /-- `free`. -/
  | free (address : ℕ)
  /-- `set_allocated` of an address. -/
  | setAllocated (address : ℕ)
  deriving DecidableEq

/-- One call; every operation returns. -/
def step (state : FrameState) : FrameAction→Option FrameState
  | .allocate =>
    let result := allocate state.bitmap state.memory
    some ⟨result.2.1,result.2.2⟩
  | .allocateContiguous pages =>
    let result := allocateContiguous state.bitmap state.memory pages
    some ⟨result.2.1,result.2.2⟩
  | .free address => some {state with bitmap := (free state.bitmap address).2}
  | .setAllocated address => some {state with bitmap := setAllocated state.bitmap address}

/-- Addresses passed in belong to managed frames. -/
def Managed (state : FrameState) : FrameAction→Prop
  | .allocate => True
  | .allocateContiguous pages => pages<2^64
  | .free address => Tracked state.bitmap address
  | .setAllocated address => Tracked state.bitmap address

instance (state : FrameState) : DecidablePred (Managed state)
  | .allocate => isTrue trivial
  | .allocateContiguous _ => inferInstanceAs (Decidable (_<_))
  | .free _ => inferInstanceAs (Decidable (Tracked _ _))
  | .setAllocated _ => inferInstanceAs (Decidable (Tracked _ _))

/-- Two bitmaps manage the same frames. -/
structure SameShape (first second : Bitmap) : Prop where
  /-- Same page size. -/
  page_eq : second.pageSize=first.pageSize
  /-- Same number of blocks. -/
  count_eq : second.blockCount=first.blockCount
  /-- Same block size. -/
  full_eq : second.blockFullSize=first.blockFullSize
  /-- Same base. -/
  base_eq : second.baseAddress=first.baseAddress

namespace SameShape

variable {first second third : Bitmap}

theorem refl (bitmap : Bitmap) : SameShape bitmap bitmap := ⟨rfl,rfl,rfl,rfl⟩

theorem trans (h : SameShape first second) (k : SameShape second third) :
    SameShape first third :=
  ⟨k.page_eq.trans h.page_eq,k.count_eq.trans h.count_eq,k.full_eq.trans h.full_eq,
    k.base_eq.trans h.base_eq⟩

theorem frames_eq (h : SameShape first second) : frames second=frames first :=
  congrArg (64 * ·) h.count_eq

theorem frameOf_eq (h : SameShape first second) (address : ℕ) :
    frameOf second address=frameOf first address := by
  simp only [frameOf,h.page_eq,h.base_eq]

theorem frameAddress_eq (h : SameShape first second) (frame : ℕ) :
    frameAddress second frame=frameAddress first frame := by
  simp only [frameAddress,h.page_eq,h.base_eq]

theorem tracked_iff (h : SameShape first second) {address : ℕ} :
    Tracked second address ↔ Tracked first address := by
  rw [Tracked,Tracked,h.base_eq,h.frames_eq,h.page_eq]

theorem geometry (h : SameShape first second) (hg : Geometry first) : Geometry second := by
  refine ⟨?_,?_,?_,?_⟩
  · rw [h.page_eq]
    exact hg.page_pos
  · rw [h.count_eq,h.full_eq,h.page_eq]
    exact hg.full_eq
  · rw [h.frames_eq,h.page_eq]
    exact hg.size_lt
  · rw [h.base_eq]
    exact hg.base_lt

end SameShape

/-- Changing bits and counter keeps the managed frames. -/
theorem sameShape_with (bitmap : Bitmap) (storage : Words) (freePages : ℕ) :
    SameShape bitmap {bitmap with storage := storage,freePages := freePages} := by
  constructor <;> dsimp only

/-- No call changes which frames are managed. -/
theorem step_shape {state next : FrameState} {action : FrameAction}
    (h : step state action=some next) : SameShape state.bitmap next.bitmap := by
  cases action with
  | allocate =>
    cases h
    dsimp only [allocate]
    split
    · exact SameShape.refl _
    · split
      · exact sameShape_with _ _ _
      · exact SameShape.refl _
  | allocateContiguous pages =>
    cases h
    dsimp only [allocateContiguous]
    split
    · exact SameShape.refl _
    · split
      · exact sameShape_with _ _ _
      · exact SameShape.refl _
  | free address =>
    cases h
    dsimp only [free]
    split
    · exact SameShape.refl _
    · exact sameShape_with _ _ _
  | setAllocated address =>
    cases h
    exact sameShape_with _ _ _

/-- The action does not free an address of the frame. -/
def NotFreed (bitmap : Bitmap) (frame : ℕ) : FrameAction→Prop
  | .free address => frameOf bitmap address≠frame
  | _ => True

/-- A set bit stays set until its frame is freed. -/
theorem step_bit {state next : FrameState} {action : FrameAction} {frame : ℕ}
    (hg : Geometry state.bitmap) (hm : Managed state action)
    (hn : NotFreed state.bitmap frame action) (hset : bitAt state.bitmap.storage frame=true)
    (h : step state action=some next) : bitAt next.bitmap.storage frame=true := by
  cases action with
  | allocate =>
    cases h
    rcases allocate_cases hg state.memory with ⟨error,he,-⟩|⟨found,-,-,-,-,he⟩
    · simp only [he,hset]
    · simp only [he,bitAt_markFrame,hset,Bool.true_or]
  | allocateContiguous pages =>
    cases h
    rcases allocateContiguous_cases state.bitmap state.memory pages with
      ⟨error,he⟩|⟨block,offset,-,-,-,he⟩
    · simp only [he,hset]
    · simp only [he,setNAllocated,bitAt_orWord,hset,Bool.true_or]
  | free address =>
    cases h
    have hne : ¬frame=frameOf state.bitmap address := fun heq => hn heq.symm
    dsimp only
    rw [free_eq hg hm]
    split
    · exact hset
    · simp only [bitAt_releaseFrame,hset,ne_eq,hne,not_false_eq_true,decide_true,Bool.and_self]
  | setAllocated address =>
    cases h
    simp only [setAllocated_eq hg hm,bitAt_markFrame,hset,Bool.true_or]

/-- What holds of a frame from the moment it is handed out. -/
structure HandedOut (origin : Bitmap) (frame : ℕ) (state : FrameState) : Prop where
  /-- The managed frames are those of the bitmap that handed it out. -/
  shape : SameShape origin state.bitmap
  /-- The frame's bit is set. -/
  set : bitAt state.bitmap.storage frame=true

/-- Until it is freed, a frame that was handed out is not handed out again. -/
theorem HandedOut.not_allocated {origin : Bitmap} {frame : ℕ} {state : FrameState}
    (hg : Geometry origin) (hf : frame<frames origin) (h : HandedOut origin frame state) :
    (allocate state.bitmap state.memory).1≠.ok (frameAddress origin frame) := by
  intro hok
  have hg' := h.shape.geometry hg
  rcases allocate_cases hg' state.memory with ⟨error,he,-⟩|⟨found,hlt,hclear,-,-,he⟩
  · rw [he] at hok
    cases hok
  · rw [he] at hok
    have haddress : frameAddress state.bitmap found=frameAddress origin frame :=
      Except.ok.inj hok
    have hsame : found=frame := by
      rw [← frameOf_frameAddress hg' hlt,haddress,h.shape.frameOf_eq]
      exact frameOf_frameAddress hg hf
    rw [hsame,h.set] at hclear
    cases hclear

/-- What one allocation promises about the frame it returns. -/
structure ExclusiveFirstFit (before : FrameState) (address : ℕ) (after : FrameState) : Prop where
  /-- The address is page aligned. -/
  aligned : address%before.bitmap.pageSize=0
  /-- The frame lies in the tracked range. -/
  inside : before.bitmap.baseAddress≤address ∧
    address<before.bitmap.baseAddress+before.bitmap.blockCount*64*before.bitmap.pageSize
  /-- The frame was clear. -/
  was_clear : isAllocated before.bitmap address=false
  /-- The frame is set. -/
  is_set : isAllocated after.bitmap address=true
  /-- Every other bit is unchanged. -/
  others : ∀ k, k≠frameOf before.bitmap address →
    bitAt after.bitmap.storage k=bitAt before.bitmap.storage k
  /-- Every clear tracked address is at or above it. -/
  lowest : ∀ other, before.bitmap.baseAddress≤other →
    other<before.bitmap.baseAddress+before.bitmap.blockCount*64*before.bitmap.pageSize →
    isAllocated before.bitmap other=false → address≤other
  /-- It is not returned again before it is freed. -/
  exclusive : ∀ actions last, Each step Managed after actions →
    (∀ other, FrameAction.free other∈actions →
      frameOf before.bitmap other≠frameOf before.bitmap address) →
    run step after actions=some last → (allocate last.bitmap last.memory).1≠.ok address

/-- Every successful allocation of a run keeps its promise. -/
def AllocatesFirstFit (state : FrameState) : FrameAction→Prop
  | .allocate => ∀ address bitmap memory,
      allocate state.bitmap state.memory=(.ok address,bitmap,memory) →
      ExclusiveFirstFit state address ⟨bitmap,memory⟩
  | _ => True

/-- The tracked range is aligned and does not wrap. -/
structure Ready (state : FrameState) : Prop where
  /-- Sizes are those `init` establishes. -/
  geometry : Geometry state.bitmap
  /-- The base is page aligned. -/
  base_aligned : state.bitmap.baseAddress%state.bitmap.pageSize=0
  /-- The tracked range does not wrap. -/
  range_le : state.bitmap.baseAddress+state.bitmap.blockCount*64*state.bitmap.pageSize≤2^64

namespace Ready

variable {state : FrameState} {address frame : ℕ}

/-- Tracked addresses in the plain order of addresses. -/
theorem tracked (h : Ready state) (hl : state.bitmap.baseAddress≤address)
    (hu : address<state.bitmap.baseAddress+
      state.bitmap.blockCount*64*state.bitmap.pageSize) :
    Tracked state.bitmap address ∧
      frameOf state.bitmap address=(address-state.bitmap.baseAddress)/state.bitmap.pageSize := by
  have hr := h.range_le
  have hsub : u64Sub address state.bitmap.baseAddress=address-state.bitmap.baseAddress :=
    u64Sub_of_le hl (by omega)
  refine ⟨⟨by omega,?_⟩,by rw [frameOf,hsub]⟩
  rw [hsub,frames,Nat.mul_comm 64]
  omega

/-- Addresses of tracked frames do not wrap. -/
theorem frameAddress_eq (h : Ready state) (hf : frame<frames state.bitmap) :
    frameAddress state.bitmap frame=state.bitmap.baseAddress+frame*state.bitmap.pageSize ∧
      frame*state.bitmap.pageSize<state.bitmap.blockCount*64*state.bitmap.pageSize := by
  have hlt : frame*state.bitmap.pageSize<state.bitmap.blockCount*64*state.bitmap.pageSize := by
    refine Nat.mul_lt_mul_of_pos_right ?_ h.geometry.page_pos
    unfold frames at hf
    omega
  have hr := h.range_le
  exact ⟨u64_of_lt (by omega),hlt⟩

/-- Readiness does not depend on the bits. -/
theorem step {next : FrameState} {action : FrameAction} (h : Ready state)
    (hs : FrameRuns.step state action=some next) : Ready next := by
  have hshape := step_shape hs
  refine ⟨hshape.geometry h.geometry,?_,?_⟩
  · rw [hshape.base_eq,hshape.page_eq]
    exact h.base_aligned
  · rw [hshape.base_eq,hshape.page_eq,hshape.count_eq]
    exact h.range_le

end Ready

/-- A frame stays handed out along every run that does not free it. -/
theorem HandedOut.run_kept {origin : Bitmap} {frame : ℕ} {state last : FrameState}
    {actions : List FrameAction} (hg : Geometry origin) (h : HandedOut origin frame state)
    (hm : Each step Managed state actions)
    (hn : ∀ action∈actions,NotFreed origin frame action)
    (hr : run step state actions=some last) : HandedOut origin frame last := by
  have hkeep : ∀ state action, HandedOut origin frame state →
      (Managed state action ∧ NotFreed origin frame action) →
      ∃ next, step state action=some next ∧ HandedOut origin frame next := by
    intro state action hs hc
    have hsome : ∃ next, step state action=some next := by
      cases action <;> exact ⟨_,rfl⟩
    obtain ⟨next,hnext⟩ := hsome
    have hnf : NotFreed state.bitmap frame action := by
      cases action with
      | free address =>
        have hf : frameOf origin address≠frame := hc.2
        rw [← hs.shape.frameOf_eq] at hf
        exact hf
      | _ => trivial
    exact ⟨next,hnext,hs.shape.trans (step_shape hnext),
      step_bit (hs.shape.geometry hg) hc.1 hnf hs.set hnext⟩
  obtain ⟨last',hlast,hhanded⟩ :=
    (always_of_each hkeep h (hm.and (each_of_forall hn state))).final
  have he : last'=last := Option.some.inj (hlast.symm.trans hr)
  exact he ▸ hhanded

/-- One allocation of a ready bitmap returns the lowest clear frame, which is
exclusive from then on. -/
theorem allocate_exclusive {state : FrameState} (h : Ready state) {address : ℕ}
    {bitmap : Bitmap} {memory : Memory}
    (ha : allocate state.bitmap state.memory=(.ok address,bitmap,memory)) :
    ExclusiveFirstFit state address ⟨bitmap,memory⟩ := by
  have hg := h.geometry
  rcases allocate_cases hg state.memory with ⟨error,he,-⟩|⟨frame,hlt,hclear,hlower,-,he⟩
  · rw [he] at ha
    cases ha
  · rw [he] at ha
    cases ha
    obtain ⟨haddress,hinside⟩ := h.frameAddress_eq hlt
    have hframe := frameOf_frameAddress hg hlt
    have htracked := tracked_frameAddress hg hlt
    have hshape : SameShape state.bitmap (markFrame state.bitmap frame) := sameShape_with _ _ _
    have hset : bitAt (markFrame state.bitmap frame).storage frame=true := by
      rw [bitAt_markFrame,decide_eq_true rfl,Bool.or_true]
    refine ⟨?_,?_,?_,?_,?_,?_,?_⟩
    · rw [haddress,Nat.add_mul_mod_self_right]
      exact h.base_aligned
    · rw [haddress]
      omega
    · rw [isAllocated_eq hg htracked,hframe,hclear]
    · have htracked' := tracked_frameAddress (hshape.geometry hg)
        (hshape.frames_eq.symm ▸ hlt : frame<frames (markFrame state.bitmap frame))
      rw [hshape.frameAddress_eq] at htracked'
      rw [isAllocated_eq (hshape.geometry hg) htracked',hshape.frameOf_eq,hframe,hset]
    · intro k hk
      rw [hframe] at hk
      simp only [bitAt_markFrame,hk,decide_false,Bool.or_false]
    · intro other hl hu hother
      obtain ⟨htr,hfo⟩ := h.tracked hl hu
      rw [isAllocated_eq hg htr] at hother
      have hle : frame≤frameOf state.bitmap other := by
        by_contra hgt
        rw [hlower _ (Nat.not_le.mp hgt)] at hother
        cases hother
      have hmul : frame*state.bitmap.pageSize≤other-state.bitmap.baseAddress := by
        rw [hfo] at hle
        exact (Nat.mul_le_mul_right _ hle).trans (Nat.div_mul_le_self _ _)
      rw [haddress]
      omega
    · intro actions last hm hn hr
      have hhanded : HandedOut state.bitmap frame ⟨markFrame state.bitmap frame,
          fill state.memory (frameAddress state.bitmap frame) state.bitmap.pageSize 0⟩ :=
        ⟨hshape,hset⟩
      refine (hhanded.run_kept hg hm ?_ hr).not_allocated hg hlt
      intro action hmem
      cases action with
      | free other =>
        have hne := hn other hmem
        rw [hframe] at hne
        exact hne
      | _ => trivial

/-- A bitmap is ready right after `init`. -/
theorem init_ready {storage : Words} {pageSize ramSize baseAddress : ℕ} {bitmap : Bitmap}
    (hinit : init storage pageSize ramSize baseAddress=.ok bitmap)
    (hram : ramSize<2^64) (hbase : baseAddress<2^64)
    (hrange : bitmap.baseAddress+bitmap.blockCount*64*bitmap.pageSize≤2^64) (memory : Memory) :
    Ready ⟨bitmap,memory⟩ := by
  refine ⟨init_geometry hinit hram hbase,?_,hrange⟩
  unfold init at hinit
  split at hinit
  · cases hinit
  · split at hinit
    · cases hinit
    · rename_i hmod
      cases hinit
      exact not_not.mp hmod

/-- Frame exclusivity and first fit along every run from `init`. -/
theorem allocate_exclusive_firstFit {storage : Words} {pageSize ramSize baseAddress : ℕ}
    {bitmap : Bitmap} {memory : Memory} {actions : List FrameAction}
    (hinit : init storage pageSize ramSize baseAddress=.ok bitmap)
    (hram : ramSize<2^64) (hbase : baseAddress<2^64)
    (hrange : bitmap.baseAddress+bitmap.blockCount*64*bitmap.pageSize≤2^64)
    (hm : Each step Managed ⟨bitmap,memory⟩ actions) :
    Each step AllocatesFirstFit ⟨bitmap,memory⟩ actions := by
  refine each_of_each ?_ ?_ (init_ready hinit hram hbase hrange memory) hm
  · intro state action h hc
    have hsome : ∃ next, step state action=some next := by
      cases action <;> exact ⟨_,rfl⟩
    obtain ⟨next,hnext⟩ := hsome
    exact ⟨next,hnext,h.step hnext⟩
  · intro state action h hc
    cases action with
    | allocate => exact fun _ _ _ ha => allocate_exclusive h ha
    | _ => trivial

/-- A bitmap of two blocks of four-kilobyte frames at address zero. -/
def sampleBitmap : Bitmap where
  pageSize := 4096
  totalPages := 128
  freePages := 128
  blockCount := 2
  blockFullSize := 262144
  storage := fun _ => 0#64
  baseAddress := 0

/-- `init` builds the sample over cleared storage. -/
theorem init_sampleBitmap : init (fun _ => 0#64) 4096 0x80000 0=.ok sampleBitmap := by
  rw [init,if_neg (by decide),if_neg (by decide)]
  simp only [ite_self]
  rfl

/-- A run with a marked frame and a frame that is freed in between. -/
theorem allocate_exclusive_sample :
    Each step Managed ⟨sampleBitmap,fun _ => 1⟩
        [.setAllocated 0x1000,.allocate,.allocate,.free 0,.allocate] ∧
      Each step AllocatesFirstFit ⟨sampleBitmap,fun _ => 1⟩
        [.setAllocated 0x1000,.allocate,.allocate,.free 0,.allocate] := by
  have hm : Each step Managed ⟨sampleBitmap,fun _ => 1⟩
      [.setAllocated 0x1000,.allocate,.allocate,.free 0,.allocate] := by decide +kernel
  exact ⟨hm,allocate_exclusive_firstFit init_sampleBitmap (by decide) (by decide) (by decide) hm⟩

/-- Number of clear bits among the frames the allocator can hand out. -/
def clearFrames (bitmap : Bitmap) : ℕ := (clearBits bitmap.storage (frames bitmap)).card

/-- The free-page counter tells the truth. -/
structure Accounted (state : FrameState) : Prop where
  /-- The counter is the number of clear bits. -/
  free_eq : state.bitmap.freePages=clearFrames state.bitmap
  /-- It never wraps below zero. -/
  bounded : state.bitmap.freePages≤frames state.bitmap
  /-- An allocation fails exactly when no tracked bit is clear. -/
  fails_iff : (∃ error, (allocate state.bitmap state.memory).1=.error error) ↔
    ∀ j, j<frames state.bitmap → bitAt state.bitmap.storage j=true

/-- A frame is marked only while it is clear, and no run of more than 65
pages is asked for while pages are free. -/
def CountsRight (state : FrameState) : FrameAction→Prop
  | .allocate => True
  | .allocateContiguous pages => pages%256≤65 ∨ state.bitmap.freePages=0
  | .free _ => True
  | .setAllocated address => isAllocated state.bitmap address=false

instance (state : FrameState) : DecidablePred (CountsRight state)
  | .allocate => isTrue trivial
  | .allocateContiguous _ => inferInstanceAs (Decidable (_ ∨ _))
  | .free _ => isTrue trivial
  | .setAllocated _ => inferInstanceAs (Decidable (_=_))

/-- The counter agrees with the bits of a well-shaped bitmap. -/
structure Counting (state : FrameState) : Prop where
  /-- Sizes are those `init` establishes. -/
  geometry : Geometry state.bitmap
  /-- The counter is the number of clear bits. -/
  free_eq : state.bitmap.freePages=clearFrames state.bitmap

/-- There are fewer tracked frames than 64-bit numbers. -/
theorem frames_lt {bitmap : Bitmap} (hg : Geometry bitmap) : frames bitmap<2^64 :=
  lt_of_le_of_lt (Nat.le_mul_of_pos_right _ hg.page_pos) hg.size_lt

/-- The clear frames are among the tracked ones. -/
theorem clearFrames_le (bitmap : Bitmap) : clearFrames bitmap≤frames bitmap :=
  card_clearBits_le _ _

/-- No clear frame is left exactly when every tracked bit is set. -/
theorem clearFrames_eq_zero (bitmap : Bitmap) :
    clearFrames bitmap=0 ↔ ∀ j, j<frames bitmap → bitAt bitmap.storage j=true := by
  unfold clearFrames
  rw [Finset.card_eq_zero,Finset.eq_empty_iff_forall_notMem]
  simp only [mem_clearBits,not_and,Bool.not_eq_false]

/-- A counter that agrees with the bits predicts failure. -/
theorem Counting.accounted {state : FrameState} (h : Counting state) : Accounted state := by
  refine ⟨h.free_eq,h.free_eq ▸ clearFrames_le _,?_⟩
  rcases allocate_cases h.geometry state.memory with ⟨error,he,hwhy⟩|⟨frame,hlt,hclear,-,-,he⟩
  · rw [he]
    refine iff_of_true ⟨error,rfl⟩ (hwhy.elim (fun hz => ?_) id)
    rw [h.free_eq] at hz
    exact (clearFrames_eq_zero _).mp hz
  · rw [he]
    refine iff_of_false (by simp) (fun hall => ?_)
    rw [hall frame hlt] at hclear
    cases hclear

/-- Marking a frame decrements the counter, whatever the bit was. -/
theorem freePages_markFrame (bitmap : Bitmap) (frame : ℕ) :
    (markFrame bitmap frame).freePages=u64Sub bitmap.freePages 1 := by
  simp only [markFrame,setAllocatedAt]

/-- A marked frame is no longer clear. -/
theorem clearFrames_markFrame {bitmap : Bitmap} {frame : ℕ} (hf : frame<frames bitmap)
    (hclear : bitAt bitmap.storage frame=false) :
    clearFrames (markFrame bitmap frame)+1=clearFrames bitmap := by
  have hshape : SameShape bitmap (markFrame bitmap frame) := sameShape_with _ _ _
  unfold clearFrames
  rw [hshape.frames_eq]
  exact card_markFrame hf hclear

/-- A frame marked again was not clear before. -/
theorem clearFrames_markFrame_again {bitmap : Bitmap} {frame : ℕ}
    (hset : bitAt bitmap.storage frame=true) :
    clearFrames (markFrame bitmap frame)=clearFrames bitmap := by
  have hshape : SameShape bitmap (markFrame bitmap frame) := sameShape_with _ _ _
  unfold clearFrames
  rw [hshape.frames_eq,clearBits_markFrame_again hset]

/-- A released frame is clear. -/
theorem clearFrames_releaseFrame {bitmap : Bitmap} {frame : ℕ} (hf : frame<frames bitmap)
    (hset : bitAt bitmap.storage frame=true) :
    clearFrames (releaseFrame bitmap frame)=clearFrames bitmap+1 := by
  have hshape : SameShape bitmap (releaseFrame bitmap frame) := sameShape_with _ _ _
  unfold clearFrames
  rw [hshape.frames_eq]
  exact card_releaseFrame hf hset

/-- A run of clear frames inside one word is no longer clear. -/
theorem clearFrames_setNAllocated {bitmap : Bitmap} {block offset n : ℕ}
    (hblock : block<bitmap.blockCount) (hn : offset+n≤64)
    (hclear : ∀ j, offset≤j → j<offset+n → (bitmap.storage block).getLsbD j=false) :
    clearFrames (setNAllocated bitmap ⟨block,offset⟩ n)+n=clearFrames bitmap := by
  have hshape : SameShape bitmap (setNAllocated bitmap ⟨block,offset⟩ n) := sameShape_with _ _ _
  unfold clearFrames
  rw [hshape.frames_eq]
  exact card_setNAllocated hblock hn hclear

/-- Whatever the run is, at most the 64 frames of one word are marked. -/
theorem clearFrames_setNAllocated_le (bitmap : Bitmap) (block offset n : ℕ) :
    clearFrames (setNAllocated bitmap ⟨block,offset⟩ n)≤clearFrames bitmap ∧
      clearFrames bitmap≤clearFrames (setNAllocated bitmap ⟨block,offset⟩ n)+64 := by
  have hshape : SameShape bitmap (setNAllocated bitmap ⟨block,offset⟩ n) := sameShape_with _ _ _
  unfold clearFrames
  rw [hshape.frames_eq]
  exact card_clearBits_orWord _ _ _ _

/-- Marking a clear frame keeps the counter right. -/
theorem counting_markFrame {state : FrameState} (h : Counting state) {frame : ℕ}
    (hf : frame<frames state.bitmap) (hclear : bitAt state.bitmap.storage frame=false)
    (memory : Memory) : Counting ⟨markFrame state.bitmap frame,memory⟩ := by
  have hshape : SameShape state.bitmap (markFrame state.bitmap frame) := sameShape_with _ _ _
  have hcard := clearFrames_markFrame hf hclear
  have hle := (clearFrames_le state.bitmap).trans_lt (frames_lt h.geometry)
  refine ⟨hshape.geometry h.geometry,?_⟩
  change (markFrame state.bitmap frame).freePages=_
  rw [freePages_markFrame,h.free_eq,u64Sub_of_le (by omega) hle]
  change clearFrames state.bitmap-1=clearFrames (markFrame state.bitmap frame)
  omega

/-- So does marking a run of clear frames. -/
theorem counting_setNAllocated {state : FrameState} (h : Counting state) {block offset n : ℕ}
    (hblock : block<state.bitmap.blockCount) (hn : offset+n≤64)
    (hclear : ∀ j, offset≤j → j<offset+n → (state.bitmap.storage block).getLsbD j=false)
    (memory : Memory) : Counting ⟨setNAllocated state.bitmap ⟨block,offset⟩ n,memory⟩ := by
  have hshape : SameShape state.bitmap (setNAllocated state.bitmap ⟨block,offset⟩ n) :=
    sameShape_with _ _ _
  have hcard := clearFrames_setNAllocated hblock hn hclear
  have hle := (clearFrames_le state.bitmap).trans_lt (frames_lt h.geometry)
  refine ⟨hshape.geometry h.geometry,?_⟩
  change u64Sub state.bitmap.freePages n=clearFrames (setNAllocated state.bitmap ⟨block,offset⟩ n)
  rw [h.free_eq,u64Sub_of_le (by omega) hle]
  omega

/-- So does the release of a frame that was marked. -/
theorem counting_releaseFrame {state : FrameState} (h : Counting state) {frame : ℕ}
    (hf : frame<frames state.bitmap) (hset : bitAt state.bitmap.storage frame=true)
    (memory : Memory) : Counting ⟨releaseFrame state.bitmap frame,memory⟩ := by
  have hshape : SameShape state.bitmap (releaseFrame state.bitmap frame) := sameShape_with _ _ _
  have hcard := clearFrames_releaseFrame hf hset
  have hgeometry := hshape.geometry h.geometry
  have hle := (clearFrames_le (releaseFrame state.bitmap frame)).trans_lt (frames_lt hgeometry)
  refine ⟨hgeometry,?_⟩
  change u64 (state.bitmap.freePages+1)=clearFrames (releaseFrame state.bitmap frame)
  rw [h.free_eq,hcard,u64_of_lt (by omega)]

/-- Every call that meets the condition keeps the counter right. -/
theorem counting_step (state : FrameState) (action : FrameAction) (h : Counting state)
    (hm : Managed state action) (hc : CountsRight state action) :
    ∃ next, step state action=some next ∧ Counting next := by
  have hg := h.geometry
  cases action with
  | allocate =>
    refine ⟨_,rfl,?_⟩
    rcases allocate_cases hg state.memory with ⟨error,he,-⟩|⟨frame,hlt,hclear,-,-,he⟩
    · rw [he]
      exact h
    · rw [he]
      exact counting_markFrame h hlt hclear _
  | allocateContiguous pages =>
    refine ⟨_,rfl,?_⟩
    rcases allocateContiguous_cases state.bitmap state.memory pages with
      ⟨error,he⟩|⟨block,offset,hblock,hfree,hfind,he⟩
    · rw [he]
      exact h
    · rw [he]
      obtain ⟨hn,hclear⟩ := findNFree_ok (hc.resolve_right hfree) hfind
      exact counting_setNAllocated h hblock hn hclear _
  | free address =>
    refine ⟨_,rfl,?_⟩
    rw [free_eq hg hm]
    split
    · exact h
    · next hset => exact counting_releaseFrame h (frameOf_lt hg hm) (Bool.not_eq_false _ ▸ hset) _
  | setAllocated address =>
    refine ⟨_,rfl,?_⟩
    have hclear : isAllocated state.bitmap address=false := hc
    rw [isAllocated_eq hg hm] at hclear
    rw [setAllocated_eq hg hm]
    exact counting_markFrame h (frameOf_lt hg hm) hclear _

/-- A call that does not meet the condition makes the counter wrong. -/
theorem counting_lost (state : FrameState) (action : FrameAction) (h : Counting state)
    (hm : Managed state action) (hc : ¬CountsRight state action) :
    ∀ next, step state action=some next → ¬Accounted next := by
  have hg := h.geometry
  have hlt := frames_lt hg
  have hle := clearFrames_le state.bitmap
  intro next hnext hacc
  have hfree := hacc.free_eq
  cases action with
  | allocate => exact hc trivial
  | allocateContiguous pages =>
    obtain ⟨hlarge,hnonzero⟩ := not_or.mp hc
    have hpos : 0<state.bitmap.blockCount := by
      rw [h.free_eq] at hnonzero
      unfold frames at hle
      omega
    obtain ⟨block,offset,he⟩ := allocateContiguous_large state.memory
      (by omega : 66≤pages%256) hnonzero hpos
    have hn : pages%256<256 := Nat.mod_lt _ (by decide)
    cases hnext
    rw [he] at hfree
    have hcard := clearFrames_setNAllocated_le state.bitmap block offset (pages%256)
    change u64Sub state.bitmap.freePages (pages%256)=
      clearFrames (setNAllocated state.bitmap ⟨block,offset⟩ (pages%256)) at hfree
    rw [h.free_eq] at hfree
    unfold u64Sub u64 at hfree
    omega
  | free address => exact hc trivial
  | setAllocated address =>
    have hset : bitAt state.bitmap.storage (frameOf state.bitmap address)=true := by
      rw [← isAllocated_eq hg hm]
      exact Bool.not_eq_false _ ▸ hc
    cases hnext
    dsimp only at hfree
    rw [setAllocated_eq hg hm,freePages_markFrame,h.free_eq,clearFrames_markFrame_again hset]
      at hfree
    unfold u64Sub u64 at hfree
    omega

/-- The counter starts right exactly when the pages fill whole blocks and
every word of the storage starts at zero. -/
theorem init_counts_iff {storage : Words} {pageSize ramSize baseAddress : ℕ} {bitmap : Bitmap}
    (hinit : init storage pageSize ramSize baseAddress=.ok bitmap) :
    bitmap.freePages=clearFrames bitmap ↔ ramSize/pageSize%64=0 ∧
      ∀ i, intIterations≤ i → i<ramSize/pageSize/64 → storage i=0#64 := by
  have hle := clearFrames_le bitmap
  have hfull := card_clearBits_eq_iff bitmap.storage bitmap.blockCount
  change clearFrames bitmap=frames bitmap ↔ _ at hfull
  unfold init at hinit
  split at hinit
  · cases hinit
  · split at hinit
    · cases hinit
    · have hcount : bitmap.blockCount=ramSize/pageSize/64 ∧
          bitmap.freePages=ramSize/pageSize ∧ bitmap.storage=fun i =>
            if i < min (ramSize/pageSize/64) intIterations then 0#64 else storage i := by
        cases hinit
        exact ⟨rfl,rfl,rfl⟩
      obtain ⟨hblocks,hpages,hstorage⟩ := hcount
      have hframes : frames bitmap=64*(ramSize/pageSize/64) := congrArg (64 * ·) hblocks
      rw [hblocks,hstorage] at hfull
      dsimp only at hfull
      rw [hpages]
      constructor
      · intro heq
        have hwhole : clearFrames bitmap=frames bitmap := by omega
        refine ⟨by omega,fun i hi hlt => ?_⟩
        have hword := hfull.mp hwhole i hlt
        rwa [if_neg (by omega)] at hword
      · rintro ⟨hmod,hzero⟩
        have hwhole : clearFrames bitmap=frames bitmap := by
          refine hfull.mpr (fun i hi => ?_)
          split
          · rfl
          · exact hzero i (by omega) hi
        omega

/-- The free-page counter is right along exactly those runs that start from
whole blocks over cleared words and whose calls all meet the condition. -/
theorem freePages_accounted_iff {storage : Words} {pageSize ramSize baseAddress : ℕ}
    {bitmap : Bitmap} {memory : Memory} {actions : List FrameAction}
    (hinit : init storage pageSize ramSize baseAddress=.ok bitmap)
    (hram : ramSize<2^64) (hbase : baseAddress<2^64)
    (hm : Each step Managed ⟨bitmap,memory⟩ actions) :
    Always step Accounted ⟨bitmap,memory⟩ actions ↔
      (ramSize/pageSize%64=0 ∧
        ∀ i, intIterations≤ i → i<ramSize/pageSize/64 → storage i=0#64) ∧
      Each step CountsRight ⟨bitmap,memory⟩ actions := by
  have hgeometry := init_geometry hinit hram hbase
  have hcounts := init_counts_iff hinit
  by_cases hstart : bitmap.freePages=clearFrames bitmap
  · have hcounting : Counting ⟨bitmap,memory⟩ := ⟨hgeometry,hstart⟩
    rw [and_iff_right (hcounts.mp hstart)]
    exact always_iff_each (fun _ h => h.accounted) counting_step counting_lost hcounting hm
  · refine iff_of_false (fun halways => hstart ?_) (fun hright => hstart (hcounts.mpr hright.1))
    cases actions with
    | nil => exact halways.free_eq
    | cons => exact halways.1.free_eq

/-- A run of single frames, a run of pages and a freed frame. -/
theorem freePages_accounted_sample :
    Each step Managed ⟨sampleBitmap,fun _ => 1⟩
        [.setAllocated 0x1000,.allocate,.allocateContiguous 64,.free 0x1000,.free 0x1000] ∧
      Always step Accounted ⟨sampleBitmap,fun _ => 1⟩
        [.setAllocated 0x1000,.allocate,.allocateContiguous 64,.free 0x1000,.free 0x1000] := by
  have hm : Each step Managed ⟨sampleBitmap,fun _ => 1⟩
      [.setAllocated 0x1000,.allocate,.allocateContiguous 64,.free 0x1000,.free 0x1000] := by
    decide +kernel
  refine ⟨hm,(freePages_accounted_iff init_sampleBitmap (by decide) (by decide) hm).mpr ?_⟩
  exact ⟨⟨by decide,fun _ _ _ => rfl⟩,by decide +kernel⟩

/-- Marking a frame twice decrements the counter twice. -/
theorem freePages_not_always_accounted : ¬∀ (storage : Words) (pageSize ramSize baseAddress : ℕ)
    (bitmap : Bitmap) (memory : Memory) (actions : List FrameAction),
    init storage pageSize ramSize baseAddress=.ok bitmap → ramSize<2^64 → baseAddress<2^64 →
    Each step Managed ⟨bitmap,memory⟩ actions → Always step Accounted ⟨bitmap,memory⟩ actions := by
  intro h
  have ha := h _ _ _ _ sampleBitmap (fun _ => 1) [.setAllocated 0,.setAllocated 0]
    init_sampleBitmap (by decide) (by decide) (by decide +kernel)
  obtain ⟨last,hlast,hcount⟩ := (ha.imp (fun _ hacc => hacc.free_eq)).final
  have hwrong : (run step ⟨sampleBitmap,fun _ => 1⟩ [.setAllocated 0,.setAllocated 0]).map
      (fun state => decide (state.bitmap.freePages=clearFrames state.bitmap))=some false := by
    decide +kernel
  rw [hlast,Option.map_some,Option.some.injEq,decide_eq_false_iff_not] at hwrong
  exact hwrong hcount

end WorkbenchOS.FrameRuns
