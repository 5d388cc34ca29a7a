import WorkbenchOS.FrameBitmap

/-!
# What the frame operations do to the bits

Frames are numbered from zero and their bits form one row. Encoding a frame
as block, offset and address and decoding it again agree for every tracked
frame, so each operation of the bitmap is described by the frame numbers it
marks or releases, and by what the counter becomes.
-/

namespace WorkbenchOS.FrameOperations

open ByteMemory LibStd WordBitmaps FrameBitmap

/-- Number of frames in the blocks the allocator scans. -/
def frames (bitmap : Bitmap) : ℕ := 64*bitmap.blockCount

/-- The frame an address belongs to. -/
def frameOf (bitmap : Bitmap) (address : ℕ) : ℕ :=
  u64Sub address bitmap.baseAddress/bitmap.pageSize

/-- First address of a frame. -/
def frameAddress (bitmap : Bitmap) (frame : ℕ) : ℕ :=
  u64 (bitmap.baseAddress+frame*bitmap.pageSize)

/-- The address belongs to a frame of the scanned blocks. -/
def Tracked (bitmap : Bitmap) (address : ℕ) : Prop :=
  address<2^64 ∧ u64Sub address bitmap.baseAddress<frames bitmap*bitmap.pageSize

instance (bitmap : Bitmap) : DecidablePred (Tracked bitmap) :=
  fun _ => inferInstanceAs (Decidable (_ ∧ _))

/-- What `init` establishes about sizes and nothing changes later. -/
structure Geometry (bitmap : Bitmap) : Prop where
  /-- Frames are not empty. -/
  page_pos : 0<bitmap.pageSize
  /-- The size of a block did not wrap, if there is a block. -/
  full_eq : 0<bitmap.blockCount → bitmap.blockFullSize=bitmap.pageSize*64
  /-- The tracked frames fit in the address space. -/
  size_lt : frames bitmap*bitmap.pageSize<2^64
  /-- The base is an address. -/
  base_lt : bitmap.baseAddress<2^64

/-- `init` establishes the geometry. -/
theorem init_geometry {storage : Words} {pageSize ramSize baseAddress : ℕ} {bitmap : Bitmap}
    (h : init storage pageSize ramSize baseAddress=.ok bitmap) (hr : ramSize<2^64)
    (hb : baseAddress<2^64) : Geometry bitmap := by
  unfold init at h
  split at h
  · cases h
  · rename_i hpage
    split at h
    · cases h
    · cases h
      have hpos : 0<pageSize := by omega
      have hsize : 64*(ramSize/pageSize/64)*pageSize≤ramSize :=
        calc 64*(ramSize/pageSize/64)*pageSize≤ramSize/pageSize*pageSize :=
              Nat.mul_le_mul_right _ (Nat.mul_div_le _ _)
          _ ≤ramSize := Nat.div_mul_le_self _ _
      refine ⟨hpos,?_,lt_of_le_of_lt hsize hr,hb⟩
      intro hcount
      refine u64_of_lt (lt_of_le_of_lt ?_ hr)
      dsimp only [pagesPerBlock] at hcount ⊢
      calc pageSize*64≤64*(ramSize/pageSize/64)*pageSize := by
            rw [Nat.mul_comm,Nat.mul_assoc 64]
            exact Nat.mul_le_mul_left 64 (Nat.le_mul_of_pos_left _ hcount)
        _ ≤ramSize := hsize

section Encoding

variable {bitmap : Bitmap} {address frame : ℕ}

/-- A tracked address lies in a tracked frame. -/
theorem frameOf_lt (hg : Geometry bitmap) (h : Tracked bitmap address) :
    frameOf bitmap address<frames bitmap :=
  (Nat.div_lt_iff_lt_mul hg.page_pos).mpr h.2

/-- There is a block once there is a frame. -/
theorem blockCount_pos (h : frame<frames bitmap) : 0<bitmap.blockCount := by
  unfold frames at h
  omega

/-- Decoding an address gives the word and bit of its frame. -/
theorem addressToBlockAndOffset_eq (hg : Geometry bitmap) (h : Tracked bitmap address) :
    addressToBlockAndOffset bitmap address=
      ⟨frameOf bitmap address/64,frameOf bitmap address%64⟩ := by
  have hfull := hg.full_eq (blockCount_pos (frameOf_lt hg h))
  simp only [addressToBlockAndOffset,frameOf,hfull,Nat.div_div_eq_div_mul,
    Nat.mod_mul_right_div_self]

/-- Encoding a tracked frame gives its address. -/
theorem placeToAddress_eq (hg : Geometry bitmap) (h : frame<frames bitmap) :
    placeToAddress bitmap ⟨frame/64,frame%64⟩=frameAddress bitmap frame := by
  have hfull := hg.full_eq (blockCount_pos h)
  have hsplit : frame/64*(bitmap.pageSize*64)+frame%64*bitmap.pageSize=frame*bitmap.pageSize := by
    have hd := Nat.div_add_mod frame 64
    calc frame/64*(bitmap.pageSize*64)+frame%64*bitmap.pageSize
        =(64*(frame/64)+frame%64)*bitmap.pageSize := by ring
      _ =frame*bitmap.pageSize := by rw [hd]
  simp only [placeToAddress,frameAddress,hfull,Nat.add_assoc,hsplit]

/-- Offset of a tracked frame's address from the base. -/
theorem u64Sub_frameAddress (hg : Geometry bitmap) (h : frame<frames bitmap) :
    u64Sub (frameAddress bitmap frame) bitmap.baseAddress=frame*bitmap.pageSize := by
  have hlt : frame*bitmap.pageSize<2^64 :=
    lt_of_le_of_lt (Nat.mul_le_mul_right _ h.le) hg.size_lt
  have hb := hg.base_lt
  unfold u64Sub frameAddress u64
  omega

/-- A frame's address belongs to the frame. -/
theorem frameOf_frameAddress (hg : Geometry bitmap) (h : frame<frames bitmap) :
    frameOf bitmap (frameAddress bitmap frame)=frame := by
  rw [frameOf,u64Sub_frameAddress hg h,Nat.mul_div_cancel _ hg.page_pos]

/-- A tracked frame's address is tracked. -/
theorem tracked_frameAddress (hg : Geometry bitmap) (h : frame<frames bitmap) :
    Tracked bitmap (frameAddress bitmap frame) := by
  refine ⟨u64_lt _,?_⟩
  rw [u64Sub_frameAddress hg h]
  exact Nat.mul_lt_mul_of_pos_right h hg.page_pos

/-- `is_allocated` reads the frame's bit. -/
theorem isAllocated_eq (hg : Geometry bitmap) (h : Tracked bitmap address) :
    isAllocated bitmap address=bitAt bitmap.storage (frameOf bitmap address) := by
  have hmod : frameOf bitmap address%64<64 := Nat.mod_lt _ (by decide)
  have hz := and_one_shiftLeft_eq_zero (bitmap.storage (frameOf bitmap address/64)) hmod
  unfold isAllocated
  rw [addressToBlockAndOffset_eq hg h]
  simp only [ne_eq,hz,bitAt]
  cases (bitmap.storage (frameOf bitmap address/64)).getLsbD (frameOf bitmap address%64) <;> rfl

end Encoding

/-- Mark one frame as allocated, by frame number. -/
def markFrame (bitmap : Bitmap) (frame : ℕ) : Bitmap :=
  setAllocatedAt bitmap ⟨frame/64,frame%64⟩

/-- Release one frame, by frame number. -/
def releaseFrame (bitmap : Bitmap) (frame : ℕ) : Bitmap :=
  {bitmap with
    storage := andWord bitmap.storage (frame/64) (~~~(1#64 <<< (frame%64)))
    freePages := u64 (bitmap.freePages+1)}

/-- Marking a frame sets its bit and no other. -/
theorem bitAt_markFrame (bitmap : Bitmap) (frame k : ℕ) :
    bitAt (markFrame bitmap frame).storage k=(bitAt bitmap.storage k || decide (k=frame)) := by
  have hmod : k%64<64 := Nat.mod_lt _ (by decide)
  have hiff : (k/64=frame/64 ∧ k%64=frame%64) ↔ k=frame := by omega
  unfold markFrame setAllocatedAt
  rw [bitAt_orWord,getLsbD_one_shiftLeft hmod,← Bool.decide_and]
  simp only [hiff]

/-- Releasing a frame clears its bit and no other. -/
theorem bitAt_releaseFrame (bitmap : Bitmap) (frame k : ℕ) :
    bitAt (releaseFrame bitmap frame).storage k=(bitAt bitmap.storage k && decide (k≠frame)) := by
  have hmod : k%64<64 := Nat.mod_lt _ (by decide)
  have hiff : (k/64≠frame/64 ∨ ¬k%64=frame%64) ↔ k≠frame := by omega
  unfold releaseFrame
  rw [bitAt_andWord,BitVec.getLsbD_not,getLsbD_one_shiftLeft hmod]
  simp only [hmod,decide_true,Bool.true_and,← decide_not,← Bool.decide_or,hiff]

/-- `set_allocated` marks the frame of its address. -/
theorem setAllocated_eq {bitmap : Bitmap} {address : ℕ} (hg : Geometry bitmap)
    (h : Tracked bitmap address) :
    setAllocated bitmap address=markFrame bitmap (frameOf bitmap address) := by
  rw [setAllocated,addressToBlockAndOffset_eq hg h]
  rfl

/-- `free` releases the frame of its address, if it is allocated. -/
theorem free_eq {bitmap : Bitmap} {address : ℕ} (hg : Geometry bitmap)
    (h : Tracked bitmap address) :
    free bitmap address=if bitAt bitmap.storage (frameOf bitmap address)=false then
      (.error .doubleFree,bitmap) else (.ok (),releaseFrame bitmap (frameOf bitmap address)) := by
  rw [free,isAllocated_eq hg h,addressToBlockAndOffset_eq hg h]
  rfl

/-- `find_free` returns the lowest clear bit of a word. -/
theorem findFree_ok {word : BitVec 64} {offset : ℕ} (h : findFree word=.ok offset) :
    offset<64 ∧ word.getLsbD offset=false ∧ ∀ j, j<offset → word.getLsbD j=true := by
  unfold findFree at h
  split at h
  · rename_i found hscan
    cases h
    obtain ⟨k,-,hk,ha,hn⟩ := firstSome_eq_some hscan
    have hlt : k<64 := by omega
    split at ha
    · rename_i hclear
      cases ha
      refine ⟨hlt,(and_one_shiftLeft_eq_zero word hlt).mp hclear,fun j hj => ?_⟩
      have hnone := hn j (Nat.zero_le _) hj
      split at hnone
      · cases hnone
      · rename_i hset
        rwa [and_one_shiftLeft_eq_zero word (by omega),Bool.not_eq_false] at hset
    · cases ha
  · cases h

/-- `find_free` fails only on a full word. -/
theorem findFree_error {word : BitVec 64} {error : BitmapError} (h : findFree word=.error error) :
    ∀ j, j<64 → word.getLsbD j=true := by
  unfold findFree at h
  split at h
  · cases h
  · rename_i hscan
    intro j hj
    have hnone := firstSome_eq_none.mp hscan j (Nat.zero_le _) (by omega)
    split at hnone
    · cases hnone
    · rename_i hset
      rwa [and_one_shiftLeft_eq_zero word hj,Bool.not_eq_false] at hset

/-- A block that the scan passes over is full. -/
theorem findPlace_passed {bitmap : Bitmap} {block : ℕ}
    (h : (if bitmap.storage block≠bitmapFull then
      match findFree (bitmap.storage block) with
      | .ok offset => some (⟨block,offset⟩ : BlockAndOffset)
      | .error _ => none
    else none)=none) : ∀ j, j<64 → (bitmap.storage block).getLsbD j=true := by
  split at h
  · split at h
    · cases h
    · rename_i hfind
      exact findFree_error hfind
  · rename_i hfull
    intro j hj
    rw [not_not.mp hfull]
    have hones : bitmapFull=BitVec.allOnes 64 := by decide
    rw [hones,BitVec.getLsbD_allOnes]
    simpa using hj

/-- The scan finds the lowest clear frame. -/
theorem findPlace_some {bitmap : Bitmap} {place : BlockAndOffset} (h : findPlace bitmap=some place) :
    ∃ frame, frame<frames bitmap ∧ place=⟨frame/64,frame%64⟩ ∧
      bitAt bitmap.storage frame=false ∧
      ∀ j, j<frame → bitAt bitmap.storage j=true := by
  obtain ⟨block,-,hblock,ha,hpassed⟩ := firstSome_eq_some h
  split at ha
  · split at ha
    · rename_i offset hfind
      cases ha
      obtain ⟨hlt,hclear,hlower⟩ := findFree_ok hfind
      have hdiv : (64*block+offset)/64=block := by omega
      have hmod : (64*block+offset)%64=offset := by omega
      refine ⟨64*block+offset,?_,?_,?_,?_⟩
      · unfold frames
        omega
      · rw [hdiv,hmod]
      · rw [bitAt,hdiv,hmod,hclear]
      · intro j hj
        by_cases hb : j/64=block
        · rw [bitAt,hb]
          exact hlower (j%64) (by omega)
        · exact findPlace_passed (hpassed (j/64) (Nat.zero_le _) (by omega)) (j%64) (by omega)
    · cases ha
  · cases ha

/-- The scan fails only when every tracked frame is allocated. -/
theorem findPlace_none {bitmap : Bitmap} (h : findPlace bitmap=none) :
    ∀ j, j<frames bitmap → bitAt bitmap.storage j=true := by
  intro j hj
  unfold frames at hj
  have hpassed := firstSome_eq_none.mp h (j/64) (Nat.zero_le _) (by omega)
  exact findPlace_passed hpassed (j%64) (by omega)

/-- Everything `allocate` can do: nothing, when the counter is zero or no
frame is clear, or mark and zero the lowest clear frame. -/
theorem allocate_cases {bitmap : Bitmap} (hg : Geometry bitmap) (memory : Memory) :
    (∃ error, allocate bitmap memory=(.error error,bitmap,memory) ∧
      (bitmap.freePages=0 ∨ ∀ j, j<frames bitmap → bitAt bitmap.storage j=true)) ∨
    ∃ frame, frame<frames bitmap ∧ bitAt bitmap.storage frame=false ∧
      (∀ j, j<frame → bitAt bitmap.storage j=true) ∧ bitmap.freePages≠0 ∧
      allocate bitmap memory=(.ok (frameAddress bitmap frame),markFrame bitmap frame,
        fill memory (frameAddress bitmap frame) bitmap.pageSize 0) := by
  unfold allocate
  split
  · rename_i hzero
    exact Or.inl ⟨_,rfl,Or.inl hzero⟩
  · rename_i hnonzero
    cases hscan : findPlace bitmap with
    | none => exact Or.inl ⟨_,rfl,Or.inr (findPlace_none hscan)⟩
    | some place =>
      obtain ⟨frame,hlt,rfl,hclear,hlower⟩ := findPlace_some hscan
      refine Or.inr ⟨frame,hlt,hclear,hlower,hnonzero,?_⟩
      dsimp only
      rw [placeToAddress_eq hg hlt]
      rfl

/-- The moving mask of `find_n_free` after `i` iterations. -/
theorem findNFreeLoop_eq (word : BitVec 64) (n remaining i : ℕ) :
    findNFreeLoop word remaining i (lowMask n <<< i)=
      match firstSome (fun k => if (lowMask n <<< k) &&& word=0#64 then some k else none)
        remaining i with
      | some k => .ok k
      | none => .error .noFreeMemory := by
  induction remaining generalizing i with
  | zero => rfl
  | succ remaining ih =>
    rw [findNFreeLoop,firstSome]
    split
    · rfl
    · rw [← BitVec.shiftLeft_add]
      exact ih (i+1)

/-- `find_n_free` as a scan over shifts of the mask. -/
theorem findNFree_eq (word : BitVec 64) (n : ℕ) :
    findNFree word n=
      match firstSome (fun k => if (lowMask n <<< k) &&& word=0#64 then some k else none)
        (findNFreeIterations n) 0 with
      | some k => .ok k
      | none => .error .noFreeMemory := by
  rw [← findNFreeLoop_eq]
  unfold findNFree makeMask
  rw [BitVec.shiftLeft_zero]

/-- Up to 65 pages, `find_n_free` returns a run of clear bits inside the
word. -/
theorem findNFree_ok {word : BitVec 64} {n offset : ℕ} (hn : n≤65)
    (h : findNFree word n=.ok offset) :
    offset+n≤64 ∧ ∀ j, offset≤j → j<offset+n → word.getLsbD j=false := by
  rw [findNFree_eq] at h
  split at h
  · rename_i k hscan
    cases h
    obtain ⟨found,-,hlt,ha,-⟩ := firstSome_eq_some hscan
    have hiter : findNFreeIterations n=65-n := u64Sub_of_le hn (by decide)
    rw [hiter] at hlt
    split at ha
    · rename_i hzero
      cases ha
      refine ⟨by omega,fun j hj hjn => ?_⟩
      exact (lowMask_and_eq_zero word).mp hzero j (by omega) hj hjn
    · cases ha
  · cases h

/-- Beyond 65 pages the iteration count is huge and the mask runs out of the
word: `find_n_free` always succeeds. -/
theorem findNFree_large (word : BitVec 64) {n : ℕ} (hn : 66≤n) (hlt : n<256) :
    ∃ offset, findNFree word n=.ok offset := by
  rw [findNFree_eq]
  have hiter : 64<findNFreeIterations n := by
    unfold findNFreeIterations u64Sub u64
    omega
  have hempty : (lowMask n <<< 64) &&& word=0#64 :=
    (lowMask_and_eq_zero word).mpr (fun j hj hs => absurd hs (by omega))
  cases hscan : firstSome (fun k => if (lowMask n <<< k) &&& word=0#64 then some k else none)
      (findNFreeIterations n) 0 with
  | some k => exact ⟨k,rfl⟩
  | none =>
    have hnone := firstSome_eq_none.mp hscan 64 (by omega) (by omega)
    rw [if_pos hempty] at hnone
    cases hnone

/-- Everything `allocate_contiguous` can do: nothing, or mark what
`find_n_free` returned in the first block where it succeeds. -/
theorem allocateContiguous_cases (bitmap : Bitmap) (memory : Memory) (pages : ℕ) :
    (∃ error, allocateContiguous bitmap memory pages=(.error error,bitmap,memory)) ∨
    ∃ block offset, block<bitmap.blockCount ∧ bitmap.freePages≠0 ∧
      findNFree (bitmap.storage block) (pages%256)=.ok offset ∧
      allocateContiguous bitmap memory pages=
        (.ok (placeToAddress bitmap ⟨block,offset⟩),
          setNAllocated bitmap ⟨block,offset⟩ (pages%256),
          fill memory (placeToAddress bitmap ⟨block,offset⟩) bitmap.pageSize 0) := by
  unfold allocateContiguous
  split
  · exact Or.inl ⟨_,rfl⟩
  · rename_i hnonzero
    cases hscan : findRun bitmap (pages%256) with
    | none => exact Or.inl ⟨_,rfl⟩
    | some place =>
      obtain ⟨block,-,hblock,ha,-⟩ := firstSome_eq_some hscan
      split at ha
      · rename_i offset hfind
        cases ha
        exact Or.inr ⟨block,offset,by omega,hnonzero,hfind,rfl⟩
      · cases ha

/-- More than 65 pages are always granted, from the first block. -/
theorem allocateContiguous_large {bitmap : Bitmap} {pages : ℕ} (memory : Memory)
    (hn : 66≤pages%256) (hf : bitmap.freePages≠0) (hb : 0<bitmap.blockCount) :
    ∃ block offset, allocateContiguous bitmap memory pages=
        (.ok (placeToAddress bitmap ⟨block,offset⟩),
          setNAllocated bitmap ⟨block,offset⟩ (pages%256),
          fill memory (placeToAddress bitmap ⟨block,offset⟩) bitmap.pageSize 0) := by
  unfold allocateContiguous
  rw [if_neg hf]
  cases hscan : findRun bitmap (pages%256) with
  | none =>
    obtain ⟨offset,hfind⟩ := findNFree_large (bitmap.storage 0) hn (Nat.mod_lt _ (by decide))
    have hnone := firstSome_eq_none.mp hscan 0 le_rfl (by omega)
    rw [hfind] at hnone
    cases hnone
  | some place => exact ⟨place.block,place.offset,rfl⟩

/-- A run of pages inside one word sets the bits of those frames and no
others. -/
theorem bitAt_setNAllocated (bitmap : Bitmap) {block offset n : ℕ} (h : offset+n≤64) (k : ℕ) :
    bitAt (setNAllocated bitmap ⟨block,offset⟩ n).storage k=
      (bitAt bitmap.storage k || decide (64*block+offset≤k ∧ k<64*block+offset+n)) := by
  have hmod : k%64<64 := Nat.mod_lt _ (by decide)
  have hiff : (k/64=block ∧ offset%64≤k%64 ∧ k%64<offset%64+n) ↔
      64*block+offset≤k ∧ k<64*block+offset+n := by
    by_cases hn : n=0
    · omega
    · have ho : offset%64=offset := Nat.mod_eq_of_lt (by omega)
      rw [ho]
      omega
  unfold setNAllocated makeMask
  rw [bitAt_orWord,getLsbD_lowMask_shiftLeft hmod,← Bool.decide_and]
  simp only [hiff]

/-- Marking a clear tracked frame takes it out of the clear set. -/
theorem card_markFrame {bitmap : Bitmap} {frame : ℕ} (hf : frame<frames bitmap)
    (hclear : bitAt bitmap.storage frame=false) :
    (clearBits (markFrame bitmap frame).storage (frames bitmap)).card+1=
      (clearBits bitmap.storage (frames bitmap)).card := by
  rw [← Finset.card_singleton frame]
  refine card_clearBits_set ?_ ?_
  · exact Finset.singleton_subset_iff.mpr (mem_clearBits.mpr ⟨hf,hclear⟩)
  · intro k _
    rw [bitAt_markFrame,Bool.or_eq_false_iff,decide_eq_false_iff_not,Finset.mem_singleton]

/-- Marking an allocated frame again leaves the clear set alone. -/
theorem clearBits_markFrame_again {bitmap : Bitmap} {frame : ℕ}
    (hset : bitAt bitmap.storage frame=true) (count : ℕ) :
    clearBits (markFrame bitmap frame).storage count=clearBits bitmap.storage count := by
  ext k
  rw [mem_clearBits,mem_clearBits,bitAt_markFrame,Bool.or_eq_false_iff,decide_eq_false_iff_not]
  constructor
  · exact fun hk => ⟨hk.1,hk.2.1⟩
  · intro hk
    refine ⟨hk.1,hk.2,?_⟩
    rintro rfl
    rw [hset] at hk
    exact absurd hk.2 (by decide)

/-- Releasing an allocated tracked frame puts it into the clear set. -/
theorem card_releaseFrame {bitmap : Bitmap} {frame : ℕ} (hf : frame<frames bitmap)
    (hset : bitAt bitmap.storage frame=true) :
    (clearBits (releaseFrame bitmap frame).storage (frames bitmap)).card=
      (clearBits bitmap.storage (frames bitmap)).card+1 := by
  refine card_clearBits_clear hf hset ?_
  intro k _
  rw [bitAt_releaseFrame,Bool.and_eq_false_iff,decide_eq_false_iff_not,not_not]

/-- Marking a run of clear frames takes them all out of the clear set. -/
theorem card_setNAllocated {bitmap : Bitmap} {block offset n : ℕ}
    (hb : block<bitmap.blockCount) (hn : offset+n≤64)
    (hclear : ∀ j, offset≤j → j<offset+n → (bitmap.storage block).getLsbD j=false) :
    (clearBits (setNAllocated bitmap ⟨block,offset⟩ n).storage (frames bitmap)).card+n=
      (clearBits bitmap.storage (frames bitmap)).card := by
  have hcard : (Finset.Ico (64*block+offset) (64*block+offset+n)).card=n := by
    rw [Nat.card_Ico,Nat.add_sub_cancel_left]
  nth_rewrite 2 [← hcard]
  refine card_clearBits_set ?_ ?_
  · intro k hk
    rw [Finset.mem_Ico] at hk
    refine mem_clearBits.mpr ⟨by unfold frames; omega,?_⟩
    have hdiv : k/64=block := by omega
    rw [bitAt,hdiv]
    exact hclear (k%64) (by omega) (by omega)
  · intro k _
    rw [bitAt_setNAllocated bitmap hn,Bool.or_eq_false_iff,decide_eq_false_iff_not,Finset.mem_Ico]

end WorkbenchOS.FrameOperations
