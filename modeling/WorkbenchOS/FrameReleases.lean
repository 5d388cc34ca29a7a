import WorkbenchOS.FrameRuns

/-!
# Releasing frames

`Bitmap::free` takes apart the address that `Bitmap::allocate` put together, so
any address of a frame just handed out takes the bitmap back to where it was.
The address is never compared with the tracked range: for any other one the
block index is whatever the division gives, and a word behind the storage is
tested and perhaps changed.
-/

namespace WorkbenchOS.FrameReleases

open ByteMemory LibStd WordBitmaps FrameBitmap FrameOperations FrameRuns TransitionRuns

/-- Releasing a frame increments the counter. -/
theorem freePages_releaseFrame (bitmap : Bitmap) (frame : ℕ) :
    (releaseFrame bitmap frame).freePages=u64 (bitmap.freePages+1) := rfl

/-- Releasing a frame that was marked while it was clear. -/
theorem releaseFrame_markFrame {bitmap : Bitmap} {frame : ℕ}
    (hclear : bitAt bitmap.storage frame=false) (hz : bitmap.freePages≠0)
    (hlt : bitmap.freePages<2^64) : releaseFrame (markFrame bitmap frame) frame=bitmap := by
  have hstorage : (releaseFrame (markFrame bitmap frame) frame).storage=bitmap.storage := by
    refine eq_of_bitAt (fun k => ?_)
    rw [bitAt_releaseFrame,bitAt_markFrame]
    by_cases hk : k=frame
    · simp [hk,hclear]
    · simp [hk]
  have hcounter : (releaseFrame (markFrame bitmap frame) frame).freePages=bitmap.freePages := by
    have hpos : 1≤bitmap.freePages := Nat.one_le_iff_ne_zero.mpr hz
    rw [freePages_releaseFrame,freePages_markFrame,u64Sub_of_le hpos hlt,
      Nat.sub_add_cancel hpos,u64_of_lt hlt]
  cases bitmap
  simp only [releaseFrame,markFrame,setAllocatedAt] at hstorage hcounter ⊢
  rw [hstorage,hcounter]

/-- The counter is a 64-bit number after every call. -/
theorem step_counter {state next : FrameState} {action : FrameAction}
    (h : state.bitmap.freePages<2^64) (hs : step state action=some next) :
    next.bitmap.freePages<2^64 := by
  cases action with
  | allocate =>
    cases hs
    show (allocate state.bitmap state.memory).2.1.freePages<2^64
    rw [allocate]
    split_ifs with hz
    · exact h
    · cases findPlace state.bitmap with
      | none => exact h
      | some place => exact u64_lt _
  | allocateContiguous pages =>
    cases hs
    rcases allocateContiguous_cases state.bitmap state.memory pages with
      ⟨error,he⟩|⟨block,offset,-,-,-,he⟩
    · rw [he]
      exact h
    · rw [he]
      exact u64_lt _
  | free address =>
    cases hs
    show (free state.bitmap address).2.freePages<2^64
    rw [free]
    split_ifs with ha
    · exact h
    · exact u64_lt _
  | setAllocated address =>
    cases hs
    exact u64_lt _

/-- Every call keeps a bitmap ready and its counter in range. -/
theorem countedReady_step (state : FrameState) (action : FrameAction) (next : FrameState)
    (h : Ready state ∧ state.bitmap.freePages<2^64) (hs : step state action=some next) :
    Ready next ∧ next.bitmap.freePages<2^64 := ⟨h.1.step hs,step_counter h.2 hs⟩

/-- In every reachable state, freeing any address of a frame just allocated
gives the bitmap back as it was, and freeing it again is a double free that
changes nothing. -/
theorem free_undoes_allocate {storage : Words} {pageSize ramSize baseAddress : ℕ}
    {bitmap : Bitmap} {memory : Memory} {actions : List FrameAction} {last : FrameState}
    (hinit : init storage pageSize ramSize baseAddress=.ok bitmap)
    (hram : ramSize<2^64) (hbase : baseAddress<2^64)
    (hrange : bitmap.baseAddress+bitmap.blockCount*64*bitmap.pageSize≤2^64)
    (hreached : run step ⟨bitmap,memory⟩ actions=some last) {address : ℕ} {after : Bitmap}
    {cleared : Memory} (ha : allocate last.bitmap last.memory=(.ok address,after,cleared))
    {rest : ℕ} (hrest : rest<last.bitmap.pageSize) :
    free after (address+rest)=(.ok (),last.bitmap) ∧
      free last.bitmap (address+rest)=(.error .doubleFree,last.bitmap) := by
  have hcounter : bitmap.freePages<2^64 := by
    unfold init at hinit
    split_ifs at hinit
    cases hinit
    exact (Nat.div_le_self _ _).trans_lt hram
  obtain ⟨hready,hlt⟩ : Ready last ∧ last.bitmap.freePages<2^64 :=
    run_keeps countedReady_step ⟨init_ready hinit hram hbase hrange memory,hcounter⟩ hreached
  have hg := hready.geometry
  rcases allocate_cases hg last.memory with ⟨error,he,-⟩|⟨frame,hf,hclear,-,hz,he⟩
  · rw [he] at ha
    cases ha
  rw [he] at ha
  cases ha
  obtain ⟨haddress,hinside⟩ := hready.frameAddress_eq hf
  -- the whole frame is inside the tracked range
  have hfits : (frame+1)*last.bitmap.pageSize≤
      last.bitmap.blockCount*64*last.bitmap.pageSize :=
    Nat.mul_le_mul_right _ (by unfold frames at hf; omega)
  rw [Nat.add_mul,Nat.one_mul] at hfits
  obtain ⟨htracked,hframe⟩ := hready.tracked
    (show last.bitmap.baseAddress≤frameAddress last.bitmap frame+rest by omega) (by omega)
  have hframe' : frameOf last.bitmap (frameAddress last.bitmap frame+rest)=frame := by
    rw [hframe,haddress,show last.bitmap.baseAddress+frame*last.bitmap.pageSize+rest-
      last.bitmap.baseAddress=rest+frame*last.bitmap.pageSize by omega,
      Nat.add_mul_div_right _ _ hg.page_pos,Nat.div_eq_of_lt hrest,Nat.zero_add]
  have hmarked : bitAt (markFrame last.bitmap frame).storage frame=true := by
    rw [bitAt_markFrame,decide_eq_true rfl,Bool.or_true]
  constructor
  · have hshape : SameShape last.bitmap (markFrame last.bitmap frame) := sameShape_with _ _ _
    rw [free_eq (hshape.geometry hg) (hshape.tracked_iff.mpr htracked),hshape.frameOf_eq,hframe',hmarked,
      if_neg (by decide),releaseFrame_markFrame hclear hz hlt]
  · rw [free_eq hg htracked,hframe',if_pos hclear]

/-- The second frame of a bitmap, by the address of its last byte. -/
theorem free_undoes_allocate_sample : ∃ after cleared,
    allocate (markFrame sampleBitmap 0) (fun _ => 1)=(.ok 0x1000,after,cleared) ∧
      free after (0x1000+0xfff)=(.ok (),markFrame sampleBitmap 0) ∧
      free (markFrame sampleBitmap 0) (0x1000+0xfff)=
        (.error .doubleFree,markFrame sampleBitmap 0) := by
  have hreached : run step ⟨sampleBitmap,fun _ => 1⟩ [.setAllocated 0]=
      some ⟨markFrame sampleBitmap 0,fun _ => 1⟩ := by
    have hplace : addressToBlockAndOffset sampleBitmap 0=⟨0/64,0%64⟩ := by
      rw [addressToBlockAndOffset_eq (init_geometry init_sampleBitmap (by decide) (by decide))
        (by decide +kernel)]
      congr
    rw [run,step,setAllocated,hplace]
    rfl
  have haddress : (allocate (markFrame sampleBitmap 0) (fun _ => 1)).1=.ok 0x1000 := by
    decide +kernel
  obtain ⟨⟨result,after,cleared⟩,hresult⟩ :
      ∃ outcome,allocate (markFrame sampleBitmap 0) (fun _ => 1)=outcome := ⟨_,rfl⟩
  rw [hresult] at haddress
  obtain rfl : result=.ok 0x1000 := haddress
  exact ⟨after,cleared,hresult,free_undoes_allocate init_sampleBitmap (by decide) (by decide)
    (by decide) hreached hresult (by decide)⟩

/-- A bitmap `init` has set up; bits and counter may be anything. -/
def Initialised (bitmap : Bitmap) : Prop :=
  ∃ storage pageSize ramSize baseAddress fresh,
    init storage pageSize ramSize baseAddress=.ok fresh ∧ ramSize<2^64 ∧ baseAddress<2^64 ∧
      SameShape fresh bitmap

/-- Its sizes are those `init` establishes. -/
theorem Initialised.geometry {bitmap : Bitmap} (h : Initialised bitmap) : Geometry bitmap := by
  obtain ⟨storage,pageSize,ramSize,baseAddress,fresh,hinit,hram,hbase,hshape⟩ := h
  exact hshape.geometry (init_geometry hinit hram hbase)

/-- The places of `m_storage` that `free` accesses: the word it tests, and the
same word again where it clears the bit. -/
def storageAccesses (bitmap : Bitmap) (address : ℕ) : List ℕ :=
  let place := addressToBlockAndOffset bitmap address
  if isAllocated bitmap address then [place.block,place.block] else [place.block]

/-- The address lies in a tracked frame whose bit is set. -/
def InAllocatedFrame (bitmap : Bitmap) (address : ℕ) : Prop :=
  Tracked bitmap address ∧ bitAt bitmap.storage (frameOf bitmap address)=true

/-- `free` stays inside the storage, refuses what is not in an allocated frame
and clears the bit of the frame otherwise. -/
structure RejectsForeign (bitmap : Bitmap) (address : ℕ) : Prop where
  /-- No access behind the storage. -/
  inside : ∀ block∈storageAccesses bitmap address,block<bitmap.blockCount
  /-- An error without effect. -/
  rejects : ¬InAllocatedFrame bitmap address →
    ∃ error,free bitmap address=(.error error,bitmap)
  /-- The frame's bit and no other. -/
  clears : InAllocatedFrame bitmap address → ∃ after,free bitmap address=(.ok (),after) ∧
    SameShape bitmap after ∧ ∀ k, bitAt after.storage k=
      (bitAt bitmap.storage k && decide (k≠frameOf bitmap address))

/-- An address whose block is scanned is tracked. -/
theorem tracked_of_block {bitmap : Bitmap} {address : ℕ} (hg : Geometry bitmap)
    (ha : address<2^64)
    (h : (addressToBlockAndOffset bitmap address).block<bitmap.blockCount) :
    Tracked bitmap address := by
  have hcount : 0<bitmap.blockCount := Nat.zero_lt_of_lt h
  have hdiv : u64Sub address bitmap.baseAddress/(bitmap.pageSize*64)<bitmap.blockCount := by
    rw [← hg.full_eq hcount]
    exact h
  have hpos : 0<bitmap.pageSize*64 := Nat.mul_pos hg.page_pos (by decide)
  refine ⟨ha,?_⟩
  calc u64Sub address bitmap.baseAddress
      < bitmap.blockCount*(bitmap.pageSize*64) := (Nat.div_lt_iff_lt_mul hpos).mp hdiv
    _ = frames bitmap*bitmap.pageSize := by unfold frames; ring

/-- A tracked address is decoded to a block of the storage. -/
theorem block_of_tracked {bitmap : Bitmap} {address : ℕ} (hg : Geometry bitmap)
    (h : Tracked bitmap address) :
    (addressToBlockAndOffset bitmap address).block<bitmap.blockCount := by
  have hlt := frameOf_lt hg h
  rw [addressToBlockAndOffset_eq hg h]
  unfold frames at hlt
  show frameOf bitmap address/64<bitmap.blockCount
  omega

/-- `free` does what is asked of it exactly for the addresses of the tracked
range. -/
theorem rejectsForeign_iff {bitmap : Bitmap} (h : Initialised bitmap) {address : ℕ}
    (ha : address<2^64) : RejectsForeign bitmap address ↔ Tracked bitmap address := by
  have hg := h.geometry
  constructor
  · intro hr
    refine tracked_of_block hg ha (hr.inside _ ?_)
    unfold storageAccesses
    split_ifs <;> exact List.mem_cons_self
  · intro ht
    have hblock := block_of_tracked hg ht
    refine ⟨?_,?_,?_⟩
    · intro block hm
      unfold storageAccesses at hm
      split_ifs at hm with hset
      · simp only [List.mem_cons,List.not_mem_nil,or_false,or_self] at hm
        exact hm ▸ hblock
      · exact List.mem_singleton.mp hm ▸ hblock
    · intro hn
      have hclear : bitAt bitmap.storage (frameOf bitmap address)=false :=
        Bool.eq_false_iff.mpr (fun hset => hn ⟨ht,hset⟩)
      exact ⟨.doubleFree,by rw [free_eq hg ht,if_pos hclear]⟩
    · rintro ⟨-,hset⟩
      refine ⟨releaseFrame bitmap (frameOf bitmap address),?_,sameShape_with _ _ _,
        bitAt_releaseFrame bitmap _⟩
      rw [free_eq hg ht,if_neg (by rw [hset]; decide)]

/-- The sample is initialised, whatever is marked in it. -/
theorem initialised_sampleBitmap (words : Words) (freePages : ℕ) :
    Initialised {sampleBitmap with storage := words,freePages := freePages} :=
  ⟨fun _ => 0#64,4096,0x80000,0,sampleBitmap,init_sampleBitmap,by decide,by decide,
    sameShape_with _ _ _⟩

/-- The last byte of the sample's range. -/
theorem rejectsForeign_sample : RejectsForeign (markFrame sampleBitmap 0) 0x7ffff :=
  (rejectsForeign_iff (initialised_sampleBitmap _ _) (by decide)).mpr (by decide +kernel)

/-- The framebuffer of a machine with half a mebibyte of memory is no frame,
and `free` tests word 16192 of a storage of two words. -/
theorem free_not_always_rejectsForeign : ¬∀ (bitmap : Bitmap) (address : ℕ),
    Initialised bitmap → address<2^64 → RejectsForeign bitmap address := by
  intro hall
  have h := (hall sampleBitmap 0xfd000000 (initialised_sampleBitmap _ _) (by decide)).inside
    16192 (by decide +kernel)
  exact absurd h (by decide)

end WorkbenchOS.FrameReleases
