import WorkbenchOS.ContiguousFrames
import WorkbenchOS.FrameReleases

/-!
# Clearing frames

A frame taken by `Bitmap::allocate` is cleared. `Bitmap::allocate_contiguous`
reserves several frames and clears as many bytes as one of them has. Which
frames it reserves is decided by the bits alone, so the bytes that have to be
zero already can be named before the call.
-/

namespace WorkbenchOS.FrameClearing

open ByteMemory LibStd WordBitmaps FrameBitmap FrameOperations FrameRuns
open ContiguousFrames (findNFree_error findNFree_lowest)
open FrameReleases

/-- The byte belongs to frame `k` of the run that begins at an address. -/
def InFrame (address pageSize k x : ℕ) : Prop :=
  u64 (address+k*pageSize)≤x ∧ x<u64 (address+k*pageSize)+pageSize

/-- Every byte of the run is zero and every other byte is what it was. -/
structure RunCleared (before after : Memory) (address pageSize pages : ℕ) : Prop where
  /-- The frames of the run. -/
  zero : ∀ k, k<pages → ∀ x, InFrame address pageSize k x → after x=0
  /-- All other frames. -/
  others : ∀ x, (∀ k, k<pages → ¬InFrame address pageSize k x) → after x=before x

/-- What `allocate` returns is cleared. -/
def AllocateClears (bitmap : Bitmap) (memory : Memory) : Prop :=
  ∀ address after cleared, allocate bitmap memory=(.ok address,after,cleared) →
    RunCleared memory cleared address bitmap.pageSize 1

/-- What `allocate_contiguous` returns is cleared. -/
def ContiguousClears (bitmap : Bitmap) (memory : Memory) (pages : ℕ) : Prop :=
  ∀ address after cleared, allocateContiguous bitmap memory pages=(.ok address,after,cleared) →
    RunCleared memory cleared address bitmap.pageSize pages

/-- The lowest run of so many clear bits in the first word that has one. -/
structure FirstRun (bitmap : Bitmap) (pages block offset : ℕ) : Prop where
  /-- The word is scanned. -/
  scanned : block<bitmap.blockCount
  /-- The run does not leave the word. -/
  fits : offset+pages≤64
  /-- Its bits are clear. -/
  clear : ∀ j, offset≤j → j<offset+pages → (bitmap.storage block).getLsbD j=false
  /-- No lower place of the word has a run. -/
  lowest : ∀ low, low<offset →
    ∃ j, low≤j ∧ j<low+pages ∧ (bitmap.storage block).getLsbD j=true
  /-- No earlier word has a run. -/
  first : ∀ earlier, earlier<block → ∀ low, low+pages≤64 →
    ∃ j, low≤j ∧ j<low+pages ∧ (bitmap.storage earlier).getLsbD j=true

/-- In the first run of clear bits, if a frame is counted as free, the frames
behind the first one are zero. -/
def RestZero (bitmap : Bitmap) (memory : Memory) (pages : ℕ) : Prop :=
  bitmap.freePages≠0 → ∀ block offset, FirstRun bitmap pages block offset →
    ∀ k, 1≤k → k<pages → ∀ x,
      InFrame (frameAddress bitmap (64*block+offset)) bitmap.pageSize k x → memory x=0

section

variable {bitmap : Bitmap} {pages block offset : ℕ}

/-- There is at most one first run. -/
theorem FirstRun.unique (h : FirstRun bitmap pages block offset) {block' offset' : ℕ}
    (h' : FirstRun bitmap pages block' offset') : block'=block ∧ offset'=offset := by
  have hblock : block'=block := by
    rcases Nat.lt_trichotomy block' block with hlt|heq|hlt
    · obtain ⟨j,hl,hr,hset⟩ := h.first block' hlt offset' h'.fits
      rw [h'.clear j hl hr] at hset
      cases hset
    · exact heq
    · obtain ⟨j,hl,hr,hset⟩ := h'.first block hlt offset h.fits
      rw [h.clear j hl hr] at hset
      cases hset
  subst hblock
  refine ⟨rfl,?_⟩
  rcases Nat.lt_trichotomy offset' offset with hlt|heq|hlt
  · obtain ⟨j,hl,hr,hset⟩ := h.lowest offset' hlt
    rw [h'.clear j hl hr] at hset
    cases hset
  · exact heq
  · obtain ⟨j,hl,hr,hset⟩ := h'.lowest offset hlt
    rw [h.clear j hl hr] at hset
    cases hset

/-- The scan of `allocate_contiguous` finds the first run. -/
theorem findRun_first (hn : pages≤64) {place : BlockAndOffset}
    (h : findRun bitmap pages=some place) : FirstRun bitmap pages place.block place.offset := by
  obtain ⟨block,-,hlt,ha,hpassed⟩ := firstSome_eq_some h
  cases hfind : findNFree (bitmap.storage block) pages with
  | error error =>
    rw [hfind] at ha
    cases ha
  | ok offset =>
    rw [hfind] at ha
    cases ha
    obtain ⟨hfits,hclear⟩ := findNFree_ok (by omega) hfind
    have hscanned : block<bitmap.blockCount := by omega
    refine ⟨hscanned,hfits,hclear,fun low hl => findNFree_lowest hn hfind hl,?_⟩
    intro earlier he low hlow
    have hnone := hpassed earlier (Nat.zero_le _) he
    cases hearlier : findNFree (bitmap.storage earlier) pages with
    | ok found =>
      rw [hearlier] at hnone
      cases hnone
    | error error => exact findNFree_error hearlier hlow

/-- Where there is a first run the scan succeeds. -/
theorem FirstRun.found (h : FirstRun bitmap pages block offset) :
    ∃ place,findRun bitmap pages=some place := by
  rw [← Option.isSome_iff_exists,Option.isSome_iff_ne_none]
  intro hnone
  have hfail := firstSome_eq_none.mp hnone block (Nat.zero_le _) (by have := h.scanned; omega)
  cases hfind : findNFree (bitmap.storage block) pages with
  | ok found =>
    rw [hfind] at hfail
    cases hfail
  | error error =>
    obtain ⟨j,hl,hr,hset⟩ := findNFree_error hfind h.fits
    rw [h.clear j hl hr] at hset
    cases hset

/-- `allocate_contiguous` takes the first run and clears its first frame. -/
theorem FirstRun.allocated (h : FirstRun bitmap pages block offset) (hg : Geometry bitmap)
    (hn : 1≤pages) (hle : pages≤64) (hf : bitmap.freePages≠0) (memory : Memory) :
    allocateContiguous bitmap memory pages=
      (.ok (frameAddress bitmap (64*block+offset)),
        setNAllocated bitmap ⟨block,offset⟩ pages,
        fill memory (frameAddress bitmap (64*block+offset)) bitmap.pageSize 0) := by
  obtain ⟨place,hplace⟩ := h.found
  obtain ⟨hblock,hoffset⟩ := h.unique (findRun_first hle hplace)
  have heq : place=⟨block,offset⟩ := by
    cases place
    cases hblock
    cases hoffset
    rfl
  have hframe : 64*block+offset<frames bitmap := by
    have hscanned := h.scanned
    have hfits := h.fits
    unfold frames
    omega
  have haddress := placeToAddress_eq hg hframe
  rw [show (64*block+offset)/64=block by have := h.fits; omega,
    show (64*block+offset)%64=offset by have := h.fits; omega] at haddress
  rw [allocateContiguous,if_neg hf,Nat.mod_eq_of_lt (by omega),hplace,heq]
  dsimp only
  rw [haddress]

/-- A call that succeeds has taken the first run. -/
theorem exists_firstRun (hle : pages≤64) {memory cleared : Memory} {address : ℕ}
    {after : Bitmap} (h : allocateContiguous bitmap memory pages=(.ok address,after,cleared)) :
    bitmap.freePages≠0 ∧ ∃ block offset,FirstRun bitmap pages block offset := by
  rw [allocateContiguous,Nat.mod_eq_of_lt (show pages<256 by omega)] at h
  split_ifs at h with hf
  · cases h
  · refine ⟨hf,?_⟩
    cases hrun : findRun bitmap pages with
    | none =>
      rw [hrun] at h
      cases h
    | some place => exact ⟨place.block,place.offset,findRun_first hle hrun⟩

/-- The first frame of a run, at its address. -/
theorem inFrame_zero {address pageSize x : ℕ} (ha : address<2^64) :
    InFrame address pageSize 0 x ↔ address≤x ∧ x<address+pageSize := by
  rw [InFrame,Nat.zero_mul,Nat.add_zero,u64_of_lt ha]

/-- Frames of a run that is no larger than the address space do not overlap
its first one. -/
theorem not_inFrame_zero {address pageSize k x : ℕ} (hk : 1≤k)
    (hsize : (k+1)*pageSize≤2^64) (hx : InFrame address pageSize k x) :
    ¬(address≤x ∧ x<address+pageSize) := by
  have hle : pageSize≤k*pageSize := Nat.le_mul_of_pos_left _ hk
  unfold InFrame u64 at hx
  rw [Nat.add_mul,Nat.one_mul] at hsize
  omega

theorem frameAddress_lt (bitmap : Bitmap) (frame : ℕ) : frameAddress bitmap frame<2^64 :=
  u64_lt _

/-- One frame that was filled with zeros is a cleared run. -/
theorem runCleared_one (memory : Memory) {address : ℕ} (pageSize : ℕ) (ha : address<2^64) :
    RunCleared memory (fill memory address pageSize 0) address pageSize 1 := by
  constructor
  · intro k hk x hx
    rw [show k=0 by omega,inFrame_zero ha] at hx
    exact fill_inside memory 0 hx.1 hx.2
  · intro x hx
    have hout := hx 0 Nat.one_pos
    rw [inFrame_zero ha] at hout
    exact fill_outside memory 0 (by omega)

/-- A run whose first frame was filled with zeros is cleared exactly when its
other frames were zero before. -/
theorem runCleared_iff (memory : Memory) {address pageSize : ℕ} (ha : address<2^64)
    (hsize : pages*pageSize≤2^64) (hn : 1≤pages) :
    RunCleared memory (fill memory address pageSize 0) address pageSize pages ↔
      ∀ k, 1≤k → k<pages → ∀ x, InFrame address pageSize k x → memory x=0 := by
  have hout : ∀ k, 1≤k → k<pages → ∀ x, InFrame address pageSize k x →
      fill memory address pageSize 0 x=memory x := by
    intro k hk hkp x hx
    have hroom : (k+1)*pageSize≤2^64 := (Nat.mul_le_mul_right _ hkp).trans hsize
    have hnot := not_inFrame_zero hk hroom hx
    exact fill_outside memory 0 (by omega)
  constructor
  · intro h k hk hkp x hx
    rw [← hout k hk hkp x hx]
    exact h.zero k hkp x hx
  · intro h
    have hone := runCleared_one memory pageSize ha
    constructor
    · intro k hkp x hx
      by_cases hk : 1≤k
      · rw [hout k hk hkp x hx]
        exact h k hk hkp x hx
      · exact hone.zero k (by omega) x hx
    · intro x hx
      exact hone.others x (fun k hk => hx k (by omega))

end

/-- `allocate` always clears the frame it returns, `allocate_contiguous` clears
the run it returns exactly when the frames behind the first one are zero
already. -/
theorem allocations_clear {bitmap : Bitmap} (h : Initialised bitmap) (memory : Memory) :
    AllocateClears bitmap memory ∧ ∀ pages, 1≤pages → pages≤64 →
      (ContiguousClears bitmap memory pages ↔ RestZero bitmap memory pages) := by
  have hg := h.geometry
  constructor
  · intro address after cleared ha
    rcases allocate_cases hg memory with ⟨error,he,-⟩|⟨frame,-,-,-,-,he⟩
    · rw [he] at ha
      cases ha
    · rw [he] at ha
      cases ha
      exact runCleared_one memory _ (frameAddress_lt bitmap frame)
  · intro pages hn hle
    have hroom : ∀ {block offset : ℕ}, FirstRun bitmap pages block offset →
        pages*bitmap.pageSize≤2^64 := by
      intro block offset hrun
      have hscanned := hrun.scanned
      have hfits : pages≤frames bitmap := by
        unfold frames
        omega
      exact (Nat.mul_le_mul_right _ hfits).trans hg.size_lt.le
    constructor
    · intro hc hf block offset hrun
      have hcleared := hc _ _ _ (hrun.allocated hg hn hle hf memory)
      exact (runCleared_iff memory (frameAddress_lt _ _) (hroom hrun) hn).mp hcleared
    · intro hz address after cleared ha
      obtain ⟨hf,block,offset,hrun⟩ := exists_firstRun hle ha
      rw [hrun.allocated hg hn hle hf memory] at ha
      cases ha
      exact (runCleared_iff memory (frameAddress_lt _ _) (hroom hrun) hn).mpr
        (hz hf block offset hrun)

/-- Two frames of a memory of zeros. -/
theorem allocations_clear_sample : ContiguousClears sampleBitmap (fun _ => 0) 2 :=
  ((allocations_clear (initialised_sampleBitmap _ _) _).2 2 (by decide) (by decide)).mpr
    (fun _ _ _ _ _ _ _ _ _ => rfl)

/-- The second of two frames keeps what it held. -/
theorem contiguous_not_always_clears : ¬∀ (bitmap : Bitmap) (memory : Memory) (pages : ℕ),
    Initialised bitmap → 1≤pages → pages≤64 → ContiguousClears bitmap memory pages := by
  intro hall
  have hclears := hall sampleBitmap (fun _ => 1) 2 (initialised_sampleBitmap _ _) (by decide)
    (by decide)
  have hrun : FirstRun sampleBitmap 2 0 0 :=
    ⟨by decide,by decide,fun _ _ _ => BitVec.getLsbD_zero,fun _ hl => absurd hl (by omega),
      fun _ he => absurd he (by omega)⟩
  have hg := (initialised_sampleBitmap sampleBitmap.storage sampleBitmap.freePages).geometry
  have hcleared := hclears _ _ _ (hrun.allocated hg (by decide) (by decide) (by decide) _)
  have hzero := hcleared.zero 1 (by decide) 0x1000 (by unfold InFrame; decide +kernel)
  revert hzero
  decide +kernel

end WorkbenchOS.FrameClearing
