import WorkbenchOS.FrameOperations

/-!
# Contiguous frames

`allocate_contiguous` takes a page count of 64 bits, but the functions it
calls take eight. A count that does not fit is granted as the count modulo
256. From 66 pages on the iteration bound of `find_n_free` turns negative and
the mask leaves the word before the scan ends.
-/

namespace WorkbenchOS.ContiguousFrames

open ByteMemory LibStd WordBitmaps FrameBitmap FrameOperations

/-- The frames from `frame` on were tracked and clear, are set now, and
nothing else happened but that the counter dropped by their number. -/
structure Granted (before after : Bitmap) (frame pages : ℕ) : Prop where
  /-- All of them are tracked. -/
  fits : frame+pages≤frames before
  /-- They were clear. -/
  clear : ∀ k,frame≤k → k<frame+pages → bitAt before.storage k=false
  /-- They are set. -/
  taken : ∀ k,frame≤k → k<frame+pages → bitAt after.storage k=true
  /-- Other bits are what they were. -/
  others : ∀ k,¬(frame≤k ∧ k<frame+pages) → bitAt after.storage k=bitAt before.storage k
  /-- `m_free_pages` dropped. -/
  counter : after.freePages+pages=before.freePages

/-- A call that succeeds grants the frames at the address it returns; one that
fails changes no bit and no counter. -/
def GrantsOrKeeps (bitmap : Bitmap) (memory : Memory) (pages : ℕ) : Prop :=
  match allocateContiguous bitmap memory pages with
  | (.ok address,after,_) => ∃ frame,address=frameAddress bitmap frame ∧
      Granted bitmap after frame pages
  | (.error _,after,_) => after.storage=bitmap.storage ∧ after.freePages=bitmap.freePages

/-- Some scanned block has `count` consecutive clear bits. -/
def HasRun (bitmap : Bitmap) (count : ℕ) : Prop :=
  ∃ block<bitmap.blockCount,∃ offset,offset+count≤64 ∧
    ∀ j,offset≤j → j<offset+count → (bitmap.storage block).getLsbD j=false

/-- The call has nothing to grant: no frame is counted as free, or no block is
scanned, or the narrowed count is in range and finds no run. -/
def NothingToGrant (bitmap : Bitmap) (pages : ℕ) : Prop :=
  bitmap.freePages=0 ∨ bitmap.blockCount=0 ∨
    (1≤pages%256 ∧ pages%256≤65 ∧ ¬HasRun bitmap (pages%256))

/-- In range, `find_n_free` fails only when the word has no run. -/
theorem findNFree_error {word : BitVec 64} {n : ℕ} {error : BitmapError}
    (h : findNFree word n=.error error) {offset : ℕ} (ho : offset+n≤64) :
    ∃ j,offset≤j ∧ j<offset+n ∧ word.getLsbD j=true := by
  rw [findNFree_eq] at h
  split at h
  · cases h
  · rename_i hscan
    have hiter : findNFreeIterations n=65-n := u64Sub_of_le (by omega) (by decide)
    have hpassed := firstSome_eq_none.mp hscan offset (Nat.zero_le _) (by omega)
    by_contra hno
    have hzero : (lowMask n <<< offset) &&& word=0#64 := by
      refine (lowMask_and_eq_zero word).mpr (fun j hj hl hr => ?_)
      by_contra hset
      exact hno ⟨j,hl,hr,by simpa using hset⟩
    rw [if_pos hzero] at hpassed
    cases hpassed

/-- `find_n_free` returns the lowest run of the word. -/
theorem findNFree_lowest {word : BitVec 64} {n offset : ℕ} (hn : n≤64)
    (h : findNFree word n=.ok offset) {low : ℕ} (hl : low<offset) :
    ∃ j, low≤j ∧ j<low+n ∧ word.getLsbD j=true := by
  obtain ⟨hfits,-⟩ := findNFree_ok (by omega) h
  rw [findNFree_eq] at h
  cases hscan : firstSome (fun k => if (lowMask n <<< k) &&& word=0#64 then some k else none)
      (findNFreeIterations n) 0 with
  | none =>
    rw [hscan] at h
    cases h
  | some found =>
    rw [hscan] at h
    cases h
    obtain ⟨k,-,-,ha,hpassed⟩ := firstSome_eq_some hscan
    split_ifs at ha
    cases ha
    have hnone := hpassed low (Nat.zero_le _) hl
    by_contra hall
    push Not at hall
    have hzero : (lowMask n <<< low) &&& word=0#64 :=
      (lowMask_and_eq_zero word).mpr
        (fun j _ hj hjn => Bool.eq_false_iff.mpr (hall j hj hjn))
    rw [if_pos hzero] at hnone
    cases hnone

/-- An empty run is found in every word. -/
theorem findNFree_zero (word : BitVec 64) : findNFree word 0=.ok 0 := by
  rw [findNFree_eq]
  have hzero : (lowMask 0 <<< 0) &&& word=0#64 :=
    (lowMask_and_eq_zero word).mpr (fun j _ hl hr => absurd hr (by omega))
  have hiter : findNFreeIterations 0=64+1 := rfl
  rw [hiter,firstSome,if_pos hzero]

section

variable {bitmap : Bitmap} {memory : Memory} {pages : ℕ}

/-- A call that fails had nothing to grant. -/
theorem nothingToGrant_of_error {error : BitmapError}
    (h : (allocateContiguous bitmap memory pages).1=.error error) :
    NothingToGrant bitmap pages := by
  by_cases hf : bitmap.freePages=0
  · exact Or.inl hf
  · rw [allocateContiguous,if_neg hf] at h
    cases hscan : findRun bitmap (pages%256) with
    | some place =>
      rw [hscan] at h
      cases h
    | none =>
      have hpassed : ∀ block<bitmap.blockCount,
          ∃ error,findNFree (bitmap.storage block) (pages%256)=.error error := by
        intro block hb
        have hnone := firstSome_eq_none.mp hscan block (Nat.zero_le _) (by omega)
        split at hnone
        · cases hnone
        · rename_i error herror
          exact ⟨error,herror⟩
      by_cases hb : bitmap.blockCount=0
      · exact Or.inr (Or.inl hb)
      · obtain ⟨first,hfirst⟩ := hpassed 0 (by omega)
        refine Or.inr (Or.inr ⟨?_,?_,?_⟩)
        · by_contra hz
          rw [show pages%256=0 by omega,findNFree_zero] at hfirst
          cases hfirst
        · by_contra hlarge
          obtain ⟨offset,hfind⟩ := findNFree_large (bitmap.storage 0) (show 66≤pages%256 by omega)
            (Nat.mod_lt _ (by decide))
          rw [hfind] at hfirst
          cases hfirst
        · rintro ⟨block,hblock,offset,ho,hclear⟩
          obtain ⟨error,herror⟩ := hpassed block hblock
          obtain ⟨j,hl,hr,hset⟩ := findNFree_error herror ho
          rw [hclear j hl hr] at hset
          cases hset

/-- A call with nothing to grant fails and changes nothing. -/
theorem error_of_nothingToGrant (memory : Memory) (h : NothingToGrant bitmap pages) :
    ∃ error,allocateContiguous bitmap memory pages=(.error error,bitmap,memory) := by
  rcases allocateContiguous_cases bitmap memory pages with he|⟨block,offset,hb,hf,hfind,-⟩
  · exact he
  · rcases h with hzero|hblocks|⟨-,hle,hno⟩
    · exact absurd hzero hf
    · omega
    · obtain ⟨ho,hclear⟩ := findNFree_ok hle hfind
      exact absurd ⟨block,hb,offset,ho,hclear⟩ hno

/-- In range, a call that succeeds with enough frames counted as free grants
them. -/
theorem granted_of_find (hg : Geometry bitmap) (hlt : bitmap.freePages<2^64) {block offset : ℕ}
    (hb : block<bitmap.blockCount) (hn : 1≤pages) (hle : pages≤64)
    (hfree : pages≤bitmap.freePages)
    (hfind : findNFree (bitmap.storage block) pages=.ok offset) :
    placeToAddress bitmap ⟨block,offset⟩=frameAddress bitmap (64*block+offset) ∧
      Granted bitmap (setNAllocated bitmap ⟨block,offset⟩ pages) (64*block+offset) pages := by
  obtain ⟨ho,hclear⟩ := findNFree_ok (by omega) hfind
  have hfits : 64*block+offset+pages≤frames bitmap := by
    unfold frames
    omega
  have hdiv : (64*block+offset)/64=block := by omega
  have hmod : (64*block+offset)%64=offset := by omega
  have haddress := placeToAddress_eq hg (show 64*block+offset<frames bitmap by omega)
  rw [hdiv,hmod] at haddress
  refine ⟨haddress,hfits,?_,?_,?_,?_⟩
  · intro k hl hr
    rw [bitAt,show k/64=block by omega]
    exact hclear (k%64) (by omega) (by omega)
  · intro k hl hr
    rw [bitAt_setNAllocated bitmap ho,decide_eq_true ⟨hl,hr⟩,Bool.or_true]
  · intro k hk
    rw [bitAt_setNAllocated bitmap ho,decide_eq_false hk,Bool.or_false]
  · dsimp only [setNAllocated]
    rw [u64Sub_of_le hfree hlt]
    omega

/-- One call marks frames of one block only. -/
theorem bitAt_setNAllocated_block (bitmap : Bitmap) (block offset n : ℕ) {k : ℕ}
    (hk : k/64≠block) :
    bitAt (setNAllocated bitmap ⟨block,offset⟩ n).storage k=bitAt bitmap.storage k := by
  dsimp only [setNAllocated]
  rw [bitAt_orWord,decide_eq_false hk,Bool.false_and,Bool.or_false]

/-- Frames of two blocks are never granted in one call. -/
theorem pages_le_of_granted {block offset n frame : ℕ}
    (h : Granted bitmap (setNAllocated bitmap ⟨block,offset⟩ n) frame pages) : pages≤64 := by
  by_contra hlarge
  -- `frame` and `frame+64` are in different blocks
  have hkeep : ∀ k,frame≤k → k<frame+pages → k/64=block := by
    intro k hl hr
    by_contra hk
    have hset := h.taken k hl hr
    rw [bitAt_setNAllocated_block bitmap block offset n hk,h.clear k hl hr] at hset
    cases hset
  have hfirst := hkeep frame le_rfl (by omega)
  have hsecond := hkeep (frame+64) (by omega) (by omega)
  omega

/-- A call grants what it was asked for, or fails without an effect, exactly
when it has nothing to grant or at most 64 pages and no more than are counted
as free were asked for. -/
theorem grantsOrKeeps_iff (hg : Geometry bitmap) (hlt : bitmap.freePages<2^64) (hn : 1≤pages)
    (memory : Memory) :
    GrantsOrKeeps bitmap memory pages ↔
      NothingToGrant bitmap pages ∨ (pages≤64 ∧ pages≤bitmap.freePages) := by
  rcases allocateContiguous_cases bitmap memory pages with ⟨error,he⟩|⟨block,offset,hb,hf,hfind,he⟩
  · have hnothing : NothingToGrant bitmap pages :=
      nothingToGrant_of_error (congrArg Prod.fst he)
    have hkeeps : GrantsOrKeeps bitmap memory pages := by
      simp only [GrantsOrKeeps,he,and_self]
    exact iff_of_true hkeeps (Or.inl hnothing)
  · have hsome : ¬NothingToGrant bitmap pages := by
      intro hnothing
      obtain ⟨error,herror⟩ := error_of_nothingToGrant memory hnothing
      rw [he] at herror
      cases herror
    constructor
    · intro h
      simp only [GrantsOrKeeps,he] at h
      obtain ⟨frame,-,hgranted⟩ := h
      have hle := pages_le_of_granted hgranted
      have hcounter := hgranted.counter
      dsimp only [setNAllocated] at hcounter
      have hmod : pages%256=pages := Nat.mod_eq_of_lt (by omega)
      rw [hmod] at hcounter
      unfold u64Sub u64 at hcounter
      exact Or.inr ⟨hle,by omega⟩
    · intro h
      obtain ⟨hle,hfree⟩ := h.resolve_left hsome
      have hmod : pages%256=pages := Nat.mod_eq_of_lt (by omega)
      rw [hmod] at hfind he
      obtain ⟨haddress,hgranted⟩ := granted_of_find hg hlt hb hn hle hfree hfind
      simp only [GrantsOrKeeps,he]
      exact ⟨_,haddress,hgranted⟩

end

/-- Eight clear blocks at 1 MiB. -/
def sampleBitmap : Bitmap := ⟨4096,512,512,8,262144,fun _ => 0#64,1048576⟩

/-- The sample has the geometry of an initialised bitmap. -/
theorem sample_geometry : Geometry sampleBitmap := ⟨by decide,fun _ => rfl,by decide,by decide⟩

/-- Sixty-four pages of the sample are granted. -/
theorem sample_grants_64 : GrantsOrKeeps sampleBitmap (fun _ => 0) 64 :=
  (grantsOrKeeps_iff sample_geometry (by decide) (by decide) _).mpr (Or.inr (by decide))

/-- For 256 pages the call succeeds without marking any. -/
theorem sample_loses_256 :
    ¬∀ (bitmap : Bitmap) (memory : Memory) (pages : ℕ),Geometry bitmap →
      bitmap.freePages<2^64 → 1≤pages → GrantsOrKeeps bitmap memory pages := by
  intro h
  have hgrants := h sampleBitmap (fun _ => 0) 256 sample_geometry (by decide) (by decide)
  have hsome : ¬NothingToGrant sampleBitmap 256 := by
    rintro (hf|hb|⟨hn,-,-⟩)
    · exact absurd hf (by decide)
    · exact absurd hb (by decide)
    · exact absurd hn (by decide)
  rcases allocateContiguous_cases sampleBitmap (fun _ => 0) 256 with
    ⟨error,he⟩|⟨block,offset,-,-,-,he⟩
  · exact hsome (nothingToGrant_of_error (congrArg Prod.fst he))
  · simp only [GrantsOrKeeps,he] at hgrants
    obtain ⟨frame,-,hgranted⟩ := hgrants
    exact absurd (pages_le_of_granted hgranted) (by decide)

/-- So many bits of the word from the offset on are clear and inside it. -/
def ClearRun (word : BitVec 64) (n offset : ℕ) : Prop :=
  offset+n≤64 ∧ ∀ j,offset≤j → j<offset+n → word.getLsbD j=false

/-- What is found is a run, with none at a lower place. -/
theorem findNFree_ok_iff {word : BitVec 64} {n offset : ℕ} (hn : n≤64) :
    findNFree word n=.ok offset ↔
      ClearRun word n offset ∧ ∀ lower,lower<offset → ¬ClearRun word n lower := by
  have hlowest : ∀ {found}, findNFree word n=.ok found → ∀ lower,lower<found →
      ¬ClearRun word n lower := by
    intro found h lower hl hrun
    obtain ⟨j,hlj,hjn,hset⟩ := findNFree_lowest hn h hl
    rw [hrun.2 j hlj hjn] at hset
    cases hset
  constructor
  · exact fun h => ⟨findNFree_ok (by omega) h,fun lower hl => hlowest h lower hl⟩
  · rintro ⟨hrun,hleast⟩
    cases hfind : findNFree word n with
    | error error =>
      obtain ⟨j,hl,hr,hset⟩ := findNFree_error hfind hrun.1
      rw [hrun.2 j hl hr] at hset
      cases hset
    | ok found =>
      have hfound : ClearRun word n found := findNFree_ok (by omega) hfind
      rcases Nat.lt_trichotomy found offset with hlt|heq|hlt
      · exact absurd hfound (hleast found hlt)
      · rw [heq]
      · exact absurd hrun (hlowest hfind offset hlt)

/-- The search fails exactly on words without a run. -/
theorem findNFree_error_iff {word : BitVec 64} {n : ℕ} (hn : n≤64) :
    (∃ error,findNFree word n=.error error) ↔ ¬∃ offset,ClearRun word n offset := by
  constructor
  · rintro ⟨error,h⟩ ⟨offset,hfits,hclear⟩
    obtain ⟨j,hl,hr,hset⟩ := findNFree_error h hfits
    rw [hclear j hl hr] at hset
    cases hset
  · intro hno
    cases hfind : findNFree word n with
    | error error => exact ⟨error,rfl⟩
    | ok found => exact absurd ⟨found,findNFree_ok (by omega) hfind⟩ hno

/-- `find_n_free` returns the lowest run of clear bits of a word, if it has
one, and `set_n_allocated` at that place sets the bits of the run and no
other bit of any block. -/
theorem findNFree_lowest_run (word : BitVec 64) {n : ℕ} (hpos : 1≤n) (hn : n≤64) :
    (∀ offset,findNFree word n=.ok offset ↔
      ClearRun word n offset ∧ ∀ lower,lower<offset → ¬ClearRun word n lower) ∧
    ((∃ error,findNFree word n=.error error) ↔ ¬∃ offset,ClearRun word n offset) ∧
    ∀ offset,findNFree word n=.ok offset → ∀ bitmap block k,
      bitAt (setNAllocated bitmap ⟨block,offset⟩ n).storage k=
        (bitAt bitmap.storage k || decide (64*block+offset≤k ∧ k<64*block+offset+n)) :=
  ⟨fun _ => findNFree_ok_iff hn,findNFree_error_iff hn,
    fun _ h bitmap _ k => bitAt_setNAllocated bitmap (findNFree_ok (by omega) h).1 k⟩

/-- Three clear bits, of which the lowest place is behind a lone one. -/
theorem findNFree_lowest_run_three : findNFree 0xffffffffffff8b#64 3=.ok 4 := by
  have hrun : ClearRun 0xffffffffffff8b#64 3 4 := by
    refine ⟨by decide,fun j hl hr => ?_⟩
    interval_cases j <;> decide
  refine ((findNFree_lowest_run 0xffffffffffff8b#64 (by decide : 1≤3) (by decide)).1 4).mpr
    ⟨hrun,?_⟩
  intro lower hlt hlower
  by_cases hone : lower≤1
  · exact absurd (hlower.2 1 hone (by omega)) (by decide)
  · exact absurd (hlower.2 3 (by omega) (by omega)) (by decide)

end WorkbenchOS.ContiguousFrames
