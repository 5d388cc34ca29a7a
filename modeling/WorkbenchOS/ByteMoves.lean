import WorkbenchOS.ByteMemory

/-!
# Moves of words

A loop that copies memory loads a word and stores it elsewhere, again and
again. Each word is stored before the next one is loaded. Between ranges that
are apart the words arrive as they were at the start, so the loop is the copy of
one range to the other, whatever the width of a word is.
-/

namespace WorkbenchOS.ByteMoves

open ByteMemory

/-- A word that is loaded from one address and stored at another one. -/
structure Move where
  /-- The address it is stored at. -/
  target : ℕ
  /-- The address it is loaded from. -/
  source : ℕ
  /-- Its bytes. -/
  width : ℕ
  deriving DecidableEq

/-- One move. -/
def Move.apply (memory : Memory) (move : Move) : Memory :=
  writeLE memory move.target move.width (readLE memory move.source move.width)

/-- The memory after some moves, one after the other. -/
def moved (moves : List Move) (memory : Memory) : Memory := moves.foldl Move.apply memory

/-- Moves of words of one width, from the first address of two ranges up. -/
def series (width target source count : ℕ) : List Move :=
  (List.range count).map (fun i => ⟨target+i*width,source+i*width,width⟩)

/-- Byte `i` of a word. -/
theorem readLE_byte (memory : Memory) {address count i : ℕ} (hi : i<count) :
    UInt8.ofNat (readLE memory address count/256^i)=memory (address+i) := by
  induction count generalizing address i with
  | zero => omega
  | succ count ih =>
    have hb := UInt8.toNat_lt (memory address)
    rw [readLE]
    cases i with
    | zero =>
      have hsame : memory (address+0)=memory address := rfl
      rw [pow_zero,Nat.div_one,hsame]
      apply UInt8.toNat_inj.mp
      rw [UInt8.toNat_ofNat']
      omega
    | succ i =>
      have hdiv : ((memory address).toNat+256*readLE memory (address+1) count)/256^(i+1)=
          readLE memory (address+1) count/256^i := by
        rw [pow_succ',←Nat.div_div_eq_div_mul]
        congr 1
        omega
      rw [hdiv,ih (by omega),Nat.add_assoc,Nat.add_comm 1 i]

/-- Storing a word that was loaded copies its bytes. -/
theorem writeLE_readLE (memory from_ : Memory) (address source count : ℕ) :
    writeLE memory address count (readLE from_ source count)=
      copy memory address from_ source count := by
  funext x
  unfold writeLE copy
  by_cases hx : address≤x ∧ x<address+count
  · rw [if_pos hx,if_pos hx,readLE_byte from_ (by omega)]
  · rw [if_neg hx,if_neg hx]

/-- A later move neither loads from where an earlier one stored nor stores
there again. -/
def Independent (moves : List Move) : Prop :=
  moves.Pairwise (fun first later =>
    Apart first.target first.width later.source later.width ∧
      Apart first.target first.width later.target later.width)

/-- A byte that is no target keeps its value. -/
theorem moved_outside {moves : List Move} {x : ℕ}
    (h : ∀ move∈moves, x< move.target ∨ move.target+move.width≤x) (memory : Memory) :
    moved moves memory x=memory x := by
  induction moves generalizing memory with
  | nil => rfl
  | cons move rest ih =>
    obtain ⟨hm,hr⟩ := List.forall_mem_cons.mp h
    change moved rest (move.apply memory) x=memory x
    rw [ih hr]
    exact writeLE_outside memory hm

/-- Each byte of a target is the one that its source had before the first
move. -/
theorem moved_inside {moves : List Move} (h : Independent moves) {move : Move}
    (hm : move∈moves) {i : ℕ} (hi : i< move.width) (memory : Memory) :
    moved moves memory (move.target+i)=memory (move.source+i) := by
  induction moves generalizing memory with
  | nil => cases hm
  | cons first rest ih =>
    obtain ⟨hfirst,hrest⟩ := List.pairwise_cons.mp h
    have hword : first.apply memory=
        copy memory first.target memory first.source first.width := writeLE_readLE _ _ _ _ _
    change moved rest (first.apply memory) (move.target+i)=memory (move.source+i)
    rcases List.mem_cons.mp hm with rfl|hlater
    · rw [moved_outside,hword,copy_inside _ _ (by omega) (by omega),Nat.add_sub_cancel_left]
      intro later hl
      have hapart := (hfirst later hl).2
      unfold Apart at hapart
      omega
    · have hapart := (hfirst move hlater).1
      unfold Apart at hapart
      rw [ih hrest hlater,hword,copy_outside _ _ (by omega)]

/-- Words are loaded in front of where the next ones are stored, or behind
all of them. -/
theorem independent_series {width target source count : ℕ}
    (h : target≤ source ∨ source+count*width≤target) :
    Independent (series width target source count) := by
  refine List.pairwise_map.mpr (List.pairwise_lt_range.imp_of_mem ?_)
  intro i j _ hj hlt
  have hnext : (i+1)*width≤j*width := Nat.mul_le_mul_right width hlt
  have hlast : (j+1)*width≤count*width := Nat.mul_le_mul_right width (List.mem_range.mp hj)
  rw [Nat.succ_mul] at hnext hlast
  unfold Apart
  dsimp only
  omega

/-- Between ranges that are apart, and to a lower address, the moves copy one
range to the other. -/
theorem moved_series {width target source count : ℕ} (hw : 0<width)
    (h : target≤ source ∨ source+count*width≤target) (memory : Memory) :
    moved (series width target source count) memory=
      copy memory target memory source (count*width) := by
  funext x
  by_cases hx : target≤x ∧ x<target+count*width
  · obtain ⟨k,rfl⟩ : ∃ k,x=target+k := ⟨x-target,by omega⟩
    have hdiv : k/width<count := (Nat.div_lt_iff_lt_mul hw).mpr (by omega)
    have hk := Nat.div_add_mod' k width
    have hmove : (⟨target+k/width*width,source+k/width*width,width⟩ : Move)∈
        series width target source count := List.mem_map.mpr ⟨_,List.mem_range.mpr hdiv,rfl⟩
    have hmoved := moved_inside (independent_series h) hmove (Nat.mod_lt k hw) memory
    rw [copy_inside _ _ hx.1 hx.2,Nat.add_sub_cancel_left]
    rwa [Nat.add_assoc,hk,Nat.add_assoc,hk] at hmoved
  · rw [copy_outside _ _ (by omega)]
    refine moved_outside (fun move hm => ?_) memory
    obtain ⟨i,hi,rfl⟩ := List.mem_map.mp hm
    have hlast : (i+1)*width≤count*width :=
      Nat.mul_le_mul_right width (List.mem_range.mp hi)
    rw [Nat.succ_mul] at hlast
    dsimp only
    omega

end WorkbenchOS.ByteMoves
