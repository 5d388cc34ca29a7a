import Mathlib

/-!
# Bitmaps over 64-bit words

A bitmap is a sequence of words read as one long row of bits. Or-ing and
and-ing a mask into one word changes the bits of that word only; the set of
clear bits below a bound then loses or gains exactly the bits of the mask.
Scans return the result of the first attempt that succeeds.
-/

namespace WorkbenchOS.WordBitmaps

/-- Words of a bitmap by index. -/
abbrev Words := ℕ→BitVec 64

/-- Bit `k` of the row. -/
def bitAt (words : Words) (k : ℕ) : Bool := (words (k/64)).getLsbD (k%64)

/-- Set the bits of a mask in one word. -/
def orWord (words : Words) (block : ℕ) (mask : BitVec 64) : Words :=
  Function.update words block (words block ||| mask)

/-- Keep only the bits of a mask in one word. -/
def andWord (words : Words) (block : ℕ) (mask : BitVec 64) : Words :=
  Function.update words block (words block &&& mask)

/-- Or-ing sets the bits of the mask and keeps all others. -/
theorem bitAt_orWord (words : Words) (block k : ℕ) (mask : BitVec 64) :
    bitAt (orWord words block mask) k=
      (bitAt words k || (decide (k/64=block) && mask.getLsbD (k%64))) := by
  unfold bitAt orWord
  by_cases h : k/64=block
  · subst h
    simp only [Function.update_self,BitVec.getLsbD_or,decide_true,Bool.true_and]
  · simp only [Function.update_of_ne h,h,decide_false,Bool.false_and,Bool.or_false]

/-- And-ing clears the bits outside the mask and keeps all others. -/
theorem bitAt_andWord (words : Words) (block k : ℕ) (mask : BitVec 64) :
    bitAt (andWord words block mask) k=
      (bitAt words k && (decide (k/64≠block) || mask.getLsbD (k%64))) := by
  unfold bitAt andWord
  by_cases h : k/64=block
  · subst h
    simp only [Function.update_self,BitVec.getLsbD_and,ne_eq,not_true_eq_false,decide_false,
      Bool.false_or]
  · simp only [Function.update_of_ne h,ne_eq,h,not_false_eq_true,decide_true,Bool.true_or,
      Bool.and_true]

/-- Bits of a one-bit mask. -/
theorem getLsbD_one_shiftLeft {i j : ℕ} (hj : j<64) :
    (1#64 <<< i).getLsbD j=decide (j=i) := by
  rw [BitVec.getLsbD_shiftLeft,BitVec.getLsbD_one]
  by_cases h : j=i
  · subst h
    simp [hj]
  · by_cases hlt : j< i
    · simp [hj,hlt,h]
    · have hsub : ¬j-i=0 := by omega
      simp [hj,hlt,h,hsub]

/-- Testing a word against a one-bit mask reads that bit. -/
theorem and_one_shiftLeft_eq_zero (word : BitVec 64) {i : ℕ} (hi : i<64) :
    word &&& (1#64 <<< i)=0#64 ↔ word.getLsbD i=false := by
  constructor
  · intro h
    have hb := congrArg (fun w => w.getLsbD i) h
    simpa [getLsbD_one_shiftLeft hi] using hb
  · intro h
    refine BitVec.eq_of_getLsbD_eq (fun j hj => ?_)
    rw [BitVec.getLsbD_and,getLsbD_one_shiftLeft hj,BitVec.getLsbD_zero]
    by_cases he : j=i
    · subst he
      simp [h]
    · simp [he]

/-- A row is determined by its bits. -/
theorem eq_of_bitAt {words after : Words} (h : ∀ k, bitAt after k=bitAt words k) :
    after=words := by
  funext i
  refine BitVec.eq_of_getLsbD_eq (fun j hj => ?_)
  have hb := h (64*i+j)
  have hdiv : (64*i+j)/64=i := by omega
  have hmod : (64*i+j)%64=j := by omega
  rwa [bitAt,bitAt,hdiv,hmod] at hb

/-- The bits below `count` that are clear. -/
def clearBits (words : Words) (count : ℕ) : Finset ℕ :=
  (Finset.range count).filter (fun k => bitAt words k=false)

@[simp] theorem mem_clearBits {words : Words} {count k : ℕ} :
    k∈clearBits words count ↔ k<count ∧ bitAt words k=false := by
  simp only [clearBits,Finset.mem_filter,Finset.mem_range]

/-- There are no more clear bits than bits. -/
theorem card_clearBits_le (words : Words) (count : ℕ) : (clearBits words count).card≤count := by
  have h := Finset.card_filter_le (Finset.range count) (fun k => bitAt words k=false)
  rwa [Finset.card_range] at h

/-- All bits are clear exactly when every word is zero. -/
theorem card_clearBits_eq_iff (words : Words) (blocks : ℕ) :
    (clearBits words (64*blocks)).card=64*blocks ↔ ∀ i, i<blocks → words i=0#64 := by
  have hall : (clearBits words (64*blocks)).card=64*blocks ↔
      ∀ k∈Finset.range (64*blocks),bitAt words k=false := by
    unfold clearBits
    nth_rewrite 2 [← Finset.card_range (64*blocks)]
    exact Finset.card_filter_eq_iff
  rw [hall]
  constructor
  · intro h i hi
    refine BitVec.eq_of_getLsbD_eq (fun j hj => ?_)
    have hb := h (64*i+j) (Finset.mem_range.mpr (by omega))
    have hdiv : (64*i+j)/64=i := by omega
    have hmod : (64*i+j)%64=j := by omega
    rw [bitAt,hdiv,hmod] at hb
    rw [hb,BitVec.getLsbD_zero]
  · intro h k hk
    have hlt := Finset.mem_range.mp hk
    rw [bitAt,h (k/64) (by omega),BitVec.getLsbD_zero]

/-- Setting some of the clear bits takes them out of the clear set. -/
theorem card_clearBits_set {words after : Words} {count : ℕ} {bits : Finset ℕ}
    (hbits : bits⊆clearBits words count)
    (h : ∀ k, k<count → (bitAt after k=false ↔ bitAt words k=false ∧ k∉bits)) :
    (clearBits after count).card+bits.card=(clearBits words count).card := by
  have he : clearBits after count=clearBits words count \ bits := by
    ext k
    simp only [mem_clearBits,Finset.mem_sdiff]
    constructor
    · exact fun hk => ⟨⟨hk.1,((h k hk.1).mp hk.2).1⟩,((h k hk.1).mp hk.2).2⟩
    · exact fun hk => ⟨hk.1.1,(h k hk.1.1).mpr ⟨hk.1.2,hk.2⟩⟩
  rw [he]
  exact Finset.card_sdiff_add_card_eq_card hbits

/-- Clearing a set bit puts it into the clear set. -/
theorem card_clearBits_clear {words after : Words} {count bit : ℕ} (hb : bit<count)
    (hset : bitAt words bit=true)
    (h : ∀ k, k<count → (bitAt after k=false ↔ bitAt words k=false ∨ k=bit)) :
    (clearBits after count).card=(clearBits words count).card+1 := by
  have he : clearBits after count=insert bit (clearBits words count) := by
    ext k
    simp only [mem_clearBits,Finset.mem_insert]
    constructor
    · exact fun hk => ((h k hk.1).mp hk.2).elim (fun hc => Or.inr ⟨hk.1,hc⟩) Or.inl
    · rintro (rfl|hk)
      · exact ⟨hb,(h k hb).mpr (Or.inr rfl)⟩
      · exact ⟨hk.1,(h k hk.1).mpr (Or.inl hk.2)⟩
  rw [he,Finset.card_insert_of_notMem (by simp [hset])]

/-- Or-ing a mask into one word takes at most that word's bits out of the
clear set, and puts none in. -/
theorem card_clearBits_orWord (words : Words) (block count : ℕ) (mask : BitVec 64) :
    (clearBits (orWord words block mask) count).card≤(clearBits words count).card ∧
      (clearBits words count).card≤(clearBits (orWord words block mask) count).card+64 := by
  constructor
  · refine Finset.card_le_card (fun k hk => ?_)
    rw [mem_clearBits,bitAt_orWord,Bool.or_eq_false_iff] at hk
    exact mem_clearBits.mpr ⟨hk.1,hk.2.1⟩
  · have hsub : clearBits words count⊆
        clearBits (orWord words block mask) count∪Finset.Ico (64*block) (64*block+64) := by
      intro k hk
      rw [mem_clearBits] at hk
      rw [Finset.mem_union,mem_clearBits,bitAt_orWord,Finset.mem_Ico]
      by_cases hb : k/64=block
      · exact Or.inr (by omega)
      · exact Or.inl ⟨hk.1,by simp [hk.2,hb]⟩
    have hcard := (Finset.card_le_card hsub).trans (Finset.card_union_le _ _)
    rw [Nat.card_Ico,Nat.add_sub_cancel_left] at hcard
    exact hcard

/-- A scan: the result of the first attempt that gives one, from `index` on. -/
def firstSome {β : Type} (attempt : ℕ→Option β) : (remaining index : ℕ)→Option β
  | 0,_ => none
  | remaining+1,index =>
    match attempt index with
    | some value => some value
    | none => firstSome attempt remaining (index+1)

/-- A scan that succeeds does so at the first possible index. -/
theorem firstSome_eq_some {β : Type} {attempt : ℕ→Option β} {remaining index : ℕ} {value : β}
    (h : firstSome attempt remaining index=some value) :
    ∃ k, index≤k ∧ k< index+remaining ∧ attempt k=some value ∧
      ∀ j, index≤j → j<k → attempt j=none := by
  induction remaining generalizing index with
  | zero => cases h
  | succ remaining ih =>
    rw [firstSome] at h
    cases ha : attempt index with
    | some found =>
      rw [ha] at h
      cases h
      exact ⟨index,le_rfl,by omega,ha,fun j hj hk => absurd hk (by omega)⟩
    | none =>
      rw [ha] at h
      obtain ⟨k,hk,hlt,hs,hn⟩ := ih h
      refine ⟨k,by omega,by omega,hs,?_⟩
      intro j hj hjk
      by_cases he : j=index
      · rw [he,ha]
      · exact hn j (by omega) hjk

/-- A scan fails only when every attempt does. -/
theorem firstSome_eq_none {β : Type} {attempt : ℕ→Option β} {remaining index : ℕ} :
    firstSome attempt remaining index=none ↔
      ∀ k, index≤k → k< index+remaining → attempt k=none := by
  induction remaining generalizing index with
  | zero => exact ⟨fun _ k hk hlt => absurd hlt (by omega),fun _ => rfl⟩
  | succ remaining ih =>
    rw [firstSome]
    cases ha : attempt index with
    | some found =>
      refine iff_of_false (by simp) (fun hall => ?_)
      rw [hall index le_rfl (by omega)] at ha
      cases ha
    | none =>
      dsimp only
      rw [ih]
      constructor
      · intro hall k hk hlt
        by_cases he : k=index
        · rw [he,ha]
        · exact hall k (by omega) (by omega)
      · exact fun hall k hk hlt => hall k (by omega) (by omega)

/-- The lowest `count` bits of a word, all ones from 64 on. -/
def lowMask (count : ℕ) : BitVec 64 :=
  if 64≤count then BitVec.allOnes 64 else (1#64 <<< count)-1#64

/-- Bits of a low mask. -/
theorem getLsbD_lowMask {count j : ℕ} (hj : j<64) :
    (lowMask count).getLsbD j=decide (j<count) := by
  unfold lowMask
  split
  · rename_i h
    have hlt : j<count := by omega
    rw [BitVec.getLsbD_allOnes]
    simp only [hj,hlt]
  · rename_i h
    have hpow : 2^count<2^64 := Nat.pow_lt_pow_right (by omega) (by omega)
    have hpos : 0<2^count := Nat.two_pow_pos count
    have hval : ((1#64 <<< count)-1#64).toNat=2^count-1 := by
      rw [BitVec.toNat_sub,BitVec.toNat_shiftLeft,BitVec.toNat_ofNat,Nat.shiftLeft_eq]
      norm_num
      omega
    rw [BitVec.getLsbD,hval,Nat.testBit_two_pow_sub_one]

/-- Bits of a low mask moved up. -/
theorem getLsbD_lowMask_shiftLeft {count shift j : ℕ} (hj : j<64) :
    (lowMask count <<< shift).getLsbD j=decide (shift≤j ∧ j<shift+count) := by
  rw [BitVec.getLsbD_shiftLeft]
  by_cases h : j<shift
  · have hn : ¬shift≤j := by omega
    simp [hj,h,hn]
  · rw [getLsbD_lowMask (by omega)]
    have hle : shift≤j := by omega
    have hiff : j-shift<count ↔ j<shift+count := by omega
    simp [hj,h,hle,hiff]

/-- A shifted low mask meets no bit of a word exactly when those bits are
clear. -/
theorem lowMask_and_eq_zero (word : BitVec 64) {count shift : ℕ} :
    (lowMask count <<< shift) &&& word=0#64 ↔
      ∀ j, j<64 → shift≤j → j<shift+count → word.getLsbD j=false := by
  constructor
  · intro h j hj hs hc
    have hb := congrArg (fun w => w.getLsbD j) h
    simpa [getLsbD_lowMask_shiftLeft hj,hs,hc] using hb
  · intro h
    refine BitVec.eq_of_getLsbD_eq (fun j hj => ?_)
    rw [BitVec.getLsbD_and,getLsbD_lowMask_shiftLeft hj,BitVec.getLsbD_zero]
    by_cases hin : shift≤j ∧ j<shift+count
    · simp [hin,h j hj hin.1 hin.2]
    · simp [hin]

end WorkbenchOS.WordBitmaps
