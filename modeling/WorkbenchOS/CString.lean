import WorkbenchOS.MemoryDevices

/-!
# Copying memory

`memcpy` of `LibStd/CString.cpp`, the copy of `MemoryBlockDevice`, which has
the same body, and `memmove`. The first two take words of eight bytes, of four
or of one, as addresses and length allow, and all three move the same bytes.
`memmove` has the first of these loops only, whatever it is asked to move, and
returns null.
-/

namespace WorkbenchOS.CString

open ByteMemory ByteMoves LibStd FrameBitmap MemoryDevices

/-- `memcpy`: what it returns and the memory it leaves. The loops over words
count with an `int`. -/
def memcpy (destination source num : ℕ) (memory : Memory) : ℕ×Memory :=
  if destination=0 ∨ source=0 then (0,memory)
  else if Aligned 8 destination source num then
    (destination,moved (wordMoves 8 destination source (min (num/8) intIterations)) memory)
  else if Aligned 4 destination source num then
    (destination,moved (wordMoves 4 destination source (min (num/4) intIterations)) memory)
  else (destination,moved (wordMoves 1 destination source num) memory)

/-- `copy` of `MemoryBlockDevice.cpp`, which has the body of `memcpy`. -/
def deviceCopy : ℕ→ℕ→ℕ→Memory→ℕ×Memory := memcpy

/-- `memmove`. -/
def memmove (destination source num : ℕ) (memory : Memory) : ℕ×Memory :=
  (0,if Aligned 8 destination source num then
      moved (wordMoves 8 destination source (min (num/8) intIterations)) memory
    else memory)

/-- The destination has the bytes that the source had, and nothing else
changed. -/
structure CopiesBytes (before after : Memory) (destination source num : ℕ) : Prop where
  /-- `destination[i]` is the old `source[i]`. -/
  copied : ∀ i, i<num → after (u64 (destination+i))=before (u64 (source+i))
  /-- All other bytes. -/
  kept : ∀ x, (∀ i, i<num → x≠u64 (destination+i)) → after x=before x

/-- What a copying function is for: the bytes arrive and the destination is
returned. -/
def Delivers (function : ℕ→ℕ→ℕ→Memory→ℕ×Memory) (memory : Memory)
    (destination source num : ℕ) : Prop :=
  (function destination source num memory).1=destination ∧
    CopiesBytes memory (function destination source num memory).2 destination source num

/-- The moves of `memcpy` are those of the device's model. -/
theorem memcpy_eq {destination source num : ℕ} (memory : Memory) (hd : destination≠0)
    (hs : source≠0) : memcpy destination source num memory=
      (destination,moved (memcpyMoves destination source num) memory) := by
  have hnull : ¬(destination=0 ∨ source=0) := not_or.mpr ⟨hd,hs⟩
  unfold memcpy memcpyMoves
  rw [if_neg hnull,if_neg hnull]
  split_ifs <;> rfl

/-- Between ranges that are apart `memcpy` is a copy. -/
theorem memcpy_copy {destination source num : ℕ} (memory : Memory) (hd : destination≠0)
    (hs : source≠0) (hdestination : destination+num≤2^64) (hsource : source+num≤2^64)
    (hnum : num<2^31) (h : Apart destination num source num) :
    memcpy destination source num memory=
      (destination,copy memory destination memory source num) := by
  have hcounted : copiedBytes destination source num=num := by
    refine (copiedBytes_eq_iff destination source num).mpr ⟨fun _ => ?_,fun _ _ => ?_⟩
    · unfold intIterations
      omega
    · unfold intIterations
      omega
  rw [memcpy_eq memory hd hs,moved_memcpyMoves (Nat.pos_of_ne_zero hd) (Nat.pos_of_ne_zero hs)
    hdestination hsource h,hcounted]

section Words

variable {width destination source num count : ℕ}

/-- Words of these widths that begin at a multiple of it do not wrap. -/
theorem u64_add_of_aligned {address i : ℕ} (hw : width=8 ∨ width=4 ∨ width=1)
    (h : address%width=0) (hi : i<width) : u64 (address+i)=u64 address+i := by
  unfold u64
  rcases hw with rfl|rfl|rfl <;> omega

/-- The words of an aligned range are aligned. -/
theorem u64_aligned {address i : ℕ} (hw : width=8 ∨ width=4 ∨ width=1)
    (h : address%width=0) : u64 (address+i*width)%width=0 := by
  unfold u64
  rcases hw with rfl|rfl|rfl <;> omega

/-- Aligned words at different addresses do not overlap. -/
theorem apart_of_aligned {first second : ℕ} (hw : width=8 ∨ width=4 ∨ width=1)
    (hf : first%width=0) (hs : second%width=0) (hne : first≠second) :
    Apart first width second width := by
  unfold Apart
  rcases hw with rfl|rfl|rfl <;> omega

/-- Between disjoint ranges no word is loaded or stored where another one was
stored. -/
theorem independent_wordMoves (hw : width=8 ∨ width=4 ∨ width=1) (hd : destination%width=0)
    (hs : source%width=0) (hcount : count*width<2^31)
    (hdisjoint : ∀ i, i<count → ∀ j, j<count →
      u64 (destination+i*width)≠u64 (source+j*width)) :
    Independent (wordMoves width destination source count) := by
  refine List.pairwise_map.mpr (List.pairwise_lt_range.imp_of_mem ?_)
  intro i j hi hj hlt
  have hlast := List.mem_range.mp hj
  have hne : u64 (destination+i*width)≠u64 (destination+j*width) := by
    unfold u64
    rcases hw with rfl|rfl|rfl <;> omega
  exact ⟨apart_of_aligned hw (u64_aligned hw hd) (u64_aligned hw hs)
      (hdisjoint i (List.mem_range.mp hi) j hlast),
    apart_of_aligned hw (u64_aligned hw hd) (u64_aligned hw hd) hne⟩

/-- A byte of a range, as a byte of one of its words. -/
theorem u64_add_word {address k : ℕ} (hw : width=8 ∨ width=4 ∨ width=1)
    (h : address%width=0) : u64 (address+k)=u64 (address+k/width*width)+k%width := by
  unfold u64
  rcases hw with rfl|rfl|rfl <;> omega

/-- The loop over words of one width copies the bytes. -/
theorem wordMoves_copies (hw : width=8 ∨ width=4 ∨ width=1) (h : Aligned width destination source num)
    (hnum : num<2^31) (hdisjoint : ∀ i, i<num → ∀ j, j<num →
      u64 (destination+i)≠u64 (source+j)) (memory : Memory) :
    CopiesBytes memory (moved (wordMoves width destination source (num/width)) memory) destination
      source num := by
  obtain ⟨hs,hd,hn⟩ := h
  have hpos : 0<width := by omega
  have hwords : num/width*width=num := Nat.div_mul_cancel (Nat.dvd_of_mod_eq_zero hn)
  have hinside : ∀ i, i<num/width → i*width+width≤num := by
    intro i hi
    rw [← Nat.succ_mul,← hwords]
    exact Nat.mul_le_mul_right width hi
  have hindependent := @independent_wordMoves width destination source (num/width) hw hd hs
    (by omega) (fun i hi j hj => hdisjoint _ (by have := hinside i hi; omega) _
      (by have := hinside j hj; omega))
  refine ⟨fun k hk => ?_,fun x hx => moved_outside (fun move hm => ?_) memory⟩
  · have hdiv : k/width<num/width := (Nat.div_lt_iff_lt_mul hpos).mpr (by omega)
    have hmove : (⟨u64 (destination+k/width*width),u64 (source+k/width*width),width⟩ : Move)∈
        wordMoves width destination source (num/width) :=
      List.mem_map.mpr ⟨_,List.mem_range.mpr hdiv,rfl⟩
    rw [u64_add_word hw hd,u64_add_word hw hs]
    exact moved_inside hindependent hmove (Nat.mod_lt k hpos) memory
  · obtain ⟨i,hi,rfl⟩ := List.mem_map.mp hm
    have hlast := hinside i (List.mem_range.mp hi)
    dsimp only
    by_contra hin
    obtain ⟨r,rfl⟩ : ∃ r,x=u64 (destination+i*width)+r := ⟨x-u64 (destination+i*width),by omega⟩
    refine hx (i*width+r) (by omega) ?_
    have haligned : (destination+i*width)%width=0 := by
      rw [Nat.add_mul_mod_self_right]
      exact hd
    rw [← Nat.add_assoc]
    exact (u64_add_of_aligned hw haligned (by omega)).symm

/-- `memcpy` and the copy of the block device deliver the bytes of one range to
a disjoint one, whichever loop the alignment selects. -/
theorem memcpy_delivers (hd : destination≠0) (hs : source≠0) (hnum : num<2^31)
    (hdisjoint : ∀ i, i<num → ∀ j, j<num → u64 (destination+i)≠u64 (source+j))
    (memory : Memory) :
    Delivers memcpy memory destination source num ∧
      Delivers deviceCopy memory destination source num := by
  have hboth : Delivers memcpy memory destination source num := by
    unfold Delivers memcpy
    rw [if_neg (not_or.mpr ⟨hd,hs⟩)]
    by_cases height : Aligned 8 destination source num
    · rw [if_pos height,min_eq_left (by unfold intIterations; omega)]
      exact ⟨rfl,wordMoves_copies (Or.inl rfl) height hnum hdisjoint memory⟩
    · rw [if_neg height]
      by_cases hfour : Aligned 4 destination source num
      · rw [if_pos hfour,min_eq_left (by unfold intIterations; omega)]
        exact ⟨rfl,wordMoves_copies (Or.inr (Or.inl rfl)) hfour hnum hdisjoint memory⟩
      · rw [if_neg hfour]
        have hbytes := wordMoves_copies (Or.inr (Or.inr rfl))
          ⟨Nat.mod_one _,Nat.mod_one _,Nat.mod_one _⟩ hnum hdisjoint memory
        rw [Nat.div_one] at hbytes
        exact ⟨rfl,hbytes⟩
  exact ⟨hboth,hboth⟩

/-- Twelve bytes in three words. -/
theorem memcpy_delivers_words : Delivers memcpy (fun x => x.toUInt8) 0x1004 0x2000 12 ∧
    Delivers deviceCopy (fun x => x.toUInt8) 0x1004 0x2000 12 := by
  refine memcpy_delivers (by decide) (by decide) (by decide) (fun i hi j hj => ?_) _
  rw [u64_of_lt (by omega),u64_of_lt (by omega)]
  omega

/-- `memmove` delivers only to the null address, and there only aligned words
or bytes that it has already. -/
theorem memmove_delivers_iff (hnum : num<2^31) (hend : source+num≤2^64) (memory : Memory) :
    Delivers memmove memory destination source num ↔ destination=0 ∧
      (source%8=0 ∧ num%8=0 ∨ ∀ i, i<num → memory i=memory (source+i)) := by
  constructor
  · rintro ⟨hnull,hbytes⟩
    have hzero : destination=0 := hnull.symm
    subst hzero
    refine ⟨rfl,?_⟩
    by_cases haligned : Aligned 8 0 source num
    · exact Or.inl ⟨haligned.1,haligned.2.2⟩
    · unfold memmove at hbytes
      rw [if_neg haligned] at hbytes
      refine Or.inr (fun i hi => ?_)
      have hbyte := hbytes.copied i hi
      rwa [Nat.zero_add,u64_of_lt (by omega),u64_of_lt (by omega)] at hbyte
  · rintro ⟨rfl,hor⟩
    refine ⟨rfl,?_⟩
    unfold memmove
    by_cases haligned : Aligned 8 0 source num
    · -- towards the null address the loop moves downwards
      have hwords : num/8*8=num := Nat.div_mul_cancel (Nat.dvd_of_mod_eq_zero haligned.2.2)
      rw [if_pos haligned,min_eq_left (by unfold intIterations; omega),
        wordMoves_eq (by decide) hwords.le (by omega) hend,
        moved_series (by decide) (Or.inl (Nat.zero_le _)),hwords]
      dsimp only
      refine ⟨fun i hi => ?_,fun x hx => copy_outside _ _ (Or.inr ?_)⟩
      · rw [u64_of_lt (by omega),u64_of_lt (by omega),copy_inside _ _ (by omega) (by omega),
          Nat.zero_add,Nat.sub_zero]
      · by_contra hlt
        refine hx x (by omega) ?_
        rw [Nat.zero_add,u64_of_lt (by omega)]
    · rw [if_neg haligned]
      have hsame := hor.resolve_left (fun h => haligned ⟨h.1,Nat.zero_mod 8,h.2⟩)
      refine ⟨fun i hi => ?_,fun _ _ => rfl⟩
      rw [Nat.zero_add,u64_of_lt (by omega),u64_of_lt (by omega)]
      exact hsame i hi

/-- Two words to the null address. -/
theorem memmove_delivers_null : Delivers memmove (fun x => x.toUInt8) 0 8 16 :=
  (memmove_delivers_iff (by decide) (by decide) _).mpr ⟨rfl,Or.inl (by decide)⟩

/-- To any other address null is returned, and four bytes are not moved. -/
theorem memmove_not_always_delivers : ¬∀ memory destination source num, num<2^31 →
    destination+num≤2^64 → source+num≤2^64 → Delivers memmove memory destination source num := by
  intro h
  obtain ⟨hreturned,-⟩ := h (fun x => x.toUInt8) 0x1000 0x2001 4 (by decide) (by decide) (by decide)
  cases hreturned

end Words

end WorkbenchOS.CString
