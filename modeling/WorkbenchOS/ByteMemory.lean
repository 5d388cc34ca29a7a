import Mathlib

/-!
# Byte memories with little-endian words

A memory maps every address to one byte. Words of any width are read and
written least significant byte first, a fill stores one byte over a range
and a copy transfers a range of another memory. Each operation has one
lemma for the bytes it writes and one for the bytes it leaves alone; all
later frame arguments use these and never unfold the operations.
-/

namespace WorkbenchOS.ByteMemory

/-- One byte at every address. -/
abbrev Memory := ℕ→UInt8

/-- The unsigned value of the `count` bytes from `address` on, the first
byte being the least significant one. -/
def readLE (memory : Memory) (address : ℕ) : ℕ→ℕ
  | 0 => 0
  | count+1 => (memory address).toNat+256*readLE memory (address+1) count

/-- Store the low `count` bytes of a value; higher bytes are dropped. -/
def writeLE (memory : Memory) (address count value : ℕ) : Memory :=
  fun x => if address≤x ∧ x<address+count then
    UInt8.ofNat (value/256^(x-address)) else memory x

/-- Store one byte over the whole range, as `memset` does. -/
def fill (memory : Memory) (address count : ℕ) (value : UInt8) : Memory :=
  fun x => if address≤x ∧ x<address+count then value else memory x

/-- Store `count` bytes read from `source` in another (or the same) memory. -/
def copy (memory : Memory) (address : ℕ) (from_ : Memory) (source count : ℕ) : Memory :=
  fun x => if address≤x ∧ x<address+count then from_ (source+(x-address)) else memory x

/-- Store a string of bytes. -/
def storeBytes (memory : Memory) (address : ℕ) (bytes : List UInt8) : Memory :=
  fun x => if address≤x ∧ x<address+bytes.length then bytes.getD (x-address) 0 else memory x

/-- The string of bytes found at an address. -/
def bytesAt (memory : Memory) (address length : ℕ) : List UInt8 :=
  (List.range length).map (fun i => memory (address+i))

/-- The two ranges share no address. -/
def Apart (first firstSize second secondSize : ℕ) : Prop :=
  first+firstSize≤ second ∨ second+secondSize≤first

/-- Every byte of the range is the same in both memories. -/
def Unchanged (before after : Memory) (address count : ℕ) : Prop :=
  ∀ x, address≤x → x<address+count → after x=before x

/-- A word of `count` bytes is below `256^count`. -/
theorem readLE_lt (memory : Memory) (address count : ℕ) :
    readLE memory address count<256^count := by
  induction count generalizing address with
  | zero => simp [readLE]
  | succ count ih =>
    have hb := UInt8.toNat_lt (memory address)
    have ht := ih (address+1)
    rw [readLE,pow_succ]
    omega

/-- Two reads of ranges with the same bytes agree, wherever the ranges are. -/
theorem readLE_relocated {first second : Memory} {source target count : ℕ}
    (h : ∀ k<count, second (target+k)=first (source+k)) :
    readLE second target count=readLE first source count := by
  induction count generalizing source target with
  | zero => rfl
  | succ count ih =>
    have hb : second target=first source := h 0 (Nat.succ_pos count)
    have ht : readLE second (target+1) count=readLE first (source+1) count := by
      refine ih (fun k hk => ?_)
      rw [Nat.add_assoc,Nat.add_assoc,Nat.add_comm 1 k]
      exact h (k+1) (Nat.succ_lt_succ hk)
    simp only [readLE,hb,ht]

/-- A read depends on the bytes of its own range only. -/
theorem readLE_congr {first second : Memory} {address count : ℕ}
    (h : Unchanged first second address count) :
    readLE second address count=readLE first address count := by
  induction count generalizing address with
  | zero => rfl
  | succ count ih =>
    have hb : second address=first address := h address le_rfl (by omega)
    have ht : readLE second (address+1) count=readLE first (address+1) count :=
      ih (fun x hx hy => h x (by omega) (by omega))
    simp only [readLE,hb,ht]

/-- Digit extraction: the bytes written by a store read back as the value
modulo the width, shifted by the digits already consumed. -/
theorem readLE_digits (memory : Memory) (value : ℕ) (address count shift : ℕ)
    (h : ∀ i, i<count → memory (address+i)=UInt8.ofNat (value/256^(shift+i))) :
    readLE memory address count=value/256^shift%256^count := by
  induction count generalizing address shift with
  | zero => simp [readLE,Nat.mod_one]
  | succ count ih =>
    have hb : memory address=UInt8.ofNat (value/256^shift) := by
      simpa only [Nat.add_zero] using h 0 (by omega)
    have ht := ih (address+1) (shift+1) (by
      intro i hi
      have hn := h (i+1) (by omega)
      rw [show address+1+i=address+(i+1) by omega,show shift+1+i=shift+(i+1) by omega]
      exact hn)
    rw [readLE,hb,ht,UInt8.toNat_ofNat']
    rw [pow_succ 256 shift,← Nat.div_div_eq_div_mul,pow_succ' 256 count,Nat.mod_mul]

/-- A word reads back as the value stored, modulo its width. -/
theorem readLE_writeLE_self (memory : Memory) (address count value : ℕ) :
    readLE (writeLE memory address count value) address count=value%256^count := by
  have hd := readLE_digits (writeLE memory address count value) value address count 0 (by
    intro i hi
    have hc : address≤address+i ∧ address+i<address+count := ⟨by omega,by omega⟩
    simp only [writeLE,if_pos hc,Nat.add_sub_cancel_left,Nat.zero_add])
  simpa only [pow_zero,Nat.div_one] using hd

/-- A store leaves every byte outside its own range alone. -/
theorem writeLE_outside (memory : Memory) {address count value x : ℕ}
    (h : x<address ∨ address+count≤x) : writeLE memory address count value x=memory x := by
  have hn : ¬(address≤x ∧ x<address+count) := by omega
  simp only [writeLE,if_neg hn]

/-- So it does with every range apart from its own. -/
theorem writeLE_unchanged (memory : Memory) {address count value first size : ℕ}
    (h : Apart first size address count) :
    Unchanged memory (writeLE memory address count value) first size := by
  intro x hx hy
  refine writeLE_outside memory ?_
  unfold Apart at h
  omega

/-- A read apart from a store sees the memory before it. -/
theorem readLE_writeLE_apart (memory : Memory) {address count value first size : ℕ}
    (h : Apart first size address count) :
    readLE (writeLE memory address count value) first size=readLE memory first size :=
  readLE_congr (writeLE_unchanged memory h)

/-- Every byte of a filled range is the fill byte. -/
theorem fill_inside (memory : Memory) {address count x : ℕ} (value : UInt8)
    (hx : address≤x) (hy : x<address+count) : fill memory address count value x=value := by
  simp only [fill,if_pos (And.intro hx hy)]

/-- A fill leaves every byte outside its own range alone. -/
theorem fill_outside (memory : Memory) {address count x : ℕ} (value : UInt8)
    (h : x<address ∨ address+count≤x) : fill memory address count value x=memory x := by
  have hn : ¬(address≤x ∧ x<address+count) := by omega
  simp only [fill,if_neg hn]

/-- So it does with every range apart from its own. -/
theorem fill_unchanged (memory : Memory) {address count first size : ℕ} (value : UInt8)
    (h : Apart first size address count) :
    Unchanged memory (fill memory address count value) first size := by
  intro x hx hy
  refine fill_outside memory value ?_
  unfold Apart at h
  omega

/-- A word of zero bytes is zero. -/
theorem readLE_zero {memory : Memory} {address count : ℕ}
    (h : ∀ x, address≤x → x<address+count → memory x=0) : readLE memory address count=0 := by
  induction count generalizing address with
  | zero => rfl
  | succ count ih =>
    have hb : memory address=0 := h address le_rfl (by omega)
    have ht := ih (fun x hx hy => h x (by omega) (by omega) : ∀ x, address+1≤x →
      x<address+1+count → memory x=0)
    simp only [readLE,hb,ht]
    rfl

/-- Byte `i` of a copied range is byte `i` of the source range. -/
theorem copy_inside (memory from_ : Memory) {address source count x : ℕ}
    (hx : address≤x) (hy : x<address+count) :
    copy memory address from_ source count x=from_ (source+(x-address)) := by
  simp only [copy,if_pos (And.intro hx hy)]

/-- A copy leaves every byte outside its destination alone. -/
theorem copy_outside (memory from_ : Memory) {address source count x : ℕ}
    (h : x<address ∨ address+count≤x) :
    copy memory address from_ source count x=memory x := by
  have hn : ¬(address≤x ∧ x<address+count) := by omega
  simp only [copy,if_neg hn]

/-- A second copy to the same range undoes the first. -/
theorem copy_copy (memory first second : Memory) (address source source' count : ℕ) :
    copy (copy memory address first source count) address second source' count=
      copy memory address second source' count := by
  funext x
  by_cases hx : address≤x ∧ x<address+count
  · rw [copy_inside _ _ hx.1 hx.2,copy_inside _ _ hx.1 hx.2]
  · rw [copy_outside _ _ (by omega),copy_outside _ _ (by omega),copy_outside _ _ (by omega)]

/-- A byte of a stored string. -/
theorem storeBytes_inside (memory : Memory) (address : ℕ) {bytes : List UInt8} {i : ℕ}
    (hi : i<bytes.length) : storeBytes memory address bytes (address+i)=bytes.getD i 0 := by
  rw [storeBytes,if_pos ⟨by omega,by omega⟩,Nat.add_sub_cancel_left]

/-- Nothing beside a stored string changes. -/
theorem storeBytes_outside (memory : Memory) {address x : ℕ} {bytes : List UInt8}
    (h : ¬(address≤x ∧ x<address+bytes.length)) : storeBytes memory address bytes x=memory x :=
  if_neg h

/-- One byte is a string. -/
theorem fill_eq_storeBytes (memory : Memory) (address : ℕ) (value : UInt8) :
    fill memory address 1 value=storeBytes memory address [value] := by
  funext x
  by_cases hx : address≤x ∧ x<address+1
  · have he : x=address+0 := by omega
    rw [fill_inside _ _ hx.1 hx.2,he,storeBytes_inside _ _ (by simp)]
    rfl
  · rw [fill_outside _ _ (by omega),storeBytes_outside _ (by simpa using hx)]

/-- A string in front of another one. -/
theorem storeBytes_storeBytes (memory : Memory) (address : ℕ) (first second : List UInt8) :
    storeBytes (storeBytes memory (address+first.length) second) address first=
      storeBytes memory address (first++second) := by
  funext x
  by_cases hfirst : address≤x ∧ x<address+first.length
  · obtain ⟨i,rfl⟩ : ∃ i,x=address+i := ⟨x-address,by omega⟩
    rw [storeBytes_inside _ _ (by omega),
      storeBytes_inside _ _ (by rw [List.length_append]; omega),
      List.getD_append _ _ _ _ (by omega)]
  · rw [storeBytes_outside _ hfirst]
    by_cases hsecond : address+first.length≤x ∧ x<address+first.length+second.length
    · obtain ⟨i,rfl⟩ : ∃ i,x=address+first.length+i := ⟨x-(address+first.length),by omega⟩
      rw [storeBytes_inside _ _ (by omega),Nat.add_assoc,
        storeBytes_inside _ _ (by rw [List.length_append]; omega),
        List.getD_append_right _ _ _ _ (Nat.le_add_right _ _),Nat.add_sub_cancel_left]
    · rw [storeBytes_outside _ hsecond,
        storeBytes_outside _ (by rw [List.length_append]; omega)]

/-- A string found is as long as the range. -/
@[simp] theorem length_bytesAt (memory : Memory) (address length : ℕ) :
    (bytesAt memory address length).length=length := by
  rw [bytesAt,List.length_map,List.length_range]

/-- Two ranges with the same bytes hold the same string, wherever they are. -/
theorem bytesAt_relocated {first second : Memory} {source target length : ℕ}
    (h : ∀ i<length, second (target+i)=first (source+i)) :
    bytesAt second target length=bytesAt first source length :=
  List.map_congr_left (fun i hi => h i (List.mem_range.mp hi))

/-- A stored string is found again. -/
theorem bytesAt_storeBytes (memory : Memory) (address : ℕ) (bytes : List UInt8) :
    bytesAt (storeBytes memory address bytes) address bytes.length=bytes := by
  refine List.ext_getElem (length_bytesAt _ _ _) (fun i hi hi' => ?_)
  simp only [bytesAt,List.getElem_map,List.getElem_range]
  rw [storeBytes_inside _ _ hi']
  exact List.getD_eq_getElem bytes 0 hi'

/-- A range in two parts. -/
theorem bytesAt_add (memory : Memory) (address front back : ℕ) :
    bytesAt memory address (front+back)=
      bytesAt memory address front++bytesAt memory (address+front) back := by
  unfold bytesAt
  rw [List.range_add,List.map_append,List.map_map]
  simp only [Function.comp_def,Nat.add_assoc]

/-- A part of an unchanged range is unchanged. -/
theorem Unchanged.mono {before after : Memory} {address count first size : ℕ}
    (h : Unchanged before after address count) (hl : address≤first)
    (hr : first+size≤address+count) : Unchanged before after first size :=
  fun x hx hy => h x (by omega) (by omega)

end WorkbenchOS.ByteMemory
