import WorkbenchOS.ByteMoves
import WorkbenchOS.FrameBitmap
import WorkbenchOS.RamdiskFS

/-!
# The block device in memory

`MemoryBlockDevice` tests the end of a request after adding offset and size in
64 bits, so a request may begin far behind the storage and end in front of it.
The test of `write` also refuses what ends exactly with the device. Both copy
in words where everything is aligned, and count these with an `int`.
-/

namespace WorkbenchOS.MemoryDevices

open ByteMemory ByteMoves LibStd FrameBitmap

/-- Both addresses and the number of bytes are multiples of the width. -/
def Aligned (width destination source num : ℕ) : Prop :=
  source%width=0 ∧ destination%width=0 ∧ num%width=0

instance (width destination source num : ℕ) : Decidable (Aligned width destination source num) :=
  inferInstanceAs (Decidable (_ ∧ _))

/-- One of the loops of `memcpy`: `dst[i] = src[i]`. -/
def wordMoves (width destination source count : ℕ) : List Move :=
  (List.range count).map
    (fun i => ⟨u64 (destination+i*width),u64 (source+i*width),width⟩)

/-- The loads and stores of `memcpy`. The loops over words have a counter of
type `int`, the one over bytes a `size_t`. -/
def memcpyMoves (destination source num : ℕ) : List Move :=
  if destination=0 ∨ source=0 then []
  else if Aligned 8 destination source num then
    wordMoves 8 destination source (min (num/8) intIterations)
  else if Aligned 4 destination source num then
    wordMoves 4 destination source (min (num/4) intIterations)
  else wordMoves 1 destination source num

/-- Those of `copy`, which has the body of `memcpy`. -/
def copyMoves : ℕ→ℕ→ℕ→List Move := memcpyMoves

/-- The fields of `MemoryBlockDevice`. -/
structure MemoryBlockDevice where
  /-- `m_address`. -/
  address : ℕ
  /-- `m_size`. -/
  size : ℕ
  /-- An address has 64 bits. -/
  address_lt : address<2^64
  /-- So has a size. -/
  size_lt : size<2^64

/-- The arguments of a call. -/
structure Request where
  /-- `offset`. -/
  offset : ℕ
  /-- `size`. -/
  size : ℕ
  /-- `buffer`. -/
  buffer : ℕ
  /-- An offset has 64 bits. -/
  offset_lt : offset<2^64
  /-- So has a size. -/
  size_lt : size<2^64

/-- What a call returns and does. -/
structure Outcome where
  /-- The result. -/
  result : Except Error Unit
  /-- The memory afterwards. -/
  memory : Memory
  /-- The loads and stores it made. -/
  moves : List Move

/-- `MemoryBlockDevice::read`. -/
def MemoryBlockDevice.read (device : MemoryBlockDevice) (memory : Memory) (request : Request) :
    Outcome :=
  let source := device.address
  if u64 (request.offset+request.size)>device.size then ⟨.error (.fromCode 1),memory,[]⟩
  else
    let moves := copyMoves request.buffer (u64 (source+request.offset)) request.size
    ⟨.ok (),moved moves memory,moves⟩

/-- `MemoryBlockDevice::write`. -/
def MemoryBlockDevice.write (device : MemoryBlockDevice) (memory : Memory) (request : Request) :
    Outcome :=
  let destination := u64 (device.address+request.offset)
  if u64 (request.offset+request.size)≥device.size then ⟨.error (.fromCode 1),memory,[]⟩
  else
    let moves := memcpyMoves destination request.buffer request.size
    ⟨.ok (),moved moves memory,moves⟩

/-- The two operations. -/
inductive Operation where
  /-- `read`. -/
  | read
  /-- `write`. -/
  | write

/-- A call. -/
def perform (device : MemoryBlockDevice) (memory : Memory) (request : Request) :
    Operation→Outcome
  | .read => device.read memory request
  | .write => device.write memory request

/-- The side of a move that is the device's, by its first address. -/
def deviceSide (move : Move) : Operation→ℕ
  | .read => move.source
  | .write => move.target

/-- The addresses of the bytes of the device that a call has touched. -/
def touched (operation : Operation) (moves : List Move) : List ℕ :=
  moves.flatMap (fun move => (List.range move.width).map
    (fun i => u64 (deviceSide move operation+i)))

/-- A call stays in the storage, or is refused. -/
structure StaysInStorage (device : MemoryBlockDevice) (memory : Memory) (request : Request)
    (operation : Operation) : Prop where
  /-- A successful call touches bytes of the storage only. -/
  inside : (perform device memory request operation).result=.ok () →
    ∀ address∈touched operation (perform device memory request operation).moves,
      u64Sub address device.address<device.size
  /-- A request for any other byte fails, and nothing changes. -/
  refused : (∃ i<request.size,device.size≤request.offset+i) →
    (∃ error,(perform device memory request operation).result=.error error) ∧
      (perform device memory request operation).memory=memory

/-- The test of the operation refuses a request that ends there. -/
def PastEnd (device : MemoryBlockDevice) (stop : ℕ) : Operation→Prop
  | .read => device.size< stop
  | .write => device.size≤ stop

section Moves

variable {destination source num : ℕ}

/-- A loop over words stays in the ranges. -/
theorem mem_wordMoves {width count : ℕ} {move : Move} (hle : count*width≤num)
    (h : move∈wordMoves width destination source count) :
    ∃ k,k+move.width≤num ∧ move.target=u64 (destination+k) ∧ move.source=u64 (source+k) := by
  obtain ⟨i,hi,rfl⟩ := List.mem_map.mp h
  have hlast : (i+1)*width≤count*width :=
    Nat.mul_le_mul_right width (Nat.succ_le_of_lt (List.mem_range.mp hi))
  rw [Nat.succ_mul] at hlast
  exact ⟨i*width,hlast.trans hle,rfl,rfl⟩

/-- So does every move of `memcpy`. -/
theorem mem_memcpyMoves {move : Move} (h : move∈memcpyMoves destination source num) :
    ∃ k,k+move.width≤num ∧ move.target=u64 (destination+k) ∧ move.source=u64 (source+k) := by
  unfold memcpyMoves at h
  split_ifs at h
  · cases h
  · exact mem_wordMoves (by omega) h
  · exact mem_wordMoves (by omega) h
  · exact mem_wordMoves (by omega) h

end Moves

section Storage

variable {device : MemoryBlockDevice} {memory : Memory} {request : Request}
  {operation : Operation}

/-- The test decides. -/
theorem perform_result (device : MemoryBlockDevice) (memory : Memory) (request : Request)
    (operation : Operation) :
    (PastEnd device (u64 (request.offset+request.size)) operation ∧
      perform device memory request operation=⟨.error (.fromCode 1),memory,[]⟩) ∨
    ¬PastEnd device (u64 (request.offset+request.size)) operation ∧
      (perform device memory request operation).result=.ok () := by
  cases operation with
  | read =>
    rw [perform,MemoryBlockDevice.read,PastEnd]
    by_cases hpast : device.size<u64 (request.offset+request.size)
    · exact Or.inl ⟨hpast,if_pos hpast⟩
    · exact Or.inr ⟨hpast,by dsimp only; rw [if_neg hpast]⟩
  | write =>
    rw [perform,MemoryBlockDevice.write,PastEnd]
    by_cases hpast : device.size≤u64 (request.offset+request.size)
    · exact Or.inl ⟨hpast,by dsimp only; exact if_pos hpast⟩
    · exact Or.inr ⟨hpast,by dsimp only; rw [if_neg hpast]⟩

/-- The device's side of a move of a call is in the range requested. -/
theorem deviceSide_eq {move : Move}
    (h : move∈(perform device memory request operation).moves) :
    ∃ k,k+move.width≤request.size ∧
      deviceSide move operation=u64 (u64 (device.address+request.offset)+k) := by
  cases operation with
  | read =>
    rw [perform,MemoryBlockDevice.read] at h
    dsimp only at h
    split_ifs at h
    · cases h
    · obtain ⟨k,hk,-,hsource⟩ := mem_memcpyMoves h
      exact ⟨k,hk,hsource⟩
  | write =>
    rw [perform,MemoryBlockDevice.write] at h
    dsimp only at h
    split_ifs at h
    · cases h
    · obtain ⟨k,hk,htarget,-⟩ := mem_memcpyMoves h
      exact ⟨k,hk,htarget⟩

/-- A byte touched is one of the range requested, as an index of the device. -/
theorem touched_index {address : ℕ}
    (h : address∈touched operation (perform device memory request operation).moves) :
    ∃ i<request.size,u64Sub address device.address=u64 (request.offset+i) := by
  obtain ⟨move,hmove,hbyte⟩ := List.mem_flatMap.mp h
  obtain ⟨j,hj,rfl⟩ := List.mem_map.mp hbyte
  obtain ⟨k,hk,hside⟩ := deviceSide_eq hmove
  have hlt := List.mem_range.mp hj
  have haddress := device.address_lt
  refine ⟨k+j,by omega,?_⟩
  rw [hside]
  unfold u64Sub u64
  omega

end Storage

/-- A call stays in the storage or is refused, whatever the memory holds,
exactly when offset and size do not wrap, or their sum in 64 bits is refused
all the same. -/
theorem staysInStorage_iff (device : MemoryBlockDevice) (memory : Memory) (request : Request)
    (operation : Operation) :
    StaysInStorage device memory request operation ↔
      request.offset+request.size<2^64 ∨
        PastEnd device (u64 (request.offset+request.size)) operation := by
  have hoffset := request.offset_lt
  have hsize := device.size_lt
  rcases perform_result device memory request operation with ⟨hpast,hperform⟩|⟨haccepted,hresult⟩
  · refine iff_of_true ⟨fun hok => ?_,fun _ => ?_⟩ (Or.inr hpast)
    · rw [hperform] at hok
      cases hok
    · rw [hperform]
      exact ⟨⟨_,rfl⟩,rfl⟩
  · constructor
    · intro h
      by_contra hwraps
      obtain ⟨hwrap,-⟩ := not_or.mp hwraps
      -- the last byte of a range that wraps is behind the storage
      obtain ⟨⟨error,herror⟩,-⟩ := h.refused ⟨request.size-1,by omega,by omega⟩
      rw [hresult] at herror
      cases herror
    · rintro (hfits|hpast)
      · have hend : request.offset+request.size≤device.size := by
          rw [u64_of_lt hfits] at haccepted
          cases operation with
          | read => exact Nat.not_lt.mp haccepted
          | write => exact (Nat.not_le.mp haccepted).le
        refine ⟨fun _ address haddress => ?_,?_⟩
        · obtain ⟨i,hi,hindex⟩ := touched_index haddress
          rw [hindex,u64_of_lt (by omega)]
          omega
        · rintro ⟨i,hi,hbehind⟩
          omega
      · exact absurd hpast haccepted

/-- A device of sixteen bytes. -/
def sampleDevice : MemoryBlockDevice := ⟨0x1000,16,by decide,by decide⟩

/-- A request for the eight bytes in front of it. -/
def sampleRequest : Request := ⟨2^64-8,8,0x2000,by decide,by decide⟩

/-- Eight bytes in front of the device are read, and written. -/
theorem not_always_staysInStorage :
    ¬StaysInStorage sampleDevice (fun _ => 0) sampleRequest .read ∧
    ¬StaysInStorage sampleDevice (fun _ => 0) sampleRequest .write ∧
    (sampleDevice.write (fun _ => 0) sampleRequest).moves=[⟨0xff8,0x2000,8⟩] := by
  refine ⟨fun h => ?_,fun h => ?_,by decide⟩
  · exact absurd (h.inside rfl 0xff8 (by decide)) (by decide)
  · exact absurd (h.inside rfl 0xff8 (by decide)) (by decide)

/-- The storage of a device is in the address space, and not at address zero. -/
structure Placed (device : MemoryBlockDevice) : Prop where
  /-- It is not a null pointer. -/
  address_pos : 0<device.address
  /-- It ends in the address space. -/
  end_le : device.address+device.size≤2^64

/-- A buffer of a caller. -/
structure Buffer (device : MemoryBlockDevice) (address size : ℕ) : Prop where
  /-- It is not a null pointer. -/
  address_pos : 0<address
  /-- It ends in the address space. -/
  end_le : address+size≤2^64
  /-- It is apart from the storage. -/
  apart : Apart device.address device.size address size

/-- A write is followed by reads. -/
structure WriteThenRead (device : MemoryBlockDevice) (memory : Memory) (request : Request)
    (target : ℕ) : Prop where
  /-- It succeeds. -/
  success : (device.write memory request).result=.ok ()
  /-- A read of the range, with whatever the callers have done to the rest of the
  memory, returns the bytes written. -/
  reads : ∀ later,
    Unchanged (device.write memory request).memory later device.address device.size →
    (device.read later {request with buffer := target}).result=.ok () ∧
    ∀ k<request.size,(device.read later {request with buffer := target}).memory (target+k)=
      memory (request.buffer+k)
  /-- A read of a disjoint range returns what it would have returned before. -/
  others : ∀ other : Request,other.offset+other.size<2^64 →
    Apart request.offset request.size other.offset other.size →
    Buffer device other.buffer other.size →
    (device.read (device.write memory request).memory other).result=
      (device.read memory other).result ∧
    ∀ k<other.size,
      (device.read (device.write memory request).memory other).memory (other.buffer+k)=
        (device.read memory other).memory (other.buffer+k)

/-- The counter of the loop that is taken can count the words. -/
def Counted (destination source num : ℕ) : Prop :=
  (Aligned 8 destination source num → num≤8*intIterations) ∧
  (¬Aligned 8 destination source num → Aligned 4 destination source num → num≤4*intIterations)

instance (destination source num : ℕ) : Decidable (Counted destination source num) :=
  inferInstanceAs (Decidable (_ ∧ _))

/-- The bytes the loop copies. -/
def copiedBytes (destination source num : ℕ) : ℕ :=
  if Aligned 8 destination source num then min (num/8) intIterations*8
  else if Aligned 4 destination source num then min (num/4) intIterations*4
  else num

section Copies

variable {destination source num : ℕ}

/-- They are all bytes when the counter can count them. -/
theorem copiedBytes_eq_iff (destination source num : ℕ) :
    copiedBytes destination source num=num ↔ Counted destination source num := by
  unfold copiedBytes Counted
  by_cases height : Aligned 8 destination source num
  · have hmod := height.2.2
    simp only [height,if_true,true_implies,not_true,false_implies,and_true]
    omega
  · by_cases hfour : Aligned 4 destination source num
    · have hmod := hfour.2.2
      simp only [height,hfour,if_true,if_false,true_implies,not_false_iff,false_implies,true_and]
      omega
    · simp only [height,hfour,if_false,false_implies,implies_true,and_true]

/-- Never more than asked for. -/
theorem copiedBytes_le (destination source num : ℕ) :
    copiedBytes destination source num≤num := by
  unfold copiedBytes
  split_ifs
  · omega
  · omega
  · exact le_rfl

/-- Pointers that do not wrap are those of a series. -/
theorem wordMoves_eq {width count : ℕ} (hwidth : 0<width) (hle : count*width≤num)
    (hdestination : destination+num≤2^64) (hsource : source+num≤2^64) :
    wordMoves width destination source count=series width destination source count := by
  refine List.map_congr_left (fun i hi => ?_)
  have hlast : (i+1)*width≤count*width :=
    Nat.mul_le_mul_right width (Nat.succ_le_of_lt (List.mem_range.mp hi))
  rw [Nat.succ_mul] at hlast
  rw [u64_of_lt (by omega),u64_of_lt (by omega)]

/-- `memcpy` between ranges that are apart. -/
theorem moved_memcpyMoves (hdestination : 0<destination) (hsource : 0<source)
    (hdestinationEnd : destination+num≤2^64) (hsourceEnd : source+num≤2^64)
    (h : Apart destination num source num) (memory : Memory) :
    moved (memcpyMoves destination source num) memory=
      copy memory destination memory source (copiedBytes destination source num) := by
  have hseries : ∀ width count,0<width → count*width≤num →
      moved (wordMoves width destination source count) memory=
        copy memory destination memory source (count*width) := by
    intro width count hwidth hle
    rw [wordMoves_eq hwidth hle hdestinationEnd hsourceEnd]
    refine moved_series hwidth ?_ memory
    unfold Apart at h
    omega
  unfold memcpyMoves copiedBytes
  rw [if_neg (by omega)]
  split_ifs
  · exact hseries 8 _ (by decide) (by omega)
  · exact hseries 4 _ (by decide) (by omega)
  · rw [hseries 1 num (by decide) (by omega),Nat.mul_one]

/-- No byte to copy. -/
theorem memcpyMoves_zero (destination source : ℕ) : memcpyMoves destination source 0=[] := by
  have hnone : ∀ width count,count=0 → wordMoves width destination source count=[] := by
    rintro width count rfl
    rfl
  unfold memcpyMoves
  split_ifs
  · rfl
  · exact hnone 8 _ (by omega)
  · exact hnone 4 _ (by omega)
  · exact hnone 1 _ rfl

end Copies

section Ranges

variable {device : MemoryBlockDevice} {memory : Memory} {request : Request}

/-- A part of the storage is apart from a buffer. -/
theorem Buffer.apart_part {address size : ℕ} (h : Buffer device address size) {offset count : ℕ}
    (hle : offset+count≤device.size) :
    Apart (device.address+offset) count address size := by
  have hapart := h.apart
  unfold Apart at hapart ⊢
  omega

/-- A read in the storage copies it to the buffer. -/
theorem read_eq (hdevice : Placed device) (hbuffer : Buffer device request.buffer request.size)
    (hle : request.offset+request.size≤device.size) (memory : Memory) :
    (device.read memory request).result=.ok () ∧
      (device.read memory request).memory=
        copy memory request.buffer memory (device.address+request.offset)
          (copiedBytes request.buffer (device.address+request.offset) request.size) := by
  have hsize := device.size_lt
  have hend := hdevice.end_le
  have hpos := hdevice.address_pos
  have hend' := hbuffer.end_le
  have hapart := hbuffer.apart_part hle
  rw [MemoryBlockDevice.read,u64_of_lt (show request.offset+request.size<2^64 by omega)]
  dsimp only
  rw [if_neg (Nat.not_lt.mpr hle),copyMoves]
  refine ⟨rfl,?_⟩
  dsimp only
  by_cases hzero : request.size=0
  · have hnone := copiedBytes_le request.buffer (device.address+request.offset) 0
    funext x
    rw [hzero,memcpyMoves_zero,copy_outside _ _ (by omega)]
    rfl
  · rw [u64_of_lt (by omega)]
    refine moved_memcpyMoves hbuffer.address_pos (by omega) hend' (by omega) ?_ memory
    unfold Apart at hapart ⊢
    omega

/-- A read behind the storage is refused. -/
theorem read_refused (hlt : request.offset+request.size<2^64)
    (h : device.size<request.offset+request.size) (memory : Memory) :
    device.read memory request=⟨.error (.fromCode 1),memory,[]⟩ := by
  rw [MemoryBlockDevice.read,u64_of_lt hlt]
  exact if_pos h

/-- A write below the end of the storage copies the buffer to it. -/
theorem write_eq (hdevice : Placed device) (hbuffer : Buffer device request.buffer request.size)
    (hlt : request.offset+request.size<device.size) (memory : Memory) :
    (device.write memory request).result=.ok () ∧
      (device.write memory request).memory=
        copy memory (device.address+request.offset) memory request.buffer
          (copiedBytes (device.address+request.offset) request.buffer request.size) := by
  have hsize := device.size_lt
  have hend := hdevice.end_le
  have hpos := hdevice.address_pos
  rw [MemoryBlockDevice.write,u64_of_lt (show request.offset+request.size<2^64 by omega),
    u64_of_lt (show device.address+request.offset<2^64 by omega)]
  dsimp only
  rw [if_neg (Nat.not_le.mpr hlt)]
  exact ⟨rfl,moved_memcpyMoves (by omega) hbuffer.address_pos (by omega) hbuffer.end_le
    (hbuffer.apart_part hlt.le) memory⟩

/-- One that ends with the storage, or behind it, is refused. -/
theorem write_refused (hlt : request.offset+request.size<2^64)
    (h : device.size≤request.offset+request.size) (memory : Memory) :
    device.write memory request=⟨.error (.fromCode 1),memory,[]⟩ := by
  rw [MemoryBlockDevice.write,u64_of_lt hlt]
  exact if_pos h

/-- Reads of a disjoint range do not see a write. -/
theorem read_others (hdevice : Placed device) (hbuffer : Buffer device request.buffer request.size)
    (hlt : request.offset+request.size<device.size) (memory : Memory) {other : Request}
    (hother : other.offset+other.size<2^64)
    (hapart : Apart request.offset request.size other.offset other.size)
    (hotherBuffer : Buffer device other.buffer other.size) :
    (device.read (device.write memory request).memory other).result=
      (device.read memory other).result ∧
    ∀ k<other.size,
      (device.read (device.write memory request).memory other).memory (other.buffer+k)=
        (device.read memory other).memory (other.buffer+k) := by
  have hwritten := copiedBytes_le (device.address+request.offset) request.buffer request.size
  have hbufferApart := hotherBuffer.apart
  unfold Apart at hapart hbufferApart
  rw [(write_eq hdevice hbuffer hlt memory).2]
  by_cases hle : other.offset+other.size≤device.size
  · obtain ⟨hresult,hmemory⟩ := read_eq hdevice hotherBuffer hle
      (copy memory (device.address+request.offset) memory request.buffer
        (copiedBytes (device.address+request.offset) request.buffer request.size))
    obtain ⟨hresult',hmemory'⟩ := read_eq hdevice hotherBuffer hle memory
    refine ⟨hresult.trans hresult'.symm,fun k hk => ?_⟩
    rw [hmemory,hmemory']
    by_cases hcopied : k<copiedBytes other.buffer (device.address+other.offset) other.size
    · rw [copy_inside _ _ (by omega) (by omega),copy_outside _ _ (by omega),
        copy_inside _ _ (by omega) (by omega)]
    · rw [copy_outside _ _ (by omega),copy_outside _ _ (by omega),copy_outside _ _ (by omega)]
  · rw [read_refused hother (by omega),read_refused hother (by omega)]
    exact ⟨rfl,fun k hk => copy_outside _ _ (by omega)⟩

/-- What a read of the range returns after a write: what was written as far as
both loops went, then what was there before. -/
theorem read_written (hdevice : Placed device) (hbuffer : Buffer device request.buffer request.size)
    (hlt : request.offset+request.size<device.size) {target : ℕ}
    (htarget : Buffer device target request.size) (memory : Memory) {later : Memory}
    (hlater : Unchanged (device.write memory request).memory later device.address device.size)
    {k : ℕ} (hk : k<request.size) :
    (device.read later {request with buffer := target}).memory (target+k)=
      if k<copiedBytes target (device.address+request.offset) request.size then
        if k<copiedBytes (device.address+request.offset) request.buffer request.size then
          memory (request.buffer+k)
        else memory (device.address+request.offset+k)
      else later (target+k) := by
  have hread := (@read_eq device {request with buffer := target} hdevice htarget hlt.le later).2
  have hstored := hlater (device.address+request.offset+k) (by omega) (by omega)
  rw [(write_eq hdevice hbuffer hlt memory).2] at hstored
  rw [hread]
  dsimp only
  by_cases hcopied : k<copiedBytes target (device.address+request.offset) request.size
  · rw [if_pos hcopied,copy_inside _ _ (by omega) (by omega),Nat.add_sub_cancel_left,hstored]
    by_cases hwritten :
        k<copiedBytes (device.address+request.offset) request.buffer request.size
    · rw [if_pos hwritten,copy_inside _ _ (by omega) (by omega),Nat.add_sub_cancel_left]
    · rw [if_neg hwritten,copy_outside _ _ (by omega)]
  · rw [if_neg hcopied,copy_outside _ _ (by omega)]

/-- If every memory allows a write to be read back, both loops get to every byte
of the range. -/
theorem copied_of_writeThenRead (hdevice : Placed device)
    (hbuffer : Buffer device request.buffer request.size)
    (hlt : request.offset+request.size<device.size) {target : ℕ}
    (htarget : Buffer device target request.size)
    (h : ∀ memory,WriteThenRead device memory request target) {j : ℕ} (hj : j<request.size) :
    j<copiedBytes target (device.address+request.offset) request.size ∧
      j<copiedBytes (device.address+request.offset) request.buffer request.size := by
  -- byte j is one in the buffer, and zero everywhere else
  obtain ⟨memory,hmemory⟩ : ∃ memory : Memory,
      memory=fun x => if x=request.buffer+j then 1 else 0 := ⟨_,rfl⟩
  obtain ⟨later,hlater⟩ : ∃ later : Memory,later=fun x =>
      if device.address≤x ∧ x<device.address+device.size then
        (device.write memory request).memory x
      else 0 := ⟨_,rfl⟩
  have hkept : Unchanged (device.write memory request).memory later device.address
      device.size := by
    intro x hlow hhigh
    rw [hlater]
    exact if_pos ⟨hlow,hhigh⟩
  have hread := ((h memory).reads later hkept).2 j hj
  rw [read_written hdevice hbuffer hlt htarget memory hkept hj] at hread
  have hone : memory (request.buffer+j)=1 := by
    rw [hmemory]
    exact if_pos rfl
  have hapart := hbuffer.apart
  have hapart' := htarget.apart
  unfold Apart at hapart hapart'
  by_contra hnot
  by_cases hread' : j<copiedBytes target (device.address+request.offset) request.size
  · have hstorage : memory (device.address+request.offset+j)=0 := by
      rw [hmemory]
      exact if_neg (by omega)
    rw [if_pos hread',if_neg (fun hwritten => hnot ⟨hread',hwritten⟩),hone,hstorage] at hread
    cases hread
  · have hrest : later (target+j)=0 := by
      rw [hlater]
      exact if_neg (by omega)
    rw [if_neg hread',hone,hrest] at hread
    cases hread

end Ranges

/-- For a range of the device and buffers apart from it, whatever they hold, a
write can be read back exactly when the range ends before the device does and
both loops can count its words. -/
theorem writeThenRead_iff {device : MemoryBlockDevice} {request : Request} {target : ℕ}
    (hdevice : Placed device) (hrange : request.offset+request.size≤device.size)
    (hbuffer : Buffer device request.buffer request.size)
    (htarget : Buffer device target request.size) :
    (∀ memory,WriteThenRead device memory request target) ↔
      request.offset+request.size<device.size ∧
      Counted (device.address+request.offset) request.buffer request.size ∧
      Counted target (device.address+request.offset) request.size := by
  have hsize := device.size_lt
  rw [← copiedBytes_eq_iff,← copiedBytes_eq_iff]
  constructor
  · intro h
    have hlt : request.offset+request.size<device.size := by
      by_contra hend
      have hsuccess := (h (fun _ => 0)).success
      rw [write_refused (by omega) (by omega)] at hsuccess
      cases hsuccess
    have hcopied := fun j (hj : j<request.size) =>
      copied_of_writeThenRead hdevice hbuffer hlt htarget h hj
    have hread := copiedBytes_le target (device.address+request.offset) request.size
    have hwritten := copiedBytes_le (device.address+request.offset) request.buffer request.size
    refine ⟨hlt,?_,?_⟩
    · by_contra hshort
      have hlast := (hcopied (request.size-1) (by omega)).2
      omega
    · by_contra hshort
      have hlast := (hcopied (request.size-1) (by omega)).1
      omega
  · rintro ⟨hlt,hwritten,hread⟩ memory
    refine ⟨(write_eq hdevice hbuffer hlt memory).1,fun later hlater => ⟨?_,fun k hk => ?_⟩,
      fun other hother hapart hotherBuffer =>
        read_others hdevice hbuffer hlt memory hother hapart hotherBuffer⟩
    · exact (@read_eq device {request with buffer := target} hdevice htarget hrange later).1
    · rw [read_written hdevice hbuffer hlt htarget memory hlater hk,hread,hwritten,if_pos hk,
        if_pos hk]

/-- Eight bytes at the start of the device. -/
theorem writeThenRead_sample :
    WriteThenRead sampleDevice UInt8.ofNat ⟨0,8,0x2000,by decide,by decide⟩ 0x3001 :=
  (writeThenRead_iff ⟨by decide,by decide⟩ (by decide) ⟨by decide,by decide,Or.inl (by decide)⟩
    ⟨by decide,by decide,Or.inl (by decide)⟩).mpr ⟨by decide,by decide,by decide⟩ _

/-- The last eight are read, but cannot be written. -/
theorem not_always_writeThenRead :
    (sampleDevice.read (fun _ => 0) ⟨8,8,0x2000,by decide,by decide⟩).result=.ok () ∧
    ¬WriteThenRead sampleDevice (fun _ => 0) ⟨8,8,0x2000,by decide,by decide⟩ 0x3000 := by
  refine ⟨rfl,fun h => ?_⟩
  have hsuccess := h.success
  rw [write_refused (by decide) (by decide)] at hsuccess
  cases hsuccess

/-- On its storage the device reads what `MemoryBlockDevice::read` of the file
system delivers. -/
theorem read_delivers {device : MemoryBlockDevice} {request : Request} (hdevice : Placed device)
    (hbuffer : Buffer device request.buffer request.size)
    (hle : request.offset+request.size≤device.size)
    (hcounted : Counted request.buffer (device.address+request.offset) request.size)
    (memory : Memory) :
    ∃ bytes,RamdiskFS.MemoryBlockDevice.read
        ⟨fun i => memory (device.address+i),device.size⟩ request.offset request.size=.ok bytes ∧
      (device.read memory request).result=.ok () ∧
      ∀ k<request.size,(device.read memory request).memory (request.buffer+k)=bytes k := by
  have hsize := device.size_lt
  obtain ⟨hresult,hmemory⟩ := read_eq hdevice hbuffer hle memory
  refine ⟨fun i => memory (device.address+(request.offset+i)),?_,hresult,fun k hk => ?_⟩
  · rw [RamdiskFS.MemoryBlockDevice.read,u64_of_lt (by omega)]
    exact if_neg (Nat.not_lt.mpr hle)
  · rw [hmemory,(copiedBytes_eq_iff _ _ _).mpr hcounted,copy_inside _ _ (by omega) (by omega),
      Nat.add_sub_cancel_left,Nat.add_assoc]

end WorkbenchOS.MemoryDevices
