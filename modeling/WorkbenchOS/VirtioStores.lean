import WorkbenchOS.VirtioMemory

/-!
# What the stores of the driver do to the ring

Every store of `rw` falls into one member of one descriptor, one entry of the
available ring or its index. Decoded again, the fourteen stores of a request
are the publication of its chain, and those before the last one leave both
indices alone. Where the pointers of the driver lead and where the device
looks are the same bytes.
-/

namespace WorkbenchOS.VirtioMemory

open ByteMemory Fat32 LibStd TransitionRuns
open MemoryManagement (physicalMappingBase)
open VirtioBlock (VDesc Call Submitted u16 descFNext descFWrite publish)
open VirtioDetection (vringSizeBytes)
open VirtioDisk (Device Outcome Pending storeThrough loadThrough prepared Reaches Replays
  storeThrough_eq headerBytes length_headerBytes)

section Words

variable {mmu : ℕ→ℕ} {memory other : Memory} {address place count value x : ℕ}

/-- A word has its bytes. -/
theorem length_wordBytes (count value : ℕ) : (wordBytes count value).length=count := by
  rw [wordBytes,List.length_map,List.length_range]

/-- Storing the bytes of a word is storing the word. -/
theorem storeBytes_word (memory : Memory) (address count value : ℕ) :
    storeBytes memory address (wordBytes count value)=writeLE memory address count value := by
  funext x
  rw [storeBytes,writeLE,length_wordBytes]
  by_cases hx : address≤x ∧ x<address+count
  · rw [if_pos hx,if_pos hx,wordBytes,
      List.getD_eq_getElem _ _ (by rw [List.length_map,List.length_range]; omega),
      List.getElem_map,List.getElem_range]
  · rw [if_neg hx,if_neg hx]

/-- A load from a range in one piece. -/
theorem loadWord_eq (h : ∀ i<count,mmu (address+i)=place+i) :
    loadWord mmu memory address count=readLE memory place count :=
  readLE_relocated (fun i hi => congrArg memory (h i hi))

/-- A store to such a range. -/
theorem Store.apply_eq {store : Store} (hpos : 0<store.count)
    (h : ∀ i<store.count,mmu (store.address+i)=place+i) :
    store.apply mmu memory=writeLE memory place store.count store.value := by
  have hplace : mmu store.address=place := h 0 hpos
  have hwhole : ∀ i<(wordBytes store.count store.value).length,
      mmu (store.address+i)=mmu store.address+i := by
    intro i hi
    rw [length_wordBytes] at hi
    rw [h i hi,hplace]
  rw [Store.apply,storeThrough_eq hwhole,hplace,storeBytes_word]

/-- Stores of single bytes depend on memory byte by byte. -/
theorem foldl_update_congr (f : ℕ→ℕ) (g : ℕ→UInt8) (l : List ℕ) (h : memory x=other x) :
    l.foldl (fun memory i => Function.update memory (f i) (g i)) memory x=
      l.foldl (fun memory i => Function.update memory (f i) (g i)) other x := by
  induction l generalizing memory other with
  | nil => exact h
  | cons i rest ih =>
    refine ih ?_
    dsimp only
    rw [Function.update_apply,Function.update_apply,h]

/-- They change the bytes they name. -/
theorem foldl_update_outside (f : ℕ→ℕ) (g : ℕ→UInt8) (l : List ℕ) (h : ∀ i∈l,f i≠x) :
    l.foldl (fun memory i => Function.update memory (f i) (g i)) memory x=memory x := by
  induction l generalizing memory with
  | nil => rfl
  | cons i rest ih =>
    have hhead : x≠f i := (h i (List.mem_cons_self ..)).symm
    rw [List.foldl_cons,ih (fun j hj => h j (List.mem_cons_of_mem _ hj))]
    exact Function.update_of_ne hhead _ _

/-- A store depends on memory byte by byte. -/
theorem Store.apply_congr (store : Store) (h : memory x=other x) :
    store.apply mmu memory x=store.apply mmu other x :=
  foldl_update_congr (fun i => mmu (store.address+i))
    (fun i => (wordBytes store.count store.value).getD i 0) _ h

/-- So does the preparation of a call. -/
theorem prepared_congr {call : Call} (h : memory x=other x) :
    prepared mmu memory call x=prepared mmu other call x :=
  foldl_update_congr (fun i => mmu (call.status+i)) (fun i => ([0xff] : List UInt8).getD i 0) _
    (foldl_update_congr (fun i => mmu (call.header+i))
      (fun i => (headerBytes (VirtioDescriptors.Call.request call)).getD i 0) _ h)

/-- It changes the two stack variables. -/
theorem prepared_outside {call : Call} (hh : ∀ i<16,mmu (call.header+i)≠x)
    (hs : mmu call.status≠x) : prepared mmu memory call x=memory x := by
  have hstatus : ∀ i∈List.range ([0xff] : List UInt8).length,mmu (call.status+i)≠x := by
    intro i hi
    have hz : i=0 := by
      rw [List.mem_range,List.length_singleton] at hi
      omega
    rw [hz]
    exact hs
  have hheader : ∀ i∈List.range
      (headerBytes (VirtioDescriptors.Call.request call)).length,mmu (call.header+i)≠x := by
    intro i hi
    rw [List.mem_range,length_headerBytes] at hi
    exact hh i hi
  rw [prepared,storeThrough,foldl_update_outside (fun i => mmu (call.status+i)) _ _ hstatus,
    storeThrough,foldl_update_outside (fun i => mmu (call.header+i)) _ _ hheader]

/-- Memory after several stores. -/
def applyAll (mmu : ℕ→ℕ) (memory : Memory) (stores : List Store) : Memory :=
  stores.foldl (fun memory store => store.apply mmu memory) memory

/-- Several stores depend on memory byte by byte. -/
theorem applyAll_congr (stores : List Store) (h : memory x=other x) :
    applyAll mmu memory stores x=applyAll mmu other stores x := by
  induction stores generalizing memory other with
  | nil => exact h
  | cons store rest ih => exact ih (store.apply_congr h)

end Words

section Layout

variable {base num : ℕ} {ring : Vring} {memory other : Memory}

/-- The used ring from the first page of the ring on. -/
def usedOffset (num : ℕ) : ℕ := (16*num+(4+2*num)+4095)/4096*4096

/-- Pages begin at multiples of their size. -/
theorem usedAt_eq (hb : base%4096=0) : usedAt base num=base+usedOffset num := by
  rw [usedAt,availAt,usedOffset]
  omega

/-- The used ring is the end of the ring. -/
theorem size_eq (num : ℕ) : vringSizeBytes num=usedOffset num+(4+8*num) := rfl

/-- It is behind the available ring. -/
theorem usedOffset_ge (num : ℕ) : 16*num+4+2*num≤usedOffset num := by
  rw [usedOffset]
  omega

/-- The queue depends on the bytes of the ring. -/
theorem queueOf_congr (hb : base%4096=0)
    (h : ∀ x,base≤x → x<base+vringSizeBytes num → other x=memory x) :
    queueOf base num ring other=queueOf base num ring memory := by
  have hsize := size_eq num
  have hge := usedOffset_ge num
  have hread : ∀ address count,base≤address →
      address+count≤base+vringSizeBytes num → readLE other address count=
        readLE memory address count :=
    fun address count hl hr => readLE_congr (fun x hx hy => h x (by omega) (by omega))
  have hdesc : (queueOf base num ring other).desc=(queueOf base num ring memory).desc := by
    funext i
    simp only [queueOf]
    split
    · rw [readDesc,readDesc,hread _ 8 (by omega) (by omega),hread _ 4 (by omega) (by omega),
        hread _ 2 (by omega) (by omega),hread _ 2 (by omega) (by omega)]
    · rfl
  have havail : (queueOf base num ring other).availRing=
      (queueOf base num ring memory).availRing := by
    funext i
    simp only [queueOf,availAt]
    split
    · exact hread _ 2 (by omega) (by omega)
    · rfl
  have hindex : (queueOf base num ring other).availIdx=
      (queueOf base num ring memory).availIdx :=
    hread _ 2 (by rw [availAt]; omega) (by rw [availAt]; omega)
  have hused : (queueOf base num ring other).usedIdx=(queueOf base num ring memory).usedIdx :=
    hread _ 2 (by rw [usedAt_eq hb]; omega) (by rw [usedAt_eq hb]; omega)
  simp only [queueOf,VirtioBlock.Vring.mk.injEq] at hdesc havail hindex hused ⊢
  exact ⟨trivial,hdesc,hindex,havail,hused,trivial,trivial,trivial⟩

/-- The members of a descriptor in memory. -/
def writeDesc (memory : Memory) (address : ℕ) (desc : VDesc) : Memory :=
  writeLE (writeLE (writeLE (writeLE memory address 8 desc.addr) (address+8) 4 desc.len)
    (address+12) 2 desc.flags) (address+14) 2 desc.next

/-- The members of a descriptor fit their widths. -/
structure Fits (desc : VDesc) : Prop where
  /-- `addr`. -/
  addr : desc.addr<2^64
  /-- `len`. -/
  len : desc.len<2^32
  /-- `flags`. -/
  flags : desc.flags<2^16
  /-- `next`. -/
  next : desc.next<2^16

/-- A word apart from a descriptor is not touched by it. -/
theorem readLE_writeDesc {address first size : ℕ} {desc : VDesc}
    (h : Apart first size address 16) :
    readLE (writeDesc memory address desc) first size=readLE memory first size := by
  rw [Apart] at h
  rw [writeDesc,readLE_writeLE_apart _ (by rw [Apart]; omega),
    readLE_writeLE_apart _ (by rw [Apart]; omega),readLE_writeLE_apart _ (by rw [Apart]; omega),
    readLE_writeLE_apart _ (by rw [Apart]; omega)]

/-- A descriptor is read back. -/
theorem readDesc_writeDesc_self {address : ℕ} {desc : VDesc} (h : Fits desc) :
    readDesc (writeDesc memory address desc) address=desc := by
  have haddr : readLE (writeDesc memory address desc) address 8=desc.addr := by
    rw [writeDesc,readLE_writeLE_apart _ (by rw [Apart]; omega),
      readLE_writeLE_apart _ (by rw [Apart]; omega),
      readLE_writeLE_apart _ (by rw [Apart]; omega),readLE_writeLE_self]
    exact Nat.mod_eq_of_lt h.addr
  have hlen : readLE (writeDesc memory address desc) (address+8) 4=desc.len := by
    rw [writeDesc,readLE_writeLE_apart _ (by rw [Apart]; omega),
      readLE_writeLE_apart _ (by rw [Apart]; omega),readLE_writeLE_self]
    exact Nat.mod_eq_of_lt h.len
  have hflags : readLE (writeDesc memory address desc) (address+12) 2=desc.flags := by
    rw [writeDesc,readLE_writeLE_apart _ (by rw [Apart]; omega),readLE_writeLE_self]
    exact Nat.mod_eq_of_lt h.flags
  have hnext : readLE (writeDesc memory address desc) (address+14) 2=desc.next := by
    rw [writeDesc,readLE_writeLE_self]
    exact Nat.mod_eq_of_lt h.next
  rw [readDesc,haddr,hlen,hflags,hnext]

/-- The other descriptors are as they were. -/
theorem readDesc_writeDesc_ne {d i : ℕ} {desc : VDesc} (h : i≠d) :
    readDesc (writeDesc memory (base+16*d) desc) (base+16*i)=readDesc memory (base+16*i) := by
  rw [readDesc,readDesc,readLE_writeDesc (by rw [Apart]; omega),
    readLE_writeDesc (by rw [Apart]; omega),readLE_writeDesc (by rw [Apart]; omega),
    readLE_writeDesc (by rw [Apart]; omega)]

/-- A descriptor of the table is replaced. -/
theorem queueOf_writeDesc (hb : base%4096=0) {d : ℕ} (hd : d<num) {desc : VDesc}
    (hf : Fits desc) :
    queueOf base num ring (writeDesc memory (base+16*d) desc)=
      {queueOf base num ring memory with
        desc := Function.update (queueOf base num ring memory).desc d desc} := by
  have hge := usedOffset_ge num
  have hread : ∀ address count,base+16*num≤address →
      readLE (writeDesc memory (base+16*d) desc) address count=readLE memory address count :=
    fun address count hl => readLE_writeDesc (by rw [Apart]; omega)
  have hdesc : (queueOf base num ring (writeDesc memory (base+16*d) desc)).desc=
      Function.update (queueOf base num ring memory).desc d desc := by
    funext i
    by_cases hi : i=d
    · rw [hi,Function.update_self]
      simp only [queueOf,if_pos hd]
      exact readDesc_writeDesc_self hf
    · rw [Function.update_of_ne hi]
      simp only [queueOf]
      rw [readDesc_writeDesc_ne hi]
  simp only [queueOf,VirtioBlock.Vring.mk.injEq] at hdesc ⊢
  refine ⟨trivial,hdesc,?_,?_,?_,trivial,trivial,trivial⟩
  · exact hread _ 2 (by rw [availAt]; omega)
  · funext i
    rw [hread _ 2 (by rw [availAt]; omega)]
  · exact hread _ 2 (by rw [usedAt_eq hb]; omega)

/-- An entry of the available ring is replaced. -/
theorem queueOf_writeEntry (hb : base%4096=0) {k d : ℕ} (hk : k<num) (hd : d<2^16) :
    queueOf base num ring (writeLE memory (availAt base num+4+2*k) 2 d)=
      {queueOf base num ring memory with
        availRing := Function.update (queueOf base num ring memory).availRing k d} := by
  have hge := usedOffset_ge num
  have hread : ∀ address count,Apart address count (availAt base num+4+2*k) 2 →
      readLE (writeLE memory (availAt base num+4+2*k) 2 d) address count=
        readLE memory address count :=
    fun address count h => readLE_writeLE_apart memory h
  have hring : (queueOf base num ring (writeLE memory (availAt base num+4+2*k) 2 d)).availRing=
      Function.update (queueOf base num ring memory).availRing k d := by
    funext i
    by_cases hi : i=k
    · rw [hi,Function.update_self]
      simp only [queueOf,if_pos hk]
      rw [readLE_writeLE_self]
      exact Nat.mod_eq_of_lt hd
    · rw [Function.update_of_ne hi]
      simp only [queueOf]
      rw [hread _ 2 (by rw [Apart]; omega)]
  simp only [queueOf,VirtioBlock.Vring.mk.injEq] at hring ⊢
  refine ⟨trivial,?_,?_,hring,?_,trivial,trivial,trivial⟩
  · funext i
    split
    · rw [readDesc,readDesc,hread _ 8 (by rw [Apart,availAt]; omega),
        hread _ 4 (by rw [Apart,availAt]; omega),hread _ 2 (by rw [Apart,availAt]; omega),
        hread _ 2 (by rw [Apart,availAt]; omega)]
    · rfl
  · exact hread _ 2 (by rw [Apart]; omega)
  · exact hread _ 2 (by rw [Apart,usedAt_eq hb,availAt]; omega)

/-- The available index is replaced. -/
theorem queueOf_writeIndex (hb : base%4096=0) (value : ℕ) :
    queueOf base num ring (writeLE memory (availAt base num+2) 2 value)=
      {queueOf base num ring memory with availIdx := u16 value} := by
  have hge := usedOffset_ge num
  have hread : ∀ address count,Apart address count (availAt base num+2) 2 →
      readLE (writeLE memory (availAt base num+2) 2 value) address count=
        readLE memory address count :=
    fun address count h => readLE_writeLE_apart memory h
  simp only [queueOf,VirtioBlock.Vring.mk.injEq]
  refine ⟨trivial,?_,readLE_writeLE_self _ _ _ _,?_,?_,trivial,trivial,trivial⟩
  · funext i
    split
    · rw [readDesc,readDesc,hread _ 8 (by rw [Apart,availAt]; omega),
        hread _ 4 (by rw [Apart,availAt]; omega),hread _ 2 (by rw [Apart,availAt]; omega),
        hread _ 2 (by rw [Apart,availAt]; omega)]
    · rfl
  · funext i
    rw [hread _ 2 (by rw [Apart]; omega)]
  · exact hread _ 2 (by rw [Apart,usedAt_eq hb,availAt]; omega)

/-- A store into the used ring changes the used index at most. -/
theorem queueOf_used (hb : base%4096=0)
    (h : ∀ x,base≤x → x<base+usedOffset num → other x=memory x) :
    queueOf base num ring other=
      {queueOf base num ring memory with usedIdx := readLE other (usedAt base num+2) 2} := by
  have hge := usedOffset_ge num
  have hread : ∀ address count,base≤address → address+count≤base+usedOffset num →
      readLE other address count=readLE memory address count :=
    fun address count hl hr => readLE_congr (fun x hx hy => h x (by omega) (by omega))
  simp only [queueOf,VirtioBlock.Vring.mk.injEq]
  refine ⟨trivial,?_,?_,?_,trivial,trivial,trivial,trivial⟩
  · funext i
    split
    · rw [readDesc,readDesc,hread _ 8 (by omega) (by omega),hread _ 4 (by omega) (by omega),
        hread _ 2 (by omega) (by omega),hread _ 2 (by omega) (by omega)]
    · rfl
  · exact hread _ 2 (by rw [availAt]; omega) (by rw [availAt]; omega)
  · funext i
    split
    · exact hread _ 2 (by rw [availAt]; omega) (by rw [availAt]; omega)
    · rfl

end Layout

section Pointers

variable {machine : Machine} {ring : Vring} {mmu : ℕ→ℕ} {memory : Memory}

/-- The pointers of the driver are those of the layout. -/
structure Placed (machine : Machine) : Prop where
  /-- Driver and device agree on the size. -/
  num : machine.ring.num=machine.qmax
  /-- There are descriptors. -/
  pos : 0< machine.qmax
  /-- Their indices have 16 bits. -/
  small : machine.qmax<2^16
  /-- `avail` follows the table. -/
  avail : machine.ring.avail=machine.ring.desc+16*machine.qmax
  /-- `used` is on the next page boundary. -/
  used : machine.ring.used=machine.ring.desc+usedOffset machine.qmax

/-- The device finds the ring at a page boundary. -/
theorem base_aligned (machine : Machine) : machine.base%4096=0 := Nat.mul_mod_left _ _

/-- A store through a pointer into the ring. -/
theorem apply_mapped (hm : machine.Maps mmu) {store : Store} {offset : ℕ}
    (hpos : 0<store.count) (ha : store.address=machine.ring.desc+offset)
    (hr : offset+store.count≤vringSizeBytes machine.qmax) :
    store.apply mmu memory=writeLE memory (machine.base+offset) store.count store.value := by
  refine Store.apply_eq hpos ?_
  intro i hi
  rw [ha,Nat.add_assoc,hm (offset+i) (by omega),Nat.add_assoc]

/-- A load through such a pointer. -/
theorem load_mapped (hm : machine.Maps mmu) {address offset count : ℕ}
    (ha : address=machine.ring.desc+offset) (hr : offset+count≤vringSizeBytes machine.qmax) :
    loadWord mmu memory address count=readLE memory (machine.base+offset) count := by
  refine loadWord_eq ?_
  intro i hi
  rw [ha,Nat.add_assoc,hm (offset+i) (by omega),Nat.add_assoc]

/-- The driver finds the available index there. -/
theorem load_avail (hp : Placed machine) (hm : machine.Maps mmu) :
    loadWord mmu machine.memory (machine.ring.avail+2) 2=machine.queue.availIdx := by
  have ha : machine.ring.avail+2=machine.ring.desc+(16*machine.qmax+2) := by
    rw [hp.avail,Nat.add_assoc]
  have hsize := size_eq machine.qmax
  have hge := usedOffset_ge machine.qmax
  rw [load_mapped hm ha (by omega),Machine.queue,queueOf,availAt,Nat.add_assoc]

/-- It finds the used index. -/
theorem load_used (hp : Placed machine) (hm : machine.Maps mmu) :
    loadWord mmu machine.memory (machine.ring.used+2) 2=machine.queue.usedIdx := by
  have ha : machine.ring.used+2=machine.ring.desc+(usedOffset machine.qmax+2) := by
    rw [hp.used,Nat.add_assoc]
  have hsize := size_eq machine.qmax
  rw [load_mapped hm ha (by omega),Machine.queue,queueOf,usedAt_eq (base_aligned machine),
    Nat.add_assoc]

/-- A store that leaves both indices alone. -/
def Quiet (machine : Machine) (store : Store) : Prop :=
  0<store.count ∧ ∃ offset,store.address=machine.ring.desc+offset ∧
    (offset+store.count≤16*machine.qmax+2 ∨ 16*machine.qmax+4≤offset ∧
      offset+store.count≤usedOffset machine.qmax)

/-- The bytes it leaves alone. -/
theorem Quiet.outside (hm : machine.Maps mmu) {store : Store} (hq : Quiet machine store) {x : ℕ}
    (hx : ¬machine.InRing x ∨ availAt machine.base machine.qmax+2≤x ∧
        x<availAt machine.base machine.qmax+4 ∨ machine.InUsed x) :
    store.apply mmu memory x=memory x := by
  obtain ⟨hpos,offset,ha,hwhere⟩ := hq
  have hge := usedOffset_ge machine.qmax
  have hsize := size_eq machine.qmax
  rw [apply_mapped hm hpos ha (by omega)]
  refine writeLE_outside memory ?_
  rw [Machine.InRing,Machine.InUsed,usedAt_eq (base_aligned machine),availAt] at hx
  omega

/-- The indices after it. -/
theorem Quiet.indices (hm : machine.Maps mmu) {store : Store} (hq : Quiet machine store) :
    (queueOf machine.base machine.qmax ring (store.apply mmu memory)).availIdx=
        (queueOf machine.base machine.qmax ring memory).availIdx ∧
      (queueOf machine.base machine.qmax ring (store.apply mmu memory)).usedIdx=
        (queueOf machine.base machine.qmax ring memory).usedIdx := by
  have hsize := size_eq machine.qmax
  refine ⟨readLE_congr (fun x hl hr => hq.outside hm (Or.inr (Or.inl ?_))),
    readLE_congr (fun x hl hr => hq.outside hm (Or.inr (Or.inr ?_)))⟩
  · omega
  · rw [Machine.InUsed,hsize]
    rw [usedAt_eq (base_aligned machine)] at hl hr ⊢
    omega

/-- The stores to one descriptor. -/
theorem describe_quiet {d : ℕ} (hd : d< machine.qmax) (desc : VDesc) {store : Store}
    (hs : store∈describe machine.ring d desc) : Quiet machine store := by
  simp only [describe,List.mem_cons,List.not_mem_nil,or_false] at hs
  rcases hs with rfl|rfl|rfl|rfl
  · exact ⟨(by decide : 0<8),16*d,rfl,Or.inl (by dsimp only; omega)⟩
  · exact ⟨(by decide : 0<4),16*d+8,Nat.add_assoc _ _ _,Or.inl (by dsimp only; omega)⟩
  · exact ⟨(by decide : 0<2),16*d+12,Nat.add_assoc _ _ _,Or.inl (by dsimp only; omega)⟩
  · exact ⟨(by decide : 0<2),16*d+14,Nat.add_assoc _ _ _,Or.inl (by dsimp only; omega)⟩

/-- Together they write it. -/
theorem applyAll_describe (hm : machine.Maps mmu) {d : ℕ} (hd : d< machine.qmax) (desc : VDesc) :
    applyAll mmu memory (describe machine.ring d desc)=
      writeDesc memory (machine.base+16*d) desc := by
  have hge := usedOffset_ge machine.qmax
  have hsize := size_eq machine.qmax
  have hfield : ∀ (memory : Memory) (offset count value : ℕ),0<count → offset+count≤16 →
      Store.apply mmu memory ⟨machine.ring.desc+(16*d+offset),count,value⟩=
        writeLE memory (machine.base+(16*d+offset)) count value := by
    intro memory offset count value hpos hle
    exact apply_mapped hm hpos rfl (by dsimp only; omega)
  have hfirst := hfield memory 0 8 desc.addr (by decide) (by decide)
  rw [Nat.add_zero] at hfirst
  simp only [applyAll,describe,List.foldl_cons,List.foldl_nil,Nat.add_assoc]
  rw [writeDesc,Nat.add_assoc,Nat.add_assoc,Nat.add_assoc,←hfield _ 14 2 _ (by decide) (by decide),
    ←hfield _ 12 2 _ (by decide) (by decide),←hfield _ 8 4 _ (by decide) (by decide),←hfirst]

end Pointers

section Publication

variable {machine : Machine} {ring : Vring} {mmu : ℕ→ℕ} {memory : Memory} {call : Call}
  {d0 d1 d2 hdrPa bufPa stPa : ℕ}

/-- Stores one after the other. -/
theorem applyAll_append (mmu : ℕ→ℕ) (memory : Memory) (first second : List Store) :
    applyAll mmu memory (first++second)=applyAll mmu (applyAll mmu memory first) second :=
  List.foldl_append ..

/-- The flags of the data descriptor. -/
theorem dataFlags_lt (write : Bool) : descFNext ||| (if write then 0 else descFWrite)<2^16 := by
  cases write <;> decide

/-- The stores of a request publish its chain. -/
theorem applyAll_publish (hp : Placed machine) (hm : machine.Maps mmu) (h0 : d0< machine.qmax)
    (h1 : d1< machine.qmax) (h2 : d2< machine.qmax) (hhdr : hdrPa<2^64) (hbuf : bufPa<2^64)
    (hst : stPa<2^64) (hbytes : call.bytes<2^32) :
    queueOf machine.base machine.qmax ring (applyAll mmu memory
        (descriptorStores machine.ring call d0 d1 d2 hdrPa bufPa stPa++
          availStores machine.ring d0
            (queueOf machine.base machine.qmax ring memory).availIdx))=
      publish (queueOf machine.base machine.qmax ring memory) call d0 d1 d2 hdrPa bufPa stPa := by
  have hb := base_aligned machine
  have hsmall := hp.small
  have hge := usedOffset_ge machine.qmax
  have hsize := size_eq machine.qmax
  have hk := Nat.mod_lt (queueOf machine.base machine.qmax ring memory).availIdx hp.pos
  have hentry : ∀ (memory : Memory) (k : ℕ),k< machine.qmax →
      Store.apply mmu memory ⟨vringAvailRing machine.ring.avail+2*k,2,d0⟩=
        writeLE memory (availAt machine.base machine.qmax+4+2*k) 2 d0 := by
    intro memory k hk
    have ha : vringAvailRing machine.ring.avail+2*k=
        machine.ring.desc+(16*machine.qmax+4+2*k) := by
      rw [vringAvailRing,hp.avail]
      omega
    have hw : availAt machine.base machine.qmax+4+2*k=
        machine.base+(16*machine.qmax+4+2*k) := by
      rw [availAt]
      omega
    rw [hw]
    exact apply_mapped hm (by decide : 0<2) ha (by dsimp only; omega)
  have hindex : ∀ (memory : Memory) (value : ℕ),
      Store.apply mmu memory ⟨machine.ring.avail+2,2,value⟩=
        writeLE memory (availAt machine.base machine.qmax+2) 2 value := by
    intro memory value
    have ha : machine.ring.avail+2=machine.ring.desc+(16*machine.qmax+2) := by
      rw [hp.avail,Nat.add_assoc]
    rw [availAt,Nat.add_assoc]
    exact apply_mapped hm (by decide : 0<2) ha (by dsimp only; omega)
  rw [applyAll_append,descriptorStores,applyAll_append,applyAll_append,applyAll_describe hm h0,
    applyAll_describe hm h1,applyAll_describe hm h2,availStores,indexStore,hp.num]
  simp only [applyAll,List.foldl_cons,List.foldl_nil]
  rw [hindex,hentry _ _ hk,queueOf_writeIndex hb,queueOf_writeEntry hb hk (by omega),
    queueOf_writeDesc hb h2 ⟨hst,(by decide : 1<2^32),(by decide : descFWrite<2^16),
      (by decide : 0<2^16)⟩,
    queueOf_writeDesc hb h1 ⟨hbuf,hbytes,dataFlags_lt _,by dsimp only; omega⟩,
    queueOf_writeDesc hb h0 ⟨hhdr,(by decide : 16<2^32),(by decide : descFNext<2^16),
      by dsimp only; omega⟩]
  rfl

end Publication

end WorkbenchOS.VirtioMemory
