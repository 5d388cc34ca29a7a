import WorkbenchOS.Fat32
import WorkbenchOS.VirtioRing

/-!
# The disk behind the virtio ring

`VirtioBlockDevice::rw` from the call to its return, with the bytes it puts
into memory and a device that works through the published chain one byte at a
time, in any order and at any moment. The device may fail, and other code of
the kernel may store what it likes outside the memory of the request. Whatever
the order of the steps, the calls that have returned are those of a disk that
is read and written in one piece, and it is the disk the file system is
modelled on.
-/

namespace WorkbenchOS.VirtioDisk

open ByteMemory Fat32 LibStd TransitionRuns VirtioBlock VirtioDescriptors
open VirtioRing (Segment chain publish_chain publish_segments u16_succ_ne)

section Model

/-- A byte of `BlkReq` as it lies in memory, packed. -/
def headerByte (hdr : BlkReq) (i : ℕ) : UInt8 :=
  if i<4 then UInt8.ofNat (hdr.type/256^i)
  else if i<8 then UInt8.ofNat (hdr.reserved/256^(i-4))
  else UInt8.ofNat (hdr.sector/256^(i-8))

/-- The sixteen bytes of `BlkReq`. -/
def headerBytes (hdr : BlkReq) : List UInt8 := (List.range 16).map (headerByte hdr)

/-- The header as the device reads it. -/
def readHeader (memory : Memory) (address : ℕ) : BlkReq where
  type := readLE memory address 4
  reserved := readLE memory (address+4) 4
  sector := readLE memory (address+8) 8

/-- Stores of the processor, through its own address translation. -/
def storeThrough (mmu : ℕ→ℕ) (memory : Memory) (address : ℕ) (bytes : List UInt8) : Memory :=
  (List.range bytes.length).foldl
    (fun memory i => Function.update memory (mmu (address+i)) (bytes.getD i 0)) memory

/-- What the processor finds there. -/
def loadThrough (mmu : ℕ→ℕ) (memory : Memory) (address length : ℕ) : List UInt8 :=
  (List.range length).map (fun i => memory (mmu (address+i)))

/-- A request the device works on. -/
structure Job where
  /-- The header it has read. -/
  hdr : BlkReq
  /-- The second segment. -/
  data : Segment
  /-- The third segment. -/
  status : Segment
  /-- The bytes it has transferred. -/
  moved : ℕ→Bool
  /-- The status byte is written. -/
  reported : Bool

/-- The device. -/
structure Device where
  /-- Its own index into the available ring. -/
  index : ℕ
  /-- Notified and not yet caught up. -/
  running : Bool
  /-- What it works on. -/
  job : Option Job

/-- A call of `rw` in its polling loop. -/
structure Pending where
  /-- The translation of the processor during the call. -/
  mmu : ℕ→ℕ
  /-- The arguments. -/
  call : Call
  /-- The descriptors. -/
  submitted : Submitted
  /-- The buffer when the device was notified. -/
  sent : List UInt8

/-- Where the driver is. -/
inductive Driver where
  /-- Outside `rw`. -/
  | idle
  /-- In the polling loop of `rw`. -/
  | polling (pending : Pending)

/-- A call that has returned. -/
structure Outcome where
  /-- The arguments. -/
  call : Call
  /-- The result. -/
  result : Except Error Unit
  /-- The buffer at the call. -/
  sent : List UInt8
  /-- The buffer at the return. -/
  found : List UInt8

/-- Driver, device, memory and disk. -/
structure Machine where
  /-- The ring. -/
  queue : Vring
  /-- Physical memory. -/
  memory : Memory
  /-- What the device stores. -/
  disk : BlockDevice
  /-- The device. -/
  device : Device
  /-- The driver. -/
  driver : Driver
  /-- The calls that have returned. -/
  history : List Outcome

/-- One step of one of the parties. -/
inductive Action where
  /-- `rw` up to the notification, or to its return if it fails before. -/
  | submit (translate : ℕ→Except Error ℕ) (mmu : ℕ→ℕ) (call : Call)
  /-- The device takes an entry of the ring. -/
  | take
  /-- It transfers a byte. -/
  | move (i : ℕ)
  /-- It writes the status byte. -/
  | report (status : UInt8)
  /-- It advances the used index. -/
  | finish
  /-- It has caught up. -/
  | rest
  /-- One test of the polling loop, and the rest of `rw` when it ends. -/
  | poll
  /-- A store of other code. -/
  | store (address : ℕ) (value : UInt8)

/-- The call gets past the length check and has its three descriptors, so
that `hdr` and `status` are set up. -/
def Enters (queue : Vring) (call : Call) : Prop :=
  call.Valid ∧ ¬((popFree queue).1=0xffff ∨ (popFree (popFree queue).2).1=0xffff ∨
    (popFree (popFree (popFree queue).2).2).1=0xffff)

instance (queue : Vring) (call : Call) : Decidable (Enters queue call) :=
  inferInstanceAs (Decidable (_∧_))

/-- Memory with `hdr` and `status` set up. -/
def prepared (mmu : ℕ→ℕ) (memory : Memory) (call : Call) : Memory :=
  storeThrough mmu (storeThrough mmu memory call.header (headerBytes (Call.request call)))
    call.status [0xff]

/-- The segments of the entry the device takes next. -/
def entry (queue : Vring) (index : ℕ) : List Segment :=
  (chain queue.desc queue.num (queue.availRing (index%queue.num))).map
    (fun i => VirtioRing.VDesc.segment (queue.desc i))

/-- A device serves a chain of a header it may read, a data segment and a
status byte it may write. -/
def received (memory : Memory) : List Segment→Option Job
  | [header,data,status] =>
    if header.deviceWrites=false ∧ 16≤header.len ∧ status.deviceWrites=true ∧ 1≤ status.len then
      some ⟨readHeader memory header.addr,data,status,fun _ => false,false⟩
    else none
  | _ => none

/-- The sectors of a job are there. -/
def Job.Fits (job : Job) (sectors : ℕ) : Prop :=
  job.hdr.sector*512+job.data.len≤ sectors*512

instance (job : Job) (sectors : ℕ) : Decidable (job.Fits sectors) :=
  inferInstanceAs (Decidable (_≤_))

/-- One byte of the transfer. Type 0 goes into memory the device may write,
type 1 comes from memory it only reads. -/
def transfer (machine : Machine) (job : Job) (i : ℕ) : Option Machine :=
  let place := job.hdr.sector*512+i
  let device := {machine.device with
    job := some {job with moved := Function.update job.moved i true}}
  if job.hdr.type=0 ∧ job.data.deviceWrites=true then
    some {machine with
      memory := Function.update machine.memory (job.data.addr+i) (machine.disk.image place)
      device := device}
  else if job.hdr.type=1 ∧ job.data.deviceWrites=false then
    some {machine with
      disk := {machine.disk with
        image := Function.update machine.disk.image place (machine.memory (job.data.addr+i))}
      device := device}
  else none

/-- What a finished call hands back. -/
def Pending.outcome (pending : Pending) (memory : Memory) : Outcome where
  call := pending.call
  result :=
    if memory (pending.mmu pending.call.status)=0 then .ok ()
    else .error (.fromCode (memory (pending.mmu pending.call.status)).toNat)
  sent := pending.sent
  found := loadThrough pending.mmu memory pending.call.buffer pending.call.bytes

/-- One step; a step the party cannot take has no result. The device reports
success only when it has transferred everything. -/
def step (machine : Machine) : Action→Option Machine
  | .submit translate mmu call =>
    match machine.driver with
    | .polling _ => none
    | .idle =>
      let memory :=
        if Enters machine.queue call then prepared mmu machine.memory call else machine.memory
      let sent := loadThrough mmu memory call.buffer call.bytes
      match submit translate machine.queue call with
      | (.error error,queue) => some {machine with
          queue := queue
          memory := memory
          history := machine.history++[⟨call,.error error,sent,sent⟩]}
      | (.ok submitted,queue) => some {machine with
          queue := queue
          memory := memory
          device := {machine.device with running := true}
          driver := .polling ⟨mmu,call,submitted,sent⟩}
  | .take =>
    if machine.device.running=true ∧ machine.device.job.isNone ∧
        machine.device.index≠machine.queue.availIdx then
      (received machine.memory (entry machine.queue machine.device.index)).map
        (fun job => {machine with device := {machine.device with job := some job}})
    else none
  | .move i =>
    match machine.device.job with
    | none => none
    | some job =>
      if job.reported=false ∧ i<job.data.len ∧ job.Fits machine.disk.sectors then
        transfer machine job i
      else none
  | .report status =>
    match machine.device.job with
    | none => none
    | some job =>
      if job.reported=false ∧ (status=0 → ∀ i<job.data.len,job.moved i=true) then
        some {machine with
          memory := Function.update machine.memory job.status.addr status
          device := {machine.device with job := some {job with reported := true}}}
      else none
  | .finish =>
    match machine.device.job with
    | none => none
    | some job =>
      if job.reported=true then
        some {machine with
          queue := {machine.queue with usedIdx := u16 (machine.queue.usedIdx+1)}
          device := {machine.device with index := u16 (machine.device.index+1),job := none}}
      else none
  | .rest =>
    if machine.device.job.isNone ∧ machine.device.index=machine.queue.availIdx then
      some {machine with device := {machine.device with running := false}}
    else none
  | .poll =>
    match machine.driver with
    | .idle => none
    | .polling pending =>
      if machine.queue.usedIdx=machine.queue.usedIdxShadow then some machine
      else some {machine with
        queue := reclaim machine.queue pending.submitted
        driver := .idle
        history := machine.history++[pending.outcome machine.memory]}
  | .store address value =>
    some {machine with memory := Function.update machine.memory address value}

end Model

section Conditions

/-- The memory of a call is where the driver says it is: header, buffer and
status byte are translated to their physical places, lie there in one piece
and do not overlap. -/
structure Reaches (translate : ℕ→Except Error ℕ) (mmu : ℕ→ℕ) (call : Call) : Prop where
  /-- A sector number has 64 bits. -/
  lba : call.lba<2^64
  /-- The header is translated. -/
  header : translate call.header=.ok (mmu call.header)
  /-- The buffer is. -/
  buffer : translate call.buffer=.ok (mmu call.buffer)
  /-- The status byte is. -/
  status : translate call.status=.ok (mmu call.status)
  /-- The header is in one piece. -/
  headerWhole : ∀ i<16,mmu (call.header+i)=mmu call.header+i
  /-- The buffer is. -/
  bufferWhole : ∀ i<call.bytes,mmu (call.buffer+i)=mmu call.buffer+i
  /-- The header is apart from the buffer. -/
  headerBuffer : Apart (mmu call.header) 16 (mmu call.buffer) call.bytes
  /-- The status byte is apart from the header. -/
  statusHeader : Apart (mmu call.status) 1 (mmu call.header) 16
  /-- It is apart from the buffer. -/
  statusBuffer : Apart (mmu call.status) 1 (mmu call.buffer) call.bytes

/-- The physical memory of a request. -/
def Pending.Holds (pending : Pending) (address : ℕ) : Prop :=
  (pending.mmu pending.call.header≤address ∧ address<pending.mmu pending.call.header+16) ∨
    (pending.mmu pending.call.buffer≤address ∧
      address<pending.mmu pending.call.buffer+pending.call.bytes) ∨
    address=pending.mmu pending.call.status

/-- What the parties rely on: a call that is published describes its own
memory, and nobody else stores there while it is in flight. -/
def Legal (machine : Machine) : Action→Prop
  | .submit translate mmu call =>
    (submit translate machine.queue call).1.isOk=true → Reaches translate mmu call
  | .store address _ => ∀ pending,machine.driver=.polling pending → ¬pending.Holds address
  | _ => True

/-- Steps of the device. -/
def Action.OfDevice : Action→Prop
  | .take => True
  | .move _ => True
  | .report _ => True
  | .finish => True
  | .rest => True
  | _ => False

/-- The queue is set up, the device reset and nothing has been asked for. -/
structure Ready (machine : Machine) : Prop where
  /-- `setup_queue0`. -/
  queue : ∃ preferredNum qmax desc availRing,qmax<2^16 ∧
    setupQueue0 preferredNum qmax desc availRing=some machine.queue
  /-- The device. -/
  device : machine.device=⟨0,false,none⟩
  /-- The driver. -/
  driver : machine.driver=.idle
  /-- No call has been made. -/
  history : machine.history=[]

end Conditions

section Store

/-- Sectors of a disk are written in one piece. -/
def writeSectors (disk : BlockDevice) (lba : ℕ) (bytes : List UInt8) : Except Error BlockDevice :=
  if bytes.length=0 ∨ bytes.length%512≠0 then .error (.fromCode 1)
  else if disk.sectors*512<lba*512+bytes.length then .error (.fromCode 1)
  else .ok {disk with image := storeBytes disk.image (lba*512) bytes}

/-- The marked bytes of a string are stored. -/
def storeMarked (image : Memory) (start : ℕ) (bytes : List UInt8) (marked : ℕ→Bool) : Memory :=
  fun x => if start≤x ∧ x< start+bytes.length ∧ marked (x-start)=true then
    bytes.getD (x-start) 0 else image x

/-- Some bytes of a string are on the disk, the others are not. -/
def Partly (disk : BlockDevice) (lba : ℕ) (bytes : List UInt8) (after : BlockDevice) : Prop :=
  after.sectors=disk.sectors ∧ ∃ marked,
    after.image=storeMarked disk.image (lba*512) bytes marked ∧
      ∀ i,marked i=true → lba*512+bytes.length≤disk.sectors*512

/-- What a call does to a disk that is read and written in one piece. A write
that fails may have stored some of its bytes. -/
def Serves (disk : BlockDevice) (outcome : Outcome) (after : BlockDevice) : Prop :=
  match outcome.result,outcome.call.write with
  | .ok _,false => after=disk ∧ ∃ filled,
      disk.read outcome.call.lba outcome.call.bytes (fun _ => 0)=.ok filled ∧
        outcome.found=bytesAt filled 0 outcome.call.bytes
  | .ok _,true => writeSectors disk outcome.call.lba outcome.sent=.ok after
  | .error _,false => after=disk
  | .error _,true => Partly disk outcome.call.lba outcome.sent after

/-- The calls one after the other. -/
inductive Replays (initial : BlockDevice) : List Outcome→BlockDevice→Prop where
  /-- No call. -/
  | nil : Replays initial [] initial
  /-- One more. -/
  | snoc {front : List Outcome} {middle last : BlockDevice} {outcome : Outcome}
      (h : Replays initial front middle) (hs : Serves middle outcome last) :
      Replays initial (front++[outcome]) last

/-- The disk of the device against that of the calls that have returned: a
write in flight may have stored some of its bytes. -/
def Current (settled : BlockDevice) (machine : Machine) : Prop :=
  match machine.driver with
  | .idle => machine.disk=settled
  | .polling pending =>
    if pending.call.write=true then Partly settled pending.call.lba pending.sent machine.disk
    else machine.disk=settled

/-- A step of the device writes into the buffer of a read in flight and into
its status byte, and onto the sectors of a write in flight. -/
structure Confined (machine next : Machine) : Prop where
  /-- The driver is where it was. -/
  driver : next.driver=machine.driver
  /-- Nothing returns. -/
  history : next.history=machine.history
  /-- What happens to memory. -/
  memory : ∀ x,next.memory x≠machine.memory x →
    ∃ pending,machine.driver=.polling pending ∧
      (x=pending.mmu pending.call.status ∨ pending.call.write=false ∧
        pending.mmu pending.call.buffer≤x ∧
          x<pending.mmu pending.call.buffer+pending.call.bytes)
  /-- What happens to the disk. -/
  disk : ∀ x,next.disk.image x≠machine.disk.image x →
    ∃ pending,machine.driver=.polling pending ∧ pending.call.write=true ∧
      pending.call.lba*512≤x ∧ x<pending.call.lba*512+pending.call.bytes

end Store

section Bytes

variable {mmu : ℕ→ℕ} {memory image : Memory} {address start : ℕ} {bytes : List UInt8}

/-- Stores through a translation that keeps a range in one piece. -/
theorem storeThrough_eq (h : ∀ i<bytes.length,mmu (address+i)=mmu address+i) :
    storeThrough mmu memory address bytes=storeBytes memory (mmu address) bytes := by
  have hprefix : ∀ n≤bytes.length,(List.range n).foldl
      (fun memory i => Function.update memory (mmu (address+i)) (bytes.getD i 0)) memory=
        fun x => if mmu address≤x ∧ x< mmu address+n then bytes.getD (x-mmu address) 0
          else memory x := by
    intro n hn
    induction n with
    | zero =>
      funext x
      rw [if_neg (by omega)]
      rfl
    | succ n ih =>
      rw [List.range_succ,List.foldl_append,ih (by omega)]
      funext x
      rw [List.foldl_cons,List.foldl_nil,h n (by omega)]
      by_cases hx : x=mmu address+n
      · rw [hx,Function.update_self,if_pos (by omega),Nat.add_sub_cancel_left]
      · rw [Function.update_of_ne hx]
        by_cases hin : mmu address≤x ∧ x< mmu address+n
        · rw [if_pos hin,if_pos (by omega)]
        · rw [if_neg hin,if_neg (by omega)]
  exact hprefix bytes.length le_rfl

/-- Loads through such a translation. -/
theorem loadThrough_eq {length : ℕ} (h : ∀ i<length,mmu (address+i)=mmu address+i) :
    loadThrough mmu memory address length=bytesAt memory (mmu address) length :=
  List.map_congr_left (fun i hi => congrArg memory (h i (List.mem_range.mp hi)))

/-- A byte of a string found in memory. -/
theorem getD_bytesAt {length i : ℕ} (hi : i<length) :
    (bytesAt memory address length).getD i 0=memory (address+i) := by
  rw [bytesAt,List.getD_eq_getElem _ _ (by rwa [List.length_map,List.length_range])]
  rw [List.getElem_map,List.getElem_range]

/-- A header is sixteen bytes. -/
theorem length_headerBytes (hdr : BlkReq) : (headerBytes hdr).length=16 := by
  rw [headerBytes,List.length_map,List.length_range]

/-- The device reads the header the driver has stored. -/
theorem readHeader_of_bytes {hdr : BlkReq} (ht : hdr.type<2^32) (hr : hdr.reserved<2^32)
    (hs : hdr.sector<2^64) (h : ∀ i<16,memory (address+i)=headerByte hdr i) :
    readHeader memory address=hdr := by
  have htype : readLE memory address 4=hdr.type := by
    rw [readLE_digits memory hdr.type address 4 0 (fun i hi => ?_)]
    · rw [pow_zero,Nat.div_one,Nat.mod_eq_of_lt (by omega)]
    · rw [h i (by omega),headerByte,if_pos hi,Nat.zero_add]
  have hreserved : readLE memory (address+4) 4=hdr.reserved := by
    rw [readLE_digits memory hdr.reserved (address+4) 4 0 (fun i hi => ?_)]
    · rw [pow_zero,Nat.div_one,Nat.mod_eq_of_lt (by omega)]
    · rw [Nat.add_assoc,h (4+i) (by omega),headerByte,if_neg (by omega),if_pos (by omega),
        Nat.add_sub_cancel_left,Nat.zero_add]
  have hsector : readLE memory (address+8) 8=hdr.sector := by
    rw [readLE_digits memory hdr.sector (address+8) 8 0 (fun i hi => ?_)]
    · rw [pow_zero,Nat.div_one,Nat.mod_eq_of_lt (by omega)]
    · rw [Nat.add_assoc,h (8+i) (by omega),headerByte,if_neg (by omega),if_neg (by omega),
        Nat.add_sub_cancel_left,Nat.zero_add]
  rw [readHeader,htype,hreserved,hsector]

/-- Nothing is marked. -/
theorem storeMarked_none : storeMarked image start bytes (fun _ => false)=image := by
  funext x
  rw [storeMarked,if_neg]
  rintro ⟨-,-,h⟩
  cases h

/-- Everything is marked. -/
theorem storeMarked_all {marked : ℕ→Bool} (h : ∀ i<bytes.length,marked i=true) :
    storeMarked image start bytes marked=storeBytes image start bytes := by
  funext x
  by_cases hin : start≤x ∧ x< start+bytes.length
  · rw [storeMarked,storeBytes,if_pos ⟨hin.1,hin.2,h _ (by omega)⟩,if_pos hin]
  · rw [storeMarked,storeBytes,if_neg (fun hall => hin ⟨hall.1,hall.2.1⟩),if_neg hin]

/-- One more byte is marked. -/
theorem storeMarked_update {marked : ℕ→Bool} {i : ℕ} (hi : i<bytes.length) :
    Function.update (storeMarked image start bytes marked) (start+i) (bytes.getD i 0)=
      storeMarked image start bytes (Function.update marked i true) := by
  funext x
  by_cases hx : x= start+i
  · rw [hx,Function.update_self,storeMarked,
      if_pos ⟨by omega,by omega,by rw [Nat.add_sub_cancel_left,Function.update_self]⟩,
      Nat.add_sub_cancel_left]
  · rw [Function.update_of_ne hx,storeMarked,storeMarked]
    by_cases hin : start≤x
    · rw [Function.update_of_ne (by omega : x- start≠i)]
    · rw [if_neg (fun h => hin h.1),if_neg (fun h => hin h.1)]

end Bytes

section Queue

variable {translate : ℕ→Except Error ℕ} {queue after : Vring} {call : Call} {held : List ℕ}

/-- The free stack and the descriptors of a request in flight: none twice,
all in the table. Calls that fail may have lost some. -/
structure Stocked (queue : Vring) (held : List ℕ) : Prop where
  /-- Table sizes are positive. -/
  pos : 0<queue.num
  /-- They have 16 bits. -/
  small : queue.num<2^16
  /-- None twice. -/
  distinct : (freeStack queue++held).Nodup
  /-- All in the table. -/
  below : ∀ d∈freeStack queue++held,d<queue.num

/-- A queue that is whole is stocked. -/
theorem stocked_of_sound (h : Sound queue) : Stocked queue [] := by
  have hperm : (freeStack queue).Perm (List.range queue.num) := h.whole.2
  refine ⟨h.pos,h.small,?_,?_⟩
  · rw [List.append_nil]
    exact hperm.nodup_iff.mpr List.nodup_range
  · intro d hd
    rw [List.append_nil] at hd
    exact List.mem_range.mp (hperm.mem_iff.mp hd)

/-- A stack cut off is the beginning of the stack. -/
theorem freeStack_cut {count : ℕ} (h : count≤queue.freeCount) :
    freeStack (cut queue count)=(freeStack queue).take count := by
  rw [freeStack,freeStack,←List.map_take,List.take_range,Nat.min_eq_left h]
  rfl

/-- So it stays stocked. -/
theorem Stocked.cut (h : Stocked queue []) {count : ℕ} (hc : count≤queue.freeCount) :
    Stocked (cut queue count) [] := by
  have hsub : (freeStack (VirtioDescriptors.cut queue count)++[]).Sublist
      (freeStack queue++[]) := by
    rw [freeStack_cut hc,List.append_nil,List.append_nil]
    exact List.take_sublist _ _
  exact ⟨h.pos,h.small,h.distinct.sublist hsub,fun d hd => h.below d (hsub.subset hd)⟩

/-- The top three of a stack that has them. -/
theorem Stocked.top (h : Stocked queue held) (hn : 3≤queue.freeCount) :
    ∃ rest d0 d1 d2,freeStack queue=rest++[d2,d1,d0] ∧ Descriptors d0 d1 d2 := by
  have hl := freeStack_length queue
  have hd : ((freeStack queue).drop (queue.freeCount-3)).length=3 := by
    rw [List.length_drop,hl]
    omega
  obtain ⟨d2,d1,d0,htop⟩ := List.length_eq_three.mp hd
  have hsplit := (List.take_append_drop (queue.freeCount-3) (freeStack queue)).symm
  rw [htop] at hsplit
  have hbelow : ∀ d∈[d2,d1,d0],d<queue.num := by
    intro d hm
    refine h.below d (List.mem_append_left _ ?_)
    rw [hsplit]
    exact List.mem_append_right _ hm
  have b2 := hbelow d2 (by simp)
  have b1 := hbelow d1 (by simp)
  have b0 := hbelow d0 (by simp)
  have hsmall := h.small
  refine ⟨_,d0,d1,d2,hsplit,?_⟩
  rw [Descriptors]
  omega

/-- A call that fails before the notification leaves the ring alone and may
have taken descriptors off the stack. -/
theorem submit_fails (h : Stocked queue []) {error : Error}
    (hs : submit translate queue call=(.error error,after)) :
    ∃ count≤queue.freeCount,after=cut queue count := by
  by_cases hv : call.Valid
  · by_cases hn : queue.freeCount<3
    · rw [submit_short hv hn] at hs
      exact ⟨0,Nat.zero_le _,(Prod.mk.inj hs).2.symm⟩
    · obtain ⟨rest,d0,d1,d2,hstack,hd⟩ := h.top (by omega)
      have hle : rest.length≤queue.freeCount := by
        rw [←freeStack_length,hstack,List.length_append]
        omega
      by_cases ht : ∃ hdrPa bufPa stPa,Translated translate call hdrPa bufPa stPa
      · obtain ⟨hdrPa,bufPa,stPa,ht⟩ := ht
        rw [submit_ok hv hstack hd ht] at hs
        cases hs
      · obtain ⟨e,he⟩ := submit_untranslated hv hstack hd ht
        rw [he] at hs
        exact ⟨rest.length,hle,(Prod.mk.inj hs).2.symm⟩
  · rw [submit,if_pos (not_not.mp hv)] at hs
    exact ⟨queue.freeCount,le_rfl,(Prod.mk.inj hs).2.symm⟩

/-- A call that is notified has taken three descriptors and published
them. -/
theorem submit_posts (h : Stocked queue []) {submitted : Submitted}
    (hs : submit translate queue call=(.ok submitted,after)) :
    call.Valid ∧ Enters queue call ∧ ∃ rest hdrPa bufPa stPa,
      freeStack queue=rest++[submitted.d2,submitted.d1,submitted.d0] ∧
      Translated translate call hdrPa bufPa stPa ∧
      after=publish (VirtioDescriptors.cut queue rest.length) call submitted.d0 submitted.d1
        submitted.d2 hdrPa bufPa stPa := by
  have hv : call.Valid := by
    by_contra hv
    rw [submit,if_pos (not_not.mp hv)] at hs
    cases hs
  have hn : 3≤queue.freeCount := by
    by_contra hn
    rw [submit_short hv (by omega)] at hs
    cases hs
  obtain ⟨rest,d0,d1,d2,hstack,hd⟩ := h.top hn
  have hp := pops hstack
  have henters : Enters queue call := by
    refine ⟨hv,?_⟩
    rw [hp.1]
    dsimp only
    rw [hp.2.1]
    dsimp only
    rw [hp.2.2.1]
    exact hd
  by_cases ht : ∃ hdrPa bufPa stPa,Translated translate call hdrPa bufPa stPa
  · obtain ⟨hdrPa,bufPa,stPa,ht⟩ := ht
    rw [submit_ok hv hstack hd ht] at hs
    cases hs
    exact ⟨hv,henters,rest,hdrPa,bufPa,stPa,hstack,ht,rfl⟩
  · obtain ⟨e,he⟩ := submit_untranslated hv hstack hd ht
    rw [he] at hs
    cases hs

end Queue

end WorkbenchOS.VirtioDisk
