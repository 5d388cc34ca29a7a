import WorkbenchOS.MemoryManagement
import WorkbenchOS.Simulations
import WorkbenchOS.VirtioDetection
import WorkbenchOS.VirtioService

/-!
# The virtio ring in memory

The descriptor table, the available ring and the used ring as bytes of the
pages `setup_queue0` is given. The driver reaches them through pointers into
the window of physical memory and stores one field after another; the device
computes its own addresses from the page number it was handed and sees every
store at once. A request exists for the device from the store of the available
index on, and from there on the two sides together are the machine whose calls
are those of a disk.
-/

namespace WorkbenchOS.VirtioMemory

open ByteMemory Fat32 LibStd TransitionRuns
open MemoryManagement (physicalMappingBase)
open VirtioBlock (VDesc Call Submitted u16 descFNext descFWrite)
open VirtioDetection (vringSizeBytes)
open VirtioDisk (Device Outcome Pending storeThrough loadThrough prepared Reaches Replays)

section Model

/-- `Vring`, with its pointers as addresses. -/
structure Vring where
  /-- `num`. -/
  num : ℕ
  /-- `desc`. -/
  desc : ℕ
  /-- `avail`. -/
  avail : ℕ
  /-- `used`. -/
  used : ℕ
  /-- `used_idx_shadow`. -/
  usedIdxShadow : ℕ
  /-- `free`. -/
  free : ℕ→ℕ
  /-- `free_count`. -/
  freeCount : ℕ

/-- The bytes of a word in memory. -/
def wordBytes (count value : ℕ) : List UInt8 :=
  (List.range count).map (fun i => UInt8.ofNat (value/256^i))

/-- A store of the processor. -/
structure Store where
  /-- Where. -/
  address : ℕ
  /-- How many bytes. -/
  count : ℕ
  /-- What. -/
  value : ℕ

/-- Memory after a store, through the translation of the processor. -/
def Store.apply (mmu : ℕ→ℕ) (memory : Memory) (store : Store) : Memory :=
  storeThrough mmu memory store.address (wordBytes store.count store.value)

/-- What the processor loads. -/
def loadWord (mmu : ℕ→ℕ) (memory : Memory) (address count : ℕ) : ℕ :=
  readLE (fun x => memory (mmu x)) address count

/-- A pointer rounded up to `VRING_ALIGN`. -/
def alignUp (address : ℕ) : ℕ := u64 (address+4095)/4096*4096

/-- `vring_avail_ring`. -/
def vringAvailRing (avail : ℕ) : ℕ := avail+4

/-- `VirtioBlockDevice::setup_queue0` from the allocated pages on: the queue,
memory with both indices cleared, and the page number the device is given. -/
def setupQueue0 (mmu : ℕ→ℕ) (preferredNum qmax ringPhys : ℕ) (memory : Memory) :
    Option (Vring×Memory×ℕ) :=
  if qmax=0 then none
  else
    let queueNum := if preferredNum≠0 ∧ preferredNum≤qmax then preferredNum else qmax
    let desc := u64 (ringPhys+physicalMappingBase)
    let avail := u64 (desc+16*queueNum)
    let used := alignUp (u64 (avail+4+2*queueNum))
    let memory := Store.apply mmu memory ⟨used+2,2,0⟩
    let memory := Store.apply mmu memory ⟨avail+2,2,0⟩
    some (⟨queueNum,desc,avail,used,0,fun i => queueNum-1-i,queueNum⟩,memory,
      ringPhys/2^12%2^32)

/-- `VirtioBlockDevice::pop_free`. -/
def popFree (ring : Vring) : ℕ×Vring :=
  if ring.freeCount=0 then (0xffff,ring)
  else (ring.free (ring.freeCount-1),{ring with freeCount := ring.freeCount-1})

/-- `VirtioBlockDevice::push_free`. -/
def pushFree (ring : Vring) (index : ℕ) : Vring :=
  {ring with
    free := Function.update ring.free ring.freeCount index
    freeCount := u16 (ring.freeCount+1)}

/-- The length check of `rw` and its three pops. -/
def takeDescriptors (ring : Vring) (call : Call) : Except Error (ℕ×ℕ×ℕ)×Vring :=
  if call.bytes=0 ∨ call.bytes%512≠0 then (.error (.fromCode 1),ring)
  else
    let (d0,ring) := popFree ring
    let (d1,ring) := popFree ring
    let (d2,ring) := popFree ring
    if d0=0xffff ∨ d1=0xffff ∨ d2=0xffff then (.error (.fromCode 2),ring)
    else (.ok (d0,d1,d2),ring)

/-- The three translations of `rw`. -/
def translateRequest (translate : ℕ→Except Error ℕ) (call : Call) : Except Error (ℕ×ℕ×ℕ) :=
  match translate call.header with
  | .error e => .error e
  | .ok hdrPa =>
    match translate call.buffer with
    | .error e => .error e
    | .ok bufPa =>
      match translate call.status with
      | .error e => .error e
      | .ok stPa => .ok (hdrPa,bufPa,stPa)

/-- The stores to the four members of `m_q.desc[d]`. -/
def describe (ring : Vring) (d : ℕ) (desc : VDesc) : List Store :=
  [⟨ring.desc+16*d,8,desc.addr⟩,⟨ring.desc+16*d+8,4,desc.len⟩,
    ⟨ring.desc+16*d+12,2,desc.flags⟩,⟨ring.desc+16*d+14,2,desc.next⟩]

/-- The stores of `rw` to its three descriptors. -/
def descriptorStores (ring : Vring) (call : Call) (d0 d1 d2 hdrPa bufPa stPa : ℕ) :
    List Store :=
  describe ring d0 ⟨hdrPa,16,descFNext,d1⟩++
    describe ring d1
      ⟨bufPa,call.bytes,descFNext ||| (if call.write then 0 else descFWrite),d2⟩++
    describe ring d2 ⟨stPa,1,descFWrite,0⟩

/-- The store of the available index. -/
def indexStore (ring : Vring) (availIndex : ℕ) : Store := ⟨ring.avail+2,2,availIndex+1⟩

/-- The stores of `rw` to the available ring. -/
def availStores (ring : Vring) (d0 availIndex : ℕ) : List Store :=
  [⟨vringAvailRing ring.avail+2*(availIndex%ring.num),2,d0⟩,indexStore ring availIndex]

/-- `VirtioBlockDevice::rw` after the polling loop. -/
def reclaim (ring : Vring) (submitted : Submitted) : Vring :=
  pushFree (pushFree (pushFree
    {ring with usedIdxShadow := u16 (ring.usedIdxShadow+1)}
    submitted.d0) submitted.d1) submitted.d2

/-- Where the driver is. -/
inductive Driver where
  /-- Outside `rw`. -/
  | idle
  /-- It has stores to the descriptor table left. -/
  | describing (pending : Pending) (todo : List Store)
  /-- It has stores to the available ring left. -/
  | entering (pending : Pending) (todo : List Store)
  /-- In the polling loop. -/
  | polling (pending : Pending)

/-- The call the driver is in. -/
def Driver.pending : Driver→Option Pending
  | .idle => none
  | .describing pending _ => some pending
  | .entering pending _ => some pending
  | .polling pending => some pending

/-- Driver, device, memory and disk. -/
structure Machine where
  /-- What the driver keeps. -/
  ring : Vring
  /-- The queue size of the device. -/
  qmax : ℕ
  /-- The page number the device was given. -/
  pfn : ℕ
  /-- Physical memory, with the ring in it. -/
  memory : Memory
  /-- What the device stores. -/
  disk : BlockDevice
  /-- The device. -/
  device : Device
  /-- The driver. -/
  driver : Driver
  /-- The calls that have returned. -/
  history : List Outcome

/-- The available ring in the pages of a queue. -/
def availAt (base num : ℕ) : ℕ := base+16*num

/-- The used ring, on the next page boundary. -/
def usedAt (base num : ℕ) : ℕ := (availAt base num+4+2*num+4095)/4096*4096

/-- A descriptor in memory. -/
def readDesc (memory : Memory) (address : ℕ) : VDesc where
  addr := readLE memory address 8
  len := readLE memory (address+8) 4
  flags := readLE memory (address+12) 2
  next := readLE memory (address+14) 2

/-- The queue whose shared part lies in the pages from `base` on. -/
def queueOf (base num : ℕ) (ring : Vring) (memory : Memory) : VirtioBlock.Vring where
  num := num
  desc := fun i => if i<num then readDesc memory (base+16*i) else ⟨0,0,0,0⟩
  availIdx := readLE memory (availAt base num+2) 2
  availRing := fun i => if i<num then readLE memory (availAt base num+4+2*i) 2 else 0
  usedIdx := readLE memory (usedAt base num+2) 2
  usedIdxShadow := ring.usedIdxShadow
  free := ring.free
  freeCount := ring.freeCount

/-- The first byte of the ring for the device. -/
def Machine.base (machine : Machine) : ℕ := machine.pfn*4096

/-- The queue in the memory of the machine. -/
def Machine.queue (machine : Machine) : VirtioBlock.Vring :=
  queueOf machine.base machine.qmax machine.ring machine.memory

/-- What the device sees: the ring where it takes it to be. -/
def Machine.seen (machine : Machine) : VirtioDisk.Machine where
  queue := machine.queue
  memory := machine.memory
  disk := machine.disk
  device := machine.device
  driver := .idle
  history := machine.history

/-- A step of the device beside the ring. -/
def Machine.serves (machine : Machine) (action : VirtioDisk.Action) : Option Machine :=
  (VirtioDisk.step machine.seen action).map (fun next => {machine with
    memory := next.memory
    disk := next.disk
    device := next.device})

/-- The used element and the used index as the device writes them. -/
def Machine.completed (machine : Machine) (length : ℕ) : Memory :=
  let used := usedAt machine.base machine.qmax
  let slot := used+4+8*(machine.queue.usedIdx%machine.qmax)
  let id := machine.queue.availRing (machine.device.index%machine.qmax)
  writeLE (writeLE (writeLE machine.memory slot 4 id) (slot+4) 4 length) (used+2) 2
    (machine.queue.usedIdx+1)

/-- One step of one of the parties. -/
inductive Action where
  /-- `rw` up to its stores to the ring, or to its return if it fails. -/
  | enter (translate : ℕ→Except Error ℕ) (mmu : ℕ→ℕ) (call : Call)
  /-- The next store of `rw` to the ring, or the notification after the last. -/
  | publish
  /-- The device takes an entry of the ring. -/
  | take
  /-- It transfers a byte. -/
  | move (i : ℕ)
  /-- It writes the status byte. -/
  | report (status : UInt8)
  /-- It writes the used element, with any length, and the used index. -/
  | finish (length : ℕ)
  /-- It has caught up. -/
  | rest
  /-- One test of the polling loop, and the rest of `rw` when it ends. -/
  | poll
  /-- A store of other code. -/
  | store (address : ℕ) (value : UInt8)

/-- A call that returns before it has published anything. -/
def Machine.fails (machine : Machine) (ring : Vring) (memory : Memory) (mmu : ℕ→ℕ) (call : Call)
    (error : Error) : Machine :=
  let sent := loadThrough mmu memory call.buffer call.bytes
  {machine with
    ring := ring
    memory := memory
    history := machine.history++[⟨call,.error error,sent,sent⟩]}

/-- One step; a step the party cannot take has no result. -/
def step (machine : Machine) : Action→Option Machine
  | .enter translate mmu call =>
    match machine.driver with
    | .idle =>
      match takeDescriptors machine.ring call with
      | (.error error,ring) => some (machine.fails ring machine.memory mmu call error)
      | (.ok (d0,d1,d2),ring) =>
        let memory := prepared mmu machine.memory call
        match translateRequest translate call with
        | .error error => some (machine.fails ring memory mmu call error)
        | .ok (hdrPa,bufPa,stPa) => some {machine with
            ring := ring
            memory := memory
            driver := .describing
              ⟨mmu,call,⟨d0,d1,d2,VirtioDescriptors.Call.request call⟩,
                loadThrough mmu memory call.buffer call.bytes⟩
              (descriptorStores ring call d0 d1 d2 hdrPa bufPa stPa)}
    | _ => none
  | .publish =>
    match machine.driver with
    | .describing pending (store::todo) => some {machine with
        memory := store.apply pending.mmu machine.memory
        driver := .describing pending todo}
    | .describing pending [] => some {machine with
        driver := .entering pending (availStores machine.ring pending.submitted.d0
          (loadWord pending.mmu machine.memory (machine.ring.avail+2) 2))}
    | .entering pending (store::todo) => some {machine with
        memory := store.apply pending.mmu machine.memory
        driver := .entering pending todo}
    | .entering pending [] => some {machine with
        device := {machine.device with running := true}
        driver := .polling pending}
    | _ => none
  | .take => machine.serves .take
  | .move i => machine.serves (.move i)
  | .report status => machine.serves (.report status)
  | .finish length =>
    (VirtioDisk.step machine.seen .finish).map (fun next => {machine with
      memory := machine.completed length
      device := next.device})
  | .rest => machine.serves .rest
  | .poll =>
    match machine.driver with
    | .polling pending =>
      if loadWord pending.mmu machine.memory (machine.ring.used+2) 2=machine.ring.usedIdxShadow
      then some machine
      else some {machine with
        ring := reclaim machine.ring pending.submitted
        driver := .idle
        history := machine.history++[pending.outcome machine.memory]}
    | _ => none
  | .store address value =>
    some {machine with memory := Function.update machine.memory address value}

end Model

section Conditions

/-- The pages of the ring. -/
def Machine.InRing (machine : Machine) (address : ℕ) : Prop :=
  machine.base≤address ∧ address< machine.base+vringSizeBytes machine.qmax

/-- The used ring. -/
def Machine.InUsed (machine : Machine) (address : ℕ) : Prop :=
  usedAt machine.base machine.qmax≤address ∧
    address< machine.base+vringSizeBytes machine.qmax

/-- The pointers of the driver lead into the pages of the ring. -/
def Machine.Maps (machine : Machine) (mmu : ℕ→ℕ) : Prop :=
  ∀ i<vringSizeBytes machine.qmax,mmu (machine.ring.desc+i)=machine.base+i

/-- The memory a call names is not the ring. -/
structure Machine.Beside (machine : Machine) (mmu : ℕ→ℕ) (call : Call) : Prop where
  /-- `hdr`. -/
  header : ∀ i<16,¬machine.InRing (mmu (call.header+i))
  /-- The buffer. -/
  buffer : ∀ i<call.bytes,¬machine.InRing (mmu (call.buffer+i))
  /-- `status`. -/
  status : ¬machine.InRing (mmu call.status)

/-- What a call that comes to publish relies on. -/
structure Publishes (translate : ℕ→Except Error ℕ) (mmu : ℕ→ℕ) (call : Call) : Prop where
  /-- Its memory. -/
  reaches : Reaches translate mmu call
  /-- A physical address has 64 bits. -/
  header : mmu call.header<2^64
  /-- So has that of the buffer. -/
  buffer : mmu call.buffer<2^64
  /-- And that of the status byte. -/
  status : mmu call.status<2^64
  /-- A length has 32 bits. -/
  bytes : call.bytes<2^32

/-- What the parties rely on: the processor maps the ring and the memory of a
call is elsewhere, and nobody else stores into the ring or, while a call is
under way, into its memory. -/
def Legal (machine : Machine) : Action→Prop
  | .enter translate mmu call => machine.Maps mmu ∧ machine.Beside mmu call ∧
      ((takeDescriptors machine.ring call).1.isOk=true →
        (translateRequest translate call).isOk=true → Publishes translate mmu call)
  | .store address _ => ¬machine.InRing address ∧
      ∀ pending,machine.driver.pending=some pending → ¬pending.Holds address
  | _ => True

/-- Steps of the device. -/
def Action.OfDevice : Action→Prop
  | .take => True
  | .move _ => True
  | .report _ => True
  | .finish _ => True
  | .rest => True
  | _ => False

/-- `setup_queue0` has set the queue up as `init` asks for it, in pages that
the window of physical memory holds; the device is reset and nothing has been
asked for. -/
structure Ready (machine : Machine) : Prop where
  /-- The queue, its memory and the page number. -/
  queue : ∃ mmu ringPhys memory,
    setupQueue0 mmu 0 machine.qmax ringPhys memory=some (machine.ring,machine.memory,machine.pfn) ∧
      ringPhys%4096=0 ∧ ringPhys+vringSizeBytes machine.qmax≤2^40 ∧
      ∀ i<vringSizeBytes machine.qmax,mmu (u64 (ringPhys+physicalMappingBase)+i)=ringPhys+i
  /-- A queue size has 16 bits. -/
  qmax : machine.qmax<2^16
  /-- The device. -/
  device : machine.device=⟨0,false,none⟩
  /-- The driver. -/
  driver : machine.driver=.idle
  /-- No call has been made. -/
  history : machine.history=[]

/-- A step of the device writes into the used ring, into the buffer of a read
and into the status byte, and leaves the driver alone. -/
structure Confined (machine next : Machine) : Prop where
  /-- The driver is where it was. -/
  driver : next.driver=machine.driver
  /-- It keeps what it has. -/
  ring : next.ring=machine.ring
  /-- Nothing returns. -/
  history : next.history=machine.history
  /-- What happens to memory. -/
  memory : ∀ x,next.memory x≠machine.memory x → machine.InUsed x ∨
    ∃ pending,machine.driver.pending=some pending ∧
      (x=pending.mmu pending.call.status ∨ pending.call.write=false ∧
        pending.mmu pending.call.buffer≤x ∧
          x<pending.mmu pending.call.buffer+pending.call.bytes)

end Conditions

end WorkbenchOS.VirtioMemory
