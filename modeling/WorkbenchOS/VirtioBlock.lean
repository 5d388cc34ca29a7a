import WorkbenchOS.LibStd

/-!
# The virtio block driver

The queue of `VirtioBlockDevice`: a descriptor table, the available and used
indices shared with the device, and a private stack of free descriptor
indices. `rw` is cut where the device takes over: `submit` runs up to the
notification, `reclaim` from the end of the polling loop on. Translation of
addresses and the reply of the device are parameters.
-/

namespace WorkbenchOS.VirtioBlock

open LibStd

/-- `VDesc`. -/
structure VDesc where
  /-- Physical address of the segment. -/
  addr : ℕ
  /-- Its bytes. -/
  len : ℕ
  /-- `VRING_DESC_F_NEXT` and `VRING_DESC_F_WRITE`. -/
  flags : ℕ
  /-- The next descriptor of the chain. -/
  next : ℕ
  deriving DecidableEq

/-- `VRING_DESC_F_NEXT`. -/
def descFNext : ℕ := 1

/-- `VRING_DESC_F_WRITE`: the device writes the segment. -/
def descFWrite : ℕ := 2

/-- `BlkReq`, the header the device reads. -/
structure BlkReq where
  /-- 0 to read, 1 to write. -/
  type : ℕ
  /-- Always 0. -/
  reserved : ℕ
  /-- First sector. -/
  sector : ℕ
  deriving DecidableEq

/-- `Vring` and the ring memory it points to. -/
structure Vring where
  /-- `num`. -/
  num : ℕ
  /-- The descriptor table. -/
  desc : ℕ→VDesc
  /-- `avail->idx`. -/
  availIdx : ℕ
  /-- `vring_avail_ring(avail)`. -/
  availRing : ℕ→ℕ
  /-- `used->idx`. -/
  usedIdx : ℕ
  /-- `used_idx_shadow`. -/
  usedIdxShadow : ℕ
  /-- `free`. -/
  free : ℕ→ℕ
  /-- `free_count`. -/
  freeCount : ℕ

/-- Wrap to the 16 bits of a ring index. -/
def u16 (value : ℕ) : ℕ := value%2^16

/-- `VirtioBlockDevice::pop_free`. -/
def popFree (queue : Vring) : ℕ×Vring :=
  if queue.freeCount=0 then (0xffff,queue)
  else (queue.free (queue.freeCount-1),{queue with freeCount := queue.freeCount-1})

/-- `VirtioBlockDevice::push_free`. -/
def pushFree (queue : Vring) (index : ℕ) : Vring :=
  {queue with
    free := Function.update queue.free queue.freeCount index
    freeCount := u16 (queue.freeCount+1)}

/-- `VirtioBlockDevice::setup_queue0` over the ring memory it is given, once
the pages are there; the device without queues is refused. -/
def setupQueue0 (preferredNum qmax : ℕ) (desc : ℕ→VDesc) (availRing : ℕ→ℕ) : Option Vring :=
  if qmax=0 then none
  else
    let queueNum := if preferredNum≠0 ∧ preferredNum≤qmax then preferredNum else qmax
    some {
      num := queueNum
      desc := desc
      availIdx := 0
      availRing := availRing
      usedIdx := 0
      usedIdxShadow := 0
      free := fun i => queueNum-1-i
      freeCount := queueNum}

/-- The arguments of `rw` and the places of its two stack variables. -/
structure Call where
  /-- `write`. -/
  write : Bool
  /-- `lba`. -/
  lba : ℕ
  /-- `src_or_null`. -/
  src : ℕ
  /-- `dst_or_null`. -/
  dst : ℕ
  /-- `bytes`. -/
  bytes : ℕ
  /-- `&hdr`. -/
  header : ℕ
  /-- `&status`. -/
  status : ℕ

/-- The buffer a call transfers. -/
def Call.buffer (call : Call) : ℕ := if call.write then call.src else call.dst

/-- The length check that opens `rw`. -/
def Call.Valid (call : Call) : Prop := ¬(call.bytes=0 ∨ call.bytes%512≠0)

instance (call : Call) : Decidable call.Valid := inferInstanceAs (Decidable (¬_))

/-- A request in flight: its three descriptors and its header. -/
structure Submitted where
  /-- `d0`. -/
  d0 : ℕ
  /-- `d1`. -/
  d1 : ℕ
  /-- `d2`. -/
  d2 : ℕ
  /-- `hdr`. -/
  hdr : BlkReq
  deriving DecidableEq

/-- The stores of `rw` from the header descriptor to `avail->idx`. -/
def publish (queue : Vring) (call : Call) (d0 d1 d2 hdrPa bufPa stPa : ℕ) : Vring :=
  let header : VDesc := ⟨hdrPa,16,descFNext,d1⟩
  let data : VDesc :=
    ⟨bufPa,call.bytes,descFNext ||| (if call.write then 0 else descFWrite),d2⟩
  let status : VDesc := ⟨stPa,1,descFWrite,0⟩
  {queue with
    desc := Function.update (Function.update (Function.update queue.desc d0 header) d1 data)
      d2 status
    availRing := Function.update queue.availRing (queue.availIdx%queue.num) d0
    availIdx := u16 (queue.availIdx+1)}

/-- Everything `rw` does after its length check, up to the notification. -/
def submitValid (translate : ℕ→Except Error ℕ) (queue : Vring) (call : Call) :
    Except Error Submitted×Vring :=
  let (d0,queue) := popFree queue
  let (d1,queue) := popFree queue
  let (d2,queue) := popFree queue
  if d0=0xffff ∨ d1=0xffff ∨ d2=0xffff then (.error (.fromCode 2),queue)
  else
    let hdr : BlkReq := ⟨if call.write then 1 else 0,0,call.lba⟩
    match translate call.header with
    | .error e => (.error e,queue)
    | .ok hdrPa =>
      match translate call.buffer with
      | .error e => (.error e,queue)
      | .ok bufPa =>
        match translate call.status with
        | .error e => (.error e,queue)
        | .ok stPa =>
          (.ok ⟨d0,d1,d2,hdr⟩,publish queue call d0 d1 d2 hdrPa bufPa stPa)

/-- `VirtioBlockDevice::rw` up to the notification. -/
def submit (translate : ℕ→Except Error ℕ) (queue : Vring) (call : Call) :
    Except Error Submitted×Vring :=
  if call.bytes=0 ∨ call.bytes%512≠0 then (.error (.fromCode 1),queue)
  else submitValid translate queue call

/-- `VirtioBlockDevice::rw` after the polling loop. -/
def reclaim (queue : Vring) (submitted : Submitted) : Vring :=
  pushFree (pushFree (pushFree
    {queue with usedIdxShadow := u16 (queue.usedIdxShadow+1)}
    submitted.d0) submitted.d1) submitted.d2

/-- What the device leaves behind: the used index the polling loop sees last
and the status byte. -/
structure Reply where
  /-- `used->idx`. -/
  usedIdx : ℕ
  /-- `status`. -/
  status : ℕ

/-- `VirtioBlockDevice::rw`. A device that never moves the used index keeps
the polling loop from ending, and there is no result. -/
def rw (translate : ℕ→Except Error ℕ) (queue : Vring) (call : Call) (reply : Reply) :
    Option (Except Error Unit×Vring) :=
  match submit translate queue call with
  | (.error e,queue) => some (.error e,queue)
  | (.ok submitted,queue) =>
    if reply.usedIdx=queue.usedIdxShadow then none
    else
      let queue := reclaim {queue with usedIdx := reply.usedIdx} submitted
      some (if reply.status=0 then .ok () else .error (.fromCode reply.status),queue)

/-- `VirtioBlockDevice::read`: the size is narrowed to the 32 bits of
`bytes`. -/
def readCall (offset size buffer header status : ℕ) : Call where
  write := false
  lba := offset
  src := 0
  dst := buffer
  bytes := size%2^32
  header := header
  status := status

/-- `VirtioBlockDevice::write`. -/
def writeCall (offset size buffer header status : ℕ) : Call where
  write := true
  lba := offset
  src := buffer
  dst := 0
  bytes := size%2^32
  header := header
  status := status

end WorkbenchOS.VirtioBlock
