import WorkbenchOS.PciEnumeration
import WorkbenchOS.VirtioBlock

/-!
# Detection of the virtio block device

`detect_and_init` builds the error for an absent device and drops it: there is
no `return` in front. The pointer it goes on with is the null pointer that an
empty `Optional` holds, so the absent device is dereferenced, and initialised
when the memory at address zero looks like an I/O BAR. With a device in the
list the first one is used.
-/

namespace WorkbenchOS.VirtioDetection

open LibStd PciEnumeration VirtioBlock

/-- One access of an I/O port. -/
inductive Access where
  /-- `in8`, `in16` or `in32`, by the bytes. -/
  | read (width port : ℕ)
  /-- `out8`, `out16` or `out32`. -/
  | write (width port value : ℕ)
  deriving DecidableEq

/-- What the driver meets outside of it. -/
structure Machine where
  /-- What a port read returns after these accesses. -/
  reply : List Access→ℕ
  /-- `allocate_physical_pages`. -/
  allocate : ℕ→Except Error ℕ
  /-- The descriptor table in memory allocated at this address. -/
  desc : ℕ→ℕ→VDesc
  /-- The available ring there. -/
  availRing : ℕ→ℕ→ℕ
  /-- `m_bar0` of the object at the null pointer, unless reading it faults. -/
  nullBar0 : Option (BitVec 32)

/-- Code that records the ports it accesses. -/
abbrev Ports := StateM (List Access)

/-- A `Device *`. -/
abbrev Pointer := Option Device

/-- `Std::Optional`, whose storage is zero at first. -/
structure Optional (T : Type) where
  /-- `m_value`. -/
  value : T
  /-- `m_has_value`. -/
  hasValue : Bool

/-- `PCI::find_device`. -/
def findDevice (devices : List Device) (vendorId deviceId : ℕ) : Optional Pointer :=
  match devices.find? (fun device => device.vendorId=vendorId ∧ device.deviceId=deviceId) with
  | some device => ⟨some device,true⟩
  | none => ⟨none,false⟩

/-- `BarInfo`. -/
structure BarInfo where
  /-- `is_io`. -/
  isIo : Bool
  /-- `is_mem64`. -/
  isMem64 : Bool
  /-- `io_base`. -/
  ioBase : ℕ
  /-- `mmio_phys`. -/
  mmioPhys : ℕ

/-- `decode_bar`. -/
def decodeBar (barLo barHiIf64 : BitVec 32) : BarInfo :=
  if barLo &&& 1#32≠0#32 then ⟨true,false,((barLo &&& ~~~3#32).truncate 16).toNat,0⟩
  else if barLo &&& 6#32=4#32 then
    ⟨false,true,0,barHiIf64.toNat*2^32+(barLo &&& ~~~0xf#32).toNat⟩
  else ⟨false,false,0,(barLo &&& ~~~0xf#32).toNat⟩

/-- The port of a register. -/
def portOf (ioBase offset : ℕ) : ℕ := u16 (ioBase+offset)

/-- A read of a register of some bytes. -/
def reg (width : ℕ) (machine : Machine) (ioBase offset : ℕ) : Ports ℕ := do
  let accesses ← get
  set (accesses++[.read width (portOf ioBase offset)])
  pure (machine.reply accesses%256^width)

/-- `reg8`. -/
def reg8 : Machine→ℕ→ℕ→Ports ℕ := reg 1

/-- `reg16`. -/
def reg16 : Machine→ℕ→ℕ→Ports ℕ := reg 2

/-- `reg32`. -/
def reg32 : Machine→ℕ→ℕ→Ports ℕ := reg 4

/-- A write of a register of some bytes. -/
def wr (width ioBase offset value : ℕ) : Ports Unit :=
  modify (fun accesses => accesses++[.write width (portOf ioBase offset) (value%256^width)])

/-- `wr8`. -/
def wr8 : ℕ→ℕ→ℕ→Ports Unit := wr 1

/-- `wr16`. -/
def wr16 : ℕ→ℕ→ℕ→Ports Unit := wr 2

/-- `wr32`. -/
def wr32 : ℕ→ℕ→ℕ→Ports Unit := wr 4

/-- `VIRTIO_PCI_HOST_FEATURES`. -/
def hostFeatures : ℕ := 0x00

/-- `VIRTIO_PCI_GUEST_FEATURES`. -/
def guestFeatures : ℕ := 0x04

/-- `VIRTIO_PCI_QUEUE_PFN`. -/
def queuePfn : ℕ := 0x08

/-- `VIRTIO_PCI_QUEUE_NUM`. -/
def queueNumber : ℕ := 0x0c

/-- `VIRTIO_PCI_QUEUE_SEL`. -/
def queueSel : ℕ := 0x0e

/-- `VIRTIO_PCI_STATUS`. -/
def pciStatus : ℕ := 0x12

/-- `VIRTIO_PCI_DEVICE_CONFIG`. -/
def deviceConfig : ℕ := 0x14

/-- `S_ACK`. -/
def statusAck : ℕ := 1

/-- `S_DRIVER`. -/
def statusDriver : ℕ := 2

/-- `S_DRIVER_OK`. -/
def statusDriverOk : ℕ := 4

/-- `S_FEATURES_OK`. -/
def statusFeaturesOk : ℕ := 8

/-- `S_FAILED`. -/
def statusFailed : ℕ := 0x80

/-- `vring_size_bytes`. -/
def vringSizeBytes (num : ℕ) : ℕ := (16*num+(4+2*num)+4095)/4096*4096+(4+8*num)

/-- The members of `VirtioBlockDevice`. -/
structure VirtioBlockDevice where
  /-- `m_io_base`. -/
  ioBase : ℕ
  /-- `m_capacity_sectors`. -/
  capacitySectors : ℕ
  /-- `m_ring_phys`. -/
  ringPhys : ℕ
  /-- `m_ring_bytes`. -/
  ringBytes : ℕ
  /-- `m_q`. -/
  queue : Vring

/-- `VirtioBlockDevice::setup_queue0`, with the address and the bytes of the
ring. -/
def setupQueue (machine : Machine) (ioBase preferredNum : ℕ) : Ports (Option (ℕ×ℕ×Vring)) := do
  wr16 ioBase queueSel 0
  let qmax ← reg16 machine ioBase queueNumber
  if qmax=0 then pure none
  else
    let queueNum := if preferredNum≠0 ∧ preferredNum≤qmax then preferredNum else qmax
    match machine.allocate ((vringSizeBytes queueNum+4095)/4096) with
    | .error _ => pure none
    | .ok ringPhys => do
      wr32 ioBase queuePfn (ringPhys/2^12)
      pure ((setupQueue0 preferredNum qmax (machine.desc ringPhys) (machine.availRing ringPhys)).map
        (fun queue => (ringPhys,vringSizeBytes queueNum,queue)))

/-- `VirtioBlockDevice::init`; no device where it returns false. -/
def init (machine : Machine) (ioBase : ℕ) : Ports (Option VirtioBlockDevice) := do
  wr8 ioBase pciStatus 0
  wr8 ioBase pciStatus ((← reg8 machine ioBase pciStatus) ||| statusAck)
  wr8 ioBase pciStatus ((← reg8 machine ioBase pciStatus) ||| statusDriver)
  let _ ← reg32 machine ioBase hostFeatures
  wr32 ioBase guestFeatures 0
  wr8 ioBase pciStatus ((← reg8 machine ioBase pciStatus) ||| statusFeaturesOk)
  if (← reg8 machine ioBase pciStatus) &&& statusFeaturesOk=0 then
    wr8 ioBase pciStatus statusFailed
    pure none
  else
    match ← setupQueue machine ioBase 0 with
    | none =>
      wr8 ioBase pciStatus statusFailed
      pure none
    | some (ringPhys,ringBytes,queue) =>
      let capLo ← reg32 machine ioBase deviceConfig
      let capHi ← reg32 machine ioBase (deviceConfig+4)
      wr8 ioBase pciStatus ((← reg8 machine ioBase pciStatus) ||| statusDriverOk)
      pure (some ⟨ioBase,capHi*2^32+capLo,ringPhys,ringBytes,queue⟩)

/-- What a detection returned and did. -/
structure Outcome where
  /-- The result, none where reading memory faults. -/
  result : Option (Except Error VirtioBlockDevice)
  /-- The device pointers followed, after the search. -/
  dereferenced : List Pointer
  /-- The I/O bases `init` was called with. -/
  initialised : List ℕ
  /-- The ports accessed. -/
  ports : List Access

/-- `pci_device->bar0()`. -/
def bar0Of (machine : Machine) : Pointer→Option (BitVec 32)
  | some device => some device.bar0
  | none => machine.nullBar0

/-- The call of `init` in `detect_and_init`. -/
def initAt (machine : Machine) (pointer : Pointer) (ioBase : ℕ) : Outcome :=
  let (device,ports) := (init machine ioBase).run []
  ⟨some (match device with
    | some device => .ok device
    | none => .error (.fromCode 1)),[pointer],[ioBase],ports⟩

/-- `VirtioBlockDevice::detect_and_init`. Nothing depends on `is_present`: the
error made without it is not returned. -/
def detectAndInit (machine : Machine) (devices : List Device) : Outcome :=
  let pciDevice := (findDevice devices 0x1af4 0x1001).value
  match bar0Of machine pciDevice with
  | none => ⟨none,[pciDevice],[],[]⟩
  | some bar =>
    let bar0 := decodeBar bar 0
    if bar0.isIo then initAt machine pciDevice bar0.ioBase
    else ⟨some (.error (.fromCode 1)),[pciDevice],[],[]⟩

/-- A virtio block device. -/
def IsVirtioBlock (device : Device) : Bool := device.vendorId=0x1af4 ∧ device.deviceId=0x1001

/-- An I/O BAR. -/
def IsIoBar (bar : BitVec 32) : Prop := bar &&& 1#32≠0#32

/-- Detection does for these devices what it should. -/
structure Detects (machine : Machine) (devices : List Device) : Prop where
  /-- No device: an error, and no device or port is touched. -/
  absent : (∀ device∈devices,¬IsVirtioBlock device) →
    (∃ error,(detectAndInit machine devices).result=some (.error error)) ∧
      (detectAndInit machine devices).dereferenced=[] ∧
      (detectAndInit machine devices).ports=[]
  /-- The first device with an I/O BAR is initialised at its base. -/
  io : ∀ device,devices.find? IsVirtioBlock=some device → IsIoBar device.bar0 →
    detectAndInit machine devices=initAt machine (some device) (device.bar0 &&& ~~~3#32).toNat
  /-- With another BAR it is an error, and no port is touched. -/
  memory : ∀ device,devices.find? IsVirtioBlock=some device → ¬IsIoBar device.bar0 →
    (∃ error,(detectAndInit machine devices).result=some (.error error)) ∧
      (detectAndInit machine devices).dereferenced=[some device] ∧
      (detectAndInit machine devices).ports=[]

section Bars

/-- Clearing the two low bits of a word shifts them out. -/
theorem clear_low_bits (bar : BitVec 32) : bar &&& ~~~3#32=(bar >>> 2) <<< 2 := by
  have hmask : ∀ i : Fin 32,(~~~3#32).getLsbD i=decide (2≤ i.val) := by decide
  apply BitVec.eq_of_getLsbD_eq
  intro i hi
  have hbit := hmask ⟨i,hi⟩
  rw [BitVec.getLsbD_and,hbit,BitVec.getLsbD_shiftLeft,BitVec.getLsbD_ushiftRight]
  by_cases h : 2≤ i
  · have hshift : 2+(i-2)=i := by omega
    simp only [h,hi,hshift,decide_true,Bool.and_true,Bool.true_and,
      decide_eq_false (by omega : ¬ i< 2),Bool.not_false]
  · simp only [h,decide_false,Bool.and_false,
      decide_eq_true (by omega : i< 2),Bool.not_true,Bool.false_and]

/-- The base is a multiple of four. -/
theorem base_toNat (bar : BitVec 32) : (bar &&& ~~~3#32).toNat=bar.toNat/4*4 := by
  have hlt := bar.isLt
  rw [clear_low_bits,BitVec.toNat_shiftLeft,BitVec.toNat_ushiftRight,Nat.shiftLeft_eq,
    Nat.shiftRight_eq_div_pow]
  omega

/-- `decode_bar` cuts the base of an I/O BAR to 16 bits. -/
theorem decodeBar_io {bar : BitVec 32} (h : IsIoBar bar) :
    decodeBar bar 0=⟨true,false,(bar &&& ~~~3#32).toNat%2^16,0⟩ := by
  have hbase : ((bar &&& ~~~3#32).truncate 16).toNat=(bar &&& ~~~3#32).toNat%2^16 :=
    BitVec.toNat_setWidth 16 _
  unfold IsIoBar at h
  rw [decodeBar,if_pos h,hbase]

/-- Any other BAR is none. -/
theorem decodeBar_memory {bar : BitVec 32} (h : ¬IsIoBar bar) :
    (decodeBar bar 0).isIo=false := by
  unfold IsIoBar at h
  rw [decodeBar,if_neg h]
  split_ifs <;> rfl

/-- Nothing is cut off a port number. -/
theorem base_mod_eq_iff (bar : BitVec 32) :
    (bar &&& ~~~3#32).toNat%2^16=(bar &&& ~~~3#32).toNat ↔ bar.toNat<2^16 := by
  rw [base_toNat]
  omega

end Bars

section Window

variable {ioBase : ℕ} {β γ : Type}

/-- The accesses are to the ports of the registers. -/
def InWindow (ioBase : ℕ) (accesses : List Access) : Prop :=
  ∀ access∈accesses,∃ offset≤24,∃ width value,access=.read width (portOf ioBase offset) ∨
    access=.write width (portOf ioBase offset) value

/-- The code stays in the window. -/
def Confined (ioBase : ℕ) (code : Ports β) : Prop :=
  ∀ accesses,InWindow ioBase accesses → InWindow ioBase (code.run accesses).2

/-- One more access. -/
theorem InWindow.append {accesses : List Access} {access : Access}
    (h : InWindow ioBase accesses) (ha : InWindow ioBase [access]) :
    InWindow ioBase (accesses++[access]) := by
  intro other hother
  rcases List.mem_append.mp hother with hold|hnew
  · exact h other hold
  · exact ha other hnew

/-- Code without an access. -/
theorem confined_pure (value : β) : Confined ioBase (pure value : Ports β) := fun _ h => h

/-- One piece of code after another. -/
theorem Confined.bind {code : Ports β} {next : β→Ports γ} (h : Confined ioBase code)
    (hn : ∀ value,Confined ioBase (next value)) : Confined ioBase (code>>=next) := by
  intro accesses haccesses
  exact hn _ _ (h accesses haccesses)

/-- A read. -/
theorem confined_reg (width : ℕ) (machine : Machine) {offset : ℕ} (h : offset≤24) :
    Confined ioBase (reg width machine ioBase offset) := by
  intro accesses haccesses
  refine haccesses.append (fun access haccess => ⟨offset,h,width,0,Or.inl ?_⟩)
  exact List.mem_singleton.mp haccess

/-- A write. -/
theorem confined_wr (width : ℕ) {offset : ℕ} (value : ℕ) (h : offset≤24) :
    Confined ioBase (wr width ioBase offset value) := by
  intro accesses haccesses
  refine haccesses.append (fun access haccess => ⟨offset,h,width,value%256^width,Or.inr ?_⟩)
  exact List.mem_singleton.mp haccess

/-- The queue is set up through the registers. -/
theorem confined_setupQueue (machine : Machine) (ioBase preferredNum : ℕ) :
    Confined ioBase (setupQueue machine ioBase preferredNum) := by
  refine (confined_wr 2 0 (by decide)).bind (fun _ => ?_)
  refine (confined_reg 2 machine (by decide)).bind (fun qmax => ?_)
  by_cases hzero : qmax=0
  · rw [if_pos hzero]
    exact confined_pure none
  · rw [if_neg hzero]
    dsimp only
    split
    · exact confined_pure none
    · exact (confined_wr 4 _ (by decide)).bind (fun _ => confined_pure _)

/-- A bit of the status register is set. -/
theorem Confined.set_status {machine : Machine} {bit : ℕ} {next : Ports β}
    (h : Confined ioBase next) : Confined ioBase (do
      wr8 ioBase pciStatus ((← reg8 machine ioBase pciStatus) ||| bit)
      next) :=
  (confined_reg 1 machine (by decide)).bind
    (fun _ => (confined_wr 1 _ (by decide)).bind (fun _ => h))

/-- The device is given up. -/
theorem confined_failed : Confined ioBase (do
      wr8 ioBase pciStatus statusFailed
      pure (none : Option VirtioBlockDevice)) :=
  (confined_wr 1 _ (by decide)).bind (fun _ => confined_pure none)

/-- The device is initialised through its registers. -/
theorem confined_init (machine : Machine) (ioBase : ℕ) : Confined ioBase (init machine ioBase) := by
  refine (confined_wr 1 0 (by decide)).bind (fun _ => ?_)
  refine Confined.set_status (Confined.set_status ?_)
  refine (confined_reg 4 machine (by decide)).bind (fun _ => ?_)
  refine (confined_wr 4 0 (by decide)).bind (fun _ => ?_)
  refine Confined.set_status ((confined_reg 1 machine (by decide)).bind (fun status => ?_))
  by_cases hfeatures : status &&& statusFeaturesOk=0
  · rw [if_pos hfeatures]
    exact confined_failed
  · rw [if_neg hfeatures]
    refine (confined_setupQueue machine ioBase 0).bind (fun ring => ?_)
    cases ring with
    | none => exact confined_failed
    | some ring =>
      refine (confined_reg 4 machine (by decide)).bind (fun _ => ?_)
      refine (confined_reg 4 machine (by decide)).bind (fun _ => ?_)
      exact Confined.set_status (confined_pure _)

end Window

section Detection

variable {machine : Machine} {devices : List Device}

/-- The search returns the first device, or the null pointer. -/
theorem findDevice_value (devices : List Device) :
    (findDevice devices 0x1af4 0x1001).value=devices.find? IsVirtioBlock := by
  have hpredicate : (fun device : Device => decide (device.vendorId=0x1af4 ∧
      device.deviceId=0x1001))=IsVirtioBlock := rfl
  rw [findDevice,hpredicate]
  cases devices.find? IsVirtioBlock <;> rfl

/-- A pointer is followed in any case. -/
theorem dereferenced_eq (machine : Machine) (devices : List Device) :
    (detectAndInit machine devices).dereferenced=[devices.find? IsVirtioBlock] := by
  rw [detectAndInit,findDevice_value]
  dsimp only
  cases bar0Of machine (devices.find? IsVirtioBlock) with
  | none => rfl
  | some bar =>
    dsimp only
    split_ifs <;> rfl

/-- A device with an I/O BAR is initialised at the port number of its base. -/
theorem detectAndInit_io {device : Device} (hfind : devices.find? IsVirtioBlock=some device)
    (h : IsIoBar device.bar0) : detectAndInit machine devices=
      initAt machine (some device) ((device.bar0 &&& ~~~3#32).toNat%2^16) := by
  rw [detectAndInit,findDevice_value,hfind]
  dsimp only [bar0Of]
  rw [decodeBar_io h]
  rfl

/-- One with another BAR is refused. -/
theorem detectAndInit_memory {device : Device}
    (hfind : devices.find? IsVirtioBlock=some device) (h : ¬IsIoBar device.bar0) :
    detectAndInit machine devices=⟨some (.error (.fromCode 1)),[some device],[],[]⟩ := by
  rw [detectAndInit,findDevice_value,hfind]
  dsimp only [bar0Of]
  rw [decodeBar_memory h]
  rfl

/-- The only ports touched for it are those of its registers. -/
theorem detectAndInit_ports {device : Device}
    (hfind : devices.find? IsVirtioBlock=some device) (h : IsIoBar device.bar0) :
    InWindow ((device.bar0 &&& ~~~3#32).toNat%2^16) (detectAndInit machine devices).ports := by
  rw [detectAndInit_io hfind h]
  exact confined_init machine _ [] (fun access haccess => absurd haccess List.not_mem_nil)

/-- Where it is initialised tells the base. -/
theorem initAt_inj {pointer : Pointer} {base base' : ℕ}
    (h : initAt machine pointer base=initAt machine pointer base') : base=base' :=
  List.head_eq_of_cons_eq (congrArg Outcome.initialised h)

end Detection

/-- Detection does what it should exactly when a virtio block device is listed
and the first one, if it has an I/O BAR, has it among the 2^16 ports. -/
theorem detects_iff (machine : Machine) (devices : List Device) :
    Detects machine devices ↔ ∃ device,devices.find? IsVirtioBlock=some device ∧
      (IsIoBar device.bar0 → device.bar0.toNat<2^16) := by
  constructor
  · intro h
    cases hfind : devices.find? IsVirtioBlock with
    | none =>
      have hnone : ∀ device∈devices,¬IsVirtioBlock device := List.find?_eq_none.mp hfind
      have hdereferenced := (h.absent hnone).2.1
      rw [dereferenced_eq] at hdereferenced
      cases hdereferenced
    | some device =>
      refine ⟨device,rfl,fun hio => ?_⟩
      have hinit := h.io device hfind hio
      rw [detectAndInit_io hfind hio] at hinit
      exact (base_mod_eq_iff device.bar0).mp (initAt_inj hinit)
  · rintro ⟨device,hfind,hbase⟩
    have hlisted : ¬∀ device∈devices,¬IsVirtioBlock device := by
      intro hnone
      rw [List.find?_eq_none.mpr hnone] at hfind
      cases hfind
    refine ⟨fun hnone => absurd hnone hlisted,?_,?_⟩
    · intro first hfirst hio
      obtain rfl : device=first := Option.some.inj (hfind.symm.trans hfirst)
      rw [detectAndInit_io hfind hio,(base_mod_eq_iff device.bar0).mpr (hbase hio)]
    · intro first hfirst hmemory
      obtain rfl : device=first := Option.some.inj (hfind.symm.trans hfirst)
      rw [detectAndInit_memory hfind hmemory]
      exact ⟨⟨_,rfl⟩,rfl,rfl⟩

/-- A machine whose memory cannot be read at address zero. -/
def sampleMachine : Machine where
  reply := fun _ => 0
  allocate := fun _ => .ok 0x100000
  desc := fun _ _ => ⟨0,0,0,0⟩
  availRing := fun _ _ => 0
  nullBar0 := none

/-- Without a device the null pointer is followed, and nothing is returned. -/
theorem absent_not_refused : ¬Detects sampleMachine [] ∧
    (detectAndInit sampleMachine []).result.isNone ∧
    (detectAndInit sampleMachine []).dereferenced=[none] := by
  refine ⟨fun h => ?_,rfl,rfl⟩
  have habsent := (h.absent (by simp)).2.1
  cases habsent

end WorkbenchOS.VirtioDetection
