import WorkbenchOS.LibStd

/-!
# PCI enumeration

`PCI::initialise_legacy` over an arbitrary configuration space. Reading a
function recurses into functions 1 to 7 whenever its header sets the
multifunction bit, for every function and not only for function 0, so the
recursion takes a fuel and an enumeration that does not end has no result
for any fuel. Device objects come from a slab of fixed size; when it is used
up, `new` returns null and null is what is appended.
-/

namespace WorkbenchOS.PciEnumeration

open LibStd

/-- Contents of the registers of bus 0, by device, function and offset. -/
abbrev ConfigSpace := ℕ→ℕ→ℕ→BitVec 32

/-- `PCI::config_read_dword`: five bits of device and three of function reach
the bus. -/
def configReadDword (config : ConfigSpace) (device function offset : ℕ) : BitVec 32 :=
  config (device%32) (function%8) (offset%256)

/-- The fields of `Device` its constructor sets. -/
structure Device where
  /-- `m_vendor_id`. -/
  vendorId : ℕ
  /-- `m_device_id`. -/
  deviceId : ℕ
  /-- `m_bar0`. -/
  bar0 : BitVec 32
  /-- `m_bar1`. -/
  bar1 : BitVec 32
  /-- `m_bar2`. -/
  bar2 : BitVec 32
  /-- `m_bar3`. -/
  bar3 : BitVec 32
  deriving DecidableEq

/-- `m_devices`, null pointers included, and the free slots of the slab
`Device::operator new` takes its memory from. -/
structure Bus where
  /-- `m_devices`. -/
  devices : List (Option Device)
  /-- Device objects the slab can still supply. -/
  slots : ℕ
  deriving DecidableEq

/-- `m_devices.append(new Device(..))`. -/
def appendDevice (bus : Bus) (device : Device) : Bus :=
  ⟨bus.devices++[if bus.slots=0 then none else some device],bus.slots-1⟩

/-- The vendor id of an absent function is all ones. -/
def absent (config : ConfigSpace) (device function : ℕ) : Bool :=
  configReadDword config device function 0 &&& 0xffff#32=0xffff#32

/-- Bit 7 of the header type. -/
def isMultifunction (config : ConfigSpace) (device function : ℕ) : Bool :=
  ((configReadDword config device function 12 >>> 16) &&& 0xff#32) &&& 0x80#32≠0#32

/-- The device object built from the registers of a function. -/
def deviceObject (config : ConfigSpace) (device function : ℕ) : Device where
  vendorId := (configReadDword config device function 0 &&& 0xffff#32).toNat
  deviceId := (configReadDword config device function 0 >>> 16).toNat
  bar0 := configReadDword config device function 16
  bar1 := configReadDword config device function 20
  bar2 := configReadDword config device function 24
  bar3 := configReadDword config device function 28

/-- `PCI::read_device_function`; out of fuel is no result. -/
def readDeviceFunction (config : ConfigSpace) : (fuel device function : ℕ)→Bus→Option Bus
  | 0,_,_,_ => none
  | fuel+1,device,function,bus =>
    if absent config device function then some bus
    else
      let appended := appendDevice bus (deviceObject config device function)
      if isMultifunction config device function then
        (List.range' 1 7).foldlM (fun bus i => readDeviceFunction config fuel device i bus)
          appended
      else some appended

/-- `PCI::initialise_legacy`. -/
def initialiseLegacy (config : ConfigSpace) (fuel : ℕ) (bus : Bus) : Option Bus :=
  (List.range 32).foldlM (fun bus i => readDeviceFunction config fuel i 0 bus) bus

/-- The functions of one device that must be probed. -/
def probedFunctions (config : ConfigSpace) (device : ℕ) : List ℕ :=
  if absent config device 0 then []
  else 0::if isMultifunction config device 0 then
    (List.range' 1 7).filter (fun function => !absent config device function) else []

/-- All functions that must be probed. -/
def probed (config : ConfigSpace) : List (ℕ×ℕ) :=
  (List.range 32).flatMap (fun device => (probedFunctions config device).map (device,·))

/-- The enumeration ends and records every function to be probed once. -/
def EnumeratesExactly (config : ConfigSpace) (slots : ℕ) : Prop :=
  ∃ fuel bus, initialiseLegacy config fuel ⟨[],slots⟩=some bus ∧
    bus.devices.Perm ((probed config).map (fun place =>
      some (deviceObject config place.1 place.2)))

/-- No function behind function 0 of a multifunction device claims to be one
itself. -/
def FlatFunctions (config : ConfigSpace) : Prop :=
  ∀ device, device<32 → absent config device 0=false → isMultifunction config device 0=true →
    ∀ function, 1≤function → function<8 → absent config device function=false →
      isMultifunction config device function=false

instance (config : ConfigSpace) : Decidable (FlatFunctions config) :=
  inferInstanceAs (Decidable (∀ device, device<32 → absent config device 0=false →
    isMultifunction config device 0=true →
    ∀ function, 1≤function → function<8 → absent config device function=false →
      isMultifunction config device function=false))

section Folds

variable {State Item : Type} {f : State→Item→Option State}

/-- A fold that meets an item without result has none. -/
theorem foldlM_none {items : List Item} {item : Item} (hm : item∈items)
    (h : ∀ state, f state item=none) (state : State) : items.foldlM f state=none := by
  induction items generalizing state with
  | nil => cases hm
  | cons first rest ih =>
    rw [List.foldlM_cons]
    rcases List.mem_cons.mp hm with rfl|hrest
    · rw [h state]
      rfl
    · cases f state first with
      | none => rfl
      | some next => exact ih hrest next

/-- A fold whose items all have results is an ordinary fold. -/
theorem foldlM_some {g : State→Item→State} {items : List Item}
    (h : ∀ item∈items,∀ state, f state item=some (g state item)) (state : State) :
    items.foldlM f state=some (items.foldl g state) := by
  induction items generalizing state with
  | nil => rfl
  | cons first rest ih =>
    rw [List.foldlM_cons,h first List.mem_cons_self]
    exact ih (fun item hm => h item (List.mem_cons_of_mem _ hm)) (g state first)

/-- A fold keeps its result when every item keeps its own. -/
theorem foldlM_mono {g : State→Item→Option State} {items : List Item}
    (h : ∀ state item next, f state item=some next → g state item=some next)
    {state last : State} (hf : items.foldlM f state=some last) :
    items.foldlM g state=some last := by
  induction items generalizing state with
  | nil => exact hf
  | cons first rest ih =>
    rw [List.foldlM_cons] at hf ⊢
    cases hs : f state first with
    | none =>
      rw [hs] at hf
      exact absurd hf (by simp)
    | some next =>
      rw [hs] at hf
      rw [h state first next hs]
      exact ih hf

end Folds

section Enumeration

variable {config : ConfigSpace} {device function fuel : ℕ} {bus last : Bus}

/-- Functions 1 to 7. -/
theorem mem_functions : function∈List.range' 1 7↔1≤function ∧ function<8 := by
  rw [List.mem_range'_1]

/-- A function behind function 0 that claims to be multifunction reaches
itself again. -/
theorem readDeviceFunction_cycle (hr : 1≤function ∧ function<8)
    (hp : absent config device function=false)
    (hm : isMultifunction config device function=true) (fuel : ℕ) (bus : Bus) :
    readDeviceFunction config fuel device function bus=none := by
  induction fuel generalizing bus with
  | zero => rfl
  | succ fuel ih =>
    simp only [readDeviceFunction,hp,hm,Bool.false_eq_true,if_false,if_true]
    exact foldlM_none (mem_functions.mpr hr) ih _

/-- More fuel does not change a result. -/
theorem readDeviceFunction_succ
    (h : readDeviceFunction config fuel device function bus=some last) :
    readDeviceFunction config (fuel+1) device function bus=some last := by
  induction fuel generalizing device function bus last with
  | zero => cases h
  | succ fuel ih =>
    rw [readDeviceFunction] at h ⊢
    by_cases ha : absent config device function=true
    · rw [if_pos ha] at h ⊢
      exact h
    · rw [if_neg ha] at h ⊢
      dsimp only at h ⊢
      by_cases hm : isMultifunction config device function=true
      · rw [if_pos hm] at h ⊢
        exact foldlM_mono (fun _ _ _ hs => ih hs) h
      · rw [if_neg hm] at h ⊢
        exact h

/-- More fuel does not change the enumeration. -/
theorem initialiseLegacy_add (h : initialiseLegacy config fuel bus=some last) (more : ℕ) :
    initialiseLegacy config (fuel+more) bus=some last := by
  induction more with
  | zero => exact h
  | succ more ih => exact foldlM_mono (fun _ _ _ hs => readDeviceFunction_succ hs) ih

/-- Without a claim of its own a function is recorded and nothing more. -/
theorem readDeviceFunction_leaf
    (h : absent config device function=false → isMultifunction config device function=false)
    (fuel : ℕ) (bus : Bus) :
    readDeviceFunction config (fuel+1) device function bus=
      some (if absent config device function=false then
        appendDevice bus (deviceObject config device function) else bus) := by
  rw [readDeviceFunction]
  cases ha : absent config device function with
  | true => rfl
  | false =>
    rw [if_neg Bool.false_ne_true,h ha]
    rfl

/-- Record the functions of one device in order. -/
def recordFunctions (config : ConfigSpace) (device : ℕ) (bus : Bus) (functions : List ℕ) : Bus :=
  functions.foldl (fun bus function => appendDevice bus (deviceObject config device function)) bus

/-- One device of a flat configuration is read to its end. -/
theorem readDeviceFunction_flat (hf : FlatFunctions config) (hd : device<32) (bus : Bus) :
    readDeviceFunction config 2 device 0 bus=
      some (recordFunctions config device bus (probedFunctions config device)) := by
  rw [readDeviceFunction,probedFunctions]
  cases ha : absent config device 0 with
  | true => rfl
  | false =>
    rw [if_neg Bool.false_ne_true,if_neg Bool.false_ne_true]
    dsimp only
    cases hm : isMultifunction config device 0 with
    | false => rfl
    | true =>
      rw [if_pos rfl,if_pos rfl]
      have hleaf : ∀ item∈List.range' 1 7,∀ state : Bus,
          readDeviceFunction config 1 device item state=
            some (if absent config device item=false then
              appendDevice state (deviceObject config device item) else state) := by
        intro item hi state
        have hr := mem_functions.mp hi
        exact readDeviceFunction_leaf (hf device hd ha hm item hr.1 hr.2) 0 state
      rw [foldlM_some hleaf,recordFunctions,List.foldl_cons,List.foldl_filter]
      simp only [Bool.not_eq_true']

/-- Every device of a flat configuration is read to its end. -/
theorem initialiseLegacy_flat (hf : FlatFunctions config) (bus : Bus) :
    initialiseLegacy config 2 bus=some (((probed config).map
      (fun place => deviceObject config place.1 place.2)).foldl appendDevice bus) := by
  rw [initialiseLegacy,foldlM_some (g := fun bus device =>
    recordFunctions config device bus (probedFunctions config device))
    (fun device hd state => readDeviceFunction_flat hf (List.mem_range.mp hd) state)]
  rw [List.foldl_map,probed,List.foldl_flatMap]
  simp only [recordFunctions,List.foldl_map]

/-- A configuration that is not flat is never read to its end. -/
theorem initialiseLegacy_nested (hf : ¬FlatFunctions config) (fuel : ℕ) (bus : Bus) :
    initialiseLegacy config fuel bus=none := by
  simp only [FlatFunctions,not_forall] at hf
  rcases hf with ⟨device,hd,ha,hm,function,h1,h8,hp,hn⟩
  have hcycle := readDeviceFunction_cycle ⟨h1,h8⟩ hp (Bool.eq_true_of_not_eq_false hn)
  have hdevice : ∀ state, readDeviceFunction config fuel device 0 state=none := by
    intro state
    cases fuel with
    | zero => rfl
    | succ fuel =>
      simp only [readDeviceFunction,ha,hm,Bool.false_eq_true,if_false,if_true]
      exact foldlM_none (mem_functions.mpr ⟨h1,h8⟩) (hcycle fuel) _
  exact foldlM_none (List.mem_range.mpr hd) hdevice bus

/-- Devices are recorded while the slab has slots, null pointers after. -/
theorem appendDevices (objects : List Device) (bus : Bus) :
    (objects.foldl appendDevice bus).devices=bus.devices++
      (objects.take bus.slots).map some++List.replicate (objects.length-bus.slots) none := by
  induction objects generalizing bus with
  | nil => simp
  | cons object rest ih =>
    rw [List.foldl_cons,ih,appendDevice]
    cases hs : bus.slots with
    | zero => simp [List.replicate_succ]
    | succ slots => simp

end Enumeration

/-- The enumeration ends and is exact if and only if no function behind a
function 0 is itself marked multifunction and the slab has a slot for every
function to be probed. -/
theorem enumeratesExactly_iff (config : ConfigSpace) (slots : ℕ) :
    EnumeratesExactly config slots↔FlatFunctions config ∧ (probed config).length≤ slots := by
  by_cases hf : FlatFunctions config
  · have hrun := initialiseLegacy_flat hf ⟨[],slots⟩
    have hdevices := appendDevices ((probed config).map
      (fun place => deviceObject config place.1 place.2)) ⟨[],slots⟩
    simp only [List.nil_append,List.length_map] at hdevices
    constructor
    · rintro ⟨fuel,bus,hbus,hperm⟩
      refine ⟨hf,?_⟩
      have hsame := initialiseLegacy_add hbus 2
      rw [Nat.add_comm,initialiseLegacy_add hrun fuel] at hsame
      rw [←Option.some.inj hsame,hdevices] at hperm
      by_contra hlong
      have hnull : none∈List.replicate ((probed config).length-slots) (none : Option Device) :=
        List.mem_replicate.mpr ⟨by omega,rfl⟩
      have hmem := hperm.mem_iff.mp (List.mem_append_right _ hnull)
      simp at hmem
    · rintro ⟨-,hlen⟩
      refine ⟨2,_,hrun,?_⟩
      rw [hdevices,Nat.sub_eq_zero_of_le hlen,List.take_of_length_le (by simpa using hlen)]
      simp [Function.comp_def]
  · constructor
    · rintro ⟨fuel,bus,hbus,-⟩
      rw [initialiseLegacy_nested hf] at hbus
      cases hbus
    · exact fun h => absurd h.1 hf

/-- Device 0 with two functions, both of whose headers set bit 7, and nothing
else on the bus. -/
def twoFunctionDevice : ConfigSpace := fun device function offset =>
  if device=0 ∧ function<2 then
    if offset=0 then 0x00011af4#32 else if offset=12 then 0x00800000#32 else 0#32
  else 0xffffffff#32

/-- Enumeration does not end on every configuration space. -/
theorem not_always_enumerates :
    ¬∀ config, EnumeratesExactly config 72 := by
  intro h
  have hflat := h twoFunctionDevice
  rcases hflat with ⟨fuel,bus,hbus,-⟩
  rw [initialiseLegacy_nested (by decide +kernel)] at hbus
  cases hbus

end WorkbenchOS.PciEnumeration
