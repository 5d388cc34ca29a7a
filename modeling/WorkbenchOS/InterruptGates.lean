import WorkbenchOS.PageTables

/-!
# The tables the processor enters an interrupt through

A vector selects a gate, the gate a code segment and perhaps a stack of the
task state segment, and that segment is found through the descriptor the task
register selects. The kernel fills the bit fields of all three tables; the
processor reads them as words. What the processor finds for a vector is what
the last `set_interrupt_gate` for it asked for, wherever the linker puts the
handlers, the stacks and the task state segment. The loop of `initialise`
stops one vector short, so nothing is found for the last one.
-/

namespace WorkbenchOS.InterruptGates

open ByteMemory PageTables

section Gates

/-- `PrivilegeLevel`. -/
inductive PrivilegeLevel where
  /-- `Kernel`. -/
  | kernel
  /-- `User`. -/
  | user
  deriving DecidableEq

/-- `InterruptDescriptor`: one word of bit fields, and a word with `offset_3`. -/
structure InterruptDescriptor where
  /-- The bit fields. -/
  low : BitVec 64 := 0
  /-- `offset_3` and `reserved_2`. -/
  high : BitVec 64 := 0

/-- `g_interrupts`. -/
abbrev Interrupts := ℕ→InterruptDescriptor

/-- `descriptor_privilege_level`. -/
def descriptorPrivilegeLevel : PrivilegeLevel→ℕ
  | .user => 3
  | .kernel => 0

/-- `set_interrupt_gate`, with the address of the handler. -/
def setInterruptGate (interrupts : Interrupts) (id : ℕ) (dpl : PrivilegeLevel) (ist address : ℕ) :
    Interrupts :=
  let low := setField (interrupts id).low 0 16 (address &&& 0xffff)
  let low := setField low 48 16 ((address >>> 16) &&& 0xffff)
  let high := setField (interrupts id).high 0 32 (address >>> 32)
  let low := setField low 16 16 0x08
  let low := setField low 40 4 0x0f
  let low := setField low 45 2 (descriptorPrivilegeLevel dpl)
  let low := setField low 47 1 1
  let low := setField low 32 2 ist
  Function.update interrupts id ⟨low,high⟩

/-- What the processor reads in a gate. -/
structure Gate where
  /-- The address of the handler. -/
  offset : ℕ
  /-- The code segment. -/
  selector : ℕ
  /-- The stack of the task state segment, if it is not zero. -/
  ist : ℕ
  /-- The kind of gate: fifteen is a trap gate. -/
  kind : ℕ
  /-- Zero for gates. -/
  system : ℕ
  /-- Who may call the gate. -/
  level : ℕ
  /-- One for gates in use. -/
  present : ℕ
  deriving DecidableEq

/-- The processor reads three bits of `ist`, the third is the first reserved bit. -/
def InterruptDescriptor.gate (descriptor : InterruptDescriptor) : Gate where
  offset := getField descriptor.low 0 16+2^16*getField descriptor.low 48 16+
    2^32*getField descriptor.high 0 32
  selector := getField descriptor.low 16 16
  ist := getField descriptor.low 32 3
  kind := getField descriptor.low 40 4
  system := getField descriptor.low 44 1
  level := getField descriptor.low 45 2
  present := getField descriptor.low 47 1

/-- The reserved bits the processor reads are zero. -/
def InterruptDescriptor.Clear (descriptor : InterruptDescriptor) : Prop :=
  getField descriptor.low 34 1=0 ∧ getField descriptor.low 44 1=0

/-- The gate asked for. -/
def gateOf (dpl : PrivilegeLevel) (ist address : ℕ) : Gate :=
  ⟨address,0x08,ist,0x0f,0,descriptorPrivilegeLevel dpl,1⟩

variable {interrupts : Interrupts} {id ist address : ℕ}

/-- An address is made of the three parts a gate keeps of it. -/
theorem offset_parts (haddress : address<2^64) :
    (address &&& 0xffff)%2^16+2^16*(((address >>> 16) &&& 0xffff)%2^16)+
      2^32*((address >>> 32)%2^32)=address := by
  have hmask (value : ℕ) : value &&& 0xffff=value%2^16 := Nat.and_two_pow_sub_one_eq_mod value 16
  rw [hmask,hmask,Nat.shiftRight_eq_div_pow,Nat.shiftRight_eq_div_pow]
  omega

/-- The processor reads back the gate that was set. -/
theorem gate_setInterruptGate_self (hclear : (interrupts id).Clear) (haddress : address<2^64)
    (hist : ist<4) (dpl : PrivilegeLevel) :
    (setInterruptGate interrupts id dpl ist address id).gate=gateOf dpl ist address ∧
      (setInterruptGate interrupts id dpl ist address id).Clear := by
  obtain ⟨hthird,hsystem⟩ := hclear
  have hlevel : descriptorPrivilegeLevel dpl<2^2 := by cases dpl <;> decide
  have hparts := offset_parts haddress
  have hsplit (word : BitVec 64) : getField word 32 3=getField word 32 2+2^2*getField word 34 1 :=
    getField_split word (by decide : 32+(2+1)≤64)
  unfold setInterruptGate InterruptDescriptor.gate InterruptDescriptor.Clear gateOf
  simp only [Function.update_self,hsplit]
  simp (disch := decide) only [getField_setField_self,getField_setField_apart,hthird,hsystem]
  rw [hparts,Nat.mod_eq_of_lt hlevel,Nat.mod_eq_of_lt (by omega : ist<2^2)]
  exact ⟨rfl,trivial,trivial⟩

/-- Other gates stay as they are. -/
theorem setInterruptGate_other {vector : ℕ} (h : vector≠id) (dpl : PrivilegeLevel) :
    setInterruptGate interrupts id dpl ist address vector=interrupts vector :=
  Function.update_of_ne h _ _

end Gates

section Calls

/-- The wrappers gates lead to. -/
inductive Wrapper where
  | notImplemented | timer | ps2Keyboard | ps2Mouse
  | divideByZeroException | debugException | nmiInterrupt | breakpointException
  | overflowException | boundRangeExceededException | invalidOpcodeException
  | deviceNotAvailableException | doubleFaultException | coprocessorSegmentOverrunException
  | invalidTssException | segmentNotPresentException | stackFaultException
  | generalProtectionFaultException | pageFaultException | floatingPointErrorException
  | alignmentCheckException | machineCheckException | simdFloatingPointException
  | virtualisationException
  deriving DecidableEq

/-- A call of `set_interrupt_gate`. -/
structure Call where
  /-- `id`. -/
  id : ℕ
  /-- `dpl`. -/
  dpl : PrivilegeLevel
  /-- `ist`. -/
  ist : ℕ
  /-- `handler`. -/
  handler : Wrapper
  deriving DecidableEq

/-- The calls of `configure_exceptions`. -/
def configureExceptions : List Call := [
  ⟨0,.kernel,0,.divideByZeroException⟩,
  ⟨1,.kernel,0,.debugException⟩,
  ⟨2,.kernel,0,.nmiInterrupt⟩,
  ⟨3,.kernel,0,.breakpointException⟩,
  ⟨4,.kernel,0,.overflowException⟩,
  ⟨5,.kernel,0,.boundRangeExceededException⟩,
  ⟨6,.kernel,0,.invalidOpcodeException⟩,
  ⟨7,.kernel,0,.deviceNotAvailableException⟩,
  ⟨8,.kernel,2,.doubleFaultException⟩,
  ⟨9,.kernel,0,.coprocessorSegmentOverrunException⟩,
  ⟨10,.kernel,0,.invalidTssException⟩,
  ⟨11,.kernel,0,.segmentNotPresentException⟩,
  ⟨12,.kernel,0,.stackFaultException⟩,
  ⟨13,.kernel,0,.generalProtectionFaultException⟩,
  ⟨14,.kernel,1,.pageFaultException⟩,
  ⟨16,.kernel,0,.floatingPointErrorException⟩,
  ⟨17,.kernel,0,.alignmentCheckException⟩,
  ⟨18,.kernel,0,.machineCheckException⟩,
  ⟨19,.kernel,0,.simdFloatingPointException⟩,
  ⟨20,.kernel,0,.virtualisationException⟩]

/-- The calls of `initialise` for devices. -/
def deviceCalls : List Call :=
  [⟨32,.user,0,.timer⟩,⟨33,.kernel,0,.ps2Keyboard⟩,⟨34,.kernel,0,.ps2Mouse⟩]

/-- The calls of `InterruptVectorTable::initialise`. -/
def initialiseCalls : List Call :=
  (List.range 255).map (fun i => ⟨i,.kernel,0,.notImplemented⟩)++configureExceptions++deviceCalls

/-- Where the linker puts the wrappers. -/
abbrev Placement := Wrapper→ℕ

/-- One call. -/
def setCall (placement : Placement) (interrupts : Interrupts) (call : Call) : Interrupts :=
  setInterruptGate interrupts call.id call.dpl call.ist (placement call.handler)

/-- The last call for a vector. -/
def lastCall (calls : List Call) (vector : ℕ) : Option Call :=
  calls.reverse.find? (fun call => call.id=vector)

/-- The last call for a vector, of a list that begins with another one. -/
theorem lastCall_cons (first : Call) (rest : List Call) (vector : ℕ) :
    lastCall (first::rest) vector=
      (lastCall rest vector).or (if first.id=vector then some first else none) := by
  rw [lastCall,List.reverse_cons,List.find?_append,lastCall,List.find?_singleton]
  simp only [decide_eq_true_eq]

variable {placement : Placement} {vector : ℕ}

/-- After any calls, the gate of a vector is the one the last call for it
asked for. -/
theorem gate_calls (hplacement : ∀ wrapper,placement wrapper<2^64) {calls : List Call}
    (hist : ∀ call∈calls,call.ist<4) {interrupts : Interrupts} (hclear : (interrupts vector).Clear) :
    (calls.foldl (setCall placement) interrupts vector).gate=
      ((lastCall calls vector).map (fun call =>
        gateOf call.dpl call.ist (placement call.handler))).getD (interrupts vector).gate := by
  induction calls generalizing interrupts with
  | nil => rfl
  | cons call rest ih =>
    have hrest := fun other hother => hist other (List.mem_cons_of_mem _ hother)
    rw [List.foldl_cons,lastCall_cons]
    by_cases hid : call.id=vector
    · subst hid
      obtain ⟨hgate,hkept⟩ := gate_setInterruptGate_self hclear (hplacement call.handler)
        (hist call List.mem_cons_self) call.dpl
      have hset : (setCall placement interrupts call call.id).Clear := hkept
      rw [ih hrest hset,if_pos rfl]
      cases lastCall rest call.id with
      | none => exact hgate
      | some last => rfl
    · have hother : setCall placement interrupts call vector=interrupts vector :=
        setInterruptGate_other (Ne.symm hid) call.dpl
      rw [ih hrest (hother.symm ▸ hclear),if_neg hid,Option.or_none,hother]

/-- The call a vector is left with. -/
def vectorCall (vector : ℕ) : Option Call :=
  if vector<255 then
    some (((configureExceptions++deviceCalls).find? (fun call => call.id=vector)).getD
      ⟨vector,.kernel,0,.notImplemented⟩)
  else none

/-- The last call of `initialise` for each vector. -/
theorem lastCall_initialise : ∀ vector<256,lastCall initialiseCalls vector=vectorCall vector := by
  decide +kernel

/-- Every stack number asked for is that of a stack. -/
theorem initialiseCalls_ist : ∀ call∈initialiseCalls,call.ist≤2 := by decide +kernel

end Calls

section Segments

/-- `SegmentDescriptor`. -/
structure SegmentDescriptor where
  /-- `segment_limit`. -/
  segmentLimit : ℕ
  /-- `base_low`. -/
  baseLow : ℕ
  /-- `base`. -/
  base : ℕ
  /-- `segment_type`. -/
  segmentType : ℕ
  /-- `descriptor_type`. -/
  descriptorType : ℕ
  /-- `privilege_level`. -/
  privilegeLevel : ℕ
  /-- `present`. -/
  present : ℕ
  /-- `segment_limit_high`. -/
  segmentLimitHigh : ℕ
  /-- `available`. -/
  available : ℕ
  /-- `code_segment_64bit`. -/
  codeSegment64bit : ℕ
  /-- `default_operation_size`. -/
  defaultOperationSize : ℕ
  /-- `granularity`. -/
  granularity : ℕ
  /-- `base_high`. -/
  baseHigh : ℕ

/-- `SegmentDescriptor::descriptor`. -/
def SegmentDescriptor.descriptor (segment : SegmentDescriptor) : BitVec 64 :=
  BitVec.ofNat 64 (segment.segmentLimit ||| segment.baseLow <<< 16 ||| segment.base <<< 32 |||
    segment.segmentType <<< 40 ||| segment.descriptorType <<< 44 |||
    segment.privilegeLevel <<< 45 ||| segment.present <<< 47 |||
    segment.segmentLimitHigh <<< 48 ||| segment.available <<< 52 |||
    segment.codeSegment64bit <<< 53 ||| segment.defaultOperationSize <<< 54 |||
    segment.granularity <<< 55 ||| segment.baseHigh <<< 56)

/-- The first word of the `TSSDescriptor` of `kernel_main`. -/
def tssDescriptorLow (tss0 : ℕ) : BitVec 64 :=
  let low := setField 0 0 16 (0x68-1)
  let low := setField low 16 16 (tss0 &&& 0xffff)
  let low := setField low 32 8 ((tss0 >>> 16) &&& 0xff)
  let low := setField low 40 4 9
  let low := setField low 45 2 0
  let low := setField low 47 1 1
  let low := setField low 55 1 0
  setField low 56 8 ((tss0 >>> 24) &&& 0xff)

/-- Its second word. -/
def tssDescriptorHigh (tss0 : ℕ) : BitVec 64 := setField 0 0 32 (tss0 >>> 32)

/-- `segments`, after `kernel_main` has stored the descriptor of `tss0`. -/
def segments (tss0 : ℕ) : List (BitVec 64) := [
  SegmentDescriptor.descriptor ⟨0,0,0,0,0,0,0,0,0,0,0,0,0⟩,
  SegmentDescriptor.descriptor ⟨0,0,0,8,1,0,1,0,0,1,0,0,0⟩,
  SegmentDescriptor.descriptor ⟨0,0,0,2,1,0,1,0,0,0,0,0,0⟩,
  SegmentDescriptor.descriptor ⟨0,0,0,8,1,3,1,0,0,1,0,0,0⟩,
  SegmentDescriptor.descriptor ⟨0,0,0,2,1,3,1,0,0,0,0,0,0⟩,
  tssDescriptorLow tss0,
  tssDescriptorHigh tss0]

/-- The segment register or task register a selector stands for. -/
def segmentAt (table : List (BitVec 64)) (selector : ℕ) : BitVec 64 := table.getD (selector/8) 0

/-- A present segment of 64-bit code that runs at the kernel's level. -/
def IsKernelCode (word : BitVec 64) : Prop :=
  getField word 47 1=1 ∧ getField word 44 1=1 ∧ getField word 43 1=1 ∧ getField word 45 2=0 ∧
    getField word 53 1=1

instance (word : BitVec 64) : Decidable (IsKernelCode word) := inferInstanceAs (Decidable (_∧_))

/-- The base of a system segment, of the two words of its descriptor. -/
def systemBase (low high : BitVec 64) : ℕ :=
  getField low 16 16+2^16*getField low 32 8+2^24*getField low 56 8+2^32*getField high 0 32

/-- A present descriptor of an available task state segment. -/
def IsTask (word : BitVec 64) : Prop :=
  getField word 40 4=9 ∧ getField word 44 1=0 ∧ getField word 47 1=1

instance (word : BitVec 64) : Decidable (IsTask word) := inferInstanceAs (Decidable (_∧_))

/-- `tss0` after `kernel_main`: the ends of two stacks are stored in it. -/
def configureTss (memory : Memory) (tss0 stack1 stack2 : ℕ) : Memory :=
  writeLE (writeLE memory (tss0+36) 8 (stack1+4096)) (tss0+44) 8 (stack2+4096)

/-- The processor finds the task state segment where it is. -/
theorem systemBase_segments {tss0 : ℕ} (h : tss0<2^64) :
    IsTask (tssDescriptorLow tss0) ∧
      systemBase (tssDescriptorLow tss0) (tssDescriptorHigh tss0)=tss0 := by
  have hsixteen (value : ℕ) : value &&& 0xffff=value%2^16 := Nat.and_two_pow_sub_one_eq_mod value 16
  have height (value : ℕ) : value &&& 0xff=value%2^8 := Nat.and_two_pow_sub_one_eq_mod value 8
  have hzero : getField (0 : BitVec 64) 44 1=0 := getField_zero (by decide)
  unfold IsTask systemBase tssDescriptorLow tssDescriptorHigh
  simp (disch := decide) only [getField_setField_self,getField_setField_apart,hzero]
  rw [hsixteen,height,height,Nat.shiftRight_eq_div_pow,Nat.shiftRight_eq_div_pow,
    Nat.shiftRight_eq_div_pow]
  refine ⟨⟨rfl,trivial,rfl⟩,?_⟩
  omega

end Segments

section Entering

/-- The three tables. -/
structure Tables where
  /-- `g_interrupts`. -/
  interrupts : Interrupts
  /-- `segments`. -/
  segments : List (BitVec 64)
  /-- The memory with the task state segment. -/
  memory : Memory

/-- The selector in the task register. -/
def taskRegister : ℕ := 0x28

/-- Where the processor goes for a vector. -/
structure Entry where
  /-- The first instruction. -/
  rip : ℕ
  /-- The code segment. -/
  cs : ℕ
  /-- The stack to switch to. -/
  stack : Option ℕ
  deriving DecidableEq

/-- The stack of the task state segment with this number. -/
def istStack (tables : Tables) (ist : ℕ) : ℕ :=
  let low := segmentAt tables.segments taskRegister
  let high := segmentAt tables.segments (taskRegister+8)
  readLE tables.memory (systemBase low high+36+8*(ist-1)) 8

/-- What the processor finds for a vector; nothing if one of the descriptors is
not as it must be. -/
def enter (tables : Tables) (vector : ℕ) : Option Entry :=
  let gate := (tables.interrupts vector).gate
  if gate.present=1 ∧ gate.system=0 ∧ (gate.kind=14 ∨ gate.kind=15) ∧
      IsKernelCode (segmentAt tables.segments gate.selector) ∧
      (gate.ist=0 ∨ IsTask (segmentAt tables.segments taskRegister)) then
    some ⟨gate.offset,gate.selector,
      if gate.ist=0 then none else some (istStack tables gate.ist)⟩
  else none

/-- Where the linker puts what the tables point to. -/
structure Layout where
  /-- The wrappers. -/
  placement : Placement
  /-- `tss0`. -/
  tss0 : ℕ
  /-- `stack1`. -/
  stack1 : ℕ
  /-- `stack2`. -/
  stack2 : ℕ
  /-- Addresses have 64 bits. -/
  placement_lt : ∀ wrapper,placement wrapper<2^64
  /-- So has the end of the task state segment. -/
  tss0_lt : tss0+0x68≤2^64
  /-- So have the ends of the stacks. -/
  stack1_lt : stack1+4096<2^64
  /-- Of both of them. -/
  stack2_lt : stack2+4096<2^64

/-- The tables after `kernel_main` and some calls of `set_interrupt_gate`. -/
def tablesAfter (layout : Layout) (memory : Memory) (calls : List Call) : Tables where
  interrupts := calls.foldl (setCall layout.placement) (fun _ => {})
  segments := segments layout.tss0
  memory := configureTss memory layout.tss0 layout.stack1 layout.stack2

/-- The stack a gate asks for. -/
def stackOf (layout : Layout) : ℕ→Option ℕ
  | 0 => none
  | 1 => some (layout.stack1+4096)
  | _ => some (layout.stack2+4096)

/-- The wrapper and the stack a call asks for. -/
def callEntry (layout : Layout) (call : Call) : Entry :=
  ⟨layout.placement call.handler,0x08,stackOf layout call.ist⟩

section

variable (layout : Layout) (memory : Memory)

/-- The stacks in the task state segment are those of the layout. -/
theorem istStack_tablesAfter (calls : List Call) {ist : ℕ} (hist : ist=1 ∨ ist=2) :
    some (istStack (tablesAfter layout memory calls) ist)=stackOf layout ist := by
  have hend := layout.tss0_lt
  have hbase := (systemBase_segments (by omega : layout.tss0<2^64)).2
  have hfirst := layout.stack1_lt
  have hsecond := layout.stack2_lt
  have hlow : segmentAt (segments layout.tss0) taskRegister=tssDescriptorLow layout.tss0 := rfl
  have hhigh : segmentAt (segments layout.tss0) (taskRegister+8)=tssDescriptorHigh layout.tss0 := rfl
  unfold istStack tablesAfter
  dsimp only
  rw [hlow,hhigh,hbase]
  rcases hist with rfl|rfl
  · rw [configureTss,readLE_writeLE_apart _ (by unfold Apart; omega),readLE_writeLE_self,
      Nat.mod_eq_of_lt (by omega)]
    rfl
  · rw [configureTss,readLE_writeLE_self,Nat.mod_eq_of_lt (by omega)]
    rfl

/-- The processor goes by the gate of the vector alone. -/
theorem enter_of_gate {tables : Tables} {vector : ℕ} {gate : Gate}
    (hgate : (tables.interrupts vector).gate=gate) :
    enter tables vector=
      if gate.present=1 ∧ gate.system=0 ∧ (gate.kind=14 ∨ gate.kind=15) ∧
          IsKernelCode (segmentAt tables.segments gate.selector) ∧
          (gate.ist=0 ∨ IsTask (segmentAt tables.segments taskRegister)) then
        some ⟨gate.offset,gate.selector,
          if gate.ist=0 then none else some (istStack tables gate.ist)⟩
      else none := by
  rw [enter,hgate]

/-- The kernel's code segment, and its task state segment. -/
theorem segments_kernel : IsKernelCode (segmentAt (segments layout.tss0) 0x08) ∧
    IsTask (segmentAt (segments layout.tss0) taskRegister) := by
  have hend := layout.tss0_lt
  refine ⟨?_,(systemBase_segments (by omega : layout.tss0<2^64)).1⟩
  change IsKernelCode (SegmentDescriptor.descriptor ⟨0,0,0,8,1,0,1,0,0,1,0,0,0⟩)
  decide

/-- For every vector the processor finds the wrapper and the stack of the last
call for it, and nothing if there was none. -/
theorem enter_tablesAfter {calls : List Call} (hist : ∀ call∈calls,call.ist≤2) (vector : ℕ) :
    enter (tablesAfter layout memory calls) vector=
      (lastCall calls vector).map (callEntry layout) := by
  have hclear : ({} : InterruptDescriptor).Clear :=
    ⟨getField_zero (by decide),getField_zero (by decide)⟩
  have hgate : ((tablesAfter layout memory calls).interrupts vector).gate=_ :=
    @gate_calls layout.placement vector layout.placement_lt calls
      (fun call hcall => Nat.lt_succ_of_le ((hist call hcall).trans (by decide))) (fun _ => {}) hclear
  obtain ⟨hcode,htask⟩ := segments_kernel layout
  rw [enter_of_gate hgate]
  cases hcall : lastCall calls vector with
  | none =>
    -- the entry still has its zeroes
    have habsent : ({} : InterruptDescriptor).gate.present=0 := getField_zero (by decide)
    rw [Option.map_none,Option.getD_none,habsent,if_neg (by omega)]
    rfl
  | some call =>
    have hlast := hist call (List.mem_reverse.mp (List.mem_of_find?_eq_some hcall))
    rw [Option.map_some,Option.getD_some,gateOf]
    dsimp only
    rw [if_pos ⟨rfl,rfl,Or.inr rfl,hcode,Or.inr htask⟩,Option.map_some,callEntry]
    by_cases h : call.ist=0
    · rw [if_pos h,h]
      rfl
    · rw [if_neg h,istStack_tablesAfter layout memory calls (by omega)]

/-- The tables `kernel_main` and `initialise` leave behind. -/
def kernelTables : Tables := tablesAfter layout memory initialiseCalls

/-- What the processor finds in them. -/
theorem enter_kernelTables {vector : ℕ} (hvector : vector<256) :
    enter (kernelTables layout memory) vector=(vectorCall vector).map (callEntry layout) := by
  rw [kernelTables,enter_tablesAfter layout memory initialiseCalls_ist,
    lastCall_initialise vector hvector]

/-- Whatever the layout and the memory, after `initialise` and any further calls
of `set_interrupt_gate` the processor finds for every vector the wrapper and the
stack of the last further call for it; without one those `initialise` asked for,
and nothing for the last vector. -/
theorem enter_reconfigured {calls : List Call} (hist : ∀ call∈calls,call.ist≤2) {vector : ℕ}
    (hvector : vector<256) :
    enter (tablesAfter layout memory (initialiseCalls++calls)) vector=
      ((lastCall calls vector).or (vectorCall vector)).map (callEntry layout) := by
  have hall : ∀ call∈initialiseCalls++calls,call.ist≤2 := fun call hcall =>
    (List.mem_append.mp hcall).elim (initialiseCalls_ist call) (hist call)
  rw [enter_tablesAfter layout memory hall,lastCall,List.reverse_append,List.find?_append,
    ← lastCall_initialise vector hvector,lastCall,lastCall]

end

/-- A kernel in the last two gigabytes. -/
def sampleLayout : Layout where
  placement _ := 0xffffffff80201140
  tss0 := 0xffffffff80331000
  stack1 := 0xffffffff80331080
  stack2 := 0xffffffff80332080
  placement_lt := fun _ => by decide
  tss0_lt := by decide
  stack1_lt := by decide
  stack2_lt := by decide

/-- Page faults on the other stack. -/
theorem enter_reconfigured_pageFault : (∀ call∈[Call.mk 14 .kernel 2 .pageFaultException],call.ist≤2) ∧
    14<256 ∧ enter (tablesAfter sampleLayout (fun _ => 0)
      (initialiseCalls++[⟨14,.kernel,2,.pageFaultException⟩])) 14=
        ((lastCall [⟨14,.kernel,2,.pageFaultException⟩] 14).or (vectorCall 14)).map
          (callEntry sampleLayout) :=
  ⟨by decide,by decide,enter_reconfigured sampleLayout (fun _ => 0) (by decide) (by decide)⟩

end Entering

end WorkbenchOS.InterruptGates
