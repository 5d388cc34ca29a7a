import WorkbenchOS.InterruptGates
import WorkbenchOS.ProcessStack
import WorkbenchOS.TransitionRuns

/-!
# Interrupts that interrupt interrupts

All gates are trap gates, so a handler runs with interrupts enabled and every
instruction of a wrapper may be interrupted in turn. The machine here keeps,
beside the processor, what was interrupted; only the specification looks at
that. A wrapper is its instructions, one after another as long as the
instruction pointer says so, and the code behind its `call` is any code that
leaves the stack above its return address alone. Whatever interrupts whatever,
`iretq` resumes what was interrupted, unless the processor had pushed an error
code that nothing takes off the stack.
-/

namespace WorkbenchOS.InterruptNesting

open ByteMemory ProcessStack InterruptGates TransitionRuns

section Processors

/-- A processor and its memory. -/
structure Processor where
  /-- What the registers hold. -/
  registers : Register→UInt64
  /-- All bytes. -/
  memory : Memory

/-- The stack pointer. -/
def Processor.sp (processor : Processor) : ℕ := (processor.registers .rsp).toNat

/-- A word of memory. -/
def Processor.word (processor : Processor) (address : ℕ) : UInt64 :=
  UInt64.ofNat (readLE processor.memory address 8)

/-- Store to a register. -/
def Processor.set (processor : Processor) (register : Register) (value : UInt64) : Processor :=
  {processor with registers := Function.update processor.registers register value}

/-- `push`. -/
def Processor.push (processor : Processor) (value : UInt64) : Processor :=
  let sp := processor.registers .rsp-8
  {processor.set .rsp sp with memory := writeLE processor.memory sp.toNat 8 value.toNat}

/-- `pop`. -/
def Processor.pop (processor : Processor) (register : Register) : Processor :=
  (processor.set .rsp (processor.registers .rsp+8)).set register (processor.word processor.sp)

/-- `iretq`: five words, none of them through another one. -/
def Processor.iretq (processor : Processor) : Processor where
  registers register :=
    if register∈iretPops then processor.word (processor.sp+8*iretPops.idxOf register)
    else processor.registers register
  memory := processor.memory

end Processors

section Wrappers

/-- The macros that make wrappers. -/
inductive Kind where
  /-- `INTERRUPT_HANDLER`. -/
  | interruptHandler
  /-- `EXCEPTION_HANDLER`. -/
  | exceptionHandler
  /-- `EXCEPTION_HANDLER_WITH_CODE`. -/
  | exceptionHandlerWithCode
  deriving DecidableEq

/-- The macro of each wrapper, and the number it is given. -/
def macroOf : Wrapper→Kind×ℕ
  | .notImplemented => (.interruptHandler,0)
  | .timer => (.interruptHandler,32)
  | .ps2Keyboard => (.interruptHandler,33)
  | .ps2Mouse => (.interruptHandler,34)
  | .divideByZeroException => (.exceptionHandler,0)
  | .debugException => (.exceptionHandler,1)
  | .nmiInterrupt => (.exceptionHandler,2)
  | .breakpointException => (.exceptionHandler,3)
  | .overflowException => (.exceptionHandler,4)
  | .boundRangeExceededException => (.exceptionHandler,5)
  | .invalidOpcodeException => (.exceptionHandler,6)
  | .deviceNotAvailableException => (.exceptionHandler,7)
  | .doubleFaultException => (.exceptionHandlerWithCode,8)
  | .coprocessorSegmentOverrunException => (.exceptionHandler,9)
  | .invalidTssException => (.exceptionHandlerWithCode,10)
  | .segmentNotPresentException => (.exceptionHandlerWithCode,11)
  | .stackFaultException => (.exceptionHandlerWithCode,12)
  | .generalProtectionFaultException => (.exceptionHandlerWithCode,13)
  | .pageFaultException => (.exceptionHandlerWithCode,14)
  | .floatingPointErrorException => (.exceptionHandler,16)
  | .alignmentCheckException => (.exceptionHandlerWithCode,17)
  | .machineCheckException => (.exceptionHandler,18)
  | .simdFloatingPointException => (.exceptionHandler,19)
  | .virtualisationException => (.exceptionHandler,20)

/-- The instructions of wrappers. -/
inductive Instruction where
  /-- `pushq` of the number. -/
  | pushNumber (number : ℕ)
  /-- `push`. -/
  | push (register : Register)
  /-- `mov %rsp, %rdi`. -/
  | movRspRdi
  /-- `call` of the handler. -/
  | call
  /-- `pop`. -/
  | pop (register : Register)
  /-- `addq $8, %rsp`. -/
  | addRsp
  /-- `iretq`. -/
  | iretq
  /-- `hlt`. -/
  | hlt
  deriving DecidableEq

/-- `PUSH_REGISTERS`. -/
def pushRegisters (number : ℕ) : List Instruction :=
  .pushNumber number::generalPushes.map .push++[.movRspRdi]

/-- `POP_REGISTERS`. -/
def popInstructions : List Instruction := generalPops.map .pop++[.addRsp]

/-- The last instruction of a wrapper. -/
def lastInstruction : Kind→Instruction
  | .interruptHandler => .iretq
  | .exceptionHandler => .hlt
  | .exceptionHandlerWithCode => .hlt

/-- What the three macros expand to. -/
def code (wrapper : Wrapper) : List Instruction :=
  pushRegisters (macroOf wrapper).2++.call::popInstructions++[lastInstruction (macroOf wrapper).1]

/-- A layout with the addresses of all instructions. -/
structure Program extends Layout where
  /-- Where the instructions of a wrapper are. -/
  address : Wrapper→ℕ→UInt64
  /-- Where the handler it calls is. -/
  handler : Wrapper→UInt64
  /-- The first instruction is where gates lead. -/
  address_zero : ∀ wrapper,address wrapper 0=UInt64.ofNat (placement wrapper)

variable (program : Program)

/-- One instruction of a wrapper, the instruction pointer going to the next one,
to the handler or to where `iretq` takes it. -/
def perform (wrapper : Wrapper) (k : ℕ) (processor : Processor) : Instruction→Option Processor
  | .pushNumber number =>
    some ((processor.push (UInt64.ofNat number)).set .rip (program.address wrapper (k+1)))
  | .push register =>
    some ((processor.push (processor.registers register)).set .rip (program.address wrapper (k+1)))
  | .movRspRdi =>
    some ((processor.set .rdi (processor.registers .rsp)).set .rip (program.address wrapper (k+1)))
  | .call => some ((processor.push (program.address wrapper (k+1))).set .rip (program.handler wrapper))
  | .pop register => some ((processor.pop register).set .rip (program.address wrapper (k+1)))
  | .addRsp =>
    some ((processor.set .rsp (processor.registers .rsp+8)).set .rip (program.address wrapper (k+1)))
  | .iretq => some processor.iretq
  | .hlt => none

end Wrappers

section Machines

/-- The vectors with an error code. -/
def errorVectors : List ℕ := [8,10,11,12,13,14,17,21,29,30]

/-- The flags a trap gate leaves: `TF`, `NT`, `RF` and `VM` are cleared. -/
def trapFlags (flags : UInt64) : UInt64 := flags &&& ~~~0x34100

/-- Where the words of an interrupt are pushed: the stack pointer is aligned to
sixteen bytes. -/
def aligned (sp : ℕ) : ℕ := sp/16*16

/-- The words the processor pushes. -/
def interruptWords (processor : Processor) (error : Option UInt64) : List UInt64 :=
  iretPushes.map processor.registers++error.toList

/-- An interrupt of code that runs at the kernel's level. -/
def deliver (tables : Tables) (vector : ℕ) (error : Option UInt64) (processor : Processor) :
    Option Processor :=
  if processor.registers .cs &&& 3=0 then
    (enter tables vector).map (fun entry =>
      let sp := aligned (entry.stack.getD processor.sp)
      let pushed := (interruptWords processor error).foldl Processor.push
        (processor.set .rsp (UInt64.ofNat sp))
      ((pushed.set .rip (UInt64.ofNat entry.rip)).set .cs (UInt64.ofNat entry.cs)).set .rflags
        (trapFlags (processor.registers .rflags)))
  else none

/-- How far a wrapper is. -/
inductive Position where
  /-- Before one of its instructions. -/
  | instruction (k : ℕ)
  /-- In the handler, called with the stack pointer at this place. -/
  | handler (entry : ℕ)
  deriving DecidableEq

/-- A wrapper that has not returned. -/
structure Activation where
  /-- The wrapper. -/
  wrapper : Wrapper
  /-- The processor as it was when the interrupt came. -/
  interrupted : Processor
  /-- The error code of the interrupt. -/
  error : Option UInt64
  /-- How far it is. -/
  position : Position

/-- The processor, and what has been interrupted, the innermost wrapper first. -/
structure Machine where
  /-- The processor. -/
  processor : Processor
  /-- The wrappers that have not returned. -/
  activations : List Activation

/-- What happens next. -/
inductive Action where
  /-- An interrupt, with the error code of those that have one. -/
  | interrupt (vector : ℕ) (error : Option UInt64)
  /-- The next instruction of the innermost wrapper. -/
  | execute
  /-- Code of the handler, or of the kernel if nothing is interrupted, leaves
  the processor so. -/
  | work (processor : Processor)
  /-- The handler returns. -/
  | ret

variable (program : Program) (tables : Tables)

/-- The position after an instruction; none after the last one. -/
def advance (processor : Processor) (k : ℕ) : Instruction→Option Position
  | .call => some (.handler processor.sp)
  | .iretq => none
  | _ => some (.instruction (k+1))

/-- The instruction at the instruction pointer. -/
def executeAt (processor : Processor) (activation : Activation) (rest : List Activation) (k : ℕ) :
    Option Machine :=
  if processor.registers .rip=program.address activation.wrapper k then do
    let instruction←(code activation.wrapper)[k]?
    let next←perform program activation.wrapper k processor instruction
    return ⟨next,((advance next k instruction).map (fun position =>
      {activation with position := position})).toList++rest⟩
  else none

/-- Where a handler returns to in its wrapper. -/
def afterCall : ℕ := 18

/-- `ret`. -/
def returnFrom (processor : Processor) : Processor :=
  (processor.set .rip (processor.word processor.sp)).set .rsp (processor.registers .rsp+8)

/-- One step. -/
def step (machine : Machine) : Action→Option Machine
  | .interrupt vector error => do
    let call←vectorCall vector
    let processor←deliver tables vector error machine.processor
    return ⟨processor,⟨call.handler,machine.processor,error,.instruction 0⟩::machine.activations⟩
  | .execute =>
    match machine.activations with
    | [] => none
    | activation::rest =>
      match activation.position with
      | .instruction k => executeAt program machine.processor activation rest k
      | .handler _ => none
  | .work processor =>
    match machine.activations with
    | [] => some ⟨processor,[]⟩
    | activation::rest =>
      match activation.position with
      | .instruction _ => none
      | .handler _ => some ⟨processor,activation::rest⟩
  | .ret =>
    match machine.activations with
    | [] => none
    | activation::rest =>
      match activation.position with
      | .instruction _ => none
      | .handler _ =>
        some ⟨returnFrom machine.processor,{activation with position := .instruction afterCall}::rest⟩

end Machines

section Words

/-- The words found below `top`, the first one on top. -/
def Words (memory : Memory) (top : ℕ) (words : List UInt64) : Prop :=
  ∀ i value, words[i]?=some value → UInt64.ofNat (readLE memory (top-8*(i+1)) 8)=value

/-- They are what is on the stack below `top`. -/
def Holds (processor : Processor) (top : ℕ) (words : List UInt64) : Prop :=
  processor.sp+8*words.length=top ∧ Words processor.memory top words

variable {processor : Processor} {top : ℕ} {words : List UInt64} {value : UInt64}

/-- Words stay where the memory stays. -/
theorem Words.congr {memory after : Memory} {bottom : ℕ} (h : Words memory top words)
    (hbottom : bottom+8*words.length≤top)
    (hsame : ∀ x, bottom≤x → x<top → after x=memory x) : Words after top words := by
  intro i value hi
  have hlt : i<words.length := (List.getElem?_eq_some_iff.mp hi).1
  have hunchanged : Unchanged memory after (top-8*(i+1)) 8 := fun x hx hy =>
    hsame x (by omega) (by omega)
  rw [readLE_congr hunchanged]
  exact h i value hi

/-- The first of some words. -/
theorem Words.front {memory : Memory} {more : List UInt64} (h : Words memory top (words++more)) :
    Words memory top words := by
  intro i value hi
  have hlt : i<words.length := (List.getElem?_eq_some_iff.mp hi).1
  exact h i value ((List.getElem?_append_left hlt).trans hi)

/-- The word so many places above the stack pointer. -/
theorem Holds.word (h : Holds processor top words) {j : ℕ} (hj : j<words.length)
    (hvalue : words[words.length-1-j]?=some value) : processor.word (processor.sp+8*j)=value := by
  obtain ⟨hsp,hwords⟩ := h
  have hplace : processor.sp+8*j=top-8*(words.length-1-j+1) := by omega
  rw [Processor.word,hplace]
  exact hwords _ _ hvalue

/-- The stack pointer of a processor that pushes. -/
theorem push_sp (hroom : 8≤processor.sp) (value : UInt64) :
    (processor.push value).sp=processor.sp-8 := by
  have hle : (8 : UInt64)≤processor.registers .rsp := UInt64.le_iff_toNat_le.mpr hroom
  change (Function.update processor.registers .rsp (processor.registers .rsp-8) .rsp).toNat=_
  rw [Function.update_self,UInt64.toNat_sub_of_le _ _ hle]
  rfl

/-- The memory it leaves. -/
theorem push_memory (hroom : 8≤processor.sp) (value : UInt64) :
    (processor.push value).memory=writeLE processor.memory (processor.sp-8) 8 value.toNat := by
  have hsp := push_sp hroom value
  have hplace : (processor.registers .rsp-8).toNat=processor.sp-8 := by
    rw [← hsp]
    change _=(Function.update processor.registers .rsp (processor.registers .rsp-8) .rsp).toNat
    rw [Function.update_self]
  rw [Processor.push,hplace]

/-- The other registers. -/
theorem push_registers {register : Register} (h : register≠.rsp) (value : UInt64) :
    (processor.push value).registers register=processor.registers register :=
  Function.update_of_ne h _ _

/-- A register that is set. -/
theorem set_registers_self (register : Register) (value : UInt64) :
    (processor.set register value).registers register=value := Function.update_self _ _ _

/-- Other registers stay as they are. -/
theorem set_registers_other {register other : Register} (h : other≠register) (value : UInt64) :
    (processor.set register value).registers other=processor.registers other :=
  Function.update_of_ne h _ _

/-- The stack pointer stays as it is. -/
theorem set_sp {register : Register} (h : .rsp≠register) (value : UInt64) :
    (processor.set register value).sp=processor.sp :=
  congrArg UInt64.toNat (set_registers_other h value)

/-- A push puts its word below the others. -/
theorem Holds.push (h : Holds processor top words) (hroom : 8≤processor.sp) (value : UInt64) :
    Holds (processor.push value) top (words++[value]) := by
  obtain ⟨hsp,hwords⟩ := h
  have hlt : value.toNat<256^8 := (UInt64.toNat_lt value).trans_eq (by norm_num)
  refine ⟨?_,fun i found hi => ?_⟩
  · rw [push_sp hroom,List.length_append,List.length_singleton]
    omega
  · rw [push_memory hroom]
    rcases lt_or_ge i words.length with hlt'|hge
    · have hfound := hwords i found ((List.getElem?_append_left hlt').symm.trans hi)
      rw [readLE_writeLE_apart _ (by unfold Apart; omega)]
      exact hfound
    · have hlength := (List.getElem?_eq_some_iff.mp hi).1
      rw [List.length_append,List.length_singleton] at hlength
      have hi' : i=words.length := by omega
      subst hi'
      have hplace : top-8*(words.length+1)=processor.sp-8 := by omega
      rw [List.getElem?_concat_length] at hi
      rw [hplace,readLE_writeLE_self,Nat.mod_eq_of_lt hlt,UInt64.ofNat_toNat]
      exact Option.some.inj hi

/-- What pushes leave behind. -/
theorem Holds.pushes (h : Holds processor top words) (values : List UInt64)
    (hroom : 8*values.length≤processor.sp) :
    Holds (values.foldl Processor.push processor) top (words++values) ∧
      (∀ register, register≠.rsp →
        (values.foldl Processor.push processor).registers register=processor.registers register) ∧
      ∀ x, processor.sp≤x → (values.foldl Processor.push processor).memory x=processor.memory x := by
  induction values generalizing processor words with
  | nil =>
    rw [List.append_nil]
    exact ⟨h,fun _ _ => rfl,fun _ _ => rfl⟩
  | cons first rest ih =>
    rw [List.length_cons] at hroom
    have hsp := push_sp (by omega : 8≤processor.sp) first
    obtain ⟨hall,hregisters,hmemory⟩ := ih (h.push (by omega) first) (by omega)
    refine ⟨?_,fun register hne => ?_,fun x hx => ?_⟩
    · rw [List.append_cons]
      exact hall
    · exact (hregisters register hne).trans (push_registers hne first)
    · rw [List.foldl_cons,hmemory x (by omega),push_memory (by omega)]
      exact writeLE_outside _ (by omega)

end Words

section Invariant

/-- The words a wrapper pushes. -/
def savedWords (activation : Activation) : List UInt64 :=
  UInt64.ofNat (macroOf activation.wrapper).2::generalPushes.map activation.interrupted.registers

/-- How many of them are on the stack before an instruction. -/
def savedCount (k : ℕ) : ℕ := if k≤16 then k else if k≤17 then 16 else 34-k

/-- The words on the stack before an instruction. -/
def stacked (activation : Activation) (k : ℕ) : List UInt64 :=
  interruptWords activation.interrupted activation.error++
    (savedWords activation).take (savedCount k)

variable (program : Program) (high : ℕ)

/-- The stack below which a wrapper works. -/
def Activation.top (activation : Activation) : ℕ := aligned activation.interrupted.sp

/-- What holds before an instruction of a wrapper. -/
structure Before (activation : Activation) (processor : Processor) (k : ℕ) : Prop where
  /-- The wrapper has this instruction. -/
  lt : k<35
  /-- The instruction pointer. -/
  rip : processor.registers .rip=program.address activation.wrapper k
  /-- The words on the stack. -/
  holds : Holds processor activation.top (stacked activation k)
  /-- The registers that are to be pushed. -/
  saved : k≤16 → ∀ register∈generalPushes,
    processor.registers register=activation.interrupted.registers register
  /-- The argument of the handler. -/
  argument : k=17 → processor.registers .rdi=processor.registers .rsp
  /-- The registers that have been popped. -/
  restored : ∀ i register, i+18<k → generalPops[i]?=some register →
    processor.registers register=activation.interrupted.registers register

/-- What holds in the handler. -/
structure Inside (activation : Activation) (processor : Processor) (entry : ℕ) : Prop where
  /-- The handler works below its return address. -/
  sp : processor.sp≤entry
  /-- The return address is below the words of the wrapper. -/
  top : entry+8*((stacked activation afterCall).length+1)=activation.top
  /-- All of them are there. -/
  words : Words processor.memory activation.top
    (stacked activation afterCall++[program.address activation.wrapper afterCall])

/-- The kernel's level. -/
def Processor.Level (processor : Processor) : Prop := processor.registers .cs &&& 3=0

/-- What holds at a position. -/
def Stands (activation : Activation) (processor : Processor) : Prop :=
  match activation.position with
  | .instruction k => Before program activation processor k
  | .handler entry => Inside program activation processor entry

/-- What was interrupted ran on the kernel's stack, and that is as it was. -/
structure Kept (activation : Activation) (processor : Processor) : Prop where
  /-- It ran at the kernel's level. -/
  level : activation.interrupted.Level
  /-- On the stack that ends here. -/
  sp : activation.interrupted.sp≤high
  /-- Nothing has been stored above its stack pointer. -/
  memory : ∀ x, activation.interrupted.sp≤x → x<high →
    processor.memory x=activation.interrupted.memory x

/-- Every wrapper stands where what interrupted it will resume it. -/
def Nested : Processor→List Activation→Prop
  | _,[] => True
  | processor,activation::rest =>
    Kept high activation processor ∧ Stands program activation processor ∧
      Nested activation.interrupted rest

/-- The invariant of the machine. -/
structure Invariant (machine : Machine) : Prop where
  /-- The processor runs at the kernel's level. -/
  level : machine.processor.Level
  /-- On the stack that ends here. -/
  sp : machine.processor.sp≤high
  /-- The wrappers. -/
  nested : Nested program high machine.processor machine.activations

variable {program high} {activation : Activation} {processor after : Processor}

/-- The stack pointer is aligned downwards. -/
theorem aligned_le (sp : ℕ) : aligned sp≤ sp := Nat.div_mul_le_self sp 16

/-- A wrapper works below the stack pointer of what it interrupted. -/
theorem Stands.sp_le (h : Stands program activation processor) :
    processor.sp≤activation.top := by
  unfold Stands at h
  cases hposition : activation.position with
  | instruction k =>
    rw [hposition] at h
    have hsp := h.holds.1
    omega
  | handler entry =>
    rw [hposition] at h
    have hsp := h.sp
    have htop := h.top
    omega

/-- A wrapper stands where it stood when the registers and the stack are as
they were. -/
theorem Stands.congr (h : Stands program activation processor)
    (hregisters : after.registers=processor.registers)
    (hmemory : ∀ x, processor.sp≤x → x<activation.top → after.memory x=processor.memory x) :
    Stands program activation after := by
  have hsp : after.sp=processor.sp := congrArg (fun registers => (registers .rsp).toNat) hregisters
  unfold Stands at h ⊢
  cases hposition : activation.position with
  | instruction k =>
    rw [hposition] at h
    refine ⟨h.lt,?_,⟨?_,?_⟩,?_,?_,?_⟩
    · rw [hregisters]
      exact h.rip
    · rw [hsp]
      exact h.holds.1
    · exact h.holds.2.congr h.holds.1.le hmemory
    · rw [hregisters]
      exact h.saved
    · rw [hregisters]
      exact h.argument
    · rw [hregisters]
      exact h.restored
  | handler entry =>
    rw [hposition] at h
    have hle := h.sp
    refine ⟨hsp.trans_le h.sp,h.top,h.words.congr ?_ (fun x hx => hmemory x (hle.trans hx))⟩
    rw [List.length_append,List.length_singleton]
    exact h.top.le

/-- What holds before an instruction does not depend on the position recorded. -/
theorem Before.stands {k : ℕ} (h : Before program activation processor k) :
    Stands program {activation with position := .instruction k} processor :=
  Before.mk h.lt h.rip h.holds h.saved h.argument h.restored

/-- Nor does what holds in the handler. -/
theorem Inside.stands {entry : ℕ} (h : Inside program activation processor entry) :
    Stands program {activation with position := .handler entry} processor :=
  Inside.mk h.sp h.top h.words

/-- So does the innermost of some wrappers, and with it all of them. -/
theorem Nested.congr {activations : List Activation} (h : Nested program high processor activations)
    (hregisters : after.registers=processor.registers)
    (hmemory : ∀ x, processor.sp≤x → x<high → after.memory x=processor.memory x) :
    Nested program high after activations := by
  cases activations with
  | nil => trivial
  | cons activation rest =>
    obtain ⟨hkept,hstands,hrest⟩ := h
    have htop := hstands.sp_le
    have hinterrupted : activation.top≤activation.interrupted.sp := aligned_le _
    have hhigh := hkept.sp
    refine ⟨⟨hkept.level,hkept.sp,fun x hx hlt => ?_⟩,
      hstands.congr hregisters (fun x hx hlt => hmemory x hx (by omega)),hrest⟩
    exact (hmemory x (by omega) hlt).trans (hkept.memory x hx hlt)

end Invariant

section Instructions

/-- The instructions of a wrapper, by their number. -/
inductive Shape (wrapper : Wrapper) : ℕ→Instruction→Prop where
  | pushNumber : Shape wrapper 0 (.pushNumber (macroOf wrapper).2)
  | push {i : ℕ} {register : Register} : generalPushes[i]?=some register →
      Shape wrapper (i+1) (.push register)
  | movRspRdi : Shape wrapper 16 .movRspRdi
  | call : Shape wrapper 17 .call
  | pop {i : ℕ} {register : Register} : generalPops[i]?=some register →
      Shape wrapper (18+i) (.pop register)
  | addRsp : Shape wrapper 33 .addRsp
  | last : Shape wrapper 34 (lastInstruction (macroOf wrapper).1)

/-- Every wrapper has thirty-five instructions of these shapes. -/
theorem code_shape (wrapper : Wrapper) {k : ℕ} (hk : k<35) :
    ∃ instruction, (code wrapper)[k]?=some instruction ∧ Shape wrapper k instruction := by
  have hpush : ∀ i<15, (code wrapper)[i+1]?=generalPushes[i]?.map .push := by
    intro i hi
    interval_cases i <;> rfl
  have hpop : ∀ i<15, (code wrapper)[18+i]?=generalPops[i]?.map .pop := by
    intro i hi
    interval_cases i <;> rfl
  have hpushes : generalPushes.length=15 := rfl
  have hpops : generalPops.length=15 := rfl
  rcases Nat.eq_zero_or_pos k with rfl|hpos
  · exact ⟨_,rfl,.pushNumber⟩
  rcases lt_or_ge k 16 with hlow|hge
  · obtain ⟨i,rfl⟩ : ∃ i, k=i+1 := ⟨k-1,by omega⟩
    have hi := List.getElem?_eq_getElem (by omega : i<generalPushes.length)
    exact ⟨_,(hpush i (by omega)).trans (congrArg _ hi),.push hi⟩
  rcases Nat.eq_or_lt_of_le hge with rfl|hmiddle
  · exact ⟨_,rfl,.movRspRdi⟩
  rcases Nat.eq_or_lt_of_le hmiddle with rfl|hcall
  · exact ⟨_,rfl,.call⟩
  rcases lt_or_ge k 33 with hhigh|hend
  · obtain ⟨i,rfl⟩ : ∃ i, k=18+i := ⟨k-18,by omega⟩
    have hi := List.getElem?_eq_getElem (by omega : i<generalPops.length)
    exact ⟨_,(hpop i (by omega)).trans (congrArg _ hi),.pop hi⟩
  rcases Nat.eq_or_lt_of_le hend with rfl|hlast
  · exact ⟨_,rfl,.addRsp⟩
  · obtain rfl : k=34 := by omega
    exact ⟨_,rfl,.last⟩

variable {program : Program} {high : ℕ} {activation : Activation} {processor : Processor} {k : ℕ}

/-- A wrapper executes the instruction it stands before. -/
theorem executeAt_some {rest : List Activation} {instruction : Instruction} {next : Processor}
    (hrip : processor.registers .rip=program.address activation.wrapper k)
    (hcode : (code activation.wrapper)[k]?=some instruction)
    (hperform : perform program activation.wrapper k processor instruction=some next) :
    executeAt program processor activation rest k=
      some ⟨next,((advance next k instruction).map (fun position =>
        {activation with position := position})).toList++rest⟩ := by
  rw [executeAt,if_pos hrip,hcode]
  simp only [Option.bind_eq_bind,Option.bind_some,hperform]
  rfl

/-- One more word is on the stack. -/
theorem stacked_succ (hk : k<16) {value : UInt64} (hvalue : (savedWords activation)[k]?=some value) :
    stacked activation (k+1)=stacked activation k++[value] := by
  rw [stacked,stacked,savedCount,savedCount,if_pos (by omega),if_pos (by omega),List.take_add_one,
    hvalue,List.append_assoc]
  rfl

/-- One word less is on the stack. -/
theorem stacked_pop (hlow : 18≤k) (hk : k<34) {value : UInt64}
    (hvalue : (savedWords activation)[33-k]?=some value) :
    stacked activation k=stacked activation (k+1)++[value] := by
  have hcount : 34-k=33-k+1 := by omega
  have hnext : 34-(k+1)=33-k := by omega
  rw [stacked,stacked,savedCount,savedCount,if_neg (by omega),if_neg (by omega),if_neg (by omega),
    if_neg (by omega),hcount,hnext,List.take_add_one,hvalue,List.append_assoc]
  rfl

/-- The stack below which a wrapper works ends in memory. -/
theorem top_lt (activation : Activation) : activation.top<2^64 :=
  (aligned_le _).trans_lt (UInt64.toNat_lt _)

/-- A push of `PUSH_REGISTERS`. -/
theorem Before.push (h : Before program activation processor k) (hk : k<16)
    (hroom : 8≤processor.sp) {value : UInt64} (hvalue : (savedWords activation)[k]?=some value) :
    Before program activation
      ((processor.push value).set .rip (program.address activation.wrapper (k+1))) (k+1) := by
  have hgeneral : ∀ register∈generalPushes,register≠.rip ∧ register≠.rsp := by decide
  refine ⟨by omega,set_registers_self _ _,?_,fun _ register hregister => ?_,fun heq => ?_,
    fun i register hi => ?_⟩
  · rw [stacked_succ hk hvalue]
    obtain ⟨hsp,hwords⟩ := h.holds.push hroom value
    exact ⟨(congrArg (·+_) (set_sp (by decide) _)).trans hsp,hwords⟩
  · obtain ⟨hrip,hrsp⟩ := hgeneral register hregister
    rw [set_registers_other hrip,push_registers hrsp]
    exact h.saved (by omega) register hregister
  · omega
  · omega

/-- The processor after `pop`, but for the register that is loaded. -/
theorem Before.pop_holds (h : Before program activation processor k) (hlow : 18≤k) (hk : k<34)
    {value : UInt64} (hvalue : (savedWords activation)[33-k]?=some value) :
    processor.word processor.sp=value ∧
      ∀ after : Processor, after.registers .rsp=processor.registers .rsp+8 →
        after.memory=processor.memory → Holds after activation.top (stacked activation (k+1)) := by
  have hholds := h.holds
  have htop := top_lt activation
  rw [stacked_pop hlow hk hvalue] at hholds
  have hlength : (stacked activation (k+1)++[value]).length=(stacked activation (k+1)).length+1 := by
    rw [List.length_append,List.length_singleton]
  have hsp := hholds.1
  rw [hlength] at hsp
  refine ⟨?_,fun after hrsp hmemory => ⟨?_,?_⟩⟩
  · have hword := @Holds.word processor activation.top _ value hholds 0 (by omega) (by
      rw [hlength,Nat.sub_zero,Nat.add_sub_cancel]
      exact List.getElem?_concat_length)
    exact hword
  · have hnext : after.sp=processor.sp+8 := by
      rw [Processor.sp,hrsp,UInt64.toNat_add]
      exact Nat.mod_eq_of_lt (by change processor.sp+8<2^64; omega)
    omega
  · rw [hmemory]
    exact hholds.2.front

/-- A pop of `POP_REGISTERS`. -/
theorem Before.pop {i : ℕ} {register : Register} (h : Before program activation processor (18+i))
    (hi : generalPops[i]?=some register) :
    Before program activation
      ((processor.pop register).set .rip (program.address activation.wrapper (18+i+1))) (18+i+1) := by
  have hgeneral : ∀ register∈generalPops,register≠.rip ∧ register≠.rsp := by decide
  have hlt : i<15 := (List.getElem?_eq_some_iff.mp hi).1
  obtain ⟨hrip,hrsp⟩ := hgeneral register (List.mem_of_getElem? hi)
  have hplace : 33-(18+i)=14-i+1 := by omega
  have hvalue : (savedWords activation)[33-(18+i)]?=
      some (activation.interrupted.registers register) := by
    rw [hplace,savedWords,List.getElem?_cons_succ,List.getElem?_map,generalPushes_reverse i hlt,hi]
    rfl
  obtain ⟨hword,hholds⟩ := h.pop_holds (by omega) (by omega) hvalue
  refine ⟨by omega,set_registers_self _ _,hholds _ ?_ rfl,fun hle => ?_,fun heq => ?_,
    fun j other hj hother => ?_⟩
  · rw [set_registers_other (by decide),Processor.pop,set_registers_other (Ne.symm hrsp),
      set_registers_self]
  · omega
  · omega
  · obtain ⟨hrip',hrsp'⟩ := hgeneral other (List.mem_of_getElem? hother)
    rw [set_registers_other hrip',Processor.pop]
    by_cases heq : other=register
    · rw [heq,set_registers_self,hword]
    · have hne : j≠i := by
        rintro rfl
        exact heq (Option.some.inj (hother.symm.trans hi))
      rw [set_registers_other heq,set_registers_other hrsp']
      exact h.restored j other (by omega) hother

/-- `mov %rsp, %rdi`. -/
theorem Before.movRspRdi (h : Before program activation processor 16) :
    Before program activation ((processor.set .rdi (processor.registers .rsp)).set .rip
      (program.address activation.wrapper 17)) 17 := by
  refine ⟨by omega,set_registers_self _ _,⟨?_,h.holds.2⟩,fun hle => ?_,fun _ => ?_,fun i _ hi => ?_⟩
  · rw [set_sp (by decide),set_sp (by decide)]
    exact h.holds.1
  · omega
  · rw [set_registers_other (by decide),set_registers_self,set_registers_other (by decide),
      set_registers_other (by decide)]
  · omega

/-- `call` leaves the wrapper for its handler. -/
theorem Before.call (h : Before program activation processor 17) (hroom : 8≤processor.sp) :
    let next := (processor.push (program.address activation.wrapper (17+1))).set .rip
      (program.handler activation.wrapper)
    Inside program activation next next.sp := by
  obtain ⟨hsp,hwords⟩ := h.holds.push hroom (program.address activation.wrapper afterCall)
  rw [List.length_append,List.length_singleton] at hsp
  exact ⟨le_rfl,(congrArg (·+_) (set_sp (by decide) _)).trans hsp,hwords⟩

/-- A handler returns to its wrapper. -/
theorem Inside.ret (h : Inside program activation processor processor.sp) :
    Before program activation (returnFrom processor) afterCall := by
  have htop := h.top
  have hlt := top_lt activation
  have hholds : Holds processor activation.top
      (stacked activation afterCall++[program.address activation.wrapper afterCall]) := by
    refine ⟨?_,h.words⟩
    rw [List.length_append,List.length_singleton]
    exact h.top
  have hword := @Holds.word processor activation.top _
    (program.address activation.wrapper afterCall) hholds 0
    (by rw [List.length_append,List.length_singleton]; omega) (by
      rw [List.length_append,List.length_singleton,Nat.sub_zero,Nat.add_sub_cancel]
      exact List.getElem?_concat_length)
  refine ⟨by decide,?_,⟨?_,h.words.front⟩,fun hle => ?_,fun heq => ?_,fun i _ hi => ?_⟩
  · rw [returnFrom,set_registers_other (by decide),set_registers_self]
    exact hword
  · have hnext : (returnFrom processor).sp=processor.sp+8 := by
      rw [returnFrom,Processor.sp,set_registers_self,UInt64.toNat_add]
      exact Nat.mod_eq_of_lt (by change processor.sp+8<2^64; omega)
    omega
  · exact absurd hle (by decide)
  · exact absurd heq (by decide)
  · unfold afterCall at hi
    omega

/-- `addq $8, %rsp` skips the number of the interrupt. -/
theorem Before.addRsp (h : Before program activation processor 33) :
    Before program activation ((processor.set .rsp (processor.registers .rsp+8)).set .rip
      (program.address activation.wrapper (33+1))) (33+1) := by
  have hgeneral : ∀ register∈generalPops,register≠.rip ∧ register≠.rsp := by decide
  obtain ⟨-,hholds⟩ := h.pop_holds (by decide) (by decide)
    (rfl : (savedWords activation)[33-33]?=some (UInt64.ofNat (macroOf activation.wrapper).2))
  refine ⟨by omega,set_registers_self _ _,hholds _ ?_ rfl,fun hle => ?_,fun heq => ?_,
    fun i register _ hregister => ?_⟩
  · rw [set_registers_other (by decide),set_registers_self]
  · omega
  · omega
  · obtain ⟨hrip,hrsp⟩ := hgeneral register (List.mem_of_getElem? hregister)
    have hi : i<15 := (List.getElem?_eq_some_iff.mp hregister).1
    rw [set_registers_other hrip,set_registers_other hrsp]
    exact h.restored i register (by omega) hregister

/-- The words of `iretq` are in the order of its registers. -/
theorem iretPops_idxOf : ∀ j<5, ∀ register, iretPops[j]?=some register →
    register∈iretPops ∧ iretPops.idxOf register=j := by
  intro j hj register hregister
  interval_cases j <;> cases hregister <;> exact ⟨by decide,rfl⟩

/-- `iretq` resumes what was interrupted. -/
theorem Before.resumes (h : Before program activation processor 34) (herror : activation.error=none) :
    processor.iretq.registers=activation.interrupted.registers := by
  have hiret : ∀ register∈generalPops,register∉iretPops := by decide
  have hwords : stacked activation 34=iretPushes.map activation.interrupted.registers := by
    change interruptWords _ _++[]=_
    rw [interruptWords,herror,List.append_nil]
    exact List.append_nil _
  have hholds := h.holds
  have hcount : (iretPushes.map activation.interrupted.registers).length=5 := rfl
  rw [hwords] at hholds
  funext register
  rcases register_cases register with ⟨i,hlt,hi⟩|⟨j,hlt,hj⟩
  · exact (if_neg (hiret register (List.mem_of_getElem? hi))).trans
      (h.restored i register (by omega) hi)
  · obtain ⟨hmem,hidx⟩ := iretPops_idxOf j hlt register hj
    refine (if_pos hmem).trans ?_
    rw [hidx]
    refine hholds.word (by omega) ?_
    rw [hcount,List.getElem?_map,iretPushes_reverse j hlt,hj]
    rfl

/-- With an error code on the stack it takes every word for the one below. -/
theorem Before.misses {error : UInt64} (h : Before program activation processor 34)
    (herror : activation.error=some error) :
    processor.iretq.registers .rip=error ∧
      ∀ (i : ℕ) (register next : Register), iretPops[i]?=some register →
        iretPops[i+1]?=some next →
        processor.iretq.registers next=activation.interrupted.registers register := by
  have hwords : stacked activation 34=
      iretPushes.map activation.interrupted.registers++[error] := by
    change interruptWords _ _++[]=_
    rw [interruptWords,herror,List.append_nil]
    rfl
  have hholds := h.holds
  have hcount : (iretPushes.map activation.interrupted.registers++[error]).length=6 := rfl
  rw [hwords] at hholds
  refine ⟨hholds.word (j:=0) (by omega) rfl,fun i register next hi hnext => ?_⟩
  have hlt : i+1<5 := (List.getElem?_eq_some_iff.mp hnext).1
  obtain ⟨hmem,hidx⟩ := iretPops_idxOf (i+1) hlt next hnext
  have hplace : 6-1-(i+1)=4-i := by omega
  refine (if_pos hmem).trans ?_
  rw [hidx]
  refine hholds.word (by omega) ?_
  rw [hcount,hplace,List.getElem?_append_left (by change 4-i<5; omega),List.getElem?_map,
    iretPushes_reverse i (by omega),hi]
  rfl

end Instructions

section Frames

/-- Where the field of a register is in `StackFrame`, and in `StackFrameErrorCode`
with its word for the error code. -/
def fieldIndex (kind : Kind) (register : Register) : ℕ :=
  if register∈iretPops then (if kind=.exceptionHandlerWithCode then 17 else 16)+iretPops.idxOf register
  else generalPops.idxOf register

/-- The frame a handler is given has the registers of what was interrupted, the
number of its macro and the error code. -/
structure Sees (activation : Activation) (processor : Processor) : Prop where
  /-- The fields of the registers. -/
  registers : ∀ register,
    processor.word ((processor.registers .rdi).toNat+
      8*fieldIndex (macroOf activation.wrapper).1 register)=activation.interrupted.registers register
  /-- `interrupt`. -/
  interrupt : processor.word ((processor.registers .rdi).toNat+8*15)=
    UInt64.ofNat (macroOf activation.wrapper).2
  /-- `error`. -/
  error : ∀ error, activation.error=some error →
    processor.word ((processor.registers .rdi).toNat+8*16)=error

/-- The handler expects an error code exactly if there is one. -/
def Activation.Fits (activation : Activation) : Prop :=
  (macroOf activation.wrapper).1=.exceptionHandlerWithCode↔activation.error.isSome

variable {program : Program} {activation : Activation} {processor : Processor}

/-- The words at a `call`, from the stack pointer on. -/
theorem Before.word_saved (h : Before program activation processor 17) {j : ℕ} (hj : j<16)
    {value : UInt64} (hvalue : (savedWords activation)[15-j]?=some value) :
    processor.word (processor.sp+8*j)=value := by
  have hsaved : (savedWords activation).length=16 := rfl
  have hwords : stacked activation 17=
      interruptWords activation.interrupted activation.error++savedWords activation := rfl
  have hholds := h.holds
  rw [hwords] at hholds
  refine hholds.word (by rw [List.length_append,hsaved]; omega) ?_
  rw [List.length_append,hsaved,List.getElem?_append_right (by omega),← hvalue]
  exact congrArg _ (by omega)

/-- The words of the processor are behind them. -/
theorem Before.word_interrupt (h : Before program activation processor 17) {j : ℕ}
    (hj : j<(interruptWords activation.interrupted activation.error).length) {value : UInt64}
    (hvalue : (interruptWords activation.interrupted activation.error)[
      (interruptWords activation.interrupted activation.error).length-1-j]?=some value) :
    processor.word (processor.sp+8*(16+j))=value := by
  have hsaved : (savedWords activation).length=16 := rfl
  have hwords : stacked activation 17=
      interruptWords activation.interrupted activation.error++savedWords activation := rfl
  have hholds := h.holds
  rw [hwords] at hholds
  refine hholds.word (by rw [List.length_append,hsaved]; omega) ?_
  rw [List.length_append,hsaved,List.getElem?_append_left (by omega),← hvalue]
  exact congrArg _ (by omega)

/-- A handler that expects an error code exactly if there is one sees what was
interrupted. -/
theorem Before.sees (h : Before program activation processor 17) (hfits : activation.Fits) :
    Sees activation processor := by
  have hrdi : (processor.registers .rdi).toNat=processor.sp :=
    congrArg UInt64.toNat (h.argument rfl)
  have hiret : ∀ register∈generalPops,register∉iretPops := by decide
  have hgeneral : ∀ i<15, ∀ register, generalPops[i]?=some register →
      generalPops.idxOf register=i := by
    intro i hi register hregister
    interval_cases i <;> cases hregister <;> rfl
  refine ⟨fun register => ?_,?_,fun error herror => ?_⟩
  · rw [hrdi]
    rcases register_cases register with ⟨i,hlt,hi⟩|⟨j,hlt,hj⟩
    · rw [fieldIndex,if_neg (hiret register (List.mem_of_getElem? hi)),hgeneral i hlt register hi]
      refine h.word_saved (by omega) ?_
      have hplace : 15-i=14-i+1 := by omega
      rw [hplace,savedWords,List.getElem?_cons_succ,List.getElem?_map,generalPushes_reverse i hlt,hi]
      rfl
    · obtain ⟨hmem,hidx⟩ := iretPops_idxOf j hlt register hj
      have hpushed : (iretPushes.map activation.interrupted.registers)[4-j]?=
          some (activation.interrupted.registers register) := by
        rw [List.getElem?_map,iretPushes_reverse j hlt,hj]
        rfl
      have hcount : (iretPushes.map activation.interrupted.registers).length=5 := rfl
      rw [fieldIndex,if_pos hmem,hidx]
      cases herror : activation.error with
      | none =>
        have hplain : ¬(macroOf activation.wrapper).1=.exceptionHandlerWithCode := fun hkind => by
          have hsome := hfits.mp hkind
          rw [herror] at hsome
          cases hsome
        have hwords : interruptWords activation.interrupted activation.error=
            iretPushes.map activation.interrupted.registers := by
          rw [interruptWords,herror]
          exact List.append_nil _
        rw [if_neg hplain]
        refine h.word_interrupt (by rw [hwords,hcount]; exact hlt) ?_
        rw [hwords,hcount]
        exact hpushed
      | some error =>
        have hcode : (macroOf activation.wrapper).1=.exceptionHandlerWithCode := hfits.mpr (by
          rw [herror]
          rfl)
        have hwords : interruptWords activation.interrupted activation.error=
            iretPushes.map activation.interrupted.registers++[error] := by
          rw [interruptWords,herror]
          rfl
        have hlength : (iretPushes.map activation.interrupted.registers++[error]).length=6 := rfl
        have hplace : 17+j=16+(j+1) := by omega
        have hindex : 6-1-(j+1)=4-j := by omega
        rw [if_pos hcode,hplace]
        refine h.word_interrupt (by rw [hwords,hlength]; omega) ?_
        rw [hwords,hlength,hindex,List.getElem?_append_left (by omega)]
        exact hpushed
  · rw [hrdi]
    exact h.word_saved (by decide) rfl
  · have hwords : interruptWords activation.interrupted activation.error=
        iretPushes.map activation.interrupted.registers++[error] := by
      rw [interruptWords,herror]
      rfl
    have hlength : (iretPushes.map activation.interrupted.registers++[error]).length=6 := rfl
    rw [hrdi]
    refine h.word_interrupt (j:=0) (by rw [hwords,hlength]; decide) ?_
    rw [hwords,hlength]
    rfl

end Frames

section Steps

/-- What may happen: an interrupt on the stack in use, with an error code if its
vector has one, an instruction that finds room on the stack, a handler that
leaves everything above its own part of the stack alone, and its return. The
kernel's own code may do anything on its stack. -/
def Allowed (high : ℕ) (machine : Machine) : Action→Prop
  | .interrupt vector error => vector<255 ∧ (∀ call∈vectorCall vector,call.ist=0) ∧
      (error.isSome↔vector∈errorVectors) ∧ 64≤ machine.processor.sp
  | .execute => ∃ activation rest k, machine.activations=activation::rest ∧
      activation.position=.instruction k ∧ (k<18 → 8≤ machine.processor.sp) ∧
      (k=34 → (macroOf activation.wrapper).1=.interruptHandler ∧ activation.error=none)
  | .work processor => processor.Level ∧
      match machine.activations with
      | [] => processor.sp≤high
      | activation::_ => ∃ entry, activation.position=.handler entry ∧ processor.sp≤entry ∧
          ∀ x, entry≤x → x<high → processor.memory x=machine.processor.memory x
  | .ret => ∃ activation rest, machine.activations=activation::rest ∧
      activation.position=.handler machine.processor.sp

/-- What the machine does right: its innermost wrapper calls a handler that
expects an error code exactly if there is one with the frame of what was
interrupted, and resumes that if there was none. With an error code it takes
the code for the instruction pointer, and every other word for the one before. -/
structure Faithful (high : ℕ) (machine : Machine) : Prop where
  /-- The frame. -/
  sees : ∀ activation rest, machine.activations=activation::rest →
    activation.position=.instruction 17 → activation.Fits → Sees activation machine.processor
  /-- Where nothing else was pushed, all registers and the stack are resumed. -/
  resumes : ∀ activation rest, machine.activations=activation::rest →
    activation.position=.instruction 34 → activation.error=none →
    machine.processor.iretq.registers=activation.interrupted.registers ∧
      ∀ x, activation.interrupted.sp≤x → x<high →
        machine.processor.memory x=activation.interrupted.memory x
  /-- Where an error code was pushed, they are not. -/
  misses : ∀ activation rest error, machine.activations=activation::rest →
    activation.position=.instruction 34 → activation.error=some error →
    machine.processor.iretq.registers .rip=error ∧
      ∀ (i : ℕ) (register next : Register), iretPops[i]?=some register →
        iretPops[i+1]?=some next →
        machine.processor.iretq.registers next=activation.interrupted.registers register

variable {program : Program} {high : ℕ} {machine : Machine}

/-- The invariant says so. -/
theorem Invariant.faithful (h : Invariant program high machine) : Faithful high machine := by
  refine ⟨fun activation rest hm hposition hfits => ?_,fun activation rest hm hposition herror => ?_,
    fun activation rest error hm hposition herror => ?_⟩ <;>
    (have hnested := h.nested
     rw [hm] at hnested
     obtain ⟨hkept,hstands,-⟩ := hnested
     rw [Stands,hposition] at hstands)
  · exact Before.sees hstands hfits
  · exact ⟨Before.resumes hstands herror,hkept.memory⟩
  · exact Before.misses hstands herror

/-- What an interrupt leaves behind. -/
theorem deliver_spec (memory : Memory) {processor : Processor} {vector : ℕ} {error : Option UInt64}
    {call : Call} (hvector : vector<255) (hcall : vectorCall vector=some call) (hist : call.ist=0)
    (hroom : 64≤processor.sp) (hlevel : processor.Level) :
    ∃ next, deliver (kernelTables program.toLayout memory) vector error processor=some next ∧
      next.Level ∧ next.sp≤processor.sp ∧
      (∀ x, processor.sp≤x → next.memory x=processor.memory x) ∧
      Before program ⟨call.handler,processor,error,.instruction 0⟩ next 0 := by
  have hlt : processor.sp<2^64 := UInt64.toNat_lt _
  have hdown : processor.sp<aligned processor.sp+16 := Nat.lt_div_mul_add (by decide)
  have hle : aligned processor.sp≤processor.sp := aligned_le _
  have hcount : (interruptWords processor error).length≤6 := by
    rw [interruptWords,List.length_append]
    change 5+error.toList.length≤6
    cases error with
    | none => decide
    | some => exact le_rfl
  obtain ⟨start,hstart⟩ : ∃ start, start=processor.set .rsp (UInt64.ofNat (aligned processor.sp)) :=
    ⟨_,rfl⟩
  have hsp : start.sp=aligned processor.sp := by
    rw [hstart,Processor.sp,set_registers_self]
    exact UInt64.toNat_ofNat_of_lt' (by change aligned processor.sp<2^64; omega)
  have hkept : start.memory=processor.memory := by
    rw [hstart]
    rfl
  have hempty : Holds start (aligned processor.sp) [] :=
    ⟨hsp,fun i value hi => by cases hi⟩
  obtain ⟨hholds,hregisters,hmemory⟩ := hempty.pushes (interruptWords processor error) (by omega)
  have hgeneral : ∀ register∈generalPushes,register≠.rsp ∧ register≠.rip ∧ register≠.cs ∧
    register≠.rflags := by decide
  refine ⟨((((interruptWords processor error).foldl Processor.push start).set .rip
      (UInt64.ofNat (program.placement call.handler))).set .cs (UInt64.ofNat 0x08)).set .rflags
      (trapFlags (processor.registers .rflags)),?_,?_,?_,fun x hx => ?_,
    ⟨by decide,?_,?_,fun _ register hregister => ?_,fun heq => ?_,fun i _ hi => ?_⟩⟩
  · have henter : enter (kernelTables program.toLayout memory) vector=
        some ⟨program.placement call.handler,0x08,none⟩ := by
      rw [enter_kernelTables _ _ (by omega),hcall,Option.map_some,callEntry,hist]
      rfl
    refine (if_pos hlevel).trans ?_
    rw [henter,Option.map_some]
    dsimp only [Option.getD_none]
    rw [← hstart]
  · rw [Processor.Level,set_registers_other (by decide),set_registers_self]
    decide
  · rw [set_sp (by decide),set_sp (by decide),set_sp (by decide)]
    have htop := hholds.1
    omega
  · exact (hmemory x (by omega)).trans (congrFun hkept x)
  · rw [set_registers_other (by decide),set_registers_other (by decide),set_registers_self]
    exact (program.address_zero call.handler).symm
  · have hstacked : stacked ⟨call.handler,processor,error,.instruction 0⟩ 0=
        []++interruptWords processor error := List.append_nil _
    rw [hstacked]
    refine ⟨?_,hholds.2⟩
    rw [set_sp (by decide),set_sp (by decide),set_sp (by decide)]
    exact hholds.1
  · obtain ⟨hrsp,hrip,hcs,hrflags⟩ := hgeneral register hregister
    rw [set_registers_other hrflags,set_registers_other hcs,set_registers_other hrip,
      hregisters register hrsp,hstart,set_registers_other hrsp]
  · exact absurd heq (by decide)
  · omega

variable (memory : Memory)

/-- A wrapper that stands before its next instruction executes it. -/
theorem Invariant.execute (h : Invariant program high machine) (ha : Allowed high machine .execute) :
    ∃ next, step program (kernelTables program.toLayout memory) machine .execute=some next ∧
      Invariant program high next := by
  obtain ⟨activation,rest,k,hm,hposition,hroom,hlast⟩ := ha
  obtain ⟨processor,activations⟩ := machine
  dsimp only at hm hroom
  subst hm
  obtain ⟨hlevel,hsp,hkept,hstands,hrest⟩ := h
  dsimp only at hlevel hsp hkept hstands hrest
  rw [Stands,hposition] at hstands
  have hle : activation.top≤high := (aligned_le _).trans hkept.sp
  have htop : processor.sp≤activation.top := hstands.holds.1▸Nat.le_add_right _ _
  -- an instruction that leaves the wrapper where it may go on, and the memory above it alone
  have hgo : ∀ instruction next position,
      (code activation.wrapper)[k]?=some instruction →
      perform program activation.wrapper k processor instruction=some next →
      advance next k instruction=some position → next.Level →
      (∀ x, processor.sp≤x → next.memory x=processor.memory x) →
      Stands program {activation with position := position} next →
      ∃ after, step program (kernelTables program.toLayout memory) ⟨processor,activation::rest⟩
        .execute=some after ∧ Invariant program high after := by
    intro instruction next position hcode hperform hadvance hnext hmemory hafter
    refine ⟨⟨next,{activation with position := position}::rest⟩,?_,
      ⟨hnext,hafter.sp_le.trans hle,⟨hkept.level,hkept.sp,fun x hx hlt => ?_⟩,hafter,hrest⟩⟩
    · unfold step
      dsimp only
      rw [hposition]
      dsimp only
      rw [executeAt_some hstands.rip hcode hperform,hadvance]
      rfl
    · have hx' : activation.interrupted.sp≤x := hx
      have htop' : activation.top≤activation.interrupted.sp := aligned_le _
      exact (hmemory x (by omega)).trans (hkept.memory x hx hlt)
  have hpushed : ∀ value : UInt64, 8≤processor.sp → ∀ x, processor.sp≤x →
      (processor.push value).memory x=processor.memory x := by
    intro value hroom x hx
    rw [push_memory hroom]
    exact writeLE_outside _ (by omega)
  have hgeneral : ∀ register∈generalPops,register≠.cs := by decide
  obtain ⟨instruction,hcode,hshape⟩ := code_shape activation.wrapper hstands.lt
  cases hshape with
  | pushNumber =>
    refine hgo _ _ (.instruction 1) hcode rfl rfl ?_ (hpushed _ (hroom (by decide)))
      (hstands.push (by decide) (hroom (by decide)) rfl).stands
    rw [Processor.Level,set_registers_other (by decide),push_registers (by decide)]
    exact hlevel
  | @push i register hi =>
    have hlt : i<15 := (List.getElem?_eq_some_iff.mp hi).1
    have hvalue : (savedWords activation)[i+1]?=some (processor.registers register) := by
      rw [hstands.saved (by omega) register (List.mem_of_getElem? hi),savedWords,
        List.getElem?_cons_succ,List.getElem?_map,hi]
      rfl
    refine hgo _ _ (.instruction (i+1+1)) hcode rfl rfl ?_ (hpushed _ (hroom (by omega)))
      (hstands.push (by omega) (hroom (by omega)) hvalue).stands
    rw [Processor.Level,set_registers_other (by decide),push_registers (by decide)]
    exact hlevel
  | movRspRdi =>
    refine hgo _ _ (.instruction 17) hcode rfl rfl ?_ (fun x _ => rfl) hstands.movRspRdi.stands
    rw [Processor.Level,set_registers_other (by decide),set_registers_other (by decide)]
    exact hlevel
  | call =>
    refine hgo _ _ (.handler _) hcode rfl rfl ?_ (hpushed _ (hroom (by decide)))
      (hstands.call (hroom (by decide))).stands
    rw [Processor.Level,set_registers_other (by decide),push_registers (by decide)]
    exact hlevel
  | @pop i register hi =>
    refine hgo _ _ (.instruction (18+i+1)) hcode rfl rfl ?_ (fun x _ => rfl) (hstands.pop hi).stands
    rw [Processor.Level,set_registers_other (by decide),Processor.pop,
      set_registers_other (Ne.symm (hgeneral register (List.mem_of_getElem? hi))),
      set_registers_other (by decide)]
    exact hlevel
  | addRsp =>
    refine hgo _ _ (.instruction 34) hcode rfl rfl ?_ (fun x _ => rfl) hstands.addRsp.stands
    rw [Processor.Level,set_registers_other (by decide),set_registers_other (by decide)]
    exact hlevel
  | last =>
    -- what was interrupted goes on, and what it interrupted stands where it stood
    obtain ⟨hkind,herror⟩ := hlast rfl
    rw [hkind] at hcode
    have hresumed := hstands.resumes herror
    have hsame : processor.iretq.sp=activation.interrupted.sp :=
      congrArg (fun registers => (registers .rsp).toNat) hresumed
    refine ⟨⟨processor.iretq,rest⟩,?_,⟨?_,hsame.trans_le hkept.sp,
      hrest.congr hresumed hkept.memory⟩⟩
    · unfold step
      dsimp only
      rw [hposition]
      dsimp only
      rw [executeAt_some hstands.rip hcode rfl]
      rfl
    · rw [Processor.Level,hresumed]
      exact hkept.level

/-- Whatever is allowed happens, and keeps the invariant. -/
theorem Invariant.step (h : Invariant program high machine) (action : Action)
    (ha : Allowed high machine action) :
    ∃ next, step program (kernelTables program.toLayout memory) machine action=some next ∧
      Invariant program high next := by
  cases action with
  | execute => exact h.execute memory ha
  | interrupt vector error =>
    obtain ⟨hvector,hist,-,hroom⟩ := ha
    obtain ⟨call,hcall⟩ : ∃ call,vectorCall vector=some call := ⟨_,if_pos hvector⟩
    obtain ⟨next,hnext,hlevel,hsp,hmemory,hbefore⟩ := @deliver_spec program memory machine.processor
      vector error call hvector hcall (hist call hcall) hroom h.level
    refine ⟨⟨next,⟨call.handler,machine.processor,error,.instruction 0⟩::machine.activations⟩,?_,
      ⟨hlevel,hsp.trans h.sp,⟨h.level,h.sp,fun x hx _ => hmemory x hx⟩,hbefore,h.nested⟩⟩
    unfold InterruptNesting.step
    dsimp only
    rw [hcall]
    simp only [Option.bind_eq_bind,Option.bind_some,hnext]
    rfl
  | work processor =>
    obtain ⟨hlevel,hwork⟩ := ha
    obtain ⟨old,activations⟩ := machine
    cases activations with
    | nil => exact ⟨⟨processor,[]⟩,rfl,⟨hlevel,hwork,trivial⟩⟩
    | cons activation rest =>
      obtain ⟨entry,hposition,hsp,hmemory⟩ := hwork
      obtain ⟨-,-,hkept,hstands,hrest⟩ := h
      dsimp only at hkept hstands hrest
      rw [Stands,hposition] at hstands
      have htop := hstands.top
      have htop' : activation.top≤activation.interrupted.sp := aligned_le _
      have hinside : Inside program activation processor entry := by
        refine ⟨hsp,hstands.top,@Words.congr _ _ _ _ entry hstands.words ?_ (fun x hx hlt => ?_)⟩
        · rw [List.length_append,List.length_singleton]
          exact htop.le
        · have hhigh := hkept.sp
          exact hmemory x hx (by omega)
      refine ⟨⟨processor,activation::rest⟩,?_,⟨hlevel,?_,⟨hkept.level,hkept.sp,fun x hx hlt => ?_⟩,
        ?_,hrest⟩⟩
      · unfold InterruptNesting.step
        dsimp only
        rw [hposition]
      · have hhigh := hkept.sp
        dsimp only
        omega
      · exact (hmemory x (by omega) hlt).trans (hkept.memory x hx hlt)
      · rw [Stands,hposition]
        exact hinside
  | ret =>
    obtain ⟨activation,rest,hm,hposition⟩ := ha
    obtain ⟨processor,activations⟩ := machine
    dsimp only at hm hposition
    subst hm
    obtain ⟨hlevel,hsp,hkept,hstands,hrest⟩ := h
    dsimp only at hlevel hsp hkept hstands hrest
    rw [Stands,hposition] at hstands
    have hstands' := hstands.ret.stands
    refine ⟨⟨returnFrom processor,{activation with position := .instruction afterCall}::rest⟩,?_,
      ⟨?_,hstands'.sp_le.trans ((aligned_le _).trans hkept.sp),⟨hkept.level,hkept.sp,hkept.memory⟩,
        hstands',hrest⟩⟩
    · unfold InterruptNesting.step
      dsimp only
      rw [hposition]
    · rw [Processor.Level,returnFrom,set_registers_other (by decide),set_registers_other (by decide)]
      exact hlevel

/-- What is allowed keeps the invariant. -/
theorem Invariant.next (h : Invariant program high machine) {action : Action} {next : Machine}
    (ha : Allowed high machine action)
    (hs : InterruptNesting.step program (kernelTables program.toLayout memory) machine action=
      some next) : Invariant program high next := by
  obtain ⟨after,hafter,hinvariant⟩ := h.step memory action ha
  obtain rfl : after=next := Option.some.inj (hafter.symm.trans hs)
  exact hinvariant

/-- An interrupt puts its wrapper on top of what it interrupts. -/
theorem step_interrupt {tables : Tables} {vector : ℕ} {error : Option UInt64} {call : Call}
    {next : Machine} (hcall : vectorCall vector=some call)
    (h : InterruptNesting.step program tables machine (.interrupt vector error)=some next) :
    next.activations=⟨call.handler,machine.processor,error,.instruction 0⟩::machine.activations := by
  unfold InterruptNesting.step at h
  dsimp only at h
  obtain ⟨found,hfound,hrest⟩ := Option.bind_eq_some_iff.mp h
  obtain ⟨delivered,-,hnext⟩ := Option.bind_eq_some_iff.mp hrest
  obtain rfl : call=found := Option.some.inj (hcall.symm.trans hfound)
  cases hnext
  rfl

/-- Where an instruction takes the wrapper. -/
theorem step_execute {activation : Activation} {rest : List Activation} {k : ℕ}
    {instruction : Instruction} {tables : Tables} {next : Machine}
    (hm : machine.activations=activation::rest) (hposition : activation.position=.instruction k)
    (hcode : (code activation.wrapper)[k]?=some instruction)
    (h : InterruptNesting.step program tables machine .execute=some next) :
    next.activations=((advance next.processor k instruction).map (fun position =>
      {activation with position := position})).toList++rest := by
  unfold InterruptNesting.step at h
  dsimp only at h
  rw [hm] at h
  dsimp only at h
  rw [hposition] at h
  dsimp only at h
  rw [executeAt] at h
  split_ifs at h
  rw [hcode] at h
  obtain ⟨found,hfound,hrest⟩ := Option.bind_eq_some_iff.mp h
  obtain ⟨performed,-,hnext⟩ := Option.bind_eq_some_iff.mp hrest
  cases hfound
  cases hnext
  rfl

/-- The wrapper does not use more than so many bytes of its stack. -/
theorem Before.room {activation : Activation} {processor : Processor} {k : ℕ}
    (h : Before program activation processor k) : activation.top≤processor.sp+176 := by
  have hinterrupt : (interruptWords activation.interrupted activation.error).length≤6 := by
    rw [interruptWords,List.length_append]
    change 5+activation.error.toList.length≤6
    cases activation.error with
    | none => decide
    | some => exact le_rfl
  have hsaved : ((savedWords activation).take (savedCount k)).length≤16 :=
    (List.length_take_le' _ _).trans (le_of_eq rfl)
  have htop := h.holds.1
  rw [stacked,List.length_append] at htop
  omega

/-- Where a wrapper is behind an instruction, with the processor as that leaves it. -/
def placeBehind (processor : Processor) (k : ℕ) : Position :=
  if k=17 then .handler processor.sp else .instruction (k+1)

/-- With room for them a wrapper may execute its instructions but the last one,
and is at the next one or in the handler. -/
theorem Invariant.advances (h : Invariant program high machine) {activation : Activation}
    {rest : List Activation} {k : ℕ}
    (hm : machine.activations={activation with position := .instruction k}::rest) (hk : k<34)
    (hroom : 184≤activation.top) : Allowed high machine .execute ∧ ∀ next,
      InterruptNesting.step program (kernelTables program.toLayout memory) machine .execute=some next →
      Invariant program high next ∧
        next.activations={activation with position := placeBehind next.processor k}::rest := by
  have hnested := h.nested
  rw [hm] at hnested
  obtain ⟨-,hstands,-⟩ := hnested
  have hbefore : Before program {activation with position := .instruction k} machine.processor k :=
    hstands
  have hbytes : activation.top≤ machine.processor.sp+176 := hbefore.room
  have ha : Allowed high machine .execute :=
    ⟨_,rest,k,hm,rfl,fun _ => by omega,fun hlast => absurd hlast (by omega)⟩
  refine ⟨ha,fun next hnext => ⟨h.next memory ha hnext,?_⟩⟩
  obtain ⟨instruction,hcode,hshape⟩ := code_shape activation.wrapper (by omega : k<35)
  rw [step_execute hm rfl hcode hnext,placeBehind]
  have hgeneral : generalPushes.length=15 ∧ generalPops.length=15 := ⟨rfl,rfl⟩
  cases hshape with
  | pushNumber => rfl
  | @push i register hi =>
    have hlt := (List.getElem?_eq_some_iff.mp hi).1
    rw [if_neg (by omega)]
    rfl
  | movRspRdi => rfl
  | call => rfl
  | @pop i register hi =>
    rw [if_neg (by omega)]
    rfl
  | addRsp => rfl
  | last => exact absurd hk (by omega)

/-- So it executes several of them, on either side of its call. -/
theorem Invariant.each_execute {activation : Activation} {rest : List Activation} {n k : ℕ}
    {more : List Action} (h : Invariant program high machine)
    (hm : machine.activations={activation with position := .instruction k}::rest)
    (hk : k+n≤17 ∨ 18≤k ∧ k+n≤34) (hroom : 184≤activation.top)
    (hmore : ∀ next,Invariant program high next →
      next.activations={activation with position := .instruction (k+n)}::rest →
      Each (InterruptNesting.step program (kernelTables program.toLayout memory)) (Allowed high) next
        more) :
    Each (InterruptNesting.step program (kernelTables program.toLayout memory)) (Allowed high) machine
      (List.replicate n .execute++more) := by
  induction n generalizing machine k with
  | zero => exact hmore machine h hm
  | succ n ih =>
    obtain ⟨ha,hnext⟩ := h.advances memory hm (by omega) hroom
    refine ⟨ha,fun next hs => ?_⟩
    obtain ⟨hinvariant,hactivations⟩ := hnext next hs
    have hcall : k≠17 := by omega
    rw [placeBehind,if_neg hcall] at hactivations
    refine ih hinvariant hactivations (by omega) (fun last hlast hplace => ?_)
    rw [Nat.add_assoc,Nat.add_comm 1 n] at hplace
    exact hmore last hlast hplace

/-- What an `INTERRUPT_HANDLER` wrapper does from one of its first instructions
on, when nothing interrupts it: the call, the return and the `iretq` included. -/
def remainder (k : ℕ) : List Action :=
  List.replicate (17-k) .execute++.execute::.ret::(List.replicate 16 .execute++[.execute])

/-- A wrapper of an interrupt without an error code comes to its end. -/
theorem Invariant.each_remainder {activation : Activation} {rest : List Activation} {k : ℕ}
    {more : List Action} (h : Invariant program high machine)
    (hm : machine.activations={activation with position := .instruction k}::rest) (hk : k≤17)
    (hroom : 184≤activation.top) (hkind : (macroOf activation.wrapper).1=.interruptHandler)
    (herror : activation.error=none)
    (hmore : ∀ next,Invariant program high next → next.activations=rest →
      Each (InterruptNesting.step program (kernelTables program.toLayout memory)) (Allowed high) next
        more) :
    Each (InterruptNesting.step program (kernelTables program.toLayout memory)) (Allowed high) machine
      (remainder k++more) := by
  simp only [remainder,List.append_assoc,List.cons_append,List.nil_append]
  refine h.each_execute memory hm (Or.inl (by omega)) hroom (fun called hcalled hat => ?_)
  rw [Nat.add_sub_cancel' hk] at hat
  obtain ⟨hcall,hentered⟩ := hcalled.advances memory hat (by decide) hroom
  refine ⟨hcall,fun entered hs => ?_⟩
  obtain ⟨hinside,hhandler⟩ := hentered entered hs
  rw [placeBehind,if_pos rfl] at hhandler
  have hret : Allowed high entered .ret := ⟨_,rest,hhandler,rfl⟩
  refine ⟨hret,fun returned hs => ?_⟩
  have hback := hinside.next memory hret hs
  have hplace : returned.activations={activation with position := .instruction 18}::rest := by
    unfold InterruptNesting.step at hs
    dsimp only at hs
    rw [hhandler] at hs
    cases hs
    rfl
  refine hback.each_execute memory hplace (Or.inr ⟨by decide,by decide⟩) hroom
    (fun last hlast hend => ?_)
  have hiretq : Allowed high last .execute :=
    ⟨_,rest,34,hend,rfl,fun hlow => absurd hlow (by decide),fun _ => ⟨hkind,herror⟩⟩
  refine ⟨hiretq,fun resumed hs => ?_⟩
  refine hmore resumed (hlast.next memory hiretq hs) ?_
  have hcode : (code activation.wrapper)[34]?=
      some (lastInstruction (macroOf activation.wrapper).1) := rfl
  rw [hkind] at hcode
  exact step_execute hend rfl hcode hs

/-- However interrupts and exceptions interrupt the kernel and one another, no
instruction of a wrapper fails, every handler is called with the frame of what
it interrupted, and every `iretq` resumes that, if there was no error code. -/
theorem interrupts_faithful (program : Program) (memory : Memory) {high : ℕ} {start : Processor}
    (hlevel : start.Level) (hsp : start.sp≤high) {actions : List Action}
    (h : Each (InterruptNesting.step program (kernelTables program.toLayout memory)) (Allowed high)
      ⟨start,[]⟩ actions) :
    Always (InterruptNesting.step program (kernelTables program.toLayout memory)) (Faithful high)
      ⟨start,[]⟩ actions := by
  have hstart : Invariant program high ⟨start,[]⟩ := ⟨hlevel,hsp,trivial⟩
  have hall := always_of_each (fun _ action hi ha => Invariant.step memory hi action ha) hstart h
  exact hall.imp (fun _ hi => hi.faithful)

/-- A kernel with one byte for each instruction. -/
def sampleProgram : Program where
  toLayout := sampleLayout
  address wrapper k := UInt64.ofNat (sampleLayout.placement wrapper)+UInt64.ofNat k
  handler _ := 0
  address_zero _ := UInt64.add_zero _

/-- A processor with the same word in every register. -/
def sampleProcessor : Processor := ⟨fun _ => 0x8000,fun _ => 0⟩

/-- The keyboard interrupts it, the timer the keyboard's wrapper after ten of its
instructions; both come to their end. -/
def nestedRun : List Action :=
  .interrupt 33 none::(List.replicate 10 .execute++
    .interrupt 32 none::(remainder 0++(remainder 10++[])))

/-- That may happen. -/
theorem nestedRun_allowed : Each (InterruptNesting.step sampleProgram
    (kernelTables sampleProgram.toLayout (fun _ => 0))) (Allowed 0x8000) ⟨sampleProcessor,[]⟩
      nestedRun := by
  have hstart : Invariant sampleProgram 0x8000 ⟨sampleProcessor,[]⟩ :=
    ⟨by unfold Processor.Level; decide,by decide,trivial⟩
  have hkeyboard : Allowed 0x8000 ⟨sampleProcessor,[]⟩ (.interrupt 33 none) :=
    ⟨by decide,by decide,by decide,by decide⟩
  refine ⟨hkeyboard,fun entered hs => ?_⟩
  have hentered := hstart.next (fun _ => 0) hkeyboard hs
  have hfirst := step_interrupt (rfl : vectorCall 33=some ⟨33,.kernel,0,.ps2Keyboard⟩) hs
  have htop : Activation.top ⟨.ps2Keyboard,sampleProcessor,none,.instruction 0⟩=0x8000 := by decide
  refine @Invariant.each_execute _ _ _ _ _ _ 10 0 _ hentered hfirst (Or.inl (by decide))
    (by rw [htop]; decide) (fun halfway hhalfway hten => ?_)
  have hnested := hhalfway.nested
  rw [hten] at hnested
  have hbefore : Before sampleProgram ⟨.ps2Keyboard,sampleProcessor,none,.instruction 10⟩
    halfway.processor 10 := hnested.2.1
  have hroom : 0x8000≤halfway.processor.sp+176 := htop▸hbefore.room
  have htimer : Allowed 0x8000 halfway (.interrupt 32 none) :=
    ⟨by decide,by decide,by decide,by omega⟩
  refine ⟨htimer,fun inner hs => ?_⟩
  have hinner := hhalfway.next (fun _ => 0) htimer hs
  have hsecond := step_interrupt (rfl : vectorCall 32=some ⟨32,.user,0,.timer⟩) hs
  have hdown : halfway.processor.sp<aligned halfway.processor.sp+16 :=
    Nat.lt_div_mul_add (by decide)
  refine @Invariant.each_remainder _ _ _ _ ⟨.timer,halfway.processor,none,.instruction 0⟩ _ _ _
    hinner hsecond (by decide) ?_ rfl rfl (fun back hback hresumed => ?_)
  · change 184≤aligned halfway.processor.sp
    omega
  · rw [hten] at hresumed
    exact @Invariant.each_remainder _ _ _ _ ⟨.ps2Keyboard,sampleProcessor,none,.instruction 10⟩ _ _ _
      hback hresumed (by decide) (htop.symm▸(by decide)) rfl rfl (fun _ _ _ => trivial)

/-- The keyboard's and the timer's wrapper, one in the other. -/
theorem interrupts_faithful_nested : sampleProcessor.Level ∧ sampleProcessor.sp≤0x8000 ∧
    Each (InterruptNesting.step sampleProgram (kernelTables sampleProgram.toLayout (fun _ => 0)))
      (Allowed 0x8000) ⟨sampleProcessor,[]⟩ nestedRun ∧
    Always (InterruptNesting.step sampleProgram (kernelTables sampleProgram.toLayout (fun _ => 0)))
      (Faithful 0x8000) ⟨sampleProcessor,[]⟩ nestedRun := by
  have hlevel : sampleProcessor.Level := by
    unfold Processor.Level
    decide
  have hsp : sampleProcessor.sp≤0x8000 := by decide
  exact ⟨hlevel,hsp,nestedRun_allowed,
    interrupts_faithful sampleProgram (fun _ => 0) hlevel hsp nestedRun_allowed⟩

end Steps

end WorkbenchOS.InterruptNesting
