import WorkbenchOS.ByteMemory
import WorkbenchOS.LibStd

/-!
# The first stack of a process

`create_process` writes the registers of a new process to its stack, and
`schedule_handler` loads them from there. Interrupt handlers store the number
of the interrupt between the general registers and the words of `iretq`, and
`POP_REGISTERS` skips that word; `create_process` does not store one, so what
`iretq` takes is the words one further on.
-/

namespace WorkbenchOS.ProcessStack

open ByteMemory LibStd

section Definitions

/-- `StackFrame`. -/
structure StackFrame where
  /-- `r15`. -/
  r15 : UInt64 := 0
  /-- `r14`. -/
  r14 : UInt64 := 0
  /-- `r13`. -/
  r13 : UInt64 := 0
  /-- `r12`. -/
  r12 : UInt64 := 0
  /-- `r11`. -/
  r11 : UInt64 := 0
  /-- `r10`. -/
  r10 : UInt64 := 0
  /-- `r9`. -/
  r9 : UInt64 := 0
  /-- `r8`. -/
  r8 : UInt64 := 0
  /-- `rsi`. -/
  rsi : UInt64 := 0
  /-- `rdx`. -/
  rdx : UInt64 := 0
  /-- `rdi`. -/
  rdi : UInt64 := 0
  /-- `rcx`. -/
  rcx : UInt64 := 0
  /-- `rbx`. -/
  rbx : UInt64 := 0
  /-- `rbp`. -/
  rbp : UInt64 := 0
  /-- `rax`. -/
  rax : UInt64 := 0
  /-- `interrupt`. -/
  interrupt : UInt64 := 0
  /-- `rip`. -/
  rip : UInt64 := 0
  /-- `cs`. -/
  cs : UInt64 := 0
  /-- `rflags`. -/
  rflags : UInt64 := 0
  /-- `rsp`. -/
  rsp : UInt64 := 0
  /-- `ss`. -/
  ss : UInt64 := 0

/-- The registers that are loaded. -/
inductive Register where
  | r15 | r14 | r13 | r12 | r11 | r10 | r9 | r8 | rsi | rdx | rdi | rcx | rbx | rbp | rax
  | rip | cs | rflags | rsp | ss
  deriving DecidableEq

/-- The field of a register. -/
def StackFrame.field (frame : StackFrame) : Register→UInt64
  | .r15 => frame.r15
  | .r14 => frame.r14
  | .r13 => frame.r13
  | .r12 => frame.r12
  | .r11 => frame.r11
  | .r10 => frame.r10
  | .r9 => frame.r9
  | .r8 => frame.r8
  | .rsi => frame.rsi
  | .rdx => frame.rdx
  | .rdi => frame.rdi
  | .rcx => frame.rcx
  | .rbx => frame.rbx
  | .rbp => frame.rbp
  | .rax => frame.rax
  | .rip => frame.rip
  | .cs => frame.cs
  | .rflags => frame.rflags
  | .rsp => frame.rsp
  | .ss => frame.ss

/-- `Stack`, in the memory it writes to. -/
structure Stack where
  /-- All bytes. -/
  memory : Memory
  /-- `m_stack`. -/
  base : ℕ
  /-- `m_index`. -/
  index : ℕ

/-- `Stack::push`. -/
def Stack.push (stack : Stack) (value : UInt64) : Stack :=
  let index := u64Sub stack.index 1
  {stack with
    index := index
    memory := writeLE stack.memory (u64 (stack.base+8*index)) 8 value.toNat}

/-- `Stack::get_stack_ptr`. -/
def Stack.getStackPtr (stack : Stack) : ℕ := u64 (stack.base+8*stack.index)

/-- `user_stack_virtual`. -/
def userStack : ℕ := 0xff000

/-- The stack of one page `create_process` begins with. -/
def emptyStack (memory : Memory) : Stack := ⟨memory,userStack,Page/8⟩

/-- The words of `iretq`, in the order they are pushed. -/
def iretPushes : List Register := [.ss,.rsp,.rflags,.cs,.rip]

/-- The general registers, in the order they are pushed. -/
def generalPushes : List Register :=
  [.rax,.rbp,.rbx,.rcx,.rdi,.rdx,.rsi,.r8,.r9,.r10,.r11,.r12,.r13,.r14,.r15]

/-- The stack `create_process` makes of a frame. -/
def processStack (memory : Memory) (frame : StackFrame) : Stack :=
  ((iretPushes++generalPushes).map frame.field).foldl Stack.push (emptyStack memory)

/-- A processor that loads registers from a stack. -/
structure Cpu where
  /-- What the registers hold. -/
  registers : Register→UInt64
  /-- Where the next word is. -/
  sp : ℕ

/-- Take a word from the stack. -/
def Cpu.pop (memory : Memory) (cpu : Cpu) (register : Register) : Cpu where
  registers := Function.update cpu.registers register (UInt64.ofNat (readLE memory cpu.sp 8))
  sp := u64 (cpu.sp+8)

/-- The pops of `POP_REGISTERS`. -/
def generalPops : List Register :=
  [.r15,.r14,.r13,.r12,.r11,.r10,.r9,.r8,.rsi,.rdx,.rdi,.rcx,.rbx,.rbp,.rax]

/-- `POP_REGISTERS`, with `addq $8, %rsp` at its end. -/
def popRegisters (memory : Memory) (cpu : Cpu) : Cpu :=
  let popped := generalPops.foldl (Cpu.pop memory) cpu
  {popped with sp := u64 (popped.sp+8)}

/-- The pops of `iretq`. -/
def iretPops : List Register := [.rip,.cs,.rflags,.rsp,.ss]

/-- `iretq`. -/
def iretq (memory : Memory) (cpu : Cpu) : Cpu := iretPops.foldl (Cpu.pop memory) cpu

/-- `schedule_handler`, from the point on where it has the stack pointer of the
process. -/
def scheduleHandler (memory : Memory) (registers : Register→UInt64) (sp : ℕ) : Cpu :=
  iretq memory (popRegisters memory ⟨registers,sp⟩)

/-- The stack an interrupt handler works on: the processor pushes the words of
`iretq`, `PUSH_REGISTERS` the number of the interrupt and the other registers. -/
def handlerStack (stack : Stack) (frame : StackFrame) : Stack :=
  (iretPushes.map frame.field++frame.interrupt::generalPushes.map frame.field).foldl Stack.push stack

/-- The processor a new process starts on. -/
def started (memory : Memory) (registers : Register→UInt64) (frame : StackFrame) : Cpu :=
  scheduleHandler (processStack memory frame).memory registers (processStack memory frame).getStackPtr

end Definitions

section Pushes

/-- The word of a stack at an index. -/
def Stack.word (stack : Stack) (index : ℕ) : UInt64 :=
  UInt64.ofNat (readLE stack.memory (stack.base+8*index) 8)

variable {stack : Stack}

/-- Where a push writes. -/
theorem Stack.push_eq (hpos : 0< stack.index) (hroom : stack.base+8*stack.index<2^64)
    (value : UInt64) : stack.push value=
      ⟨writeLE stack.memory (stack.base+8*(stack.index-1)) 8 value.toNat,stack.base,stack.index-1⟩ := by
  have hindex : u64Sub stack.index 1=stack.index-1 := u64Sub_of_le hpos (by omega)
  rw [Stack.push,hindex,u64_of_lt (by omega)]

/-- The word pushed. -/
theorem Stack.push_word (hpos : 0< stack.index) (hroom : stack.base+8*stack.index<2^64)
    (value : UInt64) : (stack.push value).word (stack.index-1)=value := by
  have hlt : value.toNat<256^8 := (UInt64.toNat_lt value).trans_eq (by norm_num)
  rw [Stack.push_eq hpos hroom,Stack.word]
  dsimp only
  rw [readLE_writeLE_self,Nat.mod_eq_of_lt hlt,UInt64.ofNat_toNat]

/-- Pushes write below the stack they find. -/
theorem Stack.pushes_above {values : List UInt64} (hlength : values.length≤ stack.index)
    (hroom : stack.base+8*stack.index<2^64) :
    (values.foldl Stack.push stack).base=stack.base ∧
      (values.foldl Stack.push stack).index=stack.index-values.length ∧
      ∀ x, stack.base+8*stack.index≤x → (values.foldl Stack.push stack).memory x=stack.memory x := by
  induction values generalizing stack with
  | nil => exact ⟨rfl,rfl,fun _ _ => rfl⟩
  | cons value rest ih =>
    rw [List.length_cons] at hlength
    rw [List.foldl_cons,List.length_cons,Stack.push_eq (by omega) hroom value]
    obtain ⟨hb,hi,hm⟩ := @ih ⟨writeLE stack.memory (stack.base+8*(stack.index-1)) 8 value.toNat,
      stack.base,stack.index-1⟩ (by dsimp only; omega) (by dsimp only; omega)
    refine ⟨hb,hi.trans (by dsimp only; omega),fun x hx => ?_⟩
    rw [hm x (by dsimp only; omega)]
    exact writeLE_outside stack.memory (by omega)

/-- The words pushed, the first one on top. -/
theorem Stack.pushes_word {values : List UInt64} (hlength : values.length≤ stack.index)
    (hroom : stack.base+8*stack.index<2^64) {i : ℕ} {value : UInt64} (hi : values[i]?=some value) :
    (values.foldl Stack.push stack).word (stack.index-1-i)=value := by
  induction values generalizing stack i with
  | nil => cases hi
  | cons first rest ih =>
    rw [List.length_cons] at hlength
    have hword := Stack.push_word (by omega) hroom first
    rw [Stack.push_eq (by omega) hroom first] at hword
    rw [List.foldl_cons,Stack.push_eq (by omega) hroom first]
    cases i with
    | zero =>
      -- the other pushes leave the first word alone
      obtain ⟨hb,-,hm⟩ := @Stack.pushes_above
        ⟨writeLE stack.memory (stack.base+8*(stack.index-1)) 8 first.toNat,stack.base,stack.index-1⟩
        rest (by dsimp only; omega) (by dsimp only; omega)
      rw [Stack.word,hb,Nat.sub_zero]
      rw [Stack.word] at hword
      rw [readLE_congr (fun x hx _ => hm x hx),hword]
      exact Option.some.inj hi
    | succ i =>
      have hrest := @ih ⟨writeLE stack.memory (stack.base+8*(stack.index-1)) 8 first.toNat,stack.base,
        stack.index-1⟩ (by dsimp only; omega) (by dsimp only; omega) i hi
      have hindex : stack.index-1-1-i=stack.index-1-(i+1) := by omega
      rw [hindex] at hrest
      exact hrest

/-- The stack pointer after pushes. -/
theorem Stack.pushes_ptr {values : List UInt64} (hlength : values.length≤ stack.index)
    (hroom : stack.base+8*stack.index<2^64) :
    (values.foldl Stack.push stack).getStackPtr+8*values.length=stack.base+8*stack.index := by
  obtain ⟨hb,hi,-⟩ := Stack.pushes_above hlength hroom
  rw [Stack.getStackPtr,hb,hi,u64_of_lt (by omega)]
  omega

/-- The words from the stack pointer on are those pushed, the last one first. -/
theorem Stack.pushes_from_ptr {values : List UInt64} (hlength : values.length≤ stack.index)
    (hroom : stack.base+8*stack.index<2^64) {j : ℕ} (hj : j<values.length) {value : UInt64}
    (hvalue : values[values.length-1-j]?=some value) :
    UInt64.ofNat (readLE (values.foldl Stack.push stack).memory
      ((values.foldl Stack.push stack).getStackPtr+8*j) 8)=value := by
  obtain ⟨hb,-,-⟩ := Stack.pushes_above hlength hroom
  have hptr := Stack.pushes_ptr hlength hroom
  have hword := Stack.pushes_word hlength hroom hvalue
  rw [Stack.word,hb] at hword
  have haddress : (values.foldl Stack.push stack).getStackPtr+8*j=
      stack.base+8*(stack.index-1-(values.length-1-j)) := by omega
  rw [haddress]
  exact hword

end Pushes

section Pops

variable {memory : Memory}

/-- Pops load the words from the stack pointer on, each in its register. -/
theorem pops_spec {order : List Register} {cpu : Cpu} (hroom : cpu.sp+8*order.length<2^64)
    (hnodup : order.Nodup) :
    (order.foldl (Cpu.pop memory) cpu).sp=cpu.sp+8*order.length ∧
      (∀ i register, order[i]?=some register →
        (order.foldl (Cpu.pop memory) cpu).registers register=
          UInt64.ofNat (readLE memory (cpu.sp+8*i) 8)) ∧
      ∀ register, register∉order →
        (order.foldl (Cpu.pop memory) cpu).registers register=cpu.registers register := by
  induction order generalizing cpu with
  | nil => exact ⟨rfl,fun i register h => (by cases h),fun _ _ => rfl⟩
  | cons first rest ih =>
    rw [List.length_cons] at hroom
    have hsp : (cpu.pop memory first).sp=cpu.sp+8 := u64_of_lt (by omega)
    obtain ⟨hs,hload,hkeep⟩ := @ih (cpu.pop memory first) (by omega) hnodup.of_cons
    rw [hsp] at hs hload
    refine ⟨?_,fun i register hi => ?_,fun register hm => ?_⟩
    · rw [List.foldl_cons,hs,List.length_cons]
      omega
    · rw [List.foldl_cons]
      cases i with
      | zero =>
        cases hi
        rw [hkeep first (List.nodup_cons.mp hnodup).1,Nat.mul_zero,Nat.add_zero]
        exact Function.update_self _ _ _
      | succ i =>
        have haddress : cpu.sp+8+8*i=cpu.sp+8*(i+1) := by omega
        rw [hload i register hi,haddress]
    · have hne : register≠first := fun h => hm (h▸List.mem_cons_self)
      rw [List.foldl_cons,hkeep register (fun h => hm (List.mem_cons_of_mem _ h))]
      exact Function.update_of_ne hne _ _

/-- The general registers are loaded from the words on top, those of `iretq`
from the words behind the one that is skipped. -/
theorem scheduleHandler_spec {registers : Register→UInt64} {sp : ℕ} (hroom : sp+8*21<2^64) :
    (∀ i register, generalPops[i]?=some register →
      (scheduleHandler memory registers sp).registers register=
        UInt64.ofNat (readLE memory (sp+8*i) 8)) ∧
    ∀ i register, iretPops[i]?=some register →
      (scheduleHandler memory registers sp).registers register=
        UInt64.ofNat (readLE memory (sp+8*(16+i)) 8) := by
  have hgeneral : generalPops.length=15 := rfl
  have hiret : iretPops.length=5 := rfl
  obtain ⟨hs,hload,-⟩ := @pops_spec memory generalPops ⟨registers,sp⟩
    (by rw [hgeneral]; dsimp only; omega) (by decide)
  have hsp : (popRegisters memory ⟨registers,sp⟩).sp=sp+8*16 := by
    unfold popRegisters
    dsimp only
    rw [hs,hgeneral,u64_of_lt (by dsimp only; omega)]
  obtain ⟨-,hlast,hkeep⟩ := @pops_spec memory iretPops (popRegisters memory ⟨registers,sp⟩)
    (by rw [hsp,hiret]; omega) (by decide)
  refine ⟨fun i register hi => ?_,fun i register hi => ?_⟩
  · have hother : ∀ general∈generalPops,general∉iretPops := by decide
    exact (hkeep register (hother register (List.mem_of_getElem? hi))).trans (hload i register hi)
  · have haddress : sp+8*16+8*i=sp+8*(16+i) := by omega
    rw [hsp] at hlast
    rw [← haddress]
    exact hlast i register hi

end Pops

section RoundTrips

variable {memory : Memory} {registers : Register→UInt64} {frame : StackFrame}

/-- Every register is loaded by one of the two. -/
theorem register_cases (register : Register) :
    (∃ i<15, generalPops[i]?=some register) ∨ ∃ i<5, iretPops[i]?=some register := by
  cases register <;> decide

/-- The general registers are popped in the other order. -/
theorem generalPushes_reverse : ∀ i<15, generalPushes[14-i]?=generalPops[i]? := by decide

/-- So are the words of `iretq`. -/
theorem iretPushes_reverse : ∀ i<5, iretPushes[4-i]?=iretPops[i]? := by decide

/-- An interrupt handler restores every register. -/
theorem handler_restores {stack : Stack} (hlength : 21≤ stack.index)
    (hroom : stack.base+8*stack.index<2^64) (register : Register) :
    (scheduleHandler (handlerStack stack frame).memory registers
      (handlerStack stack frame).getStackPtr).registers register=frame.field register := by
  obtain ⟨values,hvalues⟩ : ∃ values,values=
    iretPushes.map frame.field++frame.interrupt::generalPushes.map frame.field := ⟨_,rfl⟩
  have hcount : values.length=21 := by rw [hvalues]; rfl
  have hiretCount : (iretPushes.map frame.field).length=5 := rfl
  rw [← hcount] at hlength
  rw [handlerStack,← hvalues]
  have hptr := Stack.pushes_ptr hlength hroom
  obtain ⟨hgeneral,hiret⟩ := @scheduleHandler_spec (values.foldl Stack.push stack).memory registers
    (values.foldl Stack.push stack).getStackPtr (by omega)
  rcases register_cases register with ⟨i,hlt,hi⟩|⟨i,hlt,hi⟩
  · rw [hgeneral i register hi]
    refine Stack.pushes_from_ptr hlength hroom (by omega) ?_
    have hindex : 21-1-i=5+(14-i+1) := by omega
    rw [hcount,hindex,hvalues,List.getElem?_append_right (by omega),hiretCount,
      Nat.add_sub_cancel_left,List.getElem?_cons_succ,List.getElem?_map,generalPushes_reverse i hlt,hi]
    rfl
  · rw [hiret i register hi]
    refine Stack.pushes_from_ptr hlength hroom (by omega) ?_
    have hindex : 21-1-(16+i)=4-i := by omega
    rw [hcount,hindex,hvalues,List.getElem?_append_left (by omega),List.getElem?_map,
      iretPushes_reverse i hlt,hi]
    rfl

/-- The word behind the page of the stack. -/
def wordAbove (memory : Memory) : UInt64 := UInt64.ofNat (readLE memory (userStack+Page) 8)

/-- The general registers of a new process are those of the frame, and every
word of `iretq` is the one behind it. -/
theorem started_registers :
    (∀ (i : ℕ) (register : Register), generalPops[i]?=some register →
      (started memory registers frame).registers register=frame.field register) ∧
    (∀ (i : ℕ) (register next : Register), iretPops[i]?=some register → iretPops[i+1]?=some next →
      (started memory registers frame).registers register=frame.field next) ∧
    (started memory registers frame).registers .ss=wordAbove memory := by
  obtain ⟨values,hvalues⟩ : ∃ values,values=(iretPushes++generalPushes).map frame.field := ⟨_,rfl⟩
  have hcount : values.length=20 := by rw [hvalues]; rfl
  have hindex : (emptyStack memory).index=512 := rfl
  have hbase : (emptyStack memory).base=userStack := rfl
  have huser : userStack=0xff000 := rfl
  have hlength : values.length≤(emptyStack memory).index := by rw [hcount,hindex]; decide
  have hroom : (emptyStack memory).base+8*(emptyStack memory).index<2^64 := by
    rw [hbase,hindex]
    decide
  have hiretCount : iretPushes.length=5 := rfl
  have hptr := Stack.pushes_ptr hlength hroom
  rw [hcount,hindex,hbase] at hptr
  unfold started
  rw [processStack,← hvalues]
  obtain ⟨hgeneral,hiret⟩ := @scheduleHandler_spec (values.foldl Stack.push (emptyStack memory)).memory
    registers (values.foldl Stack.push (emptyStack memory)).getStackPtr (by omega)
  refine ⟨fun i register hi => ?_,fun i register next hi hnext => ?_,?_⟩
  · have hlt : i<15 := (List.getElem?_eq_some_iff.mp hi).1
    rw [hgeneral i register hi]
    refine Stack.pushes_from_ptr hlength hroom (by omega) ?_
    have hplace : 20-1-i=5+(14-i) := by omega
    rw [hcount,hplace,hvalues,List.getElem?_map,List.getElem?_append_right (by omega),hiretCount,
      Nat.add_sub_cancel_left,generalPushes_reverse i hlt,hi]
    rfl
  · have hlt : i+1<5 := (List.getElem?_eq_some_iff.mp hnext).1
    rw [hiret i register hi]
    refine Stack.pushes_from_ptr hlength hroom (by omega) ?_
    have hplace : 20-1-(16+i)=4-(i+1) := by omega
    rw [hcount,hplace,hvalues,List.getElem?_map,List.getElem?_append_left (by omega),
      iretPushes_reverse (i+1) hlt,hnext]
    rfl
  · -- the last word `iretq` takes was not pushed
    obtain ⟨-,-,habove⟩ := Stack.pushes_above hlength hroom
    have haddress : (values.foldl Stack.push (emptyStack memory)).getStackPtr+8*(16+4)=
        userStack+Page := by
      rw [huser,Page]
      omega
    have hkept : Unchanged memory (values.foldl Stack.push (emptyStack memory)).memory
        (userStack+Page) 8 := fun x hx _ => habove x hx
    rw [hiret 4 .ss rfl,haddress,readLE_congr hkept,wordAbove]

/-- A new process starts with the registers of its frame exactly when the words
of `iretq` and the word behind the stack are all the same. -/
theorem started_iff (memory : Memory) (registers : Register→UInt64) (frame : StackFrame) :
    (∀ register, (started memory registers frame).registers register=frame.field register) ↔
      frame.cs=frame.rip ∧ frame.rflags=frame.cs ∧ frame.rsp=frame.rflags ∧ frame.ss=frame.rsp ∧
        wordAbove memory=frame.ss := by
  obtain ⟨hgeneral,hiret,hss⟩ := @started_registers memory registers frame
  have hrip : (started memory registers frame).registers .rip=frame.cs := hiret 0 .rip .cs rfl rfl
  have hcs : (started memory registers frame).registers .cs=frame.rflags := hiret 1 .cs .rflags rfl rfl
  have hrflags : (started memory registers frame).registers .rflags=frame.rsp :=
    hiret 2 .rflags .rsp rfl rfl
  have hrsp : (started memory registers frame).registers .rsp=frame.ss := hiret 3 .rsp .ss rfl rfl
  refine ⟨fun h => ⟨?_,?_,?_,?_,?_⟩,fun ⟨h1,h2,h3,h4,h5⟩ register => ?_⟩
  · exact hrip.symm.trans (h .rip)
  · exact hcs.symm.trans (h .cs)
  · exact hrflags.symm.trans (h .rflags)
  · exact hrsp.symm.trans (h .rsp)
  · exact hss.symm.trans (h .ss)
  · rcases register_cases register with ⟨i,-,hi⟩|hi
    · exact hgeneral i register hi
    · cases register with
      | rip => exact hrip.trans h1
      | cs => exact hcs.trans h2
      | rflags => exact hrflags.trans h3
      | rsp => exact hrsp.trans h4
      | ss => exact hss.trans h5
      | _ => exact absurd hi (by decide)

/-- `initial_stack_frame`. -/
def initialStackFrame : StackFrame where
  rip := 0x100000
  cs := 0x18|||3
  rsp := 0x100000
  ss := 0x20|||3

/-- The first process starts at the selector of its code segment. -/
theorem started_not_always : ¬∀ (memory : Memory) (registers : Register→UInt64) (frame : StackFrame)
    (register : Register), (started memory registers frame).registers register=frame.field register := by
  intro hall
  obtain ⟨-,hiret,-⟩ := @started_registers (fun _ => 0) (fun _ => 0) initialStackFrame
  have hrip := (hiret 0 .rip .cs rfl rfl).symm.trans (hall (fun _ => 0) (fun _ => 0)
    initialStackFrame .rip)
  exact absurd hrip (by decide)

end RoundTrips

end WorkbenchOS.ProcessStack
