import WorkbenchOS.ByteMemory
import WorkbenchOS.LibStd

/-!
# Starting the application processors

`ACPI::start_application_processors` writes a trampoline and three words for
it below 1 MiB, then wakes one processor after another with INIT and SIPI
through the interrupt command register, and waits for the flag each of them
clears in `ACPI::set_booted`. Every processor goes through the trampoline of
ApInit.S with the words it finds there, to `ap_main` and `ap_stage2` of main.cpp
on the stack prepared for it. At the end `MemoryManager::unmap_identity_mapping`
removes the identity mapping, over which all of them run. The instructions of the
parties and the delivery of messages are interleaved in any order.

Of a processor the model has the accesses below 1 MiB and the three registers
that come from them. The trampoline reads 32 bits of `cr3`, and a processor with
other page tables than those of the boot processor is lost. Accesses to the kernel
half (the code of `ap_main`, `gdt_pointer`, the flag) are taken as allowed: once
the memory manager is initialised the data pages are execute-disabled there, while
the trampoline sets `EFER.LME` only. The descriptor tables, `cr4`, `EFER` and the
segment registers are left out, and so is what a processor does behind the return
from `set_booted` (`local_apic_id` and `halt`).
-/

namespace WorkbenchOS.ApplicationProcessors

open ByteMemory

section Commands

/-- `DeliveryMode`. -/
inductive DeliveryMode where
  /-- 0. -/
  | fixed
  /-- 1. -/
  | lowPriority
  /-- 2. -/
  | smi
  /-- 4. -/
  | nmi
  /-- 5. -/
  | init
  /-- 6. -/
  | sipi
  deriving DecidableEq

/-- Its value. -/
def DeliveryMode.value : DeliveryMode→ℕ
  | .fixed => 0
  | .lowPriority => 1
  | .smi => 2
  | .nmi => 4
  | .init => 5
  | .sipi => 6

/-- `DestinationMode`. -/
inductive DestinationMode where
  /-- 0. -/
  | physical
  /-- 1. -/
  | logical
  deriving DecidableEq

/-- Its value. -/
def DestinationMode.value : DestinationMode→ℕ
  | .physical => 0
  | .logical => 1

/-- `DestinationShorthand`. -/
inductive DestinationShorthand where
  /-- 0. -/
  | noShorthand
  /-- 1. -/
  | self
  /-- 2. -/
  | allIncludingSelf
  /-- 3. -/
  | allExcludingSelf
  deriving DecidableEq

/-- Its value. -/
def DestinationShorthand.value : DestinationShorthand→ℕ
  | .noShorthand => 0
  | .self => 1
  | .allIncludingSelf => 2
  | .allExcludingSelf => 3

/-- `AssertLevel`. -/
inductive AssertLevel where
  /-- 0. -/
  | deassert
  /-- 1. -/
  | assert
  deriving DecidableEq

/-- Its value. -/
def AssertLevel.value : AssertLevel→ℕ
  | .deassert => 0
  | .assert => 1

/-- `TriggerMode`. -/
inductive TriggerMode where
  /-- 0. -/
  | edge
  /-- 1. -/
  | level
  deriving DecidableEq

/-- Its value. -/
def TriggerMode.value : TriggerMode→ℕ
  | .edge => 0
  | .level => 1

/-- `ICR`. -/
structure ICR where
  /-- `vector`, a byte. -/
  vector : ℕ
  /-- `destination`. -/
  destination : ℕ
  /-- `delivery_mode`. -/
  deliveryMode : DeliveryMode
  /-- `destination_mode`. -/
  destinationMode : DestinationMode
  /-- `destination_shorthand`. -/
  destinationShorthand : DestinationShorthand
  /-- `level`. -/
  level : AssertLevel
  /-- `trigger_mode`. -/
  triggerMode : TriggerMode

/-- `ICR::high`. -/
def ICR.high (icr : ICR) : ℕ := icr.destination<<<24%2^32

/-- `ICR::low`. -/
def ICR.low (icr : ICR) : ℕ :=
  icr.vector ||| icr.deliveryMode.value<<<8 ||| icr.destinationMode.value<<<11 |||
    icr.level.value<<<14 ||| icr.triggerMode.value<<<15 ||| icr.destinationShorthand.value<<<18

/-- `APIC::send_init`. -/
def sendInit (cpu : ℕ) : ICR where
  vector := 0
  destination := cpu
  deliveryMode := .init
  destinationMode := .physical
  destinationShorthand := .noShorthand
  level := .assert
  triggerMode := .edge

/-- `APIC::send_sipi`. -/
def sendSipi (cpu : ℕ) : ICR where
  vector := 0x08
  destination := cpu
  deliveryMode := .sipi
  destinationMode := .physical
  destinationShorthand := .noShorthand
  level := .assert
  triggerMode := .edge

/-- What an interrupt command tells its target. -/
inductive Order where
  /-- Wait for SIPI. -/
  | init
  /-- Start in the page with this number. -/
  | sipi (vector : ℕ)
  deriving DecidableEq

/-- A message between the processors. -/
structure Message where
  /-- The target. -/
  target : ℕ
  /-- What it is told. -/
  order : Order
  deriving DecidableEq

/-- How the local APIC reads the two halves of its command register: one
target by its number, and INIT or SIPI. Nothing else is sent here. -/
def command (high low : ℕ) : Option Message :=
  if low>>>18&&&3=0 ∧ low>>>11&&&1=0 ∧ low>>>14&&&1=1 ∧ low>>>15&&&1=0 then
    if low>>>8&&&7=5 then some ⟨high>>>24,.init⟩
    else if low>>>8&&&7=6 then some ⟨high>>>24,.sipi (low&&&0xff)⟩
    else none
  else none

/-- The number of a processor goes through the upper half. -/
theorem high_target {icr : ICR} (h : icr.destination<256) : icr.high>>>24=icr.destination := by
  rw [ICR.high,Nat.shiftLeft_eq,Nat.shiftRight_eq_div_pow]
  omega

/-- INIT arrives as INIT. -/
theorem command_sendInit {cpu : ℕ} (h : cpu<256) :
    command (sendInit cpu).high (sendInit cpu).low=some ⟨cpu,.init⟩ := by
  have htarget : (sendInit cpu).high>>>24=cpu := high_target h
  have hlow : (sendInit cpu).low=0x4500 := by
    change 0 ||| 5<<<8 ||| 0<<<11 ||| 1<<<14 ||| 0<<<15 ||| 0<<<18=0x4500
    decide
  rw [command,hlow,if_pos (by decide),if_pos (by decide),htarget]

/-- SIPI arrives as SIPI for the page of the trampoline. -/
theorem command_sendSipi {cpu : ℕ} (h : cpu<256) :
    command (sendSipi cpu).high (sendSipi cpu).low=some ⟨cpu,.sipi 8⟩ := by
  have htarget : (sendSipi cpu).high>>>24=cpu := high_target h
  have hlow : (sendSipi cpu).low=0x4608 := by
    change 8 ||| 6<<<8 ||| 0<<<11 ||| 1<<<14 ||| 0<<<15 ||| 0<<<18=0x4608
    decide
  rw [command,hlow,if_pos (by decide),if_neg (by decide),if_pos (by decide),htarget]
  rfl

end Commands

section Model

/-- What the linker and the state of the boot processor fix. -/
structure Image where
  /-- The bytes from `ap_trampoline` to `end_ap_trampoline`. -/
  trampoline : List UInt8
  /-- `cr3` of the boot processor. -/
  cr3 : ℕ
  /-- `&ap_main`. -/
  apMain : ℕ
  /-- `&ap_stage2`. -/
  apStage2 : ℕ
  /-- Where `set_booted` returns to. -/
  booted : ℕ
  /-- The processors that are there. -/
  present : ℕ→Bool

/-- `cpus`. -/
def cpus : ℕ := 4

/-- `stack_base + (i * Page)`. -/
def stackTop (i : ℕ) : ℕ := 0x9000+i*0x1000

/-- Where the boot processor is in `start_application_processors`. -/
inductive Bsp where
  /-- Before the `memcpy` of the trampoline. -/
  | copy
  /-- Before the store to 0x8ff0. -/
  | cr3
  /-- Before the store to 0x8fe0. -/
  | entry
  /-- Before the store to 0x8fd0 of round `i`. -/
  | stack (i : ℕ)
  /-- Before `g_boot_spinlock = true`. -/
  | flag (i : ℕ)
  /-- In `send_init`, before the upper half of the command. -/
  | initHigh (i : ℕ)
  /-- Before the lower half. -/
  | initLow (i : ℕ)
  /-- In `delay`. -/
  | delay (i : ℕ)
  /-- In `send_sipi`, before the upper half of the command. -/
  | sipiHigh (i : ℕ)
  /-- Before the lower half. -/
  | sipiLow (i : ℕ)
  /-- In `while (g_boot_spinlock) {}`. -/
  | wait (i : ℕ)
  /-- Before `unmap_identity_mapping`. -/
  | unmap
  /-- Behind it. -/
  | done
  deriving DecidableEq

/-- Where an application processor is. -/
inductive Place where
  /-- Not started. -/
  | off
  /-- After INIT. -/
  | waiting
  /-- At the first instruction of a page, in real mode. -/
  | real (page : ℕ)
  /-- The trampoline has loaded `cr3`; what follows is fetched through it. -/
  | paged
  /-- It has loaded `rax`. -/
  | entered
  /-- It has loaded `rsp`. -/
  | stacked
  /-- In `ap_main`, before its two pushes. -/
  | main
  /-- Before `lretq`. -/
  | pushed
  /-- In `ap_stage2`, before the call of `set_booted`. -/
  | stage2
  /-- In `set_booted`, before `g_boot_spinlock = false`. -/
  | called
  /-- Before the return. -/
  | booted
  /-- Behind it, on the way to `halt`. -/
  | returned
  /-- An access that is not mapped, or code that is not there. -/
  | faulted
  deriving DecidableEq

/-- An application processor. -/
structure Ap where
  /-- Where it is. -/
  place : Place
  /-- `cr3`. -/
  cr3 : ℕ
  /-- `rax`. -/
  rax : ℕ
  /-- `rsp`. -/
  rsp : ℕ

/-- All processors and what they share. -/
structure System where
  /-- The boot processor. -/
  bsp : Bsp
  /-- Physical memory. -/
  memory : Memory
  /-- `g_boot_spinlock`. -/
  spinlock : Bool
  /-- The upper half of the command register of the boot processor. -/
  icrHigh : ℕ
  /-- Messages under way, oldest first. -/
  inFlight : List Message
  /-- The first entry of the PML4 is present. -/
  identity : Bool
  /-- The application processors. -/
  ap : ℕ→Ap

/-- One step. -/
inductive Action where
  /-- The boot processor goes on. -/
  | bsp
  /-- A message arrives that no older one for the same target is in front of. -/
  | deliver (k : ℕ)
  /-- A processor goes on; it may still have the identity mapping in its TLB. -/
  | ap (id : ℕ) (cached : Bool)
  deriving DecidableEq

/-- The next round of the loop, or what is behind it. -/
def nextRound (i : ℕ) : Bsp := if i+1<cpus then .stack (i+1) else .unmap

/-- The lower half of the command register is written. -/
def System.send (system : System) (low : ℕ) : System :=
  match command system.icrHigh low with
  | some message => {system with inFlight := system.inFlight++[message]}
  | none => system

/-- One step of the boot processor. -/
def bspStep (image : Image) (system : System) : System :=
  match system.bsp with
  | .copy => {system with
      memory := storeBytes system.memory 0x8000 image.trampoline,bsp := .cr3}
  | .cr3 => {system with memory := writeLE system.memory 0x8ff0 8 image.cr3,bsp := .entry}
  | .entry => {system with
      memory := writeLE system.memory 0x8fe0 8 image.apMain,bsp := .stack 1}
  | .stack i => {system with
      memory := writeLE system.memory 0x8fd0 8 (stackTop i),bsp := .flag i}
  | .flag i => {system with spinlock := true,bsp := .initHigh i}
  | .initHigh i => {system with icrHigh := (sendInit i).high,bsp := .initLow i}
  | .initLow i => {system.send (sendInit i).low with bsp := .delay i}
  | .delay i => {system with bsp := .sipiHigh i}
  | .sipiHigh i => {system with icrHigh := (sendSipi i).high,bsp := .sipiLow i}
  | .sipiLow i => {system.send (sendSipi i).low with bsp := .wait i}
  | .wait i => if system.spinlock then system else {system with bsp := nextRound i}
  | .unmap => {system with identity := false,bsp := .done}
  | .done => system

/-- What an order does to a processor. INIT is obeyed always, SIPI only by a
processor that waits for it. -/
def Ap.receive (ap : Ap) : Order→Ap
  | .init => {ap with place := .waiting}
  | .sipi page => if ap.place=.waiting then {ap with place := .real page} else ap

/-- A message arrives. That for a processor that is not there is lost. -/
def deliver (image : Image) (system : System) (k : ℕ) : Option System :=
  match system.inFlight[k]? with
  | none => none
  | some message =>
    if ∀ earlier∈system.inFlight.take k,earlier.target≠message.target then
      some {system with
        inFlight := system.inFlight.eraseIdx k
        ap := if image.present message.target then
            Function.update system.ap message.target
              ((system.ap message.target).receive message.order)
          else system.ap}
    else none

/-- The trampoline is in its page. -/
def Ready (image : Image) (memory : Memory) : Prop :=
  bytesAt memory 0x8000 image.trampoline.length=image.trampoline

instance (image : Image) (memory : Memory) : Decidable (Ready image memory) :=
  inferInstanceAs (Decidable (_=_))

/-- One step of an application processor with the memory it leaves and the
flag. From `paged` on everything it reads and writes below 1 MiB goes through
the identity mapping. -/
def apStep (image : Image) (mapped : Bool) (memory : Memory) (spinlock : Bool) (ap : Ap) :
    Option (Ap×Memory×Bool) :=
  let lost : Ap×Memory×Bool := ({ap with place := .faulted},memory,spinlock)
  match ap.place with
  | .off => none
  | .waiting => none
  | .real page =>
    -- `mov (0x8ff0), %eax` and `mov %eax, %cr3`
    some (if page=8 ∧ Ready image memory then
      ({ap with cr3 := readLE memory 0x8ff0 4,place := .paged},memory,spinlock) else lost)
  | .paged =>
    -- foreign page tables hold nothing of this
    some (if mapped ∧ ap.cr3=image.cr3 ∧ Ready image memory then
      ({ap with rax := readLE memory 0x8fe0 8,place := .entered},memory,spinlock) else lost)
  | .entered =>
    some (if mapped ∧ Ready image memory then
      ({ap with rsp := readLE memory 0x8fd0 8,place := .stacked},memory,spinlock) else lost)
  | .stacked =>
    -- `jmpq *%rax`
    some (if mapped ∧ Ready image memory ∧ ap.rax=image.apMain then
      ({ap with place := .main},memory,spinlock) else lost)
  | .main =>
    -- `pushq $0x08` and `pushq $ap_stage2`
    some (if mapped then
      ({ap with rsp := ap.rsp-16,place := .pushed},
        writeLE (writeLE memory (ap.rsp-8) 8 0x08) (ap.rsp-16) 8 image.apStage2,spinlock)
      else lost)
  | .pushed =>
    -- `lretq`
    some (if mapped ∧ readLE memory ap.rsp 8=image.apStage2 ∧ readLE memory (ap.rsp+8) 8=0x08 then
      ({ap with rsp := ap.rsp+16,place := .stage2},memory,spinlock) else lost)
  | .stage2 =>
    -- the call of `set_booted` pushes its return address
    some (if mapped then
      ({ap with rsp := ap.rsp-8,place := .called},writeLE memory (ap.rsp-8) 8 image.booted,
        spinlock) else lost)
  | .called => some ({ap with place := .booted},memory,false)
  | .booted =>
    some (if mapped ∧ readLE memory ap.rsp 8=image.booted then
      ({ap with rsp := ap.rsp+8,place := .returned},memory,spinlock) else lost)
  | .returned => none
  | .faulted => none

/-- One step of the system. -/
def step (image : Image) (system : System) : Action→Option System
  | .bsp => some (bspStep image system)
  | .deliver k => deliver image system k
  | .ap id cached =>
    (apStep image (system.identity || cached) system.memory system.spinlock (system.ap id)).map
      (fun (ap,memory,spinlock) => {system with
        memory := memory
        spinlock := spinlock
        ap := Function.update system.ap id ap})

/-- Before the call: no processor is started, nothing is under way, and the
flag has the value it is defined with. -/
structure Initial (system : System) : Prop where
  /-- The boot processor. -/
  bsp : system.bsp=.copy
  /-- The flag. -/
  spinlock : system.spinlock=false
  /-- No message. -/
  inFlight : system.inFlight=[]
  /-- The identity mapping is there. -/
  identity : system.identity=true
  /-- The other processors. -/
  off : ∀ id,(system.ap id).place=.off

/-- The trampoline ends in front of its variables, its `cr3` is read whole, and
the other words are words. -/
structure Image.Fits (image : Image) : Prop where
  /-- The trampoline. -/
  trampoline : image.trampoline.length≤0xfd0
  /-- The first, of which 32 bits are read. -/
  cr3 : image.cr3<2^32
  /-- The second. -/
  apMain : image.apMain<2^64
  /-- An address on the stack. -/
  apStage2 : image.apStage2<2^64
  /-- Another one. -/
  booted : image.booted<2^64

end Model

end WorkbenchOS.ApplicationProcessors
