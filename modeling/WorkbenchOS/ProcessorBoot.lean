import WorkbenchOS.ApplicationProcessors
import WorkbenchOS.TransitionRuns

/-!
# One processor at a time

The word with the stack is rewritten for every processor, and all of them read
it at the same place. The flag keeps them apart: from the notification of a
processor to its store in `set_booted` the boot processor waits, so the
trampoline, the three words and the identity mapping stand as long as a
processor depends on them. The store is not the last access of a processor
below 1 MiB, and the last processor to boot is not waited for any longer.
-/

namespace WorkbenchOS.ApplicationProcessors

open ByteMemory TransitionRuns

section Predicates

/-- In the trampoline or on the way to the store of the flag. -/
def Underway : Place→Prop
  | .real _ => True
  | .paged => True
  | .entered => True
  | .stacked => True
  | .main => True
  | .pushed => True
  | .stage2 => True
  | .called => True
  | _ => False

/-- Behind the store of the flag. -/
def Finished : Place→Prop
  | .booted => True
  | .returned => True
  | .faulted => True
  | _ => False

/-- With a stack. -/
def OnStack : Place→Prop
  | .stacked => True
  | .main => True
  | .pushed => True
  | .stage2 => True
  | .called => True
  | .booted => True
  | .returned => True
  | _ => False

/-- How many steps a processor is from the store, at most. -/
def distance : Place→ℕ
  | .off => 12
  | .waiting => 11
  | .real _ => 10
  | .paged => 9
  | .entered => 8
  | .stacked => 7
  | .main => 6
  | .pushed => 5
  | .stage2 => 4
  | .called => 3
  | _ => 0

/-- The registers that come from the trampoline. -/
structure Loaded (image : Image) (ap : Ap) (rsp : ℕ) : Prop where
  /-- `cr3`. -/
  cr3 : ap.cr3=image.cr3
  /-- `&ap_main`. -/
  rax : ap.rax=image.apMain
  /-- The stack. -/
  rsp : ap.rsp=rsp

/-- What holds of a processor at a place. -/
def Held (image : Image) (memory : Memory) (id : ℕ) (ap : Ap) : Prop :=
  match ap.place with
  | .real page => page=8
  | .paged => ap.cr3=image.cr3
  | .entered => ap.cr3=image.cr3 ∧ ap.rax=image.apMain
  | .stacked => Loaded image ap (stackTop id)
  | .main => Loaded image ap (stackTop id)
  | .pushed => Loaded image ap (stackTop id-16) ∧
      readLE memory (stackTop id-16) 8=image.apStage2 ∧ readLE memory (stackTop id-8) 8=0x08
  | .stage2 => Loaded image ap (stackTop id)
  | .called => Loaded image ap (stackTop id-8) ∧ readLE memory (stackTop id-8) 8=image.booted
  | .booted => Loaded image ap (stackTop id-8) ∧ readLE memory (stackTop id-8) 8=image.booted
  | .returned => Loaded image ap (stackTop id)
  | _ => True

/-- The trampoline and the two words that stay. -/
structure Prepared (image : Image) (memory : Memory) : Prop where
  /-- The trampoline. -/
  ready : Ready image memory
  /-- What the trampoline loads of `cr3`. -/
  cr3 : readLE memory 0x8ff0 4=image.cr3
  /-- `&ap_main`. -/
  apMain : readLE memory 0x8fe0 8=image.apMain

/-- The page below 0x9000 in front of every step of the boot processor. -/
def Words (image : Image) (memory : Memory) : Bsp→Prop
  | .copy => True
  | .cr3 => Ready image memory
  | .entry => Ready image memory ∧ readLE memory 0x8ff0 4=image.cr3
  | .stack _ => Prepared image memory
  | .flag i => Prepared image memory ∧ readLE memory 0x8fd0 8=stackTop i
  | .initHigh i => Prepared image memory ∧ readLE memory 0x8fd0 8=stackTop i
  | .initLow i => Prepared image memory ∧ readLE memory 0x8fd0 8=stackTop i
  | .delay i => Prepared image memory ∧ readLE memory 0x8fd0 8=stackTop i
  | .sipiHigh i => Prepared image memory ∧ readLE memory 0x8fd0 8=stackTop i
  | .sipiLow i => Prepared image memory ∧ readLE memory 0x8fd0 8=stackTop i
  | .wait i => Prepared image memory ∧ readLE memory 0x8fd0 8=stackTop i
  | .unmap => True
  | .done => True

/-- The round of the loop; before it 0, behind it `cpus`. -/
def round : Bsp→ℕ
  | .copy => 0
  | .cr3 => 0
  | .entry => 0
  | .stack i => i
  | .flag i => i
  | .initHigh i => i
  | .initLow i => i
  | .delay i => i
  | .sipiHigh i => i
  | .sipiLow i => i
  | .wait i => i
  | .unmap => cpus
  | .done => cpus

/-- INIT has arrived, if there is a processor for it to arrive at. -/
def Told (image : Image) (i : ℕ) (place : Place) : Prop :=
  place=if image.present i=true then .waiting else .off

/-- INIT is under way or has arrived. -/
def Initiated (image : Image) (system : System) (i : ℕ) : Prop :=
  system.inFlight=[⟨i,.init⟩] ∧ (system.ap i).place=.off ∨
    system.inFlight=[] ∧ Told image i (system.ap i).place

/-- A processor is called for: the messages are under way, or it runs, or it
has cleared the flag, or it does not exist. -/
inductive Summoned (image : Image) (system : System) (i : ℕ) : Prop where
  /-- Both messages are under way. -/
  | both (hm : system.inFlight=[⟨i,.init⟩,⟨i,.sipi 8⟩]) (hp : (system.ap i).place=.off)
      (hs : system.spinlock=true)
  /-- INIT has arrived. -/
  | one (hm : system.inFlight=[⟨i,.sipi 8⟩]) (hp : Told image i (system.ap i).place)
      (hs : system.spinlock=true)
  /-- There is nobody. -/
  | nobody (hm : system.inFlight=[]) (hn : image.present i=false)
      (hp : (system.ap i).place=.off) (hs : system.spinlock=true)
  /-- It runs. -/
  | runs (hm : system.inFlight=[]) (hp : Underway (system.ap i).place)
      (hs : system.spinlock=true)
  /-- It has cleared the flag. -/
  | cleared (hm : system.inFlight=[]) (hp : Finished (system.ap i).place)
      (hs : system.spinlock=false)

/-- What the boot processor can rely on at a place. -/
def Current (image : Image) (system : System) : Prop :=
  match system.bsp with
  | .stack i => system.inFlight=[] ∧ (system.ap i).place=.off
  | .flag i => system.inFlight=[] ∧ (system.ap i).place=.off
  | .initHigh i => system.inFlight=[] ∧ (system.ap i).place=.off ∧ system.spinlock=true
  | .initLow i => system.inFlight=[] ∧ (system.ap i).place=.off ∧ system.spinlock=true ∧
      system.icrHigh=(sendInit i).high
  | .delay i => Initiated image system i ∧ system.spinlock=true
  | .sipiHigh i => Initiated image system i ∧ system.spinlock=true
  | .sipiLow i => Initiated image system i ∧ system.spinlock=true ∧
      system.icrHigh=(sendSipi i).high
  | .wait i => Summoned image system i
  | _ => system.inFlight=[]

/-- The invariant. -/
structure Booting (image : Image) (system : System) : Prop where
  /-- The loop runs from 1 below `cpus`. -/
  bounds : round system.bsp≤cpus ∧ (round system.bsp=0 → system.bsp=.copy ∨
    system.bsp=.cr3 ∨ system.bsp=.entry)
  /-- A round is below the end. -/
  inside : system.bsp≠.unmap → system.bsp≠.done → round system.bsp<cpus
  /-- The page below 0x9000. -/
  words : Words image system.memory system.bsp
  /-- Processors of earlier rounds have cleared the flag. -/
  past : ∀ id,1≤ id → id<round system.bsp → Finished (system.ap id).place
  /-- Those of later rounds are not started, nor is any other. -/
  future : ∀ id,id=0 ∨ round system.bsp< id ∨ cpus≤ id → (system.ap id).place=.off
  /-- What holds of each of them. -/
  held : ∀ id,1≤ id → Held image system.memory id (system.ap id)
  /-- The round. -/
  current : Current image system
  /-- The mapping is there until the end. -/
  identity : system.identity=true ↔ system.bsp≠.done
  /-- Nobody is lost before. -/
  lost : ∀ id,(system.ap id).place=.faulted → system.bsp=.done
  /-- Only who is there starts. -/
  there : ∀ id,(system.ap id).place≠.off → image.present id=true

end Predicates

section Frames

variable {image : Image} {memory after : Memory} {id : ℕ} {ap : Ap}

/-- What holds of a processor depends on the top of its stack. -/
theorem Held.frame (h : Held image memory id ap) (hid : 1≤ id)
    (hm : Unchanged memory after (stackTop id-16) 16) : Held image after id ap := by
  have hfirst : readLE after (stackTop id-16) 8=readLE memory (stackTop id-16) 8 :=
    readLE_congr (hm.mono le_rfl (by omega))
  have hsecond : readLE after (stackTop id-8) 8=readLE memory (stackTop id-8) 8 :=
    readLE_congr (hm.mono (by omega) (by rw [stackTop]; omega))
  cases hp : ap.place with
  | pushed =>
    simp only [Held,hp] at h ⊢
    rw [hfirst,hsecond]
    exact h
  | called =>
    simp only [Held,hp] at h ⊢
    rw [hsecond]
    exact h
  | booted =>
    simp only [Held,hp] at h ⊢
    rw [hsecond]
    exact h
  | _ =>
    simp only [Held,hp] at h ⊢
    try exact h

/-- The page below 0x9000 depends on its own bytes. -/
theorem Words.frame (hf : image.Fits) {bsp : Bsp} (h : Words image memory bsp)
    (hm : Unchanged memory after 0x8000 0x1000) : Words image after bsp := by
  have hfits := hf.trampoline
  have hready : Ready image memory → Ready image after := by
    intro hr
    rw [Ready,←hr]
    have hlength : (bytesAt memory 0x8000 image.trampoline.length).length=
        image.trampoline.length := length_bytesAt _ _ _
    rw [hlength]
    exact bytesAt_relocated (fun i hi => hm _ (by omega) (by omega))
  have hcr3 : readLE after 0x8ff0 4=readLE memory 0x8ff0 4 :=
    readLE_congr (hm.mono (by omega) (by omega))
  have hmain : readLE after 0x8fe0 8=readLE memory 0x8fe0 8 :=
    readLE_congr (hm.mono (by omega) (by omega))
  have hstack : readLE after 0x8fd0 8=readLE memory 0x8fd0 8 :=
    readLE_congr (hm.mono (by omega) (by omega))
  have hprepared : Prepared image memory → Prepared image after := fun hp =>
    ⟨hready hp.ready,hcr3.trans hp.cr3,hmain.trans hp.apMain⟩
  cases bsp with
  | copy => trivial
  | cr3 => exact hready h
  | entry => exact ⟨hready h.1,hcr3.trans h.2⟩
  | stack i => exact hprepared h
  | unmap => trivial
  | done => trivial
  | _ => exact ⟨hprepared h.1,hstack.trans h.2⟩

/-- A store below the stacks leaves them alone. -/
theorem unchanged_below {address count value : ℕ} (h : address+count≤0x9000) (hid : 1≤ id) :
    Unchanged memory (writeLE memory address count value) (stackTop id-16) 16 := by
  refine writeLE_unchanged memory (Or.inr ?_)
  rw [stackTop]
  omega

/-- The low half of a word that fits it. -/
theorem readLE_half (memory : Memory) (address : ℕ) {value : ℕ} (h : value<2^32) :
    readLE (writeLE memory address 8 value) address 4=value := by
  have hd := readLE_digits (writeLE memory address 8 value) value address 4 0 (by
    intro i hi
    have hc : address≤address+i ∧ address+i<address+8 := ⟨by omega,by omega⟩
    simp only [writeLE,if_pos hc,Nat.add_sub_cancel_left,Nat.zero_add])
  rw [hd,pow_zero,Nat.div_one]
  exact Nat.mod_eq_of_lt h

end Frames

section Processor

variable {image : Image} {memory : Memory} {id : ℕ} {ap : Ap}

/-- What a step of a processor on its way changes: its own registers, the top
of its stack, and at the end the flag. -/
structure Advances (image : Image) (memory : Memory) (id : ℕ) (ap next : Ap) (after : Memory)
    (spinlock : Bool) : Prop where
  /-- It comes nearer. -/
  nearer : distance next.place<distance ap.place
  /-- What holds of it then. -/
  held : Held image after id next
  /-- Only its stack changes. -/
  frame : ∀ x,x< stackTop id-16 ∨ stackTop id≤x → after x=memory x
  /-- It is still on its way, or has cleared the flag. -/
  cleared : Underway next.place ∧ spinlock=true ∨ next.place=.booted ∧ spinlock=false

/-- As long as the trampoline, the words and the mapping stand, a processor
on its way goes on. -/
theorem underway_step (hf : image.Fits) (hid : 1≤ id) (hu : Underway ap.place)
    (hh : Held image memory id ap) (hp : Prepared image memory)
    (hs : readLE memory 0x8fd0 8=stackTop id) :
    ∃ next after spinlock,apStep image true memory true ap=some (next,after,spinlock) ∧
      Advances image memory id ap next after spinlock := by
  have htop : 0x1000≤ stackTop id := by
    rw [stackTop]
    omega
  cases hplace : ap.place with
  | real page =>
    simp only [Held,hplace] at hh
    have hstep : apStep image true memory true ap=some
        ({ap with cr3 := readLE memory 0x8ff0 4,place := .paged},memory,true) := by
      simp only [apStep,hplace]
      rw [if_pos ⟨hh,hp.ready⟩]
    refine ⟨_,_,_,hstep,?_,?_,fun _ _ => rfl,Or.inl ⟨trivial,rfl⟩⟩
    · rw [hplace]
      exact (by decide : 9<10)
    · simp only [Held]
      exact hp.cr3
  | paged =>
    simp only [Held,hplace] at hh
    have hstep : apStep image true memory true ap=some
        ({ap with rax := readLE memory 0x8fe0 8,place := .entered},memory,true) := by
      simp only [apStep,hplace]
      rw [if_pos ⟨trivial,hh,hp.ready⟩]
    refine ⟨_,_,_,hstep,?_,?_,fun _ _ => rfl,Or.inl ⟨trivial,rfl⟩⟩
    · rw [hplace]
      exact (by decide : 8<9)
    · simp only [Held]
      exact ⟨hh,hp.apMain⟩
  | entered =>
    simp only [Held,hplace] at hh
    have hstep : apStep image true memory true ap=some
        ({ap with rsp := readLE memory 0x8fd0 8,place := .stacked},memory,true) := by
      simp only [apStep,hplace]
      rw [if_pos ⟨trivial,hp.ready⟩]
    refine ⟨_,_,_,hstep,?_,?_,fun _ _ => rfl,Or.inl ⟨trivial,rfl⟩⟩
    · rw [hplace]
      exact (by decide : 7<8)
    · simp only [Held]
      exact ⟨hh.1,hh.2,hs⟩
  | stacked =>
    simp only [Held,hplace] at hh
    have hstep : apStep image true memory true ap=some
        ({ap with place := .main},memory,true) := by
      simp only [apStep,hplace]
      rw [if_pos ⟨trivial,hp.ready,hh.rax⟩]
    refine ⟨_,_,_,hstep,?_,?_,fun _ _ => rfl,Or.inl ⟨trivial,rfl⟩⟩
    · rw [hplace]
      exact (by decide : 6<7)
    · simp only [Held]
      exact ⟨hh.cr3,hh.rax,hh.rsp⟩
  | main =>
    simp only [Held,hplace] at hh
    have hstep : apStep image true memory true ap=some
        ({ap with rsp := stackTop id-16,place := .pushed},
          writeLE (writeLE memory (stackTop id-8) 8 0x08) (stackTop id-16) 8 image.apStage2,
          true) := by
      simp only [apStep,hplace]
      rw [if_pos trivial,hh.rsp]
    refine ⟨_,_,_,hstep,?_,?_,?_,Or.inl ⟨trivial,rfl⟩⟩
    · rw [hplace]
      exact (by decide : 5<6)
    · simp only [Held]
      refine ⟨⟨hh.cr3,hh.rax,rfl⟩,?_,?_⟩
      · rw [readLE_writeLE_self]
        exact Nat.mod_eq_of_lt (by have hb := hf.apStage2; omega)
      · rw [readLE_writeLE_apart _ (Or.inr (by omega)),readLE_writeLE_self]
        norm_num
    · intro x hx
      rw [writeLE_outside _ (by omega),writeLE_outside _ (by omega)]
  | pushed =>
    simp only [Held,hplace] at hh
    obtain ⟨hloaded,hfirst,hsecond⟩ := hh
    have hcode : readLE memory ap.rsp 8=image.apStage2 := by rw [hloaded.rsp,hfirst]
    have hselector : readLE memory (ap.rsp+8) 8=0x08 := by
      rw [hloaded.rsp,show stackTop id-16+8=stackTop id-8 by omega,hsecond]
    have hstep : apStep image true memory true ap=some
        ({ap with rsp := ap.rsp+16,place := .stage2},memory,true) := by
      simp only [apStep,hplace]
      rw [if_pos ⟨trivial,hcode,hselector⟩]
    refine ⟨_,_,_,hstep,?_,?_,fun _ _ => rfl,Or.inl ⟨trivial,rfl⟩⟩
    · rw [hplace]
      exact (by decide : 4<5)
    · simp only [Held]
      refine ⟨hloaded.cr3,hloaded.rax,?_⟩
      dsimp only
      rw [hloaded.rsp]
      omega
  | stage2 =>
    simp only [Held,hplace] at hh
    have hstep : apStep image true memory true ap=some
        ({ap with rsp := stackTop id-8,place := .called},
          writeLE memory (stackTop id-8) 8 image.booted,true) := by
      simp only [apStep,hplace]
      rw [if_pos trivial,hh.rsp]
    refine ⟨_,_,_,hstep,?_,?_,?_,Or.inl ⟨trivial,rfl⟩⟩
    · rw [hplace]
      exact (by decide : 3<4)
    · simp only [Held]
      refine ⟨⟨hh.cr3,hh.rax,rfl⟩,?_⟩
      rw [readLE_writeLE_self]
      exact Nat.mod_eq_of_lt (by have hb := hf.booted; omega)
    · intro x hx
      rw [writeLE_outside _ (by omega)]
  | called =>
    simp only [Held,hplace] at hh
    have hstep : apStep image true memory true ap=some
        ({ap with place := .booted},memory,false) := by
      simp only [apStep,hplace]
    refine ⟨_,_,_,hstep,?_,?_,fun _ _ => rfl,Or.inr ⟨rfl,rfl⟩⟩
    · rw [hplace]
      exact (by decide : 0<3)
    · simp only [Held]
      exact ⟨⟨hh.1.cr3,hh.1.rax,hh.1.rsp⟩,hh.2⟩
  | _ =>
    rw [hplace] at hu
    cases hu

end Processor

section Boot

variable {image : Image} {system next : System}

/-- What the boot processor does is safe if the words and the round are
right afterwards, nobody is passed over, and no stack is touched. -/
theorem Booting.goes (h : Booting image system) (hb : system.bsp≠.done) (hap : next.ap=system.ap)
    (hidentity : next.identity=true) (hn : next.bsp≠.done)
    (hbounds : round next.bsp≤cpus ∧ (round next.bsp=0 → next.bsp=.copy ∨ next.bsp=.cr3 ∨
      next.bsp=.entry))
    (hinside : next.bsp≠.unmap → round next.bsp<cpus)
    (hwords : Words image next.memory next.bsp)
    (hpast : ∀ id,1≤ id → id<round next.bsp → Finished (system.ap id).place)
    (hfuture : ∀ id,id=0 ∨ round next.bsp< id ∨ cpus≤ id → (system.ap id).place=.off)
    (hstacks : ∀ id,1≤ id → Unchanged system.memory next.memory (stackTop id-16) 16)
    (hcurrent : Current image next) : Booting image next where
  bounds := hbounds
  inside := fun hu _ => hinside hu
  words := hwords
  past := hap ▸ hpast
  future := hap ▸ hfuture
  held := fun id hid => hap ▸ (h.held id hid).frame hid (hstacks id hid)
  current := hcurrent
  identity := ⟨fun _ => hn,fun _ => hidentity⟩
  lost := fun id hl => absurd (h.lost id (hap ▸ hl)) hb
  there := hap ▸ h.there

/-- The same when the round stays. -/
theorem Booting.stays (h : Booting image system) (hb : system.bsp≠.done)
    (hu : system.bsp≠.unmap) (hn : next.bsp≠.done) (hap : next.ap=system.ap)
    (hidentity : next.identity=system.identity) (hround : round next.bsp=round system.bsp)
    (hzero : round next.bsp=0 → next.bsp=.copy ∨ next.bsp=.cr3 ∨ next.bsp=.entry)
    (hwords : Words image next.memory next.bsp)
    (hstacks : ∀ id,1≤ id → Unchanged system.memory next.memory (stackTop id-16) 16)
    (hcurrent : Current image next) : Booting image next :=
  h.goes hb hap (hidentity.trans (h.identity.mpr hb)) hn ⟨hround ▸ h.bounds.1,hzero⟩
    (fun _ => hround ▸ h.inside hu hb) hwords (hround ▸ h.past) (hround ▸ h.future) hstacks
    hcurrent

/-- In the loop the round is one of the processors. -/
theorem Booting.in_loop (h : Booting image system) {i : ℕ} (hi : round system.bsp=i)
    (hb : system.bsp≠.done) (hu : system.bsp≠.unmap) (hc : system.bsp≠.copy)
    (h3 : system.bsp≠.cr3) (he : system.bsp≠.entry) : 1≤ i ∧ i<cpus := by
  have hlt := h.inside hu hb
  refine ⟨?_,hi ▸ hlt⟩
  by_contra hz
  rcases h.bounds.2 (by omega) with h1|h1|h1
  · exact hc h1
  · exact h3 h1
  · exact he h1

/-- The lower half of a command sends its message. -/
theorem send_eq {low : ℕ} {message : Message} (h : command system.icrHigh low=some message) :
    system.send low={system with inFlight := system.inFlight++[message]} := by
  rw [System.send,h]

/-- The first three stores. -/
theorem booting_setup (hf : image.Fits) (h : Booting image system)
    (hb : system.bsp=.copy ∨ system.bsp=.cr3 ∨ system.bsp=.entry) :
    Booting image (bspStep image system) := by
  have hfits := hf.trampoline
  have hcurrent := h.current
  have hwords := h.words
  have hfuture := h.future
  rcases hb with hb|hb|hb
  · rw [Current,hb] at hcurrent
    refine h.stays (by rw [hb]; decide) (by rw [hb]; decide) ?_ ?_ ?_ ?_ ?_ ?_ ?_ ?_
    all_goals simp only [bspStep,hb]
    · decide
    · rfl
    · exact fun _ => Or.inr (Or.inl trivial)
    · exact bytesAt_storeBytes _ _ _
    · intro id hid x hx _
      exact storeBytes_outside _ (by rw [stackTop] at hx; omega)
    · exact hcurrent
  · rw [Current,hb] at hcurrent
    rw [hb] at hwords
    refine h.stays (by rw [hb]; decide) (by rw [hb]; decide) ?_ ?_ ?_ ?_ ?_ ?_ ?_ ?_
    all_goals simp only [bspStep,hb]
    · decide
    · rfl
    · exact fun _ => Or.inr (Or.inr trivial)
    · have hready : Unchanged system.memory (writeLE system.memory 0x8ff0 8 image.cr3) 0x8000
          0xff0 := writeLE_unchanged _ (Or.inl (by omega))
      refine ⟨?_,readLE_half _ _ hf.cr3⟩
      have hlength : (bytesAt system.memory 0x8000 image.trampoline.length)=
          image.trampoline := hwords
      rw [Ready,bytesAt_relocated (fun i hi => hready _ (by omega) (by omega))]
      exact hlength
    · exact fun id hid => unchanged_below (by decide) hid
    · exact hcurrent
  · rw [Current,hb] at hcurrent
    rw [hb] at hwords
    have hround : round system.bsp=0 := by rw [hb]; rfl
    rw [hround] at hfuture
    refine h.goes (by rw [hb]; decide) ?_ ?_ ?_ ?_ ?_ ?_ ?_ ?_ ?_ ?_
    all_goals simp only [bspStep,hb]
    · exact h.identity.mpr (by rw [hb]; decide)
    · decide
    · exact ⟨by decide,fun hz => by cases hz⟩
    · exact fun _ => by decide
    · have hready : Unchanged system.memory (writeLE system.memory 0x8fe0 8 image.apMain) 0x8000
          0xfe0 := writeLE_unchanged _ (Or.inl (by omega))
      refine ⟨?_,?_,?_⟩
      · have hlength : (bytesAt system.memory 0x8000 image.trampoline.length)=
            image.trampoline := hwords.1
        rw [Ready,bytesAt_relocated (fun i hi => hready _ (by omega) (by omega))]
        exact hlength
      · rw [readLE_writeLE_apart _ (Or.inr (by omega))]
        exact hwords.2
      · rw [readLE_writeLE_self]
        exact Nat.mod_eq_of_lt (by have hb := hf.apMain; omega)
    · intro id h1 h2
      exact absurd (show id<1 from h2) (by omega)
    · intro id hid
      refine hfuture id ?_
      have hid : id=0 ∨ 1< id ∨ cpus≤ id := hid
      omega
    · exact fun id hid => unchanged_below (by decide) hid
    · exact ⟨hcurrent,hfuture 1 (Or.inr (Or.inl (by decide)))⟩

/-- The steps of a round before the loop on the flag. -/
theorem booting_round (hf : image.Fits) (h : Booting image system) {i : ℕ}
    (hb : system.bsp=.stack i ∨ system.bsp=.flag i ∨ system.bsp=.initHigh i ∨
      system.bsp=.initLow i ∨ system.bsp=.delay i ∨ system.bsp=.sipiHigh i ∨
      system.bsp=.sipiLow i) : Booting image (bspStep image system) := by
  have hfits := hf.trampoline
  have hcurrent := h.current
  have hwords := h.words
  have hi : 1≤ i ∧ i<cpus := by
    refine h.in_loop ?_ ?_ ?_ ?_ ?_ ?_
    all_goals rcases hb with hb|hb|hb|hb|hb|hb|hb
    all_goals rw [hb]
    all_goals first | rfl | simp
  have hsmall : i<256 := hi.2.trans (by decide)
  have hword : stackTop i<256^8 := by
    have hlt := hi.2
    rw [stackTop]
    rw [cpus] at hlt
    omega
  have hsame : ∀ id,1≤ id → Unchanged system.memory system.memory (stackTop id-16) 16 :=
    fun _ _ _ _ _ => rfl
  have hzero : i≠0 := by omega
  rcases hb with hb|hb|hb|hb|hb|hb|hb
  all_goals rw [Current,hb] at hcurrent
  all_goals rw [hb] at hwords
  all_goals refine h.stays (by rw [hb]; simp) (by rw [hb]; simp) ?_ ?_ ?_ ?_ ?_ ?_ ?_ ?_
  all_goals simp only [bspStep,hb,reduceCtorEq,not_false_eq_true,ne_eq,round,hzero,
    false_implies]
  · have hready : Unchanged system.memory (writeLE system.memory 0x8fd0 8 (stackTop i)) 0x8000
        0xfd0 := writeLE_unchanged _ (Or.inl (by omega))
    refine ⟨⟨?_,?_,?_⟩,?_⟩
    · have hlength : (bytesAt system.memory 0x8000 image.trampoline.length)=
          image.trampoline := hwords.ready
      rw [Ready,bytesAt_relocated (fun i hi => hready _ (by omega) (by omega))]
      exact hlength
    · rw [readLE_writeLE_apart _ (Or.inr (by omega))]
      exact hwords.cr3
    · rw [readLE_writeLE_apart _ (Or.inr (by omega))]
      exact hwords.apMain
    · rw [readLE_writeLE_self,Nat.mod_eq_of_lt hword]
  · exact fun id hid => unchanged_below (by decide) hid
  · exact hcurrent
  · exact hwords
  · exact hsame
  · exact ⟨hcurrent.1,hcurrent.2,rfl⟩
  · exact hwords
  · exact hsame
  · exact ⟨hcurrent.1,hcurrent.2.1,hcurrent.2.2,rfl⟩
  · rw [send_eq (hcurrent.2.2.2 ▸ command_sendInit hsmall)]
  · rw [send_eq (hcurrent.2.2.2 ▸ command_sendInit hsmall)]
  · rw [send_eq (hcurrent.2.2.2 ▸ command_sendInit hsmall)]
    exact hwords
  · rw [send_eq (hcurrent.2.2.2 ▸ command_sendInit hsmall)]
    exact hsame
  · rw [send_eq (hcurrent.2.2.2 ▸ command_sendInit hsmall)]
    exact ⟨Or.inl ⟨by dsimp only; rw [hcurrent.1]; rfl,hcurrent.2.1⟩,hcurrent.2.2.1⟩
  · exact hwords
  · exact hsame
  · exact hcurrent
  · exact hwords
  · exact hsame
  · exact ⟨hcurrent.1,hcurrent.2,rfl⟩
  · rw [send_eq (hcurrent.2.2 ▸ command_sendSipi hsmall)]
  · rw [send_eq (hcurrent.2.2 ▸ command_sendSipi hsmall)]
  · rw [send_eq (hcurrent.2.2 ▸ command_sendSipi hsmall)]
    exact hwords
  · rw [send_eq (hcurrent.2.2 ▸ command_sendSipi hsmall)]
    exact hsame
  · rw [send_eq (hcurrent.2.2 ▸ command_sendSipi hsmall)]
    obtain ⟨⟨hm,hp⟩|⟨hm,hp⟩,hs,-⟩ := hcurrent
    · exact .both (by dsimp only; rw [hm]; rfl) hp hs
    · exact .one (by dsimp only; rw [hm]; rfl) hp hs

/-- The end of a round. -/
theorem booting_wait (h : Booting image system) {i : ℕ} (hb : system.bsp=.wait i) :
    Booting image (bspStep image system) := by
  have hcurrent := h.current
  have hwords := h.words
  have hpast := h.past
  have hfuture := h.future
  rw [Current,hb] at hcurrent
  rw [hb] at hwords hpast hfuture
  have hi : 1≤ i ∧ i<cpus := by
    refine h.in_loop ?_ ?_ ?_ ?_ ?_ ?_
    all_goals rw [hb]
    all_goals first | rfl | simp
  cases hs : system.spinlock with
  | true =>
    have hstep : bspStep image system=system := by simp only [bspStep,hb,hs,if_true]
    rw [hstep]
    exact h
  | false =>
    have hstep : bspStep image system={system with bsp := nextRound i} := by
      simp only [bspStep,hb,hs,Bool.false_eq_true,if_false]
    rw [hstep]
    have hquiet : system.inFlight=[] ∧ Finished (system.ap i).place := by
      cases hcurrent with
      | both _ _ ht => rw [hs] at ht; cases ht
      | one _ _ ht => rw [hs] at ht; cases ht
      | nobody _ _ _ ht => rw [hs] at ht; cases ht
      | runs _ _ ht => rw [hs] at ht; cases ht
      | cleared hm hp _ => exact ⟨hm,hp⟩
    have hround : round (nextRound i)=i+1 := by
      rw [nextRound]
      split
      · rfl
      · have hlt := hi.2
        change cpus=i+1
        omega
    refine h.goes (by rw [hb]; simp) rfl (h.identity.mpr (by rw [hb]; simp)) ?_ ?_ ?_ ?_ ?_ ?_
      (fun _ _ _ _ _ => rfl) ?_
    · dsimp only
      rw [nextRound]
      split
      · simp
      · simp
    · dsimp only
      rw [hround]
      exact ⟨hi.2,fun hz => by cases hz⟩
    · dsimp only
      intro hu
      rw [nextRound] at hu ⊢
      split
      · rename_i hlt
        exact hlt
      · rename_i hge
        rw [if_neg hge] at hu
        exact absurd rfl hu
    · dsimp only
      rw [nextRound]
      split
      · exact hwords.1
      · trivial
    · dsimp only
      rw [hround]
      intro id h1 h2
      rcases Nat.lt_succ_iff_lt_or_eq.mp h2 with hlt|heq
      · exact hpast id h1 hlt
      · exact heq ▸ hquiet.2
    · dsimp only
      rw [hround]
      intro id hid
      refine hfuture id ?_
      have hr : round (Bsp.wait i)=i := rfl
      omega
    · rw [nextRound]
      split
      · rename_i hlt
        exact ⟨hquiet.1,hfuture (i+1) (Or.inr (Or.inl (Nat.lt_succ_self i)))⟩
      · exact hquiet.1

/-- The end of the boot. -/
theorem booting_unmap (h : Booting image system) (hb : system.bsp=.unmap) :
    Booting image (bspStep image system) := by
  have hcurrent := h.current
  have hpast := h.past
  have hfuture := h.future
  rw [Current,hb] at hcurrent
  rw [hb] at hpast hfuture
  simp only [bspStep,hb]
  exact {
    bounds := ⟨le_rfl,fun hz => by cases hz⟩
    inside := fun _ hd => absurd rfl hd
    words := trivial
    past := hpast
    future := hfuture
    held := h.held
    current := hcurrent
    identity := ⟨fun hz => (by cases hz),fun hd => absurd rfl hd⟩
    lost := fun _ _ => rfl
    there := h.there }

/-- Every step of the boot processor. -/
theorem booting_bsp (hf : image.Fits) (h : Booting image system) :
    Booting image (bspStep image system) := by
  cases hb : system.bsp with
  | copy => exact booting_setup hf h (Or.inl hb)
  | cr3 => exact booting_setup hf h (Or.inr (Or.inl hb))
  | entry => exact booting_setup hf h (Or.inr (Or.inr hb))
  | wait i => exact booting_wait h hb
  | unmap => exact booting_unmap h hb
  | done =>
    have hstep : bspStep image system=system := by simp only [bspStep,hb]
    rw [hstep]
    exact h
  | stack i => exact booting_round hf h (Or.inl hb)
  | flag i => exact booting_round hf h (Or.inr (Or.inl hb))
  | initHigh i => exact booting_round hf h (Or.inr (Or.inr (Or.inl hb)))
  | initLow i => exact booting_round hf h (Or.inr (Or.inr (Or.inr (Or.inl hb))))
  | delay i => exact booting_round hf h (Or.inr (Or.inr (Or.inr (Or.inr (Or.inl hb)))))
  | sipiHigh i =>
    exact booting_round hf h (Or.inr (Or.inr (Or.inr (Or.inr (Or.inr (Or.inl hb))))))
  | sipiLow i =>
    exact booting_round hf h (Or.inr (Or.inr (Or.inr (Or.inr (Or.inr (Or.inr hb))))))

end Boot

end WorkbenchOS.ApplicationProcessors
