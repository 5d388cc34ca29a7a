import WorkbenchOS.VirtioRefinement

/-!
# What the ring in memory amounts to

From the queue set up in fresh pages on, every run with the ring in memory is
matched by a run of the machine above. So the calls that have returned are
those of a disk, the device stores nowhere but into the used ring and the
request, and no call is stuck: its stores, the device and the polling loop can
bring it to its return, since no notification is lost.
-/

namespace WorkbenchOS.VirtioMemory

open ByteMemory Fat32 LibStd TransitionRuns Simulations
open MemoryManagement (physicalMappingBase)
open VirtioBlock (VDesc Call Submitted u16 publish)
open VirtioDetection (vringSizeBytes)
open VirtioDisk (Device Job Outcome Pending Serving Working storeThrough loadThrough prepared
  Reaches Replays Partly transfer received storeMarked_none)

section Start

variable {machine : Machine}

/-- The pointers `setup_queue0` computes, and the indices it clears. -/
theorem Ready.laid (h : Ready machine) : Placed machine ∧ machine.queue.availIdx=0 ∧
    machine.queue.usedIdx=0 ∧ machine.ring.usedIdxShadow=0 ∧
    machine.ring.free=(fun i => machine.qmax-1-i) ∧ machine.ring.freeCount=machine.qmax := by
  obtain ⟨mmu,ringPhys,memory,hsetup,haligned,hfits,hmaps⟩ := h.queue
  have hsmall := h.qmax
  rw [setupQueue0] at hsetup
  split at hsetup
  · cases hsetup
  · rename_i hpos
    rw [if_neg (fun hp : (0 : ℕ)≠0 ∧ 0≤ machine.qmax => hp.1 rfl)] at hsetup
    obtain ⟨hring,hrest⟩ := Prod.mk.inj (Option.some.inj hsetup)
    obtain ⟨hmemory,hpfn⟩ := Prod.mk.inj hrest
    have hsize := size_eq machine.qmax
    have hge := usedOffset_ge machine.qmax
    have hpage : usedOffset machine.qmax=(16*machine.qmax+(4+2*machine.qmax)+4095)/4096*4096 := rfl
    have hbase : machine.base=ringPhys := by
      rw [Machine.base,←hpfn]
      omega
    have hwindow : physicalMappingBase=2^64-2^40 := rfl
    have hdesc : u64 (ringPhys+physicalMappingBase)=ringPhys+physicalMappingBase :=
      u64_of_lt (by omega)
    have havail : u64 (ringPhys+physicalMappingBase+16*machine.qmax)=
        ringPhys+physicalMappingBase+16*machine.qmax := u64_of_lt (by omega)
    have hused : alignUp (u64 (ringPhys+physicalMappingBase+16*machine.qmax+4+2*machine.qmax))=
        ringPhys+physicalMappingBase+usedOffset machine.qmax := by
      have hend : ringPhys+usedOffset machine.qmax≤2^40-4096 := by omega
      rw [u64_of_lt (by omega),alignUp,u64_of_lt (by omega)]
      omega
    rw [hdesc] at hring hmemory hmaps
    rw [havail] at hring hmemory
    rw [hused] at hring hmemory
    have hringDesc : machine.ring.desc=ringPhys+physicalMappingBase := by rw [←hring]
    have hm : machine.Maps mmu := by
      intro i hi
      rw [hringDesc,hbase]
      exact hmaps i hi
    have hstores : machine.memory=
        writeLE (writeLE memory (machine.base+(usedOffset machine.qmax+2)) 2 0)
          (machine.base+(16*machine.qmax+2)) 2 0 := by
      rw [←hmemory]
      rw [apply_mapped hm (by decide : 0<2) (by rw [hringDesc,Nat.add_assoc,Nat.add_assoc])
        (by dsimp only; omega)]
      rw [apply_mapped hm (by decide : 0<2) (by rw [hringDesc,Nat.add_assoc])
        (by dsimp only; omega)]
    refine ⟨⟨?_,Nat.pos_of_ne_zero hpos,hsmall,?_,?_⟩,?_,?_,?_,?_,?_⟩
    · rw [←hring]
    · rw [←hring]
    · rw [←hring]
    · rw [Machine.queue,queueOf,hstores,availAt,Nat.add_assoc]
      exact readLE_writeLE_self _ _ _ _
    · rw [Machine.queue,queueOf,hstores,usedAt_eq (base_aligned machine),Nat.add_assoc]
      dsimp only
      rw [readLE_writeLE_apart _ (by rw [Apart]; omega)]
      exact readLE_writeLE_self _ _ _ _
    · rw [←hring]
    · rw [←hring]
    · rw [←hring]

/-- A machine that is ready is ready above. -/
theorem Ready.above (h : Ready machine) : VirtioDisk.Ready machine.seen := by
  obtain ⟨hplaced,havail,hused,hshadow,hfree,hcount⟩ := h.laid
  refine ⟨⟨0,machine.qmax,machine.queue.desc,machine.queue.availRing,h.qmax,?_⟩,h.device,rfl,
    h.history⟩
  rw [VirtioBlock.setupQueue0,if_neg (Nat.ne_of_gt hplaced.pos),
    if_neg (fun hp : (0 : ℕ)≠0 ∧ 0≤ machine.qmax => hp.1 rfl)]
  exact congrArg some ((VirtioBlock.Vring.mk.injEq ..).mpr ⟨rfl,rfl,havail.symm,rfl,hused.symm,
    hshadow.symm,hfree.symm,hcount.symm⟩)

/-- The machine above begins beside the one below. -/
theorem Ready.follows (h : Ready machine) : Follows machine machine.seen :=
  ⟨h.laid.1,rfl,rfl,rfl,rfl,(fun _ hp => by cases h.driver.symm.trans hp),
    (phase_idle h.driver).mpr ⟨rfl,rfl,fun _ _ => rfl⟩⟩

end Start

section Runs

variable {initial : BlockDevice} {machine next : Machine} {abstract : VirtioDisk.Machine}

/-- Every step is matched above. -/
theorem follows_simulates (initial : BlockDevice) : Simulates step Legal VirtioDisk.step
    VirtioDisk.Legal (fun machine abstract => Serving initial abstract ∧ Follows machine abstract)
    := by
  intro machine action next abstract hrelated hl hs
  obtain ⟨hserving,h⟩ := hrelated
  have hmatched : ∃ last,Leads VirtioDisk.step VirtioDisk.Legal abstract last ∧
      Follows next last := by
    cases action with
    | enter translate mmu call => exact follows_enter hserving h hl hs
    | publish => exact follows_publish hserving h hs
    | take => exact follows_take hserving h hs
    | move i => exact follows_move hserving h hs
    | report status => exact follows_report hserving h hs
    | finish length => exact follows_finish hserving h hs
    | rest => exact ⟨abstract,Leads.refl abstract,follows_rest h hs⟩
    | poll => exact follows_poll h hs
    | store address value =>
      cases hs
      exact follows_store h hl
  obtain ⟨last,hlead,hfollows⟩ := hmatched
  exact ⟨last,hlead,hlead.keeps VirtioDisk.serving_step hserving,hfollows⟩

/-- A step that leaves memory alone is confined. -/
theorem confined_of_same (hd : next.driver=machine.driver) (hr : next.ring=machine.ring)
    (hh : next.history=machine.history) (hm : next.memory=machine.memory) :
    Confined machine next :=
  ⟨hd,hr,hh,fun x hx => absurd (congrFun hm x) hx⟩

/-- The device stays in the used ring and the request. -/
theorem confined (hserving : Serving initial abstract) (h : Follows machine abstract)
    {action : Action} (ha : action.OfDevice) (hs : step machine action=some next) :
    Confined machine next := by
  cases action with
  | enter translate mmu call => cases ha
  | publish => cases ha
  | take =>
    obtain ⟨seen,hseen,rfl⟩ := Option.map_eq_some_iff.mp hs
    simp only [VirtioDisk.step] at hseen
    split at hseen
    · obtain ⟨job,-,rfl⟩ := Option.map_eq_some_iff.mp hseen
      exact confined_of_same rfl rfl rfl rfl
    · cases hseen
  | move i =>
    obtain ⟨seen,hseen,rfl⟩ := Option.map_eq_some_iff.mp hs
    cases hj : machine.device.job with
    | none =>
      simp only [VirtioDisk.step,Machine.seen,hj] at hseen
      cases hseen
    | some job =>
      obtain ⟨pending,settled,hd,hposted,-,hw⟩ := hserving.working (h.job.trans hj)
      have hpending := (h.visible hd).1.inCall
      have hhas : machine.seen.device.job=some job := hj
      simp only [VirtioDisk.step,hhas] at hseen
      split at hseen
      · rename_i hguard
        have hi := hguard.2.1
        rw [transfer,hw.data] at hseen
        rw [hw.data] at hi
        dsimp only at hseen hi
        split at hseen
        · rename_i hread
          cases hseen
          refine ⟨rfl,rfl,rfl,?_⟩
          intro x hx
          have hx' : x=pending.mmu pending.call.buffer+i := by
            by_contra hne
            exact hx (Function.update_of_ne hne _ _)
          have hwrite : pending.call.write=false := by
            have hnot := hread.2
            rwa [Bool.not_eq_true'] at hnot
          exact Or.inr ⟨pending,hpending,Or.inr ⟨hwrite,by omega,by omega⟩⟩
        · split at hseen
          · cases hseen
            exact confined_of_same rfl rfl rfl rfl
          · cases hseen
      · cases hseen
  | report status =>
    obtain ⟨seen,hseen,rfl⟩ := Option.map_eq_some_iff.mp hs
    cases hj : machine.device.job with
    | none =>
      simp only [VirtioDisk.step,Machine.seen,hj] at hseen
      cases hseen
    | some job =>
      obtain ⟨pending,settled,hd,hposted,-,hw⟩ := hserving.working (h.job.trans hj)
      have hpending := (h.visible hd).1.inCall
      simp only [VirtioDisk.step,Machine.seen,hj] at hseen
      split at hseen
      · rw [hw.status] at hseen
        cases hseen
        refine ⟨rfl,rfl,rfl,?_⟩
        intro x hx
        refine Or.inr ⟨pending,hpending,Or.inl ?_⟩
        by_contra hne
        exact hx (Function.update_of_ne hne _ _)
      · cases hseen
  | finish length =>
    obtain ⟨seen,hseen,rfl⟩ := Option.map_eq_some_iff.mp hs
    refine ⟨rfl,rfl,rfl,?_⟩
    intro x hx
    by_contra hno
    exact hx (completed_outside h.placed.pos length (fun hin => hno (Or.inl hin)))
  | rest =>
    obtain ⟨seen,hseen,rfl⟩ := Option.map_eq_some_iff.mp hs
    simp only [VirtioDisk.step] at hseen
    split at hseen
    · cases hseen
      exact confined_of_same rfl rfl rfl rfl
    · cases hseen
  | poll => cases ha
  | store address value => cases ha

end Runs

section Returns

variable {initial : BlockDevice} {machine next : Machine} {abstract : VirtioDisk.Machine}
  {pending : Pending} {action : Action}

/-- Steps of the call under way and of the device. -/
def Action.Ours : Action→Prop
  | .enter .. => False
  | .store .. => False
  | _ => True

/-- They are always legal. -/
theorem Action.Ours.legal (ha : action.Ours) : Legal machine action := by
  cases action with
  | enter translate mmu call => cases ha
  | store address value => cases ha
  | publish => trivial
  | take => trivial
  | move i => trivial
  | report status => trivial
  | finish length => trivial
  | rest => trivial
  | poll => trivial

instance : DecidablePred Action.Ours
  | .enter .. => inferInstanceAs (Decidable False)
  | .store .. => inferInstanceAs (Decidable False)
  | .publish => inferInstanceAs (Decidable True)
  | .take => inferInstanceAs (Decidable True)
  | .move _ => inferInstanceAs (Decidable True)
  | .report _ => inferInstanceAs (Decidable True)
  | .finish _ => inferInstanceAs (Decidable True)
  | .rest => inferInstanceAs (Decidable True)
  | .poll => inferInstanceAs (Decidable True)

/-- The call under way can be brought to its return. -/
def CanReturn (machine : Machine) : Prop :=
  ∃ more done,(∀ action∈more,action.Ours) ∧ run step machine more=some done ∧ done.driver=.idle

/-- One step before. -/
theorem canReturn_before (hs : step machine action=some next) (ha : action.Ours)
    (h : CanReturn next) : CanReturn machine := by
  obtain ⟨more,done,hours,hrun,hidle⟩ := h
  refine ⟨action::more,done,List.forall_mem_cons.mpr ⟨ha,hours⟩,?_,hidle⟩
  rw [run,hs]
  exact hrun

/-- Both machines as a run has left them. -/
def Paired (initial : BlockDevice) (machine : Machine) : Prop :=
  ∃ abstract,Serving initial abstract ∧ Follows machine abstract

/-- Their own steps are legal and keep that. -/
theorem Paired.steps (h : Paired initial machine) (hs : step machine action=some next)
    (ha : action.Ours) : Paired initial next := by
  obtain ⟨abstract,hrelated⟩ := h
  obtain ⟨last,-,hlast⟩ := follows_simulates initial machine action next abstract hrelated ha.legal hs
  exact ⟨last,hlast⟩

/-- The polling loop ends once the used index has moved. -/
theorem Paired.polls (h : Paired initial machine) (hd : machine.driver=.polling pending)
    (hused : machine.queue.usedIdx≠machine.ring.usedIdxShadow) : CanReturn machine := by
  obtain ⟨abstract,hserving,hfollows⟩ := h
  have hv := (phase_polling hd).mp hfollows.phase
  refine ⟨[.poll],{machine with
    ring := reclaim machine.ring pending.submitted
    driver := .idle
    history := machine.history++[pending.outcome machine.memory]},?_,?_,rfl⟩
  · intro action ha
    rw [List.mem_singleton] at ha
    rw [ha]
    trivial
  · rw [run]
    simp only [step,hd,load_used hfollows.placed hv.maps,if_neg hused]
    rfl

/-- The device moves the used index when it has written the status byte. -/
theorem Paired.finishes (h : Paired initial machine) (hd : machine.driver=.polling pending)
    {job : Job} (hj : machine.device.job=some job) (hr : job.reported=true) :
    CanReturn machine := by
  have hpaired := h
  obtain ⟨abstract,hserving,hfollows⟩ := h
  obtain ⟨other,settled,-,-,-,hw⟩ := hserving.working (hfollows.job.trans hj)
  obtain ⟨-,hv⟩ := hfollows.visible ((phase_polling hd).mp hfollows.phase).driver
  have hshadow : machine.queue.usedIdx=machine.ring.usedIdxShadow := by
    have hused := hw.used
    rw [hv.shared.queue] at hused
    exact hused
  have hs : step machine (.finish 0)=some {machine with
      memory := machine.completed 0
      device := {machine.device with index := u16 (machine.device.index+1),job := none}} := by
    simp only [step,VirtioDisk.step,Machine.seen,hj,if_pos hr]
    rfl
  have hindex := congrArg VirtioBlock.Vring.usedIdx (queue_completed hfollows.placed.pos 0)
  refine canReturn_before hs trivial ((hpaired.steps hs trivial).polls hd ?_)
  change (queueOf machine.base machine.qmax machine.ring (machine.completed 0)).usedIdx≠_
  rw [hindex]
  dsimp only
  rw [hshadow]
  exact VirtioRing.u16_succ_ne _

/-- It can always give up what it works on. -/
theorem Paired.reports (h : Paired initial machine) (hd : machine.driver=.polling pending)
    {job : Job} (hj : machine.device.job=some job) : CanReturn machine := by
  by_cases hr : job.reported=true
  · exact h.finishes hd hj hr
  · rw [Bool.not_eq_true] at hr
    have hguard : job.reported=false ∧ ((1 : UInt8)=0 → ∀ i<job.data.len,job.moved i=true) :=
      ⟨hr,fun he => absurd he (by decide)⟩
    have hs : step machine (.report 1)=some {machine with
        memory := Function.update machine.memory job.status.addr 1
        device := {machine.device with job := some {job with reported := true}}} := by
      simp only [step,Machine.serves,VirtioDisk.step,Machine.seen,hj,if_pos hguard]
      rfl
    exact canReturn_before hs trivial ((h.steps hs trivial).finishes hd rfl rfl)

/-- A call in the polling loop can return. -/
theorem Paired.polling (h : Paired initial machine) (hd : machine.driver=.polling pending) :
    CanReturn machine := by
  by_cases hused : machine.queue.usedIdx=machine.ring.usedIdxShadow
  · cases hj : machine.device.job with
    | some job => exact h.reports hd hj
    | none =>
      have hpaired := h
      obtain ⟨abstract,hserving,hfollows⟩ := h
      have hv := (phase_polling hd).mp hfollows.phase
      obtain ⟨hindex,hposted,settled,-,hstage⟩ :=
        (VirtioDisk.serving_polling hv.driver).mp hserving
      have hshadow : machine.queue.usedIdxShadow=machine.ring.usedIdxShadow := rfl
      have hahead := hposted.ahead_ne
      rw [hv.shared.queue] at hahead hindex
      rcases hstage.job_none (hfollows.job.trans hj) with hw|hf
      · have hne : machine.device.index≠machine.queue.availIdx := by
          rw [←hfollows.index,hindex,hused]
          exact fun he => hahead he.symm
        have hrunning := hfollows.awake pending hd hne
        have hfound : VirtioDisk.entry machine.queue machine.device.index=pending.segments := by
          have hentry := hposted.found
          rw [hv.shared.queue] at hentry
          rw [←hfollows.index,hindex,hused]
          exact hentry
        have hbelow : received machine.memory pending.segments=some pending.job :=
          received_congr (fun i hi => hv.shared.memory _ (hv.clear hposted
            (Or.inl ⟨Nat.le_add_right _ _,by omega⟩))) (hw.received hposted)
        have hs : step machine .take=some {machine with
            device := {machine.device with job := some pending.job}} := by
          have hguard : machine.seen.device.running=true ∧ machine.seen.device.job.isNone ∧
              machine.seen.device.index≠machine.seen.queue.availIdx :=
            ⟨hrunning,by rw [show machine.seen.device.job=none from hj]; rfl,hne⟩
          simp only [step,Machine.serves,VirtioDisk.step,if_pos hguard]
          change Option.map _ (Option.map _ (received machine.memory
            (VirtioDisk.entry machine.queue machine.device.index)))=_
          rw [hfound,hbelow]
          rfl
        exact canReturn_before hs trivial ((hpaired.steps hs trivial).reports hd rfl)
      · have hgone := hf.used
        rw [hv.shared.queue,hused] at hgone
        exact absurd hgone.symm hahead
  · exact h.polls hd hused

/-- A call at the available ring can return. -/
theorem Paired.entering {todo : List Store} (h : Paired initial machine)
    (hd : machine.driver=.entering pending todo) : CanReturn machine := by
  induction todo generalizing machine with
  | nil =>
    have hs : step machine .publish=some {machine with
        device := {machine.device with running := true}
        driver := .polling pending} := by
      simp only [step,hd]
    exact canReturn_before hs trivial ((h.steps hs trivial).polling rfl)
  | cons store todo ih =>
    have hs : step machine .publish=some {machine with
        memory := store.apply pending.mmu machine.memory
        driver := .entering pending todo} := by
      simp only [step,hd]
    exact canReturn_before hs trivial (ih (h.steps hs trivial) rfl)

/-- A call at its descriptors can return. -/
theorem Paired.describing {todo : List Store} (h : Paired initial machine)
    (hd : machine.driver=.describing pending todo) : CanReturn machine := by
  induction todo generalizing machine with
  | nil =>
    have hs : step machine .publish=some {machine with
        driver := .entering pending (availStores machine.ring pending.submitted.d0
          (loadWord pending.mmu machine.memory (machine.ring.avail+2) 2))} := by
      simp only [step,hd]
    exact canReturn_before hs trivial ((h.steps hs trivial).entering rfl)
  | cons store todo ih =>
    have hs : step machine .publish=some {machine with
        memory := store.apply pending.mmu machine.memory
        driver := .describing pending todo} := by
      simp only [step,hd]
    exact canReturn_before hs trivial (ih (h.steps hs trivial) rfl)

/-- Every call can. -/
theorem Paired.returns (h : Paired initial machine) : CanReturn machine := by
  cases hd : machine.driver with
  | idle => exact ⟨[],machine,fun _ ha => (List.not_mem_nil ha).elim,rfl,hd⟩
  | describing pending todo => exact h.describing hd
  | entering pending todo => exact h.entering hd
  | polling pending => exact h.polling hd

end Returns

section Service

variable {initial : BlockDevice} {machine : Machine} {abstract : VirtioDisk.Machine}

/-- The disk of the device against that of the calls that have returned: a
write under way may have stored some of its bytes. -/
def Current (settled : BlockDevice) (machine : Machine) : Prop :=
  match machine.driver.pending with
  | none => machine.disk=settled
  | some pending =>
    if pending.call.write=true then Partly settled pending.call.lba pending.sent machine.disk
    else machine.disk=settled

/-- The calls that have returned are those of a disk. -/
theorem Follows.current (hserving : Serving initial abstract) (h : Follows machine abstract) :
    ∃ settled,Replays initial machine.history settled ∧ Current settled machine := by
  cases hd : abstract.driver with
  | idle =>
    obtain ⟨-,-,-,-,-,hreplays⟩ := (VirtioDisk.serving_idle hd).mp hserving
    rw [h.history,h.disk] at hreplays
    refine ⟨machine.disk,hreplays,?_⟩
    rw [Current]
    split
    · rfl
    · split
      · exact ⟨rfl,fun _ => false,storeMarked_none.symm,fun i hi => by cases hi⟩
      · rfl
  | polling pending =>
    obtain ⟨settled,hreplays,hcurrent⟩ := hserving.current
    rw [h.history] at hreplays
    rw [VirtioDisk.Current,hd,h.disk] at hcurrent
    refine ⟨settled,hreplays,?_⟩
    rw [Current,(h.visible hd).1.inCall]
    exact hcurrent

/-- The window of physical memory, beside an identity mapping. -/
def sampleWindow (address : ℕ) : ℕ :=
  if address<physicalMappingBase then address else address-physicalMappingBase

/-- A queue of three descriptors in the pages from 0x10000 on. -/
def sampleMachine : Machine where
  ring := ⟨3,0xffffff0000010000,0xffffff0000010030,0xffffff0000011000,0,fun i => 3-1-i,3⟩
  qmax := 3
  pfn := 16
  memory := Store.apply sampleWindow
    (Store.apply sampleWindow (fun x => UInt8.ofNat x) ⟨0xffffff0000011002,2,0⟩)
    ⟨0xffffff0000010032,2,0⟩
  disk := VirtioDisk.sampleDisk
  device := ⟨0,false,none⟩
  driver := .idle
  history := []

/-- A write of sector 1, published in sixteen steps between which the device
looks, and broken off by it after one byte. -/
def sampleActions : List Action :=
  .enter .ok sampleWindow (VirtioBlock.writeCall 1 512 0x4007 0x9000 0x9010)::
    (List.replicate 7 Action.publish).append (.rest::
      (List.replicate 9 Action.publish).append
        [.take,.move 4,.report 1,.finish 1,.rest,.poll])

/-- Steps of the call under way and of the device are legal. -/
theorem each_ours {machine : Machine} {actions : List Action} (h : ∀ action∈actions,action.Ours) :
    Each step Legal machine actions := by
  induction actions generalizing machine with
  | nil => trivial
  | cons action rest ih =>
    obtain ⟨ha,hr⟩ := List.forall_mem_cons.mp h
    exact ⟨Action.Ours.legal ha,fun _ _ => ih hr⟩

/-- The sample machine has been set up. -/
theorem sampleMachine_ready : Ready sampleMachine := by
  have hdesc : u64 (0x10000+physicalMappingBase)=0xffffff0000010000 := by decide
  have havail : u64 (0xffffff0000010000+16*3)=0xffffff0000010030 := by decide
  have hused : alignUp (u64 (0xffffff0000010030+4+2*3))=0xffffff0000011000 := by decide
  have hsetup : setupQueue0 sampleWindow 0 3 0x10000 (fun x => UInt8.ofNat x)=
      some (sampleMachine.ring,sampleMachine.memory,sampleMachine.pfn) := by
    rw [setupQueue0,if_neg (by decide),if_neg (by decide)]
    dsimp only
    rw [hdesc,havail,hused]
    rfl
  refine ⟨⟨sampleWindow,0x10000,fun x => UInt8.ofNat x,hsetup,by decide,by decide,?_⟩,by decide,
    rfl,rfl,rfl⟩
  intro i hi
  have hbase : physicalMappingBase=0xffffff0000000000 := rfl
  rw [hdesc,sampleWindow,if_neg (by omega)]
  omega

/-- Its call may be made. -/
theorem sampleCall_legal : Legal sampleMachine
    (.enter .ok sampleWindow (VirtioBlock.writeCall 1 512 0x4007 0x9000 0x9010)) := by
  have hlow : ∀ address<0x10000,sampleWindow address=address := by
    intro address ha
    have hbase : physicalMappingBase=0xffffff0000000000 := rfl
    rw [sampleWindow,if_pos (by omega)]
  have hout : ∀ address<0x10000,¬sampleMachine.InRing (sampleWindow address) := by
    intro address ha hin
    rw [hlow address ha] at hin
    have hfirst : 0x10000≤address := hin.1
    omega
  refine ⟨?_,⟨fun i hi => hout _ ?_,fun i hi => hout _ ?_,hout _ ?_⟩,fun _ _ => ?_⟩
  · intro i hi
    have hbase : sampleMachine.ring.desc=physicalMappingBase+0x10000 := rfl
    have hpages : sampleMachine.base=0x10000 := rfl
    rw [hbase,hpages,sampleWindow,if_neg (by omega)]
    omega
  · change 0x9000+i<0x10000
    omega
  · change i<512 at hi
    change 0x4007+i<0x10000
    omega
  · decide
  · refine ⟨⟨by decide,rfl,rfl,rfl,?_,?_,by decide,by decide,by decide⟩,by decide,by decide,
      by decide,by decide⟩
    · intro i hi
      change sampleWindow (0x9000+i)=sampleWindow 0x9000+i
      rw [hlow _ (by omega),hlow _ (by omega)]
    · intro i hi
      change i<512 at hi
      change sampleWindow (0x4007+i)=sampleWindow 0x4007+i
      rw [hlow _ (by omega),hlow _ (by omega)]

/-- The virtio driver stores its requests byte by byte into memory the device
reads at addresses of its own. In every interleaving of single stores, device
and other code the calls that have returned are those of a disk read and
written in one piece, as in a run of the machine that publishes a request at
once; the device stores nowhere but into the used ring and the request; and
the call under way can be brought to its return. -/
theorem ring_bytes_refine_disk {machine last : Machine} (h : Ready machine)
    {actions : List Action} (hl : Each step Legal machine actions)
    (hr : run step machine actions=some last) :
    (∃ above,Leads VirtioDisk.step VirtioDisk.Legal machine.seen above ∧
        above.history=last.history ∧ above.disk=last.disk) ∧
      (∃ settled,Replays machine.disk last.history settled ∧ Current settled last) ∧
      (∀ action next,action.OfDevice → step last action=some next → Confined last next) ∧
      CanReturn last := by
  have hserving : Serving machine.disk machine.seen := h.above.serving
  obtain ⟨above,hlead,hserved,hfollows⟩ :=
    (follows_simulates machine.disk).run ⟨hserving,h.follows⟩ hl hr
  refine ⟨⟨above,hlead,hfollows.history,hfollows.disk⟩,hfollows.current hserved,
    fun _ _ ha hs => confined hserved hfollows ha hs,?_⟩
  exact Paired.returns ⟨above,hserved,hfollows⟩

/-- The write that is broken off. -/
theorem ring_bytes_refine_disk_broken : ∃ last,run step sampleMachine sampleActions=some last ∧
    last.disk.image 516=11 ∧ last.disk.image 517=0 ∧
    (∃ settled,Replays sampleMachine.disk last.history settled ∧ Current settled last) ∧
    CanReturn last := by
  have hl : Each step Legal sampleMachine sampleActions :=
    ⟨sampleCall_legal,fun _ _ => each_ours (by decide)⟩
  have hrun : (run step sampleMachine sampleActions).map
      (fun last => (last.disk.image 516,last.disk.image 517))=some (11,0) := by
    decide +kernel
  obtain ⟨last,hlast,hfound⟩ := Option.map_eq_some_iff.mp hrun
  rw [Prod.mk.injEq] at hfound
  obtain ⟨-,hcalls,-,hreturns⟩ := ring_bytes_refine_disk sampleMachine_ready hl hlast
  exact ⟨last,hlast,hfound.1,hfound.2,hcalls,hreturns⟩

end Service

end WorkbenchOS.VirtioMemory
