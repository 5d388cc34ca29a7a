import WorkbenchOS.VirtioRequests
import WorkbenchOS.VirtioTransfers

/-!
# The block device refines a disk

What a run of driver, device and the rest of the kernel amounts to: the calls
that have returned read and wrote a disk in one piece each, the device stays
in the memory and the sectors of the request, and every request can be brought
to an end.
-/

namespace WorkbenchOS.VirtioDisk

open ByteMemory Fat32 LibStd TransitionRuns VirtioBlock VirtioDescriptors
open VirtioRing (u16_succ_ne)

section Device

variable {initial settled : BlockDevice} {machine next : Machine} {pending : Pending}

/-- A step that changes neither memory nor disk is confined. -/
theorem confined_of_same (hd : next.driver=machine.driver) (hh : next.history=machine.history)
    (hm : next.memory=machine.memory) (hi : next.disk=machine.disk) : Confined machine next :=
  ⟨hd,hh,fun x hx => absurd (congrFun hm x) hx,fun x hx => absurd (congrFun (by rw [hi]) x) hx⟩

/-- A byte of the transfer is confined. -/
theorem Working.confined {job : Job} (h : Working settled machine pending job)
    (hd : machine.driver=.polling pending) {i : ℕ} (hi : i<pending.call.bytes)
    (hs : transfer machine job i=some next) : Confined machine next := by
  have hplace : job.hdr.sector*512+i=pending.call.lba*512+i := by
    rw [h.hdr]
    rfl
  have haddr : job.data.addr=pending.mmu pending.call.buffer := by rw [h.data]
  have hflag : job.data.deviceWrites=!pending.call.write := by rw [h.data]
  rw [transfer,hplace,haddr,hflag] at hs
  dsimp only at hs
  split at hs
  · rename_i hread
    have hw : pending.call.write=false := by
      have hnot := hread.2
      cases hw : pending.call.write with
      | false => rfl
      | true =>
        rw [hw] at hnot
        cases hnot
    cases hs
    refine ⟨rfl,rfl,?_,fun x hx => absurd rfl hx⟩
    intro x hx
    have hx' : x=pending.mmu pending.call.buffer+i := by
      by_contra hne
      exact hx (Function.update_of_ne hne _ _)
    exact ⟨pending,hd,Or.inr ⟨hw,by omega,by omega⟩⟩
  · split at hs
    · rename_i hwrite
      have hw : pending.call.write=true := by
        have hnot := hwrite.2
        cases hw : pending.call.write with
        | false =>
          rw [hw] at hnot
          cases hnot
        | true => rfl
      cases hs
      refine ⟨rfl,rfl,fun x hx => absurd rfl hx,?_⟩
      intro x hx
      have hx' : x=pending.call.lba*512+i := by
        by_contra hne
        exact hx (Function.update_of_ne hne _ _)
      exact ⟨pending,hd,hw,by omega,by omega⟩
    · cases hs

/-- Every step of the device is. -/
theorem Serving.confined (h : Serving initial machine) {action : Action}
    (ha : action.OfDevice) (hs : step machine action=some next) : Confined machine next := by
  cases action with
  | submit translate mmu call => cases ha
  | take =>
    simp only [step] at hs
    split at hs
    · obtain ⟨job,-,rfl⟩ := Option.map_eq_some_iff.mp hs
      exact confined_of_same rfl rfl rfl rfl
    · cases hs
  | move i =>
    cases hj : machine.device.job with
    | none =>
      simp only [step,hj] at hs
      cases hs
    | some job =>
      simp only [step,hj] at hs
      split at hs
      · rename_i hguard
        obtain ⟨pending,settled,hd,-,-,hw⟩ := h.working hj
        have hi := hguard.2.1
        rw [hw.data] at hi
        exact hw.confined hd hi hs
      · cases hs
  | report status =>
    cases hj : machine.device.job with
    | none =>
      simp only [step,hj] at hs
      cases hs
    | some job =>
      simp only [step,hj] at hs
      split at hs
      · obtain ⟨pending,settled,hd,-,-,hw⟩ := h.working hj
        have haddr : job.status.addr=pending.mmu pending.call.status := by rw [hw.status]
        rw [haddr] at hs
        cases hs
        refine ⟨rfl,rfl,?_,fun x hx => absurd rfl hx⟩
        intro x hx
        refine ⟨pending,hd,Or.inl ?_⟩
        by_contra hne
        exact hx (Function.update_of_ne hne _ _)
      · cases hs
  | finish =>
    cases hj : machine.device.job with
    | none =>
      simp only [step,hj] at hs
      cases hs
    | some job =>
      simp only [step,hj] at hs
      split at hs
      · cases hs
        exact confined_of_same rfl rfl rfl rfl
      · cases hs
  | rest =>
    simp only [step] at hs
    split at hs
    · cases hs
      exact confined_of_same rfl rfl rfl rfl
    · cases hs
  | poll => cases ha
  | store address value => cases ha

end Device

section Service

variable {initial settled : BlockDevice} {machine next : Machine} {pending : Pending} {job : Job}

/-- The machine has the driver and the history of another. -/
structure Meanwhile (machine next : Machine) : Prop where
  /-- The ring is that of before. -/
  queue : next.queue=machine.queue
  /-- So is the driver. -/
  driver : next.driver=machine.driver
  /-- So is the history. -/
  history : next.history=machine.history

/-- The polling loop ends when the used index has moved. -/
theorem poll_returns (hd : machine.driver=.polling pending)
    (hu : machine.queue.usedIdx≠machine.queue.usedIdxShadow) :
    ∃ done,step machine .poll=some done ∧ done.driver=.idle ∧
      done.history=machine.history++[pending.outcome machine.memory] := by
  simp only [step,hd,if_neg hu]
  exact ⟨_,rfl,rfl,rfl⟩

/-- A reported request returns. -/
theorem Working.finishes (h : Working settled machine pending job)
    (hd : machine.driver=.polling pending) (hr : job.reported=true) :
    ∃ done,run step machine [.finish,.poll]=some done ∧ done.driver=.idle ∧
      done.history=machine.history++[pending.outcome machine.memory] := by
  have hfinish : step machine .finish=some {machine with
      queue := {machine.queue with usedIdx := u16 (machine.queue.usedIdx+1)}
      device := {machine.device with index := u16 (machine.device.index+1),job := none}} := by
    simp only [step,h.has,if_pos hr]
  have hu : u16 (machine.queue.usedIdx+1)≠machine.queue.usedIdxShadow := by
    rw [h.used]
    exact u16_succ_ne _
  obtain ⟨done,hpoll,hidle,hhistory⟩ := @poll_returns {machine with
      queue := {machine.queue with usedIdx := u16 (machine.queue.usedIdx+1)}
      device := {machine.device with index := u16 (machine.device.index+1),job := none}}
    pending hd hu
  refine ⟨done,?_,hidle,hhistory⟩
  simp only [run,hfinish,hpoll,Option.bind_some]

/-- A request is reported and returns. Success is reported when everything is
transferred. -/
theorem Working.reports (h : Working settled machine pending job)
    (hp : Posted machine.queue pending) (hd : machine.driver=.polling pending)
    (hr : job.reported=false) {status : UInt8}
    (hall : status=0 → ∀ i<pending.call.bytes,job.moved i=true) :
    ∃ done outcome,run step machine [.report status,.finish,.poll]=some done ∧
      done.driver=.idle ∧ done.history=machine.history++[outcome] ∧
      outcome.call=pending.call ∧ (status=0 → outcome.result=.ok ()) := by
  have hlen : job.data.len=pending.call.bytes := by rw [h.data]
  have haddr : job.status.addr=pending.mmu pending.call.status := by rw [h.status]
  have hreport : step machine (.report status)=some {machine with
      memory := Function.update machine.memory (pending.mmu pending.call.status) status
      device := {machine.device with job := some {job with reported := true}}} := by
    simp only [step,h.has]
    rw [if_pos ⟨hr,by rw [hlen]; exact hall⟩,haddr]
  have hworking : Working settled {machine with
      memory := Function.update machine.memory (pending.mmu pending.call.status) status
      device := {machine.device with job := some {job with reported := true}}} pending
      {job with reported := true} := by
    refine ⟨h.used,rfl,h.hdr,h.data,h.status,h.progress.frame rfl ?_,?_⟩
    · intro i hi
      exact Function.update_of_ne (hp.status_beside.1 hi) _ _
    · intro _ hzero
      dsimp only at hzero
      rw [Function.update_self] at hzero
      exact hall hzero
  obtain ⟨done,hrun,hidle,hhistory⟩ := hworking.finishes hd rfl
  refine ⟨done,_,?_,hidle,hhistory,rfl,?_⟩
  · simp only [run,hreport,Option.bind_some] at hrun ⊢
    exact hrun
  · intro hzero
    refine if_pos ?_
    dsimp only
    rw [Function.update_self]
    exact hzero

/-- The transfer of a byte is enabled. -/
theorem Working.enabled (h : Working settled machine pending job) (i : ℕ) :
    ∃ next,transfer machine job i=some next := by
  have htype : job.hdr.type=if pending.call.write then 1 else 0 := by
    rw [h.hdr]
    rfl
  have hflag : job.data.deviceWrites=!pending.call.write := by rw [h.data]
  cases hw : pending.call.write with
  | false =>
    rw [hw] at htype hflag
    exact ⟨_,if_pos ⟨htype,hflag⟩⟩
  | true =>
    rw [hw] at htype hflag
    refine ⟨_,(if_neg ?_).trans (if_pos ⟨htype,hflag⟩)⟩
    rintro ⟨hz,-⟩
    rw [htype] at hz
    cases hz

/-- The device can transfer as many bytes as there are. -/
theorem Working.transfers (h : Working settled machine pending job)
    (hp : Posted machine.queue pending) (hr : job.reported=false)
    (hfits : Call.place pending.call+pending.call.bytes≤ settled.sectors*512) {n : ℕ}
    (hn : n≤pending.call.bytes) :
    ∃ next after,run step machine ((List.range n).map .move)=some next ∧
      Working settled next pending after ∧ after.reported=false ∧
      (∀ i<n,after.moved i=true) ∧ Meanwhile machine next := by
  induction n with
  | zero => exact ⟨machine,job,rfl,h,hr,fun i hi => absurd hi (Nat.not_lt_zero i),rfl,rfl,rfl⟩
  | succ n ih =>
    obtain ⟨middle,reached,hrun,hw,hreported,hmoved,hsame⟩ := ih (by omega)
    have hpm : Posted middle.queue pending := hsame.queue ▸ hp
    have hjobFits : reached.Fits middle.disk.sectors := by
      rw [Job.Fits,hw.hdr,hw.data,hw.progress.sectors]
      exact hfits
    obtain ⟨next,hnext⟩ := hw.enabled n
    obtain ⟨hwn,hq,hd,hh,-⟩ := hw.move hpm (by omega) hjobFits hreported hnext
    refine ⟨next,_,?_,hwn,hreported,?_,hq.trans hsame.queue,hd.trans hsame.driver,
      hh.trans hsame.history⟩
    · have hlen : reached.data.len=pending.call.bytes := by rw [hw.data]
      have hstep : step middle (.move n)=some next := by
        simp only [step,hw.has]
        rw [if_pos ⟨hreported,by omega,hjobFits⟩,hnext]
      rw [List.range_succ,List.map_append,run_append,hrun,Option.bind_some]
      simp only [List.map_cons,List.map_nil,run,hstep,Option.bind_some]
    · intro i hi
      dsimp only
      by_cases hin : i=n
      · rw [hin,Function.update_self]
      · rw [Function.update_of_ne hin]
        exact hmoved i (by omega)

/-- The device can take a request that waits. -/
theorem Waiting.taken (h : Waiting settled machine pending) (hp : Posted machine.queue pending)
    (hindex : machine.device.index=machine.queue.usedIdx) :
    step machine .take=some (machine.takes pending.job) := by
  have hne : machine.device.index≠machine.queue.availIdx := by
    rw [hindex,h.used]
    exact hp.ahead_ne.symm
  have hentry : entry machine.queue machine.device.index=pending.segments := by
    rw [hindex,h.used,hp.found]
  simp only [step]
  rw [if_pos ⟨h.running,by rw [h.job]; rfl,hne⟩,hentry,h.received hp]
  rfl

/-- Whatever the state of a request, the device can bring it to an end. -/
theorem Serving.returns (h : Serving initial machine) (hd : machine.driver=.polling pending) :
    ∃ more done,(∀ action∈more,action.OfDevice ∨ action=.poll) ∧
      run step machine more=some done ∧ done.driver=.idle := by
  obtain ⟨hindex,hposted,settled,-,hstage⟩ := (serving_polling hd).mp h
  have hfailed : ∀ moved : ℕ→Bool,(1 : UInt8)=0 → ∀ i<pending.call.bytes,moved i=true := by
    intro moved hz
    cases hz
  cases hstage with
  | waiting hw =>
    obtain ⟨done,-,hrun,hidle,-⟩ := hw.takes.reports hposted hd rfl (hfailed _)
    refine ⟨[.take,.report 1,.finish,.poll],done,?_,?_,hidle⟩
    · simp [Action.OfDevice]
    · rw [run,hw.taken hposted hindex,Option.bind_some]
      exact hrun
  | working job hw =>
    cases hr : job.reported with
    | false =>
      obtain ⟨done,-,hrun,hidle,-⟩ := hw.reports hposted hd hr (hfailed _)
      refine ⟨_,done,?_,hrun,hidle⟩
      simp [Action.OfDevice]
    | true =>
      obtain ⟨done,hrun,hidle,-⟩ := hw.finishes hd hr
      refine ⟨_,done,?_,hrun,hidle⟩
      simp [Action.OfDevice]
  | finished hf =>
    have hne : machine.queue.usedIdx≠machine.queue.usedIdxShadow := by
      rw [hf.used]
      exact hposted.ahead_ne
    obtain ⟨done,hpoll,hidle,-⟩ := poll_returns hd hne
    refine ⟨[.poll],done,?_,?_,hidle⟩
    · simp [Action.OfDevice]
    · simp only [run,hpoll,Option.bind_some]

/-- A request in the ring for sectors that exist can be served. -/
theorem Serving.served (h : Serving initial machine) (hd : machine.driver=.polling pending)
    (hu : machine.queue.usedIdx=machine.queue.usedIdxShadow)
    (hj : machine.device.job=none)
    (hfits : Call.place pending.call+pending.call.bytes≤ machine.disk.sectors*512) :
    ∃ more done outcome,(∀ action∈more,action.OfDevice ∨ action=.poll) ∧
      run step machine more=some done ∧ done.driver=.idle ∧
      done.history=machine.history++[outcome] ∧ outcome.call=pending.call ∧
      outcome.result=.ok () := by
  obtain ⟨hindex,hposted,settled,-,hstage⟩ := (serving_polling hd).mp h
  rcases hstage.job_none hj with hw|hf
  · have htake := hw.taken hposted hindex
    rw [hw.progress.sectors] at hfits
    obtain ⟨moved,after,hmoves,hafter,hreported,hall,hsame⟩ :=
      hw.takes.transfers hposted rfl hfits le_rfl
    have hpm : Posted moved.queue pending := by
      rw [hsame.queue]
      exact hposted
    have hdm : moved.driver=.polling pending := hsame.driver.trans hd
    obtain ⟨done,outcome,hrun,hidle,hhistory,hcall,hok⟩ :=
      hafter.reports hpm hdm hreported (fun _ => hall)
    refine ⟨.take::((List.range pending.call.bytes).map .move++[.report 0,.finish,.poll]),done,
      outcome,?_,?_,hidle,?_,hcall,hok rfl⟩
    · intro action ha
      simp only [List.mem_cons,List.mem_append,List.mem_map,List.not_mem_nil,or_false] at ha
      rcases ha with rfl|⟨i,-,rfl⟩|rfl|rfl|rfl
      · exact Or.inl trivial
      · exact Or.inl trivial
      · exact Or.inl trivial
      · exact Or.inl trivial
      · exact Or.inr rfl
    · rw [run,htake,Option.bind_some,run_append,hmoves,Option.bind_some]
      exact hrun
    · rw [hhistory,hsame.history]
      rfl
  · exact absurd (hf.used.symm.trans hu) hposted.ahead_ne

end Service

section Kernel

open MemoryManagement KernelHeap KernelTranslation VirtioTransfers

variable {manager : MemoryManager} {address length : ℕ} {call : Call}

/-- What the processor finds through the page tables of the kernel. -/
def kernelMmu (manager : MemoryManager) (address : ℕ) : ℕ := (kernelWalk manager address).getD 0

/-- An address whose page the driver finds is translated to where the
processor finds it. -/
theorem translateKernel_mmu (h : FirstPageFound manager address) :
    translateKernel manager address=.ok (kernelMmu manager address) := by
  obtain ⟨physical,ht,hw⟩ := (firstPageFound_iff manager address).mp h
  rw [translateKernel,ht,kernelMmu,hw]
  rfl

/-- Memory in consecutive frames is in one piece. -/
theorem kernelMmu_whole (h : FirstPageFound manager address)
    (hc : ConsecutiveFrames manager address length) {i : ℕ} (hi : i<length) :
    kernelMmu manager (address+i)=kernelMmu manager address+i := by
  have hfirst := kernelWalk_byte h.frame hc (Nat.zero_lt_of_lt hi)
  rw [kernelMmu,kernelMmu,kernelWalk_byte h.frame hc hi]
  rw [Nat.add_zero,Nat.add_zero] at hfirst
  rw [hfirst]
  rfl

/-- The calls whose memory the page tables of the kernel hold in one piece
are published for what they are. -/
theorem reaches_kernel (hlba : call.lba<2^64) (hh : FirstPageFound manager call.header)
    (hb : FirstPageFound manager call.buffer) (hs : FirstPageFound manager call.status)
    (hch : ConsecutiveFrames manager call.header 16)
    (hcb : ConsecutiveFrames manager call.buffer call.bytes)
    (h1 : Apart (kernelMmu manager call.header) 16 (kernelMmu manager call.buffer) call.bytes)
    (h2 : Apart (kernelMmu manager call.status) 1 (kernelMmu manager call.header) 16)
    (h3 : Apart (kernelMmu manager call.status) 1 (kernelMmu manager call.buffer) call.bytes) :
    Reaches (translateKernel manager) (kernelMmu manager) call where
  lba := hlba
  header := translateKernel_mmu hh
  buffer := translateKernel_mmu hb
  status := translateKernel_mmu hs
  headerWhole := fun _ hi => kernelMmu_whole hh hch hi
  bufferWhole := fun _ hi => kernelMmu_whole hb hcb hi
  headerBuffer := h1
  statusHeader := h2
  statusBuffer := h3

end Kernel

/-- A polling call can be brought to its return, and if the device has not
begun and the sectors exist, to its success. -/
structure Answered (machine : Machine) (pending : Pending) : Prop where
  /-- The call can return. -/
  returns : ∃ more done,(∀ action∈more,action.OfDevice ∨ action=.poll) ∧
    run step machine more=some done ∧ done.driver=.idle
  /-- It can succeed. -/
  succeeds : machine.queue.usedIdx=machine.queue.usedIdxShadow → machine.device.job=none →
    Call.place pending.call+pending.call.bytes≤ machine.disk.sectors*512 →
    ∃ more done outcome,(∀ action∈more,action.OfDevice ∨ action=.poll) ∧
      run step machine more=some done ∧ done.driver=.idle ∧
      done.history=machine.history++[outcome] ∧ outcome.call=pending.call ∧
      outcome.result=.ok ()

instance decidableApart (first firstSize second secondSize : ℕ) :
    Decidable (Apart first firstSize second secondSize) :=
  inferInstanceAs (Decidable (_∨_))

instance (translate : ℕ→Except Error ℕ) (mmu : ℕ→ℕ) (call : Call) :
    Decidable (Reaches translate mmu call) :=
  decidable_of_iff (call.lba<2^64 ∧ translate call.header=.ok (mmu call.header) ∧
      translate call.buffer=.ok (mmu call.buffer) ∧
      translate call.status=.ok (mmu call.status) ∧
      (∀ i<16,mmu (call.header+i)=mmu call.header+i) ∧
      (∀ i<call.bytes,mmu (call.buffer+i)=mmu call.buffer+i) ∧
      Apart (mmu call.header) 16 (mmu call.buffer) call.bytes ∧
      Apart (mmu call.status) 1 (mmu call.header) 16 ∧
      Apart (mmu call.status) 1 (mmu call.buffer) call.bytes)
    ⟨fun ⟨h1,h2,h3,h4,h5,h6,h7,h8,h9⟩ => ⟨h1,h2,h3,h4,h5,h6,h7,h8,h9⟩,
      fun h => ⟨h.lba,h.header,h.buffer,h.status,h.headerWhole,h.bufferWhole,h.headerBuffer,
        h.statusHeader,h.statusBuffer⟩⟩

instance (pending : Pending) (address : ℕ) : Decidable (pending.Holds address) :=
  inferInstanceAs (Decidable (_∨_))

/-- A store passes by when no request is in flight, or by the one that is. -/
theorem legal_store_iff (machine : Machine) (address : ℕ) (value : UInt8) :
    Legal machine (.store address value) ↔
      match machine.driver with
      | .idle => True
      | .polling pending => ¬pending.Holds address := by
  cases hd : machine.driver with
  | idle =>
    refine ⟨fun _ => trivial,fun _ pending hp => ?_⟩
    rw [hd] at hp
    cases hp
  | polling pending =>
    refine ⟨fun h => h pending hd,fun h other hp => ?_⟩
    rw [hd] at hp
    cases hp
    exact h

instance decidablePasses (machine : Machine) (address : ℕ) :
    Decidable (match machine.driver with
      | .idle => True
      | .polling pending => ¬pending.Holds address) :=
  match machine.driver with
  | .idle => inferInstanceAs (Decidable True)
  | .polling _ => inferInstanceAs (Decidable (¬_))

instance decidableLegal : ∀ machine action,Decidable (Legal machine action)
  | _,.submit .. => inferInstanceAs (Decidable (_→_))
  | machine,.store address value =>
    decidable_of_iff _ (legal_store_iff machine address value).symm
  | _,.take => inferInstanceAs (Decidable True)
  | _,.move _ => inferInstanceAs (Decidable True)
  | _,.report _ => inferInstanceAs (Decidable True)
  | _,.finish => inferInstanceAs (Decidable True)
  | _,.rest => inferInstanceAs (Decidable True)
  | _,.poll => inferInstanceAs (Decidable True)

/-- Four sectors of zeros. -/
def sampleDisk : BlockDevice := ⟨fun _ => 0,4,by decide⟩

/-- A machine with a queue of three descriptors. -/
def sampleMachine : Machine where
  queue := freshQueue 3
  memory := fun x => UInt8.ofNat x
  disk := sampleDisk
  device := ⟨0,false,none⟩
  driver := .idle
  history := []

/-- A write of sector 1 that the device breaks off after one byte, and a read
of it. -/
def sampleActions : List Action :=
  [.submit .ok id (writeCall 1 512 0x4007 0x9000 0x9010),.take,.move 4,.report 1,.finish,.rest,
    .poll,.store 0x4007 0,.submit .ok id (readCall 1 512 0x6000 0x9000 0x9010)]


/-- Driver, ring and device together are a disk. In every interleaving the
calls that have returned are those of a disk read and written in one piece, of
which the disk of the device differs by the bytes of a write in flight; the
device writes nowhere but into the request; and a call that polls can return. -/
theorem calls_refine_disk {machine last : Machine} (h : Ready machine) {actions : List Action}
    (hl : Each step Legal machine actions) (hr : run step machine actions=some last) :
    (∃ settled,Replays machine.disk last.history settled ∧ Current settled last) ∧
      (∀ action next,action.OfDevice → step last action=some next → Confined last next) ∧
      ∀ pending,last.driver=.polling pending → Answered last pending := by
  have hserving : Serving machine.disk last :=
    run_keeps_of_each serving_step h.serving hl hr
  refine ⟨hserving.current,fun _ _ ha hs => hserving.confined ha hs,fun pending hd => ?_⟩
  exact ⟨hserving.returns hd,hserving.served hd⟩

/-- A broken write and the read of its sector. -/
theorem calls_refine_disk_broken : ∃ last,run step sampleMachine sampleActions=some last ∧
    last.disk.image 516=11 ∧ last.disk.image 517=0 ∧
    (∃ settled,Replays sampleDisk last.history settled ∧ Current settled last) ∧
    ∀ pending,last.driver=.polling pending → Answered last pending := by
  have hready : Ready sampleMachine :=
    ⟨⟨0,3,fun _ => ⟨0,0,0,0⟩,fun _ => 0,by decide,rfl⟩,rfl,rfl,rfl⟩
  have hl : Each step Legal sampleMachine sampleActions := by decide +kernel
  have hrun : (run step sampleMachine sampleActions).map
      (fun last => (last.disk.image 516,last.disk.image 517))=some (11,0) := by
    decide +kernel
  obtain ⟨last,hlast,hfound⟩ := Option.map_eq_some_iff.mp hrun
  rw [Prod.mk.injEq] at hfound
  have hall := calls_refine_disk hready hl hlast
  exact ⟨last,hlast,hfound.1,hfound.2,hall.1,hall.2.2⟩

end WorkbenchOS.VirtioDisk
