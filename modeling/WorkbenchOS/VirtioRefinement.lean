import WorkbenchOS.VirtioPublication

/-!
# The block device on a ring in memory

The device reads what the driver has stored and stores what the driver loads,
byte for byte, and stays out of everything but the used ring and the request.
From the queue set up in fresh pages on, every run of the machine with its
ring in memory is matched by a run of the machine above, and the calls that
have returned are those of a disk.
-/

namespace WorkbenchOS.VirtioMemory

open ByteMemory Fat32 LibStd TransitionRuns Simulations
open MemoryManagement (physicalMappingBase)
open VirtioBlock (VDesc Call Submitted u16 publish)
open VirtioDetection (vringSizeBytes)
open VirtioDisk (Device Job Outcome Pending Serving Working storeThrough loadThrough prepared
  Reaches Replays Partly transfer received)

section Device

variable {initial : BlockDevice} {machine next : Machine} {abstract : VirtioDisk.Machine}
  {pending : Pending} {memory above : Memory} {disk upper : BlockDevice} {device higher : Device}

/-- A step of the device beside the ring leaves the request published. -/
theorem Follows.served (h : Follows machine abstract) (hp : Posts machine pending)
    (hv : Visible machine abstract pending)
    (hring : ∀ x,machine.InRing x → memory x=machine.memory x)
    (hagree : Agree machine memory above) (hd : upper=disk) (hi : higher.index=device.index)
    (hj : higher.job=device.job) (hx : device.index=machine.device.index)
    (hr : device.running=machine.device.running) :
    Follows {machine with memory := memory,disk := disk,device := device}
      {abstract with memory := above,disk := upper,device := higher} := by
  have hqueue := @queueOf_congr machine.base machine.qmax machine.ring machine.memory memory
    (base_aligned machine) (fun x hl hr => hring x ⟨hl,hr⟩)
  refine ⟨⟨h.placed.num,h.placed.pos,h.placed.small,h.placed.avail,h.placed.used⟩,hd,h.history,
    hi,hj,?_,Visible.phase hp ⟨hv.driver,hv.maps,⟨hv.beside.header,hv.beside.buffer,
      hv.beside.status⟩,hv.shared.queue.trans hqueue.symm,hagree⟩⟩
  intro pending hpolling hne
  refine hr.trans (h.awake pending hpolling ?_)
  rw [←hx]
  exact fun he => hne (he.trans (congrArg VirtioBlock.Vring.availIdx hqueue).symm)

/-- One byte beside the ring. -/
theorem update_ring {place x : ℕ} {value : UInt8} (hplace : ¬machine.InRing place)
    (hx : machine.InRing x) : Function.update machine.memory place value x=machine.memory x := by
  refine Function.update_of_ne ?_ _ _
  rintro rfl
  exact hplace hx

/-- The same byte on both levels. -/
theorem Agree.update (h : Agree machine memory above) (place : ℕ) (value : UInt8) :
    Agree machine (Function.update memory place value) (Function.update above place value) := by
  intro x hx
  rw [Function.update_apply,Function.update_apply,h x hx]

/-- The memory of a request is not the ring. -/
theorem Visible.clear {queue : VirtioBlock.Vring} (hv : Visible machine abstract pending)
    (hposted : VirtioDisk.Posted queue pending) {x : ℕ} (hx : pending.Holds x) :
    ¬machine.InRing x := by
  obtain ⟨translate,hreaches⟩ := hposted.reaches
  exact hv.beside.holds hreaches hx

/-- A header is read from its sixteen bytes. -/
theorem received_congr {job : Job} (h : ∀ i<16,
      memory (pending.mmu pending.call.header+i)=above (pending.mmu pending.call.header+i))
    (hr : received above pending.segments=some job) :
    received memory pending.segments=some job := by
  have hword : ∀ offset count,offset+count≤16 →
      readLE memory (pending.mmu pending.call.header+offset) count=
        readLE above (pending.mmu pending.call.header+offset) count := by
    intro offset count hle
    refine readLE_congr (fun x hl hu => ?_)
    obtain ⟨i,rfl⟩ := Nat.exists_eq_add_of_le (Nat.le_of_add_right_le hl)
    exact h i (by omega)
  have hheader : VirtioDisk.readHeader memory (pending.mmu pending.call.header)=
      VirtioDisk.readHeader above (pending.mmu pending.call.header) := by
    have hfirst := hword 0 4 (by decide)
    rw [Nat.add_zero] at hfirst
    rw [VirtioDisk.readHeader,VirtioDisk.readHeader,hfirst,hword 4 4 (by decide),
      hword 8 8 (by decide)]
  rw [VirtioDisk.Pending.segments,received] at hr ⊢
  dsimp only at hr ⊢
  rw [hheader]
  exact hr

/-- The device takes the request that is published. -/
theorem follows_take (hserving : Serving initial abstract) (h : Follows machine abstract)
    (hs : step machine .take=some next) :
    ∃ last,Leads VirtioDisk.step VirtioDisk.Legal abstract last ∧ Follows next last := by
  obtain ⟨seen,hseen,rfl⟩ := Option.map_eq_some_iff.mp hs
  simp only [VirtioDisk.step] at hseen
  split at hseen
  · rename_i hguard
    obtain ⟨hrunning,hnone,hne⟩ := hguard
    change machine.device.index≠machine.queue.availIdx at hne
    obtain ⟨job,hjob,rfl⟩ := Option.map_eq_some_iff.mp hseen
    have hnone' : abstract.device.job=none := h.job.trans (Option.isNone_iff_eq_none.mp hnone)
    rw [←h.index,h.indices.1] at hne
    cases hd : abstract.driver with
    | idle =>
      obtain ⟨hindex,-,hau,-⟩ := (VirtioDisk.serving_idle hd).mp hserving
      exact absurd (hindex.trans hau.symm) hne
    | polling pending =>
      obtain ⟨hindex,hposted,settled,hreplays,hstage⟩ :=
        (VirtioDisk.serving_polling hd).mp hserving
      obtain ⟨hp,hv⟩ := h.visible hd
      rcases hstage.job_none hnone' with hw|hf
      · have hfound : VirtioDisk.entry machine.queue machine.device.index=pending.segments := by
          rw [←hv.shared.queue,←h.index,hindex,hw.used]
          exact hposted.found
        change received machine.memory (VirtioDisk.entry machine.queue machine.device.index)=_
          at hjob
        have habove := hw.received hposted
        have hbelow : received machine.memory pending.segments=some pending.job :=
          received_congr (fun i hi => hv.shared.memory _ (hv.clear hposted
            (Or.inl ⟨Nat.le_add_right _ _,by omega⟩))) habove
        rw [hfound,hbelow] at hjob
        cases hjob
        have hstep : VirtioDisk.step abstract .take=some {abstract with
            device := {abstract.device with job := some pending.job}} := by
          rw [VirtioDisk.step,if_pos ⟨hw.running,by rw [hnone']; rfl,hne⟩,hindex,hw.used,
            hposted.found,habove]
          rfl
        have hlegal : VirtioDisk.Legal abstract .take := trivial
        exact ⟨_,Leads.single hlegal hstep,
          h.served hp hv (fun _ _ => rfl) hv.shared.memory h.disk h.index rfl rfl rfl⟩
      · exact absurd (hindex.trans hf.used) hne
  · cases hseen

/-- The device transfers a byte. -/
theorem follows_move (hserving : Serving initial abstract) (h : Follows machine abstract) {i : ℕ}
    (hs : step machine (.move i)=some next) :
    ∃ last,Leads VirtioDisk.step VirtioDisk.Legal abstract last ∧ Follows next last := by
  obtain ⟨seen,hseen,rfl⟩ := Option.map_eq_some_iff.mp hs
  cases hj : machine.device.job with
  | none =>
    simp only [VirtioDisk.step,Machine.seen,hj] at hseen
    cases hseen
  | some job =>
    have hj' : abstract.device.job=some job := h.job.trans hj
    obtain ⟨pending,settled,hd,hposted,-,hw⟩ := hserving.working hj'
    obtain ⟨hp,hv⟩ := h.visible hd
    have hhas : machine.seen.device.job=some job := hj
    simp only [VirtioDisk.step,hhas] at hseen
    split at hseen
    · rename_i hguard
      have hguard' : job.reported=false ∧ i<job.data.len ∧ job.Fits abstract.disk.sectors := by
        rw [h.disk]
        exact hguard
      have hi : i<pending.call.bytes := by
        have hlen := hguard.2.1
        rw [hw.data] at hlen
        exact hlen
      have haddr : job.data.addr=pending.mmu pending.call.buffer := by rw [hw.data]
      have hplace : ¬machine.InRing (job.data.addr+i) := by
        rw [haddr]
        exact hv.clear hposted (Or.inr (Or.inl ⟨Nat.le_add_right _ _,by omega⟩))
      have hlegal : VirtioDisk.Legal abstract (.move i) := trivial
      rw [transfer] at hseen
      dsimp only at hseen
      split at hseen
      · rename_i hread
        cases hseen
        have hstep : VirtioDisk.step abstract (.move i)=some {abstract with
            memory := Function.update abstract.memory (job.data.addr+i)
              (machine.disk.image (job.hdr.sector*512+i))
            device := {abstract.device with
              job := some {job with moved := Function.update job.moved i true}}} := by
          simp only [VirtioDisk.step,hj',if_pos hguard',transfer,if_pos hread]
          rw [h.disk]
        exact ⟨_,Leads.single hlegal hstep,h.served hp hv (fun _ hx => update_ring hplace hx)
          (hv.shared.memory.update _ _) h.disk h.index rfl rfl rfl⟩
      · rename_i hread
        split at hseen
        · rename_i hwrite
          cases hseen
          have hstep : VirtioDisk.step abstract (.move i)=some {abstract with
              disk := {machine.disk with
                image := Function.update machine.disk.image (job.hdr.sector*512+i)
                  (machine.memory (job.data.addr+i))}
              device := {abstract.device with
                job := some {job with moved := Function.update job.moved i true}}} := by
            simp only [VirtioDisk.step,hj',if_pos hguard',transfer,if_neg hread,if_pos hwrite]
            rw [h.disk,hv.shared.memory _ hplace]
          exact ⟨_,Leads.single hlegal hstep,h.served hp hv (fun _ _ => rfl) hv.shared.memory rfl
            h.index rfl rfl rfl⟩
        · cases hseen
    · cases hseen

/-- The device writes the status byte. -/
theorem follows_report (hserving : Serving initial abstract) (h : Follows machine abstract)
    {status : UInt8} (hs : step machine (.report status)=some next) :
    ∃ last,Leads VirtioDisk.step VirtioDisk.Legal abstract last ∧ Follows next last := by
  obtain ⟨seen,hseen,rfl⟩ := Option.map_eq_some_iff.mp hs
  cases hj : machine.device.job with
  | none =>
    simp only [VirtioDisk.step,Machine.seen,hj] at hseen
    cases hseen
  | some job =>
    have hj' : abstract.device.job=some job := h.job.trans hj
    obtain ⟨pending,settled,hd,hposted,-,hw⟩ := hserving.working hj'
    obtain ⟨hp,hv⟩ := h.visible hd
    simp only [VirtioDisk.step,Machine.seen,hj] at hseen
    split at hseen
    · rename_i hguard
      cases hseen
      have haddr : job.status.addr=pending.mmu pending.call.status := by rw [hw.status]
      have hplace : ¬machine.InRing job.status.addr := by
        rw [haddr]
        exact hv.clear hposted (Or.inr (Or.inr rfl))
      have hlegal : VirtioDisk.Legal abstract (.report status) := trivial
      have hstep : VirtioDisk.step abstract (.report status)=some {abstract with
          memory := Function.update abstract.memory job.status.addr status
          device := {abstract.device with job := some {job with reported := true}}} := by
        simp only [VirtioDisk.step,hj',if_pos hguard]
      exact ⟨_,Leads.single hlegal hstep,h.served hp hv (fun _ hx => update_ring hplace hx)
        (hv.shared.memory.update _ _) h.disk h.index rfl rfl rfl⟩
    · cases hseen

/-- The used ring is all that completing a request changes. -/
theorem completed_outside (hpos : 0< machine.qmax) (length : ℕ) {x : ℕ}
    (hx : ¬machine.InUsed x) : machine.completed length x=machine.memory x := by
  have hslot := Nat.mod_lt machine.queue.usedIdx hpos
  have hsize := size_eq machine.qmax
  have haligned := base_aligned machine
  rw [Machine.InUsed,usedAt_eq haligned] at hx
  rw [Machine.completed,usedAt_eq haligned,writeLE_outside _ (by omega),writeLE_outside _ (by omega),
    writeLE_outside _ (by omega)]

/-- The queue after it. -/
theorem queue_completed (hpos : 0< machine.qmax) (length : ℕ) :
    queueOf machine.base machine.qmax machine.ring (machine.completed length)=
      {machine.queue with usedIdx := u16 (machine.queue.usedIdx+1)} := by
  have hread : readLE (machine.completed length) (usedAt machine.base machine.qmax+2) 2=
      u16 (machine.queue.usedIdx+1) := readLE_writeLE_self _ _ _ _
  rw [queueOf_used (base_aligned machine) (fun x hl hu => completed_outside hpos length ?_),hread]
  · rfl
  · rw [Machine.InUsed,usedAt_eq (base_aligned machine)]
    omega

/-- The device hands the request back. -/
theorem follows_finish (hserving : Serving initial abstract) (h : Follows machine abstract)
    {length : ℕ} (hs : step machine (.finish length)=some next) :
    ∃ last,Leads VirtioDisk.step VirtioDisk.Legal abstract last ∧ Follows next last := by
  obtain ⟨seen,hseen,rfl⟩ := Option.map_eq_some_iff.mp hs
  cases hj : machine.device.job with
  | none =>
    simp only [VirtioDisk.step,Machine.seen,hj] at hseen
    cases hseen
  | some job =>
    have hj' : abstract.device.job=some job := h.job.trans hj
    obtain ⟨pending,settled,hd,hposted,-,hw⟩ := hserving.working hj'
    obtain ⟨hp,hv⟩ := h.visible hd
    simp only [VirtioDisk.step,Machine.seen,hj] at hseen
    split at hseen
    · rename_i hguard
      cases hseen
      have hlegal : VirtioDisk.Legal abstract .finish := trivial
      have hstep : VirtioDisk.step abstract .finish=some {abstract with
          queue := {abstract.queue with usedIdx := u16 (abstract.queue.usedIdx+1)}
          device := {abstract.device with
            index := u16 (abstract.device.index+1)
            job := none}} := by
        simp only [VirtioDisk.step,hj',if_pos hguard]
      have hqueue := queue_completed h.placed.pos length
      refine ⟨_,Leads.single hlegal hstep,⟨⟨h.placed.num,h.placed.pos,h.placed.small,
        h.placed.avail,h.placed.used⟩,h.disk,h.history,
        congrArg (fun index => u16 (index+1)) h.index,rfl,?_,Visible.phase hp ⟨hv.driver,hv.maps,
          ⟨hv.beside.header,hv.beside.buffer,hv.beside.status⟩,?_,?_⟩⟩⟩
      · intro other hpolling hne
        refine h.awake other hpolling ?_
        rw [←h.index,h.indices.1,hserving.index,hw.used,hposted.ahead]
        exact (VirtioRing.u16_succ_ne _).symm
      · rw [hv.shared.queue]
        exact hqueue.symm
      · intro x hx
        have hout : ¬machine.InUsed x := by
          intro hin
          refine hx ⟨?_,hin.2⟩
          have hlow := hin.1
          rw [usedAt_eq (base_aligned machine)] at hlow
          exact Nat.le_of_add_right_le hlow
        exact (completed_outside h.placed.pos length hout).trans (hv.shared.memory x hx)
    · cases hseen

/-- What changes beside the driver, as long as each relation between the two
machines is kept. -/
theorem Phase.carried {last : VirtioDisk.Machine} (h : Phase machine abstract)
    (hdriver : next.driver=machine.driver) (hidle : last.driver=abstract.driver)
    (hring : next.ring=machine.ring) (hindex : next.queue.availIdx=machine.queue.availIdx)
    (hquiet : ∀ store,Quiet machine store → Quiet next store)
    (hshared : Shared machine abstract → Shared next last)
    (hhidden : ∀ pending rest,machine.driver.pending=some pending →
      Hidden machine abstract pending rest → Hidden next last pending rest)
    (hvisible : ∀ pending,Visible machine abstract pending → Visible next last pending) :
    Phase next last := by
  cases hd : machine.driver with
  | idle =>
    have hphase := (phase_idle hd).mp h
    exact (phase_idle (hdriver.trans hd)).mpr ⟨hidle.trans hphase.1,hshared hphase.2⟩
  | describing pending todo =>
    have hphase := (phase_describing hd).mp h
    refine (phase_describing (hdriver.trans hd)).mpr
      ⟨fun store hs => hquiet store (hphase.1 store hs),?_⟩
    rw [hring,hindex]
    exact hhidden pending _ (by rw [hd]; rfl) hphase.2
  | entering pending todo =>
    refine (phase_entering (hdriver.trans hd)).mpr ?_
    rcases (phase_entering hd).mp h with ⟨hnil,hv⟩|⟨front,index,htodo,hfront,hh⟩
    · exact Or.inl ⟨hnil,hvisible pending hv⟩
    · refine Or.inr ⟨front,index,?_,fun store hs => hquiet store (hfront store hs),
        hhidden pending _ (by rw [hd]; rfl) hh⟩
      rw [hring]
      exact htodo
  | polling pending =>
    exact (phase_polling (hdriver.trans hd)).mpr (hvisible pending ((phase_polling hd).mp h))

/-- The device goes to sleep. -/
theorem follows_rest (h : Follows machine abstract) (hs : step machine .rest=some next) :
    Follows next abstract := by
  obtain ⟨seen,hseen,rfl⟩ := Option.map_eq_some_iff.mp hs
  simp only [VirtioDisk.step] at hseen
  split at hseen
  · rename_i hguard
    cases hseen
    exact ⟨⟨h.placed.num,h.placed.pos,h.placed.small,h.placed.avail,h.placed.used⟩,h.disk,
      h.history,h.index,h.job,fun _ _ hne => absurd hguard.2 hne,h.phase.carried rfl rfl rfl rfl (fun _ hq => hq)
        (fun hs => ⟨hs.queue,hs.memory⟩)
        (fun _ _ _ hh => ⟨hh.driver,hh.maps,
          ⟨hh.beside.header,hh.beside.buffer,hh.beside.status⟩,hh.submits,hh.sent,hh.memory,
          hh.availIdx,hh.usedIdx⟩)
        (fun _ hv => ⟨hv.driver,hv.maps,⟨hv.beside.header,hv.beside.buffer,hv.beside.status⟩,
          ⟨hv.shared.queue,hv.shared.memory⟩⟩)⟩
  · cases hseen

end Device

section Others

variable {initial : BlockDevice} {machine next : Machine} {abstract : VirtioDisk.Machine}
  {pending : Pending} {memory above : Memory}

/-- A call that returns finds the same in both machines. -/
theorem Machine.Beside.outcome (hb : machine.Beside pending.mmu pending.call)
    (ha : Agree machine memory above) : pending.outcome memory=pending.outcome above := by
  rw [VirtioDisk.Pending.outcome,VirtioDisk.Pending.outcome,hb.loads ha,ha _ hb.status]

/-- One test of the polling loop. -/
theorem follows_poll (h : Follows machine abstract) (hs : step machine .poll=some next) :
    ∃ last,Leads VirtioDisk.step VirtioDisk.Legal abstract last ∧ Follows next last := by
  have hphase := h.phase
  cases hd : machine.driver with
  | idle =>
    simp only [step,hd] at hs
    cases hs
  | describing pending todo =>
    simp only [step,hd] at hs
    cases hs
  | entering pending todo =>
    simp only [step,hd] at hs
    cases hs
  | polling pending =>
    rw [Phase,hd] at hphase
    simp only [step,hd,load_used h.placed hphase.maps] at hs
    split at hs
    · cases hs
      exact ⟨abstract,Leads.refl abstract,h⟩
    · rename_i hne
      cases hs
      have hne' : abstract.queue.usedIdx≠abstract.queue.usedIdxShadow := by
        rw [hphase.shared.queue]
        exact hne
      have hlegal : VirtioDisk.Legal abstract .poll := trivial
      have hstep : VirtioDisk.step abstract .poll=some {abstract with
          queue := VirtioBlock.reclaim abstract.queue pending.submitted
          driver := .idle
          history := abstract.history++[pending.outcome abstract.memory]} := by
        simp only [VirtioDisk.step,hphase.driver,if_neg hne']
      refine ⟨_,Leads.single hlegal hstep,⟨⟨h.placed.num,h.placed.pos,h.placed.small,
        h.placed.avail,h.placed.used⟩,h.disk,?_,h.index,h.job,(fun _ hp => by cases hp),?_⟩⟩
      · rw [h.history,hphase.beside.outcome hphase.shared.memory]
      · refine ⟨rfl,?_,hphase.shared.memory⟩
        rw [hphase.shared.queue]
        rfl

/-- Setting up a call and a store beside it commute. -/
theorem prepared_update {translate : ℕ→Except Error ℕ}
    (hr : Reaches translate pending.mmu pending.call) {address : ℕ}
    (ha : ¬pending.Holds address) (value : UInt8) :
    prepared pending.mmu (Function.update above address value) pending.call=
      Function.update (prepared pending.mmu above pending.call) address value := by
  funext x
  by_cases hx : x=address
  · subst hx
    rw [Function.update_self,prepared_outside ?_ (fun he => ha (Or.inr (Or.inr he.symm))),
      Function.update_self]
    intro i hi he
    refine ha (Or.inl ?_)
    rw [←he,hr.headerWhole i hi]
    omega
  · rw [Function.update_of_ne hx]
    exact prepared_congr (Function.update_of_ne hx _ _)

/-- A store of other code keeps a request hidden. -/
theorem Hidden.store {rest : List Store} (h : Hidden machine abstract pending rest) {address : ℕ}
    (hring : ¬machine.InRing address) (ha : ¬pending.Holds address) (value : UInt8) :
    Hidden {machine with memory := Function.update machine.memory address value}
      {abstract with memory := Function.update abstract.memory address value} pending rest := by
  obtain ⟨translate,hr,hsub⟩ := h.submits
  have hprepared := @prepared_update _ abstract.memory _ hr _ ha value
  have hqueue : ∀ stores,queueOf machine.base machine.qmax machine.ring
      (applyAll pending.mmu (Function.update machine.memory address value) stores)=
        queueOf machine.base machine.qmax machine.ring
          (applyAll pending.mmu machine.memory stores) :=
    fun stores => queueOf_congr (base_aligned machine)
      (fun x hl hu => applyAll_congr stores (update_ring hring ⟨hl,hu⟩))
  have hsame := hqueue []
  refine ⟨h.driver,h.maps,⟨h.beside.header,h.beside.buffer,h.beside.status⟩,⟨translate,hr,?_⟩,
    ?_,?_,?_,?_⟩
  · exact hsub.trans (congrArg (Prod.mk _) (hqueue rest).symm)
  · rw [h.sent]
    refine loadThrough_congr (fun i hi => ?_)
    dsimp only
    rw [hprepared]
    refine (Function.update_of_ne ?_ _ _).symm
    intro he
    refine ha (Or.inr (Or.inl ?_))
    rw [←he,hr.bufferWhole i hi]
    omega
  · dsimp only
    rw [hprepared]
    exact Agree.update h.memory address value
  · exact (congrArg VirtioBlock.Vring.availIdx hsame).trans h.availIdx
  · exact (congrArg VirtioBlock.Vring.usedIdx hsame).trans h.usedIdx

/-- A store of other code. -/
theorem follows_store (h : Follows machine abstract) {address : ℕ} {value : UInt8}
    (hl : Legal machine (.store address value)) :
    ∃ last,Leads VirtioDisk.step VirtioDisk.Legal abstract last ∧
      Follows {machine with memory := Function.update machine.memory address value} last := by
  obtain ⟨hring,hheld⟩ := hl
  have hqueue := @queueOf_congr machine.base machine.qmax machine.ring machine.memory
    (Function.update machine.memory address value) (base_aligned machine)
    (fun x hl hu => update_ring hring ⟨hl,hu⟩)
  have hshared : Shared machine abstract →
      Shared {machine with memory := Function.update machine.memory address value}
        {abstract with memory := Function.update abstract.memory address value} :=
    fun hs => ⟨hs.queue.trans hqueue.symm,Agree.update hs.memory address value⟩
  have hindex := congrArg VirtioBlock.Vring.availIdx hqueue
  have hawake : ∀ pending,machine.driver=.polling pending → machine.device.index≠
      (queueOf machine.base machine.qmax machine.ring
        (Function.update machine.memory address value)).availIdx → machine.device.running=true :=
    fun pending hp hne => h.awake pending hp (fun he => hne (he.trans hindex.symm))
  have hlegal : VirtioDisk.Legal abstract (.store address value) := by
    intro pending hp
    exact hheld pending (h.visible hp).1.inCall
  exact ⟨{abstract with memory := Function.update abstract.memory address value},
    Leads.single hlegal rfl,⟨⟨h.placed.num,h.placed.pos,h.placed.small,h.placed.avail,
      h.placed.used⟩,h.disk,h.history,h.index,h.job,hawake,
      h.phase.carried rfl rfl rfl hindex (fun _ hq => hq)
        hshared
        (fun pending _ hp hh => hh.store hring (hheld pending hp) value)
        (fun _ hv => ⟨hv.driver,hv.maps,⟨hv.beside.header,hv.beside.buffer,hv.beside.status⟩,
          hshared hv.shared⟩)⟩⟩

end Others

end WorkbenchOS.VirtioMemory
