import WorkbenchOS.VirtioDisk

/-!
# A request between driver and disk

While `rw` polls, its request waits in the ring, is worked on byte by byte, or
lies finished in the ring again. In each of these the disk differs from that
of the calls that have returned by the bytes of a write already transferred,
and the buffer of a read holds the bytes already transferred. Every step of
every party keeps this.
-/

namespace WorkbenchOS.VirtioDisk

open ByteMemory Fat32 LibStd TransitionRuns VirtioBlock VirtioDescriptors
open VirtioRing (Segment chain publish_chain publish_segments u16_succ_ne)

section Invariant

/-- The first byte of a call on the disk. -/
def Call.place (call : Call) : ℕ := call.lba*512

/-- The segments a device finds in the chain of a request. -/
def Pending.segments (pending : Pending) : List Segment :=
  [⟨pending.mmu pending.call.header,16,false⟩,
    ⟨pending.mmu pending.call.buffer,pending.call.bytes,!pending.call.write⟩,
    ⟨pending.mmu pending.call.status,1,true⟩]

/-- What stands while `rw` polls: the memory of the call, and the published
chain that describes it. -/
structure Posted (queue : Vring) (pending : Pending) : Prop where
  /-- The length check has passed. -/
  valid : pending.call.Valid
  /-- The memory of the call. -/
  reaches : ∃ translate,Reaches translate pending.mmu pending.call
  /-- The buffer at the call. -/
  sent : pending.sent.length=pending.call.bytes
  /-- The descriptors are off the stack. -/
  stocked : Stocked queue
    [pending.submitted.d2,pending.submitted.d1,pending.submitted.d0]
  /-- One entry above the completed ones. -/
  ahead : queue.availIdx=u16 (queue.usedIdxShadow+1)
  /-- The device finds the segments there. -/
  found : entry queue queue.usedIdxShadow=pending.segments

/-- How far the transfer has come. A read fills the buffer from the disk, a
write finds the buffer as it was. -/
structure Progress (settled : BlockDevice) (machine : Machine) (pending : Pending)
    (moved : ℕ→Bool) : Prop where
  /-- The size of the disk. -/
  sectors : machine.disk.sectors=settled.sectors
  /-- Nothing moves past the end. -/
  fits : ∀ i,moved i=true → Call.place pending.call+pending.call.bytes≤ settled.sectors*512
  /-- A read. -/
  reads : pending.call.write=false → machine.disk=settled ∧
    ∀ i<pending.call.bytes,moved i=true →
      machine.memory (pending.mmu pending.call.buffer+i)=
        settled.image (Call.place pending.call+i)
  /-- A write. -/
  writes : pending.call.write=true →
    machine.disk.image=
        storeMarked settled.image (Call.place pending.call) pending.sent moved ∧
      ∀ i<pending.call.bytes,
        machine.memory (pending.mmu pending.call.buffer+i)=pending.sent.getD i 0

/-- Success in the status byte means that everything is transferred. -/
def Truthful (machine : Machine) (pending : Pending) (moved : ℕ→Bool) : Prop :=
  machine.memory (pending.mmu pending.call.status)=0 →
    ∀ i<pending.call.bytes,moved i=true

/-- The request waits in the ring. -/
structure Waiting (settled : BlockDevice) (machine : Machine) (pending : Pending) : Prop where
  /-- The used index is the old one. -/
  used : machine.queue.usedIdx=machine.queue.usedIdxShadow
  /-- The device is awake. -/
  running : machine.device.running=true
  /-- It has not begun. -/
  job : machine.device.job=none
  /-- The header is in memory. -/
  header : ∀ i<16,machine.memory (pending.mmu pending.call.header+i)=
    headerByte (Call.request pending.call) i
  /-- Nothing is transferred. -/
  progress : Progress settled machine pending (fun _ => false)

/-- The device works on the request. -/
structure Working (settled : BlockDevice) (machine : Machine) (pending : Pending) (job : Job) :
    Prop where
  /-- The used index is the old one. -/
  used : machine.queue.usedIdx=machine.queue.usedIdxShadow
  /-- The job. -/
  has : machine.device.job=some job
  /-- Its header. -/
  hdr : job.hdr=Call.request pending.call
  /-- Its data segment. -/
  data : job.data=⟨pending.mmu pending.call.buffer,pending.call.bytes,!pending.call.write⟩
  /-- Its status segment. -/
  status : job.status=⟨pending.mmu pending.call.status,1,true⟩
  /-- What is transferred. -/
  progress : Progress settled machine pending job.moved
  /-- The status byte, once it is written. -/
  truthful : job.reported=true → Truthful machine pending job.moved

/-- The device has finished the request. -/
structure Finished (settled : BlockDevice) (machine : Machine) (pending : Pending) : Prop where
  /-- The used index is the new one. -/
  used : machine.queue.usedIdx=machine.queue.availIdx
  /-- The device has put the request away. -/
  job : machine.device.job=none
  /-- What was transferred. -/
  progress : ∃ moved,Progress settled machine pending moved ∧ Truthful machine pending moved

/-- Where a request is. -/
inductive Stage (settled : BlockDevice) (machine : Machine) (pending : Pending) : Prop where
  /-- In the ring. -/
  | waiting (h : Waiting settled machine pending)
  /-- With the device. -/
  | working (job : Job) (h : Working settled machine pending job)
  /-- Back in the ring. -/
  | finished (h : Finished settled machine pending)

/-- The part of the invariant that depends on where the driver is. -/
def Phase (initial : BlockDevice) (machine : Machine) : Prop :=
  match machine.driver with
  | .idle => Stocked machine.queue [] ∧ machine.queue.availIdx=machine.queue.usedIdx ∧
      machine.queue.usedIdx=machine.queue.usedIdxShadow ∧ machine.device.job=none ∧
      Replays initial machine.history machine.disk
  | .polling pending => Posted machine.queue pending ∧
      ∃ settled,Replays initial machine.history settled ∧ Stage settled machine pending

/-- The invariant of a run that began with the disk `initial`. -/
structure Serving (initial : BlockDevice) (machine : Machine) : Prop where
  /-- The device counts its completions as its entries. -/
  index : machine.device.index=machine.queue.usedIdx
  /-- The driver is idle or polls. -/
  phase : Phase initial machine

variable {initial settled : BlockDevice} {machine next : Machine} {pending : Pending}

/-- The invariant while `rw` polls. -/
theorem serving_polling (hd : machine.driver=.polling pending) :
    Serving initial machine ↔ machine.device.index=machine.queue.usedIdx ∧
      Posted machine.queue pending ∧
      ∃ settled,Replays initial machine.history settled ∧ Stage settled machine pending := by
  constructor
  · intro h
    have hphase := h.phase
    rw [Phase,hd] at hphase
    exact ⟨h.index,hphase⟩
  · rintro ⟨hindex,hphase⟩
    refine ⟨hindex,?_⟩
    rw [Phase,hd]
    exact hphase

/-- The invariant outside `rw`. -/
theorem serving_idle (hd : machine.driver=.idle) :
    Serving initial machine ↔ machine.device.index=machine.queue.usedIdx ∧
      Stocked machine.queue [] ∧ machine.queue.availIdx=machine.queue.usedIdx ∧
      machine.queue.usedIdx=machine.queue.usedIdxShadow ∧ machine.device.job=none ∧
      Replays initial machine.history machine.disk := by
  constructor
  · intro h
    have hphase := h.phase
    rw [Phase,hd] at hphase
    exact ⟨h.index,hphase⟩
  · rintro ⟨hindex,hphase⟩
    refine ⟨hindex,?_⟩
    rw [Phase,hd]
    exact hphase

/-- Only a working device has a job. -/
theorem Stage.job_none (h : Stage settled machine pending) (hj : machine.device.job=none) :
    Waiting settled machine pending ∨ Finished settled machine pending := by
  cases h with
  | waiting h => exact Or.inl h
  | working job h =>
    rw [h.has] at hj
    cases hj
  | finished h => exact Or.inr h

/-- A job is that of the request in flight. -/
theorem Stage.job_some (h : Stage settled machine pending) {job : Job}
    (hj : machine.device.job=some job) : Working settled machine pending job := by
  cases h with
  | waiting h =>
    rw [h.job] at hj
    cases hj
  | working other h =>
    rw [h.has] at hj
    cases hj
    exact h
  | finished h =>
    rw [h.job] at hj
    cases hj

/-- A device with a job has it from a request in flight. -/
theorem Serving.working (h : Serving initial machine) {job : Job}
    (hj : machine.device.job=some job) :
    ∃ pending settled,machine.driver=.polling pending ∧ Posted machine.queue pending ∧
      Replays initial machine.history settled ∧ Working settled machine pending job := by
  cases hd : machine.driver with
  | idle =>
    obtain ⟨-,-,-,-,hnone,-⟩ := (serving_idle hd).mp h
    rw [hnone] at hj
    cases hj
  | polling pending =>
    obtain ⟨-,hposted,settled,hreplays,hstage⟩ := (serving_polling hd).mp h
    exact ⟨pending,settled,rfl,hposted,hreplays,hstage.job_some hj⟩

/-- The available index is not the used one while a request is in flight. -/
theorem Posted.ahead_ne {queue : Vring} (h : Posted queue pending) :
    queue.availIdx≠queue.usedIdxShadow := by
  rw [h.ahead]
  exact u16_succ_ne _

/-- The status byte is beside the buffer and the header. -/
theorem Posted.status_beside {queue : Vring} (h : Posted queue pending) {i : ℕ} :
    (i<pending.call.bytes →
        pending.mmu pending.call.buffer+i≠pending.mmu pending.call.status) ∧
      (i<16 → pending.mmu pending.call.header+i≠pending.mmu pending.call.status) := by
  obtain ⟨translate,hreaches⟩ := h.reaches
  have hb := hreaches.statusBuffer
  have hh := hreaches.statusHeader
  rw [Apart] at hb hh
  exact ⟨fun hi => by omega,fun hi => by omega⟩

end Invariant

section Steps

variable {initial settled : BlockDevice} {machine next : Machine} {pending : Pending}
  {moved : ℕ→Bool} {translate : ℕ→Except Error ℕ} {mmu : ℕ→ℕ} {call : Call}

/-- Disks with the same bytes and the same size are the same. -/
theorem disk_eq {first second : BlockDevice} (hi : first.image=second.image)
    (hs : first.sectors=second.sectors) : first=second := by
  cases first
  cases second
  cases hi
  cases hs
  rfl

/-- Progress depends on the disk and the buffer. -/
theorem Progress.frame (h : Progress settled machine pending moved)
    (hd : next.disk=machine.disk)
    (hm : ∀ i<pending.call.bytes,next.memory (pending.mmu pending.call.buffer+i)=
      machine.memory (pending.mmu pending.call.buffer+i)) :
    Progress settled next pending moved := by
  refine ⟨hd ▸ h.sectors,h.fits,?_,?_⟩
  · intro hw
    refine ⟨hd.trans (h.reads hw).1,?_⟩
    intro i hi hmoved
    rw [hm i hi]
    exact (h.reads hw).2 i hi hmoved
  · intro hw
    refine ⟨hd ▸ (h.writes hw).1,?_⟩
    intro i hi
    rw [hm i hi]
    exact (h.writes hw).2 i hi

/-- The two stack variables are in memory after they are set up. -/
theorem prepared_header (hr : Reaches translate mmu call) {memory : Memory} {i : ℕ}
    (hi : i<16) : prepared mmu memory call (mmu call.header+i)=
      headerByte (Call.request call) i := by
  have hlength := length_headerBytes (Call.request call)
  have hbeside := hr.statusHeader
  rw [Apart] at hbeside
  have hstatus : ∀ i<([0xff] : List UInt8).length,mmu (call.status+i)=mmu call.status+i := by
    intro i hi
    have hz : i=0 := by
      rw [List.length_singleton] at hi
      omega
    rw [hz]
    rfl
  rw [prepared,storeThrough_eq hstatus,
    storeThrough_eq (by rw [hlength]; exact hr.headerWhole),
    storeBytes_outside _ (by rw [List.length_singleton]; omega),
    storeBytes_inside _ _ (by rw [hlength]; exact hi)]
  rw [headerBytes,List.getD_eq_getElem _ _ (by rw [List.length_map,List.length_range]; exact hi),
    List.getElem_map,List.getElem_range]

/-- What the driver publishes is found at the head of the ring. -/
theorem entry_publish {queue : Vring} {d0 d1 d2 hdrPa bufPa stPa : ℕ} (h3 : 3≤queue.num)
    (hd : [d0,d1,d2].Nodup) :
    entry (publish queue call d0 d1 d2 hdrPa bufPa stPa) queue.availIdx=
      [⟨hdrPa,16,false⟩,⟨bufPa,call.bytes,!call.write⟩,⟨stPa,1,true⟩] := by
  have hslot : (publish queue call d0 d1 d2 hdrPa bufPa stPa).availRing
      (queue.availIdx%queue.num)=d0 := Function.update_self _ _ _
  have hchain := publish_chain queue call hdrPa bufPa stPa hd h3
  have hsegments := publish_segments queue call hdrPa bufPa stPa hd
  have hnum : (publish queue call d0 d1 d2 hdrPa bufPa stPa).num=queue.num := rfl
  rw [entry,hnum,hslot,hchain]
  exact hsegments

/-- Three descriptors in a stocked queue need a table of three. -/
theorem Stocked.three {queue : Vring} {d0 d1 d2 : ℕ} (hd : [d0,d1,d2].Nodup)
    (hb : ∀ d∈[d0,d1,d2],d<queue.num) : 3≤queue.num := by
  have hsub : [d0,d1,d2]⊆List.range queue.num := fun d hm => List.mem_range.mpr (hb d hm)
  have hlength := (hd.subperm hsub).length_le
  rwa [List.length_range] at hlength

/-- A call that fails before the notification leaves the disk alone. -/
theorem serves_failed (disk : BlockDevice) (call : Call) (error : Error) (sent : List UInt8) :
    Serves disk ⟨call,.error error,sent,sent⟩ disk := by
  cases hw : call.write with
  | false => simp only [Serves,hw]
  | true =>
    simp only [Serves,hw]
    exact ⟨rfl,fun _ => false,storeMarked_none.symm,fun i hi => by cases hi⟩

/-- A notified call waits in the ring. -/
theorem serving_submit (h : Serving initial machine)
    (hl : Legal machine (.submit translate mmu call))
    (hs : step machine (.submit translate mmu call)=some next) : Serving initial next := by
  cases hd : machine.driver with
  | polling pending =>
    simp only [step,hd] at hs
    cases hs
  | idle =>
    obtain ⟨hindex,hstocked,hau,hus,hjob,hreplays⟩ := (serving_idle hd).mp h
    simp only [step,hd] at hs
    rcases hsub : submit translate machine.queue call with ⟨result,after⟩
    rw [hsub] at hs
    cases result with
    | error error =>
      obtain ⟨count,hc,rfl⟩ := submit_fails hstocked hsub
      have hnext := Option.some.inj hs
      have hidle : next.driver=.idle := by rw [←hnext]
      refine (serving_idle hidle).mpr ?_
      rw [←hnext]
      exact ⟨hindex,hstocked.cut hc,hau,hus,hjob,hreplays.snoc (serves_failed _ _ _ _)⟩
    | ok submitted =>
      cases hs
      have hr : Reaches translate mmu call := hl (by rw [hsub]; rfl)
      obtain ⟨hv,henters,rest,hdrPa,bufPa,stPa,hstack,ht,rfl⟩ := submit_posts hstocked hsub
      rw [if_pos henters]
      have hheader : hdrPa=mmu call.header := Except.ok.inj (ht.header.symm.trans hr.header)
      have hbuffer : bufPa=mmu call.buffer := Except.ok.inj (ht.buffer.symm.trans hr.buffer)
      have hstatus : stPa=mmu call.status := Except.ok.inj (ht.status.symm.trans hr.status)
      have hlist := hstocked.distinct
      have hall := hstocked.below
      rw [List.append_nil,hstack] at hlist hall
      have hrev : [submitted.d0,submitted.d1,submitted.d2].Perm
          [submitted.d2,submitted.d1,submitted.d0] :=
        List.reverse_perm [submitted.d2,submitted.d1,submitted.d0]
      have hdistinct := hrev.nodup_iff.mpr hlist.of_append_right
      have h3 : 3≤ machine.queue.num := Stocked.three hdistinct (fun d hm =>
        hall d (List.mem_append_right _ (hrev.mem_iff.mp hm)))
      have hrest := (pops hstack).2.2.2
      refine (serving_polling rfl).mpr ⟨hindex,?_,machine.disk,hreplays,.waiting ?_⟩
      · refine ⟨hv,⟨translate,hr⟩,?_,?_,?_,?_⟩
        · exact (List.length_map _).trans List.length_range
        · refine ⟨hstocked.pos,hstocked.small,?_,?_⟩
          · change (freeStack (VirtioDescriptors.cut machine.queue rest.length)++_).Nodup
            rw [hrest]
            exact hlist
          · change ∀ d∈freeStack (VirtioDescriptors.cut machine.queue rest.length)++_,_
            rw [hrest]
            exact hall
        · change u16 (machine.queue.availIdx+1)=u16 (machine.queue.usedIdxShadow+1)
          rw [hau,hus]
        · have hentry := @entry_publish call
            (VirtioDescriptors.cut machine.queue rest.length) submitted.d0 submitted.d1
            submitted.d2 hdrPa bufPa stPa h3 hdistinct
          have hplace : (VirtioDescriptors.cut machine.queue rest.length).availIdx=
              machine.queue.usedIdxShadow := hau.trans hus
          rw [hplace] at hentry
          rw [hheader,hbuffer,hstatus] at hentry ⊢
          exact hentry
      · refine ⟨hus,rfl,hjob,fun i hi => prepared_header hr hi,rfl,?_,?_,?_⟩
        · intro i hi
          cases hi
        · exact fun _ => ⟨rfl,fun i _ hi => by cases hi⟩
        · intro _
          refine ⟨storeMarked_none.symm,?_⟩
          intro i hi
          dsimp only
          rw [loadThrough_eq hr.bufferWhole,getD_bytesAt hi]

/-- The job a request becomes. -/
def Pending.job (pending : Pending) : Job where
  hdr := Call.request pending.call
  data := ⟨pending.mmu pending.call.buffer,pending.call.bytes,!pending.call.write⟩
  status := ⟨pending.mmu pending.call.status,1,true⟩
  moved := fun _ => false
  reported := false

/-- The device reads the request that waits as it was meant. -/
theorem Waiting.received (h : Waiting settled machine pending)
    (hp : Posted machine.queue pending) :
    received machine.memory pending.segments=some pending.job := by
  obtain ⟨translate,hr⟩ := hp.reaches
  have htype : (Call.request pending.call).type<2^32 := by
    change (if pending.call.write then 1 else 0)<2^32
    split <;> decide
  have hreserved : (Call.request pending.call).reserved<2^32 := Nat.two_pow_pos 32
  rw [Pending.segments,VirtioDisk.received,if_pos ⟨rfl,le_rfl,rfl,le_rfl⟩,
    readHeader_of_bytes htype hreserved hr.lba h.header]
  rfl

/-- The machine whose device has taken a job. -/
def Machine.takes (machine : Machine) (job : Job) : Machine :=
  {machine with device := {machine.device with job := some job}}

/-- Then the device works on the request. -/
theorem Waiting.takes (h : Waiting settled machine pending) :
    Working settled (machine.takes pending.job) pending pending.job := by
  refine ⟨h.used,rfl,rfl,rfl,rfl,h.progress.frame rfl (fun _ _ => rfl),?_⟩
  intro hreported
  cases hreported

/-- The device takes the request that waits. -/
theorem serving_take (h : Serving initial machine) (hs : step machine .take=some next) :
    Serving initial next := by
  simp only [step] at hs
  split at hs
  · rename_i hguard
    obtain ⟨-,hnone,hne⟩ := hguard
    obtain ⟨job,hjob,hnext⟩ := Option.map_eq_some_iff.mp hs
    cases hd : machine.driver with
    | idle =>
      obtain ⟨hindex,-,hau,-⟩ := (serving_idle hd).mp h
      exact absurd (hindex.trans hau.symm) hne
    | polling pending =>
      obtain ⟨hindex,hposted,settled,hreplays,hstage⟩ := (serving_polling hd).mp h
      rcases hstage.job_none (Option.isNone_iff_eq_none.mp hnone) with hw|hf
      · rw [hindex,hw.used,hposted.found,hw.received hposted] at hjob
        cases hjob
        have hpolling : next.driver=.polling pending := hnext ▸ hd
        refine (serving_polling hpolling).mpr ?_
        rw [←hnext]
        exact ⟨hindex,hposted,settled,hreplays,.working _ hw.takes⟩
      · exact absurd (hindex.trans hf.used) hne
  · cases hs

/-- The device transfers one more byte. -/
theorem Working.move {job : Job} (h : Working settled machine pending job)
    (hp : Posted machine.queue pending) {i : ℕ} (hi : i<pending.call.bytes)
    (hfits : job.Fits machine.disk.sectors) (hreported : job.reported=false)
    (hs : transfer machine job i=some next) :
    Working settled next pending {job with moved := Function.update job.moved i true} ∧
      next.queue=machine.queue ∧ next.driver=machine.driver ∧ next.history=machine.history ∧
      next.device.index=machine.device.index := by
  have hplace : job.hdr.sector*512+i=Call.place pending.call+i := by
    rw [h.hdr]
    rfl
  have haddr : job.data.addr=pending.mmu pending.call.buffer := by rw [h.data]
  have hbound : Call.place pending.call+pending.call.bytes≤ settled.sectors*512 := by
    have hle := hfits
    rw [Job.Fits,h.hdr,h.data,h.progress.sectors] at hle
    exact hle
  rw [transfer] at hs
  cases hw : pending.call.write with
  | false =>
    have htype : job.hdr.type=0 := by
      rw [h.hdr]
      change (if pending.call.write then 1 else 0)=0
      rw [hw]
      rfl
    have hflag : job.data.deviceWrites=true := by
      rw [h.data,hw]
      rfl
    rw [if_pos ⟨htype,hflag⟩,hplace,haddr] at hs
    have hreads := h.progress.reads hw
    cases hs
    refine ⟨⟨h.used,rfl,h.hdr,h.data,h.status,⟨h.progress.sectors,fun _ _ => hbound,?_,?_⟩,?_⟩,
      rfl,rfl,rfl,rfl⟩
    · intro _
      refine ⟨hreads.1,?_⟩
      intro k hk hmoved
      dsimp only at hmoved ⊢
      by_cases hki : k=i
      · rw [hki,Function.update_self,hreads.1]
      · rw [Function.update_of_ne (by omega)]
        rw [Function.update_of_ne hki] at hmoved
        exact hreads.2 k hk hmoved
    · intro hwrite
      rw [hw] at hwrite
      cases hwrite
    · intro hdone
      dsimp only at hdone
      rw [hreported] at hdone
      cases hdone
  | true =>
    have htype : job.hdr.type=1 := by
      rw [h.hdr]
      change (if pending.call.write then 1 else 0)=1
      rw [hw]
      rfl
    have hflag : job.data.deviceWrites=false := by
      rw [h.data,hw]
      rfl
    rw [if_neg (fun hz => by rw [htype] at hz; cases hz.1),if_pos ⟨htype,hflag⟩,hplace,
      haddr] at hs
    have hwrites := h.progress.writes hw
    cases hs
    refine ⟨⟨h.used,rfl,h.hdr,h.data,h.status,⟨h.progress.sectors,fun _ _ => hbound,?_,?_⟩,?_⟩,
      rfl,rfl,rfl,rfl⟩
    · intro hread
      rw [hw] at hread
      cases hread
    · intro _
      refine ⟨?_,hwrites.2⟩
      dsimp only
      rw [hwrites.1,hwrites.2 i hi]
      exact storeMarked_update (by rw [hp.sent]; exact hi)
    · intro hdone
      dsimp only at hdone
      rw [hreported] at hdone
      cases hdone

/-- A step of the transfer. -/
theorem serving_move (h : Serving initial machine) {i : ℕ}
    (hs : step machine (.move i)=some next) : Serving initial next := by
  cases hj : machine.device.job with
  | none =>
    simp only [step,hj] at hs
    cases hs
  | some job =>
    simp only [step,hj] at hs
    split at hs
    · rename_i hguard
      obtain ⟨hreported,hi,hfits⟩ := hguard
      obtain ⟨pending,settled,hd,hposted,hreplays,hw⟩ := h.working hj
      rw [hw.data] at hi
      obtain ⟨hnext,hqueue,hdriver,hhistory,hindex⟩ := hw.move hposted hi hfits hreported hs
      refine (serving_polling (hdriver.trans hd)).mpr ?_
      rw [hqueue,hhistory,hindex]
      exact ⟨h.index,hposted,settled,hreplays,.working _ hnext⟩
    · cases hs

/-- The status byte is written. -/
theorem serving_report (h : Serving initial machine) {status : UInt8}
    (hs : step machine (.report status)=some next) : Serving initial next := by
  cases hj : machine.device.job with
  | none =>
    simp only [step,hj] at hs
    cases hs
  | some job =>
    simp only [step,hj] at hs
    split at hs
    · rename_i hguard
      obtain ⟨-,hall⟩ := hguard
      obtain ⟨pending,settled,hd,hposted,hreplays,hw⟩ := h.working hj
      have haddr : job.status.addr=pending.mmu pending.call.status := by rw [hw.status]
      have hlen : job.data.len=pending.call.bytes := by rw [hw.data]
      rw [haddr] at hs
      have hnext := Option.some.inj hs
      have hpolling : next.driver=.polling pending := hnext ▸ hd
      refine (serving_polling hpolling).mpr ?_
      rw [←hnext]
      refine ⟨h.index,hposted,settled,hreplays,.working {job with reported := true}
        ⟨hw.used,rfl,hw.hdr,hw.data,hw.status,hw.progress.frame rfl ?_,?_⟩⟩
      · intro i hi
        exact Function.update_of_ne (hposted.status_beside.1 hi) _ _
      · intro _ hzero
        dsimp only at hzero
        rw [Function.update_self] at hzero
        rw [←hlen]
        exact hall hzero
    · cases hs

/-- The request goes back into the ring. -/
theorem serving_finish (h : Serving initial machine) (hs : step machine .finish=some next) :
    Serving initial next := by
  cases hj : machine.device.job with
  | none =>
    simp only [step,hj] at hs
    cases hs
  | some job =>
    simp only [step,hj] at hs
    split at hs
    · rename_i hreported
      obtain ⟨pending,settled,hd,hposted,hreplays,hw⟩ := h.working hj
      have hnext := Option.some.inj hs
      have hpolling : next.driver=.polling pending := hnext ▸ hd
      refine (serving_polling hpolling).mpr ?_
      rw [←hnext]
      refine ⟨congrArg (fun index => u16 (index+1)) h.index,
        ⟨hposted.valid,hposted.reaches,hposted.sent,⟨hposted.stocked.pos,hposted.stocked.small,
          hposted.stocked.distinct,hposted.stocked.below⟩,hposted.ahead,hposted.found⟩,
        settled,hreplays,.finished ⟨?_,rfl,job.moved,
          hw.progress.frame rfl (fun _ _ => rfl),hw.truthful hreported⟩⟩
      change u16 (machine.queue.usedIdx+1)=machine.queue.availIdx
      rw [hw.used,hposted.ahead]
    · cases hs

/-- The device goes to sleep. -/
theorem serving_rest (h : Serving initial machine) (hs : step machine .rest=some next) :
    Serving initial next := by
  simp only [step] at hs
  split at hs
  · rename_i hguard
    obtain ⟨hnone,hcaught⟩ := hguard
    have hnext := Option.some.inj hs
    cases hd : machine.driver with
    | idle =>
      have hidle : next.driver=.idle := hnext ▸ hd
      refine (serving_idle hidle).mpr ?_
      rw [←hnext]
      exact (serving_idle hd).mp h
    | polling pending =>
      obtain ⟨hindex,hposted,settled,hreplays,hstage⟩ := (serving_polling hd).mp h
      have hpolling : next.driver=.polling pending := hnext ▸ hd
      refine (serving_polling hpolling).mpr ?_
      rw [←hnext]
      rcases hstage.job_none (Option.isNone_iff_eq_none.mp hnone) with hw|hf
      · exact absurd ((hcaught.symm.trans hindex).trans hw.used) hposted.ahead_ne
      · obtain ⟨moved,hprogress,htruthful⟩ := hf.progress
        exact ⟨hindex,hposted,settled,hreplays,.finished ⟨hf.used,hf.job,moved,
          hprogress.frame rfl (fun _ _ => rfl),htruthful⟩⟩
  · cases hs

/-- A store of other code passes by the request in flight. -/
theorem serving_store (h : Serving initial machine) {address : ℕ} {value : UInt8}
    (hl : Legal machine (.store address value))
    (hs : step machine (.store address value)=some next) : Serving initial next := by
  have hnext := Option.some.inj hs
  cases hd : machine.driver with
  | idle =>
    have hidle : next.driver=.idle := hnext ▸ hd
    refine (serving_idle hidle).mpr ?_
    rw [←hnext]
    exact (serving_idle hd).mp h
  | polling pending =>
    obtain ⟨hindex,hposted,settled,hreplays,hstage⟩ := (serving_polling hd).mp h
    have hholds := hl pending hd
    rw [Pending.Holds] at hholds
    push Not at hholds
    obtain ⟨hheader,hbuffer,hstatus⟩ := hholds
    have hpolling : next.driver=.polling pending := hnext ▸ hd
    have hbytes : ∀ i<pending.call.bytes,next.memory (pending.mmu pending.call.buffer+i)=
        machine.memory (pending.mmu pending.call.buffer+i) := by
      intro i hi
      rw [←hnext]
      refine Function.update_of_ne (fun he => ?_) _ _
      have hge := hbuffer (by omega)
      omega
    have hbyte : next.memory (pending.mmu pending.call.status)=
        machine.memory (pending.mmu pending.call.status) := by
      rw [←hnext]
      exact Function.update_of_ne (fun he => hstatus he.symm) _ _
    have hfields : next.queue=machine.queue ∧ next.device=machine.device ∧
        next.disk=machine.disk ∧ next.history=machine.history := by
      rw [←hnext]
      exact ⟨rfl,rfl,rfl,rfl⟩
    obtain ⟨hqueue,hdevice,hdisk,hhistory⟩ := hfields
    refine (serving_polling hpolling).mpr ?_
    rw [hqueue,hdevice,hhistory]
    refine ⟨hindex,hposted,settled,hreplays,?_⟩
    cases hstage with
    | waiting hw =>
      refine .waiting ⟨?_,?_,?_,?_,hw.progress.frame hdisk hbytes⟩
      · rw [hqueue]
        exact hw.used
      · rw [hdevice]
        exact hw.running
      · rw [hdevice]
        exact hw.job
      · intro i hi
        rw [←hw.header i hi,←hnext]
        refine Function.update_of_ne (fun he => ?_) _ _
        have hge := hheader (by omega)
        omega
    | working job hw =>
      refine .working job ⟨?_,?_,hw.hdr,hw.data,hw.status,hw.progress.frame hdisk hbytes,?_⟩
      · rw [hqueue]
        exact hw.used
      · rw [hdevice]
        exact hw.has
      · intro hreported
        rw [Truthful,hbyte]
        exact hw.truthful hreported
    | finished hf =>
      obtain ⟨moved,hprogress,htruthful⟩ := hf.progress
      refine .finished ⟨?_,?_,moved,hprogress.frame hdisk hbytes,?_⟩
      · rw [hqueue]
        exact hf.used
      · rw [hdevice]
        exact hf.job
      · rw [Truthful,hbyte]
        exact htruthful

/-- Progress as seen from the calls that have returned. -/
theorem Progress.partly (h : Progress settled machine pending moved)
    (hsent : pending.sent.length=pending.call.bytes) (hw : pending.call.write=true) :
    Partly settled pending.call.lba pending.sent machine.disk := by
  refine ⟨h.sectors,moved,(h.writes hw).1,?_⟩
  intro i hi
  rw [hsent]
  exact h.fits i hi

/-- A call that returns did to the disk what it says. -/
theorem serves_finished {queue : Vring} (hp : Posted queue pending)
    (h : Progress settled machine pending moved) (ht : Truthful machine pending moved) :
    Serves settled (pending.outcome machine.memory) machine.disk := by
  obtain ⟨translate,hr⟩ := hp.reaches
  have hvalid := hp.valid
  rw [Call.Valid] at hvalid
  by_cases hzero : machine.memory (pending.mmu pending.call.status)=0
  · have hresult : (pending.outcome machine.memory).result=.ok () := if_pos hzero
    have hall := ht hzero
    have hfits : pending.call.lba*512+pending.call.bytes≤ settled.sectors*512 :=
      h.fits 0 (hall 0 (by omega))
    cases hw : pending.call.write with
    | false =>
      have hwrite : (pending.outcome machine.memory).call.write=false := hw
      obtain ⟨hdisk,hbytes⟩ := h.reads hw
      simp only [Serves,hresult,hwrite]
      refine ⟨hdisk,copy (fun _ => 0) 0 settled.image (pending.call.lba*512) pending.call.bytes,
        ?_,?_⟩
      · change settled.read pending.call.lba pending.call.bytes _=_
        rw [BlockDevice.read,if_neg hvalid,if_neg (by omega)]
      · refine (loadThrough_eq hr.bufferWhole).trans ?_
        refine bytesAt_relocated (fun i hi => ?_)
        rw [hbytes i hi (hall i hi),copy_inside _ _ (by omega) (by omega)]
        exact congrArg settled.image (by rw [Call.place]; omega)
    | true =>
      have hwrite : (pending.outcome machine.memory).call.write=true := hw
      simp only [Serves,hresult,hwrite]
      change writeSectors settled pending.call.lba pending.sent=_
      rw [writeSectors,hp.sent,if_neg hvalid,if_neg (by omega)]
      refine congrArg Except.ok (disk_eq ?_ h.sectors.symm)
      rw [(h.writes hw).1,storeMarked_all (by rw [hp.sent]; exact hall)]
      rfl
  · have hresult : (pending.outcome machine.memory).result=
        .error (.fromCode (machine.memory (pending.mmu pending.call.status)).toNat) :=
      if_neg hzero
    cases hw : pending.call.write with
    | false =>
      have hwrite : (pending.outcome machine.memory).call.write=false := hw
      simp only [Serves,hresult,hwrite]
      exact (h.reads hw).1
    | true =>
      have hwrite : (pending.outcome machine.memory).call.write=true := hw
      simp only [Serves,hresult,hwrite]
      exact h.partly hp.sent hw

/-- The descriptors go back onto the stack. -/
theorem Stocked.reclaim {queue : Vring} {submitted : Submitted}
    (h : Stocked queue [submitted.d2,submitted.d1,submitted.d0]) :
    Stocked (reclaim queue submitted) [] := by
  have hsub : freeStack queue++[submitted.d2,submitted.d1,submitted.d0]⊆
      List.range queue.num := fun d hm => List.mem_range.mpr (h.below d hm)
  have hlength := (h.distinct.subperm hsub).length_le
  rw [List.length_append,List.length_range] at hlength
  have hsmall := h.small
  have hstack := reclaim_stack (rfl : freeStack queue=_)
    (by simp only [List.length_cons,List.length_nil] at hlength; omega) submitted
  have hperm : (freeStack queue++[submitted.d0,submitted.d1,submitted.d2]).Perm
      (freeStack queue++[submitted.d2,submitted.d1,submitted.d0]) :=
    List.Perm.append_left _
      (List.reverse_perm [submitted.d2,submitted.d1,submitted.d0])
  refine ⟨h.pos,h.small,?_,?_⟩
  · rw [List.append_nil,hstack]
    exact hperm.nodup_iff.mpr h.distinct
  · intro d hd
    rw [List.append_nil,hstack] at hd
    exact h.below d (hperm.mem_iff.mp hd)

/-- A test of the polling loop. -/
theorem serving_poll (h : Serving initial machine) (hs : step machine .poll=some next) :
    Serving initial next := by
  cases hd : machine.driver with
  | idle =>
    simp only [step,hd] at hs
    cases hs
  | polling pending =>
    obtain ⟨hindex,hposted,settled,hreplays,hstage⟩ := (serving_polling hd).mp h
    simp only [step,hd] at hs
    split at hs
    · cases hs
      exact h
    · rename_i hne
      cases hstage with
      | waiting hw => exact absurd hw.used hne
      | working job hw => exact absurd hw.used hne
      | finished hf =>
        obtain ⟨moved,hprogress,htruthful⟩ := hf.progress
        have hnext := Option.some.inj hs
        have hidle : next.driver=.idle := by rw [←hnext]
        refine (serving_idle hidle).mpr ?_
        rw [←hnext]
        refine ⟨hindex,hposted.stocked.reclaim,hf.used.symm,hf.used.trans hposted.ahead,hf.job,
          hreplays.snoc (serves_finished hposted hprogress htruthful)⟩

/-- Every step keeps the invariant. -/
theorem serving_step (machine : Machine) (action : Action) (next : Machine)
    (h : Serving initial machine) (hl : Legal machine action)
    (hs : step machine action=some next) : Serving initial next := by
  cases action with
  | submit translate mmu call => exact serving_submit h hl hs
  | take => exact serving_take h hs
  | move i => exact serving_move h hs
  | report status => exact serving_report h hs
  | finish => exact serving_finish h hs
  | rest => exact serving_rest h hs
  | poll => exact serving_poll h hs
  | store address value => exact serving_store h hl hs

/-- The invariant holds at the start. -/
theorem Ready.serving (h : Ready machine) : Serving machine.disk machine := by
  obtain ⟨preferredNum,qmax,desc,availRing,hq,hs⟩ := h.queue
  have hsound := setupQueue0_sound hq hs
  refine (serving_idle h.driver).mpr ?_
  rw [h.device,h.history]
  rw [setupQueue0] at hs
  split at hs
  · cases hs
  · refine ⟨?_,stocked_of_sound hsound,?_,?_,rfl,.nil⟩
    · rw [←Option.some.inj hs]
    · rw [←Option.some.inj hs]
    · rw [←Option.some.inj hs]

/-- The invariant gives the disk of the calls that have returned. -/
theorem Serving.current (h : Serving initial machine) :
    ∃ settled,Replays initial machine.history settled ∧ Current settled machine := by
  cases hd : machine.driver with
  | idle =>
    obtain ⟨-,-,-,-,-,hreplays⟩ := (serving_idle hd).mp h
    refine ⟨machine.disk,hreplays,?_⟩
    simp only [Current,hd]
  | polling pending =>
    obtain ⟨-,hposted,settled,hreplays,hstage⟩ := (serving_polling hd).mp h
    have hprogress : ∃ moved,Progress settled machine pending moved := by
      cases hstage with
      | waiting hw => exact ⟨_,hw.progress⟩
      | working job hw => exact ⟨_,hw.progress⟩
      | finished hf => exact ⟨_,hf.progress.choose_spec.1⟩
    obtain ⟨moved,hprogress⟩ := hprogress
    refine ⟨settled,hreplays,?_⟩
    simp only [Current,hd]
    split
    · rename_i hw
      exact hprogress.partly hposted.sent hw
    · rename_i hw
      exact (hprogress.reads (Bool.eq_false_iff.mpr hw)).1

end Steps

end WorkbenchOS.VirtioDisk
