import WorkbenchOS.VirtioDescriptors

/-!
# Driver and device on one ring

The driver publishes a chain of three descriptors and polls; the device keeps
an index of its own, is woken by the notification and then takes one entry
after another until it has caught up. Steps of the two are interleaved in any
order. A device that is still running when the next notification arrives may
take the new entry in the same round. All indices wrap at 16 bits, and the
number of requests is not bounded.
-/

namespace WorkbenchOS.VirtioRing

open LibStd TransitionRuns VirtioBlock VirtioDescriptors

/-- One piece of memory of a request. -/
structure Segment where
  /-- Physical address. -/
  addr : ℕ
  /-- Bytes. -/
  len : ℕ
  /-- The device writes it, else it reads it. -/
  deviceWrites : Bool
  deriving DecidableEq

/-- How the device reads a descriptor. -/
def VDesc.segment (desc : VDesc) : Segment :=
  ⟨desc.addr,desc.len,decide (desc.flags &&& descFWrite≠0)⟩

/-- How the device follows a chain, at most as far as the table is long. -/
def chain (desc : ℕ→VDesc) : ℕ→ℕ→List ℕ
  | 0,_ => []
  | fuel+1,head =>
    head::if (desc head).flags &&& descFNext≠0 then chain desc fuel (desc head).next else []

/-- The device. -/
structure Device where
  /-- Its own index into the available ring. -/
  index : ℕ
  /-- Notified and not yet caught up. -/
  running : Bool
  /-- The requests processed so far. -/
  log : List (List Segment)

/-- Where the driver is. -/
inductive Driver where
  /-- Outside `rw`. -/
  | idle
  /-- In the polling loop of `rw`. -/
  | polling (submitted : Submitted)

/-- Driver, device and the ring they share. -/
structure System where
  /-- The ring. -/
  queue : Vring
  /-- The device. -/
  device : Device
  /-- The driver. -/
  driver : Driver
  /-- The requests notified so far. -/
  issued : List (List Segment)

/-- One step of one of the two. -/
inductive RingAction where
  /-- `rw` up to the notification. -/
  | submit (translate : ℕ→Except Error ℕ) (call : Call)
  /-- The device takes an entry, or finds none left. -/
  | device
  /-- One test of the polling loop, and the rest of `rw` when it ends. -/
  | poll

/-- The three segments a call asks for: the header and the data it writes out
are read by the device, the data it reads in and the status are written. -/
def requested (translate : ℕ→Except Error ℕ) (call : Call) : List Segment :=
  match translate call.header,translate call.buffer,translate call.status with
  | .ok hdrPa,.ok bufPa,.ok stPa =>
    [⟨hdrPa,16,false⟩,⟨bufPa,call.bytes,!call.write⟩,⟨stPa,1,true⟩]
  | _,_,_ => []

/-- The entry of the available ring the device takes next. -/
def nextEntry (queue : Vring) (device : Device) : List Segment :=
  (chain queue.desc queue.num (queue.availRing (device.index%queue.num))).map
    (fun i => VDesc.segment (queue.desc i))

/-- The device works on one entry. -/
def process (queue : Vring) (device : Device) : Vring×Device :=
  ({queue with usedIdx := u16 (queue.usedIdx+1)},
    {device with
      index := u16 (device.index+1)
      log := device.log++[nextEntry queue device]})

/-- One step of the system; a step the party cannot take has no result. -/
def ringStep (system : System) : RingAction→Option System
  | .submit translate call =>
    match system.driver with
    | .polling _ => none
    | .idle =>
      match submit translate system.queue call with
      | (.error _,_) => none
      | (.ok submitted,queue) => some {
          queue := queue
          device := {system.device with running := true}
          driver := .polling submitted
          issued := system.issued++[requested translate call]}
  | .device =>
    if system.device.running=false then some system
    else if system.device.index=system.queue.availIdx then
      some {system with device := {system.device with running := false}}
    else some {system with
      queue := (process system.queue system.device).1
      device := (process system.queue system.device).2}
  | .poll =>
    match system.driver with
    | .idle => none
    | .polling submitted =>
      if system.queue.usedIdx=system.queue.usedIdxShadow then some system
      else some {system with queue := reclaim system.queue submitted,driver := .idle}

/-- Nothing sent yet. -/
def start (queue : Vring) : System := ⟨queue,⟨0,false,[]⟩,.idle,[]⟩

/-- What the driver has published while it polls: the slot below the
available index holds the head of a chain of three distinct descriptors, and
the chain describes the last request. -/
structure Published (system : System) (submitted : Submitted) : Prop where
  /-- One entry above the completed ones. -/
  ahead : system.queue.availIdx=u16 (system.queue.usedIdxShadow+1)
  /-- The slot. -/
  slot : system.queue.availRing (system.queue.usedIdxShadow%system.queue.num)=submitted.d0
  /-- The chain. -/
  chained : chain system.queue.desc system.queue.num submitted.d0=
    [submitted.d0,submitted.d1,submitted.d2]
  /-- Its descriptors are distinct. -/
  distinct : [submitted.d0,submitted.d1,submitted.d2].Nodup
  /-- They are in the table. -/
  below : ∀ d∈[submitted.d0,submitted.d1,submitted.d2],d<system.queue.num
  /-- They describe the request. -/
  describes : [submitted.d0,submitted.d1,submitted.d2].map
    (fun d => VDesc.segment (system.queue.desc d))∈system.issued.getLast?

/-- Outside `rw` every request has been processed once and the three indices
agree. While `rw` polls, the published chain stands, and the polling loop can
end only when the device has processed it. -/
def Agreement (system : System) : Prop :=
  match system.driver with
  | .idle =>
    system.device.log=system.issued ∧
      system.queue.availIdx=system.issued.length%2^16 ∧
      system.queue.availIdx=system.queue.usedIdx ∧
      system.queue.usedIdx=system.queue.usedIdxShadow
  | .polling submitted =>
    Published system submitted ∧
      (system.queue.usedIdx=system.queue.usedIdxShadow ∧ system.device.running=true ∧
          system.device.log=system.issued.dropLast ∨
        system.queue.usedIdx≠system.queue.usedIdxShadow ∧ system.device.log=system.issued)

section Chains

variable (queue : Vring) (call : Call) {d0 d1 d2 : ℕ} (hdrPa bufPa stPa : ℕ)

/-- The table after the three stores of `rw`. -/
theorem publish_desc (h : [d0,d1,d2].Nodup) :
    (publish queue call d0 d1 d2 hdrPa bufPa stPa).desc d0=⟨hdrPa,16,descFNext,d1⟩ ∧
    (publish queue call d0 d1 d2 hdrPa bufPa stPa).desc d1=
      ⟨bufPa,call.bytes,descFNext ||| (if call.write then 0 else descFWrite),d2⟩ ∧
    (publish queue call d0 d1 d2 hdrPa bufPa stPa).desc d2=⟨stPa,1,descFWrite,0⟩ := by
  have h01 : d0≠d1 := fun he => by simp [he] at h
  have h02 : d0≠d2 := fun he => by simp [he] at h
  have h12 : d1≠d2 := fun he => by simp [he] at h
  simp only [publish]
  rw [Function.update_of_ne h02,Function.update_of_ne h01,Function.update_self,
    Function.update_of_ne h12,Function.update_self,Function.update_self]
  exact ⟨rfl,rfl,rfl⟩

/-- The device follows the published chain to its third descriptor. -/
theorem publish_chain (h : [d0,d1,d2].Nodup) {fuel : ℕ} (hf : 3≤fuel) :
    chain (publish queue call d0 d1 d2 hdrPa bufPa stPa).desc fuel d0=[d0,d1,d2] := by
  have hp := publish_desc queue call hdrPa bufPa stPa h
  obtain ⟨fuel,rfl⟩ := Nat.exists_eq_add_of_le' hf
  have hnext : (descFNext ||| (if call.write then 0 else descFWrite)) &&& descFNext≠0 := by
    cases call.write <;> decide
  have hheader : descFNext &&& descFNext≠0 := by decide
  have hstatus : ¬descFWrite &&& descFNext≠0 := by decide
  simp only [chain,hp.1,if_pos hheader,hp.2.1,if_pos hnext,hp.2.2,if_neg hstatus]

/-- The published chain describes the request. -/
theorem publish_segments (h : [d0,d1,d2].Nodup) :
    [d0,d1,d2].map (fun d => VDesc.segment
        ((publish queue call d0 d1 d2 hdrPa bufPa stPa).desc d))=
      [⟨hdrPa,16,false⟩,⟨bufPa,call.bytes,!call.write⟩,⟨stPa,1,true⟩] := by
  have hp := publish_desc queue call hdrPa bufPa stPa h
  simp only [List.map_cons,List.map_nil,hp.1,hp.2.1,hp.2.2]
  cases call.write <;> simp [VDesc.segment,descFNext,descFWrite]

end Chains

section Steps

variable {system next : System} {queue : Vring} {submitted : Submitted}

/-- A submission that reaches the notification took three descriptors off the
stack and published them. -/
theorem submit_inv {translate : ℕ→Except Error ℕ} {call : Call} {published : Vring}
    (h : Sound queue) (h3 : 3≤queue.num)
    (hs : submit translate queue call=(.ok submitted,published)) :
    ∃ rest hdrPa bufPa stPa,
      freeStack queue=rest++[submitted.d2,submitted.d1,submitted.d0] ∧
      Translated translate call hdrPa bufPa stPa ∧
      published=publish (cut queue rest.length) call submitted.d0 submitted.d1 submitted.d2
        hdrPa bufPa stPa := by
  have hv : call.Valid := by
    by_contra hv
    rw [submit,if_pos (not_not.mp hv)] at hs
    cases hs
  obtain ⟨rest,d0,d1,d2,hstack,hd⟩ := h.top h3
  by_cases ht : ∃ hdrPa bufPa stPa, Translated translate call hdrPa bufPa stPa
  · obtain ⟨hdrPa,bufPa,stPa,ht⟩ := ht
    rw [submit_ok hv hstack hd ht] at hs
    cases hs
    exact ⟨rest,hdrPa,bufPa,stPa,hstack,ht,rfl⟩
  · obtain ⟨e,he⟩ := submit_untranslated hv hstack hd ht
    rw [he] at hs
    cases hs

/-- The part of the invariant that depends on where the driver is. -/
def Phase (system : System) : Prop :=
  match system.driver with
  | .idle =>
    Sound system.queue ∧ system.device.log=system.issued ∧
      system.queue.availIdx=system.queue.usedIdx ∧
      system.queue.usedIdx=system.queue.usedIdxShadow
  | .polling submitted =>
    Published system submitted ∧
      (freeStack system.queue++[submitted.d2,submitted.d1,submitted.d0]).Perm
        (List.range system.queue.num) ∧
      (system.queue.usedIdx=system.queue.usedIdxShadow ∧ system.device.running=true ∧
          system.device.log=system.issued.dropLast ∨
        system.queue.usedIdx=system.queue.availIdx ∧ system.device.log=system.issued)

/-- The invariant of the two parties. -/
structure Ring (system : System) : Prop where
  /-- A chain fits the table. -/
  three : 3≤ system.queue.num
  /-- Table sizes have 16 bits. -/
  small : system.queue.num<2^16
  /-- The device counts its completions as its entries. -/
  index : system.device.index=system.queue.usedIdx
  /-- The available index counts the requests. -/
  counted : system.queue.availIdx=system.issued.length%2^16
  /-- The driver is idle or polls. -/
  phase : Phase system

/-- An index differs from its wrapped successor. -/
theorem u16_succ_ne (index : ℕ) : u16 (index+1)≠ index := by
  rw [u16]
  omega

/-- Counting one request more. -/
theorem u16_length_concat (issued : List (List Segment)) (request : List Segment) :
    u16 (issued.length%2^16+1)=(issued++[request]).length%2^16 := by
  rw [u16,List.length_append,List.length_singleton]
  omega

/-- The notification leaves a published chain and a running device. -/
theorem ring_submit (h : Ring system) {translate : ℕ→Except Error ℕ} {call : Call}
    (hs : ringStep system (.submit translate call)=some next) : Ring next := by
  cases hd : system.driver with
  | polling submitted =>
    simp only [ringStep,hd] at hs
    cases hs
  | idle =>
    have hphase := h.phase
    simp only [Phase,hd] at hphase
    obtain ⟨hsound,hlog,hau,hus⟩ := hphase
    simp only [ringStep,hd] at hs
    rcases hsub : submit translate system.queue call with ⟨result,published⟩
    rw [hsub] at hs
    cases result with
    | error e => cases hs
    | ok submitted =>
      cases hs
      obtain ⟨rest,hdrPa,bufPa,stPa,hstack,ht,rfl⟩ := submit_inv hsound h.three hsub
      have hperm : (rest++[submitted.d2,submitted.d1,submitted.d0]).Perm
          (List.range system.queue.num) := hstack ▸ hsound.whole.2
      have hrev : [submitted.d0,submitted.d1,submitted.d2].Perm
          [submitted.d2,submitted.d1,submitted.d0] :=
        List.reverse_perm [submitted.d2,submitted.d1,submitted.d0]
      have hdistinct : [submitted.d0,submitted.d1,submitted.d2].Nodup :=
        hrev.nodup_iff.mpr (List.Nodup.of_append_right (hperm.nodup_iff.mpr List.nodup_range))
      have hrequest : requested translate call=
          [⟨hdrPa,16,false⟩,⟨bufPa,call.bytes,!call.write⟩,⟨stPa,1,true⟩] := by
        simp only [requested,ht.header,ht.buffer,ht.status]
      refine ⟨h.three,h.small,h.index,?_,?_,?_,Or.inl ⟨hus,rfl,?_⟩⟩
      · change u16 (system.queue.availIdx+1)=_
        rw [h.counted]
        exact u16_length_concat _ _
      · constructor
        · change u16 (system.queue.availIdx+1)=u16 (system.queue.usedIdxShadow+1)
          rw [hau,hus]
        · change Function.update system.queue.availRing
            (system.queue.availIdx%system.queue.num) submitted.d0
              (system.queue.usedIdxShadow%system.queue.num)=_
          rw [hau,hus,Function.update_self]
        · exact publish_chain _ _ _ _ _ hdistinct h.three
        · exact hdistinct
        · intro d hm
          have hmem := List.mem_append_right rest (hrev.mem_iff.mp hm)
          exact List.mem_range.mp (hperm.mem_iff.mp hmem)
        · dsimp only
          rw [publish_segments _ _ _ _ _ hdistinct,List.getLast?_concat,hrequest]
          rfl
      · change (freeStack (cut system.queue rest.length)++_).Perm _
        rw [(pops hstack).2.2.2]
        exact hperm
      · exact hlog.trans List.dropLast_concat.symm

/-- Processing the published entry completes the request. -/
theorem ring_process (h : Ring system) (hd : system.driver=.polling submitted)
    (hne : system.device.index≠system.queue.availIdx) :
    Ring {system with
      queue := (process system.queue system.device).1
      device := (process system.queue system.device).2} := by
  have hphase := h.phase
  simp only [Phase,hd] at hphase
  obtain ⟨hpub,hperm,⟨hus,hrun,hlog⟩|⟨hua,-⟩⟩ := hphase
  · have hentry : nextEntry system.queue system.device∈system.issued.getLast? := by
      rw [nextEntry,h.index,hus,hpub.slot,hpub.chained]
      exact hpub.describes
    have hissued := List.dropLast_append_getLast? _ hentry
    refine ⟨h.three,h.small,?_,h.counted,?_⟩
    · change u16 (system.device.index+1)=u16 (system.queue.usedIdx+1)
      rw [h.index]
    · simp only [Phase,hd]
      refine ⟨⟨hpub.ahead,hpub.slot,hpub.chained,hpub.distinct,hpub.below,hpub.describes⟩,
        hperm,Or.inr ⟨?_,?_⟩⟩
      · change u16 (system.queue.usedIdx+1)=system.queue.availIdx
        rw [hus,hpub.ahead]
      · change system.device.log++[_]=system.issued
        rw [hlog,hissued]
  · exact absurd (h.index.trans hua) hne

/-- A step of the device. -/
theorem ring_device (h : Ring system) (hs : ringStep system .device=some next) : Ring next := by
  simp only [ringStep] at hs
  split at hs
  · cases hs
    exact h
  · rename_i hrun
    split at hs
    · rename_i hcaught
      cases hs
      refine ⟨h.three,h.small,h.index,h.counted,?_⟩
      have hphase := h.phase
      cases hd : system.driver with
      | idle =>
        simp only [Phase,hd] at hphase ⊢
        exact hphase
      | polling submitted =>
        simp only [Phase,hd] at hphase ⊢
        obtain ⟨hpub,hperm,⟨hus,-,-⟩|hdone⟩ := hphase
        · have hne := u16_succ_ne system.queue.usedIdxShadow
          rw [←hpub.ahead,←hus,←h.index] at hne
          exact absurd hcaught.symm hne
        · exact ⟨⟨hpub.ahead,hpub.slot,hpub.chained,hpub.distinct,hpub.below,hpub.describes⟩,
            hperm,Or.inr hdone⟩
    · rename_i hne
      cases hs
      cases hd : system.driver with
      | idle =>
        have hphase := h.phase
        simp only [Phase,hd] at hphase
        exact absurd (h.index.trans hphase.2.2.1.symm) hne
      | polling submitted =>
        have hp := ring_process h hd hne
        rw [hd] at hp
        exact hp

/-- A step of the polling loop. -/
theorem ring_poll (h : Ring system) (hs : ringStep system .poll=some next) : Ring next := by
  simp only [ringStep] at hs
  have hphase := h.phase
  cases hd : system.driver with
  | idle =>
    rw [hd] at hs
    cases hs
  | polling submitted =>
    rw [hd] at hs
    dsimp only at hs
    simp only [Phase,hd] at hphase
    obtain ⟨hpub,hperm,hdone⟩ := hphase
    split at hs
    · cases hs
      exact h
    · rename_i hne
      cases hs
      obtain ⟨hus,-,-⟩|⟨hua,hlog⟩ := hdone
      · exact absurd hus hne
      have hshadow : u16 (system.queue.usedIdxShadow+1)=system.queue.availIdx := hpub.ahead.symm
      have hpos : 0<system.queue.num := by have := h.three; omega
      exact ⟨h.three,h.small,h.index,h.counted,
        sound_reclaim hpos h.small rfl hperm,hlog,hua.symm,hua.trans hshadow.symm⟩

/-- Every step keeps the invariant. -/
theorem ring_step (system : System) (action : RingAction) (next : System) (h : Ring system)
    (hs : ringStep system action=some next) : Ring next := by
  cases action with
  | submit translate call => exact ring_submit h hs
  | device => exact ring_device h hs
  | poll => exact ring_poll h hs

/-- The invariant gives the agreement. -/
theorem Ring.agreement (h : Ring system) : Agreement system := by
  have hphase := h.phase
  cases hd : system.driver with
  | idle =>
    simp only [Phase,Agreement,hd] at hphase ⊢
    exact ⟨hphase.2.1,h.counted,hphase.2.2⟩
  | polling submitted =>
    simp only [Phase,Agreement,hd] at hphase ⊢
    obtain ⟨hpub,-,hpending|⟨hua,hlog⟩⟩ := hphase
    · exact ⟨hpub,Or.inl hpending⟩
    · refine ⟨hpub,Or.inr ⟨?_,hlog⟩⟩
      rw [hua,hpub.ahead]
      exact u16_succ_ne system.queue.usedIdxShadow

/-- A call that `rw` carries out. -/
def Served (request : (ℕ→Except Error ℕ)×Call) : Prop :=
  request.2.Valid ∧ Translates request.1 request.2.header ∧
    Translates request.1 request.2.buffer ∧ Translates request.1 request.2.status

instance (request : (ℕ→Except Error ℕ)×Call) : Decidable (Served request) :=
  inferInstanceAs (Decidable (_∧_))

/-- An idle driver can send. -/
theorem submit_enabled (h : Ring system) (hd : system.driver=.idle)
    {request : (ℕ→Except Error ℕ)×Call} (hr : Served request) :
    ∃ next submitted, ringStep system (.submit request.1 request.2)=some next ∧
      next.driver=.polling submitted ∧
      next.issued=system.issued++[requested request.1 request.2] := by
  have hphase := h.phase
  simp only [Phase,hd] at hphase
  obtain ⟨hv,th,tb,ts⟩ := hr
  obtain ⟨hdrPa,hh⟩ := th.get
  obtain ⟨bufPa,hb⟩ := tb.get
  obtain ⟨stPa,hst⟩ := ts.get
  obtain ⟨rest,d0,d1,d2,hs,hdesc⟩ := hphase.1.top h.three
  simp only [ringStep,hd,submit_ok hv hs hdesc ⟨hh,hb,hst⟩]
  exact ⟨_,_,rfl,rfl,rfl⟩

/-- After a step of the device the polling loop can end. -/
theorem device_completes (h : Ring system) (hd : system.driver=.polling submitted) :
    ∃ next, ringStep system .device=some next ∧ next.driver=.polling submitted ∧
      next.issued=system.issued ∧ next.queue.usedIdx≠next.queue.usedIdxShadow := by
  have hphase := h.phase
  simp only [Phase,hd] at hphase
  obtain ⟨hpub,-,⟨hus,hrun,-⟩|⟨hua,-⟩⟩ := hphase
  · have hne : system.device.index≠system.queue.availIdx := by
      rw [h.index,hus,hpub.ahead]
      exact (u16_succ_ne _).symm
    rw [ringStep,if_neg (by rw [hrun]; decide),if_neg hne]
    refine ⟨_,rfl,hd,rfl,?_⟩
    change u16 (system.queue.usedIdx+1)≠system.queue.usedIdxShadow
    rw [hus]
    exact u16_succ_ne _
  · have hne : system.queue.usedIdx≠system.queue.usedIdxShadow := by
      rw [hua,hpub.ahead]
      exact u16_succ_ne _
    rw [ringStep]
    split
    · exact ⟨_,rfl,hd,rfl,hne⟩
    · rw [if_pos (h.index.trans hua)]
      exact ⟨_,rfl,hd,rfl,hne⟩

/-- The polling loop ends on a new used index. -/
theorem poll_ends (hd : system.driver=.polling submitted)
    (hne : system.queue.usedIdx≠system.queue.usedIdxShadow) :
    ∃ next, ringStep system .poll=some next ∧ next.driver=.idle ∧
      next.issued=system.issued := by
  simp only [ringStep,hd,if_neg hne]
  exact ⟨_,rfl,rfl,rfl⟩

/-- One whole call of `rw` against a device that works off the ring at the
notification. -/
def callActions (request : (ℕ→Except Error ℕ)×Call) : List RingAction :=
  [.submit request.1 request.2,.device,.device,.poll]

/-- One call is served. -/
theorem call_served (h : Ring system) (hd : system.driver=.idle)
    {request : (ℕ→Except Error ℕ)×Call} (hr : Served request) :
    ∃ done, run ringStep system (callActions request)=some done ∧ Ring done ∧
      done.driver=.idle ∧ done.issued=system.issued++[requested request.1 request.2] := by
  obtain ⟨s1,submitted,e1,d1,i1⟩ := submit_enabled h hd hr
  have r1 := ring_step _ _ _ h e1
  obtain ⟨s2,e2,d2,i2,-⟩ := device_completes r1 d1
  have r2 := ring_step _ _ _ r1 e2
  obtain ⟨s3,e3,d3,i3,n3⟩ := device_completes r2 d2
  have r3 := ring_step _ _ _ r2 e3
  obtain ⟨s4,e4,d4,i4⟩ := poll_ends d3 n3
  refine ⟨s4,?_,ring_step _ _ _ r3 e4,d4,?_⟩
  · simp only [callActions,run,e1,e2,e3,e4,Option.bind_some]
  · rw [i4,i3,i2,i1]

/-- Any number of calls is served. -/
theorem calls_served (requests : List ((ℕ→Except Error ℕ)×Call)) (h : Ring system)
    (hd : system.driver=.idle) (hr : ∀ request∈requests,Served request) :
    ∃ done, run ringStep system (requests.flatMap callActions)=some done ∧ Ring done ∧
      done.driver=.idle ∧
      done.issued=system.issued++requests.map (fun request => requested request.1 request.2) := by
  induction requests generalizing system with
  | nil => exact ⟨system,rfl,h,hd,by rw [List.map_nil,List.append_nil]⟩
  | cons request rest ih =>
    obtain ⟨hfirst,hrest⟩ := List.forall_mem_cons.mp hr
    obtain ⟨middle,e1,r1,d1,i1⟩ := call_served h hd hfirst
    obtain ⟨done,e2,r2,d2,i2⟩ := ih r1 d1 hrest
    refine ⟨done,?_,r2,d2,?_⟩
    · rw [List.flatMap_cons,run_append,e1,Option.bind_some,e2]
    · rw [i2,i1,List.map_cons,List.append_assoc,List.singleton_append]

/-- A fresh queue and a reset device satisfy the invariant. -/
theorem ring_start {preferredNum qmax : ℕ} {desc : ℕ→VDesc} {availRing : ℕ→ℕ}
    (hq : qmax<2^16) (hs : setupQueue0 preferredNum qmax desc availRing=some queue)
    (h3 : 3≤queue.num) : Ring (start queue) := by
  have hsound := setupQueue0_sound hq hs
  rw [setupQueue0] at hs
  split at hs
  · cases hs
  · cases hs
    exact ⟨h3,hsound.small,rfl,rfl,hsound,rfl,rfl,rfl⟩

end Steps

/-- Driver and device agree. In every interleaving every state reached is in
agreement, and a polling driver needs one step of the device to get out of
its loop; and any list of valid calls is served to its end, each request
processed once and in order, with all three indices at their number modulo
2^16. -/
theorem ring_agreement {preferredNum qmax : ℕ} {desc : ℕ→VDesc} {availRing : ℕ→ℕ}
    {queue : Vring} (hq : qmax<2^16)
    (hs : setupQueue0 preferredNum qmax desc availRing=some queue) (h3 : 3≤queue.num) :
    (∀ actions reached, run ringStep (start queue) actions=some reached →
      Agreement reached ∧
        ∀ submitted, reached.driver=.polling submitted →
          ∃ done, run ringStep reached [.device,.poll]=some done ∧ done.driver=.idle) ∧
    ∀ requests : List ((ℕ→Except Error ℕ)×Call), (∀ request∈requests,Served request) →
      ∃ done, run ringStep (start queue) (requests.flatMap callActions)=some done ∧
        done.driver=.idle ∧
        done.device.log=requests.map (fun request => requested request.1 request.2) ∧
        done.queue.availIdx=requests.length%2^16 ∧
        done.queue.usedIdx=requests.length%2^16 ∧
        done.queue.usedIdxShadow=requests.length%2^16 := by
  have hstart := ring_start hq hs h3
  constructor
  · intro actions reached hr
    have hring := run_keeps ring_step hstart hr
    refine ⟨hring.agreement,?_⟩
    intro submitted hd
    obtain ⟨next,hn,hnd,-,hne⟩ := device_completes hring hd
    obtain ⟨done,hdone,hidle,-⟩ := poll_ends hnd hne
    refine ⟨done,?_,hidle⟩
    simp only [run,hn,hdone,Option.bind_some]
  · intro requests hserved
    obtain ⟨done,hrun,hring,hidle,hissued⟩ := calls_served requests hstart rfl hserved
    have hagree := hring.agreement
    simp only [Agreement,hidle] at hagree
    obtain ⟨hlog,hcount,hau,hus⟩ := hagree
    have hissued : done.issued=requests.map (fun request => requested request.1 request.2) :=
      hissued
    have hlength : done.issued.length=requests.length := by rw [hissued,List.length_map]
    rw [hlength] at hcount
    exact ⟨done,hrun,hidle,hlog.trans hissued,hcount,hau ▸ hcount,hus ▸ hau ▸ hcount⟩

/-- A queue of three descriptors serves two reads of a sector. -/
theorem ring_agreement_reads :
    ∃ done, run ringStep (start (freshQueue 3))
        ([(.ok,readCall 7 512 0x4000 0x9000 0x9010),
          (.ok,writeCall 8 512 0x5000 0x9000 0x9010)].flatMap callActions)=some done ∧
      done.driver=.idle ∧
      done.device.log=[[⟨0x9000,16,false⟩,⟨0x4000,512,true⟩,⟨0x9010,1,true⟩],
        [⟨0x9000,16,false⟩,⟨0x5000,512,false⟩,⟨0x9010,1,true⟩]] ∧
      done.queue.availIdx=2 ∧ done.queue.usedIdx=2 ∧ done.queue.usedIdxShadow=2 :=
  (ring_agreement (by decide : 3<2^16)
    (rfl : setupQueue0 0 3 (fun _ => ⟨0,0,0,0⟩) (fun _ => 0)=some (freshQueue 3))
    (le_refl 3)).2 _ (by decide +kernel)

end WorkbenchOS.VirtioRing
