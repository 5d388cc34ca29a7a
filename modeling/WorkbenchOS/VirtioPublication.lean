import WorkbenchOS.VirtioStores

/-!
# The ring in memory refines the ring

A run of stores and bytes is matched by a run of the machine whose driver
publishes a request in one step. The request is hidden while the driver fills
its descriptors and enters the head into the available ring, though the device
may be awake and looking; the store of the available index is the step that
publishes it. The notification behind it is no step at all for the machine
above, whose device may then have finished already.
-/

namespace WorkbenchOS.VirtioMemory

open ByteMemory Fat32 LibStd TransitionRuns Simulations
open VirtioBlock (VDesc Call Submitted u16 publish)
open VirtioDetection (vringSizeBytes)
open VirtioDisk (Device Job Outcome Pending Serving storeThrough loadThrough prepared Reaches
  Replays Enters)

section Relation

/-- Two memories agree outside the ring. -/
def Agree (machine : Machine) (memory other : Memory) : Prop :=
  ∀ x,¬machine.InRing x → memory x=other x

/-- The machine above has the queue that lies in memory. -/
structure Shared (machine : Machine) (abstract : VirtioDisk.Machine) : Prop where
  /-- The queue. -/
  queue : abstract.queue=machine.queue
  /-- The memory beside it. -/
  memory : Agree machine machine.memory abstract.memory

/-- A published request. -/
structure Visible (machine : Machine) (abstract : VirtioDisk.Machine) (pending : Pending) :
    Prop where
  /-- The machine above polls. -/
  driver : abstract.driver=.polling pending
  /-- The ring is mapped. -/
  maps : machine.Maps pending.mmu
  /-- The memory of the call is elsewhere. -/
  beside : machine.Beside pending.mmu pending.call
  /-- Both have the same queue. -/
  shared : Shared machine abstract

/-- A request that has these stores left. -/
structure Hidden (machine : Machine) (abstract : VirtioDisk.Machine) (pending : Pending)
    (rest : List Store) : Prop where
  /-- The machine above has not heard of it. -/
  driver : abstract.driver=.idle
  /-- The ring is mapped. -/
  maps : machine.Maps pending.mmu
  /-- The memory of the call is elsewhere. -/
  beside : machine.Beside pending.mmu pending.call
  /-- After the stores the queue is as the machine above will publish it. -/
  submits : ∃ translate,Reaches translate pending.mmu pending.call ∧
    VirtioBlock.submit translate abstract.queue pending.call=(.ok pending.submitted,
      queueOf machine.base machine.qmax machine.ring (applyAll pending.mmu machine.memory rest))
  /-- The buffer at the call. -/
  sent : pending.sent=loadThrough pending.mmu
    (prepared pending.mmu abstract.memory pending.call) pending.call.buffer pending.call.bytes
  /-- The stack variables are set up. -/
  memory : Agree machine machine.memory (prepared pending.mmu abstract.memory pending.call)
  /-- The available index is the old one. -/
  availIdx : machine.queue.availIdx=abstract.queue.availIdx
  /-- The used index is the old one. -/
  usedIdx : machine.queue.usedIdx=abstract.queue.usedIdx

/-- How the two machines stand to each other, by where the driver is. -/
def Phase (machine : Machine) (abstract : VirtioDisk.Machine) : Prop :=
  match machine.driver with
  | .idle => abstract.driver=.idle ∧ Shared machine abstract
  | .describing pending todo => (∀ store∈todo,Quiet machine store) ∧
      Hidden machine abstract pending
        (todo++availStores machine.ring pending.submitted.d0 machine.queue.availIdx)
  | .entering pending todo => (todo=[] ∧ Visible machine abstract pending) ∨
      ∃ front index,todo=front++[indexStore machine.ring index] ∧
        (∀ store∈front,Quiet machine store) ∧ Hidden machine abstract pending todo
  | .polling pending => Visible machine abstract pending

/-- The machine above follows the one below. -/
structure Follows (machine : Machine) (abstract : VirtioDisk.Machine) : Prop where
  /-- The pointers are right. -/
  placed : Placed machine
  /-- The disk. -/
  disk : abstract.disk=machine.disk
  /-- The calls that have returned. -/
  history : abstract.history=machine.history
  /-- The index of the device. -/
  index : abstract.device.index=machine.device.index
  /-- Its job. -/
  job : abstract.device.job=machine.device.job
  /-- No notification is lost. -/
  awake : ∀ pending,machine.driver=.polling pending →
    machine.device.index≠machine.queue.availIdx → machine.device.running=true
  /-- Driver, queue and memory. -/
  phase : Phase machine abstract

variable {machine next : Machine} {abstract : VirtioDisk.Machine} {pending : Pending}
  {mmu : ℕ→ℕ} {memory other : Memory} {call : Call} {rest : List Store}

/-- The relation outside `rw`. -/
theorem phase_idle (hd : machine.driver=.idle) :
    Phase machine abstract ↔ abstract.driver=.idle ∧ Shared machine abstract := by
  rw [Phase,hd]

/-- The relation while the descriptors are stored. -/
theorem phase_describing {todo : List Store} (hd : machine.driver=.describing pending todo) :
    Phase machine abstract ↔ (∀ store∈todo,Quiet machine store) ∧
      Hidden machine abstract pending
        (todo++availStores machine.ring pending.submitted.d0 machine.queue.availIdx) := by
  rw [Phase,hd]

/-- The relation while the available ring is stored. -/
theorem phase_entering {todo : List Store} (hd : machine.driver=.entering pending todo) :
    Phase machine abstract ↔ (todo=[] ∧ Visible machine abstract pending) ∨
      ∃ front index,todo=front++[indexStore machine.ring index] ∧
        (∀ store∈front,Quiet machine store) ∧ Hidden machine abstract pending todo := by
  rw [Phase,hd]

/-- The relation while `rw` polls. -/
theorem phase_polling (hd : machine.driver=.polling pending) :
    Phase machine abstract ↔ Visible machine abstract pending := by
  rw [Phase,hd]

/-- Setting up a call leaves the ring alone. -/
theorem prepared_ring (hb : machine.Beside mmu call) {x : ℕ} (hx : machine.InRing x) :
    prepared mmu memory call x=memory x :=
  prepared_outside (fun i hi he => hb.header i hi (he.symm ▸ hx))
    (fun he => hb.status (he.symm ▸ hx))

/-- So the queue is the same. -/
theorem queue_prepared (hb : machine.Beside mmu call) (ring : Vring) :
    queueOf machine.base machine.qmax ring (prepared mmu memory call)=
      queueOf machine.base machine.qmax ring memory :=
  queueOf_congr (base_aligned machine) (fun _ hl hr => prepared_ring hb ⟨hl,hr⟩)

/-- A buffer is loaded byte by byte. -/
theorem loadThrough_congr {address length : ℕ}
    (h : ∀ i<length,memory (mmu (address+i))=other (mmu (address+i))) :
    loadThrough mmu memory address length=loadThrough mmu other address length :=
  List.map_congr_left (fun i hi => h i (List.mem_range.mp hi))

/-- Both machines find the same buffer. -/
theorem Machine.Beside.loads (hb : machine.Beside mmu call) (ha : Agree machine memory other) :
    loadThrough mmu memory call.buffer call.bytes=loadThrough mmu other call.buffer call.bytes :=
  loadThrough_congr (fun i hi => ha _ (hb.buffer i hi))

/-- The memory of a call in one piece is not the ring. -/
theorem Machine.Beside.holds (hb : machine.Beside pending.mmu pending.call)
    {translate : ℕ→Except Error ℕ} (hr : Reaches translate pending.mmu pending.call) {x : ℕ}
    (hx : pending.Holds x) : ¬machine.InRing x := by
  rcases hx with ⟨hl,hu⟩|⟨hl,hu⟩|rfl
  · obtain ⟨i,rfl⟩ := Nat.exists_eq_add_of_le hl
    rw [←hr.headerWhole i (by omega)]
    exact hb.header i (by omega)
  · obtain ⟨i,rfl⟩ := Nat.exists_eq_add_of_le hl
    rw [←hr.bufferWhole i (by omega)]
    exact hb.buffer i (by omega)
  · exact hb.status

/-- Both machines agree on the indices. -/
theorem Follows.indices (h : Follows machine abstract) :
    machine.queue.availIdx=abstract.queue.availIdx ∧
      machine.queue.usedIdx=abstract.queue.usedIdx := by
  have hphase := h.phase
  have hshared : Shared machine abstract → machine.queue.availIdx=abstract.queue.availIdx ∧
      machine.queue.usedIdx=abstract.queue.usedIdx := by
    intro hs
    rw [hs.queue]
    exact ⟨rfl,rfl⟩
  cases hd : machine.driver with
  | idle =>
    rw [Phase,hd] at hphase
    exact hshared hphase.2
  | describing pending todo =>
    rw [Phase,hd] at hphase
    exact ⟨hphase.2.availIdx,hphase.2.usedIdx⟩
  | entering pending todo =>
    rw [Phase,hd] at hphase
    rcases hphase with ⟨-,hv⟩|⟨front,index,-,-,hh⟩
    · exact hshared hv.shared
    · exact ⟨hh.availIdx,hh.usedIdx⟩
  | polling pending =>
    rw [Phase,hd] at hphase
    exact hshared hphase.shared

/-- The driver has published the request. -/
def Posts (machine : Machine) (pending : Pending) : Prop :=
  machine.driver=.polling pending ∨ machine.driver=.entering pending []

/-- The request the machine above polls for is published. -/
theorem Follows.visible (h : Follows machine abstract) (hd : abstract.driver=.polling pending) :
    Posts machine pending ∧ Visible machine abstract pending := by
  have hphase := h.phase
  have hhidden : ∀ {other rest},Hidden machine abstract other rest → False := by
    intro other rest hh
    have hidle := hh.driver
    rw [hd] at hidle
    cases hidle
  cases hm : machine.driver with
  | idle =>
    rw [Phase,hm,hd] at hphase
    cases hphase.1
  | describing other todo =>
    rw [Phase,hm] at hphase
    exact (hhidden hphase.2).elim
  | entering other todo =>
    rw [Phase,hm] at hphase
    rcases hphase with ⟨rfl,hv⟩|⟨front,index,-,-,hh⟩
    · have he := hv.driver
      rw [hd] at he
      cases he
      exact ⟨Or.inr hm,hv⟩
    · exact (hhidden hh).elim
  | polling other =>
    rw [Phase,hm] at hphase
    have he := hphase.driver
    rw [hd] at he
    cases he
    exact ⟨Or.inl hm,hphase⟩

/-- A published request, wherever the driver has got to. -/
theorem Visible.phase (hp : Posts machine pending) (h : Visible machine abstract pending) :
    Phase machine abstract := by
  rcases hp with hd|hd
  · rw [Phase,hd]
    exact h
  · rw [Phase,hd]
    exact Or.inl ⟨rfl,h⟩

/-- The call of a posted request. -/
theorem Posts.inCall (hp : Posts machine pending) : machine.driver.pending=some pending := by
  rcases hp with hd|hd <;> rw [hd] <;> rfl

end Relation

section Calls

variable {initial : BlockDevice} {machine next : Machine} {abstract : VirtioDisk.Machine}
  {translate : ℕ→Except Error ℕ} {mmu : ℕ→ℕ} {call : Call} {base num : ℕ} {ring after : Vring}
  {memory : Memory}

/-- The driver with some free descriptors left. -/
def cut (ring : Vring) (count : ℕ) : Vring := {ring with freeCount := count}

/-- Popping is the same on both levels. -/
theorem popFree_queueOf (base num : ℕ) (ring : Vring) (memory : Memory) :
    VirtioBlock.popFree (queueOf base num ring memory)=
      ((popFree ring).1,queueOf base num (popFree ring).2 memory) := by
  rw [VirtioBlock.popFree,popFree]
  change (if ring.freeCount=0 then _ else _)=_
  split <;> rfl

/-- A call without its three descriptors fails on both levels. -/
theorem submit_refused {error : Error} (h : takeDescriptors ring call=(.error error,after)) :
    ¬Enters (queueOf base num ring memory) call ∧
      VirtioBlock.submit translate (queueOf base num ring memory) call=
        (.error error,queueOf base num after memory) := by
  rw [takeDescriptors] at h
  split at h
  · rename_i hinvalid
    obtain ⟨he,rfl⟩ := Prod.mk.inj h
    cases he
    exact ⟨fun henters => henters.1 hinvalid,by rw [VirtioBlock.submit,if_pos hinvalid]⟩
  · rename_i hvalid
    dsimp only at h
    split at h
    · rename_i hshort
      obtain ⟨he,rfl⟩ := Prod.mk.inj h
      cases he
      refine ⟨fun henters => henters.2 ?_,?_⟩
      · simp only [popFree_queueOf]
        exact hshort
      · rw [VirtioBlock.submit,if_neg hvalid,VirtioBlock.submitValid]
        simp only [popFree_queueOf,if_pos hshort]
    · cases h

/-- Three translations that succeed. -/
theorem translateRequest_ok {hdrPa bufPa stPa : ℕ}
    (h : translateRequest translate call=.ok (hdrPa,bufPa,stPa)) :
    translate call.header=.ok hdrPa ∧ translate call.buffer=.ok bufPa ∧
      translate call.status=.ok stPa := by
  rw [translateRequest] at h
  split at h
  · cases h
  · rename_i hh
    split at h
    · cases h
    · rename_i hb
      split at h
      · cases h
      · rename_i hs
        cases h
        exact ⟨hh,hb,hs⟩

/-- A call with its descriptors depends on its translations on both levels. -/
theorem submit_taken {d0 d1 d2 : ℕ} (h : takeDescriptors ring call=(.ok (d0,d1,d2),after)) :
    Enters (queueOf base num ring memory) call ∧
      (∀ error,translateRequest translate call=.error error →
        VirtioBlock.submit translate (queueOf base num ring memory) call=
          (.error error,queueOf base num after memory)) ∧
      ∀ hdrPa bufPa stPa,translateRequest translate call=.ok (hdrPa,bufPa,stPa) →
        VirtioBlock.submit translate (queueOf base num ring memory) call=
          (.ok ⟨d0,d1,d2,VirtioDescriptors.Call.request call⟩,
            publish (queueOf base num after memory) call d0 d1 d2 hdrPa bufPa stPa) := by
  rw [takeDescriptors] at h
  split at h
  · cases h
  · rename_i hvalid
    dsimp only at h
    split at h
    · cases h
    · rename_i henough
      cases h
      refine ⟨⟨hvalid,?_⟩,?_,?_⟩
      · simp only [popFree_queueOf]
        exact henough
      · intro error ht
        rw [VirtioBlock.submit,if_neg hvalid,VirtioBlock.submitValid]
        simp only [popFree_queueOf,if_neg henough]
        cases hh : translate call.header with
        | error e =>
          simp only [translateRequest,hh] at ht
          cases ht
          rfl
        | ok hdrPa =>
          cases hb : translate call.buffer with
          | error e =>
            simp only [translateRequest,hh,hb] at ht
            cases ht
            rfl
          | ok bufPa =>
            cases hs : translate call.status with
            | error e =>
              simp only [translateRequest,hh,hb,hs] at ht
              cases ht
              rfl
            | ok stPa =>
              simp only [translateRequest,hh,hb,hs] at ht
              cases ht
      · intro hdrPa bufPa stPa ht
        obtain ⟨hh,hb,hs⟩ := translateRequest_ok ht
        rw [VirtioBlock.submit,if_neg hvalid,VirtioBlock.submitValid]
        simp only [popFree_queueOf,if_neg henough,hh,hb,hs]
        rfl

/-- The pops change the number of free descriptors. -/
theorem takeDescriptors_keeps (ring : Vring) (call : Call) :
    ∃ count,(takeDescriptors ring call).2=cut ring count := by
  have hpop : ∀ ring : Vring,∃ count,(popFree ring).2=cut ring count := by
    intro ring
    rw [popFree]
    split
    · exact ⟨ring.freeCount,rfl⟩
    · exact ⟨ring.freeCount-1,rfl⟩
  rw [takeDescriptors]
  split
  · exact ⟨ring.freeCount,rfl⟩
  · obtain ⟨c0,h0⟩ := hpop ring
    obtain ⟨c1,h1⟩ := hpop (popFree ring).2
    obtain ⟨c2,h2⟩ := hpop (popFree (popFree ring).2).2
    refine ⟨c2,?_⟩
    dsimp only
    split
    · rw [h2,h1,h0]
      rfl
    · rw [h2,h1,h0]
      rfl

/-- A call that fails is a failed call above. -/
theorem follows_fails (h : Follows machine abstract) (hd : machine.driver=.idle)
    (hb : machine.Beside mmu call) {error : Error} {count : ℕ} {above : Memory}
    (hsub : VirtioBlock.submit translate abstract.queue call=(.error error,
      queueOf machine.base machine.qmax (cut machine.ring count) machine.memory))
    (hring : ∀ x,machine.InRing x → memory x=machine.memory x)
    (ha : Agree machine memory above)
    (habove : above=
      if Enters abstract.queue call then prepared mmu abstract.memory call else abstract.memory) :
    ∃ last,Leads VirtioDisk.step VirtioDisk.Legal abstract last ∧ Follows
      (machine.fails (cut machine.ring count) memory mmu call error) last := by
  have hphase := h.phase
  rw [Phase,hd] at hphase
  have hlegal : VirtioDisk.Legal abstract (.submit translate mmu call) := by
    intro hok
    rw [hsub] at hok
    cases hok
  have hstep : VirtioDisk.step abstract (.submit translate mmu call)=some {abstract with
      queue := queueOf machine.base machine.qmax (cut machine.ring count)
        machine.memory
      memory := above
      history := abstract.history++[⟨call,.error error,
        loadThrough mmu above call.buffer call.bytes,
        loadThrough mmu above call.buffer call.bytes⟩]} := by
    simp only [VirtioDisk.step,hphase.1,hsub,←habove]
  refine ⟨_,Leads.single hlegal hstep,⟨?_,h.disk,?_,h.index,h.job,
    (fun _ hp => by cases hd.symm.trans hp),?_⟩⟩
  · exact ⟨h.placed.num,h.placed.pos,h.placed.small,h.placed.avail,h.placed.used⟩
  · rw [Machine.fails,←hb.loads ha,h.history]
  · have hidle : (machine.fails (cut machine.ring count) memory mmu call
        error).driver=.idle := hd
    rw [Phase,hidle]
    exact ⟨hphase.1,(queueOf_congr (base_aligned machine) (fun x hl hr => hring x ⟨hl,hr⟩)).symm,
      ha⟩

/-- A call that comes through begins to publish. -/
theorem follows_opens (hserving : Serving initial abstract) (h : Follows machine abstract)
    (hd : machine.driver=.idle) (hm : machine.Maps mmu) (hb : machine.Beside mmu call)
    {count d0 d1 d2 hdrPa bufPa stPa : ℕ}
    (ht : takeDescriptors machine.ring call=
      (.ok (d0,d1,d2),(cut machine.ring count)))
    (hp : translateRequest translate call=.ok (hdrPa,bufPa,stPa))
    (hpub : Publishes translate mmu call) :
    Follows {machine with
      ring := (cut machine.ring count)
      memory := prepared mmu machine.memory call
      driver := .describing ⟨mmu,call,⟨d0,d1,d2,VirtioDescriptors.Call.request call⟩,
          loadThrough mmu (prepared mmu machine.memory call) call.buffer call.bytes⟩
        (descriptorStores (cut machine.ring count) call d0 d1 d2 hdrPa bufPa
          stPa)} abstract := by
  have hphase := h.phase
  rw [Phase,hd] at hphase
  obtain ⟨habs,hshared⟩ := hphase
  have hsub : VirtioBlock.submit translate machine.queue call=
      (.ok ⟨d0,d1,d2,VirtioDescriptors.Call.request call⟩,
        publish (queueOf machine.base machine.qmax (cut machine.ring count)
          machine.memory) call d0 d1 d2 hdrPa bufPa stPa) :=
    (submit_taken ht).2.2 hdrPa bufPa stPa hp
  rw [←hshared.queue] at hsub
  obtain ⟨-,hstocked,-⟩ := (VirtioDisk.serving_idle habs).mp hserving
  obtain ⟨-,-,rest,-,-,-,hstack,-⟩ := VirtioDisk.submit_posts hstocked hsub
  have hnum : abstract.queue.num=machine.qmax := by
    rw [hshared.queue]
    rfl
  have hbelow : ∀ d∈[d2,d1,d0],d< machine.qmax := by
    intro d hmem
    rw [←hnum]
    refine hstocked.below d (List.mem_append_left _ ?_)
    rw [hstack]
    exact List.mem_append_right _ hmem
  have h0 := hbelow d0 (by simp)
  have h1 := hbelow d1 (by simp)
  have h2 := hbelow d2 (by simp)
  obtain ⟨hh,hbuf,hs⟩ := translateRequest_ok hp
  have hhdrPa : hdrPa=mmu call.header := Except.ok.inj (hh.symm.trans hpub.reaches.header)
  have hbufPa : bufPa=mmu call.buffer := Except.ok.inj (hbuf.symm.trans hpub.reaches.buffer)
  have hstPa : stPa=mmu call.status := Except.ok.inj (hs.symm.trans hpub.reaches.status)
  have hpublish := @applyAll_publish _ (cut machine.ring count) _ (prepared mmu machine.memory call)
    _ _ _ _ _ _ _ h.placed hm h0 h1 h2 (hhdrPa ▸ hpub.header) (hbufPa ▸ hpub.buffer)
    (hstPa ▸ hpub.status) hpub.bytes
  have hagree : Agree machine (prepared mmu machine.memory call)
      (prepared mmu abstract.memory call) := fun x hx => prepared_congr (hshared.memory x hx)
  have hqueue : ∀ ring,queueOf machine.base machine.qmax ring (prepared mmu machine.memory call)=
      queueOf machine.base machine.qmax ring machine.memory := queue_prepared hb
  refine ⟨⟨h.placed.num,h.placed.pos,h.placed.small,h.placed.avail,h.placed.used⟩,h.disk,
    h.history,h.index,h.job,(fun _ hp => by cases hp),?_⟩
  dsimp only [Phase]
  refine ⟨?_,⟨habs,hm,⟨hb.header,hb.buffer,hb.status⟩,⟨translate,hpub.reaches,?_⟩,
    hb.loads hagree,hagree,?_,?_⟩⟩
  · intro store hstore
    rw [descriptorStores,List.mem_append,List.mem_append] at hstore
    rcases hstore with (hstore|hstore)|hstore
    · exact describe_quiet h0 _ hstore
    · exact describe_quiet h1 _ hstore
    · exact describe_quiet h2 _ hstore
  · rw [hsub]
    refine congrArg (Prod.mk _) ?_
    rw [←hqueue]
    exact hpublish.symm
  · rw [hshared.queue]
    have hindex := congrArg VirtioBlock.Vring.availIdx (hqueue machine.ring)
    exact hindex
  · rw [hshared.queue]
    have hindex := congrArg VirtioBlock.Vring.usedIdx (hqueue machine.ring)
    exact hindex

/-- A call of `rw` up to its stores to the ring. -/
theorem follows_enter (hserving : Serving initial abstract) (h : Follows machine abstract)
    (hl : Legal machine (.enter translate mmu call))
    (hs : step machine (.enter translate mmu call)=some next) :
    ∃ last,Leads VirtioDisk.step VirtioDisk.Legal abstract last ∧ Follows next last := by
  cases hd : machine.driver with
  | idle =>
    obtain ⟨hm,hb,hpub⟩ := hl
    have hphase := h.phase
    rw [Phase,hd] at hphase
    obtain ⟨count,hcount⟩ := takeDescriptors_keeps machine.ring call
    simp only [step,hd] at hs
    rcases ht : takeDescriptors machine.ring call with ⟨result,ring⟩
    rw [ht] at hs hcount hpub
    dsimp only at hcount
    subst hcount
    cases result with
    | error error =>
      obtain ⟨hnot,hsub⟩ := @submit_refused translate _ machine.base machine.qmax _ _
        machine.memory _ ht
      change ¬Enters machine.queue call at hnot
      change VirtioBlock.submit translate machine.queue call=_ at hsub
      rw [←hphase.2.queue] at hnot hsub
      cases hs
      exact follows_fails h hd hb hsub (fun _ _ => rfl) hphase.2.memory (if_neg hnot).symm
    | ok descriptors =>
      obtain ⟨d0,d1,d2⟩ := descriptors
      obtain ⟨henters,herror,-⟩ := @submit_taken translate _ machine.base machine.qmax _ _
        machine.memory _ _ _ ht
      change Enters machine.queue call at henters
      rw [←hphase.2.queue] at henters
      dsimp only at hs
      rcases hp : translateRequest translate call with error|⟨hdrPa,bufPa,stPa⟩
      · rw [hp] at hs
        cases hs
        have hsub := herror error hp
        change VirtioBlock.submit translate machine.queue call=_ at hsub
        rw [←hphase.2.queue] at hsub
        refine follows_fails h hd hb hsub (fun _ hx => prepared_ring hb hx)
          (fun x hx => prepared_congr (hphase.2.memory x hx)) (if_pos henters).symm
      · rw [hp] at hs hpub
        cases hs
        exact ⟨abstract,Leads.refl abstract,
          follows_opens hserving h hd hm hb ht hp (hpub rfl rfl)⟩
  | describing pending todo =>
    simp only [step,hd] at hs
    cases hs
  | entering pending todo =>
    simp only [step,hd] at hs
    cases hs
  | polling pending =>
    simp only [step,hd] at hs
    cases hs

end Calls

section Stores

variable {machine next : Machine} {abstract : VirtioDisk.Machine} {pending : Pending}
  {rest : List Store}

/-- A quiet store keeps a request hidden. -/
theorem Hidden.quiet {store : Store} (h : Hidden machine abstract pending (store::rest))
    (hq : Quiet machine store) (driver : Driver) :
    Hidden {machine with
      memory := store.apply pending.mmu machine.memory
      driver := driver} abstract pending rest := by
  obtain ⟨havail,hused⟩ : _∧_ := @Quiet.indices machine machine.ring _ machine.memory h.maps _ hq
  refine ⟨h.driver,h.maps,⟨h.beside.header,h.beside.buffer,h.beside.status⟩,h.submits,h.sent,?_,
    havail.trans h.availIdx,hused.trans h.usedIdx⟩
  intro x hx
  exact (hq.outside h.maps (Or.inl hx)).trans (h.memory x hx)

/-- The store of the available index publishes the request. -/
theorem Hidden.publishes {initial : BlockDevice} (hserving : Serving initial abstract)
    (h : Follows machine abstract) {index : ℕ}
    (hh : Hidden machine abstract pending [indexStore machine.ring index]) :
    ∃ last,Leads VirtioDisk.step VirtioDisk.Legal abstract last ∧ Follows {machine with
      memory := (indexStore machine.ring index).apply pending.mmu machine.memory
      driver := .entering pending []} last := by
  obtain ⟨translate,hreaches,hsub⟩ := hh.submits
  obtain ⟨-,hstocked,-⟩ := (VirtioDisk.serving_idle hh.driver).mp hserving
  obtain ⟨-,henters,-⟩ := VirtioDisk.submit_posts hstocked hsub
  have hstep : VirtioDisk.step abstract (.submit translate pending.mmu pending.call)=
      some {abstract with
        queue := queueOf machine.base machine.qmax machine.ring
          ((indexStore machine.ring index).apply pending.mmu machine.memory)
        memory := prepared pending.mmu abstract.memory pending.call
        device := {abstract.device with running := true}
        driver := .polling pending} := by
    simp only [VirtioDisk.step,hh.driver,hsub,if_pos henters,←hh.sent]
    rfl
  have hlegal : VirtioDisk.Legal abstract (.submit translate pending.mmu pending.call) :=
    fun _ => hreaches
  refine ⟨_,Leads.single hlegal hstep,⟨⟨h.placed.num,h.placed.pos,h.placed.small,
    h.placed.avail,h.placed.used⟩,h.disk,h.history,h.index,h.job,(fun _ hp => by cases hp),?_⟩⟩
  dsimp only [Phase]
  refine Or.inl ⟨rfl,⟨rfl,hh.maps,⟨hh.beside.header,hh.beside.buffer,hh.beside.status⟩,rfl,?_⟩⟩
  intro x hx
  have hsize := size_eq machine.qmax
  have hge := usedOffset_ge machine.qmax
  have ha : (indexStore machine.ring index).address=
      machine.ring.desc+(16*machine.qmax+2) := by
    rw [indexStore,h.placed.avail,Nat.add_assoc]
  have hkeep : (indexStore machine.ring index).apply pending.mmu machine.memory x=
      machine.memory x := by
    change ¬(machine.base≤x ∧ x< machine.base+vringSizeBytes machine.qmax) at hx
    rw [apply_mapped hh.maps (by decide : 0<2) ha (by dsimp only [indexStore]; omega)]
    refine writeLE_outside machine.memory ?_
    dsimp only [indexStore]
    omega
  exact hkeep.trans (hh.memory x hx)

/-- The next store of a call, or its notification. -/
theorem follows_publish {initial : BlockDevice} (hserving : Serving initial abstract)
    (h : Follows machine abstract) (hs : step machine .publish=some next) :
    ∃ last,Leads VirtioDisk.step VirtioDisk.Legal abstract last ∧ Follows next last := by
  have hplaced : ∀ memory device driver,Placed
      {machine with memory := memory,device := device,driver := driver} :=
    fun _ _ _ => ⟨h.placed.num,h.placed.pos,h.placed.small,h.placed.avail,h.placed.used⟩
  have hphase := h.phase
  cases hd : machine.driver with
  | idle =>
    simp only [step,hd] at hs
    cases hs
  | describing pending todo =>
    rw [Phase,hd] at hphase
    obtain ⟨hquiet,hh⟩ := hphase
    refine ⟨abstract,Leads.refl abstract,?_⟩
    cases todo with
    | nil =>
      simp only [step,hd] at hs
      cases hs
      refine ⟨hplaced _ _ _,h.disk,h.history,h.index,h.job,(fun _ hp => by cases hp),?_⟩
      dsimp only [Phase]
      rw [load_avail h.placed hh.maps]
      refine Or.inr ⟨[_],_,rfl,?_,⟨hh.driver,hh.maps,
        ⟨hh.beside.header,hh.beside.buffer,hh.beside.status⟩,hh.submits,hh.sent,hh.memory,
        hh.availIdx,hh.usedIdx⟩⟩
      intro store hstore
      rw [List.mem_singleton] at hstore
      have hk := Nat.mod_lt machine.queue.availIdx h.placed.pos
      have hge := usedOffset_ge machine.qmax
      subst hstore
      refine ⟨(by decide : 0<2),16*machine.qmax+4+2*(machine.queue.availIdx%machine.qmax),?_,
        Or.inr ⟨by dsimp only; omega,by dsimp only; omega⟩⟩
      dsimp only [vringAvailRing]
      rw [h.placed.avail,h.placed.num]
      omega
    | cons store todo =>
      simp only [step,hd] at hs
      cases hs
      obtain ⟨hstore,hquiet⟩ := List.forall_mem_cons.mp hquiet
      have hindex := (@Quiet.indices machine machine.ring _ machine.memory hh.maps _ hstore).1
      refine ⟨hplaced _ _ _,h.disk,h.history,h.index,h.job,(fun _ hp => by cases hp),?_⟩
      have hnext := hh.quiet hstore (.describing pending todo)
      rw [Machine.queue,←hindex] at hnext
      exact ⟨hquiet,hnext⟩
  | entering pending todo =>
    rw [Phase,hd] at hphase
    rcases hphase with ⟨rfl,hv⟩|⟨front,index,rfl,hquiet,hh⟩
    · simp only [step,hd] at hs
      cases hs
      exact ⟨abstract,Leads.refl abstract,hplaced _ _ _,h.disk,h.history,h.index,h.job,
        fun _ _ _ => rfl,hv.driver,hv.maps,⟨hv.beside.header,hv.beside.buffer,hv.beside.status⟩,
        ⟨hv.shared.queue,hv.shared.memory⟩⟩
    · cases front with
      | nil =>
        simp only [List.nil_append,step,hd] at hs
        cases hs
        exact hh.publishes hserving h
      | cons store front =>
        simp only [List.cons_append,step,hd] at hs
        cases hs
        obtain ⟨hstore,hquiet⟩ := List.forall_mem_cons.mp hquiet
        refine ⟨abstract,Leads.refl abstract,hplaced _ _ _,h.disk,h.history,h.index,h.job,
          (fun _ hp => by cases hp),?_⟩
        exact Or.inr ⟨front,index,rfl,hquiet,hh.quiet hstore _⟩
  | polling pending =>
    simp only [step,hd] at hs
    cases hs

end Stores

end WorkbenchOS.VirtioMemory
