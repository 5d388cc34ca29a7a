import WorkbenchOS.TransitionRuns
import WorkbenchOS.VirtioBlock

/-!
# Descriptors of the virtio queue

The free descriptors are a stack. `rw` takes three off it and has four ways
out between the three pops and the three pushes: a stack that was too short
and a failed translation of any of three addresses. Along a run of calls that
return, the stack is whole after each of them precisely when no call takes
such a way out.
-/

namespace WorkbenchOS.VirtioDescriptors

open LibStd TransitionRuns VirtioBlock

section Stack

variable {queue : Vring} {rest : List ℕ} {top d0 d1 d2 : ℕ}

/-- The free descriptors, bottom first. -/
def freeStack (queue : Vring) : List ℕ := (List.range queue.freeCount).map queue.free

/-- The stack holds `free_count` descriptors. -/
theorem freeStack_length (queue : Vring) : (freeStack queue).length=queue.freeCount := by
  rw [freeStack,List.length_map,List.length_range]

/-- Everything but the free stack is as it was, and the stack is cut. -/
def cut (queue : Vring) (count : ℕ) : Vring := {queue with freeCount := count}

/-- A pop takes the top. -/
theorem popFree_top (h : freeStack queue=rest++[top]) :
    popFree queue=(top,cut queue rest.length) ∧ freeStack (cut queue rest.length)=rest := by
  have hn : queue.freeCount=rest.length+1 := by
    rw [←freeStack_length,h,List.length_append]
    rfl
  rw [freeStack,hn,List.range_succ,List.map_append,List.map_singleton] at h
  have hsplit := List.append_inj h (by rw [List.length_map,List.length_range])
  refine ⟨?_,hsplit.1⟩
  rw [popFree,if_neg (by omega),hn,Nat.add_sub_cancel,List.singleton_inj.mp hsplit.2]
  rfl

/-- A pop of the empty stack leaves it. -/
theorem popFree_empty (h : queue.freeCount=0) : popFree queue=(0xffff,queue) := by
  rw [popFree,if_pos h]

/-- A push puts the index on top. -/
theorem pushFree_stack (hn : queue.freeCount+1<2^16) (index : ℕ) :
    freeStack (pushFree queue index)=freeStack queue++[index] := by
  have hw : (pushFree queue index).freeCount=queue.freeCount+1 := Nat.mod_eq_of_lt hn
  rw [freeStack,hw,List.range_succ,List.map_append,List.map_singleton,freeStack]
  congr 1
  · refine List.map_congr_left (fun i hi => ?_)
    exact Function.update_of_ne (Nat.ne_of_lt (List.mem_range.mp hi)) _ _
  · exact congrArg (fun x => [x]) (Function.update_self _ _ _)

/-- The three pushes of `rw`. -/
theorem reclaim_stack (h : freeStack queue=rest) (hn : rest.length+3<2^16)
    (submitted : Submitted) :
    freeStack (reclaim queue submitted)=rest++[submitted.d0,submitted.d1,submitted.d2] := by
  have hc : queue.freeCount=rest.length := by rw [←freeStack_length,h]
  have hwrap : ∀ n, n<2^16 → u16 n=n := fun n hlt => Nat.mod_eq_of_lt hlt
  have h1 : u16 (queue.freeCount+1)=rest.length+1 := by rw [hc,hwrap _ (by omega)]
  have h2 : u16 (u16 (queue.freeCount+1)+1)=rest.length+2 := by rw [h1,hwrap _ (by omega)]
  rw [reclaim,pushFree_stack,pushFree_stack,pushFree_stack]
  · rw [List.append_assoc,List.append_assoc]
    exact congrArg (·++_) h
  · change queue.freeCount+1<2^16
    omega
  · change u16 (queue.freeCount+1)+1<2^16
    omega
  · change u16 (u16 (queue.freeCount+1)+1)+1<2^16
    omega

/-- The three pops of `rw`, top first. -/
theorem pops (h : freeStack queue=rest++[d2,d1,d0]) :
    popFree queue=(d0,cut queue (rest.length+2)) ∧
    popFree (cut queue (rest.length+2))=(d1,cut queue (rest.length+1)) ∧
    popFree (cut queue (rest.length+1))=(d2,cut queue rest.length) ∧
    freeStack (cut queue rest.length)=rest := by
  have h0 : freeStack queue=(rest++[d2,d1])++[d0] := by
    rw [h,List.append_assoc]
    rfl
  have p0 := popFree_top h0
  simp only [List.length_append,List.length_cons,List.length_nil] at p0
  have h1 : freeStack (cut queue (rest.length+2))=(rest++[d2])++[d1] := by
    rw [p0.2,List.append_assoc]
    rfl
  have p1 := popFree_top h1
  simp only [List.length_append,List.length_cons,List.length_nil] at p1
  have p2 := popFree_top p1.2
  exact ⟨p0.1,p1.1,p2.1,p2.2⟩

end Stack

section Submit

variable {translate : ℕ→Except Error ℕ} {queue : Vring} {call : Call} {rest : List ℕ}
  {d0 d1 d2 hdrPa bufPa stPa : ℕ}

/-- The three translations of a call. -/
structure Translated (translate : ℕ→Except Error ℕ) (call : Call) (hdrPa bufPa stPa : ℕ) :
    Prop where
  /-- The header. -/
  header : translate call.header=.ok hdrPa
  /-- The first byte of the buffer. -/
  buffer : translate call.buffer=.ok bufPa
  /-- The status byte. -/
  status : translate call.status=.ok stPa

/-- The header of a call. -/
def Call.request (call : Call) : BlkReq := ⟨if call.write then 1 else 0,0,call.lba⟩

/-- None of three descriptors is the mark of an empty stack. -/
def Descriptors (d0 d1 d2 : ℕ) : Prop := ¬(d0=0xffff ∨ d1=0xffff ∨ d2=0xffff)

/-- A valid call over three free descriptors with translated addresses is
published. -/
theorem submit_ok (hv : call.Valid) (hs : freeStack queue=rest++[d2,d1,d0])
    (hd : Descriptors d0 d1 d2) (ht : Translated translate call hdrPa bufPa stPa) :
    submit translate queue call=(.ok ⟨d0,d1,d2,Call.request call⟩,
      publish (cut queue rest.length) call d0 d1 d2 hdrPa bufPa stPa) := by
  have hp := pops hs
  rw [submit,if_neg hv,submitValid,hp.1]
  dsimp only
  rw [hp.2.1]
  dsimp only
  rw [hp.2.2.1]
  dsimp only
  rw [if_neg hd,ht.header,ht.buffer,ht.status]
  rfl

/-- A valid call one of whose addresses is not translated returns without its
three descriptors. -/
theorem submit_untranslated (hv : call.Valid) (hs : freeStack queue=rest++[d2,d1,d0])
    (hd : Descriptors d0 d1 d2) (ht : ¬∃ hdrPa bufPa stPa, Translated translate call hdrPa bufPa stPa) :
    ∃ e, submit translate queue call=(.error e,cut queue rest.length) := by
  have hp := pops hs
  rw [submit,if_neg hv,submitValid,hp.1]
  dsimp only
  rw [hp.2.1]
  dsimp only
  rw [hp.2.2.1]
  dsimp only
  rw [if_neg hd]
  cases hh : translate call.header with
  | error e => exact ⟨e,rfl⟩
  | ok hdrPa =>
    cases hb : translate call.buffer with
    | error e => exact ⟨e,rfl⟩
    | ok bufPa =>
      cases hst : translate call.status with
      | error e => exact ⟨e,rfl⟩
      | ok stPa => exact absurd ⟨hdrPa,bufPa,stPa,hh,hb,hst⟩ ht

/-- The state and index after a pop of a stack that may be empty. -/
theorem popFree_count (queue : Vring) :
    (popFree queue).2=cut queue (queue.freeCount-1) ∧
      (queue.freeCount=0 → (popFree queue).1=0xffff) := by
  by_cases h : queue.freeCount=0
  · have hcut : cut queue 0=queue := by
      cases queue
      cases h
      rfl
    rw [popFree_empty h,h,hcut]
    exact ⟨rfl,fun _ => rfl⟩
  · rw [popFree,if_neg h]
    exact ⟨rfl,fun hz => absurd hz h⟩

/-- A valid call over fewer than three free descriptors takes them all. -/
theorem submit_short (hv : call.Valid) (hn : queue.freeCount<3) :
    submit translate queue call=(.error (.fromCode 2),cut queue 0) := by
  have p0 := popFree_count queue
  have p1 := popFree_count (popFree queue).2
  have p2 := popFree_count (popFree (popFree queue).2).2
  have c1 : (popFree queue).2.freeCount=queue.freeCount-1 := by rw [p0.1]; rfl
  have c2 : (popFree (popFree queue).2).2.freeCount=queue.freeCount-2 := by
    rw [p1.1,c1]
    change queue.freeCount-1-1=_
    omega
  have hlast := p2.2 (by omega)
  rw [submit,if_neg hv,submitValid]
  dsimp only
  rw [if_pos (Or.inr (Or.inr hlast)),p2.1,c2,p1.1,p0.1]
  have hz : queue.freeCount-2-1=0 := by omega
  rw [hz]
  rfl

end Submit

section Runs

variable {queue : Vring}

/-- One call of `rw` with the translation in force, and what the device
answers. -/
structure RwAction where
  /-- Address translation during the call. -/
  translate : ℕ→Except Error ℕ
  /-- The arguments. -/
  call : Call
  /-- The reply of the device. -/
  reply : Reply

/-- The queue after a call that returns. -/
def rwStep (queue : Vring) (action : RwAction) : Option Vring :=
  (rw action.translate queue action.call action.reply).map Prod.snd

/-- Every descriptor is on the free stack, once. -/
def Whole (queue : Vring) : Prop :=
  queue.freeCount=queue.num ∧
    ((List.range queue.freeCount).map queue.free).Perm (List.range queue.num)

/-- The call returns. -/
def Returns (queue : Vring) (action : RwAction) : Prop :=
  (rwStep queue action).isSome=true

/-- An address is translated. -/
def Translates (translate : ℕ→Except Error ℕ) (address : ℕ) : Prop :=
  (translate address).isOk=true

/-- The call is refused for its length, or the queue has three descriptors
and all three translations succeed. -/
def Recovers (queue : Vring) (action : RwAction) : Prop :=
  ¬action.call.Valid ∨ (3≤queue.num ∧ Translates action.translate action.call.header ∧
    Translates action.translate action.call.buffer ∧
    Translates action.translate action.call.status)

instance (queue : Vring) : Decidable (Whole queue) := inferInstanceAs (Decidable (_∧_))

instance (queue : Vring) (action : RwAction) : Decidable (Returns queue action) :=
  inferInstanceAs (Decidable (_=true))

instance (translate : ℕ→Except Error ℕ) (address : ℕ) : Decidable (Translates translate address) :=
  inferInstanceAs (Decidable (_=true))

instance (queue : Vring) (action : RwAction) : Decidable (Recovers queue action) :=
  inferInstanceAs (Decidable (_∨_))

/-- A whole queue of a size the device can give. -/
structure Sound (queue : Vring) : Prop where
  /-- Sizes are positive. -/
  pos : 0<queue.num
  /-- Sizes have 16 bits. -/
  small : queue.num<2^16
  /-- Nothing is lost. -/
  whole : Whole queue

/-- Three descriptors come off the top of a whole queue, all below its
size. -/
theorem Sound.top (h : Sound queue) (hn : 3≤queue.num) :
    ∃ rest d0 d1 d2, freeStack queue=rest++[d2,d1,d0] ∧ Descriptors d0 d1 d2 := by
  have hl : (freeStack queue).length=queue.num := by rw [freeStack_length,h.whole.1]
  have hd : ((freeStack queue).drop (queue.num-3)).length=3 := by
    rw [List.length_drop,hl]
    omega
  obtain ⟨d2,d1,d0,htop⟩ := List.length_eq_three.mp hd
  have hsplit := (List.take_append_drop (queue.num-3) (freeStack queue)).symm
  rw [htop] at hsplit
  have hbelow : ∀ d∈[d2,d1,d0],d<queue.num := by
    intro d hm
    have hmem : d∈freeStack queue := by
      rw [hsplit]
      exact List.mem_append_right _ hm
    exact List.mem_range.mp (h.whole.2.mem_iff.mp hmem)
  have b2 := hbelow d2 (by simp)
  have b1 := hbelow d1 (by simp)
  have b0 := hbelow d0 (by simp)
  have hs := h.small
  refine ⟨_,d0,d1,d2,hsplit,?_⟩
  rw [Descriptors]
  omega

/-- A translated address has a physical one. -/
theorem Translates.get {translate : ℕ→Except Error ℕ} {address : ℕ}
    (h : Translates translate address) : ∃ physical, translate address=.ok physical := by
  rw [Translates] at h
  cases hc : translate address with
  | ok physical => exact ⟨physical,rfl⟩
  | error e =>
    rw [hc] at h
    cases h

/-- Giving the three descriptors back makes the queue whole again. -/
theorem sound_reclaim {rest : List ℕ} {d0 d1 d2 : ℕ} {hdr : BlkReq} (hpos : 0<queue.num)
    (hsmall : queue.num<2^16) (hr : freeStack queue=rest)
    (hp : (rest++[d2,d1,d0]).Perm (List.range queue.num)) :
    Sound (reclaim queue ⟨d0,d1,d2,hdr⟩) := by
  have hl : rest.length+3=queue.num := by
    have hlength := hp.length_eq
    rwa [List.length_append,List.length_range] at hlength
  have hstack := reclaim_stack hr (by omega) ⟨d0,d1,d2,hdr⟩
  have hn : (reclaim queue ⟨d0,d1,d2,hdr⟩).num=queue.num := rfl
  refine ⟨hn ▸ hpos,hn ▸ hsmall,?_,?_⟩
  · rw [hn,←freeStack_length,hstack,List.length_append]
    exact hl
  · change (freeStack _).Perm _
    rw [hn,hstack]
    have hback : (rest++[d0,d1,d2]).Perm (rest++[d2,d1,d0]) :=
      List.Perm.append_left rest (List.reverse_perm [d2,d1,d0])
    exact hback.trans hp

/-- A call that recovers keeps the queue whole. -/
theorem rwStep_keeps (queue : Vring) (action : RwAction) (h : Sound queue)
    (hl : Returns queue action) (hc : Recovers queue action) :
    ∃ next, rwStep queue action=some next ∧ Sound next := by
  obtain ⟨next,hn⟩ := Option.isSome_iff_exists.mp hl
  refine ⟨next,hn,?_⟩
  rw [rwStep,rw] at hn
  by_cases hv : action.call.Valid
  · obtain hno|⟨h3,th,tb,ts⟩ := hc
    · exact absurd hv hno
    obtain ⟨rest,d0,d1,d2,hs,hd⟩ := h.top h3
    obtain ⟨hdrPa,hh⟩ := th.get
    obtain ⟨bufPa,hb⟩ := tb.get
    obtain ⟨stPa,hst⟩ := ts.get
    rw [submit_ok hv hs hd ⟨hh,hb,hst⟩] at hn
    dsimp only at hn
    split at hn
    · cases hn
    · cases hn
      exact sound_reclaim h.pos h.small (pops hs).2.2.2 (hs ▸ h.whole.2)
  · have hrefuse : submit action.translate queue action.call=(.error (.fromCode 1),queue) := by
      rw [submit,if_pos (not_not.mp hv)]
    rw [hrefuse] at hn
    cases hn
    exact h

/-- A call that does not recover loses descriptors. -/
theorem rwStep_loses (queue : Vring) (action : RwAction) (h : Sound queue)
    (_ : Returns queue action) (hc : ¬Recovers queue action) :
    ∀ next, rwStep queue action=some next → ¬Whole next := by
  intro next hn hwhole
  rw [Recovers,not_or,not_not] at hc
  obtain ⟨hv,hc⟩ := hc
  rw [rwStep,rw] at hn
  have hpos := h.pos
  have hcount := h.whole.1
  by_cases h3 : 3≤queue.num
  · obtain ⟨rest,d0,d1,d2,hs,hd⟩ := h.top h3
    have ht : ¬∃ hdrPa bufPa stPa, Translated action.translate action.call hdrPa bufPa stPa := by
      rintro ⟨hdrPa,bufPa,stPa,hh,hb,hst⟩
      refine hc ⟨h3,?_,?_,?_⟩
      · rw [Translates,hh]; rfl
      · rw [Translates,hb]; rfl
      · rw [Translates,hst]; rfl
    obtain ⟨e,he⟩ := submit_untranslated hv hs hd ht
    rw [he] at hn
    cases hn
    have hl : rest.length+3=queue.num := by
      rw [←hcount,←freeStack_length,hs,List.length_append]
      rfl
    have hlost : rest.length=queue.num := hwhole.1
    omega
  · rw [submit_short hv (by omega)] at hn
    cases hn
    have hlost : 0=queue.num := hwhole.1
    omega

/-- The stack of a fresh queue counts down from the last descriptor. -/
theorem setupQueue0_sound {preferredNum qmax : ℕ} {desc : ℕ→VDesc} {availRing : ℕ→ℕ}
    (hq : qmax<2^16) (h : setupQueue0 preferredNum qmax desc availRing=some queue) :
    Sound queue := by
  rw [setupQueue0] at h
  split at h
  · cases h
  · cases h
    have hb : ∀ n : ℕ,0<n → n<2^16 → Sound
        {num := n,desc := desc,availIdx := 0,availRing := availRing,usedIdx := 0,
          usedIdxShadow := 0,free := fun i => n-1-i,freeCount := n} := by
      intro n hpos hlt
      refine ⟨hpos,hlt,rfl,?_⟩
      have hrev := List.reverse_range' (s := 0) (n := n)
      rw [Nat.zero_add,←List.range_eq_range'] at hrev
      exact hrev ▸ List.reverse_perm _
    split
    · exact hb _ (by omega) (by omega)
    · exact hb _ (by omega) hq

/-- After every return of a run the free stack is whole if and only if each
call was refused for its length, or found a queue of three descriptors and
had its three addresses translated. -/
theorem descriptors_whole_iff {preferredNum qmax : ℕ} {desc : ℕ→VDesc} {availRing : ℕ→ℕ}
    (hq : qmax<2^16) (hs : setupQueue0 preferredNum qmax desc availRing=some queue)
    (actions : List RwAction) (hr : Each rwStep Returns queue actions) :
    Always rwStep Whole queue actions↔Each rwStep Recovers queue actions :=
  always_iff_each (fun _ h => h.whole) rwStep_keeps rwStep_loses (setupQueue0_sound hq hs) hr

/-- A queue as the device leaves it in memory that was zero. -/
def freshQueue (num : ℕ) : Vring where
  num := num
  desc := fun _ => ⟨0,0,0,0⟩
  availIdx := 0
  availRing := fun _ => 0
  usedIdx := 0
  usedIdxShadow := 0
  free := fun i => num-1-i
  freeCount := num

/-- A read of one sector under an identity translation. -/
def sectorRead (usedIdx status : ℕ) : RwAction :=
  ⟨.ok,readCall 7 512 0x4000 0x9000 0x9010,⟨usedIdx,status⟩⟩

/-- A read, a read that the device fails and a read of no bytes on a queue of
four. -/
theorem descriptors_whole_reads :
    Always rwStep Whole (freshQueue 4) [sectorRead 1 0,sectorRead 2 1,
      ⟨.ok,readCall 7 0 0x4000 0x9000 0x9010,⟨0,0⟩⟩] :=
  (descriptors_whole_iff (by decide : 4<2^16)
    (rfl : setupQueue0 0 4 (fun _ => ⟨0,0,0,0⟩) (fun _ => 0)=some (freshQueue 4)) _
    (by decide +kernel)).mpr (by decide +kernel)

/-- On a queue of two descriptors the first valid call loses both. -/
theorem descriptors_not_always_whole :
    ¬∀ (preferredNum qmax : ℕ) (desc : ℕ→VDesc) (availRing : ℕ→ℕ) (queue : Vring),
      qmax<2^16 → setupQueue0 preferredNum qmax desc availRing=some queue →
      ∀ actions : List RwAction, Each rwStep Returns queue actions →
        Always rwStep Whole queue actions := by
  intro h
  have hread := h 0 2 (fun _ => ⟨0,0,0,0⟩) (fun _ => 0) (freshQueue 2) (by decide) rfl
    [sectorRead 1 0] (by decide +kernel)
  obtain ⟨-,next,hn,hw⟩ := hread
  have hcounts : (rwStep (freshQueue 2) (sectorRead 1 0)).map (fun q => (q.freeCount,q.num))=
      some (0,2) := by decide +kernel
  rw [hn] at hcounts
  have hpair := Option.some.inj hcounts
  have hcount : next.freeCount=next.num := hw.1
  rw [Prod.mk.injEq] at hpair
  omega

end Runs

end WorkbenchOS.VirtioDescriptors
