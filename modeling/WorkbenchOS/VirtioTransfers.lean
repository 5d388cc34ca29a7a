import WorkbenchOS.KernelHeap
import WorkbenchOS.KernelTranslation
import WorkbenchOS.VirtioDescriptors

/-!
# Where the device reads and writes

`rw` translates the first byte of the buffer and describes the whole transfer
by that one physical address and the length. The device then works on
consecutive physical bytes, whatever the frames behind the later pages of the
buffer are. The translation besides tests an entry of the page table that is
not the one of the page.
-/

namespace WorkbenchOS.VirtioTransfers

open LibStd PageTables MemoryManagement PageMapping KernelHeap KernelTranslation VirtioBlock
open VirtioDescriptors

/-- The translation as `rw` sees it: errors of the memory manager become code
1. The last case stands for a panic, after which nothing runs. -/
def translateKernel (manager : MemoryManager) (address : ℕ) : Except Error ℕ :=
  match kernelVirtualToPhysicalAddress manager address with
  | some (.ok physical) => .ok physical
  | some (.error _) => .error (.fromCode 1)
  | none => .error (.fromCode 1)

/-- `rw` up to the notification, over the page tables of the kernel. A panic
in one of the translations leaves no outcome. -/
def submitKernel (manager : MemoryManager) (queue : Vring) (call : Call) :
    Option (Except Error Submitted×Vring) :=
  match kernelVirtualToPhysicalAddress manager call.header,
    kernelVirtualToPhysicalAddress manager call.buffer,
    kernelVirtualToPhysicalAddress manager call.status with
  | some _,some _,some _ => some (submit (translateKernel manager) queue call)
  | _,_,_ => none

/-- The data descriptor that is published describes the buffer: every byte of
it is where the hardware finds the byte of the buffer. -/
def Transfers (manager : MemoryManager) (queue : Vring) (call : Call) : Prop :=
  ∃ submitted published, submitKernel manager queue call=some (.ok submitted,published) ∧
    (published.desc submitted.d1).len=call.bytes ∧
    ∀ k, k<call.bytes → kernelWalk manager (call.buffer+k)=
      some ((published.desc submitted.d1).addr+k)

/-- The entries the kernel reads for an address are present, the first entry
of its page table among them, and the hardware finds the same frame. -/
structure FirstPageFound (manager : MemoryManager) (address : ℕ) : Prop where
  /-- The directory entry. -/
  directory : Present (directoryEntry manager address)
  /-- The first entry of the page table. -/
  first : Present
    (entryAt manager.memory (shiftedPhysicalAddress (directoryEntry manager address)) 0)
  /-- The entry of the page. -/
  page : Present (tableEntry manager address)
  /-- The frame. -/
  frame : kernelWalk manager (address/4096*4096)=some (target (tableEntry manager address))

/-- The pages of a buffer lie in consecutive frames. -/
def ConsecutiveFrames (manager : MemoryManager) (buffer bytes : ℕ) : Prop :=
  ∀ j, j*4096<buffer%4096+bytes → kernelWalk manager (buffer/4096*4096+j*4096)=
    (kernelWalk manager (buffer/4096*4096)).map (·+j*4096)

section Translation

variable {manager : MemoryManager} {address physical : ℕ}

/-- The kernel finds the physical byte the hardware finds precisely when the
entries it tests are present and the frame is right. -/
theorem firstPageFound_iff (manager : MemoryManager) (address : ℕ) :
    FirstPageFound manager address↔∃ physical,
      kernelVirtualToPhysicalAddress manager address=some (.ok physical) ∧
        kernelWalk manager address=some physical := by
  have hpage : kernelWalk manager address=
      (kernelWalk manager (address/4096*4096)).map (·+address%4096) :=
    walkFrom_page manager.memory 4 manager.pml4 address
  constructor
  · intro h
    refine ⟨target (tableEntry manager address)+address%4096,?_,?_⟩
    · rw [kernelVirtualToPhysicalAddress_eq,if_pos ⟨h.directory,h.first,h.page⟩]
    · rw [hpage,h.frame,Option.map_some]
  · rintro ⟨physical,ht,hw⟩
    rw [kernelVirtualToPhysicalAddress_eq] at ht
    split at ht
    · rename_i hpresent
      have hp : target (tableEntry manager address)+address%4096=physical :=
        Except.ok.inj (Option.some.inj ht)
      refine ⟨hpresent.1,hpresent.2.1,hpresent.2.2,?_⟩
      rw [hpage] at hw
      obtain ⟨base,hb,hsum⟩ := Option.map_eq_some_iff.mp hw
      rw [hb]
      exact congrArg some (by omega)
    · cases ht

/-- The walk of a byte behind the first page of a buffer. -/
theorem kernelWalk_byte {buffer bytes base : ℕ}
    (hb : kernelWalk manager (buffer/4096*4096)=some base)
    (hc : ConsecutiveFrames manager buffer bytes) {k : ℕ} (hk : k<bytes) :
    kernelWalk manager (buffer+k)=some (base+buffer%4096+k) := by
  have hdiv : (buffer+k)/4096*4096=buffer/4096*4096+(buffer%4096+k)/4096*4096 := by omega
  have hpage := walkFrom_page manager.memory 4 manager.pml4 (buffer+k)
  have hframe := hc ((buffer%4096+k)/4096) (by omega)
  rw [hb] at hframe
  rw [kernelWalk,hpage,hdiv]
  change (kernelWalk manager _).map _=_
  rw [hframe,Option.map_some,Option.map_some]
  exact congrArg some (by omega)

end Translation

section Transfer

variable {manager : MemoryManager} {queue : Vring} {call : Call} {hdrPa stPa : ℕ}

/-- With the header and the status translated, what is published has the
translation of the buffer for its address. -/
theorem submitKernel_eq (hq : Sound queue) (h3 : 3≤queue.num) (hv : call.Valid)
    (hh : kernelVirtualToPhysicalAddress manager call.header=some (.ok hdrPa))
    (hst : kernelVirtualToPhysicalAddress manager call.status=some (.ok stPa)) {bufPa : ℕ}
    (hb : kernelVirtualToPhysicalAddress manager call.buffer=some (.ok bufPa)) :
    ∃ submitted published, submitKernel manager queue call=some (.ok submitted,published) ∧
      (published.desc submitted.d1).len=call.bytes ∧
      (published.desc submitted.d1).addr=bufPa := by
  obtain ⟨rest,d0,d1,d2,hs,hd⟩ := hq.top h3
  have ht : Translated (translateKernel manager) call hdrPa bufPa stPa := by
    constructor
    · rw [translateKernel,hh]
    · rw [translateKernel,hb]
    · rw [translateKernel,hst]
  have h12 : d1≠d2 := by
    have hnodup : (rest++[d2,d1,d0]).Nodup :=
      hs ▸ hq.whole.2.nodup_iff.mpr List.nodup_range
    have hthree := List.Nodup.of_append_right hnodup
    intro he
    rw [he] at hthree
    simp at hthree
  have hsub : submitKernel manager queue call=some (submit (translateKernel manager) queue call) := by
    rw [submitKernel,hh,hb,hst]
  rw [submit_ok hv hs hd ht] at hsub
  refine ⟨_,_,hsub,?_,?_⟩
  · simp only [publish,Function.update_of_ne h12,Function.update_self]
  · simp only [publish,Function.update_of_ne h12,Function.update_self]

/-- A transfer needs a translated buffer. -/
theorem submitKernel_translated (hh : kernelVirtualToPhysicalAddress manager call.header=
      some (.ok hdrPa))
    (hst : kernelVirtualToPhysicalAddress manager call.status=some (.ok stPa))
    {submitted : Submitted} {published : Vring}
    (h : submitKernel manager queue call=some (.ok submitted,published)) :
    ∃ bufPa, kernelVirtualToPhysicalAddress manager call.buffer=some (.ok bufPa) := by
  rw [submitKernel,hh,hst] at h
  have heq := kernelVirtualToPhysicalAddress_eq manager call.buffer
  split at heq
  · exact ⟨_,heq⟩
  · rw [heq] at h
    cases h

/-- The published descriptor describes the buffer if and only if the kernel
finds the frame of its first page and its pages lie in consecutive frames. -/
theorem transfers_iff (hq : Sound queue) (h3 : 3≤queue.num) (hv : call.Valid)
    (hh : kernelVirtualToPhysicalAddress manager call.header=some (.ok hdrPa))
    (hst : kernelVirtualToPhysicalAddress manager call.status=some (.ok stPa)) :
    Transfers manager queue call↔
      FirstPageFound manager call.buffer ∧
        ConsecutiveFrames manager call.buffer call.bytes := by
  have hbytes : 0<call.bytes := by
    rw [Call.Valid] at hv
    omega
  constructor
  · rintro ⟨submitted,published,hsub,-,hwalk⟩
    obtain ⟨bufPa,hb⟩ := submitKernel_translated hh hst hsub
    obtain ⟨submitted',published',hsub',-,haddr⟩ := submitKernel_eq hq h3 hv hh hst hb
    rw [hsub] at hsub'
    cases hsub'
    rw [haddr] at hwalk
    have hfound : FirstPageFound manager call.buffer :=
      (firstPageFound_iff manager call.buffer).mpr ⟨bufPa,hb,hwalk 0 hbytes⟩
    have hfirst := hwalk 0 hbytes
    have hpage : kernelWalk manager call.buffer=
        (kernelWalk manager (call.buffer/4096*4096)).map (·+call.buffer%4096) :=
      walkFrom_page manager.memory 4 manager.pml4 call.buffer
    rw [Nat.add_zero,Nat.add_zero,hpage,hfound.frame,Option.map_some] at hfirst
    have hsum := Option.some.inj hfirst
    refine ⟨hfound,?_⟩
    intro j hj
    by_cases hz : j=0
    · rw [hz,Nat.zero_mul]
      simp only [Nat.add_zero,Option.map_id']
    · -- the first byte of page `j` is a byte of the buffer
      have hbyte := hwalk (j*4096-call.buffer%4096) (by omega)
      have hplace : call.buffer+(j*4096-call.buffer%4096)=call.buffer/4096*4096+j*4096 := by
        omega
      rw [hplace] at hbyte
      rw [hbyte,hfound.frame,Option.map_some]
      exact congrArg some (by omega)
  · rintro ⟨hfound,hframes⟩
    obtain ⟨bufPa,hb,hwalk⟩ := (firstPageFound_iff manager call.buffer).mp hfound
    obtain ⟨submitted,published,hsub,hlen,haddr⟩ := submitKernel_eq hq h3 hv hh hst hb
    refine ⟨submitted,published,hsub,hlen,?_⟩
    intro k hk
    have hfirst := kernelWalk_byte hfound.frame hframes hbytes
    rw [Nat.add_zero,Nat.add_zero,hwalk] at hfirst
    rw [haddr,Option.some.inj hfirst]
    exact kernelWalk_byte hfound.frame hframes hk

end Transfer

/-- A kernel with two heap pages. The page table of the first takes the frame
behind it, so the second page lies one frame further. -/
def twoPageKernel : MemoryManager := (allocateKernelHeapPages sampleManager 2).2

/-- A read of one sector into a buffer of the heap. -/
def heapRead (buffer : ℕ) : Call := readCall 7 512 buffer 0xffffffff80200000 0xffffffff80200010

/-- A buffer inside the first page. -/
theorem transfers_firstPage :
    Transfers twoPageKernel (freshQueue 4) (heapRead 0xffffffff80200800) :=
  (transfers_iff (setupQueue0_sound (by decide : 4<2^16)
      (rfl : setupQueue0 0 4 (fun _ => ⟨0,0,0,0⟩) (fun _ => 0)=some (freshQueue 4)))
    (by decide) (by decide) (by decide +kernel : kernelVirtualToPhysicalAddress twoPageKernel
      (heapRead 0xffffffff80200800).header=some (.ok 0x100000))
    (by decide +kernel : kernelVirtualToPhysicalAddress twoPageKernel
      (heapRead 0xffffffff80200800).status=some (.ok 0x100010))).mpr
    ⟨⟨by decide +kernel,by decide +kernel,by decide +kernel,by decide +kernel⟩,by
      intro j hj
      have hz : j=0 := by
        have hb : (heapRead 0xffffffff80200800).bytes=512 := rfl
        have ho : (heapRead 0xffffffff80200800).buffer%4096=0x800 := rfl
        omega
      rw [hz,Nat.zero_mul]
      simp only [Nat.add_zero,Option.map_id']⟩

/-- A mapped buffer across the two pages is not where the device writes. -/
theorem transfers_not_always :
    ¬∀ (manager : MemoryManager) (queue : Vring) (call : Call) (hdrPa stPa : ℕ),
      Sound queue → 3≤queue.num → call.Valid →
      kernelVirtualToPhysicalAddress manager call.header=some (.ok hdrPa) →
      kernelVirtualToPhysicalAddress manager call.status=some (.ok stPa) →
      (∀ k, k<call.bytes → (kernelWalk manager (call.buffer+k)).isSome=true) →
      Transfers manager queue call := by
  intro h
  have hsound := setupQueue0_sound (by decide : 4<2^16)
    (rfl : setupQueue0 0 4 (fun _ => ⟨0,0,0,0⟩) (fun _ => 0)=some (freshQueue 4))
  have hhdr : kernelVirtualToPhysicalAddress twoPageKernel
      (heapRead 0xffffffff80200f00).header=some (.ok 0x100000) := by decide +kernel
  have hst : kernelVirtualToPhysicalAddress twoPageKernel
      (heapRead 0xffffffff80200f00).status=some (.ok 0x100010) := by decide +kernel
  have hmapped : ∀ k, k<(heapRead 0xffffffff80200f00).bytes →
      (kernelWalk twoPageKernel ((heapRead 0xffffffff80200f00).buffer+k)).isSome=true := by
    intro k hk
    have hk : k<512 := hk
    have hpages : (0xffffffff80200f00+k)/4096*4096=0xffffffff80200000 ∨
        (0xffffffff80200f00+k)/4096*4096=0xffffffff80201000 := by omega
    change (walkFrom twoPageKernel.memory 4 twoPageKernel.pml4 (0xffffffff80200f00+k)).isSome=true
    rw [walkFrom_page,Option.isSome_map]
    rcases hpages with hpage|hpage
    · rw [hpage]
      decide +kernel
    · rw [hpage]
      decide +kernel
  obtain ⟨submitted,published,-,-,hwalk⟩ :=
    h twoPageKernel (freshQueue 4) (heapRead 0xffffffff80200f00) 0x100000 0x100010 hsound
      (by decide) (by decide) hhdr hst hmapped
  have hzero : kernelWalk twoPageKernel 0xffffffff80200f00=some 0x100f00 := by decide +kernel
  have hnext : kernelWalk twoPageKernel 0xffffffff80201000=some 0x102000 := by decide +kernel
  have h0 : some 0x100f00=some ((published.desc submitted.d1).addr+0) :=
    hzero.symm.trans (hwalk 0 (by decide))
  have h1 : some 0x102000=some ((published.desc submitted.d1).addr+0x100) :=
    hnext.symm.trans (hwalk 0x100 (by decide))
  rw [Option.some.injEq] at h0 h1
  omega

end WorkbenchOS.VirtioTransfers
