import WorkbenchOS.MemoryManagement
import WorkbenchOS.TransitionRuns

/-!
# The addresses of the kernel heap

`VirtualAddressSpace` hands out pages in ascending order and never takes one
back. Pages of a failed `take_pages` are lost, and the first page is taken
before the number asked for is looked at. Whatever is returned lies behind all
that was returned before, and the page that would reach 2^64 is never counted.
-/

namespace WorkbenchOS.HeapAddresses

open ByteMemory LibStd FrameBitmap PhysicalMemory MemoryManagement TransitionRuns

/-- `VirtualAddress::difference`. -/
def difference (address other : ℕ) : ℕ :=
  if address<other then u64Sub other address else u64Sub address other

/-- The heap address space `MemoryManager::init` makes for its base address. -/
def heapAddressSpace (heapVirtualBase : ℕ) : VirtualAddressSpace :=
  newAddressSpace heapVirtualBase (difference 0xffffffffffffffff heapVirtualBase)

/-- The address space after so many single pages. -/
def taken (space : VirtualAddressSpace) (pages : ℕ) : VirtualAddressSpace :=
  {space with
    nextAddress := u64 (space.nextAddress+pages*Page)
    freePages := space.freePages-pages}

/-- The pages `take_pages` asks `take_page` for: one at least, and no more than
its counter can count. -/
def pagesTried (pageCount : ℕ) : ℕ := max 1 (min pageCount intIterations)

section Operations

variable {space : VirtualAddressSpace}

/-- No page taken. -/
theorem taken_zero (h : space.nextAddress<2^64) : taken space 0=space := by
  rw [taken,Nat.zero_mul,Nat.add_zero,u64_of_lt h]
  rfl

/-- One page, then others. -/
theorem taken_taken (space : VirtualAddressSpace) (first pages : ℕ) :
    taken (taken space first) pages=taken space (first+pages) := by
  have hnext : u64 (u64 (space.nextAddress+first*Page)+pages*Page)=
      u64 (space.nextAddress+(first+pages)*Page) := by
    unfold u64
    rw [Nat.mod_add_mod,Nat.add_mul,Nat.add_assoc]
  simp only [taken,hnext,Nat.sub_sub]

/-- `take_page`. -/
theorem takePage_eq (h : space.freePages≠0) :
    takePage space=(.ok space.nextAddress,taken space 1) := by
  rw [takePage,if_neg h,taken,Nat.one_mul]

/-- The loop takes all pages or all that are left. -/
theorem takePagesLoop_eq (h : space.nextAddress<2^64) (remaining : ℕ) :
    takePagesLoop remaining space=
      if remaining≤ space.freePages then (.ok (),taken space remaining)
      else (.error .genericError,taken space space.freePages) := by
  induction remaining generalizing space with
  | zero => rw [takePagesLoop,if_pos (Nat.zero_le _),taken_zero h]
  | succ remaining ih =>
    by_cases hzero : space.freePages=0
    · rw [takePagesLoop,takePage,if_pos hzero,hzero,if_neg (by omega),taken_zero h]
    · have hfree : (taken space 1).freePages=space.freePages-1 := rfl
      rw [takePagesLoop,takePage_eq hzero]
      dsimp only
      rw [ih (u64_lt _),taken_taken,taken_taken,hfree,Nat.add_comm 1 remaining,
        Nat.add_sub_cancel' (by omega)]
      exact if_congr (by omega) rfl rfl

/-- So does `take_pages`. -/
theorem takePages_eq (h : space.nextAddress<2^64) (pageCount : ℕ) :
    takePages space pageCount=
      if pagesTried pageCount≤ space.freePages then
        (.ok space.nextAddress,taken space (pagesTried pageCount))
      else (.error .genericError,taken space space.freePages) := by
  have htried : 1+(min pageCount intIterations-1)=pagesTried pageCount := by
    unfold pagesTried
    omega
  by_cases hzero : space.freePages=0
  · rw [takePages,takePage,if_pos hzero,hzero,if_neg (by omega),taken_zero h]
  · have hfree : (taken space 1).freePages=space.freePages-1 := rfl
    rw [takePages,takePage_eq hzero]
    dsimp only
    rw [takePagesLoop_eq (u64_lt _),taken_taken,taken_taken,htried,hfree,
      Nat.add_sub_cancel' (by omega)]
    by_cases hroom : pagesTried pageCount≤ space.freePages
    · rw [if_pos (by omega),if_pos hroom]
    · rw [if_neg (by omega),if_neg hroom]

end Operations

/-- `take_pages` takes all pages asked for, or none. -/
structure AllOrNothing (space : VirtualAddressSpace) (pageCount : ℕ) : Prop where
  /-- All of them, from the old next address on. -/
  success : ∀ address,(takePages space pageCount).1=.ok address →
    address=space.nextAddress ∧
    (takePages space pageCount).2.nextAddress=u64 (space.nextAddress+pageCount*Page) ∧
    (takePages space pageCount).2.freePages+pageCount=space.freePages
  /-- None. -/
  failure : ∀ error,(takePages space pageCount).1=.error error →
    (takePages space pageCount).2.nextAddress=space.nextAddress ∧
    (takePages space pageCount).2.freePages=space.freePages

/-- `take_pages` takes all or nothing exactly when there is no page at all, or
at least one page is asked for, not more than are left and not more than the
loop can count. -/
theorem allOrNothing_iff {space : VirtualAddressSpace} (h : space.nextAddress<2^64)
    (pageCount : ℕ) :
    AllOrNothing space pageCount ↔ space.freePages=0 ∨
      (0<pageCount ∧ pageCount≤ space.freePages ∧ pageCount≤ intIterations) := by
  have heq := takePages_eq h pageCount
  have htried : pagesTried pageCount=max 1 (min pageCount intIterations) := rfl
  have hcounted : 1≤ intIterations := by decide
  by_cases hroom : pagesTried pageCount≤ space.freePages
  · rw [if_pos hroom] at heq
    constructor
    · intro hall
      have hfree := (hall.success space.nextAddress (by rw [heq])).2.2
      rw [heq] at hfree
      dsimp only [taken] at hfree
      omega
    · rintro (hzero|⟨hpos,hle,hcount⟩)
      · omega
      · have hexact : pagesTried pageCount=pageCount := by omega
        rw [hexact] at heq
        refine ⟨fun address haddress => ?_,fun error herror => ?_⟩
        · rw [heq] at haddress ⊢
          cases haddress
          exact ⟨rfl,rfl,Nat.sub_add_cancel hle⟩
        · rw [heq] at herror
          cases herror
  · rw [if_neg hroom] at heq
    constructor
    · intro hall
      have hfree := (hall.failure .genericError (by rw [heq])).2
      rw [heq] at hfree
      dsimp only [taken] at hfree
      omega
    · rintro (hzero|⟨hpos,hle,hcount⟩)
      · rw [hzero,taken_zero h] at heq
        refine ⟨fun address haddress => ?_,fun error herror => ?_⟩
        · rw [heq] at haddress
          cases haddress
        · rw [heq]
          exact ⟨rfl,rfl⟩
      · omega

/-- Three of five pages. -/
theorem allOrNothing_sample : AllOrNothing ⟨0x1000,0x1000,0x5fff,5⟩ 3 :=
  (allOrNothing_iff (by decide) 3).mpr (Or.inr (by decide))

/-- No page asked for takes one, and five of three pages take three and fail. -/
theorem not_always_allOrNothing :
    ¬AllOrNothing ⟨0x1000,0x1000,0x3fff,3⟩ 0 ∧ ¬AllOrNothing ⟨0x1000,0x1000,0x3fff,3⟩ 5 := by
  refine ⟨fun h => ?_,fun h => ?_⟩
  · exact absurd (h.success 0x1000 (by decide +kernel)).2.2 (by decide +kernel)
  · exact absurd (h.failure .genericError (by decide +kernel)).2 (by decide +kernel)

/-- A call on the address space. -/
inductive HeapCall where
  /-- `take_page`. -/
  | takePage
  /-- `take_pages`. -/
  | takePages (pageCount : ℕ)

/-- The pages a call asks for. -/
def HeapCall.pages : HeapCall→ℕ
  | .takePage => 1
  | .takePages pageCount => pageCount

/-- What the call does. -/
def HeapCall.perform (space : VirtualAddressSpace) : HeapCall→
    Except MemoryManagerError ℕ×VirtualAddressSpace
  | .takePage => MemoryManagement.takePage space
  | .takePages pageCount => MemoryManagement.takePages space pageCount

/-- The address space and the ranges its successful calls have returned, by
address and pages, the latest first. -/
structure Ledger where
  /-- The address space. -/
  space : VirtualAddressSpace
  /-- The ranges. -/
  ranges : List (ℕ×ℕ)

/-- One call. -/
def ledgerStep (ledger : Ledger) (call : HeapCall) : Option Ledger :=
  match call.perform ledger.space with
  | (.ok address,after) => some ⟨after,(address,call.pages)::ledger.ranges⟩
  | (.error _,after) => some ⟨after,ledger.ranges⟩

/-- The ranges of a ledger whose address space began at `base` with `size`
bytes. -/
structure Separate (base size : ℕ) (ledger : Ledger) : Prop where
  /-- No two overlap. -/
  disjoint : ledger.ranges.Pairwise
    (fun first second => Apart first.1 (first.2*Page) second.1 (second.2*Page))
  /-- All are whole pages inside the address space. -/
  inside : ∀ range∈ledger.ranges,range.1%Page=0 ∧ base≤range.1 ∧
    range.1+range.2*Page≤base+size
  /-- `m_next_address` is behind the pages that are not free any more, without
  a wrap. -/
  next : ledger.space.nextAddress+ledger.space.freePages*Page=base+size/Page*Page
  /-- It is in the address space, or at its end. -/
  next_le : ledger.space.nextAddress≤base+size

section Ledgers

variable {base size : ℕ} {space : VirtualAddressSpace} {ledger : Ledger} {call : HeapCall}

/-- A separate ledger whose ranges are all below the next address, an aligned
one. -/
structure Orderly (base size : ℕ) (ledger : Ledger) : Prop where
  /-- The ranges. -/
  separate : Separate base size ledger
  /-- They are below the next address. -/
  below : ∀ range∈ledger.ranges,range.1+range.2*Page≤ledger.space.nextAddress
  /-- The next address is not before the base. -/
  base_le : base≤ledger.space.nextAddress
  /-- It is aligned. -/
  aligned : ledger.space.nextAddress%Page=0

/-- A call takes as many pages as it asks for or fails. The pages it takes
either way are there. -/
theorem perform_cases (h : space.nextAddress<2^64) (hfree : space.freePages< intIterations)
    (hpages : 1≤call.pages) :
    (call.pages≤ space.freePages ∧
      call.perform space=(.ok space.nextAddress,taken space call.pages)) ∨
    ∃ error pages,pages≤ space.freePages ∧ call.perform space=(.error error,taken space pages) := by
  cases call with
  | takePage =>
    by_cases hzero : space.freePages=0
    · refine Or.inr ⟨.genericError,0,Nat.zero_le _,?_⟩
      rw [HeapCall.perform,MemoryManagement.takePage,if_pos hzero,taken_zero h]
    · exact Or.inl ⟨Nat.one_le_iff_ne_zero.mpr hzero,takePage_eq hzero⟩
  | takePages pageCount =>
    have heq := takePages_eq h pageCount
    have htried : pagesTried pageCount=max 1 (min pageCount intIterations) := rfl
    have hasked : 1≤pageCount := hpages
    by_cases hroom : pagesTried pageCount≤ space.freePages
    · have hexact : pagesTried pageCount=pageCount := by omega
      rw [if_pos hroom,hexact] at heq
      rw [hexact] at hroom
      exact Or.inl ⟨hroom,heq⟩
    · rw [if_neg hroom] at heq
      exact Or.inr ⟨.genericError,space.freePages,le_rfl,heq⟩

/-- Free pages that are taken move the next address up, inside the address
space. -/
theorem Orderly.taken_space (h : Orderly base size ledger) (hend : base+size<2^64) {pages : ℕ}
    (hpages : pages≤ledger.space.freePages) :
    (taken ledger.space pages).nextAddress=ledger.space.nextAddress+pages*4096 ∧
    (taken ledger.space pages).freePages+pages=ledger.space.freePages ∧
    ledger.space.nextAddress+pages*4096≤base+size := by
  have hnext := h.separate.next
  have hdivided := Nat.div_mul_le_self size Page
  rw [Page] at hnext hdivided
  refine ⟨?_,Nat.sub_add_cancel hpages,by omega⟩
  rw [taken,Page]
  exact u64_of_lt (by omega)

/-- Pages that are lost leave the ledger orderly. -/
theorem Orderly.lose (h : Orderly base size ledger) (hend : base+size<2^64) {pages : ℕ}
    (hpages : pages≤ledger.space.freePages) :
    Orderly base size ⟨taken ledger.space pages,ledger.ranges⟩ := by
  obtain ⟨haddress,hfree,hle⟩ := h.taken_space hend hpages
  have hnext := h.separate.next
  have hbase := h.base_le
  have haligned := h.aligned
  rw [Page] at hnext haligned
  refine ⟨⟨h.separate.disjoint,h.separate.inside,?_,?_⟩,fun range hrange => ?_,?_,?_⟩
  · rw [Page]
    dsimp only
    omega
  · rw [haddress]
    exact hle
  · have hbelow := h.below range hrange
    rw [haddress]
    exact hbelow.trans (Nat.le_add_right _ _)
  · rw [haddress]
    exact hbase.trans (Nat.le_add_right _ _)
  · rw [Page]
    dsimp only
    omega

/-- Pages that are returned are behind all others. -/
theorem Orderly.grant (h : Orderly base size ledger) (hend : base+size<2^64) {pages : ℕ}
    (hpages : pages≤ledger.space.freePages) :
    Orderly base size
      ⟨taken ledger.space pages,(ledger.space.nextAddress,pages)::ledger.ranges⟩ := by
  obtain ⟨haddress,-,hle⟩ := h.taken_space hend hpages
  obtain ⟨⟨hdisjoint,hinside,hnext,hnext_le⟩,hbelow,hbase,haligned⟩ := h.lose hend hpages
  dsimp only at hdisjoint hinside hbelow
  refine ⟨⟨?_,?_,hnext,hnext_le⟩,?_,hbase,haligned⟩
  · refine List.pairwise_cons.mpr ⟨fun range hrange => Or.inr ?_,hdisjoint⟩
    exact h.below range hrange
  · exact List.forall_mem_cons.mpr ⟨⟨h.aligned,h.base_le,hle⟩,hinside⟩
  · exact List.forall_mem_cons.mpr ⟨haddress.ge,hbelow⟩

/-- Every call keeps a ledger orderly. -/
theorem Orderly.next (h : Orderly base size ledger) (hend : base+size<2^64)
    (hsize : size/Page< intIterations) (hpages : 1≤call.pages) :
    ∃ after,ledgerStep ledger call=some after ∧ Orderly base size after := by
  have hnext := h.separate.next
  have hnext_le := h.separate.next_le
  have hbase := h.base_le
  rw [Page] at hnext hsize
  rcases @perform_cases ledger.space call (by omega) (by omega) hpages with
    ⟨hroom,hperform⟩|⟨error,pages,hroom,hperform⟩
  · exact ⟨_,by rw [ledgerStep,hperform],h.grant hend hroom⟩
  · exact ⟨_,by rw [ledgerStep,hperform],h.lose hend hroom⟩

/-- The size of the heap address space. -/
theorem heapAddressSpace_size (hbase : base<2^64) :
    heapAddressSpace base=⟨base,base,2^64-1-base,(2^64-1-base)/Page⟩ := by
  have hsize : difference 0xffffffffffffffff base=2^64-1-base := by
    rw [difference,if_neg (by omega),u64Sub_of_le (by omega) (by decide)]
    norm_num
  rw [heapAddressSpace,newAddressSpace,hsize]

/-- It is orderly before the first call. -/
theorem orderly_heapAddressSpace (hbase : base<2^64) (haligned : base%Page=0) :
    Orderly base (2^64-1-base) ⟨heapAddressSpace base,[]⟩ := by
  rw [heapAddressSpace_size hbase]
  exact ⟨⟨List.Pairwise.nil,List.forall_mem_nil _,rfl,Nat.le_add_right _ _⟩,
    List.forall_mem_nil _,le_rfl,haligned⟩

end Ledgers

/-- In every run of calls on the heap address space `MemoryManager::init`
makes, the ranges returned are disjoint pages of it and its next address does
not wrap. -/
theorem heapAddressSpace_separate {base : ℕ} (hlow : 0xffffffff80000000≤base) (hbase : base<2^64)
    (haligned : base%Page=0) (calls : List HeapCall) (hcalls : ∀ call∈calls,1≤call.pages) :
    Always ledgerStep (Separate base (2^64-1-base)) ⟨heapAddressSpace base,[]⟩ calls := by
  have hsize : (2^64-1-base)/Page< intIterations := by
    rw [Page,intIterations]
    omega
  have hrun := always_of_each (fun ledger call h hpages =>
    Orderly.next h (by omega) hsize hpages) (orderly_heapAddressSpace hbase haligned)
    (each_of_forall hcalls _)
  exact hrun.imp (fun ledger h => h.separate)

/-- Two pages, one page and more than there are, at the usual place. -/
theorem heapAddressSpace_separate_sample : Always ledgerStep
    (Separate 0xffffffff80500000 (2^64-1-0xffffffff80500000))
    ⟨heapAddressSpace 0xffffffff80500000,[]⟩
    [.takePages 2,.takePage,.takePages 0x100000,.takePage] :=
  heapAddressSpace_separate (by decide) (by decide) (by decide) _ (by decide)

end WorkbenchOS.HeapAddresses
