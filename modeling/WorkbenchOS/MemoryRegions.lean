import WorkbenchOS.LibStd

/-!
# The regions of an address space

`Region::in_region` adds the size of the region to the address it is asked
about, not to the start of the region. Any address at or above the start is
taken for one of the region's, unless the sum wraps. The lookup is right where
no region in front of the one that has the address is so mistaken, and the sum
for that one does not wrap.
-/

namespace WorkbenchOS.MemoryRegions

open LibStd

/-- `Region`, without its name and its page-fault handler. -/
structure Region where
  /-- `m_start`. -/
  start : ℕ
  /-- `m_size_in_pages`. -/
  sizeInPages : ℕ
  deriving DecidableEq

/-- `VirtualAddress::offset_pages`. -/
def offsetPages (address pageCount : ℕ) : ℕ := u64 (address+u64 (pageCount*Page))

/-- `Region::in_region`. -/
def inRegion (region : Region) (address : ℕ) : Bool :=
  region.start≤address ∧ address<offsetPages address region.sizeInPages

/-- `AddressSpace`: the regions from `m_regions` on, by `m_next`. -/
structure AddressSpace where
  /-- The regions. -/
  regions : List Region

/-- `ADDRESS_SPACE_PAGES`. -/
def addressSpacePages : ℕ := 0x800000000

/-- `AddressSpace::AddressSpace`: one free region. -/
def newAddressSpace : AddressSpace := ⟨[⟨0,addressSpacePages⟩]⟩

/-- `AddressSpace::create_memory_region`. -/
def createMemoryRegion (space : AddressSpace) : AddressSpace := ⟨⟨0,0⟩::space.regions⟩

/-- The loop of `AddressSpace::find_by_address`. -/
def findInRegions (address : ℕ) : List Region→Option Region
  | [] => none
  | region::next => if inRegion region address then some region else findInRegions address next

/-- `AddressSpace::find_by_address`. -/
def findByAddress (space : AddressSpace) (address : ℕ) : Option Region :=
  findInRegions address space.regions

/-- The address is one of the region's. -/
def Contains (address : ℕ) (region : Region) : Bool :=
  region.start≤address ∧ address<region.start+region.sizeInPages*Page

/-- The lookup returns the first region that has the address, if any does. -/
def FindsExact (space : AddressSpace) (address : ℕ) : Prop :=
  findByAddress space address=space.regions.find? (Contains address)

/-- A region that is not taken for one that has the address, as it starts above
it, has no page or makes the sum wrap. -/
def Avoided (address : ℕ) (region : Region) : Prop :=
  region.start≤address → region.sizeInPages=0 ∨ 2^64≤address+region.sizeInPages*Page

instance (address : ℕ) (region : Region) : Decidable (Avoided address region) :=
  inferInstanceAs (Decidable (_ → _))

/-- All regions in front of the first one with the address are avoided, and the
sum does not wrap for that one. -/
def Unmistaken (space : AddressSpace) (address : ℕ) : Prop :=
  (∀ region∈space.regions.takeWhile (fun region => !Contains address region),
    Avoided address region) ∧
  ∀ region∈space.regions.find? (Contains address),address+region.sizeInPages*Page<2^64

section Searches

variable {α : Type*}

/-- Two predicates find the same first element exactly when the first one fails
before the element of the second and holds there. -/
theorem find_eq_find_iff (first second : α→Bool) (list : List α) :
    list.find? first=list.find? second ↔
      (∀ x∈list.takeWhile (fun x => !second x),first x=false) ∧
        ∀ x∈list.find? second,first x=true := by
  induction list with
  | nil => simp
  | cons head rest ih =>
    rw [List.find?_cons,List.find?_cons,List.takeWhile_cons]
    cases hsecond : second head with
    | true =>
      cases hfirst : first head with
      | true => simp [hfirst]
      | false =>
        -- a later element equal to the head would fail the first predicate too
        have hne : rest.find? first≠some head := by
          intro hfound
          rw [List.find?_some hfound] at hfirst
          cases hfirst
        simpa [hfirst] using hne
    | false =>
      cases hfirst : first head with
      | true =>
        have hne : some head≠rest.find? second := by
          intro hfound
          rw [List.find?_some hfound.symm] at hsecond
          cases hsecond
        simpa [hfirst] using hne
      | false => simpa [hfirst] using ih

end Searches

section Regions

variable {address : ℕ} {region : Region} {space : AddressSpace}

/-- The loop looks for the first region that passes the test. -/
theorem findInRegions_eq (address : ℕ) (regions : List Region) :
    findInRegions address regions=regions.find? (fun region => inRegion region address) := by
  induction regions with
  | nil => rfl
  | cons region next ih =>
    rw [findInRegions,List.find?_cons]
    cases hin : inRegion region address with
    | true => rfl
    | false => exact ih

/-- What the test asks for. -/
theorem inRegion_iff (haddress : address<2^64)
    (h : region.start+region.sizeInPages*Page≤2^64) :
    inRegion region address=true ↔ region.start≤address ∧ region.sizeInPages≠0 ∧
      address+region.sizeInPages*Page<2^64 := by
  rw [inRegion,decide_eq_true_iff,offsetPages]
  rw [Page] at h ⊢
  unfold u64
  omega

/-- A region without the address passes it unless avoided. -/
theorem inRegion_eq_false_iff (haddress : address<2^64)
    (h : region.start+region.sizeInPages*Page≤2^64) :
    inRegion region address=false ↔ Avoided address region := by
  rw [←Bool.not_eq_true,inRegion_iff haddress h,Avoided]
  omega

/-- One with the address passes it when the sum does not wrap. -/
theorem inRegion_iff_of_contains (haddress : address<2^64)
    (h : region.start+region.sizeInPages*Page≤2^64) (hcontains : Contains address region=true) :
    inRegion region address=true ↔ address+region.sizeInPages*Page<2^64 := by
  rw [Contains,decide_eq_true_iff,Page] at hcontains
  rw [inRegion_iff haddress h,Page]
  omega

end Regions

/-- For regions whose ends do not overflow, the lookup of an address is exact
precisely when no region is mistaken for the one that has it. -/
theorem findsExact_iff {space : AddressSpace} {address : ℕ} (haddress : address<2^64)
    (h : ∀ region∈space.regions,region.start+region.sizeInPages*Page≤2^64) :
    FindsExact space address ↔ Unmistaken space address := by
  rw [FindsExact,findByAddress,findInRegions_eq,find_eq_find_iff,Unmistaken]
  refine and_congr ?_ ?_
  · refine forall₂_congr (fun region hbefore => ?_)
    exact inRegion_eq_false_iff haddress (h region (List.takeWhile_subset _ hbefore))
  · refine forall₂_congr (fun region hfound => ?_)
    exact inRegion_iff_of_contains haddress (h region (List.mem_of_find?_eq_some hfound))
      (List.find?_some hfound)

/-- A page above a memory region without pages. -/
theorem findsExact_sample : FindsExact (createMemoryRegion newAddressSpace) 0x1000 :=
  (findsExact_iff (by decide) (by decide)).mpr ⟨by decide,by decide⟩

/-- A fresh address space has the addresses below 2^47 and is found for most of
the others. -/
theorem newAddressSpace_findsExact_iff {address : ℕ} (haddress : address<2^64) :
    FindsExact newAddressSpace address ↔ address<2^47 ∨ 2^64-2^47≤address := by
  have hregion : inRegion ⟨0,addressSpacePages⟩ address=true ↔ address<2^64-2^47 := by
    rw [inRegion_iff haddress (by decide)]
    simp only [addressSpacePages,Page]
    omega
  have hcontains : Contains address ⟨0,addressSpacePages⟩=true ↔ address<2^47 := by
    rw [Contains,decide_eq_true_iff]
    simp only [addressSpacePages,Page]
    omega
  rw [FindsExact,findByAddress,findInRegions_eq,newAddressSpace,List.find?_singleton,List.find?_singleton]
  by_cases hlow : address<2^47
  · rw [if_pos (hcontains.mpr hlow),if_pos (hregion.mpr (by omega))]
    exact iff_of_true rfl (Or.inl hlow)
  · rw [if_neg (fun hc => hlow (hcontains.mp hc))]
    by_cases hhigh : address<2^64-2^47
    · rw [if_pos (hregion.mpr hhigh)]
      exact iff_of_false (fun heq => by cases heq) (by omega)
    · rw [if_neg (fun hr => hhigh (hregion.mp hr))]
      exact iff_of_true rfl (Or.inr (by omega))

/-- The address behind the only region is found in it. -/
theorem not_always_findsExact :
    (∀ region∈newAddressSpace.regions,region.start+region.sizeInPages*Page≤2^64) ∧
      ¬FindsExact newAddressSpace 0x800000000000 := by
  refine ⟨by decide,fun h => ?_⟩
  have hexact := (newAddressSpace_findsExact_iff (by decide)).mp h
  omega

end WorkbenchOS.MemoryRegions
