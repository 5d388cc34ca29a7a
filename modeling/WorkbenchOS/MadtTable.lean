import WorkbenchOS.ByteMemory
import WorkbenchOS.LibStd

/-!
# The search of the MADT

`APIC::initialise` looks for the first entry of type 1 in the table the
firmware left. Every entry says how long it is, and the loop believes it: the
next entry is looked for that many bytes on, and that many bytes are taken
from a remainder that is not signed. So the loop comes to the end of the table
only where the lengths are those of a chain of entries that ends there.
-/

namespace WorkbenchOS.MadtTable

open ByteMemory LibStd

section Definitions

/-- Some bytes of the table, from an offset on. -/
structure Read where
  /-- Offset from the header. -/
  offset : ℕ
  /-- Number of bytes. -/
  count : ℕ
  deriving DecidableEq

/-- `sizeof(MultipleApicDescriptionTable)`. -/
def sizeofMadt : ℕ := 44

/-- `header->length`. -/
def tableLength (table : Memory) : ℕ := readLE table 4 4

/-- `entry->type`. -/
def entryType (table : Memory) (offset : ℕ) : ℕ := readLE table offset 1

/-- `entry->length`. -/
def entryLength (table : Memory) (offset : ℕ) : ℕ := readLE table (offset+1) 1

/-- What is read of an entry. The two bytes every entry has are printed, as are
the sources of an override and the fields of an I/O APIC. -/
def entryReads (table : Memory) (offset : ℕ) : List Read :=
  ⟨offset,2⟩::((if entryType table offset=2 then [⟨offset+2,1⟩,⟨offset+3,1⟩] else [])++
    if entryType table offset=1 then [⟨offset+2,1⟩,⟨offset+4,4⟩,⟨offset+8,4⟩] else [])

/-- The loop of `find_io_apic`: what it reads in a number of rounds, and the
offset of the entry it returns. -/
def findLoop (table : Memory) : (fuel offset remainder : ℕ)→List Read×Option (Except Error ℕ)
  | 0,_,_ => ([],none)
  | fuel+1,offset,remainder =>
    if remainder=0 then ([],some (.error (.fromCode 1)))
    else if entryType table offset=1 then (entryReads table offset,some (.ok offset))
    else
      let rest := findLoop table fuel (u64 (offset+entryLength table offset))
        (u64Sub remainder (entryLength table offset))
      (entryReads table offset++rest.1,rest.2)

/-- `find_io_apic`. -/
def findIoApic (table : Memory) (fuel : ℕ) : List Read×Option (Except Error ℕ) :=
  findLoop table fuel sizeofMadt (u64Sub (tableLength table) sizeofMadt)

/-- The first entry of type 1, from the entry at an offset on. -/
inductive FirstIoApic (table : Memory) : ℕ→ℕ→Prop
  /-- It is this one. -/
  | here {offset : ℕ} (inside : offset<tableLength table) (type : entryType table offset=1) :
      FirstIoApic table offset offset
  /-- It is a later one. -/
  | later {offset first : ℕ} (inside : offset<tableLength table) (type : entryType table offset≠1)
      (rest : FirstIoApic table (offset+entryLength table offset) first) :
      FirstIoApic table offset first

/-- The answer is the first entry of type 1, or an error if there is none. -/
structure Right (table : Memory) (offset : ℕ) (answer : Except Error ℕ) : Prop where
  /-- The entry. -/
  found : ∀ first, FirstIoApic table offset first → answer=.ok first
  /-- The error. -/
  missing : (∀ first, ¬FirstIoApic table offset first) → answer=.error (.fromCode 1)

/-- The bytes are in the table. -/
def Read.Inside (table : Memory) (read : Read) : Prop := read.offset+read.count≤tableLength table

/-- A run that ends, reads in the table only and is right. -/
structure Parses (table : Memory) (offset : ℕ) (run : ℕ→List Read×Option (Except Error ℕ)) :
    Prop where
  /-- It ends. -/
  returns : ∃ fuel answer,(run fuel).2=some answer ∧ Right table offset answer
  /-- Every byte is in the table. -/
  inside : ∀ fuel, ∀ read∈(run fuel).1,read.Inside table

/-- The entries from an offset on are a chain up to the end of the table or to
an I/O APIC. -/
inductive Chained (table : Memory) : ℕ→Prop
  /-- The end of the table. -/
  | stop : Chained table (tableLength table)
  /-- An I/O APIC, with its fields in the table. -/
  | ioApic {offset : ℕ} (type : entryType table offset=1) (inside : offset+12≤tableLength table) :
      Chained table offset
  /-- Another entry, which has a length, and what follows it. -/
  | next {offset : ℕ} (type : entryType table offset≠1) (inside : offset+2≤tableLength table)
      (override : entryType table offset=2 → offset+4≤tableLength table)
      (progress : 0<entryLength table offset)
      (room : offset+entryLength table offset≤tableLength table)
      (rest : Chained table (offset+entryLength table offset)) : Chained table offset

end Definitions

section Loop

variable {table : Memory} {offset : ℕ}

theorem tableLength_lt (table : Memory) : tableLength table<2^32 := readLE_lt table 4 4

theorem entryLength_lt (table : Memory) (offset : ℕ) : entryLength table offset<2^8 :=
  readLE_lt table (offset+1) 1

/-- One round that goes on inside the table. -/
theorem findLoop_next (fuel : ℕ) (hlt : offset<tableLength table)
    (htype : entryType table offset≠1) (hroom : offset+entryLength table offset≤tableLength table) :
    findLoop table (fuel+1) offset (tableLength table-offset)=
      (entryReads table offset++(findLoop table fuel (offset+entryLength table offset)
          (tableLength table-(offset+entryLength table offset))).1,
        (findLoop table fuel (offset+entryLength table offset)
          (tableLength table-(offset+entryLength table offset))).2) := by
  have hlength := tableLength_lt table
  have hoffset : u64 (offset+entryLength table offset)=offset+entryLength table offset :=
    u64_of_lt (by omega)
  have hremainder : u64Sub (tableLength table-offset) (entryLength table offset)=
      tableLength table-(offset+entryLength table offset) := by
    rw [u64Sub_of_le (by omega) (by omega),Nat.sub_sub]
  rw [findLoop,if_neg (by omega),if_neg htype,hoffset,hremainder]

/-- The reads of an entry of another type. -/
theorem entryReads_inside (htype : entryType table offset≠1) (hinside : offset+2≤tableLength table)
    (hoverride : entryType table offset=2 → offset+4≤tableLength table) :
    ∀ read∈entryReads table offset,read.Inside table := by
  unfold entryReads
  rw [if_neg htype,List.append_nil]
  refine List.forall_mem_cons.mpr ⟨hinside,?_⟩
  by_cases hsource : entryType table offset=2
  · have hend := hoverride hsource
    rw [if_pos hsource]
    refine List.forall_mem_cons.mpr ⟨?_,List.forall_mem_singleton.mpr ?_⟩
    · unfold Read.Inside
      dsimp only
      omega
    · unfold Read.Inside
      dsimp only
      omega
  · rw [if_neg hsource]
    exact List.forall_mem_nil _

/-- The first entry of type 1 behind another entry. -/
theorem firstIoApic_later_iff (hlt : offset<tableLength table) (htype : entryType table offset≠1)
    (first : ℕ) : FirstIoApic table offset first ↔
      FirstIoApic table (offset+entryLength table offset) first := by
  refine ⟨fun h => ?_,fun h => .later hlt htype h⟩
  cases h with
  | here inside type => exact absurd type htype
  | later inside type rest => exact rest

/-- So the same answer is right. -/
theorem right_later_iff (hlt : offset<tableLength table) (htype : entryType table offset≠1)
    (answer : Except Error ℕ) : Right table offset answer ↔
      Right table (offset+entryLength table offset) answer := by
  have hfirst := firstIoApic_later_iff hlt htype
  refine ⟨fun h => ⟨fun first hf => h.found first ((hfirst first).mpr hf),fun hnone => ?_⟩,
    fun h => ⟨fun first hf => h.found first ((hfirst first).mp hf),fun hnone => ?_⟩⟩
  · exact h.missing (fun first hf => hnone first ((hfirst first).mp hf))
  · exact h.missing (fun first hf => hnone first ((hfirst first).mpr hf))

/-- Behind the last entry the search is over. -/
theorem parses_stop (table : Memory) : Parses table (tableLength table)
    (fun fuel => findLoop table fuel (tableLength table) (tableLength table-tableLength table)) := by
  have hend : ∀ first, ¬FirstIoApic table (tableLength table) first := by
    intro first hf
    cases hf with
    | here inside type => omega
    | later inside type rest => omega
  rw [Nat.sub_self]
  constructor
  · exact ⟨1,.error (.fromCode 1),rfl,⟨fun first hf => absurd hf (hend first),fun _ => rfl⟩⟩
  · intro fuel read hm
    cases fuel with
    | zero => exact absurd hm List.not_mem_nil
    | succ fuel => exact absurd hm List.not_mem_nil

/-- At an I/O APIC entry the search has its answer. -/
theorem parses_ioApic (htype : entryType table offset=1) (hinside : offset+12≤tableLength table) :
    Parses table offset (fun fuel => findLoop table fuel offset (tableLength table-offset)) := by
  have hrun : ∀ fuel, findLoop table (fuel+1) offset (tableLength table-offset)=
      (entryReads table offset,some (.ok offset)) := by
    intro fuel
    rw [findLoop,if_neg (by omega),if_pos htype]
  constructor
  · refine ⟨1,.ok offset,by rw [hrun],⟨fun first hf => ?_,fun hnone => ?_⟩⟩
    · cases hf with
      | here => rfl
      | later _ other _ => exact absurd htype other
    · exact absurd (.here (by omega) htype) (hnone offset)
  · intro fuel read hm
    cases fuel with
    | zero => exact absurd hm List.not_mem_nil
    | succ fuel =>
      rw [hrun,entryReads,htype] at hm
      simp only [OfNat.one_ne_ofNat,if_false,if_true,List.nil_append,List.mem_cons,
        List.not_mem_nil,or_false] at hm
      unfold Read.Inside
      rcases hm with rfl|rfl|rfl|rfl <;> dsimp only <;> omega

/-- The loop follows a chain to its end. -/
theorem Chained.parses (h : Chained table offset) :
    Parses table offset (fun fuel => findLoop table fuel offset (tableLength table-offset)) := by
  induction h with
  | stop => exact parses_stop table
  | ioApic type inside => exact parses_ioApic type inside
  | @next offset type inside override progress room rest ih =>
    have hstep := fun fuel => findLoop_next fuel (show offset<tableLength table by omega) type room
    obtain ⟨⟨fuel,answer,hanswer,hright⟩,hinside⟩ := ih
    refine ⟨⟨fuel+1,answer,by rw [hstep]; exact hanswer,
      (right_later_iff (by omega) type answer).mpr hright⟩,fun fuel read hm => ?_⟩
    cases fuel with
    | zero => exact absurd hm List.not_mem_nil
    | succ fuel =>
      rw [hstep,List.mem_append] at hm
      rcases hm with hm|hm
      · exact entryReads_inside type inside override read hm
      · exact hinside fuel read hm

/-- An entry without a length is the next entry for ever. -/
theorem findLoop_stuck (hlt : offset<tableLength table) (htype : entryType table offset≠1)
    (hzero : entryLength table offset=0) (fuel : ℕ) :
    (findLoop table fuel offset (tableLength table-offset)).2=none := by
  induction fuel with
  | zero => rfl
  | succ fuel ih =>
    have hstep := findLoop_next fuel hlt htype (by omega)
    rw [hzero,Nat.add_zero] at hstep
    rw [hstep]
    exact ih

/-- Before the end of the table an entry is read. -/
theorem mem_findLoop (fuel : ℕ) {remainder : ℕ} (hne : remainder≠0) {read : Read}
    (h : read∈entryReads table offset) :
    read∈(findLoop table (fuel+1) offset remainder).1 := by
  rw [findLoop,if_neg hne]
  split
  · exact h
  · exact List.mem_append_left _ h

/-- A length beyond the table makes the remainder wrap, and the loop reads on. -/
theorem findLoop_beyond (hlt : offset<tableLength table) (htype : entryType table offset≠1)
    (hbeyond : tableLength table<offset+entryLength table offset) :
    Read.mk (offset+entryLength table offset) 2∈
      (findLoop table 2 offset (tableLength table-offset)).1 := by
  have hlength := tableLength_lt table
  have hsize := entryLength_lt table offset
  have hoffset : u64 (offset+entryLength table offset)=offset+entryLength table offset :=
    u64_of_lt (by omega)
  have hwrapped : u64Sub (tableLength table-offset) (entryLength table offset)≠0 := by
    unfold u64Sub u64
    omega
  rw [findLoop,if_neg (by omega),if_neg htype,hoffset]
  exact List.mem_append_right _ (mem_findLoop 0 hwrapped List.mem_cons_self)

/-- The reads of an entry before the end of a table that is parsed. -/
theorem Parses.read_inside (hlt : offset<tableLength table)
    (h : Parses table offset (fun fuel => findLoop table fuel offset (tableLength table-offset))) :
    ∀ read∈entryReads table offset,read.Inside table :=
  fun read hm => h.inside 1 read (mem_findLoop 0 (by omega) hm)

/-- An I/O APIC entry that is read lies in the table. -/
theorem inside_of_ioApic (hread : ∀ read∈entryReads table offset,read.Inside table)
    (htype : entryType table offset=1) : offset+12≤tableLength table := by
  have hfields : Read.mk (offset+8) 4∈entryReads table offset := by
    unfold entryReads
    rw [if_pos htype]
    simp only [List.mem_cons,List.mem_append,or_true,true_or]
  have hend := hread _ hfields
  unfold Read.Inside at hend
  dsimp only at hend
  omega

/-- So does an override up to its interrupt. -/
theorem inside_of_override (hread : ∀ read∈entryReads table offset,read.Inside table)
    (hsource : entryType table offset=2) : offset+4≤tableLength table := by
  have hirq : Read.mk (offset+3) 1∈entryReads table offset := by
    unfold entryReads
    rw [if_pos hsource]
    simp only [List.mem_cons,List.mem_append,or_true,true_or]
  exact hread _ hirq

/-- A search that returns goes past every entry of another type. -/
theorem Parses.progress (hlt : offset<tableLength table) (htype : entryType table offset≠1)
    (h : Parses table offset (fun fuel => findLoop table fuel offset (tableLength table-offset))) :
    0<entryLength table offset := by
  by_contra hzero
  obtain ⟨fuel,answer,hanswer,-⟩ := h.returns
  rw [findLoop_stuck hlt htype (by omega)] at hanswer
  cases hanswer

/-- It never goes past the end. -/
theorem Parses.room (hlt : offset<tableLength table) (htype : entryType table offset≠1)
    (h : Parses table offset (fun fuel => findLoop table fuel offset (tableLength table-offset))) :
    offset+entryLength table offset≤tableLength table := by
  by_contra hbeyond
  have hafter := h.inside 2 _ (findLoop_beyond hlt htype (by omega))
  unfold Read.Inside at hafter
  dsimp only at hafter
  omega

/-- What is behind such an entry is parsed as well. -/
theorem Parses.later (hlt : offset<tableLength table) (htype : entryType table offset≠1)
    (hroom : offset+entryLength table offset≤tableLength table)
    (h : Parses table offset (fun fuel => findLoop table fuel offset (tableLength table-offset))) :
    Parses table (offset+entryLength table offset) (fun fuel => findLoop table fuel
      (offset+entryLength table offset) (tableLength table-(offset+entryLength table offset))) := by
  have hstep := fun fuel => findLoop_next fuel hlt htype hroom
  constructor
  · obtain ⟨fuel,answer,hanswer,hright⟩ := h.returns
    cases fuel with
    | zero => cases hanswer
    | succ fuel =>
      rw [hstep] at hanswer
      exact ⟨fuel,answer,hanswer,(right_later_iff hlt htype answer).mp hright⟩
  · intro fuel read hm
    refine h.inside (fuel+1) read ?_
    rw [hstep]
    exact List.mem_append_right _ hm

/-- A run that parses the table has followed a chain. -/
theorem chained_of_parses (hle : offset≤tableLength table)
    (h : Parses table offset (fun fuel => findLoop table fuel offset (tableLength table-offset))) :
    Chained table offset := by
  obtain ⟨left,hleft⟩ : ∃ left,tableLength table-offset=left := ⟨_,rfl⟩
  induction left using Nat.strong_induction_on generalizing offset with
  | _ left ih =>
    rcases hle.eq_or_lt with rfl|hlt
    · exact .stop
    · have hread := h.read_inside hlt
      by_cases htype : entryType table offset=1
      · exact .ioApic htype (inside_of_ioApic hread htype)
      · have htwo : offset+2≤tableLength table := hread ⟨offset,2⟩ List.mem_cons_self
        have hprogress := h.progress hlt htype
        have hroom := h.room hlt htype
        exact .next htype htwo (inside_of_override hread) hprogress hroom
          (ih _ (by omega) hroom (h.later hlt htype hroom) rfl)

/-- The remainder the search begins with. -/
theorem findIoApic_eq (h : sizeofMadt≤tableLength table) :
    findIoApic table=fun fuel => findLoop table fuel sizeofMadt (tableLength table-sizeofMadt) := by
  have hlength := tableLength_lt table
  funext fuel
  rw [findIoApic,u64Sub_of_le h (by omega)]

/-- The search ends, reads in the table only and returns the first I/O APIC, or
an error if there is none, exactly when the entries are a chain that ends with
the table or comes to an I/O APIC. -/
theorem findIoApic_parses_iff (h : sizeofMadt≤tableLength table) :
    Parses table sizeofMadt (findIoApic table) ↔ Chained table sizeofMadt := by
  rw [findIoApic_eq h]
  exact ⟨chained_of_parses h,Chained.parses⟩

/-- A table of 64 bytes: a local APIC and an I/O APIC. -/
def sampleTable : Memory :=
  fun x => ([(4,64),(45,8),(52,1),(53,12)].lookup x).getD 0

theorem sampleTable_length : tableLength sampleTable=64 := by decide +kernel

/-- The sample table is parsed exactly when it is such a chain. -/
theorem findIoApic_parses_iff_sample :
    Parses sampleTable sizeofMadt (findIoApic sampleTable) ↔ Chained sampleTable sizeofMadt :=
  findIoApic_parses_iff (by rw [sampleTable_length]; decide)

/-- It is one. -/
theorem sampleTable_chained : Chained sampleTable sizeofMadt := by
  have hlength := sampleTable_length
  have hstep : entryLength sampleTable sizeofMadt=8 := by decide +kernel
  have hother : entryType sampleTable sizeofMadt=0 := by decide +kernel
  have hfound : entryType sampleTable (sizeofMadt+8)=1 := by decide +kernel
  have hat : sizeofMadt=44 := rfl
  refine .next (by omega) (by omega) (fun htype => by omega) (by omega) (by omega) ?_
  rw [hstep]
  exact .ioApic hfound (by omega)

/-- A table of 46 bytes, the last two of them an entry without a length. -/
def stuckTable : Memory := fun x => if x=4 then 46 else 0

/-- The search in it does not end. -/
theorem findIoApic_not_always_parses : ¬∀ table : Memory,
    sizeofMadt≤tableLength table → Parses table sizeofMadt (findIoApic table) := by
  intro hall
  have hlength : tableLength stuckTable=46 := by decide +kernel
  have hzero : entryLength stuckTable sizeofMadt=0 := by decide +kernel
  have htype : entryType stuckTable sizeofMadt≠1 := by decide +kernel
  have hle : sizeofMadt≤tableLength stuckTable := by rw [hlength]; decide
  have hparses := hall stuckTable hle
  rw [findIoApic_eq hle] at hparses
  obtain ⟨fuel,answer,hanswer,-⟩ := hparses.returns
  rw [findLoop_stuck (by rw [hlength]; decide) htype hzero] at hanswer
  cases hanswer

end Loop

end WorkbenchOS.MadtTable
