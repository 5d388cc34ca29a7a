import WorkbenchOS.ByteMemory
import WorkbenchOS.WordBitmaps

/-!
# Page tables in physical memory

A table is an aligned page of 512 entries of 64 bits. Entries are read and
written through bit fields. The hardware walk takes nine address bits at
each level, ends early at a large page and fails at an entry that is not
present. A walk that succeeds has read present entries of tables only, so it
survives every change that leaves those entries alone.
-/

namespace WorkbenchOS.PageTables

open ByteMemory WordBitmaps

/-- The bit field of `width` bits from bit `low` on. -/
def getField (word : BitVec 64) (low width : ℕ) : ℕ := ((word >>> low) &&& lowMask width).toNat

/-- Store a bit field; higher bits of the value are dropped. -/
def setField (word : BitVec 64) (low width value : ℕ) : BitVec 64 :=
  (word &&& ~~~(lowMask width <<< low)) ||| ((BitVec.ofNat 64 value &&& lowMask width) <<< low)

/-- Bits of a field. -/
theorem testBit_getField (word : BitVec 64) {low width : ℕ} (h : low+width≤64) (j : ℕ) :
    (getField word low width).testBit j=(decide (j<width) && word.getLsbD (low+j)) := by
  change ((word >>> low) &&& lowMask width).getLsbD j=_
  by_cases hj : j<64
  · rw [BitVec.getLsbD_and,BitVec.getLsbD_ushiftRight,getLsbD_lowMask hj,Bool.and_comm]
  · have hn : ¬j<width := by omega
    rw [BitVec.getLsbD_of_ge _ _ (by omega)]
    simp [hn]

/-- Bits of a word with one field stored. -/
theorem getLsbD_setField (word : BitVec 64) {low width value j : ℕ} (hj : j<64) :
    (setField word low width value).getLsbD j=
      if low≤j ∧ j<low+width then value.testBit (j-low) else word.getLsbD j := by
  unfold setField
  rw [BitVec.getLsbD_or,BitVec.getLsbD_and,BitVec.getLsbD_not,getLsbD_lowMask_shiftLeft hj,
    BitVec.getLsbD_shiftLeft]
  by_cases hlow : j<low
  · have hno : ¬(low≤j ∧ j<low+width) := by omega
    simp [hj,hlow,hno]
  · have hsub : j-low<64 := by omega
    rw [BitVec.getLsbD_and,getLsbD_lowMask hsub,BitVec.getLsbD_ofNat]
    by_cases hin : j<low+width
    · have hyes : low≤j ∧ j<low+width := by omega
      have hw : j-low<width := by omega
      simp [hj,hlow,hyes,hsub,hw]
    · have hno : ¬(low≤j ∧ j<low+width) := by omega
      have hw : ¬j-low<width := by omega
      simp [hj,hlow,hno,hw]

/-- A field reads back as stored, modulo its width. -/
theorem getField_setField_self (word : BitVec 64) {low width value : ℕ} (h : low+width≤64) :
    getField (setField word low width value) low width=value%2^width := by
  refine Nat.eq_of_testBit_eq (fun j => ?_)
  rw [testBit_getField _ h,Nat.testBit_mod_two_pow]
  by_cases hj : j<width
  · have hin : low≤low+j ∧ low+j<low+width := by omega
    rw [getLsbD_setField word (by omega),if_pos hin,Nat.add_sub_cancel_left]
  · simp [hj]

/-- Fields that do not overlap are independent. -/
theorem getField_setField_apart (word : BitVec 64) {low width value other size : ℕ}
    (h : other+size≤64) (ha : other+size≤low ∨ low+width≤other) :
    getField (setField word low width value) other size=getField word other size := by
  refine Nat.eq_of_testBit_eq (fun j => ?_)
  rw [testBit_getField _ h,testBit_getField _ h]
  by_cases hj : j<size
  · have hout : ¬(low≤other+j ∧ other+j<low+width) := by omega
    rw [getLsbD_setField word (by omega),if_neg hout]
  · simp [hj]

/-- A field fits its width. -/
theorem getField_lt (word : BitVec 64) {low width : ℕ} (h : low+width≤64) :
    getField word low width<2^width := by
  refine Nat.lt_pow_two_of_testBit _ (fun j hj => ?_)
  rw [testBit_getField _ h]
  simp [Nat.not_lt.mpr hj]

/-- A wide field is made of its low and its high part. -/
theorem getField_split (word : BitVec 64) {low first second : ℕ} (h : low+(first+second)≤64) :
    getField word low (first+second)=
      getField word low first+2^first*getField word (low+first) second := by
  have hlow : getField word low first<2^first := getField_lt word (by omega)
  refine Nat.eq_of_testBit_eq (fun j => ?_)
  rw [testBit_getField _ h,Nat.add_comm (getField word low first),
    Nat.testBit_two_pow_mul_add _ hlow]
  by_cases hj : j<first
  · rw [if_pos hj,testBit_getField _ (by omega)]
    have hsum : j<first+second := by omega
    simp [hj,hsum]
  · rw [if_neg hj,testBit_getField _ (by omega)]
    have hiff : j<first+second ↔ j-first<second := by omega
    rw [show low+first+(j-first)=low+j by omega]
    simp only [hiff]

/-- Every field of the zero word is zero. -/
theorem getField_zero {low width : ℕ} (h : low+width≤64) : getField 0#64 low width=0 := by
  refine Nat.eq_of_testBit_eq (fun j => ?_)
  rw [testBit_getField _ h,BitVec.getLsbD_zero,Bool.and_false,Nat.zero_testBit]

/-- Bytes in a table. -/
def tableSize : ℕ := 4096

/-- Entry of a table. -/
def entryAt (memory : Memory) (table index : ℕ) : BitVec 64 :=
  BitVec.ofNat 64 (readLE memory (table+8*index) 8)

/-- Store an entry of a table. -/
def setEntry (memory : Memory) (table index : ℕ) (entry : BitVec 64) : Memory :=
  writeLE memory (table+8*index) 8 entry.toNat

section Entries

variable (memory : Memory) {table other index second : ℕ} (entry : BitVec 64)

/-- An entry reads back as stored. -/
theorem entryAt_setEntry_self : entryAt (setEntry memory table index entry) table index=entry := by
  unfold entryAt setEntry
  rw [readLE_writeLE_self]
  have hlt : entry.toNat<256^8 := lt_of_lt_of_eq entry.isLt (by norm_num)
  rw [Nat.mod_eq_of_lt hlt,BitVec.ofNat_toNat,BitVec.setWidth_eq]

/-- Storing one entry keeps every other entry of every table. -/
theorem entryAt_setEntry_other (hi : index<512) (hs : second<512) (ht : table%tableSize=0)
    (ho : other%tableSize=0) (hne : other≠table ∨ second≠index) :
    entryAt (setEntry memory table index entry) other second=entryAt memory other second := by
  unfold entryAt setEntry
  unfold tableSize at ht ho
  rw [readLE_writeLE_apart memory (by unfold Apart; omega)]

variable {memory}

/-- An entry depends on the bytes of its table only. -/
theorem entryAt_congr {after : Memory} (hi : index<512)
    (h : Unchanged memory after table tableSize) :
    entryAt after table index=entryAt memory table index := by
  unfold entryAt
  rw [readLE_congr (h.mono (by omega) (by unfold tableSize; omega))]

/-- A table of zero bytes has only zero entries. -/
theorem entryAt_zero (hi : index<512)
    (h : ∀ x, table≤x → x<table+tableSize → memory x=0) : entryAt memory table index=0#64 := by
  unfold entryAt
  unfold tableSize at h
  rw [readLE_zero (fun x hx hy => h x (by omega) (by omega))]

end Entries

section Consecutive

variable (memory : Memory) (table : ℕ)

/-- Tables one behind another are one table. -/
theorem entryAt_shift (skip i : ℕ) :
    entryAt memory (table+8*skip) i=entryAt memory table (skip+i) := by
  rw [entryAt,entryAt,Nat.mul_add,Nat.add_assoc]

/-- Storing in tables one behind another. -/
theorem setEntry_shift (skip i : ℕ) (entry : BitVec 64) :
    setEntry memory (table+8*skip) i entry=setEntry memory table (skip+i) entry := by
  rw [setEntry,setEntry,Nat.mul_add,Nat.add_assoc]

/-- Entries of one table, however long, are independent. -/
theorem entryAt_setEntry (i j : ℕ) (entry : BitVec 64) :
    entryAt (setEntry memory table i entry) table j=
      if j=i then entry else entryAt memory table j := by
  by_cases hj : j=i
  · rw [if_pos hj,hj]
    exact entryAt_setEntry_self memory entry
  · rw [if_neg hj,entryAt,setEntry,readLE_writeLE_apart memory (by unfold Apart; omega)]
    rfl

/-- A loop that rewrites consecutive entries. -/
theorem entryAt_foldl (first count : ℕ) {place : ℕ→ℕ} (change : ℕ→BitVec 64→BitVec 64)
    (hplace : ∀ i, i<count → place i=first+i) (j : ℕ) :
    entryAt ((List.range count).foldl (fun memory i =>
        setEntry memory table (place i) (change i (entryAt memory table (place i)))) memory)
      table j=
      if first≤j ∧ j<first+count then change (j-first) (entryAt memory table j)
      else entryAt memory table j := by
  induction count generalizing j with
  | zero =>
    rw [if_neg (by omega)]
    rfl
  | succ count ih =>
    have hih := ih (fun i hi => hplace i (by omega))
    rw [List.range_succ,List.foldl_append,List.foldl_cons,List.foldl_nil,entryAt_setEntry,
      hplace count (by omega),hih,hih]
    by_cases hj : j=first+count
    · rw [if_pos hj,if_neg (by omega),if_pos (by omega),hj,Nat.add_sub_cancel_left]
    · rw [if_neg hj]
      by_cases hin : first≤j ∧ j<first+count
      · rw [if_pos hin,if_pos (by omega)]
      · rw [if_neg hin,if_neg (by omega)]

end Consecutive

/-- The entry is present: bit 0. -/
def Present (entry : BitVec 64) : Prop := getField entry 0 1=1

instance (entry : BitVec 64) : Decidable (Present entry) := inferInstanceAs (Decidable (_=_))

/-- Storing a one in bit 0 makes an entry present. -/
theorem present_setField_self (entry : BitVec 64) : Present (setField entry 0 1 1) :=
  getField_setField_self entry (by decide)

/-- Stores above bit 0 leave the entry as present as it was. -/
theorem present_setField_apart (entry : BitVec 64) {low width value : ℕ} (h : 1≤low) :
    Present (setField entry low width value) ↔ Present entry := by
  unfold Present
  rw [getField_setField_apart entry (by decide) (Or.inl h)]

/-- The entry maps a large page: bit 7. -/
def Large (entry : BitVec 64) : Prop := getField entry 7 1=1

instance (entry : BitVec 64) : Decidable (Large entry) := inferInstanceAs (Decidable (_=_))

/-- Physical address in an entry: bits 12 to 51. -/
def target (entry : BitVec 64) : ℕ := getField entry 12 40*4096

/-- The nine address bits that select an entry at a level; the lowest level
is zero. -/
def indexAt (level address : ℕ) : ℕ := address/2^(12+9*level)%512

/-- The hardware walk through `levels` levels of tables. An entry with the
large-page bit ends it at the second and third level. -/
def walkFrom (memory : Memory) : (levels table address : ℕ)→Option ℕ
  | 0,page,address => some (page+address%4096)
  | level+1,table,address =>
    let entry := entryAt memory table (indexAt level address)
    if Present entry then
      if (level=1 ∨ level=2) ∧ Large entry then
        some (target entry/2^(12+9*level)*2^(12+9*level)+address%2^(12+9*level))
      else walkFrom memory level (target entry) address
    else none

/-- The entry of level `level` leads to a further table. -/
def Descends (level : ℕ) (entry : BitVec 64) : Prop :=
  Present entry ∧ ¬((level=1 ∨ level=2) ∧ Large entry)

instance (level : ℕ) (entry : BitVec 64) : Decidable (Descends level entry) :=
  inferInstanceAs (Decidable (_ ∧ _))

theorem indexAt_lt (level address : ℕ) : indexAt level address<512 := Nat.mod_lt _ (by decide)

/-- One level of a walk. -/
theorem walkFrom_descend {memory : Memory} {level table address : ℕ}
    (h : Descends level (entryAt memory table (indexAt level address))) :
    walkFrom memory (level+1) table address=
      walkFrom memory level (target (entryAt memory table (indexAt level address))) address := by
  rw [walkFrom]
  rw [if_pos h.1,if_neg h.2]

/-- A walk fails at an entry that is not present. -/
theorem walkFrom_absent {memory : Memory} {level table address : ℕ}
    (h : ¬Present (entryAt memory table (indexAt level address))) :
    walkFrom memory (level+1) table address=none := by
  rw [walkFrom]
  rw [if_neg h]

/-- A walk gives every byte of a page its place behind the first. -/
theorem walkFrom_page (memory : Memory) (levels table address : ℕ) :
    walkFrom memory levels table address=
      (walkFrom memory levels table (address/4096*4096)).map (·+address%4096) := by
  induction levels generalizing table with
  | zero => simp only [walkFrom,Nat.mul_mod_left,Nat.add_zero,Option.map_some]
  | succ level ih =>
    have hpow : 2^(12+9*level)=4096*2^(9*level) := by rw [pow_add]; norm_num
    have hdiv : address/4096*4096/2^(12+9*level)=address/2^(12+9*level) := by
      rw [hpow,←Nat.div_div_eq_div_mul,←Nat.div_div_eq_div_mul,Nat.mul_div_cancel _ (by decide)]
    have hi : indexAt level (address/4096*4096)=indexAt level address := by
      rw [indexAt,indexAt,hdiv]
    have hrest : address%2^(12+9*level)=address/4096*4096%2^(12+9*level)+address%4096 := by
      have h1 := Nat.div_add_mod address (2^(12+9*level))
      have h2 := Nat.div_add_mod (address/4096*4096) (2^(12+9*level))
      rw [hdiv] at h2
      have h3 := Nat.div_add_mod' address 4096
      omega
    simp only [walkFrom,hi]
    split
    · split
      · rw [hrest,Option.map_some,Nat.add_assoc]
      · exact ih _
    · rfl

/-- A set of tables by level that is closed under following entries. -/
def Closed (memory : Memory) (tables : ℕ→ℕ→Prop) : Prop :=
  ∀ level table index, tables (level+1) table → index<512 →
    Descends level (entryAt memory table index) →
    level=0 ∨ tables level (target (entryAt memory table index))

/-- Every present entry of the tables is the same in both memories. -/
def PresentKept (before after : Memory) (tables : ℕ→ℕ→Prop) : Prop :=
  ∀ level table index, tables level table → index<512 →
    Present (entryAt before table index) → entryAt after table index=entryAt before table index

/-- Kept entries compose. -/
theorem PresentKept.trans {first second third : Memory} {tables : ℕ→ℕ→Prop}
    (h : PresentKept first second tables) (k : PresentKept second third tables) :
    PresentKept first third tables := by
  intro level table index ht hi hp
  have he := h level table index ht hi hp
  have hp' : Present (entryAt second table index) := by
    rw [he]
    exact hp
  exact (k level table index ht hi hp').trans he

/-- A walk that succeeds survives every change that keeps present entries. -/
theorem walkFrom_kept {before after : Memory} {tables : ℕ→ℕ→Prop}
    (hclosed : Closed before tables) (hkept : PresentKept before after tables)
    {levels table address physical : ℕ} (ht : levels=0 ∨ tables levels table)
    (h : walkFrom before levels table address=some physical) :
    walkFrom after levels table address=some physical := by
  induction levels generalizing table with
  | zero => exact h
  | succ level ih =>
    have htable : tables (level+1) table := ht.resolve_left (Nat.succ_ne_zero _)
    have hi := indexAt_lt level address
    rw [walkFrom] at h ⊢
    by_cases hp : Present (entryAt before table (indexAt level address))
    · rw [hkept (level+1) table _ htable hi hp]
      rw [if_pos hp] at h ⊢
      by_cases hl : (level=1 ∨ level=2) ∧ Large (entryAt before table (indexAt level address))
      · rwa [if_pos hl] at h ⊢
      · rw [if_neg hl] at h ⊢
        exact ih (hclosed level table _ htable hi ⟨hp,hl⟩) h
    · rw [if_neg hp] at h
      cases h

/-- A walk depends on the entries of the tables only. -/
theorem walkFrom_same {before after : Memory} {tables : ℕ→ℕ→Prop}
    (hclosed : Closed before tables)
    (hsame : ∀ level table index, tables level table → index<512 →
      entryAt after table index=entryAt before table index)
    {levels table address : ℕ} (ht : levels=0 ∨ tables levels table) :
    walkFrom after levels table address=walkFrom before levels table address := by
  induction levels generalizing table with
  | zero => rfl
  | succ level ih =>
    have htable : tables (level+1) table := ht.resolve_left (Nat.succ_ne_zero _)
    have hi := indexAt_lt level address
    rw [walkFrom,walkFrom,hsame (level+1) table _ htable hi]
    by_cases hp : Present (entryAt before table (indexAt level address))
    · rw [if_pos hp,if_pos hp]
      by_cases hl : (level=1 ∨ level=2) ∧ Large (entryAt before table (indexAt level address))
      · rw [if_pos hl,if_pos hl]
      · rw [if_neg hl,if_neg hl]
        exact ih (hclosed level table _ htable hi ⟨hp,hl⟩)
    · rw [if_neg hp,if_neg hp]

/-- Tables by level: aligned, of one level each, and closed under following
entries. -/
structure TableSystem (memory : Memory) (tables : ℕ→ℕ→Prop) : Prop where
  /-- Tables are aligned. -/
  aligned : ∀ {level table : ℕ}, tables level table → table%tableSize=0
  /-- No table is used at two levels. -/
  unique : ∀ {level other table : ℕ}, tables level table → tables other table → level=other
  /-- Entries lead to tables of the level below. -/
  closed : Closed memory tables

/-- One more table at a level. -/
def withTable (tables : ℕ→ℕ→Prop) (level table : ℕ) : ℕ→ℕ→Prop :=
  fun l t => tables l t ∨ (l=level ∧ t=table)

namespace TableSystem

variable {memory : Memory} {tables : ℕ→ℕ→Prop} {level table index : ℕ} {entry : BitVec 64}

/-- The system depends on the entries of its tables only. -/
theorem congr {after : Memory} (h : TableSystem memory tables)
    (he : ∀ level table index, tables level table → index<512 →
      entryAt after table index=entryAt memory table index) : TableSystem after tables := by
  refine ⟨h.aligned,h.unique,?_⟩
  intro level table index ht hi hd
  rw [he _ table index ht hi] at hd ⊢
  exact h.closed level table index ht hi hd

/-- An entry of a table may be stored when it leads to a table again. -/
theorem store (h : TableSystem memory tables) (ht : tables (level+1) table) (hi : index<512)
    (he : Descends level entry → level=0 ∨ tables level (target entry)) :
    TableSystem (setEntry memory table index entry) tables := by
  refine ⟨h.aligned,h.unique,?_⟩
  intro l other second ho hs hd
  by_cases hsame : other=table ∧ second=index
  · obtain ⟨rfl,rfl⟩ := hsame
    have hl : l=level := Nat.succ_injective (h.unique ho ht)
    subst hl
    rw [entryAt_setEntry_self] at hd ⊢
    exact he hd
  · have hne : other≠table ∨ second≠index := not_and_or.mp hsame
    rw [entryAt_setEntry_other memory entry hi hs (h.aligned ht) (h.aligned ho) hne] at hd ⊢
    exact h.closed l other second ho hs hd

/-- An empty page can become a table of any level. -/
theorem withTable (h : TableSystem memory tables) (ha : table%tableSize=0)
    (hfresh : ∀ l, ¬tables l table)
    (hempty : ∀ i, i<512 → ¬Present (entryAt memory table i)) :
    TableSystem memory (withTable tables level table) := by
  refine ⟨?_,?_,?_⟩
  · rintro l t (ht|⟨-,rfl⟩)
    · exact h.aligned ht
    · exact ha
  · rintro l l' t (ht|⟨rfl,rfl⟩) (ht'|⟨rfl,ht'⟩)
    · exact h.unique ht ht'
    · exact absurd (ht' ▸ ht) (hfresh l)
    · exact absurd ht' (hfresh l')
    · rfl
  · rintro l t i (ht|⟨-,rfl⟩) hi hd
    · rcases h.closed l t i ht hi hd with hzero|htarget
      · exact Or.inl hzero
      · exact Or.inr (Or.inl htarget)
    · exact absurd hd.1 (hempty i hi)

/-- Storing over an entry that is not present keeps the present ones. -/
theorem presentKept_store (h : TableSystem memory tables) (ht : tables level table)
    (hi : index<512) (habsent : ¬Present (entryAt memory table index)) :
    PresentKept memory (setEntry memory table index entry) tables := by
  intro l other second ho hs hp
  refine entryAt_setEntry_other memory entry hi hs (h.aligned ht) (h.aligned ho) ?_
  by_contra hsame
  rw [not_or,not_not,not_not] at hsame
  rw [hsame.1,hsame.2] at hp
  exact habsent hp

end TableSystem

/-- A page directory of a table system: no large pages, and no page table
under two of its entries. -/
structure Directory (memory : Memory) (tables : ℕ→ℕ→Prop) (directory : ℕ) : Prop where
  /-- It is a table of the third level. -/
  member : tables 2 directory
  /-- No entry maps a large page. -/
  small : ∀ i, i<512 → ¬Large (entryAt memory directory i)
  /-- Different entries lead to different page tables. -/
  distinct : ∀ i j, i<512 → j<512 → Present (entryAt memory directory i) →
    Present (entryAt memory directory j) →
    target (entryAt memory directory i)=target (entryAt memory directory j) → i=j

namespace Directory

variable {memory : Memory} {tables : ℕ→ℕ→Prop} {directory : ℕ}

/-- A directory entry that is present leads to a page table. -/
theorem table_of_present (h : Directory memory tables directory) (hs : TableSystem memory tables)
    {i : ℕ} (hi : i<512) (hp : Present (entryAt memory directory i)) :
    tables 1 (target (entryAt memory directory i)) := by
  have hd : Descends 1 (entryAt memory directory i) := ⟨hp,fun hl => h.small i hi hl.2⟩
  exact (hs.closed 1 directory i h.member hi hd).resolve_left (by decide)

/-- The walk from a directory in terms of its two entries. -/
theorem walk_eq (h : Directory memory tables directory) (address : ℕ) :
    walkFrom memory 2 directory address=
      if Present (entryAt memory directory (indexAt 1 address)) then
        if Present (entryAt memory (target (entryAt memory directory (indexAt 1 address)))
            (indexAt 0 address)) then
          some (target (entryAt memory (target (entryAt memory directory (indexAt 1 address)))
            (indexAt 0 address))+address%4096)
        else none
      else none := by
  have hsmall := h.small _ (indexAt_lt 1 address)
  simp only [walkFrom,hsmall,and_false,if_false,zero_ne_one,OfNat.zero_ne_ofNat,or_self,
    false_and]

/-- The directory depends on its own entries only. -/
theorem congr {after : Memory} (h : Directory memory tables directory)
    (he : ∀ i, i<512 → entryAt after directory i=entryAt memory directory i) :
    Directory after tables directory := by
  refine ⟨h.member,?_,?_⟩
  · intro i hi
    rw [he i hi]
    exact h.small i hi
  · intro i j hi hj
    rw [he i hi,he j hj]
    exact h.distinct i j hi hj

end Directory

section Mapping

variable {memory : Memory} {tables : ℕ→ℕ→Prop} {directory index table : ℕ} {entry : BitVec 64}

/-- With an entry installed that leads to a new table, it is a directory again. -/
theorem Directory.install (hs : TableSystem memory tables) (h : Directory memory tables directory)
    (hi : index<512) (hfresh : ∀ l, ¬tables l table) (hl : ¬Large entry) (ht : target entry=table) :
    Directory (setEntry memory directory index entry) (withTable tables 1 table) directory := by
  have hdirectory := hs.aligned h.member
  have hother : ∀ i, i<512 → i≠index →
      entryAt (setEntry memory directory index entry) directory i=entryAt memory directory i :=
    fun i hi' hne => entryAt_setEntry_other memory entry hi hi' hdirectory hdirectory (Or.inr hne)
  -- the new table is fresh, so no other entry leads to it
  have hnew : ∀ i, i<512 → Present (entryAt memory directory i) →
      target (entryAt memory directory i)≠table := by
    intro i hi' hpi heq
    exact hfresh 1 (heq ▸ h.table_of_present hs hi' hpi)
  refine ⟨Or.inl h.member,?_,?_⟩
  · intro i hi'
    by_cases heq : i=index
    · rwa [heq,entryAt_setEntry_self]
    · rw [hother i hi' heq]
      exact h.small i hi'
  · intro i j hi' hj' hpi hpj heq
    by_cases hii : i=index
    · by_cases hjj : j=index
      · rw [hii,hjj]
      · rw [hother j hj' hjj] at hpj heq
        rw [hii,entryAt_setEntry_self,ht] at heq
        exact absurd heq.symm (hnew j hj' hpj)
    · rw [hother i hi' hii] at hpi heq
      by_cases hjj : j=index
      · rw [hjj,entryAt_setEntry_self,ht] at heq
        exact absurd heq (hnew i hi' hpi)
      · rw [hother j hj' hjj] at hpj heq
        exact h.distinct i j hi' hj' hpi hpj heq

/-- An entry leads to an empty page table after it is installed, and every
translation is as before. -/
theorem directory_install (hs : TableSystem memory tables) (h : Directory memory tables directory)
    (hi : index<512) (ha : table%tableSize=0) (hfresh : ∀ l, ¬tables l table)
    (hempty : ∀ i, i<512 → ¬Present (entryAt memory table i))
    (habsent : ¬Present (entryAt memory directory index))
    (hp : Present entry) (hl : ¬Large entry) (ht : target entry=table) :
    TableSystem (setEntry memory directory index entry) (withTable tables 1 table) ∧
      Directory (setEntry memory directory index entry) (withTable tables 1 table) directory ∧
      ∀ address, walkFrom (setEntry memory directory index entry) 2 directory address=
        walkFrom memory 2 directory address := by
  have hdirectory := hs.aligned h.member
  have hsystem : TableSystem memory (withTable tables 1 table) := hs.withTable ha hfresh hempty
  have hne : table≠directory := fun heq => hfresh 2 (heq ▸ h.member)
  have hdir := Directory.install hs h hi hfresh hl ht
  refine ⟨?_,hdir,?_⟩
  · refine hsystem.store (Or.inl h.member) hi (fun _ => Or.inr (Or.inr ⟨rfl,ht⟩))
  · intro address
    rw [hdir.walk_eq,h.walk_eq]
    have hlow := indexAt_lt 0 address
    by_cases heq : indexAt 1 address=index
    · rw [heq,entryAt_setEntry_self,if_pos hp,if_neg habsent,ht,
        entryAt_setEntry_other memory entry hi hlow hdirectory ha (Or.inl hne),
        if_neg (hempty _ hlow)]
    · rw [entryAt_setEntry_other memory entry hi (indexAt_lt 1 address) hdirectory hdirectory
        (Or.inr heq)]
      by_cases hpde : Present (entryAt memory directory (indexAt 1 address))
      · have htable := h.table_of_present hs (indexAt_lt 1 address) hpde
        have hneq : target (entryAt memory directory (indexAt 1 address))≠directory := by
          intro heq'
          rw [heq'] at htable
          cases hs.unique htable h.member
        rw [entryAt_setEntry_other memory entry hi hlow hdirectory (hs.aligned htable)
          (Or.inl hneq)]
      · rw [if_neg hpde,if_neg hpde]

/-- Storing a page-table entry that is present maps its page and leaves every
other translation as it was. -/
theorem directory_map (hs : TableSystem memory tables) (h : Directory memory tables directory)
    {page : ℕ} (hpde : Present (entryAt memory directory (indexAt 1 page))) (hp : Present entry) :
    let after := setEntry memory (target (entryAt memory directory (indexAt 1 page)))
      (indexAt 0 page) entry
    TableSystem after tables ∧ Directory after tables directory ∧
      ∀ address, walkFrom after 2 directory address=
        if indexAt 1 address=indexAt 1 page ∧ indexAt 0 address=indexAt 0 page then
          some (target entry+address%4096) else walkFrom memory 2 directory address := by
  intro after
  have hhigh := indexAt_lt 1 page
  have hlow := indexAt_lt 0 page
  have htable := h.table_of_present hs hhigh hpde
  have halign := hs.aligned htable
  have hne : directory≠target (entryAt memory directory (indexAt 1 page)) := by
    intro heq
    rw [← heq] at htable
    cases hs.unique htable h.member
  have hkeep : ∀ i, i<512 → entryAt after directory i=entryAt memory directory i :=
    fun i hi => entryAt_setEntry_other memory entry hlow hi halign (hs.aligned h.member)
      (Or.inl hne)
  have hdir := h.congr hkeep
  refine ⟨hs.store htable hlow (fun _ => Or.inl rfl),hdir,?_⟩
  intro address
  rw [hdir.walk_eq,h.walk_eq,hkeep _ (indexAt_lt 1 address)]
  by_cases hsame : indexAt 1 address=indexAt 1 page ∧ indexAt 0 address=indexAt 0 page
  · rw [if_pos hsame,hsame.1,hsame.2,if_pos hpde,entryAt_setEntry_self,if_pos hp]
  · rw [if_neg hsame]
    by_cases hpresent : Present (entryAt memory directory (indexAt 1 address))
    · have hother := h.table_of_present hs (indexAt_lt 1 address) hpresent
      have hapart : target (entryAt memory directory (indexAt 1 address))≠
          target (entryAt memory directory (indexAt 1 page)) ∨
            indexAt 0 address≠indexAt 0 page := by
        by_contra hno
        rw [not_or,not_not,not_not] at hno
        exact hsame ⟨h.distinct _ _ (indexAt_lt 1 address) hhigh hpresent hpde hno.1,hno.2⟩
      rw [entryAt_setEntry_other memory entry hlow (indexAt_lt 0 address) halign
        (hs.aligned hother) hapart]
    · rw [if_neg hpresent,if_neg hpresent]

/-- Filling a page that is no table changes no entry of a table. -/
theorem entryAt_fill_other (memory : Memory) {frame : ℕ} (value : UInt8) (hi : index<512)
    (hf : frame%tableSize=0) (ht : table%tableSize=0) (hne : table≠frame) :
    entryAt (fill memory frame tableSize value) table index=entryAt memory table index := by
  refine entryAt_congr hi (fill_unchanged memory value ?_)
  unfold Apart
  unfold tableSize at hf ht ⊢
  omega

/-- A page of zero bytes has no entry that is present. -/
theorem entryAt_fill_self (memory : Memory) {frame : ℕ} (hi : index<512) :
    entryAt (fill memory frame tableSize 0) frame index=0#64 :=
  entryAt_zero hi (fun _ hx hy => fill_inside memory 0 hx hy)

/-- The zero entry is not present. -/
theorem not_present_zero : ¬Present 0#64 := by decide

end Mapping

end WorkbenchOS.PageTables
