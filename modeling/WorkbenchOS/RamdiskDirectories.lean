import WorkbenchOS.RamdiskFS

/-!
# The two directory readers of the ramdisk

`read_directory` and `find_file_in_directory` follow the same entries. Both
take the name of an entry from a fresh buffer, also when the device did not
fill it; such a name is whatever the heap holds at that time. Here the heap has
room for every name. The readers agree on a name exactly when no entry of an
unknown name can come before the first entry that surely has it, unless both
lead to the same inode.
-/

namespace WorkbenchOS.RamdiskDirectories

open ByteMemory LibStd RamdiskFS

/-- What the buffers that `new` returns hold, one after the other. -/
abbrev Heap := ℕ→Memory

/-- The heap after one buffer. -/
def Heap.next (heap : Heap) : Heap := fun k => heap (k+1)

/-- `Entry`. -/
structure Entry where
  /-- `name`. -/
  name : List UInt8
  /-- `type`. -/
  type : ℕ
  /-- `data_inode`. -/
  dataInode : ℕ

section Code

variable (fs : Filesystem)

/-- `Filesystem::read_filename_inode` with a fresh buffer. -/
def readFilenameInode (fresh : Memory) (reader : BlockDeviceReader) (index : ℕ) :
    Result (List UInt8×BlockDeviceReader) := do
  let (inode,reader) ← readInode fs reader index
  match (reader.seek (dataOffset fs inode)).readBuffer inode.size with
  | .ok (filename,reader) => pure ((List.range inode.size).map filename,reader)
  | .error _ => pure ((List.range inode.size).map fresh,reader.seek (dataOffset fs inode))

/-- The loop of `find_file_in_directory`, from entry `i` on. -/
def findLoop (directory : Inode) (filename : List UInt8) :
    (remaining i : ℕ)→Heap→BlockDeviceReader→Result ℕ
  | 0,_,_,_ => throw (.withMessage "File not found")
  | remaining+1,i,heap,reader => do
    let (bytes,reader) := (reader.seek (u64 (dataOffset fs directory+sizeofDirectory+
      sizeofDirectoryEntry*intToSize i))).read sizeofDirectoryEntry
    let directoryEntry := directoryEntryAt bytes
    let (entryName,reader) ← readFilenameInode fs (heap 0) reader directoryEntry.filenameInode
    if entryName=filename then pure directoryEntry.dataInode
    else findLoop directory filename remaining (i+1) heap.next reader

/-- `Filesystem::find_file_in_directory`. -/
def findFileInDirectory (heap : Heap) (directoryInodeIndex : ℕ) (filename : List UInt8) :
    Result ℕ := do
  let (directoryInode,reader) ← readInode fs ⟨fs.device,0⟩ directoryInodeIndex
  let (header,reader) := (reader.seek (dataOffset fs directoryInode)).read sizeofDirectory
  findLoop fs directoryInode filename (readLE header 0 4) 0 heap reader

/-- `Filesystem::get_directory_entry_offset`. -/
def getDirectoryEntryOffset (base index : ℕ) : ℕ := u64 (base+sizeofDirectoryEntry*index)

/-- The loop of `read_directory`, from entry `i` on. -/
def readLoop (directory : Inode) :
    (remaining i : ℕ)→Heap→BlockDeviceReader→List Entry→Result (List Entry×BlockDeviceReader)
  | 0,_,_,reader,result => pure (result,reader)
  | remaining+1,i,heap,reader,result => do
    let (bytes,reader) := (reader.seek (getDirectoryEntryOffset
      (dataOffset fs directory+sizeofDirectory) (intToSize i))).read sizeofDirectoryEntry
    let directoryEntry := directoryEntryAt bytes
    let (entryName,reader) ← readFilenameInode fs (heap 0) reader directoryEntry.filenameInode
    readLoop directory remaining (i+1) heap.next reader
      (result++[⟨entryName,directoryEntry.type,directoryEntry.dataInode⟩])

/-- `Filesystem::read_directory`. -/
def readDirectory (heap : Heap) (reader : BlockDeviceReader) (directoryInodeNumber : ℕ) :
    Result (List Entry×BlockDeviceReader) := do
  let (directoryInode,reader) ← readInode fs reader directoryInodeNumber
  let (header,reader) := (reader.seek (dataOffset fs directoryInode)).read sizeofDirectory
  readLoop fs directoryInode (readLE header 0 4) 0 heap reader []

end Code

/-- The lookup of a name agrees with a listing of the directory. -/
structure Agrees (listing : Result (List Entry×BlockDeviceReader)) (found : Result ℕ)
    (name : List UInt8) : Prop where
  /-- It returns the inode of the first entry of that name. -/
  inode : ∀ entries reader entry,listing.run=some (.ok (entries,reader)) →
    entries.find? (fun entry => entry.name=name)=some entry →
      found.run=some (.ok entry.dataInode)
  /-- It fails exactly when there is none. -/
  error_iff : ∀ entries reader,listing.run=some (.ok (entries,reader)) →
    ((∃ error,found.run=some (.error error)) ↔ ∀ entry∈entries,entry.name≠name)

section Determined

variable {fs : Filesystem}

/-- A step with the outcomes of another one as far as they are shared, and
perhaps more. -/
theorem run_bind_of_run {β β' γ γ' : Type} {first : Result β} {first' : Result β'}
    {next : β→Result γ} {next' : β'→Result γ'} {shared : β→β'} {value : γ→γ'}
    {result : Except Error γ}
    (hfirst : ∀ r,first.run=some r → first'.run=some (r.map shared))
    (hnext : ∀ b r,(next b).run=some r → (next' (shared b)).run=some (r.map value))
    (h : (first>>=next).run=some result) : (first'>>=next').run=some (result.map value) := by
  rw [ExceptT.run_bind] at h ⊢
  rcases hrun : first.run with _|error|b
  · rw [hrun] at h
    cases h
  · rw [hrun] at h
    rw [hfirst _ hrun]
    cases h
    rfl
  · rw [hrun] at h
    rw [hfirst _ hrun]
    exact hnext b result h

/-- Nothing is changed by sharing everything. -/
theorem map_id_of_run {β : Type} (first : Result β) (r) (h : first.run=some r) :
    first.run=some (r.map id) := by
  rw [h,Except.map_id]
  rfl

/-- A name the device delivers is the same with every buffer. -/
theorem readFilenameInode_of_run (fresh : Memory) (asked : ℕ) (reader : BlockDeviceReader)
    (index : ℕ) (r) (h : (RamdiskFS.readFilenameInode fs ample asked reader index).run=some r) :
    (readFilenameInode fs fresh reader index).run=some (r.map (fun read => (read.1,read.2.2))) := by
  refine run_bind_of_run (map_id_of_run _) (fun found result h => ?_) h
  obtain ⟨inode,after⟩ := found
  dsimp only [id] at h ⊢
  by_cases hsize : inode.size=0
  · rw [if_pos hsize] at h
    rw [hsize]
    cases h
    -- the reader moves on by no byte
    have hoffset : u64 (dataOffset fs inode+0)=dataOffset fs inode := by
      unfold dataOffset u64
      omega
    rw [BlockDeviceReader.readBuffer]
    dsimp only [BlockDeviceReader.seek]
    cases after.device (dataOffset fs inode) 0 with
    | ok bytes =>
      dsimp only [Except.map]
      rw [hoffset]
      rfl
    | error error => rfl
  · have hwhole : ¬ample asked≠.whole := fun hne => hne rfl
    rw [if_neg hsize,if_neg hwhole] at h
    cases hread : (after.seek (dataOffset fs inode)).readBuffer inode.size with
    | ok read =>
      rw [hread] at h
      cases h
      rfl
    | error error =>
      rw [hread] at h
      cases h

/-- So is the outcome of a loop that needs no other name. -/
theorem findLoop_of_run {directory : Inode} {name : List UInt8} {remaining i asked : ℕ}
    {reader : BlockDeviceReader} (heap : Heap) (r)
    (h : (findEntryLoop fs ample directory name remaining i asked reader).run=some r) :
    (findLoop fs directory name remaining i heap reader).run=some (r.map Prod.fst) := by
  induction remaining generalizing i asked reader heap r with
  | zero =>
    cases h
    rfl
  | succ remaining ih =>
    rw [findEntryLoop] at h
    rw [findLoop]
    refine run_bind_of_run (readFilenameInode_of_run (heap 0) asked _ _) (fun found result h => ?_) h
    obtain ⟨entryName,later,after⟩ := found
    dsimp only at h ⊢
    split_ifs at h ⊢
    · cases h
      rfl
    · exact ih heap.next result h

/-- Where a lookup with room for every name depends on no fresh buffer, every
heap gives its outcome. -/
theorem findFileInDirectory_of_run (heap : Heap) {asked d : ℕ} {name : List UInt8} (r)
    (h : (RamdiskFS.findFileInDirectory fs ample asked d name).run=some r) :
    (findFileInDirectory fs heap d name).run=some (r.map Prod.fst) := by
  exact run_bind_of_run (map_id_of_run _) (fun _ r h => findLoop_of_run heap r h) h

end Determined

section Slots

/-- The name of an entry as far as the device tells it. -/
inductive EntryName where
  /-- The device delivers it. -/
  | known (name : List UInt8)
  /-- It refuses, and the length is left. -/
  | unknown (length : ℕ)

/-- An entry as far as the device tells it. -/
structure Slot where
  /-- The name. -/
  name : EntryName
  /-- `type`. -/
  type : ℕ
  /-- `data_inode`. -/
  dataInode : ℕ

/-- The name a fresh buffer gives the entry. -/
def EntryName.from_ (fresh : Memory) : EntryName→List UInt8
  | .known name => name
  | .unknown length => (List.range length).map fresh

/-- The entries with the names of a heap. -/
def entriesOf : Heap→List Slot→List Entry
  | _,[] => []
  | heap,slot::rest => ⟨slot.name.from_ (heap 0),slot.type,slot.dataInode⟩::entriesOf heap.next rest

/-- Every buffer gives the entry that name. -/
def Certain (name : List UInt8) (slot : Slot) : Bool :=
  match slot.name with
  | .known own => own=name
  | .unknown length => length=0 ∧ name=[]

/-- Some buffer does. -/
def Possible (name : List UInt8) (slot : Slot) : Prop :=
  match slot.name with
  | .known own => own=name
  | .unknown length => length=name.length

/-- The inode of the first entry that surely has the name. -/
def certainInode (name : List UInt8) (slots : List Slot) : Option ℕ :=
  (slots.find? (Certain name)).map Slot.dataInode

/-- Every entry before that one that may have the name has the same inode. -/
def Settled (name : List UInt8) (slots : List Slot) : Prop :=
  ∀ slot∈slots.takeWhile (fun slot => !Certain name slot),Possible name slot →
    certainInode name slots=some slot.dataInode

/-- The inode that a heap gives the name. -/
def inodeIn (name : List UInt8) (heap : Heap) (slots : List Slot) : Option ℕ :=
  ((entriesOf heap slots).find? (fun entry => entry.name=name)).map Entry.dataInode

variable {name : List UInt8} {slot : Slot} {slots : List Slot}

/-- The first entry decides, or the rest. -/
theorem inodeIn_cons (heap : Heap) : inodeIn name heap (slot::slots)=
    if slot.name.from_ (heap 0)=name then some slot.dataInode
    else inodeIn name heap.next slots := by
  rw [inodeIn,entriesOf,List.find?_cons]
  by_cases h : slot.name.from_ (heap 0)=name
  · simp [h]
  · simp [h,inodeIn]

/-- A certain entry decides. -/
theorem certainInode_cons_certain (slots : List Slot) (h : Certain name slot=true) :
    certainInode name (slot::slots)=some slot.dataInode := by
  rw [certainInode,List.find?_cons,h]
  rfl

/-- Any other one is passed. -/
theorem certainInode_cons_other (slots : List Slot) (h : Certain name slot=false) :
    certainInode name (slot::slots)=certainInode name slots := by
  rw [certainInode,List.find?_cons,h]
  rfl

/-- A name that surely is there is in every buffer. -/
theorem from_of_certain (h : Certain name slot=true) (fresh : Memory) :
    slot.name.from_ fresh=name := by
  obtain ⟨entryName,type,dataInode⟩ := slot
  cases entryName with
  | known own => simpa [Certain,EntryName.from_] using h
  | unknown length =>
    obtain ⟨rfl,rfl⟩ : length=0 ∧ name=[] := by simpa [Certain] using h
    rfl

/-- One that cannot be there is in none. -/
theorem possible_of_from {fresh : Memory} (h : slot.name.from_ fresh=name) :
    Possible name slot := by
  obtain ⟨entryName,type,dataInode⟩ := slot
  cases entryName with
  | known own => exact h
  | unknown length =>
    have hlength : length=name.length := by
      rw [← h,EntryName.from_,List.length_map,List.length_range]
    exact hlength

/-- A buffer with that name. -/
def bufferOf (name : List UInt8) : Memory := fun k => name.getD k 0

/-- A heap with one more buffer in front. -/
def Heap.push (buffer : Memory) (heap : Heap) : Heap
  | 0 => buffer
  | k+1 => heap k

/-- A buffer whose first byte is not that of the name. -/
def bufferBeside (name : List UInt8) : Memory := fun _ => name.getD 0 0+1

/-- The first one gives a possible name. -/
theorem from_bufferOf (h : Possible name slot) : slot.name.from_ (bufferOf name)=name := by
  obtain ⟨entryName,type,dataInode⟩ := slot
  cases entryName with
  | known own => exact h
  | unknown length =>
    have hlength : length=name.length := h
    subst hlength
    refine List.ext_getElem (by simp [EntryName.from_]) ?_
    intro k hk hk'
    simp [EntryName.from_,bufferOf,hk']

/-- The second one avoids a name that is not certain. -/
theorem from_bufferBeside (h : Certain name slot=false) :
    slot.name.from_ (bufferBeside name)≠name := by
  obtain ⟨entryName,type,dataInode⟩ := slot
  cases entryName with
  | known own => simpa [Certain,EntryName.from_] using h
  | unknown length =>
    intro hname
    rcases length with _|length
    · have hempty : name=[] := hname.symm
      simp [Certain,hempty] at h
    · have hfirst : (List.range (length+1)).map (bufferBeside name)=name := hname
      have hhead := congrArg (fun bytes => bytes.getD 0 0) hfirst
      simp [bufferBeside] at hhead

/-- With every buffer beside the name, the first certain entry is found. -/
theorem inodeIn_beside (slots : List Slot) :
    inodeIn name (fun _ => bufferBeside name) slots=certainInode name slots := by
  induction slots with
  | nil => rfl
  | cons slot rest ih =>
    rw [inodeIn_cons]
    cases h : Certain name slot with
    | true => rw [if_pos (from_of_certain h _),certainInode_cons_certain rest h]
    | false =>
      rw [if_neg (from_bufferBeside h),certainInode_cons_other rest h]
      exact ih

/-- The head of a settled list is certain, cannot have the name, or has the
inode of the certain entry. -/
theorem settled_cons (h : Certain name slot=false) :
    Settled name (slot::slots) ↔
      (Possible name slot → certainInode name slots=some slot.dataInode) ∧
        Settled name slots := by
  unfold Settled
  rw [List.takeWhile_cons,certainInode_cons_other slots h,h]
  exact List.forall_mem_cons

/-- In a settled list the heap makes no difference. -/
theorem Settled.inodeIn_eq (h : Settled name slots) (heap : Heap) :
    inodeIn name heap slots=certainInode name slots := by
  induction slots generalizing heap with
  | nil => rfl
  | cons slot rest ih =>
    rw [inodeIn_cons]
    cases hcertain : Certain name slot with
    | true => rw [if_pos (from_of_certain hcertain _),certainInode_cons_certain rest hcertain]
    | false =>
      obtain ⟨hhead,hrest⟩ := (settled_cons hcertain).mp h
      rw [certainInode_cons_other rest hcertain]
      split_ifs with hname
      · exact (hhead (possible_of_from hname)).symm
      · exact ih hrest heap.next

/-- An entry before the certain one that may have the name has it in some heap,
as the first one. -/
theorem exists_inodeIn (hmem : slot∈slots.takeWhile (fun slot => !Certain name slot))
    (h : Possible name slot) : ∃ heap,inodeIn name heap slots=some slot.dataInode := by
  induction slots with
  | nil => cases hmem
  | cons first rest ih =>
    cases hcertain : Certain name first with
    | true =>
      rw [List.takeWhile_cons,hcertain] at hmem
      cases hmem
    | false =>
      rw [List.takeWhile_cons,hcertain] at hmem
      rcases List.mem_cons.mp hmem with rfl|hrest
      · refine ⟨fun _ => bufferOf name,?_⟩
        rw [inodeIn_cons,if_pos (from_bufferOf h)]
      · obtain ⟨heap,hheap⟩ := ih hrest
        -- the buffer of the first entry is beside the name, the others are as before
        refine ⟨Heap.push (bufferBeside name) heap,?_⟩
        rw [inodeIn_cons]
        exact (if_neg (from_bufferBeside hcertain)).trans hheap

/-- The heap makes no difference only in a settled list. -/
theorem settled_iff_forall (name : List UInt8) (slots : List Slot) :
    Settled name slots ↔
      ∀ first second,inodeIn name second slots=inodeIn name first slots := by
  constructor
  · intro h first second
    rw [h.inodeIn_eq,h.inodeIn_eq]
  · intro h slot hmem hpossible
    obtain ⟨heap,hheap⟩ := exists_inodeIn hmem hpossible
    rw [← hheap,← inodeIn_beside]
    exact h heap _

end Slots

section Entries

variable (fs : Filesystem)

/-- The name in an inode. -/
def nameOf (inode : Inode) : EntryName :=
  match fs.device (dataOffset fs inode) inode.size with
  | .ok bytes => .known ((List.range inode.size).map bytes)
  | .error _ => .unknown inode.size

/-- Entry `i` of a directory. -/
def slotOf (directory : Inode) (i : ℕ) : Slot :=
  let entry := directoryEntryOf fs directory i
  ⟨nameOf fs (inodeWith fs entry.filenameInode),entry.type,entry.dataInode⟩

/-- The entries from `i` on. -/
def slotsFrom (directory : Inode) (remaining i : ℕ) : List Slot :=
  (List.range' i remaining).map (slotOf fs directory)

/-- The names of the entries from `i` on are in inodes. -/
def Listable (directory : Inode) (remaining i : ℕ) : Prop :=
  ∀ k∈List.range' i remaining,
    (directoryEntryOf fs directory k).filenameInode≤fs.superblock.inodeTableSize

variable {fs}

/-- The name is that of the fresh buffer. -/
theorem readFilenameInode_run (fresh : Memory) {reader : BlockDeviceReader}
    (hreader : reader.device=fs.device) {index : ℕ} (h : index≤fs.superblock.inodeTableSize) :
    ∃ after : BlockDeviceReader,after.device=fs.device ∧
      (readFilenameInode fs fresh reader index).run=
        some (.ok ((nameOf fs (inodeWith fs index)).from_ fresh,after)) := by
  obtain ⟨after,hafter,hrun⟩ := readInode_run reader hreader h
  cases hread : fs.device (dataOffset fs (inodeWith fs index)) (inodeWith fs index).size with
  | ok bytes =>
    refine ⟨{after with offset := u64 (dataOffset fs (inodeWith fs index)+
      (inodeWith fs index).size)},hafter,?_⟩
    rw [readFilenameInode,run_bind_of_ok hrun]
    simp only [BlockDeviceReader.readBuffer,BlockDeviceReader.seek,hafter,hread,Except.map,nameOf]
    rfl
  | error error =>
    refine ⟨after.seek (dataOffset fs (inodeWith fs index)),hafter,?_⟩
    rw [readFilenameInode,run_bind_of_ok hrun]
    simp only [BlockDeviceReader.readBuffer,BlockDeviceReader.seek,hafter,hread,Except.map,nameOf]
    rfl

/-- A name in no inode is refused. -/
theorem readFilenameInode_error (fresh : Memory) (reader : BlockDeviceReader) {index : ℕ}
    (h : fs.superblock.inodeTableSize< index) :
    (readFilenameInode fs fresh reader index).run=some (.error (.fromCode 1)) := by
  refine run_bind_error.mpr (Or.inl ?_)
  rw [readInode,if_pos h]
  rfl

/-- `read<T>` of a reader at the device. -/
theorem read_at (device : BlockDevice) (offset position size : ℕ) :
    (BlockDeviceReader.seek ⟨device,offset⟩ position).read size=
      ((device position size).toOption.getD (fun _ => 0),⟨device,u64 (position+size)⟩) := rfl

/-- A listing goes on after an entry whose name is in an inode. -/
theorem readLoop_succ (directory : Inode) (remaining : ℕ) {i : ℕ} (heap : Heap)
    {reader : BlockDeviceReader} (hreader : reader.device=fs.device) (result : List Entry)
    (h : (directoryEntryOf fs directory i).filenameInode≤fs.superblock.inodeTableSize) :
    ∃ after : BlockDeviceReader,after.device=fs.device ∧
      (readLoop fs directory (remaining+1) i heap reader result).run=
        (readLoop fs directory remaining (i+1) heap.next after
          (result++entriesOf heap [slotOf fs directory i])).run := by
  obtain ⟨device,offset⟩ := reader
  obtain rfl : device=fs.device := hreader
  rw [readLoop,read_at]
  obtain ⟨after,hafter,hrun⟩ := @readFilenameInode_run fs (heap 0) ⟨fs.device,_⟩ rfl _ h
  exact ⟨after,hafter,run_bind_of_ok hrun⟩

/-- It fails at one whose name is in none. -/
theorem readLoop_error (directory : Inode) (remaining : ℕ) {i : ℕ} (heap : Heap)
    {reader : BlockDeviceReader} (hreader : reader.device=fs.device) (result : List Entry)
    (h : fs.superblock.inodeTableSize<(directoryEntryOf fs directory i).filenameInode) :
    (readLoop fs directory (remaining+1) i heap reader result).run=some (.error (.fromCode 1)) := by
  obtain ⟨device,offset⟩ := reader
  obtain rfl : device=fs.device := hreader
  rw [readLoop,read_at]
  exact run_bind_error.mpr (Or.inl (readFilenameInode_error (heap 0) _ h))

/-- With all names in inodes every entry is listed. -/
theorem readLoop_run {directory : Inode} {remaining i : ℕ} (h : Listable fs directory remaining i)
    (heap : Heap) {reader : BlockDeviceReader} (hreader : reader.device=fs.device)
    (result : List Entry) : ∃ after : BlockDeviceReader,
      (readLoop fs directory remaining i heap reader result).run=
        some (.ok (result++entriesOf heap (slotsFrom fs directory remaining i),after)) := by
  induction remaining generalizing i heap reader result with
  | zero =>
    refine ⟨reader,?_⟩
    rw [readLoop,slotsFrom,List.range'_zero,List.map_nil,entriesOf,List.append_nil]
    rfl
  | succ remaining ih =>
    rw [Listable,List.range'_succ] at h
    obtain ⟨hhead,hrest⟩ := List.forall_mem_cons.mp h
    obtain ⟨after,hafter,hstep⟩ := readLoop_succ directory remaining heap hreader result hhead
    obtain ⟨last,hlast⟩ := ih hrest heap.next hafter (result++entriesOf heap [slotOf fs directory i])
    refine ⟨last,?_⟩
    rw [hstep,hlast,slotsFrom,slotsFrom,List.range'_succ,List.map_cons,List.append_assoc]
    rfl

/-- Otherwise there is no listing. -/
theorem readLoop_not_ok {directory : Inode} {remaining i : ℕ}
    (h : ¬Listable fs directory remaining i) (heap : Heap) {reader : BlockDeviceReader}
    (hreader : reader.device=fs.device) (result : List Entry) (listing : List Entry×BlockDeviceReader) :
    (readLoop fs directory remaining i heap reader result).run≠some (.ok listing) := by
  induction remaining generalizing i heap reader result with
  | zero => exact absurd (fun k hk => by cases hk) h
  | succ remaining ih =>
    by_cases hhead : (directoryEntryOf fs directory i).filenameInode≤fs.superblock.inodeTableSize
    · have hrest : ¬Listable fs directory remaining (i+1) := by
        intro hrest
        refine h ?_
        rw [Listable,List.range'_succ]
        exact List.forall_mem_cons.mpr ⟨hhead,hrest⟩
      obtain ⟨after,hafter,hstep⟩ := readLoop_succ directory remaining heap hreader result hhead
      rw [hstep]
      exact ih hrest heap.next hafter _
    · rw [readLoop_error directory remaining heap hreader result (by omega)]
      exact fun hok => by cases hok

/-- What the lookup makes of the entries. -/
def outcome : Option ℕ→Except Error ℕ
  | some dataInode => .ok dataInode
  | none => .error (.withMessage "File not found")

/-- With all names in inodes the lookup finds the first entry of the name. -/
theorem findLoop_run {directory : Inode} {remaining i : ℕ} (h : Listable fs directory remaining i)
    (heap : Heap) {reader : BlockDeviceReader} (hreader : reader.device=fs.device)
    (name : List UInt8) : (findLoop fs directory name remaining i heap reader).run=
      some (outcome (inodeIn name heap (slotsFrom fs directory remaining i))) := by
  induction remaining generalizing i heap reader with
  | zero => rfl
  | succ remaining ih =>
    rw [Listable,List.range'_succ] at h
    obtain ⟨hhead,hrest⟩ := List.forall_mem_cons.mp h
    obtain ⟨device,offset⟩ := reader
    obtain rfl : device=fs.device := hreader
    obtain ⟨after,hafter,hrun⟩ := @readFilenameInode_run fs (heap 0) ⟨fs.device,_⟩ rfl _ hhead
    rw [slotsFrom,List.range'_succ,List.map_cons,inodeIn_cons,findLoop,read_at]
    refine (run_bind_of_ok hrun).trans ?_
    dsimp only
    split_ifs with hname hname' hname'
    · rfl
    · exact absurd hname hname'
    · exact absurd hname' hname
    · exact ih hrest heap.next hafter

end Entries

section Directories

variable {fs : Filesystem} {d : ℕ}

/-- `read_directory` succeeds: the inode of the directory and those of all names
in it are accepted. -/
structure Listed (fs : Filesystem) (d : ℕ) : Prop where
  /-- The inode of the directory. -/
  directory_le : d≤fs.superblock.inodeTableSize
  /-- The inodes of the names. -/
  names : Listable fs (inodeWith fs d) (entryCount fs (inodeWith fs d)) 0

/-- The entries of the directory. -/
def directorySlots (fs : Filesystem) (d : ℕ) : List Slot :=
  slotsFrom fs (inodeWith fs d) (entryCount fs (inodeWith fs d)) 0

/-- `read_directory` comes to its loop. -/
theorem readDirectory_eq (heap : Heap) {reader : BlockDeviceReader}
    (hreader : reader.device=fs.device) (h : d≤fs.superblock.inodeTableSize) :
    ∃ after : BlockDeviceReader,after.device=fs.device ∧
      (readDirectory fs heap reader d).run=
        (readLoop fs (inodeWith fs d) (entryCount fs (inodeWith fs d)) 0 heap after []).run := by
  obtain ⟨⟨device,offset⟩,hafter,hrun⟩ := readInode_run reader hreader h
  obtain rfl : device=fs.device := hafter
  exact ⟨_,rfl,run_bind_of_ok hrun⟩

/-- So does `find_file_in_directory`. -/
theorem findFileInDirectory_eq (heap : Heap) (name : List UInt8)
    (h : d≤fs.superblock.inodeTableSize) :
    ∃ after : BlockDeviceReader,after.device=fs.device ∧
      (findFileInDirectory fs heap d name).run=
        (findLoop fs (inodeWith fs d) name (entryCount fs (inodeWith fs d)) 0 heap after).run := by
  obtain ⟨⟨device,offset⟩,hafter,hrun⟩ := readInode_run ⟨fs.device,0⟩ rfl h
  obtain rfl : device=fs.device := hafter
  exact ⟨_,rfl,run_bind_of_ok hrun⟩

/-- `read_directory` returns the entries with the names of its heap. -/
theorem Listed.readDirectory_run (h : Listed fs d) (heap : Heap) {reader : BlockDeviceReader}
    (hreader : reader.device=fs.device) : ∃ after : BlockDeviceReader,
      (readDirectory fs heap reader d).run=
        some (.ok (entriesOf heap (directorySlots fs d),after)) := by
  obtain ⟨start,hstart,heq⟩ := readDirectory_eq heap hreader h.directory_le
  obtain ⟨after,hafter⟩ := readLoop_run h.names heap hstart []
  exact ⟨after,heq.trans hafter⟩

/-- It succeeds in no other directory. -/
theorem readDirectory_not_ok (h : ¬Listed fs d) (heap : Heap) {reader : BlockDeviceReader}
    (hreader : reader.device=fs.device) (listing : List Entry×BlockDeviceReader) :
    (readDirectory fs heap reader d).run≠some (.ok listing) := by
  by_cases hd : d≤fs.superblock.inodeTableSize
  · obtain ⟨start,hstart,heq⟩ := readDirectory_eq heap hreader hd
    rw [heq]
    exact readLoop_not_ok (fun hnames => h ⟨hd,hnames⟩) heap hstart [] listing
  · have herror : (readDirectory fs heap reader d).run=some (.error (.fromCode 1)) := by
      refine run_bind_error.mpr (Or.inl ?_)
      rw [readInode,if_pos (by omega)]
      rfl
    rw [herror]
    exact fun hok => by cases hok

/-- `find_file_in_directory` searches the entries with the names of its heap. -/
theorem Listed.findFileInDirectory_run (h : Listed fs d) (heap : Heap) (name : List UInt8) :
    (findFileInDirectory fs heap d name).run=
      some (outcome (inodeIn name heap (directorySlots fs d))) := by
  obtain ⟨start,hstart,heq⟩ := findFileInDirectory_eq heap name h.directory_le
  exact heq.trans (findLoop_run h.names heap hstart name)

/-- The two agree when the heaps lead to the same inode. -/
theorem agrees_iff_inodeIn {listing : Result (List Entry×BlockDeviceReader)} {found : Result ℕ}
    {name : List UInt8} {first second : Heap} {slots : List Slot} {after : BlockDeviceReader}
    (hlisting : listing.run=some (.ok (entriesOf first slots,after)))
    (hfound : found.run=some (outcome (inodeIn name second slots))) :
    Agrees listing found name ↔ inodeIn name second slots=inodeIn name first slots := by
  constructor
  · intro h
    cases hfirst : (entriesOf first slots).find? (fun entry => entry.name=name) with
    | some entry =>
      have hinode := h.inode _ after entry hlisting hfirst
      rw [hfound] at hinode
      have hsome : inodeIn name first slots=some entry.dataInode := by
        rw [inodeIn,hfirst]
        rfl
      cases hsecond : inodeIn name second slots with
      | none =>
        rw [hsecond] at hinode
        cases hinode
      | some dataInode =>
        rw [hsecond] at hinode
        cases hinode
        exact hsome.symm
    | none =>
      have habsent : ∀ entry∈entriesOf first slots,entry.name≠name := by
        simpa using List.find?_eq_none.mp hfirst
      obtain ⟨error,herror⟩ := (h.error_iff _ after hlisting).mpr habsent
      rw [hfound] at herror
      have hnone : inodeIn name first slots=none := by
        rw [inodeIn,hfirst]
        rfl
      cases hsecond : inodeIn name second slots with
      | none => exact hnone.symm
      | some dataInode =>
        rw [hsecond] at herror
        cases herror
  · intro h
    rw [h] at hfound
    refine ⟨?_,?_⟩
    · intro entries reader entry hentries hfirst
      rw [hlisting] at hentries
      cases hentries
      rw [hfound,inodeIn,hfirst]
      rfl
    · intro entries reader hentries
      rw [hlisting] at hentries
      cases hentries
      rw [hfound,inodeIn]
      cases hfirst : (entriesOf first slots).find? (fun entry => entry.name=name) with
      | some entry =>
        have hname : entry.name=name := by simpa using List.find?_some hfirst
        refine ⟨fun ⟨error,herror⟩ => (by cases herror),fun habsent => ?_⟩
        exact absurd hname (habsent entry (List.mem_of_find?_eq_some hfirst))
      | none =>
        exact ⟨fun _ => by simpa using List.find?_eq_none.mp hfirst,fun _ => ⟨_,rfl⟩⟩

end Directories

/-- Whatever the buffers of the two readers hold, `find_file_in_directory` agrees
with `read_directory` about a name exactly when the directory cannot be listed,
or no entry that may have the name comes before the first that surely has it
without leading to the same inode. -/
theorem agrees_iff (fs : Filesystem) (d : ℕ) (name : List UInt8) :
    (∀ reader : BlockDeviceReader,reader.device=fs.device → ∀ first second,
      Agrees (readDirectory fs first reader d) (findFileInDirectory fs second d name) name) ↔
    (Listed fs d → Settled name (directorySlots fs d)) := by
  constructor
  · intro hagrees hlisted
    refine (settled_iff_forall name _).mpr (fun first second => ?_)
    have hstart : (BlockDeviceReader.mk fs.device 0).device=fs.device := rfl
    obtain ⟨after,hafter⟩ := hlisted.readDirectory_run first hstart
    exact (agrees_iff_inodeIn hafter (hlisted.findFileInDirectory_run second name)).mp
      (hagrees ⟨fs.device,0⟩ rfl first second)
  · intro hsettled reader hreader first second
    by_cases hlisted : Listed fs d
    · obtain ⟨after,hafter⟩ := hlisted.readDirectory_run first hreader
      refine (agrees_iff_inodeIn hafter (hlisted.findFileInDirectory_run second name)).mpr ?_
      exact (settled_iff_forall name _).mp (hsettled hlisted) first second
    · have hfails := readDirectory_not_ok hlisted first hreader
      exact ⟨fun entries after entry hentries => absurd hentries (hfails (entries,after)),
        fun entries after hentries => absurd hentries (hfails (entries,after))⟩

section Sample

/-- The words of an image whose root directory has a file with an unreadable
name: superblock, three inodes and the directory. -/
def tornWords : List ℕ := [0x017dce23,1,20,3,44,0,16,1000,1,0,0,1,1,1,2]

/-- The device with these words. -/
def tornDevice : MemoryBlockDevice where
  image := fun i => UInt8.ofNat (tornWords.getD (i/4) 0/256^(i%4))
  size := 60

/-- The file system on it. -/
def tornFilesystem : Filesystem := ⟨tornDevice.read,⟨0x017dce23,1,20,3,44⟩⟩

/-- It is what `init` makes of the device. -/
theorem init_tornDevice : initFilesystem tornDevice.read=.ok tornFilesystem := by
  have hsuperblock : superblockAt (BlockDeviceReader.read ⟨tornDevice.read,0⟩
      sizeofSuperblock).1=⟨0x017dce23,1,20,3,44⟩ := by decide +kernel
  rw [initFilesystem,hsuperblock]
  rfl

end Sample

/-- With an `f` in the buffer of the listing and a zero in that of the lookup, an
`f` is listed and not found. -/
theorem not_always_agrees : initFilesystem tornDevice.read=.ok tornFilesystem ∧
    ¬Agrees (readDirectory tornFilesystem (fun _ _ => 102) ⟨tornDevice.read,0⟩ 0)
      (findFileInDirectory tornFilesystem (fun _ _ => 0) 0 [102]) [102] := by
  refine ⟨init_tornDevice,fun h => ?_⟩
  have hlisted : Listed tornFilesystem 0 := by
    refine ⟨by decide,?_⟩
    unfold Listable
    decide +kernel
  have hdevice : (BlockDeviceReader.mk tornDevice.read 0).device=tornFilesystem.device := rfl
  obtain ⟨after,hafter⟩ := hlisted.readDirectory_run (fun _ _ => 102) hdevice
  have hsame := (agrees_iff_inodeIn hafter (hlisted.findFileInDirectory_run _ [102])).mp h
  revert hsame
  decide +kernel

end WorkbenchOS.RamdiskDirectories
