import WorkbenchOS.FatFiles
import WorkbenchOS.KmallocHeap

/-!
# The loops of the FAT32 driver over any device

The search of `find_in_directory` and the copy of `read_file`, over reads that
may answer anything. The copy ends with the bytes it was asked for: every round
copies at least one byte, as the heap hands out no empty buffer, so a
malformed chain costs time but no byte behind the request. The search, over
reads that deliver the clusters of a chain, is the first match among the
directory's entries.
-/

namespace WorkbenchOS.FatLoops

open ByteMemory LibStd Fat32 FatFiles

section Loops

/-- Wrap a result to the 32 bits of `u32`. -/
def u32 (value : ℕ) : ℕ := value%2^32

/-- What the loops call, by the number of the round. -/
structure ClusterReads where
  /-- `read_cluster`, into a buffer. -/
  cluster : ℕ→ℕ→Memory→Except Error Memory
  /-- `read_fat`. -/
  fat : ℕ→ℕ→Except Error ℕ

/-- The reads of the driver. -/
def deviceReads (volume : Volume) : ClusterReads where
  cluster _ := readCluster volume
  fat _ := readFat volume

/-- The counters of one round of the copy, when it copies. -/
structure CopyStep where
  /-- `copied`, where the bytes go. -/
  copied : ℕ
  /-- `to_read`. -/
  toRead : ℕ
  /-- `n`, the bytes copied. -/
  n : ℕ

/-- What `read_file` leaves. -/
structure Copied where
  /-- Its result. -/
  answer : Except Error ℕ
  /-- The output buffer. -/
  out : Memory
  /-- `copied`. -/
  copied : ℕ
  /-- The rounds that copied. -/
  steps : List CopyStep

/-- The same, with a round before. -/
def Copied.behind (step : CopyStep) (run : Copied) : Copied :=
  {run with steps := step::run.steps}

/-- The `while` loop of `read_file`, with a cluster of `size` bytes. -/
def copyWith (reads : ClusterReads) (size : ℕ) : (fuel round toRead cl copied : ℕ)→
    (buffer out : Memory)→Option Copied
  | 0,_,_,_,_,_,_ => none
  | fuel+1,round,toRead,cl,copied,buffer,out =>
    if toRead=0 ∨ isEoc cl ∨ isFree cl then some ⟨.ok copied,out,copied,[]⟩
    else
      match reads.cluster round cl buffer with
      | .error error => some ⟨.error error,out,copied,[]⟩
      | .ok filled =>
        let n := if toRead<size then toRead else size
        let written := copy out copied filled 0 n
        let step : CopyStep := ⟨copied,toRead,n⟩
        match reads.fat round cl with
        | .error error => some ⟨.error error,written,u32 (copied+n),[step]⟩
        | .ok next =>
          (copyWith reads size fuel (round+1) (u32 (toRead+2^32-n)) next (u32 (copied+n)) filled
            written).map (Copied.behind step)

/-- `read_file`, once the path led to an entry, with the heap's answer to the
request for the buffer. -/
def readFound (reads : ClusterReads) (size : ℕ) (allocation : Except Error Memory)
    (entry : DirEntShort) (maxBytes : ℕ) (out : Memory) (fuel : ℕ) : Option Copied :=
  if entry.isDirectory then some ⟨.error (.fromCode (2^64-2)),out,0,[]⟩
  else if entry.fileSize=0 then some ⟨.ok 0,out,0,[]⟩
  else
    match allocation with
    | .error error => some ⟨.error error,out,0,[]⟩
    | .ok clusterBuffer =>
      copyWith reads size fuel 0 (if maxBytes<entry.fileSize then maxBytes else entry.fileSize)
        entry.firstCluster 0 clusterBuffer out

/-- The buffer at the address `KmallocHeap::allocate` returned. -/
def bufferAt (answer : Except Error ℕ×KmallocHeap.Heap) : Except Error Memory :=
  match answer.1 with
  | .error error => .error error
  | .ok address => .ok (fun k => answer.2.memory (address+k))

/-- The `while` loop of `find_in_directory`, with `out_ent`. -/
def findWith (reads : ClusterReads) (entries : ℕ) (want : List UInt8) : (fuel round cl : ℕ)→
    Memory→DirEntShort→Option (Except Error Unit×DirEntShort)
  | 0,_,_,_,_ => none
  | fuel+1,round,cl,buffer,outEnt =>
    if isEoc cl ∨ isFree cl then some (.error (.fromCode 1),outEnt)
    else
      match reads.cluster round cl buffer with
      | .error error => some (.error error,outEnt)
      | .ok filled =>
        match scanEntries filled want entries 0 with
        | .found entry => some (.ok (),entry)
        | .ended => some (.error (.fromCode 1),outEnt)
        | .more =>
          match reads.fat round cl with
          | .error error => some (.error error,outEnt)
          | .ok next => findWith reads entries want fuel (round+1) next filled outEnt

end Loops

section Copying

/-- A round that neither wraps a counter nor leaves the cluster buffer. -/
structure CopyStep.Fits (size : ℕ) (step : CopyStep) : Prop where
  /-- There is progress. -/
  pos : 0<step.n
  /-- `to_read` does not wrap. -/
  le_toRead : step.n≤ step.toRead
  /-- `copied` does not wrap. -/
  lt_word : step.copied+step.n<2^32
  /-- The bytes are in the cluster buffer. -/
  le_size : step.n≤ size

/-- The rounds write the range from `start` to `stop`, one part after the
other. -/
def Tiles : ℕ→List CopyStep→ℕ→Prop
  | start,[],stop => start=stop
  | start,step::rest,stop => step.copied=start ∧ Tiles (start+step.n) rest stop

/-- The copy from `start` on stays below `bound`. -/
structure Copied.Within (size start bound : ℕ) (out : Memory) (run : Copied) : Prop where
  /-- Every round fits. -/
  fits : ∀ step∈run.steps,step.Fits size
  /-- The bytes written are those up to `copied`. -/
  tiles : Tiles start run.steps run.copied
  /-- No other byte is written. -/
  outside : ∀ x, (x< start ∨ run.copied≤x) → run.out x=out x
  /-- No more are written than asked for. -/
  copied_le : run.copied≤bound
  /-- A success returns their number. -/
  answer_eq : ∀ n, run.answer=.ok n → n=run.copied

variable {reads : ClusterReads} {size : ℕ}

/-- A copy that stops at once. -/
theorem Copied.within_stop {start bound : ℕ} {out : Memory} {answer : Except Error ℕ}
    (hle : start≤bound) (ha : ∀ n, answer=.ok n → n=start) :
    Copied.Within size start bound out ⟨answer,out,start,[]⟩ where
  fits _ hm := absurd hm List.not_mem_nil
  tiles := rfl
  outside _ _ := rfl
  copied_le := hle
  answer_eq := ha

/-- Writing ends where it began or behind. -/
theorem Tiles.le {start stop : ℕ} {steps : List CopyStep} (h : Tiles start steps stop) :
    start≤ stop := by
  induction steps generalizing start with
  | nil => exact Nat.le_of_eq h
  | cons step rest ih => exact (Nat.le_add_right _ _).trans (ih h.2)

/-- A round before a copy that stays below the bound. -/
theorem Copied.Within.behind {start bound n : ℕ} {out written : Memory} {step : CopyStep}
    {run : Copied} (hstep : step.Fits size) (hstart : step.copied=start) (hn : step.n=n)
    (hw : ∀ x, (x< start ∨ start+n≤x) → written x=out x)
    (h : run.Within size (start+n) bound written) :
    (run.behind step).Within size start bound out where
  fits := List.forall_mem_cons.mpr ⟨hstep,h.fits⟩
  tiles := ⟨hstart,hn▸h.tiles⟩
  outside x hx := by
    have hle := h.tiles.le
    have hrun : (run.behind step).copied=run.copied := rfl
    rw [hrun] at hx
    exact (h.outside x (by omega)).trans (hw x (by omega))
  copied_le := h.copied_le
  answer_eq := h.answer_eq

/-- The smaller of two numbers, as the driver takes it. -/
theorem smaller_eq (first second : ℕ) :
    (if first<second then first else second)=min first second := by
  split <;> omega

/-- Neither counter wraps in a round. -/
theorem counters_eq {copied toRead n : ℕ} (hle : n≤toRead) (hword : copied+toRead<2^32) :
    u32 (copied+n)=copied+n ∧ u32 (toRead+2^32-n)=toRead-n := by
  unfold u32
  omega

/-- The copy loop ends, whatever the reads answer, and stays in the bytes asked
for. -/
theorem copyWith_within (hsize : 0< size) {fuel round toRead cl copied : ℕ} (buffer out : Memory)
    (hfuel : toRead<fuel) (hword : copied+toRead<2^32) :
    ∃ run,copyWith reads size fuel round toRead cl copied buffer out=some run ∧
      run.Within size copied (copied+toRead) out := by
  induction fuel generalizing round toRead cl copied buffer out with
  | zero => omega
  | succ fuel ih =>
    rw [copyWith]
    by_cases hstop : toRead=0 ∨ isEoc cl=true ∨ isFree cl=true
    · rw [if_pos hstop]
      exact ⟨_,rfl,Copied.within_stop (Nat.le_add_right _ _) (fun n h => (Except.ok.inj h).symm)⟩
    · rw [if_neg hstop]
      cases hread : reads.cluster round cl buffer with
      | error error =>
        exact ⟨_,rfl,Copied.within_stop (Nat.le_add_right _ _) (fun n h => (by cases h))⟩
      | ok filled =>
        obtain ⟨n,hn⟩ : ∃ n,n=min toRead size := ⟨_,rfl⟩
        have hpos : 0<n := by omega
        have hle : n≤toRead := by omega
        obtain ⟨hcopied,htoRead⟩ := counters_eq hle hword
        have hfits : CopyStep.Fits size ⟨copied,toRead,n⟩ :=
          ⟨hpos,hle,by dsimp only; omega,by dsimp only; omega⟩
        have hw : ∀ x, (x<copied ∨ copied+n≤x) → copy out copied filled 0 n x=out x :=
          fun x hx => copy_outside out filled hx
        simp only [smaller_eq,← hn,hcopied,htoRead]
        cases hfat : reads.fat round cl with
        | error error =>
          have hstop : Copied.Within size (copied+n) (copied+toRead) (copy out copied filled 0 n)
              ⟨.error error,copy out copied filled 0 n,copied+n,[]⟩ :=
            Copied.within_stop (by omega) (fun n h => (by cases h))
          exact ⟨_,rfl,hstop.behind hfits rfl rfl hw⟩
        | ok next =>
          obtain ⟨run,hrun,hwithin⟩ := @ih (round+1) (toRead-n) next (copied+n) filled
            (copy out copied filled 0 n) (by omega) (by omega)
          have hbound : copied+n+(toRead-n)=copied+toRead := by omega
          rw [hbound] at hwithin
          refine ⟨run.behind ⟨copied,toRead,n⟩,?_,hwithin.behind hfits rfl rfl hw⟩
          simp only [hrun,Option.map_some]

/-- The heap answers a request for no bytes with an error. -/
theorem bufferAt_pos {heap : KmallocHeap.Heap} {supply : ℕ→KmallocHeap.Grant}
    {answer : Except Error ℕ×KmallocHeap.Heap}
    (h : KmallocHeap.allocate heap size supply=some answer) {buffer : Memory}
    (hb : bufferAt answer=.ok buffer) : 0< size := by
  by_contra hzero
  rw [KmallocHeap.allocate,if_pos (by omega)] at h
  rw [← Option.some.inj h] at hb
  cases hb

/-- `read_file` from an entry on, when no buffer is empty. -/
theorem readFound_bounded {allocation : Except Error Memory}
    (hpos : ∀ buffer, allocation=.ok buffer → 0< size) {entry : DirEntShort}
    (hlt : entry.fileSize<2^32) (maxBytes : ℕ) (out : Memory) {fuel : ℕ}
    (hfuel : min maxBytes entry.fileSize<fuel) :
    ∃ run,readFound reads size allocation entry maxBytes out fuel=some run ∧
      run.Within size 0 (min maxBytes entry.fileSize) out := by
  unfold readFound
  by_cases hdir : entry.isDirectory=true
  · rw [if_pos hdir]
    exact ⟨_,rfl,Copied.within_stop (Nat.zero_le _) (fun n h => (by cases h))⟩
  · rw [if_neg hdir]
    by_cases hempty : entry.fileSize=0
    · rw [if_pos hempty]
      exact ⟨_,rfl,Copied.within_stop (Nat.zero_le _) (fun n h => (Except.ok.inj h).symm)⟩
    · rw [if_neg hempty,smaller_eq]
      cases hbuffer : allocation with
      | error error => exact ⟨_,rfl,Copied.within_stop (Nat.zero_le _) (fun n h => (by cases h))⟩
      | ok buffer =>
        have hrun := @copyWith_within reads _ (hpos buffer hbuffer) fuel 0
          (min maxBytes entry.fileSize) entry.firstCluster 0 buffer out hfuel (by omega)
        rwa [Nat.zero_add] at hrun

/-- Reads that always fill the buffer and always lead on. -/
def endlessReads : ClusterReads where
  cluster _ _ _ := .ok (fun _ => 1)
  fat _ cl := .ok cl

end Copying

section Driver

variable {volume : Volume}

/-- A scan returns an entry of the buffer. -/
theorem scanEntries_entryAt {buffer : Memory} {want : List UInt8} {remaining i : ℕ}
    {entry : DirEntShort} (h : scanEntries buffer want remaining i=.found entry) :
    ∃ memory address,entry=entryAt memory address := by
  induction remaining generalizing i with
  | zero => cases h
  | succ remaining ih =>
    rw [scanEntries] at h
    split at h
    · cases h
    · split at h
      · exact ih h
      · split at h
        · exact ⟨buffer,sizeofDirEntShort*i,(Scan.found.inj h).symm⟩
        · exact ih h

/-- A search returns what the scan of one buffer found. -/
theorem findLoop_scan {want : List UInt8} {fuel cl : ℕ} {buffer : Memory}
    {entry : DirEntShort} (h : findLoop volume want fuel cl buffer=some (.ok entry)) :
    ∃ filled,scanEntries filled want (entsPerCluster volume) 0=.found entry := by
  induction fuel generalizing cl buffer with
  | zero => cases h
  | succ fuel ih =>
    rw [findLoop] at h
    split at h
    · cases h
    · split at h
      · cases h
      · split at h
        · next hscan =>
          cases h
          exact ⟨_,hscan⟩
        · cases h
        · split at h
          · cases h
          · exact ih h

/-- So does a lookup. -/
theorem findInDirectory_scan {heap : Except Error Memory} {dir : ℕ} {want : List UInt8}
    {entry : DirEntShort} (h : findInDirectory volume heap dir want=some (.ok entry)) :
    ∃ filled,scanEntries filled want (entsPerCluster volume) 0=.found entry := by
  cases heap with
  | error error => cases h
  | ok buffer => exact findLoop_scan h

/-- A lookup returns an entry it read. -/
theorem findInDirectory_entryAt {heap : Except Error Memory} {dir : ℕ} {want : List UInt8}
    {entry : DirEntShort} (h : findInDirectory volume heap dir want=some (.ok entry)) :
    ∃ memory address,entry=entryAt memory address := by
  obtain ⟨filled,hscan⟩ := findInDirectory_scan h
  exact scanEntries_entryAt hscan

/-- So does a walk along the components of a path. -/
theorem walkLoop_entryAt {heap : ℕ→Except Error Memory} {fuel dir asked requests : ℕ}
    {path : List UInt8} {entry : DirEntShort}
    (h : walkLoop volume heap fuel path dir asked=some (.ok (entry,requests))) :
    ∃ memory address,entry=entryAt memory address := by
  induction fuel generalizing path dir asked with
  | zero => cases h
  | succ fuel ih =>
    rw [walkLoop] at h
    split at h
    · cases h
    · split at h
      · cases h
      · cases h
      · next found hfind =>
        split at h
        · cases h
          exact findInDirectory_entryAt hfind
        · split at h
          · dsimp only at h
            split at h
            · cases h
              exact findInDirectory_entryAt hfind
            · exact ih h
          · cases h

/-- The entry a path leads to was read from a directory. -/
theorem walkPath_entryAt {heap : ℕ→Except Error Memory} {path : List UInt8} {requests : ℕ}
    {entry : DirEntShort} (h : walkPath volume heap path=some (.ok (entry,requests))) :
    ∃ memory address,entry=entryAt memory address := by
  rw [walkPath] at h
  split at h
  · cases h
  · dsimp only at h
    split at h
    · cases h
    · exact walkLoop_entryAt h

/-- Its size is a 32-bit value. -/
theorem fileSize_lt {heap : ℕ→Except Error Memory} {path : List UInt8} {requests : ℕ}
    {entry : DirEntShort} (h : walkPath volume heap path=some (.ok (entry,requests))) :
    entry.fileSize<2^32 := by
  obtain ⟨memory,address,hentry⟩ := walkPath_entryAt h
  rw [hentry]
  exact readLE_lt memory (address+28) 4

/-- Without wraps the copy is that of the driver. -/
theorem copyLoop_eq {fuel toRead cl copied : ℕ} (round : ℕ) (buffer out : Memory)
    (hword : copied+toRead<2^32) :
    copyLoop volume fuel toRead cl copied buffer out=
      (copyWith (deviceReads volume) (bytesPerCluster volume) fuel round toRead cl copied buffer
        out).map (fun run => (run.answer,run.out)) := by
  induction fuel generalizing round toRead cl copied buffer out with
  | zero => rfl
  | succ fuel ih =>
    rw [copyLoop,copyWith]
    by_cases hstop : toRead=0 ∨ isEoc cl=true ∨ isFree cl=true
    · rw [if_pos hstop,if_pos hstop,Option.map_some]
    · rw [if_neg hstop,if_neg hstop]
      simp only [deviceReads]
      cases readCluster volume cl buffer with
      | error error => rfl
      | ok filled =>
        obtain ⟨n,hn⟩ : ∃ n,n=min toRead (bytesPerCluster volume) := ⟨_,rfl⟩
        obtain ⟨hcopied,htoRead⟩ := @counters_eq copied toRead n (by omega) hword
        simp only [smaller_eq,← hn,hcopied,htoRead]
        cases readFat volume cl with
        | error error => rfl
        | ok next =>
          simp only [Option.map_map]
          exact ih (round+1) filled (copy out copied filled 0 n) (by omega)

/-- The search is that of the driver. -/
theorem findLoop_eq {want : List UInt8} {fuel cl : ℕ} (round : ℕ) (buffer : Memory)
    (outEnt : DirEntShort) : findLoop volume want fuel cl buffer=
      (findWith (deviceReads volume) (entsPerCluster volume) want fuel round cl buffer outEnt).map
        (fun answer => answer.1.map (fun _ => answer.2)) := by
  induction fuel generalizing round cl buffer with
  | zero => rfl
  | succ fuel ih =>
    rw [findLoop,findWith]
    by_cases hstop : isEoc cl=true ∨ isFree cl=true
    · rw [if_pos hstop,if_pos hstop]
      rfl
    · rw [if_neg hstop,if_neg hstop]
      simp only [deviceReads]
      cases readCluster volume cl buffer with
      | error error => rfl
      | ok filled =>
        dsimp only
        cases scanEntries filled want (entsPerCluster volume) 0 with
        | found entry => rfl
        | ended => rfl
        | more =>
          cases readFat volume cl with
          | error error => rfl
          | ok next => exact ih (round+1) filled

/-- `read_file` goes on from the entry its path led to. -/
theorem readFile_eq {heap : ℕ→Except Error Memory} {path : List UInt8} {entry : DirEntShort}
    {asked : ℕ} (hwalk : walkPath volume heap path=some (.ok (entry,asked))) (out : Memory)
    (maxBytes : ℕ) : readFile volume heap path out maxBytes=
      (readFound (deviceReads volume) (bytesPerCluster volume) (heap asked) entry maxBytes out
        (min maxBytes entry.fileSize+1)).map (fun run => (run.answer,run.out)) := by
  have hlt := fileSize_lt hwalk
  rw [readFile,hwalk]
  unfold readFound
  by_cases hdir : entry.isDirectory=true
  · simp only [if_pos hdir,Option.map_some]
  · by_cases hempty : entry.fileSize=0
    · simp only [if_neg hdir,if_pos hempty,Option.map_some]
    · simp only [if_neg hdir,if_neg hempty,smaller_eq]
      cases heap asked with
      | error error => rfl
      | ok buffer => exact copyLoop_eq 0 buffer out (by omega)

/-- `read_file` returns whenever the walk along its path does, and leaves every
byte behind the request alone. -/
theorem readFile_returns {heap : ℕ→Except Error Memory}
    (hzero : ∀ asked buffer, heap asked=.ok buffer → 0<bytesPerCluster volume) {path : List UInt8}
    {entry : DirEntShort} {asked : ℕ}
    (hwalk : walkPath volume heap path=some (.ok (entry,asked))) (out : Memory) (maxBytes : ℕ) :
    ∃ answer after,readFile volume heap path out maxBytes=some (answer,after) ∧
      ∀ x, min maxBytes entry.fileSize≤x → after x=out x := by
  obtain ⟨run,hrun,hwithin⟩ := @readFound_bounded (deviceReads volume) _ _ (hzero asked) entry
    (fileSize_lt hwalk) maxBytes out _ (Nat.lt_succ_self _)
  rw [readFile_eq hwalk,hrun]
  exact ⟨_,_,rfl,fun x hx => hwithin.outside x (Or.inr (hwithin.copied_le.trans hx))⟩

end Driver

section Searching

/-- Reads that deliver clusters of `size` bytes and their successors. -/
def idealReads (contents : ℕ→Memory) (successor : ℕ→ℕ) (size : ℕ) : ClusterReads where
  cluster _ cl buffer := .ok (copy buffer 0 (contents cl) 0 size)
  fat _ cl := .ok (successor cl)

/-- The clusters are those from `first` to the end mark or zero. -/
def ChainOf (successor : ℕ→ℕ) : (first : ℕ)→List ℕ→Prop
  | first,[] => isEoc first=true ∨ isFree first=true
  | first,cluster::rest => first=cluster ∧ ¬(isEoc first=true ∨ isFree first=true) ∧
      ChainOf successor (successor cluster) rest

/-- The entries of the clusters, one cluster after the other. -/
def entriesOf (contents : ℕ→Memory) (size : ℕ) (clusters : List ℕ) : List DirEntShort :=
  clusters.flatMap (fun cluster => (List.range (size/sizeofDirEntShort)).map
    (fun i => entryAt (contents cluster) (sizeofDirEntShort*i)))

/-- The entries before the first one whose first byte is zero. -/
def beforeEnd (entries : List DirEntShort) : List DirEntShort :=
  entries.takeWhile (fun entry => decide (entry.first≠0))

/-- An entry in use of this name. -/
def wanted (want : List UInt8) (entry : DirEntShort) : Bool :=
  !entry.isSkipped && decide (entry.name=want)

/-- What a scan of a list of entries comes to. -/
def scanList (want : List UInt8) : List DirEntShort→Scan
  | [] => .more
  | entry::rest =>
    if entry.first=0 then .ended
    else if entry.isSkipped then scanList want rest
    else if entry.name=want then .found entry
    else scanList want rest

/-- What `find_in_directory` makes of it. -/
def Scan.result (outEnt : DirEntShort) : Scan→Except Error Unit×DirEntShort
  | .found entry => (.ok (),entry)
  | .ended => (.error (.fromCode 1),outEnt)
  | .more => (.error (.fromCode 1),outEnt)

variable {contents : ℕ→Memory} {successor : ℕ→ℕ} {size : ℕ} {want : List UInt8}

/-- A chain that comes to an end mark or zero has such a list of clusters. -/
theorem exists_chainOf {first steps : ℕ}
    (h : isEoc (successor^[steps] first)=true ∨ isFree (successor^[steps] first)=true) :
    ∃ clusters,ChainOf successor first clusters := by
  induction steps generalizing first with
  | zero => exact ⟨[],h⟩
  | succ steps ih =>
    by_cases hstop : isEoc first=true ∨ isFree first=true
    · exact ⟨[],hstop⟩
    · obtain ⟨rest,hrest⟩ := ih h
      exact ⟨first::rest,rfl,hstop,hrest⟩

/-- The loop over a buffer is a scan of the entries in it. -/
theorem scanEntries_eq (buffer : Memory) (remaining i : ℕ) :
    scanEntries buffer want remaining i=scanList want
      ((List.range remaining).map (fun j => entryAt buffer (sizeofDirEntShort*(i+j)))) := by
  induction remaining generalizing i with
  | zero => rfl
  | succ remaining ih =>
    have hnext : ∀ j, i+1+j=i+(j+1) := fun j => by omega
    rw [List.range_succ_eq_map,List.map_cons,List.map_map,scanEntries,scanList,ih]
    simp only [hnext,Function.comp_def,Nat.succ_eq_add_one,Nat.add_zero]

/-- A scan of two lists. -/
theorem scanList_append (front back : List DirEntShort) :
    scanList want (front++back)=
      match scanList want front with
      | .found entry => .found entry
      | .ended => .ended
      | .more => scanList want back := by
  induction front with
  | nil => rfl
  | cons entry rest ih =>
    rw [List.cons_append,scanList,scanList]
    by_cases hend : entry.first=0
    · rw [if_pos hend,if_pos hend]
    · rw [if_neg hend,if_neg hend]
      by_cases hskip : entry.isSkipped=true
      · rw [if_pos hskip,if_pos hskip,ih]
      · rw [if_neg hskip,if_neg hskip]
        by_cases hname : entry.name=want
        · rw [if_pos hname,if_pos hname]
        · rw [if_neg hname,if_neg hname,ih]

/-- A scan finds the first entry of the name before the end. -/
theorem scanList_found_iff (entries : List DirEntShort) (entry : DirEntShort) :
    scanList want entries=.found entry ↔ (beforeEnd entries).find? (wanted want)=some entry := by
  induction entries with
  | nil => exact ⟨fun h => (by cases h),fun h => (by cases h)⟩
  | cons head rest ih =>
    rw [scanList,beforeEnd]
    by_cases hend : head.first=0
    · rw [if_pos hend,List.takeWhile_cons_of_neg (by simp [hend])]
      exact ⟨fun h => (by cases h),fun h => (by cases h)⟩
    · rw [if_neg hend,List.takeWhile_cons_of_pos (by simp [hend])]
      by_cases hskip : head.isSkipped=true
      · rw [if_pos hskip,List.find?_cons_of_neg (by simp [wanted,hskip])]
        exact ih
      · rw [if_neg hskip]
        by_cases hname : head.name=want
        · rw [if_pos hname,List.find?_cons_of_pos (by simp [wanted,hskip,hname]),Scan.found.injEq,
            Option.some.injEq]
        · rw [if_neg hname,List.find?_cons_of_neg (by simp [wanted,hname])]
          exact ih

/-- The entries of a cluster that was read into the buffer. -/
theorem scanEntries_filled (buffer : Memory) (cluster : ℕ) :
    scanEntries (copy buffer 0 (contents cluster) 0 size) want (size/sizeofDirEntShort) 0=
      scanList want ((List.range (size/sizeofDirEntShort)).map
        (fun i => entryAt (contents cluster) (sizeofDirEntShort*i))) := by
  rw [scanEntries_eq]
  congr 1
  refine List.map_congr_left (fun i hi => entryAt_relocated (fun k hk => ?_))
  have hlt := List.mem_range.mp hi
  have hend : sizeofDirEntShort*i+sizeofDirEntShort≤ size := by
    have hmul := Nat.mul_le_mul_left sizeofDirEntShort (Nat.succ_le_of_lt hlt)
    rw [Nat.mul_succ] at hmul
    exact hmul.trans (Nat.mul_div_le size sizeofDirEntShort)
  rw [Nat.zero_add,copy_inside _ _ (Nat.zero_le _) (by omega),Nat.zero_add,Nat.sub_zero]

/-- Without an entry `find_in_directory` fails and leaves `out_ent` alone. -/
theorem Scan.result_of_not_found {scan : Scan} (h : ∀ entry, scan≠.found entry)
    (outEnt : DirEntShort) : Scan.result outEnt scan=(.error (.fromCode 1),outEnt) := by
  cases scan with
  | found entry => exact absurd rfl (h entry)
  | ended => rfl
  | more => rfl

/-- The search over a chain is a scan of all its entries. -/
theorem findWith_eq {dir fuel : ℕ} {clusters : List ℕ} (round : ℕ) (buffer : Memory)
    (outEnt : DirEntShort) (h : ChainOf successor dir clusters) (hf : clusters.length<fuel) :
    findWith (idealReads contents successor size) (size/sizeofDirEntShort) want fuel round dir
      buffer outEnt=some (Scan.result outEnt (scanList want (entriesOf contents size clusters))) := by
  induction clusters generalizing dir fuel round buffer with
  | nil =>
    obtain ⟨fewer,rfl⟩ : ∃ fewer,fuel=fewer+1 := ⟨fuel-1,by rw [List.length_nil] at hf; omega⟩
    have hstop : isEoc dir=true ∨ isFree dir=true := h
    rw [findWith,if_pos hstop]
    rfl
  | cons cluster rest ih =>
    obtain ⟨fewer,rfl⟩ : ∃ fewer,fuel=fewer+1 := ⟨fuel-1,by omega⟩
    obtain ⟨rfl,hgoes,hrest⟩ := h
    rw [List.length_cons] at hf
    rw [findWith,if_neg hgoes,entriesOf,List.flatMap_cons,scanList_append]
    simp only [idealReads,scanEntries_filled]
    cases scanList want ((List.range (size/sizeofDirEntShort)).map
        (fun i => entryAt (contents dir) (sizeofDirEntShort*i))) with
    | found entry => rfl
    | ended => rfl
    | more => exact ih (round+1) _ hrest (by omega)

/-- Over reads that deliver the clusters of the directory's chain,
`find_in_directory` succeeds exactly when an entry in use before the end of the
directory has the name, returns the first such entry, and leaves `out_ent`
alone when it fails. -/
theorem findWith_iff {dir steps : ℕ}
    (hend : isEoc (successor^[steps] dir)=true ∨ isFree (successor^[steps] dir)=true)
    (want : List UInt8) (buffer : Memory) (outEnt : DirEntShort) :
    ∃ clusters answer,ChainOf successor dir clusters ∧
      (∀ fuel>clusters.length, findWith (idealReads contents successor size)
        (size/sizeofDirEntShort) want fuel 0 dir buffer outEnt=some answer) ∧
      (answer.1=.ok () ↔ ∃ entry∈beforeEnd (entriesOf contents size clusters),
        entry.isSkipped=false ∧ entry.name=want) ∧
      (answer.1=.ok () →
        (beforeEnd (entriesOf contents size clusters)).find? (wanted want)=some answer.2) ∧
      (answer.1≠.ok () → answer.2=outEnt) := by
  obtain ⟨clusters,hchain⟩ := exists_chainOf hend
  have hfound := @scanList_found_iff want (entriesOf contents size clusters)
  refine ⟨clusters,Scan.result outEnt (scanList want (entriesOf contents size clusters)),hchain,
    fun fuel hf => findWith_eq 0 buffer outEnt hchain hf,?_⟩
  have hexists : (∃ entry∈beforeEnd (entriesOf contents size clusters),
      entry.isSkipped=false ∧ entry.name=want) ↔
        ∃ entry,(beforeEnd (entriesOf contents size clusters)).find? (wanted want)=some entry := by
    rw [← Option.isSome_iff_exists,List.find?_isSome]
    simp only [wanted,Bool.and_eq_true,Bool.not_eq_true',decide_eq_true_eq]
  rw [hexists]
  cases hfind : (beforeEnd (entriesOf contents size clusters)).find? (wanted want) with
  | some entry =>
    rw [(hfound entry).mpr hfind]
    exact ⟨⟨fun _ => ⟨entry,rfl⟩,fun _ => rfl⟩,fun _ => rfl,fun h => absurd rfl h⟩
  | none =>
    have hnone : ∀ entry, scanList want (entriesOf contents size clusters)≠.found entry := by
      intro entry hscan
      rw [(hfound entry).mp hscan] at hfind
      cases hfind
    rw [Scan.result_of_not_found hnone]
    exact ⟨⟨fun h => (by cases h),fun ⟨entry,h⟩ => (by cases h)⟩,fun h => (by cases h),fun _ => rfl⟩

/-- The sample volume's directory, as one cluster. -/
theorem findWith_iff_sample : ∃ clusters answer,ChainOf (fun _ => 0x0fffffff) 2 clusters ∧
    (∀ fuel>clusters.length, findWith (idealReads (fun _ k => sampleDevice.image (1024+k))
      (fun _ => 0x0fffffff) 512) (512/sizeofDirEntShort) sampleEntry.name fuel 0 2 (fun _ => 0)
        (entryAt (fun _ => 0) 0)=some answer) ∧
    (answer.1=.ok () ↔
      ∃ entry∈beforeEnd (entriesOf (fun _ k => sampleDevice.image (1024+k)) 512 clusters),
        entry.isSkipped=false ∧ entry.name=sampleEntry.name) ∧
    (answer.1=.ok () →
      (beforeEnd (entriesOf (fun _ k => sampleDevice.image (1024+k)) 512 clusters)).find?
        (wanted sampleEntry.name)=some answer.2) ∧
    (answer.1≠.ok () → answer.2=entryAt (fun _ => 0) 0) :=
  @findWith_iff _ _ 512 2 1 (by decide) sampleEntry.name (fun _ => 0) (entryAt (fun _ => 0) 0)

end Searching

end WorkbenchOS.FatLoops
