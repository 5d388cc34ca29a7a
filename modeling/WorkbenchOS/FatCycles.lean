import WorkbenchOS.ChainWalks
import WorkbenchOS.FatSectors

/-!
# Directory searches that do not end

`find_in_directory` goes from cluster to cluster as the sectors it takes for
the FAT say, and ends at a free cluster, an end mark, an entry that decides the
search or an error. Every cluster is read over the one before, so what the
search does in a cluster depends on the cluster alone, and it ends exactly when
it comes to no cluster twice; but it does not return from a `read_fat` that gets
a sector longer than its buffer. The copy loop of `read_file` follows the same
chain, but ends with the bytes it was asked for.
-/

namespace WorkbenchOS.FatCycles

open ByteMemory LibStd Fat32 FatFiles FatSectors ChainWalks

section Search

/-- The cluster the search goes on with: this one is neither free nor an end
mark, it can be read, none of its entries decides the search, and the FAT can
be read. -/
def advance (volume : Volume) (want : List UInt8) (buffer : Memory) (cl : ℕ) : Option ℕ :=
  if isEoc cl ∨ isFree cl then none
  else
    match readCluster volume cl buffer with
    | .error _ => none
    | .ok filled =>
      match scanEntries filled want (entsPerCluster volume) 0 with
      | .more => (readFat volume cl).toOption
      | .found _ => none
      | .ended => none

/-- The search from this directory comes to a cluster it comes back to. -/
def SearchCycles (volume : Volume) (buffer : Memory) (dir : ℕ) (want : List UInt8) : Prop :=
  EntersCycle (advance volume want buffer) dir

/-- The `while` loop of `find_in_directory` with the frame of `read_fat`. -/
def searchLoop (volume : Volume) (want : List UInt8) :
    (reads cl : ℕ)→Memory→Option (Except Error DirEntShort)
  | 0,_,_ => none
  | reads+1,cl,buffer =>
    if isEoc cl ∨ isFree cl then some (.error (.fromCode 1))
    else
      match readCluster volume cl buffer with
      | .error error => some (.error error)
      | .ok filled =>
        match scanEntries filled want (entsPerCluster volume) 0 with
        | .found entry => some (.ok entry)
        | .ended => some (.error (.fromCode 1))
        | .more =>
          match readFatFrame volume cl with
          | none => none
          | some (.error error) => some (.error error)
          | some (.ok next) => searchLoop volume want reads next filled

/-- `find_in_directory`, if it takes no more than a number of cluster reads. -/
def findWithin (volume : Volume) (heap : Except Error Memory) (dir : ℕ) (want : List UInt8)
    (reads : ℕ) : Option (Except Error DirEntShort) :=
  match heap with
  | .error error => some (.error error)
  | .ok clusterBuffer => searchLoop volume want reads dir clusterBuffer

/-- `find_in_directory` returns after finitely many cluster reads. -/
def Returns (volume : Volume) (heap : Except Error Memory) (dir : ℕ) (want : List UInt8) : Prop :=
  ∃ reads,findWithin volume heap dir want reads≠none

/-- Clusters are read into this buffer as into the one the search began with. -/
def ReadsAlike (volume : Volume) (start buffer : Memory) : Prop :=
  ∀ cl, readCluster volume cl buffer=readCluster volume cl start

variable {volume : Volume} {want : List UInt8}

/-- A read fills the buffer up to the same byte whatever it held. -/
theorem read_copy {device : BlockDevice} {lba size : ℕ} {buffer filled : Memory}
    (h : device.read lba size buffer=.ok filled) :
    filled=copy buffer 0 device.image (lba*512) size := by
  rw [BlockDevice.read] at h
  split at h
  · cases h
  · split at h
    · cases h
    · exact (Except.ok.inj h).symm

/-- Whether a read succeeds does not depend on the buffer. -/
theorem read_over {device : BlockDevice} {first second size : ℕ} {start filled : Memory}
    (h : device.read first size start=.ok filled) :
    device.read second size filled=device.read second size start := by
  rw [read_copy h,BlockDevice.read,BlockDevice.read,copy_copy]

/-- A buffer that a cluster was read into takes the next one alike. -/
theorem readsAlike_filled {start filled : Memory} {cl : ℕ}
    (h : readCluster volume cl start=.ok filled) : ReadsAlike volume start filled :=
  fun _ => read_over h

/-- The search is still under way after some reads exactly when the chain of
its clusters is that long. -/
theorem findLoop_eq_none_iff {start buffer : Memory} {reads cl : ℕ}
    (hb : ReadsAlike volume start buffer) :
    findLoop volume want reads cl buffer=none ↔ after (advance volume want start) reads cl≠none := by
  induction reads generalizing cl buffer with
  | zero => simp [findLoop]
  | succ reads ih =>
    rw [findLoop,after_succ,advance,hb cl]
    by_cases hstop : isEoc cl=true ∨ isFree cl=true
    · simp only [if_pos hstop,Option.bind_none,reduceCtorEq,ne_eq,not_true_eq_false]
    · rw [if_neg hstop,if_neg hstop]
      cases hread : readCluster volume cl start with
      | error error => simp only [Option.bind_none,reduceCtorEq,ne_eq,not_true_eq_false]
      | ok filled =>
        cases hscan : scanEntries filled want (entsPerCluster volume) 0 with
        | found entry => simp only [hscan,Option.bind_none,reduceCtorEq,ne_eq,not_true_eq_false]
        | ended => simp only [hscan,Option.bind_none,reduceCtorEq,ne_eq,not_true_eq_false]
        | more =>
          cases hfat : readFat volume cl with
          | error error =>
            simp only [hscan,Except.toOption,Option.bind_none,reduceCtorEq,ne_eq,not_true_eq_false]
          | ok next =>
            simp only [hscan,Except.toOption,Option.bind_some]
            exact ih (readsAlike_filled hread)

/-- The search goes on from clusters only. -/
theorem mem_of_advance {buffer : Memory} (cl : ℕ) (h : advance volume want buffer cl≠none) :
    cl∈Finset.Ico 1 0x0ffffff8 := by
  rw [advance] at h
  by_cases hstop : isEoc cl=true ∨ isFree cl=true
  · rw [if_pos hstop] at h
    exact absurd rfl h
  · simp only [isEoc,isFree,decide_eq_true_eq] at hstop
    rw [Finset.mem_Ico]
    omega

/-- With sectors no longer than the buffer of `read_fat` its frame holds. -/
theorem searchLoop_eq (hsmall : volume.bytesPerSec≤ sectorBufferSize) (reads cl : ℕ)
    (buffer : Memory) :
    searchLoop volume want reads cl buffer=findLoop volume want reads cl buffer := by
  have hframe : ∀ cl,readFatFrame volume cl=some (readFat volume cl) :=
    fun cl => if_neg (fun h => absurd h.1 (by omega))
  induction reads generalizing cl buffer with
  | zero => rfl
  | succ reads ih =>
    rw [searchLoop,findLoop]
    split_ifs
    · rfl
    cases readCluster volume cl buffer with
    | error error => rfl
    | ok filled =>
      dsimp only
      cases scanEntries filled want (entsPerCluster volume) 0 with
      | found entry => rfl
      | ended => rfl
      | more =>
        dsimp only
        rw [hframe]
        cases readFat volume cl with
        | error error => rfl
        | ok next => exact ih next filled

/-- With longer ones it returns when it comes to no delivered sector, and only
then: it is over at the first one. -/
theorem searchLoop_ne_none_iff (hlong : sectorBufferSize<volume.bytesPerSec) (reads cl : ℕ)
    (buffer : Memory) : searchLoop volume want (reads+1) cl buffer≠none ↔
      advance volume want buffer cl=none := by
  rw [searchLoop,advance]
  split_ifs with hstop
  · simp
  cases readCluster volume cl buffer with
  | error error => simp
  | ok filled =>
    dsimp only
    cases scanEntries filled want (entsPerCluster volume) 0 with
    | found entry => simp
    | ended => simp
    | more =>
      dsimp only
      rw [readFatFrame]
      cases readFat volume cl with
      | error error =>
        rw [if_neg (fun h => Bool.noConfusion h.2)]
        simp [Except.toOption]
      | ok next =>
        rw [if_pos ⟨hlong,rfl⟩]
        simp [Except.toOption]

/-- A search that returns does so within the fuel of the model. -/
theorem returns_iff_findInDirectory (hsmall : volume.bytesPerSec≤ sectorBufferSize)
    (heap : Except Error Memory) (dir : ℕ) :
    Returns volume heap dir want ↔ findInDirectory volume heap dir want≠none := by
  cases heap with
  | error error => exact ⟨fun _ => Option.some_ne_none _,fun h => ⟨0,h⟩⟩
  | ok buffer =>
    refine ⟨fun ⟨reads,hreads⟩ hnone => hreads ?_,
      fun h => ⟨chainFuel,fun hnone => h ((searchLoop_eq hsmall chainFuel dir buffer).symm.trans hnone)⟩⟩
    have halike : ReadsAlike volume buffer buffer := fun _ => rfl
    have hlong : after (advance volume want buffer) ((Finset.Ico 1 0x0ffffff8).card+1) dir≠none := by
      intro hstop
      refine (findLoop_eq_none_iff halike).mp hnone (after_none_mono hstop ?_)
      rw [Nat.card_Ico]
      decide
    exact (searchLoop_eq hsmall reads dir buffer).trans ((findLoop_eq_none_iff halike).mpr
      ((entersCycle_of_long _ mem_of_advance hlong).after_ne_none reads))

/-- A search that ends at its first cluster comes to no cycle. -/
theorem not_searchCycles_of_advance {buffer : Memory} {dir : ℕ}
    (h : advance volume want buffer dir=none) : ¬SearchCycles volume buffer dir want := by
  intro hcycle
  obtain ⟨other,hstep,-⟩ := hcycle.goes_on
  rw [h] at hstep
  cases hstep

/-- `find_in_directory` returns exactly when the clusters it goes through form
no cycle and it gets no sector of the FAT that is longer than the buffer of
`read_fat`. -/
theorem returns_iff (volume : Volume) (heap : Except Error Memory) (dir : ℕ) (want : List UInt8) :
    Returns volume heap dir want ↔ ∀ buffer, heap=.ok buffer →
      ¬SearchCycles volume buffer dir want ∧
        (sectorBufferSize<volume.bytesPerSec → advance volume want buffer dir=none) := by
  cases heap with
  | error error => exact ⟨fun _ _ h => (by cases h),fun _ => ⟨0,Option.some_ne_none _⟩⟩
  | ok buffer =>
    have hsearch : Returns volume (.ok buffer) dir want ↔
        ¬SearchCycles volume buffer dir want ∧
          (sectorBufferSize<volume.bytesPerSec → advance volume want buffer dir=none) := by
      by_cases hsmall : volume.bytesPerSec≤ sectorBufferSize
      · have halike : ReadsAlike volume buffer buffer := fun _ => rfl
        have hstops : Returns volume (.ok buffer) dir want ↔
            Stops (advance volume want buffer) dir := by
          refine exists_congr (fun reads => ?_)
          rw [findWithin,searchLoop_eq hsmall]
          exact (not_congr (findLoop_eq_none_iff halike)).trans not_not
        rw [hstops,stops_iff _ mem_of_advance dir]
        exact ⟨fun h => ⟨h,fun hlong => absurd hlong (by omega)⟩,fun h => h.1⟩
      · have hlong : sectorBufferSize<volume.bytesPerSec := by omega
        constructor
        · rintro ⟨_|reads,hreads⟩
          · exact absurd rfl hreads
          · have hfirst := (searchLoop_ne_none_iff hlong reads dir buffer).mp hreads
            exact ⟨not_searchCycles_of_advance hfirst,fun _ => hfirst⟩
        · exact fun h => ⟨1,(searchLoop_ne_none_iff hlong 0 dir buffer).mpr (h.2 hlong)⟩
    rw [hsearch]
    exact ⟨fun h other hother => Except.ok.inj hother▸h,fun h => h buffer rfl⟩

end Search

/-- A device whose directory is one cluster of deleted entries that is followed
by itself, in the FAT and in the sector taken for it. -/
def cyclicDevice : BlockDevice where
  image x := if x<512 then (sampleBytes.lookup x).getD 0 else
    ([(520,2),(521,0),(522,0),(523,0),(4104,2),(4105,0),(4106,0),(4107,0)].lookup x).getD 0xe5
  sectors := 64
  sectors_lt := sampleDevice.sectors_lt

/-- The volume on it. -/
def cyclicVolume : Volume := {sampleVolume with dev := cyclicDevice}

theorem cyclic_mounted : mount cyclicDevice 0=.ok cyclicVolume :=
  mount_iff.mpr ⟨by decide,by decide +kernel,rfl,rfl,by decide +kernel,by decide +kernel,
    by decide +kernel,by decide +kernel,by decide +kernel,by decide +kernel,by decide,by decide⟩

theorem cyclic_advance :
    advance cyclicVolume (to8dot3Upper [97]) (fun _ => 0) 2=some 2 := by
  decide +kernel

/-- The search in a directory that follows itself never returns. -/
theorem not_always_returns : ¬∀ (volume : Volume) (heap : Except Error Memory) (dir : ℕ)
    (want : List UInt8), (∃ device partition,mount device partition=.ok volume) →
      Returns volume heap dir want := by
  intro hall
  obtain ⟨reads,hreads⟩ := hall cyclicVolume (.ok (fun _ => 0)) 2 (to8dot3Upper [97])
    ⟨cyclicDevice,0,cyclic_mounted⟩
  have hcycle : EntersCycle (advance cyclicVolume (to8dot3Upper [97]) (fun _ => 0)) 2 :=
    ⟨2,.refl,.single cyclic_advance⟩
  have halike : ReadsAlike cyclicVolume (fun _ => 0) (fun _ => 0) := fun _ => rfl
  exact hreads ((searchLoop_eq (by decide) reads 2 _).trans
    ((findLoop_eq_none_iff halike).mpr (hcycle.after_ne_none reads)))

end WorkbenchOS.FatCycles
