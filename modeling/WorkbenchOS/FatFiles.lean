import WorkbenchOS.Fat32

/-!
# Files of a FAT32 volume

What a volume says about its files, independently of the driver: the FAT
entry of a cluster, the bytes of a chain, the entry a directory lists under a
name and the entry a path leads to. The driver agrees with it as far as it
stays in the first sector of each cluster and the sectors it takes for the
FAT happen to hold the same entries.
-/

namespace WorkbenchOS.FatFiles

open ByteMemory LibStd Fat32

section Volumes

variable (volume : Volume)

/-- The FAT entry of a cluster, its low 28 bits. -/
def fatEntry (cluster : ℕ) : ℕ :=
  readLE volume.dev.image (volume.fatBeginLba*512+4*cluster) 4&&&0x0fffffff

/-- Byte address of a cluster on the device. -/
def clusterStart (cluster : ℕ) : ℕ :=
  (volume.dataBeginLba+(cluster-2)*volume.secPerClus)*512

/-- A cluster of the data area that lies on the device. -/
structure DataCluster (cluster : ℕ) : Prop where
  /-- Clusters are numbered from 2 on. -/
  two_le : 2≤cluster
  /-- The number does not mark the end of a chain. -/
  lt_eoc : cluster<0x0ffffff8
  /-- All its sectors are on the device. -/
  on_device : volume.dataBeginLba+(cluster-2)*volume.secPerClus+volume.secPerClus≤
    volume.dev.sectors

/-- The clusters are the first ones of the chain that begins with `first`. -/
def Follows : ℕ→List ℕ→Prop
  | _,[] => True
  | first,cluster::rest => first=cluster ∧ DataCluster volume cluster ∧
      Follows (fatEntry volume cluster) rest

/-- The clusters' bytes, one cluster after the other. -/
def chainBytes (clusters : List ℕ) : Memory := fun k =>
  volume.dev.image (clusterStart volume (clusters.getD (k/bytesPerCluster volume) 0)+
    k%bytesPerCluster volume)

/-- The search for a name goes past this entry. -/
def Passed (want : List UInt8) (entry : DirEntShort) : Prop :=
  entry.first≠0 ∧ (entry.isSkipped=true ∨ entry.name≠want)

/-- Entry `i` of the directory in these clusters is the first one of its name. -/
structure Lists (dir : ℕ) (want : List UInt8) (entry : DirEntShort) (clusters : List ℕ) (i : ℕ) :
    Prop where
  /-- The directory's chain. -/
  follows : Follows volume dir clusters
  /-- The chain has no cycle. -/
  nodup : clusters.Nodup
  /-- The entry is in these clusters. -/
  inside : i< clusters.length*entsPerCluster volume
  /-- It is the entry meant. -/
  here : entryAt (chainBytes volume clusters) (sizeofDirEntShort*i)=entry
  /-- It is in use. -/
  used : entry.first≠0 ∧ entry.isSkipped=false
  /-- It has the name. -/
  named : entry.name=want
  /-- No earlier entry ends the directory or has the name. -/
  earlier : ∀ j< i, Passed want (entryAt (chainBytes volume clusters) (sizeofDirEntShort*j))

/-- The directory lists the entry under the name. -/
def Finds (dir : ℕ) (want : List UInt8) (entry : DirEntShort) : Prop :=
  ∃ clusters i,Lists volume dir want entry clusters i

end Volumes

/-- The components, under their 8.3 names, lead to the entry through
directories. -/
inductive Resolves (lookup : ℕ→List UInt8→DirEntShort→Prop) :
    ℕ→List (List UInt8)→DirEntShort→Prop
  /-- The last component. -/
  | last {dir : ℕ} {component : List UInt8} {entry : DirEntShort}
      (found : lookup dir (to8dot3Upper component) entry) : Resolves lookup dir [component] entry
  /-- A directory, and what the other components lead to from there. -/
  | step {dir : ℕ} {component : List UInt8} {rest : List (List UInt8)} {entry final : DirEntShort}
      (found : lookup dir (to8dot3Upper component) entry) (directory : entry.isDirectory=true)
      (below : Resolves lookup entry.firstCluster rest final) :
      Resolves lookup dir (component::rest) final

/-- A component of a path: at most 255 characters, none a separator. -/
structure Component (component : List UInt8) : Prop where
  /-- There is a character. -/
  nonempty : component≠[]
  /-- None separates. -/
  plain : ∀ c∈component,isSeparator c=false
  /-- The length of the longest name. -/
  length_le : component.length≤255

/-- One or more separators. -/
def Gap (gap : List UInt8) : Prop := gap≠[] ∧ ∀ c∈gap,isSeparator c=true

/-- The text is the components with gaps between them. -/
inductive Spells : List UInt8→List (List UInt8)→Prop
  /-- The last component ends the text. -/
  | last {component : List UInt8} (h : Component component) : Spells component [component]
  /-- A component, a gap and the other components. -/
  | step {component gap text : List UInt8} {rest : List (List UInt8)} (h : Component component)
      (between : Gap gap) (below : Spells text rest) :
      Spells (component++(gap++text)) (component::rest)

/-- An absolute path of these components. -/
def Absolute (path : List UInt8) (components : List (List UInt8)) : Prop :=
  ∃ gap text,Gap gap ∧ Spells text components ∧ path=gap++text

section Conditions

variable (volume : Volume)

/-- The sector numbered by the entry's byte offset is on the device. -/
def FatOnDevice (cluster : ℕ) : Prop := cluster*4<volume.dev.sectors

/-- That sector holds, at the entry's place, the value of the entry. -/
def FatMatches (cluster : ℕ) : Prop :=
  FatOnDevice volume cluster ∧
    readLE volume.dev.image (cluster*4*512+cluster*4%512) 4&&&0x0fffffff=fatEntry volume cluster

/-- Entry `i` of a directory is in the first sector of its cluster, and the
links to that cluster are read right. -/
structure EntryReached (clusters : List ℕ) (i : ℕ) : Prop where
  /-- Clusters of one sector, or the first sector of the first cluster. -/
  sector : volume.secPerClus=1 ∨ i<16
  /-- The links the search follows. -/
  links : ∀ j cluster, clusters[j]?=some cluster →
    (j+1)*entsPerCluster volume≤ i → FatMatches volume cluster

/-- The first `n` bytes of a file are in the first sectors of its clusters,
and the links between these clusters are read right. -/
structure BytesReached (clusters : List ℕ) (n : ℕ) : Prop where
  /-- Clusters of one sector, or no more than one sector. -/
  sector : volume.secPerClus=1 ∨ n≤512
  /-- `read_fat` is called after every cluster, also after the last one. -/
  reads : ∀ j cluster, clusters[j]?=some cluster →
    j*bytesPerCluster volume<n → FatOnDevice volume cluster
  /-- The links the copy follows. -/
  links : ∀ j cluster, clusters[j]?=some cluster →
    (j+1)*bytesPerCluster volume<n → FatMatches volume cluster

/-- The directory lists the entry where the driver sees it. -/
def FindsReached (dir : ℕ) (want : List UInt8) (entry : DirEntShort) : Prop :=
  ∃ clusters i,Lists volume dir want entry clusters i ∧ EntryReached volume clusters i

end Conditions

/-- Volumes with sectors of 512 bytes and at least one sector in a cluster. -/
structure Geometry (volume : Volume) : Prop where
  /-- Bytes of a sector. -/
  sector : volume.bytesPerSec=512
  /-- Sectors of a cluster. -/
  cluster : 1≤volume.secPerClus

section Reads

variable {volume : Volume}

theorem Geometry.bytesPerCluster_eq (hg : Geometry volume) :
    bytesPerCluster volume=volume.secPerClus*512 := by
  rw [bytesPerCluster,hg.sector]

theorem Geometry.entsPerCluster_eq (hg : Geometry volume) :
    entsPerCluster volume=volume.secPerClus*16 := by
  rw [entsPerCluster,hg.sector,sizeofDirEntShort]
  omega

/-- A sector on the device is read into the buffer. -/
theorem read_sector (device : BlockDevice) {lba : ℕ} (h : lba<device.sectors) (buffer : Memory) :
    device.read lba 512 buffer=.ok (copy buffer 0 device.image (lba*512) 512) := by
  rw [BlockDevice.read,if_neg (by decide),if_neg (by omega)]

/-- A data cluster is neither free nor an end mark. -/
theorem DataCluster.goes_on {cluster : ℕ} (h : DataCluster volume cluster) :
    ¬(isEoc cluster=true ∨ isFree cluster=true) := by
  have htwo := h.two_le
  have heoc := h.lt_eoc
  simp only [isEoc,isFree,decide_eq_true_eq]
  omega

/-- `read_cluster` fills the buffer with one sector, the first of a cluster that
is on the device. -/
theorem readCluster_first (hsec : volume.bytesPerSec=512) {cluster : ℕ} (htwo : 2≤cluster)
    (hword : cluster<2^32) (hon : volume.dataBeginLba+(cluster-2)*volume.secPerClus<volume.dev.sectors)
    (buffer : Memory) : readCluster volume cluster buffer=
      .ok (copy buffer 0 volume.dev.image (clusterStart volume cluster) 512) := by
  have hsize := volume.dev.sectors_lt
  have hindex : (cluster+2^32-2)%2^32=cluster-2 := by omega
  rw [readCluster,hindex,hsec,u64_of_lt (by omega),read_sector _ hon,clusterStart]

/-- `read_cluster` fills the buffer with the first sector of the cluster. -/
theorem readCluster_eq (hg : Geometry volume) {cluster : ℕ} (h : DataCluster volume cluster)
    (buffer : Memory) : readCluster volume cluster buffer=
      .ok (copy buffer 0 volume.dev.image (clusterStart volume cluster) 512) := by
  have heoc := h.lt_eoc
  have hon := h.on_device
  have hone := hg.cluster
  exact readCluster_first hg.sector h.two_le (by omega) (by omega) buffer

/-- `read_fat` returns what the sector numbered by the byte offset holds. -/
theorem readFat_sector (hsec : volume.bytesPerSec=512) {cluster : ℕ}
    (h : FatOnDevice volume cluster) : readFat volume cluster=
      .ok (readLE volume.dev.image (cluster*4*512+cluster*4%512) 4&&&0x0fffffff) := by
  have hread : readLE (copy (fun _ => 0) 0 volume.dev.image (cluster*4*512) 512) (cluster*4%512) 4=
      readLE volume.dev.image (cluster*4*512+cluster*4%512) 4 := by
    refine readLE_relocated (fun k hk => ?_)
    rw [copy_inside _ _ (by omega) (by omega),Nat.sub_zero,Nat.add_assoc]
  rw [readFat,hsec,read_sector _ h]
  simp only [hread]

/-- The same, of the volumes read here. -/
theorem readFat_eq (hg : Geometry volume) {cluster : ℕ} (h : FatOnDevice volume cluster) :
    readFat volume cluster=
      .ok (readLE volume.dev.image (cluster*4*512+cluster*4%512) 4&&&0x0fffffff) :=
  readFat_sector hg.sector h

/-- Where the sector matches, `read_fat` returns the FAT entry. -/
theorem readFat_matches (hg : Geometry volume) {cluster : ℕ} (h : FatMatches volume cluster) :
    readFat volume cluster=.ok (fatEntry volume cluster) := by
  rw [readFat_eq hg h.1,h.2]

/-- An entry is read from 32 bytes. -/
theorem entryAt_relocated {first second : Memory} {source target : ℕ}
    (h : ∀ k<sizeofDirEntShort, second (target+k)=first (source+k)) :
    entryAt second target=entryAt first source := by
  have hword : ∀ offset count, offset+count≤ sizeofDirEntShort →
      readLE second (target+offset) count=readLE first (source+offset) count := by
    intro offset count hle
    refine readLE_relocated (fun k hk => ?_)
    rw [Nat.add_assoc,Nat.add_assoc]
    exact h (offset+k) (by omega)
  have hname : (List.range 11).map (fun i => second (target+i))=
      (List.range 11).map (fun i => first (source+i)) := by
    refine List.map_congr_left (fun i hi => h i ?_)
    have hlt := List.mem_range.mp hi
    unfold sizeofDirEntShort
    omega
  unfold entryAt
  rw [hname,hword 11 1 (by decide),hword 20 2 (by decide),hword 26 2 (by decide),
    hword 28 4 (by decide)]

end Reads

section Search

variable {volume : Volume} {want : List UInt8} {entry : DirEntShort}

theorem Geometry.bytesPerCluster_pos (hg : Geometry volume) : 0<bytesPerCluster volume := by
  rw [hg.bytesPerCluster_eq]
  have hone := hg.cluster
  omega

/-- The first cluster's bytes come first. -/
theorem chainBytes_head {cluster k : ℕ} (rest : List ℕ) (h : k<bytesPerCluster volume) :
    chainBytes volume (cluster::rest) k=volume.dev.image (clusterStart volume cluster+k) := by
  rw [chainBytes,Nat.div_eq_of_lt h,Nat.mod_eq_of_lt h,List.getD_cons_zero]

/-- Behind the first cluster's bytes come those of the others. -/
theorem chainBytes_tail (hg : Geometry volume) (cluster : ℕ) (rest : List ℕ) (k : ℕ) :
    chainBytes volume (cluster::rest) (bytesPerCluster volume+k)=chainBytes volume rest k := by
  rw [chainBytes,chainBytes,Nat.add_div_left _ hg.bytesPerCluster_pos,Nat.add_mod_left,
    List.getD_cons_succ]

/-- The scan goes past an entry. -/
theorem scanEntries_pass {buffer : Memory} {i : ℕ} (remaining : ℕ)
    (h : Passed want (entryAt buffer (sizeofDirEntShort*i))) :
    scanEntries buffer want (remaining+1) i=scanEntries buffer want remaining (i+1) := by
  rw [scanEntries]
  simp only [h.1,if_false]
  by_cases hs : (entryAt buffer (sizeofDirEntShort*i)).isSkipped=true
  · rw [if_pos hs]
  · rw [if_neg hs,if_neg (h.2.resolve_left hs)]

/-- The scan stops at the first entry of the name. -/
theorem scanEntries_found {buffer : Memory} {remaining i d : ℕ} (hd : d<remaining)
    (he : entryAt buffer (sizeofDirEntShort*(i+d))=entry)
    (hu : entry.first≠0 ∧ entry.isSkipped=false) (hn : entry.name=want)
    (hp : ∀ j<d, Passed want (entryAt buffer (sizeofDirEntShort*(i+j)))) :
    scanEntries buffer want remaining i=.found entry := by
  induction d generalizing remaining i with
  | zero =>
    obtain ⟨fewer,rfl⟩ := Nat.exists_eq_add_of_lt hd
    rw [Nat.add_zero] at he
    rw [Nat.zero_add,scanEntries]
    simp only [he,hu.1,hu.2,hn,if_false,if_true,Bool.false_eq_true]
  | succ d ih =>
    obtain ⟨fewer,rfl⟩ : ∃ fewer,remaining=fewer+1 := ⟨remaining-1,by omega⟩
    have hfirst : Passed want (entryAt buffer (sizeofDirEntShort*i)) := hp 0 (Nat.succ_pos d)
    rw [scanEntries_pass fewer hfirst]
    refine ih (by omega) (by rw [← he,Nat.add_assoc,Nat.add_comm 1 d]) (fun j hj => ?_)
    have hpass := hp (j+1) (by omega)
    rwa [Nat.add_assoc,Nat.add_comm 1 j]

/-- The scan ends when it goes past every entry. -/
theorem scanEntries_more {buffer : Memory} {remaining i : ℕ}
    (hp : ∀ j<remaining, Passed want (entryAt buffer (sizeofDirEntShort*(i+j)))) :
    scanEntries buffer want remaining i=.more := by
  induction remaining generalizing i with
  | zero => rfl
  | succ remaining ih =>
    have hfirst : Passed want (entryAt buffer (sizeofDirEntShort*i)) :=
      hp 0 (Nat.succ_pos remaining)
    rw [scanEntries_pass remaining hfirst]
    refine ih (fun j hj => ?_)
    have hpass := hp (j+1) (by omega)
    rwa [Nat.add_assoc,Nat.add_comm 1 j]

/-- In the first sector the buffer holds the entries of the directory. -/
theorem entryAt_filled (hg : Geometry volume) {cluster j : ℕ} (rest : List ℕ) (buffer : Memory)
    (hj : j<16) :
    entryAt (copy buffer 0 volume.dev.image (clusterStart volume cluster) 512)
      (sizeofDirEntShort*j)=entryAt (chainBytes volume (cluster::rest)) (sizeofDirEntShort*j) := by
  refine entryAt_relocated (fun k hk => ?_)
  unfold sizeofDirEntShort at hk ⊢
  have hone := hg.cluster
  have hbytes := hg.bytesPerCluster_eq
  rw [copy_inside _ _ (by omega) (by omega),chainBytes_head rest (by omega),Nat.sub_zero]

/-- The entries behind the first cluster are those of the other clusters. -/
theorem entryAt_tail (hg : Geometry volume) (cluster : ℕ) (rest : List ℕ) (j : ℕ) :
    entryAt (chainBytes volume (cluster::rest)) (sizeofDirEntShort*(entsPerCluster volume+j))=
      entryAt (chainBytes volume rest) (sizeofDirEntShort*j) := by
  refine entryAt_relocated (fun k hk => ?_)
  have hplace : sizeofDirEntShort*(entsPerCluster volume+j)+k=
      bytesPerCluster volume+(sizeofDirEntShort*j+k) := by
    rw [hg.entsPerCluster_eq,hg.bytesPerCluster_eq]
    unfold sizeofDirEntShort
    omega
  rw [hplace,chainBytes_tail hg]

/-- A chain without a cycle fits the fuel of the search. -/
theorem Lists.length_le {dir i : ℕ} {clusters : List ℕ} (h : Lists volume dir want entry clusters i) :
    clusters.length≤chainFuel := by
  have hlt : ∀ first list, Follows volume first list → ∀ cluster∈list,cluster<2^28 := by
    intro first list hf
    induction list generalizing first with
    | nil => simp
    | cons head rest ih =>
      obtain ⟨-,hd,hr⟩ := hf
      have heoc := hd.lt_eoc
      exact List.forall_mem_cons.mpr ⟨by omega,ih _ hr⟩
  have hsub : clusters⊆List.range (2^28) :=
    fun cluster hm => List.mem_range.mpr (hlt dir clusters h.follows cluster hm)
  have hle := (List.subperm_of_subset h.nodup hsub).length_le
  rwa [List.length_range] at hle

/-- Dropping the first cluster of a directory, when the entry is behind it. -/
theorem Lists.tail (hg : Geometry volume) {dir cluster i : ℕ} {rest : List ℕ}
    (h : Lists volume dir want entry (cluster::rest) (entsPerCluster volume+i)) :
    Lists volume (fatEntry volume cluster) want entry rest i where
  follows := h.follows.2.2
  nodup := h.nodup.of_cons
  inside := by
    have hin := h.inside
    rw [List.length_cons,Nat.succ_mul] at hin
    omega
  here := (entryAt_tail hg cluster rest i).symm.trans h.here
  used := h.used
  named := h.named
  earlier j hj := by
    rw [← entryAt_tail hg cluster rest j]
    exact h.earlier _ (by omega)

/-- The same for what the driver sees of it. -/
theorem EntryReached.tail {cluster i : ℕ} {rest : List ℕ}
    (h : EntryReached volume (cluster::rest) (entsPerCluster volume+i)) :
    EntryReached volume rest i where
  sector := h.sector.imp_right (by omega)
  links j other hj hle := by
    refine h.links (j+1) other (by rw [List.getElem?_cons_succ,hj]) ?_
    rw [Nat.succ_mul]
    omega

/-- The search finds the entry a directory lists where the driver sees it. -/
theorem findLoop_found (hg : Geometry volume) {clusters : List ℕ} {dir i fuel : ℕ} (buffer : Memory)
    (h : Lists volume dir want entry clusters i) (hr : EntryReached volume clusters i)
    (hf : clusters.length≤fuel) : findLoop volume want fuel dir buffer=some (.ok entry) := by
  induction clusters generalizing dir i fuel buffer with
  | nil =>
    have hin := h.inside
    rw [List.length_nil,Nat.zero_mul] at hin
    omega
  | cons cluster rest ih =>
    obtain ⟨fewer,rfl⟩ : ∃ fewer,fuel=fewer+1 := ⟨fuel-1,by rw [List.length_cons] at hf; omega⟩
    obtain ⟨rfl,hdata,hrest⟩ := h.follows
    have hents := hg.entsPerCluster_eq
    have hone := hg.cluster
    rw [findLoop,if_neg hdata.goes_on,readCluster_eq hg hdata]
    by_cases hi : i< entsPerCluster volume
    · -- the entry is in this cluster, and in its first sector
      have hsector : i<16 := by
        rcases hr.sector with hs|hs
        · rw [hents,hs] at hi
          omega
        · exact hs
      have hscan : scanEntries (copy buffer 0 volume.dev.image (clusterStart volume dir) 512) want
          (entsPerCluster volume) 0=.found entry := by
        refine scanEntries_found hi ?_ h.used h.named (fun j hj => ?_)
        · rw [Nat.zero_add,entryAt_filled hg rest buffer hsector,h.here]
        · rw [Nat.zero_add,entryAt_filled hg rest buffer (by omega)]
          exact h.earlier j hj
      simp only [hscan]
    · -- only clusters of one sector are searched further
      obtain ⟨later,rfl⟩ : ∃ later,i=entsPerCluster volume+later :=
        ⟨i-entsPerCluster volume,by omega⟩
      have hsize : entsPerCluster volume=16 := by
        rcases hr.sector with hs|hs
        · rw [hents,hs]
        · omega
      have hscan : scanEntries (copy buffer 0 volume.dev.image (clusterStart volume dir) 512) want
          (entsPerCluster volume) 0=.more := by
        refine scanEntries_more (fun j hj => ?_)
        rw [Nat.zero_add,entryAt_filled hg rest buffer (by omega)]
        exact h.earlier j (by omega)
      have hlink := hr.links 0 dir rfl (by omega)
      simp only [hscan,readFat_matches hg hlink]
      exact ih _ (h.tail hg) hr.tail (by rw [List.length_cons] at hf; omega)

end Search

section Paths

variable {volume : Volume}

/-- A component is cut off at the text behind it. -/
theorem Component.takeWhile_append {component text : List UInt8} (h : Component component)
    (ht : ∀ c∈text.head?,isSeparator c=true) :
    (component++text).takeWhile (fun c => !isSeparator c)=component ∧
      (component++text).dropWhile (fun c => !isSeparator c)=text := by
  have hall : ∀ c∈component,(!isSeparator c)=true := by
    intro c hm
    rw [h.plain c hm]
    rfl
  rw [List.takeWhile_append_of_pos hall,List.dropWhile_append_of_pos hall]
  cases text with
  | nil => simp
  | cons c rest =>
    have hc : isSeparator c=true := ht c rfl
    rw [List.takeWhile_cons_of_neg (by simp [hc]),List.dropWhile_cons_of_neg (by simp [hc]),
      List.append_nil]
    exact ⟨rfl,rfl⟩

/-- A text of components begins with a character. -/
theorem Spells.head_plain {text : List UInt8} {components : List (List UInt8)}
    (h : Spells text components) : ∃ c rest,text=c::rest ∧ isSeparator c=false := by
  have hfirst : ∀ component tail, Component component →
      ∃ c rest,component++tail=c::rest ∧ isSeparator c=false := by
    intro component tail hc
    cases component with
    | nil => exact absurd rfl hc.nonempty
    | cons c rest => exact ⟨c,rest++tail,rfl,hc.plain c List.mem_cons_self⟩
  cases h with
  | last hc =>
    have hf := hfirst text [] hc
    rwa [List.append_nil] at hf
  | step hc hb below => exact hfirst _ _ hc

/-- Separators in front of a text of components are dropped. -/
theorem Spells.dropWhile_gap {gap text : List UInt8} {components : List (List UInt8)}
    (h : Spells text components) (hg : Gap gap) : (gap++text).dropWhile isSeparator=text := by
  obtain ⟨c,rest,rfl,hc⟩ := h.head_plain
  rw [List.dropWhile_append_of_pos hg.2,List.dropWhile_cons_of_neg (by simp [hc])]

/-- Every buffer the driver asks for is supplied. -/
def Supplied (heap : ℕ→Except Error Memory) : Prop := ∀ asked, ∃ buffer,heap asked=.ok buffer

/-- One component is looked up right. -/
theorem findInDirectory_found (hg : Geometry volume) {heap : ℕ→Except Error Memory}
    (hs : Supplied heap) (asked : ℕ) {dir : ℕ} {want : List UInt8} {entry : DirEntShort}
    (h : FindsReached volume dir want entry) :
    findInDirectory volume (heap asked) dir want=some (.ok entry) := by
  obtain ⟨buffer,hb⟩ := hs asked
  obtain ⟨clusters,i,hl,hr⟩ := h
  simp only [findInDirectory,hb]
  exact findLoop_found hg buffer hl hr hl.length_le

/-- The components of a text lead the driver where they lead. -/
theorem walkLoop_resolves (hg : Geometry volume) {heap : ℕ→Except Error Memory}
    (hs : Supplied heap) {text : List UInt8} {components : List (List UInt8)} {dir fuel asked : ℕ}
    {final : DirEntShort} (ht : Spells text components)
    (h : Resolves (FindsReached volume) dir components final) (hf : text.length≤fuel) :
    ∃ requests,walkLoop volume heap fuel text dir asked=some (.ok (final,requests)) := by
  induction ht generalizing dir fuel asked with
  | @last component hc =>
    have hfound : FindsReached volume dir (to8dot3Upper component) final := by
      cases h with
      | last found => exact found
      | step found directory below => cases below
    obtain ⟨fewer,rfl⟩ : ∃ fewer,fuel=fewer+1 :=
      ⟨fuel-1,by have := List.length_pos_of_ne_nil hc.nonempty; omega⟩
    obtain ⟨htake,hdrop⟩ := @Component.takeWhile_append component [] hc (by simp)
    rw [List.append_nil] at htake hdrop
    have hlen := hc.length_le
    rw [walkLoop]
    simp only [htake,hdrop,findInDirectory_found hg hs asked hfound,if_true]
    rw [if_neg (by omega)]
    exact ⟨asked+1,rfl⟩
  | @step component gap text rest hc hgap below ih =>
    cases h with
    | last found => cases below
    | @step _ _ _ entry _ found directory resolved =>
      have hsep : ∀ x∈(gap++text).head?,isSeparator x=true := by
        intro x hx
        rw [List.head?_append_of_ne_nil gap hgap.1] at hx
        exact hgap.2 x (List.mem_of_mem_head? hx)
      obtain ⟨htake,hdrop⟩ := hc.takeWhile_append hsep
      have hbehind : gap++text≠[] := List.append_ne_nil_of_left_ne_nil hgap.1 text
      have hne : text≠[] := by
        obtain ⟨x,more,rfl,-⟩ := below.head_plain
        exact List.cons_ne_nil x more
      have hgaplen := List.length_pos_of_ne_nil hgap.1
      have hlen := hc.length_le
      rw [List.length_append,List.length_append] at hf
      obtain ⟨fewer,rfl⟩ : ∃ fewer,fuel=fewer+1 := ⟨fuel-1,by omega⟩
      rw [walkLoop]
      simp only [htake,hdrop,findInDirectory_found hg hs asked found,directory,if_true,hbehind,
        below.dropWhile_gap hgap,hne,if_false]
      rw [if_neg (by omega)]
      exact ih resolved (by omega)

end Paths

section Files

variable (volume : Volume)

/-- The path is absolute and leads to the entry. -/
def Names (lookup : ℕ→List UInt8→DirEntShort→Prop) (path : List UInt8) (entry : DirEntShort) :
    Prop :=
  ∃ components,Absolute path components ∧ Resolves lookup volume.rootCluster components entry

/-- A regular file of a mounted volume, with clusters of its chain that hold
all of it. -/
structure FileOn (path : List UInt8) (entry : DirEntShort) (clusters : List ℕ) : Prop where
  /-- The volume was mounted. -/
  mounted : ∃ device partition,mount device partition=.ok volume
  /-- Sectors of 512 bytes. -/
  geometry : Geometry volume
  /-- The path leads to the file. -/
  named : Names volume (Finds volume) path entry
  /-- It is not a directory. -/
  regular : entry.isDirectory=false
  /-- Its chain. -/
  follows : Follows volume entry.firstCluster clusters
  /-- The chain has no cycle. -/
  nodup : clusters.Nodup
  /-- The chain is long enough. -/
  long : entry.fileSize≤clusters.length*bytesPerCluster volume

/-- `read_file` returns `n` and the first `n` bytes of the chain, and writes
nothing behind them. -/
def Reads (heap : ℕ→Except Error Memory) (path : List UInt8) (out : Memory) (maxBytes : ℕ)
    (clusters : List ℕ) (n : ℕ) : Prop :=
  ∃ after,readFile volume heap path out maxBytes=some (.ok n,after) ∧
    (∀ k<n, after k=chainBytes volume clusters k) ∧ ∀ k, n≤k → after k=out k

end Files

section Copies

variable {volume : Volume}

/-- Dropping the first cluster of a file, once its bytes are copied. -/
theorem BytesReached.tail {cluster n : ℕ} {rest : List ℕ}
    (h : BytesReached volume (cluster::rest) (bytesPerCluster volume+n)) :
    BytesReached volume rest n where
  sector := h.sector.imp_right (by omega)
  reads j other hj hlt := by
    refine h.reads (j+1) other (by rw [List.getElem?_cons_succ,hj]) ?_
    rw [Nat.succ_mul]
    omega
  links j other hj hlt := by
    refine h.links (j+1) other (by rw [List.getElem?_cons_succ,hj]) ?_
    rw [Nat.succ_mul]
    omega

/-- The bytes one iteration copies are those of the cluster. -/
theorem written_eq (hg : Geometry volume) {cluster n copied k : ℕ} (rest : List ℕ)
    (buffer out : Memory) (hk : k<n) (hn : n≤512) :
    copy out copied (copy buffer 0 volume.dev.image (clusterStart volume cluster) 512) 0 n
      (copied+k)=chainBytes volume (cluster::rest) k := by
  have hone := hg.cluster
  have hbytes := hg.bytesPerCluster_eq
  rw [copy_inside _ _ (by omega) (by omega),copy_inside _ _ (by omega) (by omega),
    chainBytes_head rest (by omega)]
  congr 1
  omega

/-- With nothing to read the copy loop returns. -/
theorem copyLoop_zero (fuel cl copied : ℕ) (buffer out : Memory) :
    copyLoop volume (fuel+1) 0 cl copied buffer out=some (.ok copied,out) := by
  rw [copyLoop,if_pos (Or.inl rfl)]

/-- After a cluster, or what is left to read of it, it goes on with the next
one. -/
theorem copyLoop_goes {toRead cl next : ℕ} {buffer filled : Memory} (fuel copied : ℕ)
    (out : Memory) (hgo : ¬(toRead=0 ∨ isEoc cl ∨ isFree cl))
    (hcluster : readCluster volume cl buffer=.ok filled) (hfat : readFat volume cl=.ok next) :
    copyLoop volume (fuel+1) toRead cl copied buffer out=
      copyLoop volume fuel (toRead-min toRead (bytesPerCluster volume)) next
        (copied+min toRead (bytesPerCluster volume)) filled
        (copy out copied filled 0 (min toRead (bytesPerCluster volume))) := by
  have hn : (if toRead<bytesPerCluster volume then toRead else bytesPerCluster volume)=
      min toRead (bytesPerCluster volume) := by
    split <;> omega
  rw [copyLoop,if_neg hgo,hcluster]
  dsimp only
  rw [hn,hfat]

/-- The copy loop transfers the bytes of the clusters. -/
theorem copyLoop_copies (hg : Geometry volume) {clusters : List ℕ} {first toRead copied fuel : ℕ}
    (buffer out : Memory) (hc : Follows volume first clusters)
    (hl : toRead≤clusters.length*bytesPerCluster volume)
    (hr : BytesReached volume clusters toRead) (hf : toRead<fuel) :
    ∃ after,copyLoop volume fuel toRead first copied buffer out=some (.ok (copied+toRead),after) ∧
      (∀ k<toRead, after (copied+k)=chainBytes volume clusters k) ∧
      ∀ x, (x<copied ∨ copied+toRead≤x) → after x=out x := by
  obtain ⟨fewer,rfl⟩ : ∃ fewer,fuel=fewer+1 := ⟨fuel-1,by omega⟩
  induction clusters generalizing first toRead copied fewer buffer out with
  | nil =>
    rw [List.length_nil,Nat.zero_mul,Nat.le_zero] at hl
    subst hl
    exact ⟨out,copyLoop_zero _ _ _ _ _,by simp,fun x _ => rfl⟩
  | cons cluster rest ih =>
    by_cases hz : toRead=0
    · subst hz
      exact ⟨out,copyLoop_zero _ _ _ _ _,by simp,fun x _ => rfl⟩
    obtain ⟨rfl,hdata,hrest⟩ := hc
    have hbytes := hg.bytesPerCluster_eq
    have hone := hg.cluster
    obtain ⟨less,rfl⟩ : ∃ less,fewer=less+1 := ⟨fewer-1,by omega⟩
    have hgo : ¬(toRead=0 ∨ isEoc first ∨ isFree first) := not_or.mpr ⟨hz,hdata.goes_on⟩
    by_cases hlast : toRead≤bytesPerCluster volume
    · -- the last cluster: `read_fat` need only return
      have hsector : toRead≤512 := by
        rcases hr.sector with hs|hs
        · rw [hbytes,hs] at hlast
          omega
        · exact hs
      have hfat := readFat_eq hg (hr.reads 0 first rfl (by omega))
      rw [copyLoop_goes _ _ _ hgo (readCluster_eq hg hdata _) hfat,Nat.min_eq_left hlast,Nat.sub_self,
        copyLoop_zero]
      exact ⟨_,rfl,fun k hk => written_eq hg rest buffer out hk hsector,
        fun x hx => copy_outside out _ hx⟩
    · -- a further cluster follows, so clusters are one sector
      obtain ⟨left,rfl⟩ : ∃ left,toRead=bytesPerCluster volume+left :=
        ⟨toRead-bytesPerCluster volume,by omega⟩
      have hsize : bytesPerCluster volume=512 := by
        rcases hr.sector with hs|hs
        · rw [hbytes,hs]
        · omega
      have hfat := readFat_matches hg (hr.links 0 first rfl (by omega))
      rw [copyLoop_goes _ _ _ hgo (readCluster_eq hg hdata _) hfat,
        Nat.min_eq_right (Nat.le_add_right _ _),Nat.add_sub_cancel_left]
      have hleft : left≤rest.length*bytesPerCluster volume := by
        rw [List.length_cons,Nat.succ_mul] at hl
        omega
      obtain ⟨after,ha,hin,hout⟩ := ih _ _ hrest hleft hr.tail less (by omega)
      refine ⟨after,by rw [ha,Nat.add_assoc],fun k hk => ?_,fun x hx => ?_⟩
      · by_cases hk' : k<bytesPerCluster volume
        · rw [hout _ (by omega)]
          exact written_eq hg rest buffer out hk' (by omega)
        · obtain ⟨later,rfl⟩ : ∃ later,k=bytesPerCluster volume+later :=
            ⟨k-bytesPerCluster volume,by omega⟩
          rw [chainBytes_tail hg,← hin later (by omega),Nat.add_assoc]
      · rw [hout x (by omega)]
        exact copy_outside out _ (by omega)

end Copies

/-- What the driver has to get right about a file: the path, and the first `n`
bytes. -/
structure Reached (volume : Volume) (path : List UInt8) (entry : DirEntShort) (clusters : List ℕ)
    (n : ℕ) : Prop where
  /-- Every component of the path is listed where the driver sees it. -/
  path : Names volume (FindsReached volume) path entry
  /-- So are the bytes. -/
  bytes : BytesReached volume clusters n

/-- `walk_path` returns the entry a path leads to. -/
theorem walkPath_names {volume : Volume} (hg : Geometry volume) {heap : ℕ→Except Error Memory}
    (hs : Supplied heap) {path : List UInt8} {entry : DirEntShort}
    (h : Names volume (FindsReached volume) path entry) :
    ∃ requests,walkPath volume heap path=some (.ok (entry,requests)) := by
  obtain ⟨components,⟨gap,text,hgap,hspells,rfl⟩,hres⟩ := h
  have hne : gap++text≠[] := List.append_ne_nil_of_left_ne_nil hgap.1 text
  have htext : text≠[] := by
    obtain ⟨x,more,rfl,-⟩ := hspells.head_plain
    exact List.cons_ne_nil x more
  rw [walkPath]
  simp only [hne,hspells.dropWhile_gap hgap,htext,if_false]
  exact walkLoop_resolves hg hs hspells hres (Nat.le_refl _)

/-- `read_file` returns the file when the bytes it uses are in the first
sectors of their clusters and the sectors it takes for the FAT hold the
entries it follows. -/
theorem readFile_reads {volume : Volume} {path : List UInt8} {entry : DirEntShort}
    {clusters : List ℕ} (hfile : FileOn volume path entry clusters)
    {heap : ℕ→Except Error Memory} (hs : Supplied heap) (out : Memory) (maxBytes : ℕ)
    (hr : Reached volume path entry clusters (min maxBytes entry.fileSize)) :
    Reads volume heap path out maxBytes clusters (min maxBytes entry.fileSize) := by
  obtain ⟨requests,hwalk⟩ := walkPath_names hfile.geometry hs hr.path
  obtain ⟨buffer,hbuffer⟩ := hs requests
  unfold Reads
  rw [readFile,hwalk]
  simp only [hfile.regular,Bool.false_eq_true,if_false]
  by_cases hz : entry.fileSize=0
  · rw [if_pos hz,hz,Nat.min_zero]
    exact ⟨out,rfl,by simp,fun k _ => rfl⟩
  · have hn : (if maxBytes<entry.fileSize then maxBytes else entry.fileSize)=
        min maxBytes entry.fileSize := by
      split <;> omega
    have hl : min maxBytes entry.fileSize≤clusters.length*bytesPerCluster volume :=
      (Nat.min_le_right _ _).trans hfile.long
    obtain ⟨after,ha,hin,hout⟩ := @copyLoop_copies volume hfile.geometry clusters
      entry.firstCluster _ 0 _ buffer out hfile.follows hl hr.bytes (Nat.lt_succ_self _)
    rw [if_neg hz,hn]
    simp only [hbuffer,ha,Nat.zero_add] at hin hout ⊢
    exact ⟨after,rfl,hin,fun k hk => hout k (Or.inr hk)⟩

/-- The bytes of a small volume other than zeros: a boot sector, one FAT sector
in which cluster 3 leads to 4, and a root directory with one file. -/
def sampleBytes : List (ℕ×UInt8) :=
  [(12,2),(13,1),(14,1),(16,1),(36,1),(44,2),(510,0x55),(511,0xaa),
    (520,0xff),(521,0xff),(522,0xff),(523,0x0f),(524,4),
    (528,0xff),(529,0xff),(530,0xff),(531,0x0f),
    (1024,65),(1025,32),(1026,32),(1027,32),(1028,32),(1029,32),(1030,32),(1031,32),
    (1032,84),(1033,88),(1034,84),(1035,0x20),(1050,3),(1053,4)]

/-- The volume on a device of 64 sectors. -/
def sampleDevice : BlockDevice where
  image x := (sampleBytes.lookup x).getD 0
  sectors := 64
  sectors_lt := by decide

/-- The driver's fields for it. -/
def sampleVolume : Volume where
  dev := sampleDevice
  partLba := 0
  bytesPerSec := 512
  secPerClus := 1
  reservedSec := 1
  numFats := 1
  sectorsPerFat := 1
  rootCluster := 2
  fatBeginLba := 1
  dataBeginLba := 2

/-- Its file: two clusters. -/
def sampleEntry : DirEntShort where
  name := [65,32,32,32,32,32,32,32,84,88,84]
  attr := 0x20
  fstClusHI := 0
  fstClusLO := 3
  fileSize := 1024

/-- The path of the file, `/a.txt`. -/
def samplePath : List UInt8 := [47,97,46,116,120,116]

/-- The boot sector as `mount` sees it. -/
def sampleSector : Memory := copy (fun _ => 0) 0 sampleDevice.image (0*512) 512

theorem sample_mounted : mount sampleDevice 0=.ok sampleVolume := by
  have hread : sampleDevice.read 0 512 (fun _ => 0)=.ok sampleSector :=
    read_sector sampleDevice (by decide) _
  have hsignature : readLE sampleSector 510 2=0xaa55 := by decide +kernel
  have hbytes : readLE sampleSector 11 2=512 := by decide +kernel
  have hcluster : readLE sampleSector 13 1=1 := by decide +kernel
  have hreserved : readLE sampleSector 14 2=1 := by decide +kernel
  have hfats : readLE sampleSector 16 1=1 := by decide +kernel
  have hfat : readLE sampleSector 36 4=1 := by decide +kernel
  have hroot : readLE sampleSector 44 4=2 := by decide +kernel
  have hbegin : u64 (0+1)=1 := by decide
  have hdata : u64 (1+1*1)=2 := by decide
  rw [mount,hread]
  simp only [hsignature,hbytes,hcluster,hreserved,hfats,hfat,hroot,hbegin,hdata,ne_eq,
    not_true_eq_false,if_false]
  rfl

/-- The sample's directory, and what the driver sees of it. -/
theorem sample_lists : Lists sampleVolume 2 (to8dot3Upper [97,46,116,120,116]) sampleEntry [2] 0 where
  follows := ⟨rfl,⟨by decide,by decide,by decide⟩,trivial⟩
  nodup := by simp
  inside := by decide
  here := by decide +kernel
  used := by decide
  named := by decide
  earlier j hj := absurd hj (Nat.not_lt_zero j)

theorem sample_entryReached : EntryReached sampleVolume [2] 0 where
  sector := Or.inl rfl
  links j cluster _ hle := by
    have hents : entsPerCluster sampleVolume=16 := by decide
    rw [hents] at hle
    omega

theorem sample_absolute : Absolute samplePath [[97,46,116,120,116]] :=
  ⟨[47],[97,46,116,120,116],⟨by simp,by decide +kernel⟩,.last ⟨by simp,by decide +kernel,by decide⟩,rfl⟩

theorem sample_file : FileOn sampleVolume samplePath sampleEntry [3,4] where
  mounted := ⟨sampleDevice,0,sample_mounted⟩
  geometry := ⟨rfl,by decide⟩
  named := ⟨_,sample_absolute,.last ⟨_,_,sample_lists⟩⟩
  regular := by decide
  follows := ⟨by decide,⟨by decide,by decide,by decide⟩,by decide +kernel,
    ⟨by decide,by decide,by decide⟩,trivial⟩
  nodup := by simp
  long := by decide

/-- A request for the first bytes of the sample file stays in one sector. -/
theorem readFile_reads_sample : Reads sampleVolume (fun _ => .ok (fun _ => 0)) samplePath
    (fun _ => 7) 100 [3,4] (min 100 sampleEntry.fileSize) := by
  refine readFile_reads sample_file (fun _ => ⟨_,rfl⟩) (fun _ => 7) 100 ⟨?_,?_⟩
  · exact ⟨_,sample_absolute,.last ⟨_,_,sample_lists,sample_entryReached⟩⟩
  · have hbytes : bytesPerCluster sampleVolume=512 := by decide
    have hn : min 100 sampleEntry.fileSize=100 := by decide
    rw [hn]
    refine ⟨Or.inl rfl,fun j cluster hj hlt => ?_,fun j cluster hj hlt => ?_⟩
    · rw [hbytes] at hlt
      have hzero : j=0 := by omega
      subst hzero
      cases hj
      unfold FatOnDevice
      decide
    · rw [hbytes] at hlt
      omega

/-- A file of two clusters is cut off behind the first one: the sector taken
for the FAT is empty. -/
theorem readFile_not_always_reads : ¬∀ (volume : Volume) (path : List UInt8) (entry : DirEntShort)
    (clusters : List ℕ) (heap : ℕ→Except Error Memory) (out : Memory) (maxBytes : ℕ),
    FileOn volume path entry clusters → Supplied heap → maxBytes<2^32 →
      Reads volume heap path out maxBytes clusters (min maxBytes entry.fileSize) := by
  intro hall
  obtain ⟨after,ha,-⟩ := hall sampleVolume samplePath sampleEntry [3,4] (fun _ => .ok (fun _ => 0))
    (fun _ => 7) 2000 sample_file (fun _ => ⟨_,rfl⟩) (by decide)
  have hcut : (readFile sampleVolume (fun _ => .ok (fun _ => 0)) samplePath (fun _ => 7) 2000).map
      (fun answer => answer.1.toOption)=some (some 512) := by decide +kernel
  have hn : min 2000 sampleEntry.fileSize=1024 := by decide
  rw [ha,hn] at hcut
  simp [Except.toOption] at hcut

end WorkbenchOS.FatFiles
