import WorkbenchOS.FatFiles

/-!
# Sectors of a FAT32 volume

Which sectors `read_fat` and `read_cluster` ask the device for. `read_fat`
passes the byte offset of an entry as the number of a sector, and counts
neither from the partition nor from the FAT; `read_cluster` asks for one
sector, whatever the size of a cluster. Both are right for every content of
the device only where these numbers coincide.
-/

namespace WorkbenchOS.FatSectors

open ByteMemory LibStd Fat32 FatFiles

section Mount

/-- The boot sector of a partition, as `mount` sees it. -/
def bootSector (device : BlockDevice) (partition : ℕ) : Memory :=
  copy (fun _ => 0) 0 device.image (partition*512) 512

/-- The volume has the device, and its numbers from the boot sector. -/
structure Mounted (device : BlockDevice) (partition : ℕ) (volume : Volume) : Prop where
  /-- The boot sector is there. -/
  on_device : partition<device.sectors
  /-- It ends with the signature. -/
  signature : readLE (bootSector device partition) 510 2=0xaa55
  /-- `m_dev`. -/
  dev : volume.dev=device
  /-- `m_part_lba`. -/
  partLba : volume.partLba=partition
  /-- `BytsPerSec`. -/
  bytesPerSec : readLE (bootSector device partition) 11 2=volume.bytesPerSec
  /-- `SecPerClus`. -/
  secPerClus : readLE (bootSector device partition) 13 1=volume.secPerClus
  /-- `RsvdSecCnt`. -/
  reservedSec : readLE (bootSector device partition) 14 2=volume.reservedSec
  /-- `NumFATs`. -/
  numFats : readLE (bootSector device partition) 16 1=volume.numFats
  /-- `FATSz32`. -/
  sectorsPerFat : readLE (bootSector device partition) 36 4=volume.sectorsPerFat
  /-- `RootClus`. -/
  rootCluster : readLE (bootSector device partition) 44 4=volume.rootCluster
  /-- `m_fat_begin_lba`. -/
  fatBeginLba : u64 (partition+volume.reservedSec)=volume.fatBeginLba
  /-- `m_data_begin_lba`. -/
  dataBeginLba : u64 (volume.fatBeginLba+volume.numFats*volume.sectorsPerFat)=volume.dataBeginLba

/-- `mount` takes every field from the boot sector, and checks none but the
signature. -/
theorem mount_iff {device : BlockDevice} {partition : ℕ} {volume : Volume} :
    mount device partition=.ok volume ↔ Mounted device partition volume := by
  by_cases hon : partition<device.sectors
  · have hread : device.read partition 512 (fun _ => 0)=.ok (bootSector device partition) :=
      read_sector device hon _
    rw [mount,hread]
    dsimp only
    by_cases hsignature : readLE (bootSector device partition) 510 2=0xaa55
    · rw [if_neg (not_not.mpr hsignature),Except.ok.injEq]
      refine ⟨fun h => ?_,fun h => ?_⟩
      · rw [← h]
        exact ⟨hon,hsignature,rfl,rfl,rfl,rfl,rfl,rfl,rfl,rfl,rfl,rfl⟩
      · obtain ⟨-,-,rfl,rfl,hbytes,hcluster,hreserved,hfats,hfat,hroot,hbegin,hdata⟩ := h
        simp only [hbytes,hcluster,hreserved,hfats,hfat,hroot,hbegin,hdata]
    · rw [if_pos hsignature]
      exact ⟨(fun h => by cases h),fun h => absurd h.signature hsignature⟩
  · have hread : device.read partition 512 (fun _ => 0)=.error (.fromCode 1) := by
      rw [BlockDevice.read,if_neg (by decide),if_pos (by omega)]
    rw [mount,hread]
    exact ⟨(fun h => by cases h),fun h => absurd h.on_device hon⟩

end Mount

section Fat

/-- The volume with other bytes on its device. -/
def withImage (volume : Volume) (image : Memory) : Volume :=
  {volume with dev := {volume.dev with image := image}}

/-- The images differ in the first FAT at most. -/
def SameOutsideFat (volume : Volume) (image : Memory) : Prop :=
  ∀ x, (x<volume.fatBeginLba*512 ∨ (volume.fatBeginLba+volume.sectorsPerFat)*512≤x) →
    image x=volume.dev.image x

/-- The sector numbered by the byte offset of the entry is the sector of the
FAT that holds the entry. -/
def FatPlaced (volume : Volume) (cluster : ℕ) : Prop :=
  FatOnDevice volume cluster ∧ cluster*4=volume.fatBeginLba+cluster/128

variable {volume : Volume} {cluster : ℕ}

/-- `read_fat` fails where the byte offset is no sector of the device. -/
theorem readFat_off_device (hsec : volume.bytesPerSec=512) (h : ¬FatOnDevice volume cluster) :
    readFat volume cluster=.error (.fromCode 1) := by
  unfold FatOnDevice at h
  have hread : volume.dev.read (cluster*4) 512 (fun _ => 0)=.error (.fromCode 1) := by
    rw [BlockDevice.read,if_neg (by decide),if_pos (by omega)]
  rw [readFat,hsec,hread]

/-- `read_fat` returns the entry exactly where the sector taken for the FAT
holds the same value at the same place. -/
theorem readFat_eq_fatEntry (hsec : volume.bytesPerSec=512) :
    readFat volume cluster=.ok (fatEntry volume cluster) ↔ FatMatches volume cluster := by
  by_cases hon : FatOnDevice volume cluster
  · rw [readFat_sector hsec hon,FatMatches,Except.ok.injEq]
    exact ⟨fun h => ⟨hon,h⟩,fun h => h.2⟩
  · rw [readFat_off_device hsec hon,FatMatches]
    exact ⟨(fun h => by cases h),fun h => absurd h.1 hon⟩

/-- The low byte survives the mask of `read_fat`. -/
theorem mask_low (value : ℕ) : (value&&&0x0fffffff)%256=value%256 := by
  have hmask : (0x0fffffff : ℕ)=2^28-1 := by norm_num
  rw [hmask,Nat.and_two_pow_sub_one_eq_mod]
  omega

/-- The low byte of a word is its first byte. -/
theorem readLE_low (memory : Memory) (address : ℕ) :
    readLE memory address 4%256=(memory address).toNat := by
  have hbyte := UInt8.toNat_lt (memory address)
  rw [readLE]
  omega

/-- A FAT that holds another value than the sector taken for it. -/
theorem exists_misread (hsec : volume.bytesPerSec=512) (hc : cluster<128*volume.sectorsPerFat)
    (hplace : cluster*4≠volume.fatBeginLba+cluster/128) :
    ∃ image,SameOutsideFat volume image ∧
      readFat (withImage volume image) cluster≠.ok (fatEntry (withImage volume image) cluster) := by
  -- one byte is changed, to the successor of the byte `read_fat` sees in its place
  have hentry : volume.fatBeginLba*512+4*cluster<(volume.fatBeginLba+volume.sectorsPerFat)*512 := by
    omega
  obtain ⟨image,himage⟩ : ∃ image,image=Function.update volume.dev.image
    (volume.fatBeginLba*512+4*cluster) (volume.dev.image (cluster*4*512+cluster*4%512)+1) := ⟨_,rfl⟩
  have hother : ∀ x, x≠volume.fatBeginLba*512+4*cluster → image x=volume.dev.image x := by
    intro x hx
    rw [himage,Function.update_of_ne hx]
  have hhere : image (volume.fatBeginLba*512+4*cluster)=
      volume.dev.image (cluster*4*512+cluster*4%512)+1 := by rw [himage,Function.update_self]
  refine ⟨image,fun x hx => hother x (by omega),fun hread => ?_⟩
  have hmatch := ((@readFat_eq_fatEntry (withImage volume image) cluster hsec).mp hread).2
  have hlow := congrArg (fun value => value%256) hmatch
  simp only [fatEntry,withImage,mask_low,readLE_low] at hlow
  rw [hother _ (by omega),hhere,UInt8.toNat_add] at hlow
  have hbyte := UInt8.toNat_lt (volume.dev.image (cluster*4*512+cluster*4%512))
  simp only [UInt8.reduceToNat] at hlow
  omega

/-- Where the sectors coincide, `read_fat` returns the entry. -/
theorem FatPlaced.matches (h : FatPlaced volume cluster) : FatMatches volume cluster := by
  refine ⟨h.1,?_⟩
  have hsame : cluster*4*512+cluster*4%512=volume.fatBeginLba*512+4*cluster := by
    have hplace := h.2
    omega
  rw [fatEntry,hsame]

/-- `read_fat` returns the FAT entry of a cluster exactly when the sector whose
number is the entry's byte offset holds that value; whatever the FAT contains,
exactly when that sector is the one with the entry. -/
theorem readFat_entry_iff (hsec : volume.bytesPerSec=512)
    (hc : cluster<128*volume.sectorsPerFat) :
    (readFat volume cluster=.ok (fatEntry volume cluster) ↔ FatMatches volume cluster) ∧
      ((∀ image, SameOutsideFat volume image →
        readFat (withImage volume image) cluster=.ok (fatEntry (withImage volume image) cluster)) ↔
          FatPlaced volume cluster) := by
  refine ⟨readFat_eq_fatEntry hsec,fun hall => ⟨?_,?_⟩,fun hplaced image _ => ?_⟩
  · exact ((readFat_eq_fatEntry hsec).mp (hall volume.dev.image (fun _ _ => rfl))).1
  · by_contra hplace
    obtain ⟨image,hsame,hwrong⟩ := exists_misread hsec hc hplace
    exact hwrong (hall image hsame)
  · refine (@readFat_eq_fatEntry (withImage volume image) cluster hsec).mpr ?_
    exact @FatPlaced.matches (withImage volume image) cluster hplaced

/-- The sample volume's entry of cluster 5 is read, though from another sector. -/
theorem readFat_entry_iff_sample :
    (readFat sampleVolume 5=.ok (fatEntry sampleVolume 5) ↔ FatMatches sampleVolume 5) ∧
      ((∀ image, SameOutsideFat sampleVolume image →
        readFat (withImage sampleVolume image) 5=.ok (fatEntry (withImage sampleVolume image) 5)) ↔
          FatPlaced sampleVolume 5) :=
  readFat_entry_iff rfl (by decide)

/-- Cluster 3 of the sample volume leads to cluster 4, and is read as free. -/
theorem readFat_not_always_entry : ¬∀ (volume : Volume) (cluster : ℕ),
    (∃ device partition,mount device partition=.ok volume) → volume.bytesPerSec=512 →
      cluster<128*volume.sectorsPerFat →
        readFat volume cluster=.ok (fatEntry volume cluster) := by
  intro hall
  have hread := hall sampleVolume 3 ⟨sampleDevice,0,sample_mounted⟩ rfl (by decide)
  have hmatch := ((readFat_eq_fatEntry rfl).mp hread).2
  exact absurd hmatch (by decide +kernel)

end Fat

section Clusters

/-- A cluster with all its sectors on the device. -/
structure ClusterOnDevice (volume : Volume) (cluster : ℕ) : Prop where
  /-- Clusters are numbered from 2 on. -/
  two_le : 2≤cluster
  /-- Cluster numbers are 32-bit values. -/
  lt_word : cluster<2^32
  /-- The end of the cluster is on the device. -/
  on_device : volume.dataBeginLba+(cluster-2)*volume.secPerClus+volume.secPerClus≤
    volume.dev.sectors

/-- The buffer holds the whole cluster. -/
def HoldsCluster (volume : Volume) (cluster : ℕ) (buffer : Memory) : Prop :=
  ∀ k<bytesPerCluster volume, buffer k=volume.dev.image (clusterStart volume cluster+k)

/-- The buffer holds the cluster behind its first sector. -/
def HoldsRest (volume : Volume) (cluster : ℕ) (buffer : Memory) : Prop :=
  ∀ k, 512≤k → k<bytesPerCluster volume →
    buffer k=volume.dev.image (clusterStart volume cluster+k)

variable {volume : Volume} {cluster : ℕ}

/-- The first sector of the cluster is on the device. -/
theorem ClusterOnDevice.readCluster_eq (hsec : volume.bytesPerSec=512) (hone : volume.secPerClus≠0)
    (h : ClusterOnDevice volume cluster) (buffer : Memory) :
    readCluster volume cluster buffer=
      .ok (copy buffer 0 volume.dev.image (clusterStart volume cluster) 512) := by
  have hon := h.on_device
  exact readCluster_first hsec h.two_le h.lt_word (by omega) buffer

/-- What `read_cluster` leaves in the buffer is the cluster exactly when the
buffer held the rest of it before. -/
theorem holdsCluster_copied_iff (hsec : volume.bytesPerSec=512) (hone : volume.secPerClus≠0)
    (buffer : Memory) :
    HoldsCluster volume cluster (copy buffer 0 volume.dev.image (clusterStart volume cluster) 512) ↔
      HoldsRest volume cluster buffer := by
  have hbytes : 512≤bytesPerCluster volume := by
    have hle := Nat.le_mul_of_pos_left 512 (Nat.pos_of_ne_zero hone)
    rwa [bytesPerCluster,hsec]
  refine ⟨fun h k hlow hk => ?_,fun h k hk => ?_⟩
  · rw [← h k hk,copy_outside _ _ (by omega)]
  · by_cases hlow : k<512
    · rw [copy_inside _ _ (by omega) (by omega),Nat.sub_zero]
    · rw [copy_outside _ _ (by omega)]
      exact h k (by omega) hk

/-- Every buffer holds the rest of a cluster when there is none. -/
theorem forall_holdsRest_iff (hsec : volume.bytesPerSec=512) (hone : volume.secPerClus≠0) :
    (∀ buffer, HoldsRest volume cluster buffer) ↔ volume.secPerClus=1 := by
  have hbytes : bytesPerCluster volume=volume.secPerClus*512 := by rw [bytesPerCluster,hsec]
  refine ⟨fun h => ?_,fun h buffer k hlow hk => ?_⟩
  · by_contra hwide
    have hwrong := h (fun k => volume.dev.image (clusterStart volume cluster+k)+1) 512 le_rfl
      (by omega)
    have hbyte := UInt8.toNat_lt (volume.dev.image (clusterStart volume cluster+512))
    have hsucc := congrArg UInt8.toNat hwrong
    rw [UInt8.toNat_add] at hsucc
    simp only [UInt8.reduceToNat] at hsucc
    omega
  · rw [hbytes,h] at hk
    omega

/-- The sample device with clusters of two sectors. -/
def wideDevice : BlockDevice where
  image x := (((13,2)::sampleBytes).lookup x).getD 0
  sectors := 64
  sectors_lt := sampleDevice.sectors_lt

/-- The volume on it. -/
def wideVolume : Volume := {sampleVolume with dev := wideDevice,secPerClus := 2}

theorem wide_mounted : mount wideDevice 0=.ok wideVolume :=
  mount_iff.mpr ⟨by decide,by decide +kernel,rfl,rfl,by decide +kernel,by decide +kernel,
    by decide +kernel,by decide +kernel,by decide +kernel,by decide +kernel,by decide,by decide⟩

/-- Its first cluster is on the device. -/
theorem wide_cluster : ClusterOnDevice wideVolume 2 := ⟨by decide,by decide,by decide⟩

/-- After `read_cluster` the buffer holds the cluster exactly when it held all
but the first sector before; for every buffer, exactly when clusters are
single sectors. -/
theorem readCluster_holds_iff (hsec : volume.bytesPerSec=512) (hone : volume.secPerClus≠0)
    (h : ClusterOnDevice volume cluster) :
    (∀ buffer, ((∀ filled, readCluster volume cluster buffer=.ok filled →
        HoldsCluster volume cluster filled) ↔ HoldsRest volume cluster buffer)) ∧
      ((∀ buffer filled, readCluster volume cluster buffer=.ok filled →
        HoldsCluster volume cluster filled) ↔ volume.secPerClus=1) := by
  have hbuffer : ∀ buffer, ((∀ filled, readCluster volume cluster buffer=.ok filled →
      HoldsCluster volume cluster filled) ↔ HoldsRest volume cluster buffer) := by
    intro buffer
    rw [h.readCluster_eq hsec hone buffer,← holdsCluster_copied_iff hsec hone buffer]
    exact ⟨fun hfilled => hfilled _ rfl,fun hholds filled hok => Except.ok.inj hok▸hholds⟩
  refine ⟨hbuffer,?_⟩
  rw [forall_congr' hbuffer]
  exact forall_holdsRest_iff hsec hone

/-- The first cluster of a volume with two sectors per cluster. -/
theorem readCluster_holds_iff_sample :
    (∀ buffer, ((∀ filled, readCluster wideVolume 2 buffer=.ok filled →
        HoldsCluster wideVolume 2 filled) ↔ HoldsRest wideVolume 2 buffer)) ∧
      ((∀ buffer filled, readCluster wideVolume 2 buffer=.ok filled →
        HoldsCluster wideVolume 2 filled) ↔ wideVolume.secPerClus=1) :=
  readCluster_holds_iff rfl (by decide) wide_cluster

/-- With clusters of two sectors the second half of the buffer is what the heap
left there. -/
theorem readCluster_not_always_holds : ¬∀ (volume : Volume) (cluster : ℕ) (buffer filled : Memory),
    (∃ device partition,mount device partition=.ok volume) → volume.bytesPerSec=512 →
      volume.secPerClus≠0 → ClusterOnDevice volume cluster →
        readCluster volume cluster buffer=.ok filled → HoldsCluster volume cluster filled := by
  intro hall
  have hholds := hall wideVolume 2 (fun _ => 7) _ ⟨wideDevice,0,wide_mounted⟩ rfl (by decide)
    wide_cluster (wide_cluster.readCluster_eq rfl (by decide) _)
  have hrest := (holdsCluster_copied_iff rfl (by decide) _).mp hholds 512 le_rfl (by decide)
  exact absurd hrest (by decide +kernel)

end Clusters

end WorkbenchOS.FatSectors
