import WorkbenchOS.ByteMemory
import WorkbenchOS.LibStd

/-!
# Reading a FAT32 volume

`Kernel/Filesystems/Fat32.cpp` on a block device that is addressed by
sector, as `VirtioBlockDevice` is. Buffers are byte memories that begin at
the buffer; the contents of a heap buffer before it is filled are whatever
the heap returns. `read_fat` passes a byte offset where the device takes a
sector, and `read_cluster` fills one sector of its buffer, whatever the size of
a cluster. The directory walk follows the chain it reads and does not end on a
cyclic one, which is the outcome `none`.
-/

namespace WorkbenchOS.Fat32

open ByteMemory LibStd

/-- A block device with 512-byte sectors. -/
structure BlockDevice where
  /-- All bytes, from the first sector on. -/
  image : Memory
  /-- Number of sectors. -/
  sectors : ℕ
  /-- Sector numbers are 64-bit values. -/
  sectors_lt : sectors<2^64

/-- `BlockDevice::read` of a sector-addressed device. A size that is not a
number of sectors is refused by the driver, a range past the end by the device. -/
def BlockDevice.read (device : BlockDevice) (lba size : ℕ) (buffer : Memory) :
    Except Error Memory :=
  if size=0 ∨ size%512≠0 then .error (.fromCode 1)
  else if device.sectors*512<lba*512+size then .error (.fromCode 1)
  else .ok (copy buffer 0 device.image (lba*512) size)

/-- The fields of `Fat32`. -/
structure Volume where
  /-- `m_dev`. -/
  dev : BlockDevice
  /-- `m_part_lba`. -/
  partLba : ℕ
  /-- `m_bytes_per_sec`. -/
  bytesPerSec : ℕ
  /-- `m_sec_per_clus`. -/
  secPerClus : ℕ
  /-- `m_reserved_sec`. -/
  reservedSec : ℕ
  /-- `m_num_fats`. -/
  numFats : ℕ
  /-- `m_sectors_per_fat`. -/
  sectorsPerFat : ℕ
  /-- `m_root_cluster`. -/
  rootCluster : ℕ
  /-- `m_fat_begin_lba`. -/
  fatBeginLba : ℕ
  /-- `m_data_begin_lba`. -/
  dataBeginLba : ℕ

/-- `Fat32::mount`. The fields of the BPB are read at their packed offsets. -/
def mount (device : BlockDevice) (partitionLba : ℕ) : Except Error Volume :=
  match device.read partitionLba 512 (fun _ => 0) with
  | .error error => .error error
  | .ok sec =>
    if readLE sec 510 2≠0xaa55 then .error (.fromCode 1)
    else
      let reservedSec := readLE sec 14 2
      let numFats := readLE sec 16 1
      let sectorsPerFat := readLE sec 36 4
      let fatBeginLba := u64 (partitionLba+reservedSec)
      .ok {
        dev := device
        partLba := partitionLba
        bytesPerSec := readLE sec 11 2
        secPerClus := readLE sec 13 1
        reservedSec := reservedSec
        numFats := numFats
        sectorsPerFat := sectorsPerFat
        rootCluster := readLE sec 44 4
        fatBeginLba := fatBeginLba
        dataBeginLba := u64 (fatBeginLba+numFats*sectorsPerFat) }

/-- `Fat32::read_fat`, with a `sector_buffer` that takes any sector. The sector
read is numbered by the byte offset of the entry, from the start of the device. -/
def readFat (volume : Volume) (cluster : ℕ) : Except Error ℕ :=
  let fatOffset := cluster*4
  let offInSec := fatOffset%volume.bytesPerSec
  match volume.dev.read fatOffset volume.bytesPerSec (fun _ => 0) with
  | .error error => .error error
  | .ok sectorBuffer => .ok (readLE sectorBuffer offInSec 4&&&0x0fffffff)

/-- `sizeof(sector_buffer)`. -/
def sectorBufferSize : ℕ := 512

/-- `Fat32::read_fat` with the `sector_buffer` it has: a longer sector overwrites
the frame of the call, which does not return then. -/
def readFatFrame (volume : Volume) (cluster : ℕ) : Option (Except Error ℕ) :=
  if sectorBufferSize<volume.bytesPerSec ∧ (readFat volume cluster).isOk=true then none
  else some (readFat volume cluster)

/-- `Fat32::read_cluster`, one sector of it. -/
def readCluster (volume : Volume) (cluster : ℕ) (buffer : Memory) : Except Error Memory :=
  let firstSec := u64 (volume.dataBeginLba+(cluster+2^32-2)%2^32*volume.secPerClus)
  volume.dev.read firstSec volume.bytesPerSec buffer

/-- `is_eoc`. -/
def isEoc (cluster : ℕ) : Bool := 0x0ffffff8≤cluster

/-- `is_free`. -/
def isFree (cluster : ℕ) : Bool := cluster=0

/-- Characters that separate the components of a path. -/
def isSeparator (c : UInt8) : Bool := c=47 ∨ c=92

/-- Capital of an ASCII letter. -/
def upper (c : UInt8) : UInt8 := if 97≤c ∧ c≤122 then c-32 else c

/-- Position of the last dot. -/
def lastDot : List UInt8→Option ℕ
  | [] => none
  | c::rest =>
    match lastDot rest with
    | some i => some (i+1)
    | none => if c=46 then some 0 else none

/-- The characters in capitals, cut off or padded with blanks to a width. -/
def padded (width : ℕ) (characters : List UInt8) : List UInt8 :=
  let kept := (characters.take width).map upper
  kept++List.replicate (width-kept.length) 32

/-- `Fat32::to_8dot3_upper`, on the characters before the terminator. -/
def to8dot3Upper (segment : List UInt8) : List UInt8 :=
  let segment := if (segment.head?.map isSeparator).getD false then segment.tail else segment
  let body := segment.takeWhile (fun c => !isSeparator c)
  match lastDot body with
  | some dot => padded 8 (body.take dot)++padded 3 (body.drop (dot+1))
  | none => padded 8 body++padded 3 []

/-- The fields of `DirEntShort` the driver uses. -/
structure DirEntShort where
  /-- `Name`. -/
  name : List UInt8
  /-- `Attr`. -/
  attr : ℕ
  /-- `FstClusHI`. -/
  fstClusHI : ℕ
  /-- `FstClusLO`. -/
  fstClusLO : ℕ
  /-- `FileSize`. -/
  fileSize : ℕ
  deriving DecidableEq

/-- `sizeof(DirEntShort)`. -/
def sizeofDirEntShort : ℕ := 32

/-- The directory entry at a byte address. -/
def entryAt (memory : Memory) (address : ℕ) : DirEntShort where
  name := (List.range 11).map (fun i => memory (address+i))
  attr := readLE memory (address+11) 1
  fstClusHI := readLE memory (address+20) 2
  fstClusLO := readLE memory (address+26) 2
  fileSize := readLE memory (address+28) 4

/-- First byte of the name. -/
def DirEntShort.first (entry : DirEntShort) : UInt8 := entry.name.headD 0

/-- `Attributes::DIR` is set. -/
def DirEntShort.isDirectory (entry : DirEntShort) : Bool := entry.attr&&&0x10≠0

/-- The first cluster of an entry. -/
def DirEntShort.firstCluster (entry : DirEntShort) : ℕ :=
  entry.fstClusHI<<<16|||entry.fstClusLO

/-- Deleted entries, parts of long names and volume labels. -/
def DirEntShort.isSkipped (entry : DirEntShort) : Bool :=
  entry.first=0xe5 ∨ entry.attr=0x0f ∨ entry.attr&&&0x08≠0

/-- What a scan of entries comes to. -/
inductive Scan where
  /-- An entry of the wanted name. -/
  | found (entry : DirEntShort)
  /-- The entry that marks the end of the directory. -/
  | ended
  /-- Neither, in all entries scanned. -/
  | more
  deriving DecidableEq

/-- The `for` loop of `find_in_directory`, from entry `i` on. -/
def scanEntries (buffer : Memory) (want : List UInt8) : (remaining i : ℕ)→Scan
  | 0,_ => .more
  | remaining+1,i =>
    let entry := entryAt buffer (sizeofDirEntShort*i)
    if entry.first=0 then .ended
    else if entry.isSkipped then scanEntries buffer want remaining (i+1)
    else if entry.name=want then .found entry
    else scanEntries buffer want remaining (i+1)

/-- Directory entries of one cluster. -/
def entsPerCluster (volume : Volume) : ℕ :=
  volume.secPerClus*volume.bytesPerSec/sizeofDirEntShort

/-- The `while` loop of `find_in_directory`. -/
def findLoop (volume : Volume) (want : List UInt8) :
    (fuel cl : ℕ)→Memory→Option (Except Error DirEntShort)
  | 0,_,_ => none
  | fuel+1,cl,buffer =>
    if isEoc cl ∨ isFree cl then some (.error (.fromCode 1))
    else
      match readCluster volume cl buffer with
      | .error error => some (.error error)
      | .ok filled =>
        match scanEntries filled want (entsPerCluster volume) 0 with
        | .found entry => some (.ok entry)
        | .ended => some (.error (.fromCode 1))
        | .more =>
          match readFat volume cl with
          | .error error => some (.error error)
          | .ok next => findLoop volume want fuel next filled

/-- Clusters a directory walk may visit: more than a chain without a cycle has. -/
def chainFuel : ℕ := 2^28

/-- `Fat32::find_in_directory`, with the heap's answer to its request. -/
def findInDirectory (volume : Volume) (heap : Except Error Memory) (dirFirstCluster : ℕ)
    (want : List UInt8) : Option (Except Error DirEntShort) :=
  match heap with
  | .error error => some (.error error)
  | .ok clusterBuffer => findLoop volume want chainFuel dirFirstCluster clusterBuffer

/-- The component loop of `walk_path`, with the number of heap requests made
so far. -/
def walkLoop (volume : Volume) (heap : ℕ→Except Error Memory) :
    (fuel : ℕ)→(path : List UInt8)→(curDir asked : ℕ)→Option (Except Error (DirEntShort×ℕ))
  | 0,_,_,_ => some (.error (.fromCode 1))
  | fuel+1,path,curDir,asked =>
    let segment := path.takeWhile (fun c => !isSeparator c)
    let behind := path.dropWhile (fun c => !isSeparator c)
    if 256≤ segment.length then some (.error (.fromCode 1))
    else
      match findInDirectory volume (heap asked) curDir (to8dot3Upper segment) with
      | none => none
      | some (.error error) => some (.error error)
      | some (.ok entry) =>
        if behind=[] then some (.ok (entry,asked+1))
        else if entry.isDirectory then
          let rest := behind.dropWhile isSeparator
          if rest=[] then some (.ok (entry,asked+1))
          else walkLoop volume heap fuel rest entry.firstCluster (asked+1)
        else some (.error (.fromCode 1))

/-- `Fat32::walk_path`; each component is at least one character, which bounds
the iterations. -/
def walkPath (volume : Volume) (heap : ℕ→Except Error Memory) (path : List UInt8) :
    Option (Except Error (DirEntShort×ℕ)) :=
  if path=[] then some (.error (.fromCode 1))
  else
    let rest := path.dropWhile isSeparator
    if rest=[] then some (.error (.fromCode 1))
    else walkLoop volume heap rest.length rest volume.rootCluster 0

/-- `bytes_per_cluster`. -/
def bytesPerCluster (volume : Volume) : ℕ := volume.secPerClus*volume.bytesPerSec

/-- The `while` loop of `read_file`. -/
def copyLoop (volume : Volume) : (fuel toRead cl copied : ℕ)→(buffer out : Memory)→
    Option (Except Error ℕ×Memory)
  | 0,_,_,_,_,_ => none
  | fuel+1,toRead,cl,copied,buffer,out =>
    if toRead=0 ∨ isEoc cl ∨ isFree cl then some (.ok copied,out)
    else
      match readCluster volume cl buffer with
      | .error error => some (.error error,out)
      | .ok filled =>
        let n := if toRead<bytesPerCluster volume then toRead else bytesPerCluster volume
        let written := copy out copied filled 0 n
        match readFat volume cl with
        | .error error => some (.error error,written)
        | .ok next => copyLoop volume fuel (toRead-n) next (copied+n) filled written

/-- `Fat32::read_file`: the result and the output buffer. -/
def readFile (volume : Volume) (heap : ℕ→Except Error Memory) (path : List UInt8)
    (out : Memory) (maxBytes : ℕ) : Option (Except Error ℕ×Memory) :=
  match walkPath volume heap path with
  | none => none
  | some (.error error) => some (.error error,out)
  | some (.ok (entry,asked)) =>
    if entry.isDirectory then some (.error (.fromCode (2^64-2)),out)
    else if entry.fileSize=0 then some (.ok 0,out)
    else
      let toRead := if maxBytes<entry.fileSize then maxBytes else entry.fileSize
      match heap asked with
      | .error error => some (.error error,out)
      | .ok clusterBuffer =>
        copyLoop volume (toRead+1) toRead entry.firstCluster 0 clusterBuffer out

/-- `Fat32::get_file_size`. -/
def getFileSize (volume : Volume) (heap : ℕ→Except Error Memory) (path : List UInt8) :
    Option (Except Error ℕ) :=
  match walkPath volume heap path with
  | none => none
  | some (.error error) => some (.error error)
  | some (.ok (entry,_)) =>
    if entry.isDirectory then some (.error (.fromCode (2^64-2))) else some (.ok entry.fileSize)

end WorkbenchOS.Fat32
