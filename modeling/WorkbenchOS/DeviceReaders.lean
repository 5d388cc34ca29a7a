import WorkbenchOS.RamdiskFS
import WorkbenchOS.TransitionRuns

/-!
# Readers of block devices

Four operations of `BlockDeviceReader` read at the reader's offset and advance
it. Three of them return with the device's error before they touch the offset.
`read<T>` does not look at the device's result: it returns the zeros its buffer
began with and advances. `read_string` does not look at what `new` returns: where
it has no buffer the string is empty, and the offset advances all the same.
-/

namespace WorkbenchOS.DeviceReaders

open ByteMemory LibStd RamdiskFS TransitionRuns

/-- `m_offset += size`. -/
def advance (reader : BlockDeviceReader) (size : ℕ) : BlockDeviceReader :=
  {reader with offset := u64 (reader.offset+size)}

/-- `BlockDeviceReader::read_uint16`. -/
def readUint16 (reader : BlockDeviceReader) : Except Error ℕ×BlockDeviceReader :=
  match reader.device reader.offset 2 with
  | .error error => (.error error,reader)
  | .ok bytes => (.ok (readLE bytes 0 2),advance reader 2)

/-- `BlockDeviceReader::read_buffer`, with the bytes the destination has
afterwards. -/
def readBuffer (reader : BlockDeviceReader) (size : ℕ) :
    Except Error (List UInt8)×BlockDeviceReader :=
  match reader.device reader.offset size with
  | .error error => (.error error,reader)
  | .ok bytes => (.ok ((List.range size).map bytes),advance reader size)

/-- Which buffers of its size a `read_string` gets. -/
structure Buffers where
  /-- The destination of the device. -/
  destination : Bool
  /-- That of the string that is made of the destination. -/
  string : Bool
  /-- Those of the copies of the string that are returned. -/
  copies : Bool
  /-- A size that was refused is refused again. -/
  again : destination=false → string=false

/-- All of them. -/
def Buffers.whole (buffers : Buffers) : Bool :=
  buffers.destination && buffers.string && buffers.copies

/-- `BlockDeviceReader::read_string`. The device's result is looked at, the
destination is not: a device writes nothing to the null pointer. The string is a
copy of the destination; without its own buffer, or when a copy has none, what
is returned is empty. -/
def readString (reader : BlockDeviceReader) (size : ℕ) (buffers : Buffers) :
    Except Error (List UInt8)×BlockDeviceReader :=
  match reader.device reader.offset size with
  | .error error => (.error error,reader)
  | .ok bytes =>
    (.ok (if buffers.whole then (List.range size).map bytes else []),advance reader size)

/-- `BlockDeviceReader::read<T>`, with the bytes of the `T`. -/
def readObject (reader : BlockDeviceReader) (size : ℕ) :
    Except Error (List UInt8)×BlockDeviceReader :=
  let (bytes,after) := reader.read size
  (.ok ((List.range size).map bytes),after)

/-- The calls on a reader. -/
inductive Call where
  /-- `seek`. -/
  | seek (offset : ℕ)
  /-- `read_uint16`. -/
  | readUint16
  /-- `read_buffer`. -/
  | readBuffer (size : ℕ)
  /-- `read_string`. -/
  | readString (size : ℕ) (buffers : Buffers)
  /-- `read<T>` for a `T` of that size. -/
  | read (size : ℕ)

/-- What a call returns. -/
inductive Value where
  /-- Nothing. -/
  | void
  /-- A `u16`. -/
  | number (value : ℕ)
  /-- A buffer, a string or an object by its bytes. -/
  | bytes (value : List UInt8)

/-- One call. -/
def perform (reader : BlockDeviceReader) : Call→Except Error Value×BlockDeviceReader
  | .seek offset => (.ok .void,reader.seek offset)
  | .readUint16 => (readUint16 reader).map (Except.map .number) id
  | .readBuffer size => (readBuffer reader size).map (Except.map .bytes) id
  | .readString size buffers => (readString reader size buffers).map (Except.map .bytes) id
  | .read size => (readObject reader size).map (Except.map .bytes) id

/-- The bytes a read operation asks for. -/
def requested : Call→Option ℕ
  | .seek _ => none
  | .readUint16 => some 2
  | .readBuffer size => some size
  | .readString size _ => some size
  | .read size => some size

/-- What a read operation makes of the bytes of the device. -/
def valueOf : Call→Memory→Value
  | .seek _,_ => .void
  | .readUint16,bytes => .number (readLE bytes 0 2)
  | .readBuffer size,bytes => .bytes ((List.range size).map bytes)
  | .readString size _,bytes => .bytes ((List.range size).map bytes)
  | .read size,bytes => .bytes ((List.range size).map bytes)

/-- The contract of a read operation of `size` bytes. -/
structure Contract (reader : BlockDeviceReader) (call : Call) (size : ℕ) : Prop where
  /-- It fails exactly when the device does. -/
  fails_iff : (∃ error,(perform reader call).1=.error error) ↔
    ∃ error,reader.device reader.offset size=.error error
  /-- Then the offset is as it was. -/
  kept : ∀ error, reader.device reader.offset size=.error error →
    (perform reader call).2.offset=reader.offset
  /-- Otherwise it returns the bytes at the old offset. -/
  value : ∀ bytes, reader.device reader.offset size=.ok bytes →
    (perform reader call).1=.ok (valueOf call bytes)
  /-- The offset is advanced by their number. -/
  advanced : ∀ bytes, reader.device reader.offset size=.ok bytes →
    (perform reader call).2.offset=u64 (reader.offset+size)

/-- A call on a reader whose device answers in some way at that time. -/
abbrev Action := BlockDevice×Call

/-- The reader as the call finds it. -/
def facing (reader : BlockDeviceReader) (action : Action) : BlockDeviceReader :=
  {reader with device := action.1}

/-- The reader after a call. -/
def readerStep (reader : BlockDeviceReader) (action : Action) : Option BlockDeviceReader :=
  some (perform (facing reader action) action.2).2

/-- A read operation honours its contract. -/
def Honours (reader : BlockDeviceReader) (action : Action) : Prop :=
  ∀ size, requested action.2=some size → Contract (facing reader action) action.2 size

/-- A string that has bytes gets its buffers. -/
def Held : Call→Prop
  | .readString size buffers => size=0 ∨ buffers.whole=true
  | _ => True

/-- A `read<T>` meets no failing device, and a `read_string` that the device
serves gets its buffers. -/
structure Delivers (reader : BlockDeviceReader) (action : Action) : Prop where
  /-- The bytes of a `T` are delivered. -/
  object : ∀ size, action.2=.read size → ∃ bytes,action.1 reader.offset size=.ok bytes
  /-- Those of a string are held. -/
  string : ∀ size, requested action.2=some size → ∀ bytes, action.1 reader.offset size=.ok bytes →
    Held action.2

section Operations

variable {reader : BlockDeviceReader} {size : ℕ} {bytes : Memory}

/-- The operations of the file system are these. -/
theorem readBuffer_eq (reader : BlockDeviceReader) (size : ℕ) :
    (readBuffer reader size).1=
      (reader.readBuffer size).map (fun read => (List.range size).map read.1) := by
  rw [readBuffer,BlockDeviceReader.readBuffer]
  cases reader.device reader.offset size <;> rfl

/-- A call that asks for bytes fails with the device, or is a `read<T>`. -/
theorem perform_of_error {call : Call} {error : Error} (hsize : requested call=some size)
    (h : reader.device reader.offset size=.error error) :
    perform reader call=(.error error,reader) ∨ call=.read size := by
  cases call with
  | seek => cases hsize
  | read => exact Or.inr (congrArg Call.read (Option.some.inj hsize))
  | readUint16 =>
    cases hsize
    exact Or.inl (by rw [perform,readUint16,h]; rfl)
  | readBuffer =>
    cases hsize
    exact Or.inl (by rw [perform,readBuffer,h]; rfl)
  | readString =>
    cases hsize
    exact Or.inl (by rw [perform,readString,h]; rfl)

/-- It returns the bytes of the device and advances, when they are held. -/
theorem perform_of_ok {call : Call} (hsize : requested call=some size)
    (h : reader.device reader.offset size=.ok bytes) (hheld : Held call) :
    perform reader call=(.ok (valueOf call bytes),advance reader size) := by
  cases call with
  | seek => cases hsize
  | read =>
    cases hsize
    rw [perform,readObject,BlockDeviceReader.read,h]
    rfl
  | readUint16 =>
    cases hsize
    rw [perform,readUint16,h]
    rfl
  | readBuffer =>
    cases hsize
    rw [perform,readBuffer,h]
    rfl
  | readString _ buffers =>
    cases hsize
    have hstring : (if buffers.whole then (List.range size).map bytes else [])=
        (List.range size).map bytes := by
      rcases hheld with rfl|hwhole
      · exact ite_self []
      · exact if_pos hwhole
    rw [perform,readString,h]
    dsimp only
    rw [hstring]
    rfl

/-- With the bytes delivered and held, every read operation honours its
contract. -/
theorem contract_of_ok {call : Call} (hsize : requested call=some size)
    (h : reader.device reader.offset size=.ok bytes) (hheld : Held call) :
    Contract reader call size := by
  have hperform := perform_of_ok hsize h hheld
  have hdelivered : ∀ error,reader.device reader.offset size≠.error error := by
    intro error herror
    rw [h] at herror
    cases herror
  refine ⟨?_,fun error herror => absurd herror (hdelivered error),?_,?_⟩
  · constructor
    · rintro ⟨error,herror⟩
      rw [hperform] at herror
      cases herror
    · rintro ⟨error,herror⟩
      exact absurd herror (hdelivered error)
  · intro given hgiven
    have hbytes : given=bytes := Except.ok.inj (hgiven.symm.trans h)
    rw [hperform,hbytes]
  · intro given hgiven
    rw [hperform]
    rfl

/-- The operations that look at the device's result honour it when it fails. -/
theorem contract_of_error {call : Call} {error : Error} (hsize : requested call=some size)
    (h : reader.device reader.offset size=.error error) (hread : call≠.read size) :
    Contract reader call size := by
  have hperform := (perform_of_error hsize h).resolve_right hread
  have hrefused : ∀ given,reader.device reader.offset size≠.ok given := by
    intro given hgiven
    rw [h] at hgiven
    cases hgiven
  refine ⟨⟨fun _ => ⟨error,h⟩,fun _ => ⟨error,by rw [hperform]⟩⟩,fun _ _ => by rw [hperform],?_,?_⟩
  · exact fun given hgiven => absurd hgiven (hrefused given)
  · exact fun given hgiven => absurd hgiven (hrefused given)

/-- `read<T>` returns a value whatever the device does. -/
theorem read_not_error (reader : BlockDeviceReader) (size : ℕ) (error : Error) :
    (perform reader (.read size)).1≠.error error := by
  rw [perform,readObject]
  exact fun h => by cases h

/-- So it honours its contract only when the device delivers. -/
theorem contract_read_iff :
    Contract reader (.read size) size ↔ ∃ bytes,reader.device reader.offset size=.ok bytes := by
  constructor
  · intro hcontract
    cases h : reader.device reader.offset size with
    | ok bytes => exact ⟨bytes,rfl⟩
    | error error =>
      obtain ⟨returned,hreturned⟩ := hcontract.fails_iff.mpr ⟨error,h⟩
      exact absurd hreturned (read_not_error reader size returned)
  · rintro ⟨bytes,h⟩
    exact contract_of_ok rfl h trivial

/-- A string that is not held has no bytes, so the contract is broken. -/
theorem held_of_contract {call : Call} (hsize : requested call=some size)
    (h : reader.device reader.offset size=.ok bytes) (hcontract : Contract reader call size) :
    Held call := by
  cases call with
  | readString _ buffers =>
    cases hsize
    by_cases hwhole : buffers.whole=true
    · exact Or.inr hwhole
    · have hvalue := hcontract.value bytes h
      rw [perform,readString,h] at hvalue
      dsimp only at hvalue
      rw [if_neg hwhole] at hvalue
      have hempty : []=(List.range size).map bytes :=
        Value.bytes.inj (Except.ok.inj hvalue)
      have hlength := congrArg List.length hempty
      rw [List.length_map,List.length_range] at hlength
      exact Or.inl hlength.symm
  | seek => trivial
  | readUint16 => trivial
  | readBuffer => trivial
  | read => trivial

/-- One call honours its contract unless it is a `read<T>` of a failing device or
a `read_string` whose bytes are not held. -/
theorem honours_iff_delivers (reader : BlockDeviceReader) (action : Action) :
    Honours reader action ↔ Delivers reader action := by
  obtain ⟨device,call⟩ := action
  constructor
  · intro hhonours
    constructor
    · rintro size rfl
      exact contract_read_iff.mp (hhonours size rfl)
    · exact fun size hsize bytes h => held_of_contract hsize h (hhonours size hsize)
  · intro hdelivers size hsize
    by_cases hread : call=.read size
    · subst hread
      exact contract_read_iff.mpr (hdelivers.object size rfl)
    · cases h : device reader.offset size with
      | ok bytes => exact contract_of_ok hsize h (hdelivers.string size hsize bytes h)
      | error error => exact contract_of_error hsize h hread

end Operations

/-- In a run of calls on a reader, whatever the device answers to each, every
read operation honours its contract exactly when no `read<T>` meets a device
read that fails and every `read_string` with bytes that the device serves gets its
buffers. -/
theorem each_honours_iff (reader : BlockDeviceReader) (actions : List Action) :
    Each readerStep Honours reader actions ↔ Each readerStep Delivers reader actions :=
  @each_iff_each _ _ readerStep Delivers (fun _ => True) (fun _ _ => True) Honours
    (fun _ _ _ _ _ _ _ => trivial) (fun state action _ _ => honours_iff_delivers state action) _
    actions trivial (each_of_forall (fun _ _ => trivial) reader)

/-- A device that fails every read. -/
def brokenDevice : BlockDevice := fun _ _ => .error (.fromCode 1)

/-- A `read<T>` of four bytes from it returns zeros and advances. -/
theorem not_each_honours :
    perform ⟨brokenDevice,0⟩ (.read 4)=(.ok (.bytes [0,0,0,0]),⟨brokenDevice,4⟩) ∧
    ¬Each readerStep Honours ⟨brokenDevice,0⟩ [(brokenDevice,.read 4)] := by
  refine ⟨rfl,fun h => ?_⟩
  obtain ⟨bytes,hbytes⟩ := contract_read_iff.mp (h.1 4 rfl)
  cases hbytes

end WorkbenchOS.DeviceReaders
