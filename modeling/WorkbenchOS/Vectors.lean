import WorkbenchOS.CString
import WorkbenchOS.TransitionRuns

/-!
# Vectors

`LibStd/Vector.h` on a byte memory. A vector that is full moves its items to
storage twice as large, as raw bytes, before it constructs another one behind
them. While the heap serves each request with storage of its own, a vector
shows the list of what was appended and not popped.
-/

namespace WorkbenchOS.Vectors

open ByteMemory LibStd TransitionRuns CString

universe u

variable {T : Type u}

/-- How the objects of a type lie in memory: `sizeof(T)` bytes, and what they
mean. -/
structure Object (T : Type u) where
  /-- `sizeof(T)`. -/
  size : ℕ
  /-- An object has an address of its own. -/
  size_pos : 0<size
  /-- The object that some bytes represent. -/
  value : List UInt8→T

/-- The fields of `Vector`. -/
structure Vector where
  /-- `m_capacity`. -/
  capacity : ℕ
  /-- `m_items`. -/
  items : ℕ
  /-- `m_storage`. -/
  storage : ℕ

/-- What the heap does when a vector grows: the address `new` returns, and what
`new` and `delete` do to the memory. -/
structure Grant where
  /-- The new storage. -/
  address : ℕ
  /-- `operator new[]`. -/
  allocate : Memory→Memory
  /-- `operator delete[]`. -/
  release : Memory→Memory

/-- `Vector(capacity)`, once `new` has returned the storage. -/
def withCapacity (capacity storage : ℕ) : Vector := ⟨capacity,0,storage⟩

/-- `item`. -/
def item (size : ℕ) (vector : Vector) (index : ℕ) : ℕ :=
  u64 (vector.storage+u64 (index*size))

/-- The object at an address. -/
def load (object : Object T) (memory : Memory) (address : ℕ) : T :=
  object.value (bytesAt memory address object.size)

/-- `operator[]`, read. -/
def get (object : Object T) (vector : Vector) (memory : Memory) (index : ℕ) : T :=
  load object memory (item object.size vector index)

/-- The memory with the items copied to the new storage. -/
def relocated (size : ℕ) (vector : Vector) (memory : Memory) (grant : Grant) : Memory :=
  (memcpy grant.address vector.storage (u64 (vector.items*size)) (grant.allocate memory)).2

/-- `grow`. -/
def grow (size : ℕ) (vector : Vector) (memory : Memory) (newCapacity : ℕ) (grant : Grant) :
    Vector×Memory :=
  (⟨newCapacity,vector.items,grant.address⟩,
    if vector.storage≠0 then grant.release (relocated size vector memory grant)
    else grant.allocate memory)

/-- The capacity `append` grows to. -/
def newCapacity (vector : Vector) : ℕ :=
  if vector.capacity=0 then 1 else u64 (vector.capacity*2)

/-- `append`, of an object whose copy has the given bytes. -/
def append (size : ℕ) (vector : Vector) (memory : Memory) (bytes : List UInt8) (grant : Grant) :
    Vector×Memory :=
  let roomy := if vector.items=vector.capacity then
      grow size vector memory (newCapacity vector) grant
    else (vector,memory)
  ({roomy.1 with items := u64 (roomy.1.items+1)},
    storeBytes roomy.2 (item size roomy.1 roomy.1.items) bytes)

/-- `pop`. -/
def pop (object : Object T) (vector : Vector) (memory : Memory) : T×Vector :=
  (load object memory (item object.size vector (u64Sub vector.items 1)),
    {vector with items := u64Sub vector.items 1})

/-- The loop from `begin()` to `end()`. An iterator is a pointer that steps over
one object at a time. -/
def iterate (object : Object T) (memory : Memory) (stop : ℕ) : (fuel pointer : ℕ)→Option (List T)
  | 0,_ => none
  | fuel+1,pointer =>
    if pointer=stop then some []
    else (iterate object memory stop fuel (u64 (pointer+object.size))).map
      (load object memory pointer::·)

/-- The objects the iteration visits. -/
def visited (object : Object T) (vector : Vector) (memory : Memory) : Option (List T) :=
  iterate object memory (item object.size vector vector.items) (vector.items+1)
    (item object.size vector 0)

/-- `new uint8_t[capacity * sizeof(T)]` has succeeded: there is storage inside
the address space, not larger than a block of the heap, and null stands for
none at all. -/
structure Allocated (size capacity address : ℕ) : Prop where
  /-- A request of no byte returns null. -/
  null_iff : address=0 ↔ capacity=0
  /-- The storage ends inside the address space. -/
  end_le : address+capacity*size≤2^64
  /-- The heap has no larger blocks. -/
  small : capacity*size<2^31

/-- The heap serves a vector that grows: the new storage is apart from the old
one, and neither `new` nor `delete` touches storage in use. -/
structure Served (size : ℕ) (vector : Vector) (memory : Memory) (capacity : ℕ) (grant : Grant) :
    Prop where
  /-- There is new storage. -/
  allocated : Allocated size capacity grant.address
  /-- It is apart from the old one. -/
  apart : Apart grant.address (capacity*size) vector.storage (vector.capacity*size)
  /-- `new` keeps the old storage. -/
  keeps : Unchanged memory (grant.allocate memory) vector.storage (vector.capacity*size)
  /-- `delete` keeps the new storage. -/
  releases : vector.storage≠0 → Unchanged (relocated size vector memory grant)
    (grant.release (relocated size vector memory grant)) grant.address (capacity*size)

/-- A vector with its memory, beside the list of what was appended and not
popped. -/
structure VectorState (T : Type u) where
  /-- The vector. -/
  vector : Vector
  /-- The memory. -/
  memory : Memory
  /-- The list. -/
  contents : List T

/-- Calls of a vector. -/
inductive VectorAction (T : Type u) where
  /-- `append(value)`, with the bytes of the copy and what the heap does if the
  vector grows. -/
  | append (value : T) (bytes : List UInt8) (grant : Grant)
  /-- `pop()`. -/
  | pop

/-- One call, and the same on the list. -/
def vectorStep (object : Object T) (state : VectorState T) :
    VectorAction T→Option (VectorState T)
  | .append value bytes grant =>
    let next := append object.size state.vector state.memory bytes grant
    some ⟨next.1,next.2,state.contents++[value]⟩
  | .pop => some ⟨(pop object state.vector state.memory).2,state.memory,state.contents.dropLast⟩

/-- A copy represents what was copied, the heap serves a vector that has to
grow, and no empty vector is popped. -/
def VectorLegal (object : Object T) (state : VectorState T) : VectorAction T→Prop
  | .append value bytes grant => bytes.length=object.size ∧ object.value bytes=value ∧
    (state.vector.items=state.vector.capacity →
      Served object.size state.vector state.memory (newCapacity state.vector) grant)
  | .pop => 0<state.vector.items

/-- The vector shows the list: by its length, by index and by iteration. -/
structure Shows (object : Object T) (state : VectorState T) : Prop where
  /-- The items fit. -/
  items_le : state.vector.items≤ state.vector.capacity
  /-- `length()`. -/
  length_eq : state.vector.items=state.contents.length
  /-- `operator[]`. -/
  get_eq : ∀ i value, state.contents[i]?=some value → get object state.vector state.memory i=value
  /-- `begin()` to `end()`. -/
  visited_eq : visited object state.vector state.memory=some state.contents

/-- `pop` returns the last object of the list. -/
def PopsLast (object : Object T) (state : VectorState T) : VectorAction T→Prop
  | .append _ _ _ => True
  | .pop => state.contents.getLast?=some (pop object state.vector state.memory).1

/-- The items lie one behind the other at the beginning of the storage. -/
structure Holds (object : Object T) (vector : Vector) (memory : Memory) (contents : List T) :
    Prop where
  /-- The storage. -/
  allocated : Allocated object.size vector.capacity vector.storage
  /-- The items fit. -/
  items_le : vector.items≤vector.capacity
  /-- There are as many as in the list. -/
  length_eq : vector.items=contents.length
  /-- Each one is where it belongs. -/
  load_eq : ∀ i value, contents[i]?=some value →
    load object memory (vector.storage+i*object.size)=value

section Operations

variable {object : Object T} {vector : Vector} {memory : Memory} {contents : List T}

/-- An index of the list is one of the storage. -/
theorem Holds.bounds (h : Holds object vector memory contents) {i : ℕ} (hi : i<contents.length) :
    i*object.size+object.size≤vector.items*object.size ∧
      vector.items*object.size≤vector.capacity*object.size := by
  have hlt : i+1≤vector.items := by
    rw [h.length_eq]
    exact hi
  have hmul := Nat.mul_le_mul_right object.size hlt
  rw [Nat.succ_mul] at hmul
  exact ⟨hmul,Nat.mul_le_mul_right object.size h.items_le⟩

/-- Places up to the end of the storage do not wrap on the way. -/
theorem Holds.item_eq (h : Holds object vector memory contents) {i : ℕ}
    (hi : i≤vector.capacity) :
    item object.size vector i=u64 (vector.storage+i*object.size) := by
  have hmul := Nat.mul_le_mul_right object.size hi
  have hsmall := h.allocated.small
  unfold item
  rw [u64_of_lt (by omega : i*object.size<2^64)]

/-- Nor do the places of the items. -/
theorem Holds.item_of_lt (h : Holds object vector memory contents) {i : ℕ}
    (hi : i<vector.capacity) :
    item object.size vector i=vector.storage+i*object.size := by
  have hmul := Nat.mul_le_mul_right object.size (Nat.succ_le_of_lt hi)
  rw [Nat.succ_mul] at hmul
  have hend := h.allocated.end_le
  have hpos := object.size_pos
  rw [h.item_eq hi.le,u64_of_lt (by omega)]

/-- The same bytes are the same object. -/
theorem load_relocated {first second : Memory} {source target : ℕ}
    (h : ∀ k, k<object.size → second (target+k)=first (source+k)) :
    load object second target=load object first source :=
  congrArg object.value (bytesAt_relocated h)

/-- By index. -/
theorem Holds.get_eq (h : Holds object vector memory contents) {i : ℕ} {value : T}
    (hv : contents[i]?=some value) : get object vector memory i=value := by
  obtain ⟨hi,-⟩ := List.getElem?_eq_some_iff.mp hv
  have hle := h.items_le
  have hlength := h.length_eq
  unfold get
  rw [h.item_of_lt (by omega)]
  exact h.load_eq i value hv

/-- The iteration from one item on visits the rest of the list. -/
theorem Holds.iterate_eq (h : Holds object vector memory contents) (count : ℕ) {i : ℕ}
    (hi : i+count=vector.items) :
    iterate object memory (item object.size vector vector.items) (count+1)
      (item object.size vector i)=some (contents.drop i) := by
  have hlength := h.length_eq
  have hle := h.items_le
  induction count generalizing i with
  | zero =>
    rw [Nat.add_zero] at hi
    rw [hi,iterate,if_pos rfl,List.drop_eq_nil_of_le (by omega)]
  | succ count ih =>
    have hlt : i<contents.length := by omega
    have hbounds := h.bounds hlt
    have hpos := object.size_pos
    have hend := h.allocated.end_le
    have hsmall := h.allocated.small
    have hstop := h.item_eq hle
    have hplace := h.item_of_lt (show i<vector.capacity by omega)
    have hnext : u64 (item object.size vector i+object.size)=item object.size vector (i+1) := by
      rw [h.item_eq (show i+1≤vector.capacity by omega),hplace,Nat.succ_mul,Nat.add_assoc]
    have hne : ¬item object.size vector i=item object.size vector vector.items := by
      rw [hstop,hplace]
      unfold u64
      omega
    have hload : load object memory (item object.size vector i)=contents[i] := by
      rw [hplace]
      exact h.load_eq i _ (List.getElem?_eq_getElem hlt)
    rw [iterate,if_neg hne,hnext,ih (by omega),Option.map_some,hload,
      List.drop_eq_getElem_cons hlt]

/-- A vector that holds a list shows it. -/
theorem Holds.shows {state : VectorState T}
    (h : Holds object state.vector state.memory state.contents) : Shows object state where
  items_le := h.items_le
  length_eq := h.length_eq
  get_eq := fun _ _ hv => h.get_eq hv
  visited_eq := h.iterate_eq state.vector.items (Nat.zero_add _)

/-- A vector that grows holds what it held. -/
theorem Holds.grow (h : Holds object vector memory contents) {capacity : ℕ} {grant : Grant}
    (hs : Served object.size vector memory capacity grant) (hle : vector.capacity≤capacity) :
    Holds object (grow object.size vector memory capacity grant).1
      (grow object.size vector memory capacity grant).2 contents := by
  refine ⟨hs.allocated,h.items_le.trans hle,h.length_eq,fun i value hv => ?_⟩
  obtain ⟨hi,-⟩ := List.getElem?_eq_some_iff.mp hv
  have hbounds := h.bounds hi
  have hpos := object.size_pos
  have hcapacity := Nat.mul_le_mul_right object.size hle
  have hlength := h.length_eq
  have hitems := h.items_le
  have hstorage : vector.storage≠0 := fun hz => by
    have hnone := h.allocated.null_iff.mp hz
    omega
  have haddress : grant.address≠0 := fun hz => by
    have hnone := hs.allocated.null_iff.mp hz
    omega
  have hend := h.allocated.end_le
  have hsmall := h.allocated.small
  have hnewEnd := hs.allocated.end_le
  have hcopied : relocated object.size vector memory grant=copy (grant.allocate memory) grant.address
      (grant.allocate memory) vector.storage (vector.items*object.size) := by
    have hapart := hs.apart
    unfold relocated
    rw [u64_of_lt (by omega),memcpy_copy _ haddress hstorage (by omega) (by omega) (by omega)
      (by unfold Apart at *; omega)]
  rw [← h.load_eq i value hv]
  unfold Vectors.grow
  dsimp only
  rw [if_pos hstorage]
  refine load_relocated (fun k hk => ?_)
  rw [hs.releases hstorage _ (by omega) (by omega),hcopied,copy_inside _ _ (by omega) (by omega),
    ← hs.keeps _ (by omega) (by omega)]
  congr 1
  omega

/-- An object constructed behind the items becomes the last one. -/
theorem Holds.store (h : Holds object vector memory contents) (hroom : vector.items<vector.capacity)
    {bytes : List UInt8} (hb : bytes.length=object.size) :
    Holds object {vector with items := u64 (vector.items+1)}
      (storeBytes memory (item object.size vector vector.items) bytes)
      (contents++[object.value bytes]) := by
  have hpos := object.size_pos
  have hsmall := h.allocated.small
  have hcount := Nat.le_mul_of_pos_right vector.capacity hpos
  have hlength := h.length_eq
  rw [h.item_of_lt hroom,u64_of_lt (by omega)]
  refine ⟨h.allocated,hroom,by rw [List.length_append,List.length_singleton,← hlength],?_⟩
  intro i value hv
  dsimp only
  rcases Nat.lt_or_ge i contents.length with hi|hi
  · rw [List.getElem?_append_left hi] at hv
    have hbounds := h.bounds hi
    rw [← h.load_eq i value hv]
    exact load_relocated (fun k hk => storeBytes_outside memory (by omega))
  · rw [List.getElem?_append_right hi] at hv
    obtain ⟨hzero,hvalue⟩ := List.getElem?_eq_some_iff.mp hv
    rw [List.length_singleton] at hzero
    have hlast : i=vector.items := by omega
    rw [hlast,load,← hb,bytesAt_storeBytes,← hvalue]
    simp

/-- `append` appends. -/
theorem Holds.append (h : Holds object vector memory contents) {bytes : List UInt8}
    {grant : Grant} (hb : bytes.length=object.size)
    (hs : vector.items=vector.capacity →
      Served object.size vector memory (newCapacity vector) grant) :
    Holds object (append object.size vector memory bytes grant).1
      (append object.size vector memory bytes grant).2 (contents++[object.value bytes]) := by
  unfold Vectors.append
  by_cases hfull : vector.items=vector.capacity
  · have hserved := hs hfull
    have hpos := object.size_pos
    have hsmall := h.allocated.small
    have hcount := Nat.le_mul_of_pos_right vector.capacity hpos
    have hlarger : vector.capacity<newCapacity vector := by
      unfold newCapacity
      split
      · omega
      · rw [u64_of_lt (by omega)]
        omega
    rw [if_pos hfull]
    refine (h.grow hserved hlarger.le).store ?_ hb
    change vector.items<newCapacity vector
    omega
  · rw [if_neg hfull]
    exact h.store (lt_of_le_of_ne h.items_le hfull) hb

/-- `pop` returns the last object and drops it. -/
theorem Holds.pop (h : Holds object vector memory contents) (hn : 0<vector.items) :
    contents.getLast?=some (pop object vector memory).1 ∧
      Holds object (pop object vector memory).2 memory contents.dropLast := by
  have hlength := h.length_eq
  have hitems := h.items_le
  have hpos := object.size_pos
  have hcount := Nat.le_mul_of_pos_right vector.capacity hpos
  have hsmall := h.allocated.small
  have hlast : u64Sub vector.items 1=contents.length-1 := by
    rw [u64Sub_of_le hn (by omega),hlength]
  unfold Vectors.pop
  rw [hlast]
  constructor
  · rw [List.getLast?_eq_getElem?,List.getElem?_eq_getElem (by omega)]
    exact congrArg some (h.get_eq (List.getElem?_eq_getElem (by omega))).symm
  · refine ⟨h.allocated,by dsimp only; omega,by rw [List.length_dropLast],fun i value hv => ?_⟩
    obtain ⟨hi,-⟩ := List.getElem?_eq_some_iff.mp hv
    rw [List.length_dropLast] at hi
    rw [List.getElem?_dropLast,if_pos hi] at hv
    exact h.load_eq i value hv

/-- A new vector holds the empty list. -/
theorem holds_withCapacity {capacity address : ℕ}
    (h : Allocated object.size capacity address) (memory : Memory) :
    Holds object (withCapacity capacity address) memory [] :=
  ⟨h,Nat.zero_le _,rfl,fun i value hv => by cases hv⟩

end Operations

section Runs

variable {object : Object T}

/-- A state that holds its list. -/
def Sound (object : Object T) (state : VectorState T) : Prop :=
  Holds object state.vector state.memory state.contents

/-- Every legal call keeps the vector and the list together. -/
theorem sound_step (state : VectorState T) (action : VectorAction T) (h : Sound object state)
    (hl : VectorLegal object state action) :
    ∃ next,vectorStep object state action=some next ∧ Sound object next := by
  cases action with
  | append value bytes grant =>
    obtain ⟨hb,rfl,hs⟩ := hl
    exact ⟨_,rfl,Holds.append h hb hs⟩
  | pop => exact ⟨_,rfl,(Holds.pop h hl).2⟩

/-- From any initial capacity, a vector shows the list of what was appended and
not popped, and `pop` returns the last object of that list. -/
theorem vector_refines_list {capacity address : ℕ}
    (h : Allocated object.size capacity address) (memory : Memory)
    {actions : List (VectorAction T)}
    (hl : Each (vectorStep object) (VectorLegal object)
      ⟨withCapacity capacity address,memory,[]⟩ actions) :
    Always (vectorStep object) (Shows object) ⟨withCapacity capacity address,memory,[]⟩ actions ∧
      Each (vectorStep object) (PopsLast object) ⟨withCapacity capacity address,memory,[]⟩
        actions := by
  have hsound : Sound object ⟨withCapacity capacity address,memory,[]⟩ :=
    holds_withCapacity h memory
  constructor
  · exact (always_of_each sound_step hsound hl).imp (fun _ hs => Holds.shows hs)
  · refine each_of_each sound_step (fun state action hs hlegal => ?_) hsound hl
    cases action with
    | append value bytes grant => trivial
    | pop => exact (Holds.pop hs hlegal).1

/-- Single bytes as objects. -/
def byteObject : Object UInt8 := ⟨1,by decide,fun bytes => bytes.getD 0 0⟩

/-- A heap that changes no byte. -/
def quietGrant (address : ℕ) : Grant := ⟨address,id,id⟩

/-- It serves a vector of bytes as long as its storage is apart. -/
theorem served_quiet {vector : Vector} {memory : Memory} {capacity address : ℕ}
    (h : Allocated 1 capacity address)
    (ha : Apart address (capacity*1) vector.storage (vector.capacity*1)) :
    Served 1 vector memory capacity (quietGrant address) :=
  ⟨h,ha,fun _ _ _ => rfl,fun _ _ _ _ => rfl⟩

/-- Two bytes are appended to a vector without storage and one is popped. -/
theorem vector_refines_list_bytes :
    Always (vectorStep byteObject) (Shows byteObject) ⟨withCapacity 0 0,fun _ => 0,[]⟩
      [.append 5 [5] (quietGrant 0x1000),.append 7 [7] (quietGrant 0x2000),.pop] ∧
    Each (vectorStep byteObject) (PopsLast byteObject) ⟨withCapacity 0 0,fun _ => 0,[]⟩
      [.append 5 [5] (quietGrant 0x1000),.append 7 [7] (quietGrant 0x2000),.pop] := by
  have hnone : Allocated byteObject.size 0 0 := ⟨Iff.rfl,by decide,by decide⟩
  have hone : Allocated 1 1 0x1000 := ⟨by decide,by decide,by decide⟩
  have htwo : Allocated 1 2 0x2000 := ⟨by decide,by decide,by decide⟩
  have hlater : Apart 0x1000 (1*1) 0 (0*1) := Or.inr (by decide)
  have hapart : Apart 0x2000 (2*1) 0x1000 (1*1) := Or.inr (by decide)
  refine vector_refines_list hnone _ ⟨⟨rfl,rfl,fun _ => served_quiet hone hlater⟩,?_⟩
  rintro next ⟨⟩
  refine ⟨⟨rfl,rfl,fun _ => served_quiet htwo hapart⟩,?_⟩
  rintro next ⟨⟩
  exact ⟨Nat.zero_lt_two,fun _ _ => trivial⟩

end Runs

end WorkbenchOS.Vectors
