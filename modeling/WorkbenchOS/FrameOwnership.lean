import Mathlib

/-!
# Exclusive ownership of frames

Slots lead to frames. An allocator hands out the frames that are not in use,
and some frames are reserved for bookkeeping. A slot that is claimed must be
the only one that leads to its frame, and that frame must be in use and not
reserved. Four changes keep this: frames come into use, unused frames are
reserved, a slot is led to a frame nothing else leads to, and a claimed slot
gives its frame back.
-/

namespace WorkbenchOS.FrameOwnership

universe u v

variable {Slot : Type u} {Frame : Type v}

/-- Where slots lead, and what frames are used for. -/
structure Ownership (Slot : Type u) (Frame : Type v) where
  /-- The slot leads to the frame. -/
  leads : Slot→Frame→Prop
  /-- The allocator knows the frame. -/
  managed : Frame→Prop
  /-- The allocator does not hand it out. -/
  used : Frame→Prop
  /-- The frame is bookkeeping. -/
  reserved : Frame→Prop

/-- Claimed slots have their frames for themselves. -/
structure Exclusive (claimed : Slot→Prop) (ownership : Ownership Slot Frame) : Prop where
  /-- Frames that are led to are in use. -/
  used : ∀ {slot : Slot} {frame : Frame},ownership.leads slot frame → ownership.used frame
  /-- Frames of claimed slots belong to the allocator. -/
  managed : ∀ {slot : Slot} {frame : Frame},claimed slot → ownership.leads slot frame →
    ownership.managed frame
  /-- Frames of claimed slots are not bookkeeping. -/
  unreserved : ∀ {slot : Slot} {frame : Frame},claimed slot → ownership.leads slot frame →
    ¬ownership.reserved frame
  /-- No other slot leads to the frame of a claimed one. -/
  sole : ∀ {slot other : Slot} {frame : Frame},claimed slot → ownership.leads slot frame →
    ownership.leads other frame → other=slot

/-- A frame in use that nothing leads to. -/
structure Spare (ownership : Ownership Slot Frame) (frame : Frame) : Prop where
  /-- It belongs to the allocator. -/
  managed : ownership.managed frame
  /-- It is in use. -/
  used : ownership.used frame
  /-- It is not bookkeeping. -/
  unreserved : ¬ownership.reserved frame
  /-- Nothing leads to it. -/
  unmapped : ∀ slot,¬ownership.leads slot frame

/-- Frames came into use, and unused ones were reserved. -/
structure Grows (before after : Ownership Slot Frame) : Prop where
  /-- Slots lead where they did. -/
  leads : ∀ slot frame,after.leads slot frame ↔ before.leads slot frame
  /-- The allocator knows the same frames. -/
  managed : ∀ {frame : Frame},before.managed frame → after.managed frame
  /-- No frame was given back. -/
  used : ∀ {frame : Frame},before.used frame → after.used frame
  /-- Frames that were in use were not reserved. -/
  reserved : ∀ {frame : Frame},after.reserved frame → before.reserved frame ∨ ¬before.used frame

/-- One slot was led to a frame. -/
structure Assigns (slot : Slot) (frame : Frame) (before after : Ownership Slot Frame) :
    Prop where
  /-- The slot leads to the frame, the others where they did. -/
  leads : ∀ other found,after.leads other found ↔
    (other=slot ∧ found=frame) ∨ (other≠slot ∧ before.leads other found)
  /-- The allocator knows the same frames. -/
  managed : ∀ {found : Frame},before.managed found → after.managed found
  /-- No frame was given back. -/
  used : ∀ {found : Frame},before.used found → after.used found
  /-- Frames that were in use were not reserved. -/
  reserved : ∀ {found : Frame},after.reserved found → before.reserved found ∨ ¬before.used found

/-- One slot leads nowhere any more and its frame was given back. -/
structure Releases (slot : Slot) (frame : Frame) (before after : Ownership Slot Frame) :
    Prop where
  /-- The other slots lead where they did. -/
  leads : ∀ other found,after.leads other found ↔ other≠slot ∧ before.leads other found
  /-- The allocator knows the same frames. -/
  managed : ∀ {found : Frame},before.managed found → after.managed found
  /-- No other frame was given back. -/
  used : ∀ {found : Frame},before.used found → found≠frame → after.used found
  /-- No frame was reserved. -/
  reserved : ∀ {found : Frame},after.reserved found → before.reserved found

section

variable {claimed others : Slot→Prop} {before middle after : Ownership Slot Frame} {slot : Slot}
  {frame : Frame}

theorem Grows.refl (ownership : Ownership Slot Frame) : Grows ownership ownership :=
  ⟨fun _ _ => Iff.rfl,id,id,Or.inl⟩

theorem Grows.trans (h : Grows before middle) (k : Grows middle after) : Grows before after := by
  refine ⟨fun s f => (k.leads s f).trans (h.leads s f),fun hm => k.managed (h.managed hm),
    fun hu => k.used (h.used hu),?_⟩
  intro f hr
  rcases k.reserved hr with hm|hm
  · exact h.reserved hm
  · exact Or.inr (fun hu => hm (h.used hu))

/-- A frame in use that was not bookkeeping did not become so. -/
theorem Grows.unreserved (h : Grows before after) (hu : before.used frame)
    (hr : ¬before.reserved frame) : ¬after.reserved frame :=
  fun ha => (h.reserved ha).elim hr (fun hn => hn hu)

/-- Growth before an assignment belongs to it. -/
theorem Grows.assigns (h : Grows before middle) (k : Assigns slot frame middle after) :
    Assigns slot frame before after := by
  refine ⟨?_,fun hm => k.managed (h.managed hm),fun hu => k.used (h.used hu),?_⟩
  · intro other found
    rw [k.leads,h.leads]
  · intro found hr
    rcases k.reserved hr with hm|hm
    · exact h.reserved hm
    · exact Or.inr (fun hu => hm (h.used hu))

/-- Nothing leads to a frame that is not in use, so it is spare once it is. -/
theorem Exclusive.spare (h : Exclusive claimed before) (k : Grows before after)
    (hm : after.managed frame) (hn : ¬before.used frame) (hu : after.used frame)
    (hr : ¬after.reserved frame) : Spare after frame :=
  ⟨hm,hu,hr,fun s hs => hn (h.used ((k.leads s frame).mp hs))⟩

/-- A spare frame stays spare. -/
theorem Spare.grows (h : Spare before frame) (k : Grows before after) : Spare after frame :=
  ⟨k.managed h.managed,k.used h.used,k.unreserved h.used h.unreserved,
    fun s hs => h.unmapped s ((k.leads s frame).mp hs)⟩

/-- More frames in use or reserved take nothing from the owners. -/
theorem Exclusive.grows (h : Exclusive claimed before) (k : Grows before after) :
    Exclusive claimed after := by
  refine ⟨fun hs => k.used (h.used ((k.leads _ _).mp hs)),?_,?_,?_⟩
  · intro s f hc hs
    exact k.managed (h.managed hc ((k.leads s f).mp hs))
  · intro s f hc hs
    have hb := (k.leads s f).mp hs
    exact k.unreserved (h.used hb) (h.unreserved hc hb)
  · intro s t f hc hs ht
    exact h.sole hc ((k.leads s f).mp hs) ((k.leads t f).mp ht)

/-- Claims on slots that lead nowhere may be added, and claims given up. -/
theorem Exclusive.reclaim (h : Exclusive claimed before)
    (hc : ∀ {s : Slot} {f : Frame},others s → before.leads s f → claimed s) :
    Exclusive others before :=
  ⟨h.used,fun hs hl => h.managed (hc hs hl) hl,fun hs hl => h.unreserved (hc hs hl) hl,
    fun hs hl ht => h.sole (hc hs hl) hl ht⟩

/-- A slot that is led to a spare frame may be claimed. -/
theorem Exclusive.assigns (h : Exclusive claimed before) (hf : Spare before frame)
    (k : Assigns slot frame before after) :
    Exclusive (fun s => s=slot ∨ claimed s) after := by
  refine ⟨?_,?_,?_,?_⟩
  · intro s f hs
    rcases (k.leads s f).mp hs with ⟨-,rfl⟩|⟨-,hb⟩
    · exact k.used hf.used
    · exact k.used (h.used hb)
  · intro s f hc hs
    rcases (k.leads s f).mp hs with ⟨-,rfl⟩|⟨hne,hb⟩
    · exact k.managed hf.managed
    · exact k.managed (h.managed (hc.resolve_left hne) hb)
  · intro s f hc hs hr
    rcases (k.leads s f).mp hs with ⟨-,rfl⟩|⟨hne,hb⟩
    · exact (k.reserved hr).elim hf.unreserved (fun hn => hn hf.used)
    · exact (k.reserved hr).elim (h.unreserved (hc.resolve_left hne) hb)
        (fun hn => hn (h.used hb))
  · intro s t f hc hs ht
    rcases (k.leads s f).mp hs with ⟨hslot,rfl⟩|⟨hne,hb⟩
    · rcases (k.leads t f).mp ht with ⟨hslot',-⟩|⟨-,hb'⟩
      · rw [hslot,hslot']
      · exact absurd hb' (hf.unmapped t)
    · rcases (k.leads t f).mp ht with ⟨-,rfl⟩|⟨-,hb'⟩
      · exact absurd hb (hf.unmapped s)
      · exact h.sole (hc.resolve_left hne) hb hb'

/-- A claimed slot may give its frame back: nothing else led to it. -/
theorem Exclusive.releases (h : Exclusive claimed before) (hc : claimed slot)
    (hs : before.leads slot frame) (k : Releases slot frame before after) :
    Exclusive claimed after := by
  refine ⟨?_,?_,?_,?_⟩
  · intro s f hl
    obtain ⟨hne,hb⟩ := (k.leads s f).mp hl
    refine k.used (h.used hb) ?_
    rintro rfl
    exact hne (h.sole hc hs hb)
  · intro s f hcs hl
    exact k.managed (h.managed hcs ((k.leads s f).mp hl).2)
  · intro s f hcs hl hr
    exact h.unreserved hcs ((k.leads s f).mp hl).2 (k.reserved hr)
  · intro s t f hcs hl ht
    exact h.sole hcs ((k.leads s f).mp hl).2 ((k.leads t f).mp ht).2

end

end WorkbenchOS.FrameOwnership
