import WorkbenchOS.FatLoops

/-!
# Names in FAT32 directories

`to_8dot3_upper` gives a component of a path the form of a directory entry's
name: the part before the last dot and the part behind it, in capitals, cut off
at eight and three characters and padded with blanks. The name an entry denotes
is that without the padding, so a lookup matches every component with the same
short form, and the component itself only where nothing is cut off or lost in
the padding.
-/

namespace WorkbenchOS.FatNames

open ByteMemory LibStd Fat32 FatFiles FatLoops

section Definitions

/-- Without the blanks at the end. -/
def trimmed (part : List UInt8) : List UInt8 := part.rdropWhile (fun c => decide (c=32))

/-- A base name and an extension, with a dot if there is an extension. -/
def joined (base extension : List UInt8) : List UInt8 :=
  if extension=[] then base else base++46::extension

/-- The name denoted by the eleven characters of an entry. -/
def denotes (name : List UInt8) : List UInt8 :=
  joined (trimmed (name.take 8)) (trimmed (name.drop 8))

/-- The part before the last dot and, if there is a dot, the part behind it. -/
def parts (segment : List UInt8) : List UInt8×Option (List UInt8) :=
  match lastDot segment with
  | some dot => (segment.take dot,some (segment.drop (dot+1)))
  | none => (segment,none)

/-- What the encoding keeps of a part. -/
def kept (width : ℕ) (part : List UInt8) : List UInt8 := trimmed ((part.take width).map upper)

/-- The name an 8.3 entry can have for a component. -/
def shortForm (segment : List UInt8) : List UInt8 :=
  joined (kept 8 (parts segment).1) (kept 3 ((parts segment).2.getD []))

/-- The encoding keeps all of a part. -/
def FitsIn (width : ℕ) (part : List UInt8) : Prop := part.length≤width ∧ part.getLast?≠some 32

/-- The encoding keeps all of a component. -/
structure Fits (segment : List UInt8) : Prop where
  /-- The base name. -/
  base : FitsIn 8 (parts segment).1
  /-- The extension, which is not empty when there is a dot. -/
  extension : ∀ extension, (parts segment).2=some extension → extension≠[] ∧ FitsIn 3 extension

/-- Eleven characters that are a padded base name and extension. -/
structure ValidName (name : List UInt8) : Prop where
  /-- There are eleven. -/
  length_eq : name.length=11
  /-- The base name has a character. -/
  base_ne_nil : trimmed (name.take 8)≠[]
  /-- The characters are capitals, and neither blanks, dots nor separators. -/
  plain : ∀ c∈trimmed (name.take 8)++trimmed (name.drop 8),
    upper c=c ∧ c≠32 ∧ c≠46 ∧ isSeparator c=false

/-- The lookup of a component stops at the entry. -/
structure Matched (segment : List UInt8) (entry : DirEntShort) : Prop where
  /-- The directory goes on. -/
  more : entry.first≠0
  /-- The entry is in use. -/
  used : entry.isSkipped=false
  /-- Its name is the one wanted. -/
  named : entry.name=to8dot3Upper segment

/-- A component of a path has no separator. -/
def Plain (segment : List UInt8) : Prop := ∀ c∈segment,isSeparator c=false

end Definitions

section Parts

/-- A dot splits the text around it. -/
theorem eq_take_lastDot {segment : List UInt8} {dot : ℕ} (h : lastDot segment=some dot) :
    segment=segment.take dot++46::segment.drop (dot+1) := by
  induction segment generalizing dot with
  | nil => cases h
  | cons c rest ih =>
    rw [lastDot] at h
    cases hrest : lastDot rest with
    | some later =>
      rw [hrest] at h
      cases h
      rw [List.take_succ_cons,List.drop_succ_cons,List.cons_append,← ih hrest]
    | none =>
      rw [hrest] at h
      by_cases hc : c=46
      · simp only [if_pos hc] at h
        cases h
        rw [hc]
        rfl
      · simp only [if_neg hc] at h
        cases h

/-- A component is its parts, with a dot between them. -/
theorem parts_eq (segment : List UInt8) :
    segment=match (parts segment).2 with
      | some extension => (parts segment).1++46::extension
      | none => (parts segment).1 := by
  unfold parts
  cases hdot : lastDot segment with
  | some dot => exact eq_take_lastDot hdot
  | none => rfl

/-- The encoding of a component from its parts. -/
theorem to8dot3Upper_eq {segment : List UInt8} (h : Plain segment) :
    to8dot3Upper segment=padded 8 (parts segment).1++padded 3 ((parts segment).2.getD []) := by
  have hhead : (segment.head?.map isSeparator).getD false=false := by
    cases segment with
    | nil => rfl
    | cons c rest => exact h c List.mem_cons_self
  have hbody : segment.takeWhile (fun c => !isSeparator c)=segment := by
    rw [List.takeWhile_eq_self_iff]
    intro c hc
    rw [h c hc]
    rfl
  unfold to8dot3Upper parts
  simp only [hhead,Bool.false_eq_true,if_false,hbody]
  cases lastDot segment with
  | some dot => rfl
  | none => rfl

end Parts

section Padding

variable {width : ℕ} {part : List UInt8}

/-- Only the blank has the capital blank. -/
theorem upper_eq_blank_iff (c : UInt8) : upper c=32 ↔ c=32 := by
  unfold upper
  by_cases hletter : 97≤c ∧ c≤122
  · rw [if_pos hletter]
    have hlow := UInt8.le_iff_toNat_le.mp hletter.1
    have hhigh := UInt8.le_iff_toNat_le.mp hletter.2
    rw [← UInt8.toNat_inj,← UInt8.toNat_inj,UInt8.toNat_sub_of_le c 32 (by
      rw [UInt8.le_iff_toNat_le]
      simp only [UInt8.reduceToNat] at hlow ⊢
      omega)]
    simp only [UInt8.reduceToNat] at hlow hhigh ⊢
    omega
  · rw [if_neg hletter]

/-- A padded part has its width. -/
theorem length_padded (width : ℕ) (part : List UInt8) : (padded width part).length=width := by
  have hle := List.length_take_le width part
  simp only [padded,List.length_append,List.length_map,List.length_replicate]
  omega

/-- Trimming takes the padding away. -/
theorem trimmed_padded (width : ℕ) (part : List UInt8) :
    trimmed (padded width part)=kept width part := by
  have hblank : ∀ count : ℕ, ∀ front : List UInt8,
      trimmed (front++List.replicate count 32)=trimmed front := by
    intro count front
    induction count with
    | zero => rw [List.replicate_zero,List.append_nil]
    | succ count ih =>
      rw [List.replicate_succ',← List.append_assoc,trimmed,List.rdropWhile_concat_pos _ _ _ (by simp)]
      exact ih
  exact hblank _ _

/-- What is kept of a part is a beginning of its capitals. -/
theorem kept_begins (width : ℕ) (part : List UInt8) : kept width part<+: part.map upper :=
  (List.rdropWhile_prefix _ _).trans ((List.take_prefix width part).map upper)

/-- All of a part is kept exactly when it fits. -/
theorem kept_eq_iff : kept width part=part.map upper ↔ FitsIn width part := by
  refine ⟨fun h => ?_,fun ⟨hlength,hlast⟩ => ?_⟩
  · have hle : part.length≤width := by
      have htrim := (List.rdropWhile_prefix (fun c => decide (c=32)) ((part.take width).map upper)).length_le
      have hall := congrArg List.length h
      rw [kept,trimmed] at hall
      rw [hall,List.length_map,List.length_map,List.length_take] at htrim
      omega
    rw [kept,List.take_of_length_le hle,trimmed,List.rdropWhile_eq_self_iff] at h
    refine ⟨hle,fun hlast => ?_⟩
    have hne : part≠[] := by
      rintro rfl
      cases hlast
    have hblank := h (by simpa using hne)
    rw [List.getLast_map,decide_eq_true_eq,upper_eq_blank_iff] at hblank
    rw [List.getLast?_eq_some_getLast hne] at hlast
    exact hblank (Option.some.inj hlast)
  · rw [kept,List.take_of_length_le hlength,trimmed,List.rdropWhile_eq_self_iff]
    intro hne
    have hpart : part≠[] := by simpa using hne
    rw [List.getLast_map,decide_eq_true_eq,upper_eq_blank_iff]
    rw [List.getLast?_eq_some_getLast hpart] at hlast
    exact fun hblank => hlast (congrArg some hblank)

end Padding

section Lookups

variable {segment : List UInt8}

/-- The encoded name denotes the short form. -/
theorem denotes_to8dot3Upper (h : Plain segment) :
    denotes (to8dot3Upper segment)=shortForm segment := by
  have hbase := length_padded 8 (parts segment).1
  rw [denotes,to8dot3Upper_eq h,List.take_left' hbase,List.drop_left' hbase,trimmed_padded,
    trimmed_padded,shortForm]

/-- The dot is its own capital. -/
theorem map_upper_parts (base extension : List UInt8) :
    (base++46::extension).map upper=base.map upper++46::extension.map upper := by
  rw [List.map_append,List.map_cons]
  rfl

/-- Two parts with a dot are kept exactly when both fit and there is something
behind the dot. -/
theorem joined_eq_iff (base extension : List UInt8) :
    joined (kept 8 base) (kept 3 extension)=(base++46::extension).map upper ↔
      FitsIn 8 base ∧ extension≠[] ∧ FitsIn 3 extension := by
  have hbase := (kept_begins 8 base).length_le
  have hext := (kept_begins 3 extension).length_le
  rw [List.length_map] at hbase hext
  rw [map_upper_parts]
  refine ⟨fun h => ?_,fun ⟨hfits,hne,hshort⟩ => ?_⟩
  · have hlength := congrArg List.length h
    rw [List.length_append,List.length_cons,List.length_map,List.length_map] at hlength
    by_cases hnone : kept 3 extension=[]
    · rw [joined,if_pos hnone] at hlength
      omega
    · rw [joined,if_neg hnone] at h hlength
      rw [List.length_append,List.length_cons] at hlength
      -- neither part can be longer than its original, so both have its length
      obtain ⟨hfront,hback⟩ := List.append_inj h (by rw [List.length_map]; omega)
      have hkept : kept 3 extension=extension.map upper := List.tail_eq_of_cons_eq hback
      refine ⟨kept_eq_iff.mp hfront,fun hempty => hnone ?_,kept_eq_iff.mp hkept⟩
      rw [hkept,hempty,List.map_nil]
  · have hmap : extension.map upper≠[] := by simpa using hne
    rw [kept_eq_iff.mpr hfits,kept_eq_iff.mpr hshort,joined,if_neg hmap]

/-- The short form is the component in capitals exactly when it fits. -/
theorem shortForm_eq_iff (segment : List UInt8) :
    shortForm segment=segment.map upper ↔ Fits segment := by
  have hsegment := parts_eq segment
  cases hext : (parts segment).2 with
  | none =>
    rw [hext] at hsegment
    have hnone : kept 3 []=[] := rfl
    have hform : shortForm segment=kept 8 (parts segment).1 := by
      rw [shortForm,hext,Option.getD_none,hnone,joined,if_pos rfl]
    have hmap : segment.map upper=(parts segment).1.map upper := congrArg (List.map upper) hsegment
    rw [hform,hmap,kept_eq_iff]
    exact ⟨fun h => ⟨h,fun other hother => by rw [hext] at hother; cases hother⟩,fun h => h.base⟩
  | some extension =>
    rw [hext] at hsegment
    have hform : shortForm segment=joined (kept 8 (parts segment).1) (kept 3 extension) := by
      rw [shortForm,hext,Option.getD_some]
    have hmap : segment.map upper=((parts segment).1++46::extension).map upper :=
      congrArg (List.map upper) hsegment
    rw [hform,hmap,joined_eq_iff]
    refine ⟨fun h => ⟨h.1,fun other hother => ?_⟩,fun h => ⟨h.base,h.extension extension hext⟩⟩
    rw [hext] at hother
    exact Option.some.inj hother▸h.2

/-- What a lookup returns is matched. -/
theorem findInDirectory_matched {volume : Volume} {heap : Except Error Memory} {dir : ℕ}
    {entry : DirEntShort}
    (h : findInDirectory volume heap dir (to8dot3Upper segment)=some (.ok entry)) :
    Matched segment entry := by
  obtain ⟨filled,hscan⟩ := findInDirectory_scan h
  rw [scanEntries_eq,scanList_found_iff] at hscan
  have hmore := List.mem_takeWhile_imp (List.mem_of_find?_eq_some hscan)
  have hwanted := List.find?_some hscan
  simp only [wanted,Bool.and_eq_true,Bool.not_eq_true',decide_eq_true_eq] at hmore hwanted
  exact ⟨hmore,hwanted.1,hwanted.2⟩

/-- The entry a lookup matches denotes the short form of the component, which
is the component in capitals exactly when nothing of it is cut off or lost in
the padding. -/
theorem matched_denotes (hplain : Plain segment) {entry : DirEntShort}
    (h : Matched segment entry) :
    denotes entry.name=shortForm segment ∧
      (denotes entry.name=segment.map upper ↔ Fits segment) := by
  have hdenotes : denotes entry.name=shortForm segment := by
    rw [h.named]
    exact denotes_to8dot3Upper hplain
  exact ⟨hdenotes,by rw [hdenotes]; exact shortForm_eq_iff segment⟩

/-- The sample file under its own name, `a.txt`. -/
theorem matched_denotes_sample :
    denotes sampleEntry.name=shortForm [97,46,116,120,116] ∧
      (denotes sampleEntry.name=[97,46,116,120,116].map upper ↔ Fits [97,46,116,120,116]) :=
  matched_denotes (by unfold Plain; decide +kernel) ⟨by decide,by decide,by decide +kernel⟩

/-- An entry with the short name `LONGFILE.TXT`. -/
def longEntry : DirEntShort where
  name := [76,79,78,71,70,73,76,69,84,88,84]
  attr := 0x20
  fstClusHI := 0
  fstClusLO := 3
  fileSize := 0

theorem longEntry_valid : ValidName longEntry.name where
  length_eq := rfl
  base_ne_nil := by decide +kernel
  plain := by decide +kernel

/-- `longfilename.txt` is matched by `LONGFILE.TXT`. -/
theorem matched_not_always_named : ¬∀ (segment : List UInt8) (entry : DirEntShort),
    segment≠[] → segment.length≤255 → Plain segment → ValidName entry.name →
      Matched segment entry → denotes entry.name=segment.map upper := by
  intro hall
  have hnamed := hall [108,111,110,103,102,105,108,101,110,97,109,101,46,116,120,116] longEntry
    (by decide) (by decide) (by unfold Plain; decide +kernel) longEntry_valid
    ⟨by decide,by decide,by decide +kernel⟩
  exact absurd hnamed (by decide +kernel)

end Lookups

end WorkbenchOS.FatNames
