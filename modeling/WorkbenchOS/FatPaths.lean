import WorkbenchOS.FatLoops
import WorkbenchOS.SeparatedWords

/-!
# Paths of the FAT32 driver

`walk_path` looks up the components of a path one after the other. Its scanner
keeps a rest of the path and decides from the character behind a component
whether a directory is wanted; what it computes is a fold over the components,
and the separators matter only where the last character of the path is one.
-/

namespace WorkbenchOS.FatPaths

open ByteMemory LibStd Fat32 FatLoops SeparatedWords

section Definitions

/-- The components of a path. -/
def components (path : List UInt8) : List (List UInt8) := words isSeparator path

/-- The path ends with a separator, so it has to lead to a directory. -/
def directoryAsked (path : List UInt8) : Bool := endsSeparated isSeparator path

/-- `find_in_directory` for one component, the request for its buffer being the
one of this number. -/
def lookup (volume : Volume) (heap : ℕ→Except Error Memory) (asked dir : ℕ)
    (component : List UInt8) : Option (Except Error DirEntShort) :=
  findInDirectory volume (heap asked) dir (to8dot3Upper component)

/-- The fold of the lookups over the components. -/
def resolve (volume : Volume) (heap : ℕ→Except Error Memory) (directory : Bool) :
    (asked dir : ℕ)→List (List UInt8)→Option (Except Error (DirEntShort×ℕ))
  | _,_,[] => some (.error (.fromCode 1))
  | asked,dir,component::rest =>
    if 256≤component.length then some (.error (.fromCode 1))
    else
      match lookup volume heap asked dir component with
      | none => none
      | some (.error error) => some (.error error)
      | some (.ok entry) =>
        if rest=[] then
          if directory ∧ entry.isDirectory=false then some (.error (.fromCode 1))
          else some (.ok (entry,asked+1))
        else if entry.isDirectory then
          resolve volume heap directory (asked+1) entry.firstCluster rest
        else some (.error (.fromCode 1))

/-- The components lead from a directory to the entry. -/
inductive Leads (volume : Volume) (heap : ℕ→Except Error Memory) (directory : Bool) :
    (asked dir : ℕ)→List (List UInt8)→DirEntShort→Prop
  /-- The last component. -/
  | last {asked dir : ℕ} {component : List UInt8} {entry : DirEntShort}
      (short : component.length<256)
      (found : lookup volume heap asked dir component=some (.ok entry))
      (kind : directory=true → entry.isDirectory=true) :
      Leads volume heap directory asked dir [component] entry
  /-- A directory, and what the other components lead to from there. -/
  | step {asked dir : ℕ} {component : List UInt8} {rest : List (List UInt8)}
      {entry final : DirEntShort} (short : component.length<256)
      (found : lookup volume heap asked dir component=some (.ok entry))
      (kind : entry.isDirectory=true)
      (below : Leads volume heap directory (asked+1) (entry.fstClusHI*65536+entry.fstClusLO) rest
        final) :
      Leads volume heap directory asked dir (component::rest) final

end Definitions

section Scanner

variable {volume : Volume} {heap : ℕ→Except Error Memory}

/-- What is left of a path behind a component and the separators. -/
theorem scanned_components {path : List UInt8} (hne : path≠[])
    (hhead : ∀ c∈path.head?,isSeparator c=false) :
    components path=path.takeWhile (fun c => !isSeparator c)::
      components ((path.dropWhile (fun c => !isSeparator c)).dropWhile isSeparator) := by
  rw [components,components,words_takeWhile hne hhead,words_dropWhile]

/-- A path of one component asks for none. -/
theorem directoryAsked_component {path : List UInt8}
    (hend : path.dropWhile (fun c => !isSeparator c)=[]) : directoryAsked path=false := by
  have hall := List.takeWhile_append_dropWhile (p:=fun c => !isSeparator c) (l:=path)
  rw [hend,List.append_nil] at hall
  refine endsSeparated_word (fun c hc => ?_)
  rw [← hall] at hc
  simpa using List.mem_takeWhile_imp hc

/-- The path behind a component ends as the path does. -/
theorem scanned_directoryAsked {path : List UInt8}
    (hbehind : path.dropWhile (fun c => !isSeparator c)≠[]) :
    directoryAsked path=directoryAsked (path.dropWhile (fun c => !isSeparator c)) := by
  have hall := List.takeWhile_append_dropWhile (p:=fun c => !isSeparator c) (l:=path)
  rw [directoryAsked,directoryAsked,← endsSeparated_append (path.takeWhile (fun c => !isSeparator c))
    hbehind,hall]

/-- So does what is left when separators are skipped, if anything is. -/
theorem skipped_directoryAsked {path : List UInt8} (hrest : path.dropWhile isSeparator≠[]) :
    directoryAsked path=directoryAsked (path.dropWhile isSeparator) := by
  have hall := List.takeWhile_append_dropWhile (p:=isSeparator) (l:=path)
  rw [directoryAsked,directoryAsked,← endsSeparated_append (path.takeWhile isSeparator) hrest,hall]

/-- The first character behind skipped separators is none. -/
theorem head_skipped (path : List UInt8) :
    ∀ c∈(path.dropWhile isSeparator).head?,isSeparator c=false := by
  intro c hc
  have hfirst := List.head?_dropWhile_not isSeparator path
  rw [hc] at hfirst
  simpa using hfirst

/-- Only separators behind a component. -/
theorem directoryAsked_separators {behind : List UInt8} (hne : behind≠[])
    (hskip : behind.dropWhile isSeparator=[]) : directoryAsked behind=true :=
  endsSeparated_gap hne (List.dropWhile_eq_nil_iff.mp hskip)

/-- What is left behind a component is shorter than the path. -/
theorem length_skipped_lt {path : List UInt8} (hne : path≠[])
    (hhead : ∀ c∈path.head?,isSeparator c=false) :
    ((path.dropWhile (fun c => !isSeparator c)).dropWhile isSeparator).length<path.length := by
  have hpos := List.length_pos_of_ne_nil (takeWhile_ne_nil hne hhead)
  have hall := congrArg List.length
    (List.takeWhile_append_dropWhile (p:=fun c => !isSeparator c) (l:=path))
  have hle := (List.dropWhile_sublist isSeparator (l:=path.dropWhile (fun c => !isSeparator c))).length_le
  rw [List.length_append] at hall
  omega

/-- There is another component exactly when something is left. -/
theorem components_skipped_iff (behind : List UInt8) :
    components (behind.dropWhile isSeparator)=[] ↔ behind.dropWhile isSeparator=[] := by
  rw [components,words_dropWhile]
  exact words_eq_nil_iff behind

/-- The scanner's loop is the fold over the components. -/
theorem walkLoop_eq {path : List UInt8} {fuel dir asked : ℕ} (hne : path≠[])
    (hhead : ∀ c∈path.head?,isSeparator c=false) (hfuel : path.length≤fuel) :
    walkLoop volume heap fuel path dir asked=
      resolve volume heap (directoryAsked path) asked dir (components path) := by
  induction fuel generalizing path dir asked with
  | zero => exact absurd (List.eq_nil_of_length_eq_zero (Nat.le_zero.mp hfuel)) hne
  | succ fuel ih =>
    have hshorter := length_skipped_lt hne hhead
    have hcomponent := @directoryAsked_component path
    have hscanned := @scanned_directoryAsked path
    rw [walkLoop,scanned_components hne hhead,resolve,lookup]
    obtain ⟨segment,hsegment⟩ : ∃ segment,path.takeWhile (fun c => !isSeparator c)=segment := ⟨_,rfl⟩
    obtain ⟨behind,hbehind⟩ : ∃ behind,path.dropWhile (fun c => !isSeparator c)=behind := ⟨_,rfl⟩
    rw [hbehind] at hshorter hcomponent hscanned
    rw [hsegment,hbehind]
    by_cases hlong : 256≤ segment.length
    · rw [if_pos hlong,if_pos hlong]
    · rw [if_neg hlong,if_neg hlong]
      cases findInDirectory volume (heap asked) dir (to8dot3Upper segment) with
      | none => rfl
      | some answer =>
        cases answer with
        | error error => rfl
        | ok entry =>
          dsimp only
          by_cases hend : behind=[]
          · -- the component ends the path
            have hnone : components (behind.dropWhile isSeparator)=[] := by rw [hend]; rfl
            rw [if_pos hend,if_pos hnone,hcomponent hend,if_neg (by simp)]
          · rw [if_neg hend,hscanned hend]
            by_cases hskip : behind.dropWhile isSeparator=[]
            · -- only separators follow
              rw [if_pos ((components_skipped_iff behind).mpr hskip),
                directoryAsked_separators hend hskip,if_pos hskip]
              cases entry.isDirectory <;> rfl
            · -- another component follows
              rw [if_neg (fun h => hskip ((components_skipped_iff behind).mp h)),if_neg hskip,
                skipped_directoryAsked hskip,ih hskip (head_skipped behind) (by omega)]

/-- `walk_path` is the fold over the components of its path. -/
theorem walkPath_eq (path : List UInt8) : walkPath volume heap path=
    resolve volume heap (directoryAsked path) 0 volume.rootCluster (components path) := by
  rw [walkPath]
  by_cases hempty : path=[]
  · rw [if_pos hempty,hempty]
    rfl
  · rw [if_neg hempty]
    dsimp only
    by_cases hskip : path.dropWhile isSeparator=[]
    · have hnone : components path=[] := (words_eq_nil_iff path).mpr hskip
      rw [if_pos hskip,hnone,resolve]
    · have hparts : components (path.dropWhile isSeparator)=components path := words_dropWhile path
      rw [if_neg hskip,walkLoop_eq hskip (head_skipped path) le_rfl,hparts,
        ← skipped_directoryAsked hskip]

end Scanner

section Results

variable {volume : Volume} {heap : ℕ→Except Error Memory} {directory : Bool}

/-- The first cluster of an entry that was read from a directory. -/
theorem firstCluster_entryAt (memory : Memory) (address : ℕ) :
    (entryAt memory address).firstCluster=
      (entryAt memory address).fstClusHI*65536+(entryAt memory address).fstClusLO := by
  have hlow : (entryAt memory address).fstClusLO<2^16 := readLE_lt memory (address+26) 2
  rw [DirEntShort.firstCluster,← Nat.shiftLeft_add_eq_or_of_lt hlow,Nat.shiftLeft_eq]

/-- The first cluster of an entry a lookup found. -/
theorem firstCluster_found {asked dir : ℕ} {component : List UInt8} {entry : DirEntShort}
    (h : lookup volume heap asked dir component=some (.ok entry)) :
    entry.firstCluster=entry.fstClusHI*65536+entry.fstClusLO := by
  obtain ⟨memory,address,hentry⟩ := findInDirectory_entryAt h
  rw [hentry]
  exact firstCluster_entryAt memory address

/-- What the components lead to is what the fold returns. -/
theorem Leads.resolve_eq {asked dir : ℕ} {parts : List (List UInt8)} {entry : DirEntShort}
    (h : Leads volume heap directory asked dir parts entry) :
    ∃ requests,resolve volume heap directory asked dir parts=some (.ok (entry,requests)) := by
  induction h with
  | @last asked dir component entry short found kind =>
    have hkind : ¬(directory=true ∧ entry.isDirectory=false) := by
      rintro ⟨hasked,hfile⟩
      rw [kind hasked] at hfile
      cases hfile
    refine ⟨asked+1,?_⟩
    rw [resolve,if_neg (by omega),found]
    simp only [if_true]
    rw [if_neg hkind]
  | @step asked dir component rest entry final short found kind below ih =>
    obtain ⟨requests,hrest⟩ := ih
    have hne : rest≠[] := by
      cases below with
      | last => exact List.cons_ne_nil _ _
      | step => exact List.cons_ne_nil _ _
    refine ⟨requests,?_⟩
    rw [resolve,if_neg (by omega),found]
    simp only [if_neg hne,if_pos kind]
    rw [firstCluster_found found]
    exact hrest

/-- What the fold returns is what the components lead to. -/
theorem leads_of_resolve {asked dir requests : ℕ} {parts : List (List UInt8)} {entry : DirEntShort}
    (h : resolve volume heap directory asked dir parts=some (.ok (entry,requests))) :
    Leads volume heap directory asked dir parts entry := by
  induction parts generalizing asked dir with
  | nil => cases h
  | cons component rest ih =>
    rw [resolve] at h
    by_cases hlong : 256≤component.length
    · rw [if_pos hlong] at h
      cases h
    · rw [if_neg hlong] at h
      cases hfind : lookup volume heap asked dir component with
      | none => rw [hfind] at h; cases h
      | some answer =>
        rw [hfind] at h
        cases answer with
        | error error => cases h
        | ok found =>
          dsimp only at h
          by_cases hend : rest=[]
          · rw [if_pos hend] at h
            by_cases hkind : directory=true ∧ found.isDirectory=false
            · rw [if_pos hkind] at h
              cases h
            · rw [if_neg hkind] at h
              cases h
              rw [hend]
              refine .last (by omega) hfind (fun hasked => ?_)
              cases hfile : entry.isDirectory with
              | true => rfl
              | false => exact absurd ⟨hasked,hfile⟩ hkind
          · rw [if_neg hend] at h
            by_cases hkind : found.isDirectory=true
            · rw [if_pos hkind,firstCluster_found hfind] at h
              exact .step (by omega) hfind hkind (ih h)
            · rw [if_neg hkind] at h
              cases h

/-- Asking for a directory only asks that the last entry is one. -/
theorem leads_directory_iff {asked dir : ℕ} {parts : List (List UInt8)} {entry : DirEntShort}
    (directory : Bool) : Leads volume heap true asked dir parts entry ↔
      Leads volume heap directory asked dir parts entry ∧ entry.isDirectory=true := by
  refine ⟨fun h => ?_,fun ⟨h,hkind⟩ => ?_⟩
  · induction h with
    | last short found kind => exact ⟨.last short found (fun _ => kind rfl),kind rfl⟩
    | step short found kind below ih => exact ⟨.step short found kind ih.1,ih.2⟩
  · induction h with
    | last short found kind => exact .last short found (fun _ => hkind)
    | step short found kind below ih => exact .step short found kind (ih ⟨below,hkind⟩ hkind)

/-- `walk_path` returns an entry exactly when the components of the path lead
to it. -/
theorem walkPath_leads (path : List UInt8) (entry : DirEntShort) :
    (∃ requests,walkPath volume heap path=some (.ok (entry,requests))) ↔
      Leads volume heap (directoryAsked path) 0 volume.rootCluster (components path) entry := by
  rw [walkPath_eq]
  exact ⟨fun ⟨requests,h⟩ => leads_of_resolve h,fun h => h.resolve_eq⟩

/-- Separators between two parts of a path, one or more and of either kind. -/
theorem walkPath_gap {front back gap other : List UInt8} (hgap : gap≠[])
    (hgaps : ∀ c∈gap,isSeparator c=true) (hother : other≠[])
    (hothers : ∀ c∈other,isSeparator c=true) :
    walkPath volume heap (front++(gap++back))=walkPath volume heap (front++(other++back)) := by
  have hparts : components (front++(gap++back))=components (front++(other++back)) := by
    rw [components,components,words_append_gap hgap hgaps,words_append_gap hother hothers]
  have hasked : directoryAsked (front++(gap++back))=directoryAsked (front++(other++back)) := by
    unfold directoryAsked
    by_cases hback : back=[]
    · rw [hback,List.append_nil,List.append_nil,endsSeparated_append front hgap,
        endsSeparated_append front hother,endsSeparated_gap hgap hgaps,
        endsSeparated_gap hother hothers]
    · rw [← List.append_assoc,← List.append_assoc,endsSeparated_append _ hback,
        endsSeparated_append _ hback]
  rw [walkPath_eq,walkPath_eq,hparts,hasked]

/-- `walk_path` is the fold of the lookups over the components, and depends on
the separators only in that one at the end asks for a directory. -/
theorem walkPath_iff (volume : Volume) (heap : ℕ→Except Error Memory) (path : List UInt8)
    (entry : DirEntShort) :
    ((∃ requests,walkPath volume heap path=some (.ok (entry,requests))) ↔
      Leads volume heap (directoryAsked path) 0 volume.rootCluster (components path) entry) ∧
    ∀ other, components other=components path →
      (directoryAsked other=directoryAsked path →
        walkPath volume heap other=walkPath volume heap path) ∧
      (directoryAsked other=true →
        ((∃ requests,walkPath volume heap other=some (.ok (entry,requests))) ↔
          (∃ requests,walkPath volume heap path=some (.ok (entry,requests))) ∧
            entry.isDirectory=true)) := by
  refine ⟨walkPath_leads path entry,fun other hparts => ⟨fun hasked => ?_,fun hasked => ?_⟩⟩
  · rw [walkPath_eq,walkPath_eq,hparts,hasked]
  · rw [walkPath_leads,walkPath_leads,hparts,hasked]
    exact leads_directory_iff (directoryAsked path)

end Results

end WorkbenchOS.FatPaths
