import Mathlib

/-!
# Ordered lists of address spans

The abstract free list of a coalescing allocator. A span is a start and a
size; a free list is separated when every span ends strictly before the
next one starts, so no two of its spans could be merged. Releasing a span
puts it in address order and joins it with the neighbours it touches;
first fit splits the list at the first span that is large enough. A release
keeps separation and covers exactly the expected addresses.
-/

namespace WorkbenchOS.SpanLists

/-- A range of addresses. -/
structure Span where
  /-- First address of the range. -/
  start : ℕ
  /-- Number of addresses in the range. -/
  size : ℕ
  deriving DecidableEq,Repr

/-- First address after the span. -/
def Span.stop (span : Span) : ℕ := span.start+span.size

/-- The address belongs to the span. -/
def Span.Holds (span : Span) (x : ℕ) : Prop := span.start≤x ∧ x<span.stop

/-- The spans share no address, in the form linear arithmetic uses. -/
def Span.Apart (first second : Span) : Prop :=
  first.stop≤ second.start ∨ second.stop≤first.start

/-- The span lies inside the range. -/
def Span.Inside (span : Span) (low high : ℕ) : Prop := low≤ span.start ∧ span.stop≤high

/-- Apartness is symmetric. -/
theorem Span.Apart.symm {first second : Span} (h : first.Apart second) : second.Apart first :=
  Or.symm h

/-- Every span ends strictly before all later ones: sorted, disjoint and
nowhere touching. -/
def Separated (spans : List Span) : Prop :=
  spans.Pairwise (fun first second => first.stop<second.start)

/-- Every span ends where a later one starts or before: sorted and disjoint,
but spans may touch. -/
def Ascending (spans : List Span) : Prop :=
  spans.Pairwise (fun first second => first.stop≤ second.start)

/-- A separated list is ascending. -/
theorem Separated.ascending {spans : List Span} (h : Separated spans) : Ascending spans :=
  h.imp (fun hlt => hlt.le)

/-- Number of addresses in all spans together. -/
def total (spans : List Span) : ℕ := (spans.map Span.size).sum

/-- Some span of the list holds the address. -/
def Covered (spans : List Span) (x : ℕ) : Prop := ∃ span∈spans,span.Holds x

@[simp] theorem total_nil : total []=0 := rfl

@[simp] theorem total_cons (span : Span) (rest : List Span) :
    total (span::rest)=span.size+total rest := rfl

@[simp] theorem total_append (first second : List Span) :
    total (first++second)=total first+total second := by
  simp only [total,List.map_append,List.sum_append]

@[simp] theorem covered_nil (x : ℕ) : ¬Covered [] x := by
  rintro ⟨span,hm,-⟩
  cases hm

@[simp] theorem covered_cons (span : Span) (rest : List Span) (x : ℕ) :
    Covered (span::rest) x ↔ span.Holds x ∨ Covered rest x := by
  simp only [Covered,List.mem_cons,exists_eq_or_imp]

@[simp] theorem covered_append (first second : List Span) (x : ℕ) :
    Covered (first++second) x ↔ Covered first x ∨ Covered second x := by
  induction first with
  | nil => simp
  | cons span rest ih => simp only [List.cons_append,covered_cons,ih,or_assoc]

/-- An ascending list of spans inside a range has at most its size. -/
theorem total_le {spans : List Span} {low high : ℕ} (h : Ascending spans) (hlh : low≤high)
    (hin : ∀ span∈spans,span.Inside low high) : total spans+low≤high := by
  induction spans generalizing low with
  | nil => simpa using hlh
  | cons span rest ih =>
    obtain ⟨hfirst,hrest⟩ := List.pairwise_cons.mp h
    have hs := hin span List.mem_cons_self
    have ht : total rest+span.stop≤high := ih hrest hs.2 (fun later hl =>
      ⟨hfirst later hl,(hin later (List.mem_cons_of_mem _ hl)).2⟩)
    rw [total_cons]
    unfold Span.Inside Span.stop at *
    omega

/-- Spans of at least `least` addresses each, ascending inside a range, are
no more than fit there. -/
theorem length_mul_le {spans : List Span} {low high least : ℕ} (h : Ascending spans)
    (hlh : low≤high) (hin : ∀ span∈spans,span.Inside low high)
    (hleast : ∀ span∈spans,least≤ span.size) : spans.length*least+low≤high := by
  have ht := total_le h hlh hin
  have hl : spans.length*least≤total spans := by
    clear ht hin h
    induction spans with
    | nil => simp
    | cons span rest ih =>
      have hs := hleast span List.mem_cons_self
      have hr := ih (fun later hl => hleast later (List.mem_cons_of_mem _ hl))
      rw [total_cons,List.length_cons,Nat.add_mul,Nat.one_mul]
      omega
  omega

/-- A separated list that fills its range completely is one single span. -/
theorem eq_singleton_of_total {spans : List Span} {low high : ℕ} (h : Separated spans)
    (hlh : low<high) (hin : ∀ span∈spans,span.Inside low high)
    (ht : total spans+low=high) : spans=[⟨low,high-low⟩] := by
  cases spans with
  | nil =>
    rw [total_nil] at ht
    omega
  | cons span rest =>
    obtain ⟨hfirst,hrest⟩ := List.pairwise_cons.mp h
    have hs := hin span List.mem_cons_self
    rw [total_cons] at ht
    cases rest with
    | nil =>
      rw [total_nil] at ht
      unfold Span.Inside Span.stop at hs
      cases span
      simp only [List.cons.injEq,Span.mk.injEq,and_true] at hs ht ⊢
      omega
    | cons later rest =>
      have hg := hfirst later List.mem_cons_self
      have hi := hin later (List.mem_cons_of_mem _ List.mem_cons_self)
      have hin' : ∀ next∈later::rest,next.Inside later.start high := by
        intro next hm
        have hb := (hin next (List.mem_cons_of_mem _ hm)).2
        rcases List.mem_cons.mp hm with rfl|hr
        · exact ⟨le_rfl,hb⟩
        · have hn := (List.pairwise_cons.mp hrest).1 next hr
          exact ⟨(Nat.le_add_right _ _).trans hn.le,hb⟩
      -- the gap before `later` is missing from the total
      have hb := total_le (Separated.ascending hrest) ((Nat.le_add_right _ _).trans hi.2) hin'
      unfold Span.Inside Span.stop at *
      omega

/-- Put a span in front of a list, joining it with the first span when
they touch. -/
def joinFront (span : Span) : List Span→List Span
  | [] => [span]
  | next::rest =>
    if span.stop=next.start then ⟨span.start,span.size+next.size⟩::rest
    else span::next::rest

/-- Put a span back in address order, joined with the neighbours it touches. -/
def release (span : Span) : List Span→List Span
  | [] => [span]
  | first::rest =>
    if span.start<first.start then joinFront span (first::rest)
    else joinFront first (release span rest)

/-- A joined list starts where the span does; behind its first span there are
only spans of the old list. -/
theorem exists_joinFront (span : Span) (spans : List Span) :
    ∃ head rest,joinFront span spans=head::rest ∧ head.start=span.start ∧
      ∀ next∈rest,next∈spans := by
  cases spans with
  | nil => exact ⟨span,[],rfl,rfl,by simp⟩
  | cons next rest =>
    rw [joinFront]
    split
    · exact ⟨_,rest,rfl,rfl,fun _ hm => List.mem_cons_of_mem _ hm⟩
    · exact ⟨span,next::rest,rfl,rfl,fun _ hm => hm⟩

@[simp] theorem total_joinFront (span : Span) (spans : List Span) :
    total (joinFront span spans)=span.size+total spans := by
  cases spans with
  | nil => rfl
  | cons next rest =>
    rw [joinFront]
    split
    · simp only [total_cons]
      omega
    · simp only [total_cons]

/-- No address is lost or gained by a release. -/
@[simp] theorem total_release (span : Span) (spans : List Span) :
    total (release span spans)=span.size+total spans := by
  induction spans with
  | nil => rfl
  | cons first rest ih =>
    rw [release]
    split
    · exact total_joinFront span _
    · rw [total_joinFront,ih,total_cons]
      omega

@[simp] theorem covered_joinFront (span : Span) (spans : List Span) (x : ℕ) :
    Covered (joinFront span spans) x ↔ span.Holds x ∨ Covered spans x := by
  cases spans with
  | nil => simp [joinFront]
  | cons next rest =>
    rw [joinFront]
    split
    · rename_i ht
      simp only [covered_cons,← or_assoc]
      refine or_congr_left ?_
      unfold Span.Holds
      unfold Span.stop at *
      dsimp only
      omega
    · simp only [covered_cons]

/-- The released list covers the old addresses and those of the span. -/
@[simp] theorem covered_release (span : Span) (spans : List Span) (x : ℕ) :
    Covered (release span spans) x ↔ span.Holds x ∨ Covered spans x := by
  induction spans with
  | nil => simp [release]
  | cons first rest ih =>
    rw [release]
    split
    · simp only [covered_joinFront,covered_cons]
    · simp only [covered_joinFront,covered_cons,ih,or_left_comm]

/-- A property of single spans that survives joining holds of the whole
joined list. -/
theorem forall_joinFront {property : Span→Prop}
    (hjoin : ∀ first second, property first → property second → first.stop=second.start →
      property ⟨first.start,first.size+second.size⟩)
    {span : Span} {spans : List Span} (hs : property span) (hl : ∀ next∈spans,property next) :
    ∀ next∈joinFront span spans,property next := by
  cases spans with
  | nil => simpa [joinFront] using hs
  | cons next rest =>
    obtain ⟨hn,hr⟩ := List.forall_mem_cons.mp hl
    rw [joinFront]
    split
    · rename_i ht
      exact List.forall_mem_cons.mpr ⟨hjoin _ _ hs hn ht,hr⟩
    · exact List.forall_mem_cons.mpr ⟨hs,hl⟩

/-- A property of single spans that survives joining holds of the whole
released list. -/
theorem forall_release {property : Span→Prop}
    (hjoin : ∀ first second, property first → property second → first.stop=second.start →
      property ⟨first.start,first.size+second.size⟩)
    {span : Span} {spans : List Span} (hs : property span) (hl : ∀ next∈spans,property next) :
    ∀ next∈release span spans,property next := by
  induction spans with
  | nil => simpa [release] using hs
  | cons first rest ih =>
    obtain ⟨hf,hr⟩ := List.forall_mem_cons.mp hl
    rw [release]
    split
    · exact forall_joinFront hjoin hs hl
    · exact forall_joinFront hjoin hf (ih hr)

/-- Released spans stay inside any range that holds the old ones. -/
theorem release_inside {span : Span} {spans : List Span} {low high : ℕ}
    (hs : span.Inside low high) (hl : ∀ next∈spans,next.Inside low high) :
    ∀ next∈release span spans,next.Inside low high :=
  forall_release (fun first second hf hn ht => by
    unfold Span.Inside Span.stop at *
    dsimp only
    omega) hs hl

/-- A span before a separated list joins it without losing separation. -/
theorem separated_joinFront {span : Span} {spans : List Span} (h : Separated spans)
    (hs : ∀ next∈spans,span.stop≤next.start) (hp : ∀ next∈spans,0<next.size) :
    Separated (joinFront span spans) := by
  cases spans with
  | nil => exact List.pairwise_singleton _ _
  | cons next rest =>
    obtain ⟨hfirst,hrest⟩ := List.pairwise_cons.mp h
    have hn := hs next List.mem_cons_self
    have hz := hp next List.mem_cons_self
    rw [joinFront]
    split
    · rename_i ht
      refine List.pairwise_cons.mpr ⟨?_,hrest⟩
      intro later hl
      have hg := hfirst later hl
      unfold Span.stop at *
      dsimp only
      omega
    · rename_i ht
      refine List.pairwise_cons.mpr ⟨?_,h⟩
      intro later hl
      rcases List.mem_cons.mp hl with rfl|hl
      · omega
      · have hg := hfirst later hl
        unfold Span.stop at *
        omega

/-- A release keeps the list separated: nothing overlaps, nothing touches. -/
theorem separated_release {span : Span} {spans : List Span} (h : Separated spans)
    (hz : 0<span.size) (hp : ∀ next∈spans,0<next.size)
    (ha : ∀ next∈spans,span.Apart next) : Separated (release span spans) := by
  induction spans with
  | nil => exact List.pairwise_singleton _ _
  | cons first rest ih =>
    obtain ⟨hfirst,hrest⟩ := List.pairwise_cons.mp h
    obtain ⟨hpf,hpr⟩ := List.forall_mem_cons.mp hp
    obtain ⟨haf,har⟩ := List.forall_mem_cons.mp ha
    rw [release]
    split
    · rename_i hlt
      refine separated_joinFront h ?_ hp
      intro next hn
      rcases List.mem_cons.mp hn with rfl|hn
      · unfold Span.Apart Span.stop at *
        omega
      · have hg := hfirst next hn
        unfold Span.Apart Span.stop at *
        omega
    · rename_i hge
      have hlow : first.stop≤ span.start := by
        unfold Span.Apart Span.stop at *
        omega
      refine separated_joinFront (ih hrest hpr har) ?_ ?_
      · have hafter : ∀ next∈release span rest,(fun next : Span => first.stop≤next.start) next :=
          forall_release (fun a b hf _ _ => hf) hlow (fun next hn => (hfirst next hn).le)
        exact hafter
      · have hpos : ∀ next∈release span rest,(fun next : Span => 0<next.size) next :=
          forall_release (fun a b hf _ _ => Nat.add_pos_left hf _) hz hpr
        exact hpos

/-- No span of a separated list ends where one of them starts. -/
theorem Separated.stop_ne_start {spans : List Span} (h : Separated spans)
    (hp : ∀ span∈spans,0<span.size) {first second : Span} (hf : first∈spans)
    (hs : second∈spans) : first.stop≠ second.start := by
  have hsymm : Std.Symm (fun a b : Span => a.stop<b.start ∨ b.stop<a.start) :=
    ⟨fun _ _ ha => ha.symm⟩
  have hpair : spans.Pairwise (fun a b => a.stop<b.start ∨ b.stop<a.start) :=
    h.imp (fun ha => Or.inl ha)
  have hpf := hp first hf
  by_cases he : first=second
  · unfold Span.stop
    rw [he] at hpf ⊢
    omega
  · have hapart := hpair.forall hf hs he
    unfold Span.stop at *
    omega

/-- Every old span is part of a span of the joined list. -/
theorem exists_mem_joinFront {span next : Span} {spans : List Span} (hm : next∈spans) :
    ∃ joined∈joinFront span spans,joined.start≤next.start ∧ next.stop≤joined.stop := by
  cases spans with
  | nil => cases hm
  | cons head rest =>
    rw [joinFront]
    split
    · rename_i ht
      rcases List.mem_cons.mp hm with rfl|hr
      · refine ⟨_,List.mem_cons_self,?_⟩
        unfold Span.stop at *
        dsimp only
        omega
      · exact ⟨next,List.mem_cons_of_mem _ hr,le_rfl,le_rfl⟩
    · exact ⟨next,List.mem_cons_of_mem _ hm,le_rfl,le_rfl⟩

/-- The released span is part of a span of the new list. -/
theorem exists_mem_release (span : Span) (spans : List Span) :
    ∃ joined∈release span spans,joined.start≤ span.start ∧ span.stop≤joined.stop := by
  induction spans with
  | nil => exact ⟨span,List.mem_singleton_self _,le_rfl,le_rfl⟩
  | cons first rest ih =>
    rw [release]
    split
    · rw [joinFront]
      split
      · refine ⟨_,List.mem_cons_self,le_rfl,?_⟩
        unfold Span.stop
        dsimp only
        omega
      · exact ⟨span,List.mem_cons_self,le_rfl,le_rfl⟩
    · obtain ⟨joined,hm,hstart,hstop⟩ := ih
      obtain ⟨outer,ho,hs,hp⟩ := @exists_mem_joinFront first joined _ hm
      exact ⟨outer,ho,hs.trans hstart,hstop.trans hp⟩

/-- Spans that the first one does not touch survive the joining. -/
theorem mem_joinFront_of_ne {span next : Span} {spans : List Span} (hm : next∈spans)
    (hne : span.stop≠next.start) : next∈joinFront span spans := by
  cases spans with
  | nil => cases hm
  | cons head rest =>
    rw [joinFront]
    split
    · rename_i ht
      rcases List.mem_cons.mp hm with rfl|hr
      · exact absurd ht hne
      · exact List.mem_cons_of_mem _ hr
    · exact List.mem_cons_of_mem _ hm

/-- Of a separated list, a release changes only the spans that it touches. -/
theorem mem_release_of_untouched {span next : Span} {spans : List Span} (h : Separated spans)
    (hm : next∈spans) (hbefore : next.stop≠ span.start) (hbehind : span.stop≠next.start) :
    next∈release span spans := by
  induction spans with
  | nil => cases hm
  | cons first rest ih =>
    obtain ⟨hfirst,hrest⟩ := List.pairwise_cons.mp h
    rw [release]
    split
    · exact mem_joinFront_of_ne hm hbehind
    · rcases List.mem_cons.mp hm with rfl|hr
      · -- what the released list starts with is the span or an old start
        have hstarts : ∀ other∈release span rest,(fun other : Span => next.stop≠other.start) other :=
          forall_release (fun _ _ ha _ _ => ha) hbefore
            (fun later hl => (hfirst later hl).ne)
        cases hr : release span rest with
        | nil => exact List.mem_singleton_self _
        | cons head tail =>
          have hhead : next.stop≠head.start := hstarts head (hr ▸ List.mem_cons_self)
          rw [joinFront,if_neg hhead]
          exact List.mem_cons_self
      · exact mem_joinFront_of_ne (ih hrest hr) (hfirst next hr).ne

/-- A separated front is not touched by joining from the right. -/
theorem foldr_joinFront {front spans : List Span} (h : Separated (front++spans)) :
    front.foldr joinFront spans=front++spans := by
  induction front with
  | nil => rfl
  | cons first rest ih =>
    rw [List.cons_append] at h
    obtain ⟨hfirst,hrest⟩ := List.pairwise_cons.mp h
    rw [List.foldr_cons,ih hrest]
    cases hl : rest++spans with
    | nil => simp only [joinFront,List.cons_append,hl]
    | cons next tail =>
      have hg := hfirst next (by rw [hl]; exact List.mem_cons_self)
      simp only [joinFront,if_neg hg.ne,List.cons_append,hl]

/-- A release between a front that starts earlier and a back that starts
later joins the span with both sides. -/
theorem release_append {span : Span} {front back : List Span}
    (hf : ∀ first∈front,first.start≤ span.start) (hb : ∀ next∈back,span.start<next.start) :
    release span (front++back)=front.foldr joinFront (joinFront span back) := by
  induction front with
  | nil =>
    cases back with
    | nil => rfl
    | cons next rest =>
      simp only [List.nil_append,List.foldr_nil,release,if_pos (hb next List.mem_cons_self)]
  | cons first rest ih =>
    obtain ⟨hl,hr⟩ := List.forall_mem_cons.mp hf
    rw [List.cons_append,release,if_neg (by omega),ih hr,List.foldr_cons]

/-- A span apart from an ascending list lies between two parts of it. -/
theorem exists_split_around {span : Span} {spans : List Span} (h : Ascending spans)
    (ha : ∀ next∈spans,span.Apart next) :
    ∃ front back, spans=front++back ∧ (∀ first∈front,first.stop≤ span.start) ∧
      ∀ next∈back,span.stop≤next.start := by
  induction spans with
  | nil => exact ⟨[],[],rfl,by simp,by simp⟩
  | cons first rest ih =>
    obtain ⟨hfirst,hrest⟩ := List.pairwise_cons.mp h
    obtain ⟨haf,har⟩ := List.forall_mem_cons.mp ha
    by_cases hle : first.stop≤ span.start
    · obtain ⟨front,back,hs,hf,hb⟩ := ih hrest har
      exact ⟨first::front,back,by rw [hs,List.cons_append],
        List.forall_mem_cons.mpr ⟨hle,hf⟩,hb⟩
    · have hbefore : span.stop≤first.start := haf.resolve_right hle
      refine ⟨[],first::rest,rfl,by simp,List.forall_mem_cons.mpr ⟨hbefore,?_⟩⟩
      intro next hm
      have hg := hfirst next hm
      unfold Span.stop at *
      omega

/-- First fit: the first span that fits, with the spans before and after it. -/
def firstFit (fits : Span→Prop) [DecidablePred fits] :
    List Span→Option (List Span×Span×List Span)
  | [] => none
  | span::rest =>
    if fits span then some ([],span,rest)
    else (firstFit fits rest).map (fun found => (span::found.1,found.2))

/-- First fit splits the list at the first fitting span. -/
theorem firstFit_eq_some {fits : Span→Prop} [DecidablePred fits] {spans front back : List Span}
    {span : Span} (h : firstFit fits spans=some (front,span,back)) :
    spans=front++span::back ∧ fits span ∧ ∀ earlier∈front,¬fits earlier := by
  induction spans generalizing front with
  | nil => cases h
  | cons first tail ih =>
    rw [firstFit] at h
    split at h
    · rename_i hf
      cases h
      exact ⟨rfl,hf,by simp⟩
    · rename_i hf
      cases ht : firstFit fits tail with
      | none =>
        rw [ht] at h
        cases h
      | some found =>
        obtain ⟨before,chosen,behind⟩ := found
        rw [ht] at h
        cases h
        obtain ⟨hs,hfit,hnot⟩ := ih ht
        exact ⟨by rw [hs,List.cons_append],hfit,List.forall_mem_cons.mpr ⟨hf,hnot⟩⟩

/-- First fit fails only when nothing fits. -/
theorem firstFit_eq_none {fits : Span→Prop} [DecidablePred fits] {spans : List Span}
    (h : firstFit fits spans=none) : ∀ span∈spans,¬fits span := by
  induction spans with
  | nil => simp
  | cons first tail ih =>
    rw [firstFit] at h
    split at h
    · cases h
    · rename_i hf
      cases ht : firstFit fits tail with
      | none => exact List.forall_mem_cons.mpr ⟨hf,ih ht⟩
      | some found =>
        rw [ht] at h
        cases h

end WorkbenchOS.SpanLists
