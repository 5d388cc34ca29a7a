import Mathlib

/-!
# Words between separators

The words of a text are its maximal runs of characters that do not separate:
what `List.splitOnP` leaves, without the empty parts. How many separators
stand between two words, before the first or behind the last one makes no
difference to them.
-/

namespace WorkbenchOS.SeparatedWords

universe u

variable {α : Type u} (separates : α → Bool)

/-- The maximal runs of characters that do not separate. -/
def words (text : List α) : List (List α) :=
  (text.splitOnP separates).filter (fun word => !word.isEmpty)

/-- The last character separates. -/
def endsSeparated (text : List α) : Bool := (text.getLast?.map separates).getD false

variable {separates}

@[simp] theorem words_nil : words separates ([] : List α)=[] := rfl

/-- A text without a separator is one word. -/
theorem words_word {word : List α} (hne : word≠[]) (hplain : ∀ c∈word,separates c=false) :
    words separates word=[word] := by
  have hfull : (!word.isEmpty)=true := by simpa using hne
  rw [words,List.splitOnP_eq_singleton hplain]
  simp only [List.filter_cons,hfull,if_true,List.filter_nil]

/-- A separator ends the words before it. -/
theorem words_append_cons (front rest : List α) {c : α} (hc : separates c=true) :
    words separates (front++c::rest)=words separates front++words separates rest := by
  rw [words,List.splitOnP_append_cons front rest hc,List.filter_append,words,words]

/-- Separators in front of a text make no difference. -/
theorem words_separators {gap : List α} (hgap : ∀ c∈gap,separates c=true) (rest : List α) :
    words separates (gap++rest)=words separates rest := by
  induction gap with
  | nil => rfl
  | cons c gap ih =>
    have hc : separates c=true := hgap c List.mem_cons_self
    have hempty := words_append_cons [] (gap++rest) hc
    rw [List.nil_append,words_nil,List.nil_append] at hempty
    rw [List.cons_append,hempty]
    exact ih (fun x hx => hgap x (List.mem_cons_of_mem c hx))

/-- Any number of separators ends the words before them. -/
theorem words_append_gap {front gap back : List α} (hne : gap≠[])
    (hgap : ∀ c∈gap,separates c=true) :
    words separates (front++(gap++back))=words separates front++words separates back := by
  cases gap with
  | nil => exact absurd rfl hne
  | cons c gap =>
    rw [List.cons_append,words_append_cons front (gap++back) (hgap c List.mem_cons_self),
      words_separators (fun x hx => hgap x (List.mem_cons_of_mem c hx))]

/-- Dropping the separators in front makes no difference. -/
theorem words_dropWhile (text : List α) :
    words separates (text.dropWhile separates)=words separates text := by
  have hgap : ∀ c∈text.takeWhile separates,separates c=true := fun c hc => List.mem_takeWhile_imp hc
  have hdrop := words_separators hgap (text.dropWhile separates)
  rw [List.takeWhile_append_dropWhile] at hdrop
  exact hdrop.symm

/-- A text that does not begin with a separator begins with a word. -/
theorem takeWhile_ne_nil {text : List α} (hne : text≠[])
    (hhead : ∀ c∈text.head?,separates c=false) : text.takeWhile (fun c => !separates c)≠[] := by
  cases text with
  | nil => exact absurd rfl hne
  | cons c rest =>
    rw [List.takeWhile_cons_of_pos (by simp [hhead c rfl])]
    exact List.cons_ne_nil _ _

/-- That word is the first one. -/
theorem words_takeWhile {text : List α} (hne : text≠[])
    (hhead : ∀ c∈text.head?,separates c=false) :
    words separates text=text.takeWhile (fun c => !separates c)::
      words separates (text.dropWhile (fun c => !separates c)) := by
  have hword := takeWhile_ne_nil hne hhead
  have hplain : ∀ c∈text.takeWhile (fun c => !separates c),separates c=false := by
    intro c hc
    have hnot := List.mem_takeWhile_imp hc
    rwa [Bool.not_eq_true'] at hnot
  cases hrest : text.dropWhile (fun c => !separates c) with
  | nil =>
    have hall := List.takeWhile_append_dropWhile (p:=fun c => !separates c) (l:=text)
    rw [hrest,List.append_nil] at hall
    rw [hall] at hword hplain
    rw [hall,words_nil,words_word hword hplain]
  | cons c rest =>
    have hc : separates c=true := by
      have hfirst := List.head?_dropWhile_not (fun c => !separates c) text
      rw [hrest] at hfirst
      simpa using hfirst
    have hall := List.takeWhile_append_dropWhile (p:=fun c => !separates c) (l:=text)
    rw [hrest] at hall
    have hempty := words_append_cons [] rest hc
    rw [List.nil_append,words_nil,List.nil_append] at hempty
    rw [hempty]
    nth_rewrite 1 [← hall]
    rw [words_append_cons _ rest hc,words_word hword hplain,List.singleton_append]

/-- There is no word exactly when there are only separators. -/
theorem words_eq_nil_iff (text : List α) :
    words separates text=[] ↔ text.dropWhile separates=[] := by
  refine ⟨fun h => ?_,fun h => ?_⟩
  · by_contra hne
    rw [← words_dropWhile,words_takeWhile hne (fun c hc => ?_)] at h
    · exact absurd h (List.cons_ne_nil _ _)
    · have hfirst := List.head?_dropWhile_not separates text
      rw [hc] at hfirst
      simpa using hfirst
  · rw [← words_dropWhile,h,words_nil]

/-- How a text ends depends on its last part. -/
theorem endsSeparated_append (front : List α) {back : List α} (hne : back≠[]) :
    endsSeparated separates (front++back)=endsSeparated separates back := by
  rw [endsSeparated,endsSeparated,List.getLast?_append_of_ne_nil front hne]

/-- A part of separators ends with one. -/
theorem endsSeparated_gap {gap : List α} (hne : gap≠[]) (hgap : ∀ c∈gap,separates c=true) :
    endsSeparated separates gap=true := by
  rw [endsSeparated,List.getLast?_eq_some_getLast hne,Option.map_some,Option.getD_some]
  exact hgap _ (List.getLast_mem hne)

/-- A word ends with none. -/
theorem endsSeparated_word {word : List α} (hplain : ∀ c∈word,separates c=false) :
    endsSeparated separates word=false := by
  cases hlast : word.getLast? with
  | none => rw [endsSeparated,hlast]; rfl
  | some c =>
    rw [endsSeparated,hlast,Option.map_some,Option.getD_some]
    exact hplain c (List.mem_of_getLast? hlast)

end WorkbenchOS.SeparatedWords
