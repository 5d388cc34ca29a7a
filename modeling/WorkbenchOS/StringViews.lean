import WorkbenchOS.FrameBitmap
import WorkbenchOS.StringSplitter

/-!
# Views and strings cut at a character

`StringView::split` and `StringSplitter::split` are two copies of one loop. The
counter and the start of the part are `int`, the length is a `size_t`; a pointer
is what can be read from it on. A view shows a part of the text itself, a string
is copied twice, once out of the text and once into the vector, and a part of no
characters is a string without memory of its own. A vector is the list of its
items.
-/

namespace WorkbenchOS.StringViews

open LibStd FrameBitmap StringSplitter

variable {α β : Type*}

/-- `StringView`. -/
structure StringView (α : Type*) where
  /-- What can be read from `m_characters` on. -/
  characters : List α
  /-- `m_length`. -/
  length : ℕ

/-- `String`. -/
structure StdString (α : Type*) where
  /-- What can be read from `m_characters` on, unless it is null. -/
  characters : Option (List α)
  /-- `m_length`. -/
  length : ℕ

/-- The constructor from a pointer and a length. Whether `new char[n]` returns
memory is a function of `n` here; `memcpy` does nothing for a null pointer. -/
def newString (allocates : ℕ→Bool) (characters : List α) (length : ℕ) : StdString α where
  characters := if allocates length then some (characters.take length) else none
  length := length

/-- The copy constructor. -/
def copyString (allocates : ℕ→Bool) (other : StdString α) : StdString α :=
  match other.characters with
  | none => ⟨none,0⟩
  | some characters =>
    if allocates other.length then ⟨some (characters.take other.length),other.length⟩
    else ⟨none,0⟩

section

variable [DecidableEq α]

/-- The loop of both functions from `i` on, and the part behind it. The counter
turns negative after `2^31` rounds and is a huge number in the comparison. -/
def splitLoop (part : List α→ℕ→β) (characters : List α) (length : ℕ) (c : α) :
    (rounds : ℕ)→(i substringStart : ℤ)→(result : List β)→List β
  | 0,_,substringStart,result =>
    result++[part (characters.drop substringStart.toNat) (u64Sub length (toU64 substringStart))]
  | rounds+1,i,substringStart,result =>
    if toU64 i<length then
      if characters[i.toNat]?=some c then
        splitLoop part characters length c rounds (int32 (i+1)) (int32 (i+1))
          (result++[part (characters.drop substringStart.toNat)
            (toU64 (int32 (i-substringStart)))])
      else splitLoop part characters length c rounds (int32 (i+1)) substringStart result
    else
      result++[part (characters.drop substringStart.toNat)
        (u64Sub length (toU64 substringStart))]

/-- `StringView::split`. -/
def StringView.split (view : StringView α) (c : α) : List (StringView α) :=
  splitLoop StringView.mk view.characters view.length c intIterations 0 0 []

/-- `StringSplitter::split`; what is appended is copied into the vector. -/
def StdString.split (allocates : ℕ→Bool) (string : StdString α) (c : α) : List (StdString α) :=
  splitLoop (fun characters length => copyString allocates (newString allocates characters length))
    (string.characters.getD []) string.length c intIterations 0 0 []

end

/-- The view shows this text. -/
structure StringView.Shows (view : StringView α) (text : List α) : Prop where
  /-- `m_length`. -/
  length_eq : view.length=text.length
  /-- The characters. -/
  characters_eq : view.characters.take view.length=text

/-- The string holds this text. -/
structure StdString.Holds (string : StdString α) (text : List α) : Prop where
  /-- `m_length`. -/
  length_eq : string.length=text.length
  /-- The characters. -/
  characters_eq : (string.characters.getD []).take string.length=text

/-- A part of a text, seen from its first character. -/
theorem take_drop_eq_substring {characters text : List α} {start length : ℕ}
    (htext : characters.take text.length=text) (hfit : start+length≤text.length) :
    (characters.drop start).take length=substring text start length := by
  have hroom : min length (text.length-start)=length := Nat.min_eq_left (by omega)
  calc (characters.drop start).take length
      = ((characters.take text.length).drop start).take length := by
        rw [List.drop_take,List.take_take,hroom]
    _ = substring text start length := by rw [htext,substring]

/-- Its length. -/
theorem length_substring {text : List α} {start length : ℕ} (hfit : start+length≤text.length) :
    (substring text start length).length=length := by
  rw [substring,List.length_take,List.length_drop]
  omega

/-- A view of a part shows the part. -/
theorem shows_part {characters text : List α} {start length : ℕ}
    (htext : characters.take text.length=text) (hfit : start+length≤text.length) :
    (StringView.mk (characters.drop start) length).Shows (substring text start length) :=
  ⟨(length_substring hfit).symm,take_drop_eq_substring htext hfit⟩

/-- A copied part is held by the string, whether or not memory is returned for
no characters. -/
theorem holds_part {allocates : ℕ→Bool} (hnew : ∀ n, 0<n → allocates n=true)
    {characters text : List α} {start length : ℕ} (htext : characters.take text.length=text)
    (hfit : start+length≤text.length) :
    (copyString allocates (newString allocates (characters.drop start) length)).Holds
      (substring text start length) := by
  have hlength := length_substring hfit
  have htake := take_drop_eq_substring htext hfit
  by_cases ha : allocates length=true
  · simp only [newString,copyString,if_pos ha]
    refine ⟨hlength.symm,?_⟩
    rw [Option.getD_some,List.take_take,List.take_take,Nat.min_self,Nat.min_self,htake]
  · obtain rfl : length=0 := by
      by_contra hne
      exact ha (hnew length (Nat.pos_of_ne_zero hne))
    simp only [newString,copyString,if_neg ha]
    refine ⟨hlength.symm,?_⟩
    rw [substring,List.take_zero,List.take_zero]

section

variable {characters text : List α} {part : List α→ℕ→β} {holds : β→List α→Prop}

/-- A counter in the range of `int`. -/
theorem int32_natCast {i : ℕ} (hi : i<2^31) : int32 (i : ℤ)=i :=
  int32_of_range (by omega) (by omega)

/-- It is the same number as a `size_t`. -/
theorem toU64_natCast {i : ℕ} (hi : i<2^31) : toU64 (i : ℤ)=i := by
  have h := toU64_of_nonneg (Int.natCast_nonneg i) (by omega)
  exact_mod_cast h

/-- The part behind the loop goes on to the end of the text. -/
theorem lastPart_holds (hlt : text.length<2^31)
    (hpart : ∀ start length, start+length≤text.length →
      holds (part (characters.drop start) length) (substring text start length))
    {start : ℕ} {result : List β} {collected : List (List α)} (hle : start≤text.length)
    (hresult : List.Forall₂ holds result collected) :
    List.Forall₂ holds
      (result++[part (characters.drop (start : ℤ).toNat)
        (u64Sub text.length (toU64 (start : ℤ)))])
      (collected++[substring text start (text.length-start)]) := by
  rw [Int.toNat_natCast,toU64_natCast (by omega),u64Sub_of_le hle (by omega)]
  exact List.rel_append hresult
    (List.Forall₂.cons (hpart start (text.length-start) (by omega)) List.Forall₂.nil)

variable [DecidableEq α] {c : α}

/-- Below 2^31 characters, the loop collects the parts of the text that the
loop over natural numbers collects. -/
theorem splitLoop_holds (htext : characters.take text.length=text) (hlt : text.length<2^31)
    (hpart : ∀ start length, start+length≤text.length →
      holds (part (characters.drop start) length) (substring text start length))
    {remaining rounds i start : ℕ} {result : List β} {collected : List (List α)}
    (hlength : i+remaining=text.length) (hle : start≤ i) (hrounds : remaining≤rounds)
    (hresult : List.Forall₂ holds result collected) :
    List.Forall₂ holds (splitLoop part characters text.length c rounds i start result)
      (StringSplitter.splitLoop text c remaining i start collected) := by
  induction remaining generalizing i start rounds result collected with
  | zero =>
    cases rounds with
    | zero => exact lastPart_holds hlt hpart (by omega) hresult
    | succ rounds =>
      rw [splitLoop,if_neg (by rw [toU64_natCast (by omega)]; omega)]
      exact lastPart_holds hlt hpart (by omega) hresult
  | succ remaining ih =>
    obtain ⟨rounds,rfl⟩ : ∃ more,rounds=more+1 := ⟨rounds-1,by omega⟩
    have hnext : int32 ((i : ℤ)+1)=((i+1 : ℕ) : ℤ) := by
      rw [← Nat.cast_succ,int32_natCast (by omega)]
    have hget : characters[i]?=text[i]? := by
      rw [← List.getElem?_take_of_lt (show i<text.length by omega),htext]
    rw [splitLoop,if_pos (by rw [toU64_natCast (by omega)]; omega),Int.toNat_natCast,hget,
      StringSplitter.splitLoop]
    split_ifs with hc
    · -- one more part, and the next one begins behind the separator
      have hsize : toU64 (int32 ((i : ℤ)-start))=i-start := by
        rw [← Nat.cast_sub hle,int32_natCast (by omega),toU64_natCast (by omega)]
      rw [hnext,hsize,Int.toNat_natCast]
      exact ih (by omega) le_rfl (by omega) (List.rel_append hresult
        (List.Forall₂.cons (hpart start (i-start) (by omega)) List.Forall₂.nil))
    · rw [hnext]
      exact ih (by omega) (by omega) (by omega) hresult

/-- Both functions collect the parts between the separators. -/
theorem splitLoop_splitOn (htext : characters.take text.length=text) (hlt : text.length<2^31)
    (hpart : ∀ start length, start+length≤text.length →
      holds (part (characters.drop start) length) (substring text start length)) :
    List.Forall₂ holds (splitLoop part characters text.length c intIterations 0 0 [])
      (text.splitOn c) := by
  rw [← split_eq_splitOn]
  have hrounds : text.length≤ intIterations := hlt.le
  exact splitLoop_holds htext hlt hpart (Nat.zero_add _) le_rfl hrounds List.Forall₂.nil

/-- No part contains the separator, and there is one part more than there are
separators. -/
theorem splitOn_parts (text : List α) (c : α) :
    (∀ part∈text.splitOn c,c∉part) ∧ (text.splitOn c).length=text.count c+1 := by
  induction text with
  | nil => simp
  | cons first rest ih =>
    obtain ⟨hparts,hcount⟩ := ih
    rw [List.splitOn_cons_eq_if_modifyHead]
    by_cases hc : first=c
    · simp only [hc,beq_self_eq_true,if_true,List.forall_mem_cons,List.not_mem_nil,
        not_false_eq_true,true_and,List.length_cons,List.count_cons_self]
      exact ⟨hparts,by omega⟩
    · have hne := List.splitOn_ne_nil c rest
      rw [if_neg (by simpa using hc),List.count_cons_of_ne hc]
      revert hparts hcount hne
      cases rest.splitOn c with
      | nil => exact fun _ _ hne => absurd rfl hne
      | cons head tail =>
        intro hparts hcount hne
        obtain ⟨hhead,htail⟩ := List.forall_mem_cons.mp hparts
        refine ⟨List.forall_mem_cons.mpr ⟨?_,htail⟩,hcount⟩
        rw [List.mem_cons]
        exact fun h => h.elim (fun heq => hc heq.symm) hhead

/-- Both functions cut a text of less than 2^31 characters into the same parts:
joined they are the text, none contains the separator and there is one more
than there are separators. -/
theorem splitters_agree {allocates : ℕ→Bool} (hnew : ∀ n, 0<n → allocates n=true)
    {view : StringView α} {string : StdString α} (hview : view.Shows text)
    (hstring : string.Holds text) (hlt : text.length<2^31) (c : α) :
    ∃ parts : List (List α),
      List.Forall₂ StringView.Shows (view.split c) parts ∧
      List.Forall₂ StdString.Holds (string.split allocates c) parts ∧
      [c].intercalate parts=text ∧ (∀ part∈parts,c∉part) ∧
      parts.length=text.count c+1 := by
  obtain ⟨hviewLength,hviewText⟩ := hview
  obtain ⟨hstringLength,hstringText⟩ := hstring
  rw [hviewLength] at hviewText
  rw [hstringLength] at hstringText
  obtain ⟨hplain,hcount⟩ := splitOn_parts text c
  refine ⟨text.splitOn c,?_,?_,List.intercalate_splitOn c,hplain,hcount⟩
  · rw [StringView.split,hviewLength]
    exact splitLoop_splitOn hviewText hlt (fun _ _ hfit => shows_part hviewText hfit)
  · rw [StdString.split,hstringLength]
    exact splitLoop_splitOn hstringText hlt (fun _ _ hfit => holds_part hnew hstringText hfit)

end

/-- Adjacent and trailing separators, in a view of a longer text; no memory is
returned for no characters. -/
theorem splitters_agree_sample : ∃ parts : List (List ℕ),
    List.Forall₂ StringView.Shows
      (StringView.split ⟨[1,0,0,2,3,0,7,7],6⟩ 0) parts ∧
    List.Forall₂ StdString.Holds
      (StdString.split (fun n => decide (0<n)) ⟨some [1,0,0,2,3,0],6⟩ 0) parts ∧
    [0].intercalate parts=[1,0,0,2,3,0] ∧ (∀ part∈parts,0∉part) ∧
    parts.length=[1,0,0,2,3,0].count 0+1 :=
  splitters_agree (fun _ hn => decide_eq_true hn) ⟨rfl,rfl⟩ ⟨rfl,rfl⟩ (by decide) 0

end WorkbenchOS.StringViews
