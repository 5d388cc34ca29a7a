import Mathlib.Tactic

/-!
# Splitting at a character

`StringSplitter::split` goes through the string once and cuts it at every
occurrence of the character. The parts it collects are those of `List.splitOn`,
so a text joined from parts without the character is split into these parts.
-/

namespace WorkbenchOS.StringSplitter

variable {α : Type*}

/-- `String(&string[start], length)`. -/
def substring (string : List α) (start length : ℕ) : List α := (string.drop start).take length

/-- The loop of `split` from `i` on, with `substring_start` and `result`. -/
def splitLoop [DecidableEq α] (string : List α) (c : α) : (remaining i substringStart : ℕ)→
    (result : List (List α))→List (List α)
  | 0,_,substringStart,result =>
    result++[substring string substringStart (string.length-substringStart)]
  | remaining+1,i,substringStart,result =>
    if string[i]?=some c then
      splitLoop string c remaining (i+1) (i+1)
        (result++[substring string substringStart (i-substringStart)])
    else splitLoop string c remaining (i+1) substringStart result

/-- `StringSplitter::split`. -/
def split [DecidableEq α] (string : List α) (c : α) : List (List α) := splitLoop string c string.length 0 0 []

/-- Where `i` stands, the string goes on with that character. -/
theorem drop_eq_substring_append {string : List α} {start i : ℕ} {x : α} (hle : start≤ i)
    (hx : string[i]?=some x) :
    string.drop start=substring string start (i-start)++x::string.drop (i+1) := by
  obtain ⟨hi,hget⟩ := List.getElem?_eq_some_iff.mp hx
  have htail : (string.drop start).drop (i-start)=x::string.drop (i+1) := by
    rw [List.drop_drop,show start+(i-start)=i by omega,List.drop_eq_getElem_cons hi,hget]
  rw [substring,← htail,List.take_append_drop]

/-- One more character belongs to the part. -/
theorem substring_succ {string : List α} {start i : ℕ} {x : α} (hle : start≤ i)
    (hx : string[i]?=some x) :
    substring string start (i+1-start)=substring string start (i-start)++[x] := by
  have hget : (string.drop start)[i-start]?=some x := by
    rw [List.getElem?_drop,show start+(i-start)=i by omega,hx]
  rw [substring,show i+1-start=i-start+1 by omega,List.take_add_one,hget,Option.toList_some,
    substring]

/-- The loop adds the parts of the text from `substring_start` on, as long as
the character is not among those already passed. -/
theorem splitLoop_eq [DecidableEq α] (string : List α) (c : α) {remaining i start : ℕ} {result : List (List α)}
    (hlength : i+remaining=string.length) (hle : start≤ i)
    (hnone : c∉substring string start (i-start)) :
    splitLoop string c remaining i start result=result++(string.drop start).splitOn c := by
  induction remaining generalizing i start result with
  | zero =>
    have hrest : substring string start (string.length-start)=string.drop start := by
      rw [substring,List.take_of_length_le (by rw [List.length_drop])]
    have hi : i=string.length := hlength
    rw [hi,hrest] at hnone
    rw [splitLoop,hrest,List.splitOn_eq_singleton hnone]
  | succ remaining ih =>
    have hget : string[i]?=some string[i] := List.getElem?_eq_getElem (by omega)
    rw [splitLoop]
    split_ifs with hc
    · -- The part ends here, the next one is empty so far.
      have hempty : c∉substring string (i+1) (i+1-(i+1)) := by
        rw [Nat.sub_self,substring,List.take_zero]
        exact List.not_mem_nil
      rw [ih (by omega) le_rfl hempty,drop_eq_substring_append hle hc,
        List.splitOn_append_cons_self_of_not_mem hnone,List.append_assoc,List.singleton_append]
    · have hne : c≠string[i] := fun h => hc (by rw [hget,h])
      refine ih (by omega) (by omega) ?_
      rw [substring_succ hle hget,List.mem_append,List.mem_singleton]
      exact fun h => h.elim hnone hne

/-- The parts are those between the occurrences of the character. -/
theorem split_eq_splitOn [DecidableEq α] (string : List α) (c : α) : split string c=string.splitOn c := by
  have hempty : c∉substring string 0 (0-0) := by
    rw [Nat.sub_self,substring,List.take_zero]
    exact List.not_mem_nil
  rw [split,splitLoop_eq string c (Nat.zero_add string.length) le_rfl hempty,List.nil_append,
    List.drop_zero]

/-- A text joined from parts is split into these parts. -/
theorem split_intercalate [DecidableEq α] {parts : List (List α)} {c : α} (hne : parts≠[])
    (hplain : ∀ part∈parts,c∉part) : split ([c].intercalate parts) c=parts := by
  rw [split_eq_splitOn,List.splitOn_intercalate c hplain hne]

end WorkbenchOS.StringSplitter
