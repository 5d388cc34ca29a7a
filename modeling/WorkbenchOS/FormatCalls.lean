import WorkbenchOS.FormatStrings

/-!
# What `print` does with a format string

A field is parsed by the overload of `select` for its argument. Eleven of the
twelve overloads parse it once, the one for `bool` parses it a second time
through the overload for a C string. Escaped text has no fields at all.
-/

namespace WorkbenchOS.FormatCalls

open LibStd FormatSpecs FormatStrings

section Calls

variable {s : FormatString}

/-- The text of a string. -/
theorem selectString_text (s : FormatString) (chars : List UInt8) :
    ∃ text : FormatSpec→Option (List UInt8),
      (∀ i, selectString s chars i=selectWith s text i) ∧ ∀ fs, ∃ output, text fs=some output :=
  ⟨fun fs => some (emitPadded fs chars (int32 chars.length)),fun _ => rfl,fun _ => ⟨_,rfl⟩⟩

/-- An overload that parses once has a text for every specification. -/
theorem select_text (s : FormatString) {a : Argument} (ha : a.ParsesOnce) :
    ∃ text : FormatSpec→Option (List UInt8), (∀ i, select s a i=selectWith s text i) ∧
      ∀ fs, ∃ output, text fs=some output := by
  cases a with
  | bool b => exact ha.elim
  | u8 v =>
    have hv := v.toNat_lt.trans (by decide : 2^8<2^64)
    exact ⟨_,fun _ => rfl,fun fs => formatAndEmitUnsigned_returns hv fs false⟩
  | u32 v =>
    have hv := v.toNat_lt.trans (by decide : 2^32<2^64)
    exact ⟨_,fun _ => rfl,fun fs => formatAndEmitUnsigned_returns hv fs false⟩
  | u64 v => exact ⟨_,fun _ => rfl,fun fs => formatAndEmitUnsigned_returns v.toNat_lt fs false⟩
  | int32 v => exact ⟨_,fun _ => rfl,fun fs => formatAndEmitSigned_returns v.toInt fs⟩
  | int64 v => exact ⟨_,fun _ => rfl,fun fs => formatAndEmitSigned_returns v.toInt fs⟩
  | pointer p =>
    refine ⟨fun fs => formatAndEmitUnsigned p.toNat
      (if fs.type=0 then {fs with type := chr 'p'} else fs) true,fun _ => rfl,?_⟩
    exact fun _ => formatAndEmitUnsigned_returns p.toNat_lt _ true
  | char c => exact ⟨fun fs => some (emitPadded fs [c] 1),fun _ => rfl,fun _ => ⟨_,rfl⟩⟩
  | cString text => exact selectString_text s (text.takeWhile (·≠0))
  | string text => exact selectString_text s text
  | stringReference text => exact selectString_text s text
  | stringView text => exact selectString_text s text

/-- An overload that parses once prints the argument and leaves the index where
the parser does. -/
theorem select_eq {a : Argument} (ha : a.ParsesOnce) {i next : ℕ} {fs : FormatSpec}
    (hp : parseSpec s i=some (fs,next)) :
    ∃ output, select s a i=some ⟨output,next,[next]⟩ := by
  obtain ⟨text,hselect,htext⟩ := select_text s ha
  obtain ⟨output,ht⟩ := htext fs
  refine ⟨output,?_⟩
  rw [hselect,selectWith,hp]
  simp only [Option.bind_eq_bind,Option.bind_some]
  rw [ht,Option.map_some]

/-- An overload that parses once returns inside the string. -/
theorem select_returns {a : Argument} (ha : a.ParsesOnce) {i : ℕ} (hi : i< s.chars.length) :
    Returns s i (fun _ => True) (select s a i) := by
  obtain ⟨fs,next,hp,hforward,hle⟩ := parseSpec_returns hi
  obtain ⟨output,hs⟩ := select_eq ha hp
  refine ⟨_,hs,⟨hforward.le,hle,?_⟩,trivial⟩
  exact List.forall_mem_singleton.mpr hle

/-- `println_internal` returns inside the string, at the terminator unless an
argument found no field. -/
theorem printlnInternal_returns {args : List Argument} (ha : ∀ a∈args,a.Declared) {i : ℕ}
    (hi : i≤ s.chars.length) :
    Returns s i (fun j => j=s.chars.length) (printlnInternal s args i) := by
  induction args generalizing i with
  | nil =>
    obtain ⟨w,hw,hin,hend⟩ := literalLoop_returns s false (s.chars.length+1) i hi (by omega)
    refine ⟨w,hw,hin,hend.resolve_right ?_⟩
    exact fun hstop => Bool.false_ne_true hstop.1
  | cons a rest ih =>
    obtain ⟨hfirst,hrest⟩ := List.forall_mem_cons.mp ha
    have hliteral := literalLoop_returns s true (s.chars.length+1) i hi (by omega)
    refine returns_andThen hliteral ?_
    intro j hij hj hend
    rcases hend with rfl | ⟨-,hfield,-⟩
    · rw [get_length]
      exact returns_stay le_rfl rfl
    · rw [hfield]
      have hlt := lt_of_get hfield (by decide)
      refine returns_andThen (select_returns hfirst.parsesOnce hlt) ?_
      exact fun k hjk hk _ => ih hrest hk

end Calls

/-- Every format string, with arguments of the kinds the header declares, is
printed without a read behind its terminator; the index is never behind the
terminator and it is there at the end. -/
theorem print_stays_in_string (s : FormatString) (args : List Argument)
    (ha : ∀ a∈args,a.Declared) :
    ∃ w, print s args=some w ∧ w.index=s.chars.length ∧ ∀ i∈w.trail,i≤ s.chars.length := by
  have hprint : Returns s 0 (fun j => j=s.chars.length) (print s args) := by
    refine returns_andThen (printlnInternal_returns ha (Nat.zero_le _)) ?_
    exact fun j _ hj _ => printlnInternal_returns (List.forall_mem_nil _) hj
  obtain ⟨w,hw,hin,hend⟩ := hprint
  exact ⟨w,hw,hend,hin.trail_le⟩

/-- A lone brace, a number and a field without an end. -/
def brokenFormat : FormatString :=
  ⟨['a','}','{',':','#','0','6','x','}','{',':','*','^'].map chr,by decide +kernel⟩

/-- A field without an end, and an argument too many. -/
theorem print_stays_in_string_sample :
    ∃ w, print brokenFormat [.u64 255,.cString [chr 'b'],.pointer 0]=some w ∧
      w.index=brokenFormat.chars.length ∧ ∀ i∈w.trail,i≤brokenFormat.chars.length :=
  print_stays_in_string brokenFormat _
    (by simp only [List.forall_mem_cons,Argument.Declared,List.not_mem_nil,false_implies,
      implies_true,and_self])

/-- Both braces doubled. -/
def escapeChars (text : List UInt8) : List UInt8 :=
  text.flatMap fun c => if c=chr '{' ∨ c=chr '}' then [c,c] else [c]

/-- The format string that prints the text of another. -/
def escape (s : FormatString) : FormatString where
  chars := escapeChars s.chars
  noNul := by
    intro c hc
    obtain ⟨d,hd,hmem⟩ := List.mem_flatMap.mp hc
    have hcd : c=d := by
      split_ifs at hmem
      · simpa only [List.mem_cons,List.not_mem_nil,or_false,or_self] using hmem
      · exact List.mem_singleton.mp hmem
    rw [hcd]
    exact s.noNul d hd

section Escapes

variable {s : FormatString}

/-- A brace that is doubled is printed once. -/
theorem literalLoop_double (stops : Bool) {fuel i : ℕ} {c : UInt8} (hc : c=chr '{' ∨ c=chr '}')
    (h : s.get i=some c) (hn : s.get (i+1)=some c) :
    literalLoop s stops (fuel+1) i=put c (i+2) (literalLoop s stops fuel (i+2)) := by
  rw [literalLoop,h]
  simp only [Option.bind_eq_bind,Option.bind_some,hn]
  rcases hc with rfl | rfl
  · rw [if_neg (by decide),if_pos rfl,if_pos rfl]
  · rw [if_neg (by decide),if_neg (by decide),if_pos rfl,if_pos rfl]

/-- A character that is no brace is printed. -/
theorem literalLoop_single (stops : Bool) {fuel i : ℕ} {c : UInt8} (hz : c≠0)
    (hc : ¬(c=chr '{' ∨ c=chr '}')) (h : s.get i=some c) :
    literalLoop s stops (fuel+1) i=put c (i+1) (literalLoop s stops fuel (i+1)) := by
  obtain ⟨hopen,hclose⟩ := not_or.mp hc
  rw [literalLoop,h]
  simp only [Option.bind_eq_bind,Option.bind_some]
  rw [if_neg hz,if_neg hopen,if_neg hclose]

/-- The loop returns at the terminator. -/
theorem literalLoop_end (s : FormatString) (stops : Bool) (fuel : ℕ) :
    literalLoop s stops (fuel+1) s.chars.length=some (stay s.chars.length) := by
  rw [literalLoop,get_length]
  rfl

/-- Both loops over literal characters print what was escaped, and end at the
terminator. -/
theorem literalLoop_escape (s : FormatString) (stops : Bool) (text : List UInt8) (fuel i : ℕ)
    (hi : i≤ s.chars.length) (hd : s.chars.drop i=escapeChars text)
    (hz : ∀ c∈text,c≠0) (hf : s.chars.length-i<fuel) :
    ∃ trail, literalLoop s stops fuel i=some ⟨text,s.chars.length,trail⟩ := by
  obtain ⟨fuel,rfl⟩ := Nat.exists_eq_add_one_of_ne_zero (Nat.ne_zero_of_lt hf)
  induction text generalizing fuel i with
  | nil =>
    have hend : s.chars.length≤ i := List.drop_eq_nil_iff.mp hd
    rw [Nat.le_antisymm hi hend]
    exact ⟨[],literalLoop_end s stops fuel⟩
  | cons c rest ih =>
    obtain ⟨hcz,hrest⟩ := List.forall_mem_cons.mp hz
    rw [escapeChars,List.flatMap_cons] at hd
    by_cases hbrace : c=chr '{' ∨ c=chr '}'
    · rw [if_pos hbrace] at hd
      obtain ⟨hfirst,hd⟩ := get_of_drop hd
      obtain ⟨hsecond,hd⟩ := get_of_drop hd
      have hlt := lt_of_get hsecond hcz
      obtain ⟨fuel,rfl⟩ : ∃ less, fuel=less+1 := ⟨fuel-1,by omega⟩
      obtain ⟨trail,ht⟩ := ih (i+2) hlt hd hrest fuel (by omega)
      rw [literalLoop_double stops hbrace hfirst hsecond,ht]
      exact ⟨_,rfl⟩
    · rw [if_neg hbrace] at hd
      obtain ⟨hfirst,hd⟩ := get_of_drop hd
      have hlt := lt_of_get hfirst hcz
      obtain ⟨fuel,rfl⟩ : ∃ less, fuel=less+1 := ⟨fuel-1,by omega⟩
      obtain ⟨trail,ht⟩ := ih (i+1) hlt hd hrest fuel (by omega)
      rw [literalLoop_single stops hcz hbrace hfirst,ht]
      exact ⟨_,rfl⟩

/-- The first call prints the text, whatever the arguments. -/
theorem printlnInternal_escape (s : FormatString) (args : List Argument) :
    ∃ trail, printlnInternal (escape s) args 0=
      some ⟨s.chars,(escape s).chars.length,trail⟩ := by
  have hliteral := fun stops => literalLoop_escape (escape s) stops s.chars
    ((escape s).chars.length+1) 0 (Nat.zero_le _) rfl s.noNul (by omega)
  cases args with
  | nil => exact hliteral false
  | cons a rest =>
    obtain ⟨trail,ht⟩ := hliteral true
    refine ⟨trail,?_⟩
    rw [printlnInternal,printLiteralUntilField,ht,andThen_some (v := stay (escape s).chars.length)]
    · rw [stay,List.append_nil,List.append_nil]
    · rw [get_length]
      rfl

/-- The whole of `print`. -/
theorem print_escape_eq (s : FormatString) (args : List Argument) :
    ∃ trail, print (escape s) args=some ⟨s.chars,(escape s).chars.length,trail⟩ := by
  obtain ⟨trail,ht⟩ := printlnInternal_escape s args
  have hend : printlnInternal (escape s) [] (escape s).chars.length=
      some (stay (escape s).chars.length) := literalLoop_end (escape s) false _
  rw [print,ht,andThen_some hend,stay,List.append_nil]
  exact ⟨_,rfl⟩

/-- A line of escaped text. -/
theorem println_escape (s : FormatString) (args : List Argument) :
    (println (escape s) args).map Written.output=some (s.chars++[10]) := by
  obtain ⟨trail,ht⟩ := print_escape_eq s args
  rw [println,ht]
  rfl

end Escapes

/-- Printing undoes escaping, whatever the arguments. -/
theorem print_escape (s : FormatString) (args : List Argument) :
    (print (escape s) args).map Written.output=some s.chars := by
  obtain ⟨trail,ht⟩ := print_escape_eq s args
  rw [ht]
  rfl

/-- The overload leaves the index just behind the first closing brace after the
opening one. -/
def EndsAtOwnBrace (s : FormatString) (start : ℕ) (a : Argument) : Prop :=
  ∃ w, select s a start=some w ∧ w.index=closing s (start+1)+1

section Braces

variable {s : FormatString} {start : ℕ}

/-- The parser moves the index on wherever it starts. -/
theorem parseSpec_forward {next : ℕ} {fs : FormatSpec}
    (hp : parseSpec s start=some (fs,next)) : start<next := by
  have hstart : start< s.chars.length := by
    by_contra hge
    have hnone : s.get (start+1)=none := by
      rw [Option.eq_none_iff_forall_ne_some]
      intro c hc
      have hle := le_of_get hc
      omega
    rw [parseSpec,hnone] at hp
    cases hp
  obtain ⟨fs',next',hp',hforward,-⟩ := parseSpec_returns hstart
  rw [hp] at hp'
  cases hp'
  exact hforward

/-- The overload for `bool` moves on from where the first parse ends. -/
theorem selectBool_forward {b : Bool} {next : ℕ} {fs : FormatSpec} {w : Written}
    (hp : parseSpec s start=some (fs,next)) (hs : select s (.bool b) start=some w) :
    next<w.index := by
  rw [select,selectBool,hp] at hs
  simp only [Option.bind_eq_bind,Option.bind_some] at hs
  obtain ⟨v,hv,rfl⟩ := Option.map_eq_some_iff.mp hs
  rw [selectCString,selectString,selectWith,Option.bind_eq_bind,Option.bind_eq_some_iff] at hv
  obtain ⟨⟨fs',last⟩,hlast,hv⟩ := hv
  rw [Option.map_some] at hv
  cases hv
  exact parseSpec_forward hlast

/-- A field with a closing brace is parsed up to that brace, or beyond if the
brace is taken as the fill character. -/
theorem parseSpec_braces (hb : closing s (start+1)< s.chars.length) :
    ∃ fs next, parseSpec s start=some (fs,next) ∧ closing s (start+1)+1≤next ∧
      (next=closing s (start+1)+1↔¬BraceTakenAsFill s start) := by
  have hstart : start< s.chars.length := by
    have hle := le_closing s (start+1)
    omega
  by_cases hfill : BraceTakenAsFill s start
  · obtain ⟨fs,next,hp,hfirst,-⟩ := parseSpec_brace hfill
    have hclosing : closing s (start+1)=start+2 := by
      rw [←closing_succ hfill.1 (by decide) (by decide),closing_here hfill.2.1]
    refine ⟨fs,next,hp,by omega,?_⟩
    exact iff_of_false (by omega) (not_not.mpr hfill)
  · obtain ⟨fs,hp⟩ := parseSpec_closing hstart hfill
    rw [pastClosing,if_pos hb] at hp
    exact ⟨fs,_,hp,le_rfl,iff_of_true rfl hfill⟩

/-- A closing brace somewhere behind an index is found by the search. -/
theorem closing_lt {i : ℕ} (h : chr '}'∈s.chars.drop i) : closing s i< s.chars.length := by
  have hlt := List.findIdx_lt_length_of_exists (p := (·=chr '}')) ⟨_,h,decide_eq_true rfl⟩
  rw [List.length_drop] at hlt
  rw [closing]
  omega

/-- What follows a field that ends at its own brace is printed from there,
whatever the argument was. -/
theorem EndsAtOwnBrace.rest {a : Argument} (h : EndsAtOwnBrace s start a)
    (rest : List Argument) {v : Written}
    (hv : printlnInternal s rest (closing s (start+1)+1)=some v) :
    ∃ w, select s a start=some w ∧ andThen (select s a start) (printlnInternal s rest)=
      some ⟨w.output++v.output,v.index,w.trail++v.trail⟩ := by
  obtain ⟨w,hw,hi⟩ := h
  refine ⟨w,hw,?_⟩
  rw [hw]
  exact andThen_some (by rw [hi,hv])

end Braces

/-- A field that has a closing brace ends there precisely when the argument is
no `bool` and the brace is not taken as the fill character. -/
theorem endsAtOwnBrace_iff (s : FormatString) {start : ℕ} (_hf : FieldStart s start)
    (hb : chr '}'∈s.chars.drop (start+1)) (a : Argument) :
    EndsAtOwnBrace s start a↔a.ParsesOnce ∧ ¬BraceTakenAsFill s start := by
  obtain ⟨fs,next,hp,hle,hiff⟩ := parseSpec_braces (closing_lt hb)
  rw [←hiff]
  by_cases ha : a.ParsesOnce
  · obtain ⟨output,hs⟩ := select_eq ha hp
    rw [EndsAtOwnBrace,hs,and_iff_right ha]
    constructor
    · rintro ⟨w,hw,hi⟩
      cases hw
      exact hi
    · exact fun hn => ⟨_,rfl,hn⟩
  · refine iff_of_false ?_ (fun h => ha h.1)
    cases a with
    | bool b =>
      rintro ⟨w,hw,hi⟩
      have hforward := selectBool_forward hp hw
      omega
    | _ => exact absurd trivial ha

/-- A field for a number, then one that is left over. -/
theorem endsAtOwnBrace_sample :
    EndsAtOwnBrace brokenFormat 2 (.u64 5)↔
      (Argument.u64 5).ParsesOnce ∧ ¬BraceTakenAsFill brokenFormat 2 :=
  endsAtOwnBrace_iff brokenFormat ⟨by decide +kernel,by decide +kernel⟩ (by decide +kernel) _

/-- A field in front of text that looks like an alignment. -/
def fillFormat : FormatString := ⟨['{',':','}','<','x','}'].map chr,by decide +kernel⟩

/-- The closing brace in front of `<` is taken as the fill character. -/
theorem not_always_endsAtOwnBrace :
    ¬∀ (s : FormatString) (start : ℕ), FieldStart s start → chr '}'∈s.chars.drop (start+1) →
      ∀ a, EndsAtOwnBrace s start a := by
  intro h
  obtain ⟨w,hw,hi⟩ := h fillFormat 0 ⟨by decide +kernel,by decide +kernel⟩ (by decide +kernel)
    (.u64 5)
  have hindex : (select fillFormat (.u64 5) 0).map Written.index=some 6 := by decide +kernel
  have hclosing : closing fillFormat 1=2 := by decide +kernel
  rw [hw,Option.map_some,hi,hclosing] at hindex
  exact absurd hindex (by decide)

end WorkbenchOS.FormatCalls
