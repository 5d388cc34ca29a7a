import WorkbenchOS.FormatSpecs

/-!
# Format strings

`print` walks over a C string with an index in `Formatter`. It prints
characters up to a field, lets the overload of `select` for the next argument
parse and print the field, and prints what is left when the arguments are used
up. Characters are read one at a time, and nothing is returned by a read behind
the terminator. All functions take the index and return the characters put, the
index they leave and the values it had in between.
-/

namespace WorkbenchOS.FormatStrings

open LibStd FormatSpecs

/-- The characters of a C string in front of its NUL. -/
structure FormatString where
  /-- The characters. -/
  chars : List UInt8
  /-- None of them is the terminator. -/
  noNul : ∀ c∈chars,c≠0

/-- A read of the string: a character, the terminator, or nothing behind it. -/
def FormatString.get (s : FormatString) (i : ℕ) : Option UInt8 := (s.chars++[0])[i]?

/-- What a call printed, and where it left `Formatter.index`. -/
structure Written where
  /-- The characters given to `debug_putchar`. -/
  output : List UInt8
  /-- `Formatter.index` afterwards. -/
  index : ℕ
  /-- The values that `Formatter.index` was assigned. -/
  trail : List ℕ
  deriving DecidableEq

/-- Return at once. -/
def stay (i : ℕ) : Written := ⟨[],i,[]⟩

/-- Print a character and assign the index, then go on. -/
def put (c : UInt8) (i : ℕ) (rest : Option Written) : Option Written :=
  rest.map fun w => ⟨c::w.output,w.index,i::w.trail⟩

/-- One call, then another from the index where it stopped. -/
def andThen (first : Option Written) (second : ℕ→Option Written) : Option Written :=
  first.bind fun w => (second w.index).map fun v =>
    ⟨w.output++v.output,v.index,w.trail++v.trail⟩

/-- The loop of the two functions that print literal characters. A single brace
that starts a field ends `print_literal_until_field`, while `println_internal`
prints it. -/
def literalLoop (s : FormatString) (stops : Bool) : ℕ→ℕ→Option Written
  | 0,_ => none
  | fuel+1,i => do
    let c ← s.get i
    if c=0 then some (stay i)
    else if c=chr '{' then
      let n ← s.get (i+1)
      if n=chr '{' then put c (i+2) (literalLoop s stops fuel (i+2))
      else if stops then some (stay i)
      else put c (i+1) (literalLoop s stops fuel (i+1))
    else if c=chr '}' then
      let n ← s.get (i+1)
      if n=chr '}' then put c (i+2) (literalLoop s stops fuel (i+2))
      else put c (i+1) (literalLoop s stops fuel (i+1))
    else put c (i+1) (literalLoop s stops fuel (i+1))

/-- `print_literal_until_field`. -/
def printLiteralUntilField (s : FormatString) (i : ℕ) : Option Written :=
  literalLoop s true (s.chars.length+1) i

/-- `is_digit`. -/
def isDigit (c : UInt8) : Bool := chr '0'≤c && c≤chr '9'

/-- The alignments. -/
def isAlign (c : UInt8) : Bool := c=chr '<' || c=chr '>' || c=chr '^'

/-- An optional part of one character: where the test holds the specification
changes and the index moves on. -/
def optionalPart (s : FormatString) (test : UInt8→Bool)
    (update : FormatSpec→UInt8→FormatSpec) (fs : FormatSpec) (i : ℕ) :
    Option (FormatSpec×ℕ) := do
  let c ← s.get i
  if test c then some (update fs c,i+1) else some (fs,i)

/-- The character behind another one, not read behind the terminator. -/
def lookahead (s : FormatString) (c : UInt8) (i : ℕ) : Option UInt8 :=
  if c=0 then some 0 else s.get (i+1)

/-- The alignment, or a character and an alignment. -/
def parseAlign (s : FormatString) (fs : FormatSpec) (i : ℕ) : Option (FormatSpec×ℕ) := do
  let c ← s.get i
  let a ← lookahead s c i
  if isAlign a then some ({fs with fill := c,align := a},i+2)
  else optionalPart s isAlign (fun fs c => {fs with align := c}) fs i

/-- The sign. -/
def parseSign (s : FormatString) : FormatSpec→ℕ→Option (FormatSpec×ℕ) :=
  optionalPart s (fun c => c=chr '+' || c=chr ' ') fun fs c => {fs with sign := c}

/-- The alternate form. -/
def parseAlt (s : FormatString) : FormatSpec→ℕ→Option (FormatSpec×ℕ) :=
  optionalPart s (fun c => c=chr '#') fun fs _ => {fs with alt := true}

/-- The zero flag, which is the fill character too. -/
def parseZero (s : FormatString) : FormatSpec→ℕ→Option (FormatSpec×ℕ) :=
  optionalPart s (fun c => c=chr '0') fun fs _ => {fs with zero := true,fill := chr '0'}

/-- The loop over the digits of the width. -/
def widthLoop (s : FormatString) : ℕ→ℤ→ℕ→Option (ℤ×ℕ)
  | 0,_,_ => none
  | fuel+1,w,i => do
    let c ← s.get i
    if isDigit c then
      widthLoop s fuel (int32 (int32 (w*10)+((c.toNat : ℤ)-(chr '0').toNat))) (i+1)
    else some (w,i)

/-- The width. -/
def parseWidth (s : FormatString) (fs : FormatSpec) (i : ℕ) : Option (FormatSpec×ℕ) := do
  let c ← s.get i
  if isDigit c then
    (widthLoop s (s.chars.length+1) 0 i).map fun p => ({fs with width := p.1},p.2)
  else some (fs,i)

/-- The type. -/
def parseType (s : FormatString) : FormatSpec→ℕ→Option (FormatSpec×ℕ) :=
  optionalPart s (fun c => c≠0 && c≠chr '}') fun fs c =>
    {fs with type := c,uppercase := fs.uppercase || c=chr 'X'}

/-- The scan to the next closing brace or to the terminator. -/
def recoverLoop (s : FormatString) : ℕ→ℕ→Option ℕ
  | 0,_ => none
  | fuel+1,i => do
    let c ← s.get i
    if c≠0 && c≠chr '}' then recoverLoop s fuel (i+1) else some i

/-- The closing brace, or what is done where it is missing. -/
def parseClose (s : FormatString) (i : ℕ) : Option ℕ := do
  let c ← s.get i
  if c=chr '}' then some (i+1)
  else
    let j ← recoverLoop s (s.chars.length+1) i
    let e ← s.get j
    if e=chr '}' then some (j+1) else some j

/-- The parts behind the alignment. -/
def parseFlags (s : FormatString) (fs : FormatSpec) (i : ℕ) : Option (FormatSpec×ℕ) := do
  let p ← parseSign s fs i
  let p ← parseAlt s p.1 p.2
  let p ← parseZero s p.1 p.2
  let p ← parseWidth s p.1 p.2
  parseType s p.1 p.2

/-- What `parse_spec` does behind a colon, up to the closing brace. -/
def parseParts (s : FormatString) (i : ℕ) : Option (FormatSpec×ℕ) := do
  let p ← parseAlign s .defaults i
  parseFlags s p.1 p.2

/-- The colon and the parts behind it, if the character behind the opening brace
is one. -/
def parseColon (s : FormatString) (c : UInt8) (start : ℕ) : Option (FormatSpec×ℕ) :=
  if c=chr ':' then parseParts s (start+2) else some (.defaults,start+1)

/-- `parse_spec` at an opening brace: the specification and the index it
leaves. -/
def parseSpec (s : FormatString) (start : ℕ) : Option (FormatSpec×ℕ) := do
  let c ← s.get (start+1)
  if c=chr '}' then some (.defaults,start+2)
  else
    let p ← parseColon s c start
    (parseClose s p.2).map fun e => (p.1,e)

/-- The arguments, one kind for each overload of `select`. -/
inductive Argument where
  /-- `String *`. -/
  | string (text : List UInt8)
  /-- `const String &`. -/
  | stringReference (text : List UInt8)
  /-- `StringView`. -/
  | stringView (text : List UInt8)
  /-- `const char *`. -/
  | cString (text : List UInt8)
  /-- `u8`. -/
  | u8 (v : UInt8)
  /-- `u32`. -/
  | u32 (v : UInt32)
  /-- `u64`. -/
  | u64 (v : UInt64)
  /-- `int32_t`. -/
  | int32 (v : Int32)
  /-- `int64_t`. -/
  | int64 (v : Int64)
  /-- `void *`. -/
  | pointer (p : UInt64)
  /-- `bool`. -/
  | bool (b : Bool)
  /-- `char`. -/
  | char (c : UInt8)
  deriving DecidableEq

/-- The overloads that `UnbufferedConsole.h` declares. -/
def Argument.Declared : Argument→Prop
  | .string _ | .stringReference _ | .stringView _ | .cString _ | .u64 _ | .pointer _ => True
  | _ => False

/-- The overloads that parse the field once. -/
def Argument.ParsesOnce : Argument→Prop
  | .bool _ => False
  | _ => True

/-- The header declares no overload that parses twice. -/
theorem Argument.Declared.parsesOnce {a : Argument} (ha : a.Declared) : a.ParsesOnce := by
  cases a with
  | bool b => exact ha.elim
  | _ => trivial

/-- An overload that parses the field and then prints the argument. -/
def selectWith (s : FormatString) (text : FormatSpec→Option (List UInt8)) (i : ℕ) :
    Option Written := do
  let p ← parseSpec s i
  (text p.1).map fun output => ⟨output,p.2,[p.2]⟩

/-- The overloads for strings; the length is converted to `int`. -/
def selectString (s : FormatString) (text : List UInt8) : ℕ→Option Written :=
  selectWith s fun fs => some (emitPadded fs text (int32 text.length))

/-- The overload for a C string, which ends at its NUL. -/
def selectCString (s : FormatString) (text : List UInt8) : ℕ→Option Written :=
  selectString s (text.takeWhile (·≠0))

/-- The overload for a pointer. -/
def selectPointer (s : FormatString) (p : UInt64) : ℕ→Option Written :=
  selectWith s fun fs =>
    formatAndEmitUnsigned p.toNat (if fs.type=0 then {fs with type := chr 'p'} else fs) true

/-- The overload for `bool`, which parses the field and leaves the printing to
the overload for a C string. -/
def selectBool (s : FormatString) (b : Bool) (i : ℕ) : Option Written := do
  let p ← parseSpec s i
  (selectCString s ((if b then "true" else "false").toList.map chr) p.2).map fun w =>
    {w with trail := p.2::w.trail}

/-- `select`. -/
def select (s : FormatString) : Argument→ℕ→Option Written
  | .string text => selectString s text
  | .stringReference text => selectString s text
  | .stringView text => selectString s text
  | .cString text => selectCString s text
  | .u8 v => selectWith s fun fs => formatAndEmitUnsigned v.toNat fs false
  | .u32 v => selectWith s fun fs => formatAndEmitUnsigned v.toNat fs false
  | .u64 v => selectWith s fun fs => formatAndEmitUnsigned v.toNat fs false
  | .int32 v => selectWith s fun fs => formatAndEmitSigned v.toInt fs
  | .int64 v => selectWith s fun fs => formatAndEmitSigned v.toInt fs
  | .pointer p => selectPointer s p
  | .bool b => selectBool s b
  | .char c => selectWith s fun fs => some (emitPadded fs [c] 1)

/-- `println_internal`: the characters that are left when there is no argument,
else one field for the first argument. -/
def printlnInternal (s : FormatString) : List Argument→ℕ→Option Written
  | [],i => literalLoop s false (s.chars.length+1) i
  | a::rest,i => andThen (printLiteralUntilField s i) fun j => do
    let c ← s.get j
    if c=0 then some (stay j) else andThen (select s a j) (printlnInternal s rest)

/-- `print`. -/
def print (s : FormatString) (args : List Argument) : Option Written :=
  andThen (printlnInternal s args 0) (printlnInternal s [])

/-- `println`: `print`, and a newline. -/
def println (s : FormatString) (args : List Argument) : Option Written :=
  (print s args).map fun w => {w with output := w.output++[10]}

section Reads

variable {s : FormatString} {i : ℕ} {c : UInt8}

/-- A read in front of the terminator. -/
theorem get_of_lt (h : i< s.chars.length) : s.get i=some s.chars[i] := by
  rw [FormatString.get,List.getElem?_append_left h,List.getElem?_eq_getElem h]

/-- The read of the terminator. -/
theorem get_length (s : FormatString) : s.get s.chars.length=some 0 := by
  rw [FormatString.get,List.getElem?_append_right le_rfl,Nat.sub_self]
  rfl

/-- Everything up to the terminator can be read. -/
theorem get_of_le (h : i≤ s.chars.length) : ∃ c, s.get i=some c := by
  rcases Nat.lt_or_eq_of_le h with hlt | rfl
  · exact ⟨_,get_of_lt hlt⟩
  · exact ⟨0,get_length s⟩

/-- What can be read is not behind the terminator. -/
theorem le_of_get (h : s.get i=some c) : i≤ s.chars.length := by
  obtain ⟨hlt,-⟩ := List.getElem?_eq_some_iff.mp h
  rw [List.length_append,List.length_singleton] at hlt
  omega

/-- A character that is not the terminator is in front of it. -/
theorem lt_of_get (h : s.get i=some c) (hc : c≠0) : i< s.chars.length := by
  refine Nat.lt_of_le_of_ne (le_of_get h) ?_
  rintro rfl
  rw [get_length] at h
  exact hc (Option.some.inj h).symm

/-- The terminator is at the end of the string. -/
theorem eq_length_of_get (h : s.get i=some 0) : i=s.chars.length := by
  by_contra hne
  have hlt := Nat.lt_of_le_of_ne (le_of_get h) hne
  rw [get_of_lt hlt] at h
  exact s.noNul _ (List.getElem_mem hlt) (Option.some.inj h)

/-- The first character of a suffix. -/
theorem get_of_drop {rest : List UInt8} (h : s.chars.drop i=c::rest) :
    s.get i=some c ∧ s.chars.drop (i+1)=rest := by
  have hlt : i< s.chars.length := by
    by_contra hge
    rw [List.drop_eq_nil_of_le (by omega)] at h
    cases h
  rw [List.drop_eq_getElem_cons hlt] at h
  injection h with hhead htail
  exact ⟨by rw [get_of_lt hlt,hhead],htail⟩

end Reads

/-- An index reached from another without passing the terminator, as are all
those assigned on the way. -/
structure Inside (s : FormatString) (i : ℕ) (w : Written) : Prop where
  /-- The index does not move back. -/
  forward : i≤w.index
  /-- The index is not behind the terminator. -/
  index_le : w.index≤ s.chars.length
  /-- Nor was it before. -/
  trail_le : ∀ j∈w.trail,j≤ s.chars.length

/-- The call returns, inside the string, at an index with a property. -/
def Returns (s : FormatString) (i : ℕ) (property : ℕ→Prop) (result : Option Written) : Prop :=
  ∃ w, result=some w ∧ Inside s i w ∧ property w.index

section Returns

variable {s : FormatString} {i : ℕ} {property : ℕ→Prop}

/-- A call that returns where it started. -/
theorem returns_stay (hi : i≤ s.chars.length) (hp : property i) :
    Returns s i property (some (stay i)) :=
  ⟨_,rfl,⟨le_rfl,hi,fun _ hj => absurd hj List.not_mem_nil⟩,hp⟩

/-- A character printed before a call that returns. -/
theorem returns_put {c : UInt8} {j : ℕ} {rest : Option Written} (hij : i≤j)
    (h : Returns s j property rest) : Returns s i property (put c j rest) := by
  obtain ⟨w,rfl,hw,hp⟩ := h
  refine ⟨_,rfl,⟨hij.trans hw.forward,hw.index_le,?_⟩,hp⟩
  exact List.forall_mem_cons.mpr ⟨hw.forward.trans hw.index_le,hw.trail_le⟩

/-- What two calls print together. -/
theorem andThen_some {w v : Written} {second : ℕ→Option Written} (h : second w.index=some v) :
    andThen (some w) second=some ⟨w.output++v.output,v.index,w.trail++v.trail⟩ := by
  rw [andThen,Option.bind_some,h,Option.map_some]

/-- Two calls that return, one after the other. -/
theorem returns_andThen {middle : ℕ→Prop} {first : Option Written} {second : ℕ→Option Written}
    (h : Returns s i middle first)
    (hs : ∀ j, i≤j → j≤ s.chars.length → middle j → Returns s j property (second j)) :
    Returns s i property (andThen first second) := by
  obtain ⟨w,rfl,hw,hm⟩ := h
  obtain ⟨v,hv,hin,hp⟩ := hs w.index hw.forward hw.index_le hm
  refine ⟨_,andThen_some hv,⟨?_,hin.index_le,?_⟩,hp⟩
  · exact hw.forward.trans hin.forward
  · exact List.forall_mem_append.mpr ⟨hw.trail_le,hin.trail_le⟩

end Returns

/-- The start of a field: an opening brace that is not doubled. -/
def FieldStart (s : FormatString) (i : ℕ) : Prop :=
  s.get i=some (chr '{') ∧ s.get (i+1)≠some (chr '{')

/-- Where the loop over literal characters ends. -/
def LiteralEnd (s : FormatString) (stops : Bool) (i : ℕ) : Prop :=
  i=s.chars.length ∨ stops=true ∧ FieldStart s i

/-- The loop over literal characters ends at the terminator or, for
`print_literal_until_field`, at a field. -/
theorem literalLoop_returns (s : FormatString) (stops : Bool) (fuel i : ℕ)
    (hi : i≤ s.chars.length) (hf : s.chars.length-i<fuel) :
    Returns s i (LiteralEnd s stops) (literalLoop s stops fuel i) := by
  induction fuel generalizing i with
  | zero => omega
  | succ fuel ih =>
    obtain ⟨c,hc⟩ := get_of_le hi
    rw [literalLoop,hc]
    simp only [Option.bind_eq_bind,Option.bind_some]
    by_cases hz : c=0
    · rw [if_pos hz]
      rw [hz] at hc
      exact returns_stay hi (Or.inl (eq_length_of_get hc))
    · rw [if_neg hz]
      have hlt := lt_of_get hc hz
      have hone : ∀ c, Returns s i (LiteralEnd s stops)
          (put c (i+1) (literalLoop s stops fuel (i+1))) := by
        intro c
        exact returns_put (by omega) (ih (i+1) hlt (by omega))
      obtain ⟨n,hn⟩ := get_of_le (Nat.succ_le_of_lt hlt)
      have htwo : n≠0 → ∀ c, Returns s i (LiteralEnd s stops)
          (put c (i+2) (literalLoop s stops fuel (i+2))) := by
        intro hnz c
        have hlt2 := lt_of_get hn hnz
        exact returns_put (by omega) (ih (i+2) hlt2 (by omega))
      rw [hn]
      simp only [Option.bind_some]
      by_cases hopen : c=chr '{'
      · rw [if_pos hopen]
        by_cases hdouble : n=chr '{'
        · rw [if_pos hdouble]
          exact htwo (by rw [hdouble]; decide) c
        · rw [if_neg hdouble]
          cases stops with
          | true =>
            refine returns_stay hi (Or.inr ⟨rfl,by rw [hc,hopen],?_⟩)
            rw [hn]
            exact fun he => hdouble (Option.some.inj he)
          | false => exact hone c
      · rw [if_neg hopen]
        by_cases hclose : c=chr '}'
        · rw [if_pos hclose]
          by_cases hdouble : n=chr '}'
          · rw [if_pos hdouble]
            exact htwo (by rw [hdouble]; decide) c
          · rw [if_neg hdouble]
            exact hone c
        · rw [if_neg hclose]
          exact hone c

/-- The first closing brace from an index on, the terminator if there is
none. -/
def closing (s : FormatString) (i : ℕ) : ℕ := i+(s.chars.drop i).findIdx (·=chr '}')

/-- The index moves on within a field, not over its closing brace. -/
structure Advances (s : FormatString) (i j : ℕ) : Prop where
  /-- The index does not move back. -/
  forward : i≤j
  /-- The index is not behind the terminator. -/
  le_length : j≤ s.chars.length
  /-- No closing brace is passed. -/
  closing_eq : closing s j=closing s i

section Closing

variable {s : FormatString} {i j k : ℕ} {c : UInt8}

/-- A closing brace is where it is. -/
theorem closing_here (h : s.get i=some (chr '}')) : closing s i=i := by
  have hlt := lt_of_get h (by decide)
  rw [get_of_lt hlt] at h
  rw [closing,List.drop_eq_getElem_cons hlt,List.findIdx_cons,Option.some.inj h]
  rfl

/-- Another character is not one. -/
theorem closing_succ (h : s.get i=some c) (hz : c≠0) (hc : c≠chr '}') :
    closing s (i+1)=closing s i := by
  have hlt := lt_of_get h hz
  rw [get_of_lt hlt] at h
  rw [closing,closing,List.drop_eq_getElem_cons hlt,List.findIdx_cons,Option.some.inj h,
    decide_eq_false hc,cond_false]
  omega

/-- There is none behind the terminator. -/
theorem closing_length (s : FormatString) : closing s s.chars.length=s.chars.length := by
  rw [closing,List.drop_length,List.findIdx_nil,Nat.add_zero]

/-- The closing brace is not in front of where the search starts. -/
theorem le_closing (s : FormatString) (i : ℕ) : i≤closing s i := Nat.le_add_right _ _

/-- The search ends at the terminator. -/
theorem closing_le (hi : i≤ s.chars.length) : closing s i≤ s.chars.length := by
  have hle := @List.findIdx_le_length _ (·=chr '}') (s.chars.drop i)
  rw [List.length_drop] at hle
  rw [closing]
  omega

/-- Not to move at all. -/
theorem advances_refl (hi : i≤ s.chars.length) : Advances s i i := ⟨le_rfl,hi,rfl⟩

/-- One move after another. -/
theorem Advances.trans (h : Advances s i j) (k' : Advances s j k) : Advances s i k :=
  ⟨h.forward.trans k'.forward,k'.le_length,k'.closing_eq.trans h.closing_eq⟩

/-- A move over a character that is no closing brace. -/
theorem advances_succ (h : s.get i=some c) (hz : c≠0) (hc : c≠chr '}') : Advances s i (i+1) :=
  ⟨Nat.le_succ i,lt_of_get h hz,closing_succ h hz hc⟩

end Closing

/-- A part of the field is parsed and the index advances over it. -/
def Moves {α : Type*} (s : FormatString) (i : ℕ) (result : Option (α×ℕ)) : Prop :=
  ∃ p, result=some p ∧ Advances s i p.2

section Parts

variable {s : FormatString} {i : ℕ}

/-- One part after another. -/
theorem Moves.bind {α β : Type*} {result : Option (α×ℕ)} {next : α×ℕ→Option (β×ℕ)}
    (h : Moves s i result) (hn : ∀ p : α×ℕ, p.2≤ s.chars.length → Moves s p.2 (next p)) :
    Moves s i (result.bind next) := by
  obtain ⟨p,rfl,hp⟩ := h
  obtain ⟨q,hq,hadvances⟩ := hn p hp.le_length
  exact ⟨q,hq,hp.trans hadvances⟩

/-- A part of one character that is no closing brace. -/
theorem optionalPart_moves {test : UInt8→Bool} (update : FormatSpec→UInt8→FormatSpec)
    (fs : FormatSpec) (hz : test 0=false) (hb : test (chr '}')=false) (hi : i≤ s.chars.length) :
    Moves s i (optionalPart s test update fs i) := by
  obtain ⟨c,hc⟩ := get_of_le hi
  rw [optionalPart,hc]
  simp only [Option.bind_eq_bind,Option.bind_some]
  by_cases ht : test c=true
  · rw [if_pos ht]
    have hcz : c≠0 := by
      rintro rfl
      exact Bool.false_ne_true (hz.symm.trans ht)
    have hcb : c≠chr '}' := by
      rintro rfl
      exact Bool.false_ne_true (hb.symm.trans ht)
    exact ⟨_,rfl,advances_succ hc hcz hcb⟩
  · rw [if_neg ht]
    exact ⟨_,rfl,advances_refl hi⟩

/-- The digits of a width. -/
theorem widthLoop_moves (s : FormatString) (fuel : ℕ) (w : ℤ) (i : ℕ) (hi : i≤ s.chars.length)
    (hf : s.chars.length-i<fuel) : Moves s i (widthLoop s fuel w i) := by
  induction fuel generalizing w i with
  | zero => omega
  | succ fuel ih =>
    obtain ⟨c,hc⟩ := get_of_le hi
    rw [widthLoop,hc]
    simp only [Option.bind_eq_bind,Option.bind_some]
    by_cases hd : isDigit c=true
    · rw [if_pos hd]
      have hcz : c≠0 := by
        rintro rfl
        exact absurd hd (by decide)
      have hcb : c≠chr '}' := by
        rintro rfl
        exact absurd hd (by decide)
      have hstep := advances_succ hc hcz hcb
      obtain ⟨p,hp,hadvances⟩ := ih (int32 (int32 (w*10)+((c.toNat : ℤ)-(chr '0').toNat)))
        (i+1) hstep.le_length (by have hlt := lt_of_get hc hcz; omega)
      exact ⟨p,hp,hstep.trans hadvances⟩
    · rw [if_neg hd]
      exact ⟨_,rfl,advances_refl hi⟩

/-- The width. -/
theorem parseWidth_moves (fs : FormatSpec) (hi : i≤ s.chars.length) :
    Moves s i (parseWidth s fs i) := by
  obtain ⟨c,hc⟩ := get_of_le hi
  rw [parseWidth,hc]
  simp only [Option.bind_eq_bind,Option.bind_some]
  split
  · obtain ⟨p,hp,hadvances⟩ := widthLoop_moves s (s.chars.length+1) 0 i hi (by omega)
    rw [hp]
    exact ⟨_,rfl,hadvances⟩
  · exact ⟨_,rfl,advances_refl hi⟩

/-- The recovery scan ends at the closing brace or at the terminator. -/
theorem recoverLoop_closing (s : FormatString) (fuel i : ℕ) (hi : i≤ s.chars.length)
    (hf : s.chars.length-i<fuel) : recoverLoop s fuel i=some (closing s i) := by
  induction fuel generalizing i with
  | zero => omega
  | succ fuel ih =>
    obtain ⟨c,hc⟩ := get_of_le hi
    rw [recoverLoop,hc]
    simp only [Option.bind_eq_bind,Option.bind_some]
    by_cases hz : c=0
    · rw [hz] at hc ⊢
      rw [eq_length_of_get hc,closing_length]
      rfl
    · by_cases hb : c=chr '}'
      · rw [hb] at hc ⊢
        rw [closing_here hc]
        rfl
      · have hlt := lt_of_get hc hz
        rw [if_pos (by rw [decide_eq_true hz,decide_eq_true hb,Bool.and_self]),
          ih (i+1) hlt (by omega),closing_succ hc hz hb]

/-- Just behind the closing brace, at the terminator if there is none. -/
def pastClosing (s : FormatString) (i : ℕ) : ℕ :=
  if closing s i< s.chars.length then closing s i+1 else s.chars.length

/-- A closing brace that is in the string can be read. -/
theorem get_closing (h : closing s i< s.chars.length) : s.get (closing s i)=some (chr '}') := by
  have hfound : (s.chars.drop i).findIdx (·=chr '}')<(s.chars.drop i).length := by
    rw [List.length_drop]
    rw [closing] at h
    omega
  have hbrace := List.findIdx_getElem (w := hfound)
  rw [List.getElem_drop,decide_eq_true_eq] at hbrace
  rw [get_of_lt h]
  exact congrArg some hbrace

/-- However the field ends, the index is behind its closing brace. -/
theorem parseClose_closing (hi : i≤ s.chars.length) :
    parseClose s i=some (pastClosing s i) := by
  obtain ⟨c,hc⟩ := get_of_le hi
  rw [parseClose,hc]
  simp only [Option.bind_eq_bind,Option.bind_some]
  by_cases hb : c=chr '}'
  · rw [hb] at hc
    rw [if_pos hb,pastClosing,closing_here hc,if_pos (lt_of_get hc (by decide))]
  · rw [if_neg hb,recoverLoop_closing s _ i hi (by omega),Option.bind_some,pastClosing]
    by_cases hlt : closing s i< s.chars.length
    · rw [get_closing hlt,if_pos hlt]
      rfl
    · have hend : closing s i=s.chars.length := Nat.le_antisymm (closing_le hi) (Nat.le_of_not_lt hlt)
      rw [hend,get_length,if_neg (lt_irrefl _)]
      rfl

/-- The index behind a field is in the string. -/
theorem pastClosing_le (hi : i≤ s.chars.length) : i≤pastClosing s i ∧ pastClosing s i≤ s.chars.length := by
  have hclosing := le_closing s i
  rw [pastClosing]
  split
  · omega
  · omega

/-- The lookahead for an alignment finds one behind the closing brace. -/
def BraceFill (s : FormatString) (i : ℕ) : Prop :=
  s.get i=some (chr '}') ∧ (s.get (i+1)).any isAlign=true

instance (s : FormatString) (i : ℕ) : Decidable (BraceFill s i) :=
  inferInstanceAs (Decidable (_ ∧ _))

/-- The alignment. -/
theorem parseAlign_moves (fs : FormatSpec) (hi : i≤ s.chars.length) (hb : ¬BraceFill s i) :
    Moves s i (parseAlign s fs i) := by
  have hsingle := optionalPart_moves (fun fs c => {fs with align := c}) fs
    (show isAlign 0=false by decide) (show isAlign (chr '}')=false by decide) hi
  obtain ⟨c,hc⟩ := get_of_le hi
  rw [parseAlign,hc]
  simp only [Option.bind_eq_bind,Option.bind_some]
  by_cases hz : c=0
  · rw [lookahead,if_pos hz]
    exact hsingle
  · obtain ⟨a,ha⟩ := get_of_le (Nat.succ_le_of_lt (lt_of_get hc hz))
    rw [lookahead,if_neg hz,ha,Option.bind_some]
    by_cases halign : isAlign a=true
    · rw [if_pos halign]
      have hcb : c≠chr '}' := by
        rintro rfl
        exact hb ⟨hc,by rw [ha]; exact halign⟩
      have haz : a≠0 := by
        rintro rfl
        exact absurd halign (by decide)
      have hab : a≠chr '}' := by
        rintro rfl
        exact absurd halign (by decide)
      exact ⟨_,rfl,(advances_succ hc hz hcb).trans (advances_succ ha haz hab)⟩
    · rw [if_neg halign]
      exact hsingle

/-- A closing brace in front of an alignment is taken as the fill character. -/
theorem parseAlign_brace (fs : FormatSpec) (hb : BraceFill s i) :
    ∃ fs', parseAlign s fs i=some (fs',i+2) ∧ i+2≤ s.chars.length := by
  obtain ⟨hc,hany⟩ := hb
  obtain ⟨a,ha,halign⟩ := (Option.any_eq_true isAlign _).mp hany
  have haz : a≠0 := by
    rintro rfl
    exact absurd halign (by decide)
  rw [parseAlign,hc]
  simp only [Option.bind_eq_bind,Option.bind_some]
  rw [lookahead,if_neg (by decide),ha,Option.bind_some,if_pos halign]
  exact ⟨_,rfl,lt_of_get ha haz⟩

/-- The parts behind the alignment. -/
theorem parseFlags_moves (fs : FormatSpec) (hi : i≤ s.chars.length) :
    Moves s i (parseFlags s fs i) := by
  refine (optionalPart_moves _ fs (by decide) (by decide) hi).bind fun p hp => ?_
  refine (optionalPart_moves _ p.1 (by decide) (by decide) hp).bind fun p hp => ?_
  refine (optionalPart_moves _ p.1 (by decide) (by decide) hp).bind fun p hp => ?_
  refine (parseWidth_moves p.1 hp).bind fun p hp => ?_
  exact optionalPart_moves _ p.1 (by decide) (by decide) hp

/-- The field whose closing brace is taken as the fill character. -/
def BraceTakenAsFill (s : FormatString) (start : ℕ) : Prop :=
  s.get (start+1)=some (chr ':') ∧ BraceFill s (start+2)

instance (s : FormatString) (start : ℕ) : Decidable (BraceTakenAsFill s start) :=
  inferInstanceAs (Decidable (_ ∧ _))

/-- A field ends behind its own closing brace unless that is taken as the fill
character. -/
theorem parseSpec_closing {start : ℕ} (h : start< s.chars.length)
    (hb : ¬BraceTakenAsFill s start) :
    ∃ fs, parseSpec s start=some (fs,pastClosing s (start+1)) := by
  obtain ⟨c,hc⟩ := get_of_le (Nat.succ_le_of_lt h)
  rw [parseSpec,hc]
  simp only [Option.bind_eq_bind,Option.bind_some]
  by_cases hclose : c=chr '}'
  · rw [hclose] at hc
    rw [if_pos hclose,pastClosing,closing_here hc,if_pos (lt_of_get hc (by decide))]
    exact ⟨_,rfl⟩
  · rw [if_neg hclose]
    by_cases hcolon : c=chr ':'
    · rw [hcolon] at hc
      have hstep := advances_succ hc (by decide) (by decide)
      have hparts : Moves s (start+2) (parseParts s (start+2)) :=
        (parseAlign_moves .defaults hstep.le_length (fun hfill => hb ⟨hc,hfill⟩)).bind
          fun p hp => parseFlags_moves p.1 hp
      obtain ⟨p,hp,hadvances⟩ := hparts
      have hall := hstep.trans hadvances
      rw [parseColon,if_pos hcolon,hp,Option.bind_some,parseClose_closing hall.le_length,Option.map_some,
        pastClosing,hall.closing_eq]
      exact ⟨_,rfl⟩
    · rw [parseColon,if_neg hcolon,Option.bind_some,parseClose_closing (le_of_get hc),
        Option.map_some]
      exact ⟨_,rfl⟩

/-- If it is, the index is two characters behind it at least. -/
theorem parseSpec_brace {start : ℕ} (hb : BraceTakenAsFill s start) :
    ∃ fs next, parseSpec s start=some (fs,next) ∧ start+4≤next ∧ next≤ s.chars.length := by
  obtain ⟨hc,hfill⟩ := hb
  obtain ⟨fs,halign,hle⟩ := parseAlign_brace .defaults hfill
  obtain ⟨p,hp,hadvances⟩ := parseFlags_moves fs hle
  obtain ⟨hfirst,hlast⟩ := pastClosing_le hadvances.le_length
  have hforward := hadvances.forward
  refine ⟨p.1,pastClosing s p.2,?_,by omega,hlast⟩
  rw [parseSpec,hc]
  simp only [Option.bind_eq_bind,Option.bind_some]
  rw [if_neg (by decide),parseColon,if_pos rfl,parseParts,Option.bind_eq_bind,halign,Option.bind_some,hp,
    Option.bind_some,parseClose_closing hadvances.le_length,Option.map_some]

/-- A field that starts in front of the terminator is parsed, and the index
moves on in the string. -/
theorem parseSpec_returns {start : ℕ} (h : start< s.chars.length) :
    ∃ fs next, parseSpec s start=some (fs,next) ∧ start<next ∧ next≤ s.chars.length := by
  by_cases hb : BraceTakenAsFill s start
  · obtain ⟨fs,next,hp,hfirst,hlast⟩ := parseSpec_brace hb
    exact ⟨fs,next,hp,by omega,hlast⟩
  · obtain ⟨fs,hp⟩ := parseSpec_closing h hb
    obtain ⟨hfirst,hlast⟩ := pastClosing_le (Nat.succ_le_of_lt h)
    exact ⟨fs,_,hp,hfirst,hlast⟩

end Parts

end WorkbenchOS.FormatStrings
