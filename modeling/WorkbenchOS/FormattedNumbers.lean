import WorkbenchOS.Numerals
import WorkbenchOS.FormatStrings

/-!
# The value of a formatted number

The text of an unsigned number is a prefix, a numeral and what fills it to the
width. The zero flag makes zero the fill character, which is meant for zeros
between the prefix and the digits. With another alignment the zeros end up
outside, where they change what is read.
-/

namespace WorkbenchOS.FormattedNumbers

open LibStd Numerals FormatSpecs FormatStrings

/-- The value of a digit, too large for other characters. -/
def digitValue (c : UInt8) : ℕ :=
  if chr '0'≤c ∧ c≤chr '9' then c.toNat-48
  else if chr 'a'≤c ∧ c≤chr 'f' then c.toNat-87
  else if chr 'A'≤c ∧ c≤chr 'F' then c.toNat-55
  else 16

/-- The types for numbers, 0 for none. -/
def numberTypes : List UInt8 := 0::['d','u','x','X','o','b'].map chr

/-- The field names its fill character. -/
def ExplicitFill (s : FormatString) (start : ℕ) : Prop :=
  s.get (start+1)=some (chr ':') ∧ s.get (start+2)≠some 0 ∧ (s.get (start+3)).any isAlign=true

instance (s : FormatString) (start : ℕ) : Decidable (ExplicitFill s start) :=
  inferInstanceAs (Decidable (_ ∧ _ ∧ _))

/-- The numeral of a value in the base of the type. -/
def numberDigits (fs : FormatSpec) (v : ℕ) : List UInt8 :=
  numeral (digit fs.uppercase) (unsignedBase fs.type) v

/-- The prefix and the digits, not filled. -/
def naturalLength (fs : FormatSpec) (v : ℕ) : ℕ :=
  (altPrefix fs (unsignedBase fs.type)).length+(numberDigits fs v).length

/-- A text without the spaces around it. -/
def trimSpaces (text : List UInt8) : List UInt8 :=
  (text.dropWhile (·=chr ' ')).rdropWhile (·=chr ' ')

/-- Without the spaces around it the text is the prefix and a numeral of the
value. -/
def ReadsAs (fs : FormatSpec) (text : List UInt8) (v : ℕ) : Prop :=
  ∃ digits, trimSpaces text=altPrefix fs (unsignedBase fs.type)++digits ∧
    IsNumeral digitValue (unsignedBase fs.type) digits v

/-- The text has the width, or its natural length if that is larger, and reads
as the value. -/
def PreservesValue (fs : FormatSpec) (v : ℕ) : Prop :=
  ∃ text, formatAndEmitUnsigned v fs false=some text ∧
    (text.length : ℤ)=max fs.width (naturalLength fs v) ∧ ReadsAs fs text v

/-- Zeros fill the text on the outside. -/
def ZerosOutside (fs : FormatSpec) (v : ℕ) : Prop :=
  fs.zero=true ∧ fs.align≠chr '>' ∧ (naturalLength fs v : ℤ)<fs.width

/-- The prefix has a letter. -/
def LetterPrefix (fs : FormatSpec) : Prop :=
  fs.alt=true ∧ (unsignedBase fs.type=16 ∨ unsignedBase fs.type=2)

/-- The zeros do no harm: there are none outside, or they surround a zero and
leave a prefix with a letter at the front. -/
def HarmlessZeros (fs : FormatSpec) (v : ℕ) : Prop :=
  ZerosOutside fs v → v=0 ∧
    (fs.align=chr '<' ∨ ¬LetterPrefix fs ∨ fs.width=naturalLength fs v+1)

/-- What `parse_spec` makes of a field that does not name its fill
character. -/
structure PlainSpec (fs : FormatSpec) : Prop where
  /-- One of the three alignments. -/
  align_mem : fs.align=chr '<' ∨ fs.align=chr '>' ∨ fs.align=chr '^'
  /-- The zero flag is the only other source of a fill character. -/
  fill_eq : fs.fill=if fs.zero then chr '0' else chr ' '
  /-- The width is an `int`. -/
  width_lt : fs.width<2^31

section Digits

/-- A digit of a base up to sixteen has its value. -/
theorem digitValue_digit (uppercase : Bool) : ∀ d<16,digitValue (digit uppercase d)=d := by
  cases uppercase <;> decide +kernel

/-- No base is larger than sixteen. -/
theorem unsignedBase_le (t : UInt8) : unsignedBase t≤16 := by
  rw [unsignedBase]
  split_ifs <;> decide

/-- The digits of a number are a numeral. -/
theorem numberDigits_isNumeral (fs : FormatSpec) (v : ℕ) :
    IsNumeral digitValue (unsignedBase fs.type) (numberDigits fs v) v := by
  refine isNumeral_numeral (unsignedBase_two_le fs.type) ?_ v
  exact fun d hd => digitValue_digit fs.uppercase d (hd.trans_le (unsignedBase_le fs.type))

/-- The loop writes the numeral in front of what is written. -/
theorem formatUintLoop_eq {base : ℕ} {uppercase : Bool} (hb : 2≤base) {room v : ℕ}
    {written text : List UInt8} (h : formatUintLoop base uppercase room v written=some text) :
    text=numeral (digit uppercase) base v++written := by
  induction room generalizing v written with
  | zero => cases h
  | succ room ih =>
    rw [formatUintLoop] at h
    by_cases hlast : v/base=0
    · rw [if_pos hlast] at h
      rw [numeral_of_div_eq_zero _ hb hlast]
      exact (Option.some.inj h).symm
    · rw [if_neg hlast] at h
      rw [numeral_of_div_ne_zero _ hb hlast,List.append_assoc]
      exact ih h

/-- `format_uint_rev` writes the numeral. -/
theorem formatUintRev_eq {v base room : ℕ} (uppercase : Bool) (hb : 2≤base) (hr : 64≤room)
    (hv : v<2^64) :
    formatUintRev v base uppercase room=some (numeral (digit uppercase) base v) := by
  obtain ⟨text,ht⟩ := formatUintRev_returns uppercase hb hr hv
  have hdigits := formatUintLoop_eq hb ht
  rw [List.append_nil] at hdigits
  rw [ht,hdigits]

/-- The text of a number of one of the types. -/
theorem formatAndEmitUnsigned_eq {fs : FormatSpec} (ht : fs.type∈numberTypes) {v : ℕ}
    (hv : v<2^64) : formatAndEmitUnsigned v fs false=
      some (emitPaddedNumeric [] (altPrefix fs (unsignedBase fs.type)) (numberDigits fs v) fs) := by
  have hbase : unsignedBase (if fs.type=0 then chr 'u' else fs.type)=unsignedBase fs.type := by
    split
    · next hz =>
      rw [hz]
      decide
    · rfl
  have hother : ∀ t∈numberTypes,(if t=0 then chr 'u' else t)≠chr 'c' ∧
      (if t=0 then chr 'u' else t)≠chr 'p' := by decide +kernel
  obtain ⟨hc,hp⟩ := hother fs.type ht
  have hdigits := formatUintRev_eq fs.uppercase (unsignedBase_two_le fs.type)
    (by decide : 64≤67) hv
  rw [formatAndEmitUnsigned]
  dsimp only
  rw [if_neg hc,hbase,hdigits,Option.map_some,if_neg (not_or.mpr ⟨Bool.false_ne_true,hp⟩)]
  rfl

end Digits

section Filling

variable {fs : FormatSpec}

/-- The fill characters in front of the text. -/
def leftCount (align : UInt8) (pad : ℕ) : ℕ :=
  if align=chr '<' then 0 else if align=chr '^' then pad/2 else pad

/-- The fill of a specification, as a number of characters. -/
def fillCount (fs : FormatSpec) (length : ℕ) : ℕ := (fs.width-length).toNat

/-- A width leaves as many characters as it is longer than the text. -/
theorem padding_eq (hw : fs.width<2^31) (length : ℕ) :
    padding fs.width length=fillCount fs length := by
  rw [padding,fillCount]
  by_cases hlt : (length : ℤ)<fs.width
  · rw [if_pos hlt,int32_of_range (by omega) (by omega)]
    omega
  · rw [if_neg hlt]
    omega

/-- The fill in front. -/
theorem emitN_leftPad (c align : UInt8) (pad : ℕ) :
    emitN c (leftPad align pad)=List.replicate (leftCount align pad) c := by
  rw [emitN,leftPad,leftCount]
  split_ifs
  · rfl
  · exact congrArg (List.replicate · c) (by omega)
  · exact congrArg (List.replicate · c) (by omega)

/-- The fill behind. -/
theorem emitN_rightPad (c align : UInt8) (pad : ℕ) :
    emitN c (rightPad align pad)=List.replicate (pad-leftCount align pad) c := by
  rw [emitN,rightPad,leftCount]
  split_ifs
  · exact congrArg (List.replicate · c) (by omega)
  · exact congrArg (List.replicate · c) (by omega)
  · exact congrArg (List.replicate · c) (by omega)

/-- The text of a number: zeros between prefix and digits, or the fill character
on both sides. -/
theorem emitPaddedNumeric_eq (hw : fs.width<2^31) (pref digits : List UInt8) :
    emitPaddedNumeric [] pref digits fs=
      let pad := fillCount fs (pref++digits).length
      if fs.align=chr '>' ∧ fs.zero=true then pref++(List.replicate pad (chr '0')++digits)
      else List.replicate (leftCount fs.align pad) fs.fill++(pref++digits)++
        List.replicate (pad-leftCount fs.align pad) fs.fill := by
  have hlength : ((([] : List UInt8).length : ℤ)+pref.length+digits.length)=
      ((pref++digits).length : ℕ) := by
    rw [List.length_append,List.length_nil]
    omega
  rw [emitPaddedNumeric,hlength,padding_eq hw]
  dsimp only
  rw [emitN_leftPad,emitN_rightPad,emitN,Int.toNat_natCast]
  simp only [List.append_nil,List.nil_append,List.append_assoc]

/-- The text is as long as the width asks for. -/
theorem emitPaddedNumeric_length (hw : fs.width<2^31) (pref digits : List UInt8) :
    ((emitPaddedNumeric [] pref digits fs).length : ℤ)=
      max fs.width (pref.length+digits.length : ℕ) := by
  have hleft : ∀ pad, leftCount fs.align pad≤pad := by
    intro pad
    rw [leftCount]
    split_ifs
    · exact Nat.zero_le pad
    · exact Nat.div_le_self pad 2
    · exact le_rfl
  have hpad := hleft (fillCount fs (pref++digits).length)
  rw [emitPaddedNumeric_eq hw]
  dsimp only
  split
  · rw [List.length_append,List.length_append,List.length_replicate,fillCount,List.length_append]
    omega
  · simp only [List.length_append,List.length_replicate] at hpad ⊢
    rw [fillCount] at hpad ⊢
    omega

end Filling

section Trimming

variable {text front back : List UInt8}

/-- Spaces around a text without spaces are what is removed. -/
theorem trimSpaces_padded (hn : text≠[]) (hs : ∀ c∈text,c≠chr ' ') (left right : ℕ) :
    trimSpaces (List.replicate left (chr ' ')++text++List.replicate right (chr ' '))=text := by
  have hfront : ∀ rest, (List.replicate left (chr ' ')++rest).dropWhile (·=chr ' ')=
      rest.dropWhile (·=chr ' ') := by
    intro rest
    refine List.dropWhile_append_of_pos ?_
    intro c hc
    exact decide_eq_true (List.eq_of_mem_replicate hc)
  obtain ⟨c,rest,rfl⟩ := List.exists_cons_of_ne_nil hn
  have hhead : decide (c=chr ' ')=false := decide_eq_false (hs c List.mem_cons_self)
  rw [trimSpaces,List.append_assoc,hfront,List.cons_append,List.dropWhile_cons_of_neg (by
    rw [hhead]
    exact Bool.false_ne_true),←List.cons_append]
  induction right with
  | zero =>
    rw [List.replicate_zero,List.append_nil,List.rdropWhile_eq_self_iff]
    intro hne
    rw [decide_eq_true_eq]
    exact hs _ (List.getLast_mem hne)
  | succ right ih =>
    rw [List.replicate_succ',←List.append_assoc,List.rdropWhile_concat,if_pos (decide_eq_true rfl)]
    exact ih

/-- A text without spaces is left as it is. -/
theorem trimSpaces_self (hn : text≠[]) (hs : ∀ c∈text,c≠chr ' ') : trimSpaces text=text := by
  have hpadded := trimSpaces_padded hn hs 0 0
  rwa [List.replicate_zero,List.nil_append,List.append_nil] at hpadded

end Trimming

section Values

variable {fs : FormatSpec} {v : ℕ}

/-- The prefixes have no spaces. -/
theorem altPrefix_no_space (fs : FormatSpec) (base : ℕ) : ∀ c∈altPrefix fs base,c≠chr ' ' := by
  rw [altPrefix,hexPrefix]
  cases fs.uppercase <;> split_ifs <;> decide +kernel

/-- A numeral has no spaces. -/
theorem numeral_no_space {base : ℕ} {text : List UInt8} (hb : base≤16)
    (h : IsNumeral digitValue base text v) : ∀ c∈text,c≠chr ' ' := by
  intro c hc
  rintro rfl
  have hlt := h.digits_lt _ hc
  have hspace : digitValue (chr ' ')=16 := by decide
  omega

/-- A prefix and a numeral, with or without spaces around them, read as the
value. -/
theorem readsAs_padded {digits : List UInt8}
    (h : IsNumeral digitValue (unsignedBase fs.type) digits v) (left right : ℕ) :
    ReadsAs fs (List.replicate left (chr ' ')++(altPrefix fs (unsignedBase fs.type)++digits)++
      List.replicate right (chr ' ')) v := by
  refine ⟨digits,trimSpaces_padded ?_ ?_ left right,h⟩
  · exact List.append_ne_nil_of_right_ne_nil _ h.nonempty
  · exact List.forall_mem_append.mpr ⟨altPrefix_no_space fs _,
      numeral_no_space (unsignedBase_le fs.type) h⟩

/-- Zeros behind the digits are read with them, and change every value but
zero. -/
theorem readsAs_zeros_iff {digits : List UInt8} {n : ℕ} (hn : n≠0)
    (h : IsNumeral digitValue (unsignedBase fs.type) digits (unsignedBase fs.type^n*v)) :
    ReadsAs fs (altPrefix fs (unsignedBase fs.type)++digits) v↔v=0 := by
  have hspaces : ∀ c∈altPrefix fs (unsignedBase fs.type)++digits,c≠chr ' ' :=
    List.forall_mem_append.mpr ⟨altPrefix_no_space fs _,
      numeral_no_space (unsignedBase_le fs.type) h⟩
  rw [ReadsAs,trimSpaces_self (List.append_ne_nil_of_right_ne_nil _ h.nonempty) hspaces,
    ←pow_mul_eq_iff (unsignedBase_two_le fs.type) hn]
  constructor
  · rintro ⟨read,hread,hvalue⟩
    rw [←List.append_cancel_left hread] at hvalue
    exact h.read_eq.symm.trans hvalue.read_eq
  · intro hv
    rw [hv] at h
    exact ⟨digits,rfl,h⟩

/-- A prefix without a letter is a zero or empty. -/
theorem altPrefix_zeros (h : ¬LetterPrefix fs) :
    ∃ n, altPrefix fs (unsignedBase fs.type)=List.replicate n (chr '0') := by
  rw [altPrefix]
  by_cases halt : fs.alt=true
  · obtain ⟨h16,h2⟩ := not_or.mp (fun hb => h ⟨halt,hb⟩)
    rw [if_pos halt,if_neg h16,if_neg h2]
    split
    · exact ⟨1,rfl⟩
    · exact ⟨0,rfl⟩
  · exact ⟨0,if_neg halt⟩

/-- A prefix with a letter is a zero and the letter. -/
theorem altPrefix_letter (h : LetterPrefix fs) :
    ∃ c, c≠chr '0' ∧ altPrefix fs (unsignedBase fs.type)=[chr '0',c] := by
  obtain ⟨halt,hbase⟩ := h
  rw [altPrefix,if_pos halt]
  rcases hbase with h16 | h2
  · refine ⟨_,?_,by rw [if_pos h16]; rfl⟩
    split <;> decide
  · refine ⟨_,?_,by rw [h2]; rfl⟩
    split <;> decide

/-- Zeros behind the digits, and in front of a prefix without a letter. -/
theorem readsAs_around_iff {left right : ℕ} (hright : right≠0)
    (hleft : left=0 ∨ ¬LetterPrefix fs) :
    ReadsAs fs (List.replicate left (chr '0')++
      (altPrefix fs (unsignedBase fs.type)++numberDigits fs v)++
      List.replicate right (chr '0')) v↔v=0 := by
  have hzero : digitValue (chr '0')=0 := by decide
  have hbase : 0<unsignedBase fs.type := Nat.lt_of_lt_of_le (by decide) (unsignedBase_two_le _)
  -- the zeros in front change places with the prefix
  have hswap : List.replicate left (chr '0')++altPrefix fs (unsignedBase fs.type)=
      altPrefix fs (unsignedBase fs.type)++List.replicate left (chr '0') := by
    rcases hleft with rfl | hletter
    · rw [List.replicate_zero,List.nil_append,List.append_nil]
    · obtain ⟨n,hn⟩ := altPrefix_zeros hletter
      rw [hn,List.replicate_append_replicate,List.replicate_append_replicate,Nat.add_comm]
  rw [←List.append_assoc,hswap,List.append_assoc,List.append_assoc,←List.append_assoc (List.replicate left _)]
  exact readsAs_zeros_iff hright
    (((numberDigits_isNumeral fs v).leading hzero hbase left).trailing hzero hbase right)

/-- Zeros in front of a prefix with a letter. -/
theorem not_readsAs_around {left right : ℕ} (hleft : left≠0) (hletter : LetterPrefix fs) :
    ¬ReadsAs fs (List.replicate left (chr '0')++
      (altPrefix fs (unsignedBase fs.type)++numberDigits fs v)++
      List.replicate right (chr '0')) v := by
  obtain ⟨c,hc,hpref⟩ := altPrefix_letter hletter
  have hzeros : ∀ n, ∀ d∈List.replicate n (chr '0'),d≠chr ' ' := by
    intro n d hd
    rw [List.eq_of_mem_replicate hd]
    decide
  have hspaces : ∀ d∈List.replicate left (chr '0')++
      (altPrefix fs (unsignedBase fs.type)++numberDigits fs v)++
      List.replicate right (chr '0'),d≠chr ' ' :=
    List.forall_mem_append.mpr ⟨List.forall_mem_append.mpr ⟨hzeros left,
      List.forall_mem_append.mpr ⟨altPrefix_no_space fs _,
        numeral_no_space (unsignedBase_le fs.type) (numberDigits_isNumeral fs v)⟩⟩,hzeros right⟩
  obtain ⟨less,rfl⟩ := Nat.exists_eq_succ_of_ne_zero hleft
  rintro ⟨digits,hread,-⟩
  rw [trimSpaces_self (by rw [List.replicate_succ]; exact List.cons_ne_nil _ _) hspaces,hpref,
    List.replicate_succ] at hread
  -- the second character is a zero on the left and the letter on the right
  injection hread with _ htail
  cases less with
  | zero =>
    injection htail with hletter
    exact hc hletter.symm
  | succ less =>
    injection htail with hletter
    exact hc hletter.symm

end Values

/-- Unless the text is right aligned, at most half of the fill is in front. -/
theorem leftCount_le_half {fs : FormatSpec} (hplain : PlainSpec fs) (hright : fs.align≠chr '>')
    (pad : ℕ) : leftCount fs.align pad≤pad/2 := by
  rw [leftCount]
  rcases hplain.align_mem with hleft | hother | hcentre
  · rw [if_pos hleft]
    exact Nat.zero_le _
  · exact absurd hother hright
  · rw [hcentre,if_neg (by decide),if_pos rfl]

/-- There are no zeros in front of the text when it is left aligned, or when a
single one fills it. -/
theorem leftCount_eq_zero_iff {fs : FormatSpec} (hplain : PlainSpec fs)
    (hright : fs.align≠chr '>') {v : ℕ} (hwide : (naturalLength fs v : ℤ)<fs.width) :
    leftCount fs.align (fs.width-naturalLength fs v).toNat=0↔
      fs.align=chr '<' ∨ fs.width=naturalLength fs v+1 := by
  rw [leftCount]
  rcases hplain.align_mem with hleft | hother | hcentre
  · rw [if_pos hleft]
    exact iff_of_true rfl (Or.inl hleft)
  · exact absurd hother hright
  · have hne : fs.align≠chr '<' := by
      rw [hcentre]
      decide
    rw [if_neg hne,if_pos hcentre,or_iff_right hne]
    omega

/-- The zero flag with an alignment other than right. -/
theorem readsAs_outside {fs : FormatSpec} (hplain : PlainSpec fs) (hzero : fs.zero=true)
    (hright : fs.align≠chr '>') {v : ℕ} :
    ReadsAs fs (List.replicate (leftCount fs.align (fs.width-naturalLength fs v).toNat) (chr '0')++
      (altPrefix fs (unsignedBase fs.type)++numberDigits fs v)++
      List.replicate ((fs.width-naturalLength fs v).toNat-
        leftCount fs.align (fs.width-naturalLength fs v).toNat) (chr '0')) v↔
      HarmlessZeros fs v := by
  by_cases hwide : (naturalLength fs v : ℤ)<fs.width
  · have hside := leftCount_eq_zero_iff hplain hright hwide
    have hbehind : (fs.width-naturalLength fs v).toNat-
        leftCount fs.align (fs.width-naturalLength fs v).toNat≠0 := by
      have hhalf := leftCount_le_half hplain hright (fs.width-naturalLength fs v).toNat
      omega
    have houtside : ZerosOutside fs v := ⟨hzero,hright,hwide⟩
    rw [HarmlessZeros,imp_iff_right houtside,or_left_comm,←hside]
    by_cases hharmless : ¬LetterPrefix fs ∨
        leftCount fs.align (fs.width-naturalLength fs v).toNat=0
    · rw [readsAs_around_iff hbehind hharmless.symm,and_iff_left hharmless]
    · obtain ⟨hletter,hfront⟩ := not_or.mp hharmless
      exact iff_of_false (not_readsAs_around hfront (not_not.mp hletter))
        (fun h => hharmless h.2)
  · have hnone : (fs.width-naturalLength fs v).toNat=0 := by omega
    have hzeroCount := Nat.le_zero.mp (leftCount_le_half hplain hright 0)
    rw [hnone,hzeroCount]
    exact iff_of_true (readsAs_padded (numberDigits_isNumeral fs v) 0 0)
      (fun houtside => absurd houtside.2.2 hwide)

/-- The text reads as the value precisely when the zeros do no harm. -/
theorem readsAs_iff_harmless {fs : FormatSpec} (hplain : PlainSpec fs) (v : ℕ) :
    ReadsAs fs (emitPaddedNumeric [] (altPrefix fs (unsignedBase fs.type)) (numberDigits fs v) fs)
      v↔HarmlessZeros fs v := by
  have hnumeral := numberDigits_isNumeral fs v
  have hbase : 0<unsignedBase fs.type := Nat.lt_of_lt_of_le (by decide) (unsignedBase_two_le _)
  have hfill := hplain.fill_eq
  have hpad : fillCount fs (altPrefix fs (unsignedBase fs.type)++numberDigits fs v).length=
      (fs.width-naturalLength fs v).toNat := by
    rw [fillCount,naturalLength,List.length_append]
  rw [emitPaddedNumeric_eq hplain.width_lt,hpad]
  dsimp only
  by_cases hzero : fs.zero=true
  · by_cases hright : fs.align=chr '>'
    · rw [if_pos ⟨hright,hzero⟩]
      refine iff_of_true ?_ (fun houtside => absurd hright houtside.2.1)
      have hzeroValue : digitValue (chr '0')=0 := by decide
      have hplainText := readsAs_padded (hnumeral.leading hzeroValue hbase
        (fs.width-naturalLength fs v).toNat) 0 0
      rwa [List.replicate_zero,List.nil_append,List.append_nil] at hplainText
    · rw [if_neg (fun h => hright h.1),hfill,if_pos hzero]
      exact readsAs_outside hplain hzero hright
  · rw [if_neg (fun h => hzero h.2),hfill,if_neg hzero]
    exact iff_of_true (readsAs_padded hnumeral _ _) (fun houtside => absurd houtside.1 hzero)

/-- A number is printed with its value precisely when the zeros do no harm. -/
theorem preservesValue_iff_harmless {fs : FormatSpec} (hplain : PlainSpec fs)
    (ht : fs.type∈numberTypes) {v : ℕ} (hv : v<2^64) :
    PreservesValue fs v↔HarmlessZeros fs v := by
  rw [←readsAs_iff_harmless hplain v,PreservesValue,formatAndEmitUnsigned_eq ht hv]
  constructor
  · rintro ⟨text,htext,-,hreads⟩
    cases htext
    exact hreads
  · exact fun hreads => ⟨_,rfl,emitPaddedNumeric_length hplain.width_lt _ _,hreads⟩

section Parser

variable {s : FormatString}

/-- The defaults are those of a field without a fill character. -/
theorem plainSpec_defaults : PlainSpec .defaults := ⟨Or.inr (Or.inl rfl),rfl,by decide⟩

/-- A part of one character keeps what its update keeps. -/
theorem optionalPart_keeps {test : UInt8→Bool} {update : FormatSpec→UInt8→FormatSpec}
    {fs fs' : FormatSpec} {i j : ℕ} (h : PlainSpec fs)
    (hu : ∀ c, test c=true → PlainSpec (update fs c))
    (hp : optionalPart s test update fs i=some (fs',j)) : PlainSpec fs' := by
  rw [optionalPart,Option.bind_eq_bind,Option.bind_eq_some_iff] at hp
  obtain ⟨c,-,hp⟩ := hp
  by_cases htest : test c=true
  · rw [if_pos htest] at hp
    cases hp
    exact hu c htest
  · rw [if_neg htest] at hp
    cases hp
    exact h

/-- The width is an `int` however many digits it has. -/
theorem widthLoop_lt {fuel i j : ℕ} {w w' : ℤ} (hw : w<2^31)
    (hp : widthLoop s fuel w i=some (w',j)) : w'<2^31 := by
  induction fuel generalizing w i with
  | zero => cases hp
  | succ fuel ih =>
    rw [widthLoop,Option.bind_eq_bind,Option.bind_eq_some_iff] at hp
    obtain ⟨c,-,hp⟩ := hp
    split at hp
    · exact ih (int32_lt _) hp
    · cases hp
      exact hw

/-- The width is no fill character. -/
theorem parseWidth_keeps {fs fs' : FormatSpec} {i j : ℕ} (h : PlainSpec fs)
    (hp : parseWidth s fs i=some (fs',j)) : PlainSpec fs' := by
  rw [parseWidth,Option.bind_eq_bind,Option.bind_eq_some_iff] at hp
  obtain ⟨c,-,hp⟩ := hp
  split at hp
  · obtain ⟨⟨w,k⟩,hloop,hp⟩ := Option.map_eq_some_iff.mp hp
    cases hp
    exact {h with width_lt := widthLoop_lt (by decide) hloop}
  · cases hp
    exact h

/-- An alignment is one of three characters. -/
theorem isAlign_iff (c : UInt8) : isAlign c=true↔c=chr '<' ∨ c=chr '>' ∨ c=chr '^' := by
  rw [isAlign,Bool.or_eq_true,Bool.or_eq_true,decide_eq_true_eq,decide_eq_true_eq,
    decide_eq_true_eq,or_assoc]

/-- The alignment of a field that does not name its fill character. -/
theorem parseAlign_keeps {fs : FormatSpec} {start j : ℕ}
    (hcolon : s.get (start+1)=some (chr ':')) (hfill : ¬ExplicitFill s start)
    (hp : parseAlign s .defaults (start+2)=some (fs,j)) : PlainSpec fs := by
  rw [parseAlign,Option.bind_eq_bind,Option.bind_eq_some_iff] at hp
  obtain ⟨c,hc,hp⟩ := hp
  obtain ⟨a,ha,hp⟩ := Option.bind_eq_some_iff.mp hp
  rw [lookahead] at ha
  have hnone : isAlign a≠true := by
    intro halign
    by_cases hz : c=0
    · rw [if_pos hz] at ha
      cases ha
      exact absurd halign (by decide)
    · rw [if_neg hz] at ha
      refine hfill ⟨hcolon,?_,by rw [ha]; exact halign⟩
      rw [hc]
      exact fun he => hz (Option.some.inj he)
  rw [if_neg hnone] at hp
  refine optionalPart_keeps plainSpec_defaults ?_ hp
  exact fun c hc => {plainSpec_defaults with align_mem := (isAlign_iff c).mp hc}

/-- The parts behind the alignment. -/
theorem parseFlags_keeps {fs fs' : FormatSpec} {i j : ℕ} (h : PlainSpec fs)
    (hp : parseFlags s fs i=some (fs',j)) : PlainSpec fs' := by
  rw [parseFlags,Option.bind_eq_bind,Option.bind_eq_some_iff] at hp
  obtain ⟨⟨signed,i1⟩,hsign,hp⟩ := hp
  have h1 : PlainSpec signed := optionalPart_keeps h (fun _ _ => {h with}) hsign
  obtain ⟨⟨alternate,i2⟩,halt,hp⟩ := Option.bind_eq_some_iff.mp hp
  have h2 : PlainSpec alternate := optionalPart_keeps h1 (fun _ _ => {h1 with}) halt
  obtain ⟨⟨zeroed,i3⟩,hzero,hp⟩ := Option.bind_eq_some_iff.mp hp
  have h3 : PlainSpec zeroed :=
    optionalPart_keeps h2 (fun _ _ => {h2 with fill_eq := rfl}) hzero
  obtain ⟨⟨sized,i4⟩,hwidth,hp⟩ := Option.bind_eq_some_iff.mp hp
  have h4 : PlainSpec sized := parseWidth_keeps h3 hwidth
  exact optionalPart_keeps h4 (fun _ _ => {h4 with}) hp

/-- What the parser makes of a field that does not name its fill character. -/
theorem parseSpec_plain {start next : ℕ} {fs : FormatSpec}
    (hp : parseSpec s start=some (fs,next)) (hfill : ¬ExplicitFill s start) : PlainSpec fs := by
  rw [parseSpec,Option.bind_eq_bind,Option.bind_eq_some_iff] at hp
  obtain ⟨c,hc,hp⟩ := hp
  by_cases hclose : c=chr '}'
  · rw [if_pos hclose] at hp
    cases hp
    exact plainSpec_defaults
  · rw [if_neg hclose] at hp
    obtain ⟨⟨parsed,i⟩,hparts,hp⟩ := Option.bind_eq_some_iff.mp hp
    obtain ⟨e,-,hp⟩ := Option.map_eq_some_iff.mp hp
    cases hp
    by_cases hcolon : c=chr ':'
    · rw [parseColon,if_pos hcolon,parseParts,Option.bind_eq_bind,
        Option.bind_eq_some_iff] at hparts
      obtain ⟨⟨aligned,j⟩,halign,hparts⟩ := hparts
      rw [hcolon] at hc
      exact parseFlags_keeps (parseAlign_keeps hc hfill halign) hparts
    · rw [parseColon,if_neg hcolon] at hparts
      cases hparts
      exact plainSpec_defaults

end Parser

/-- A number in a field that does not name its fill character is printed with
the length asked for and with its value if and only if no zeros fill it on the
outside, or they are around a zero and behind a prefix with a letter. -/
theorem preservesValue_iff (s : FormatString) {start next : ℕ} {fs : FormatSpec}
    (hp : parseSpec s start=some (fs,next)) (hfill : ¬ExplicitFill s start)
    (ht : fs.type∈numberTypes) (v : UInt64) :
    PreservesValue fs v.toNat↔HarmlessZeros fs v.toNat :=
  preservesValue_iff_harmless (parseSpec_plain hp hfill) ht v.toNat_lt

/-- A field with the zero flag, centred. -/
def centredFormat : FormatString := ⟨['{',':','^','#','0','9','x','}'].map chr,by decide +kernel⟩

/-- Its specification. -/
def centredSpec : FormatSpec :=
  {FormatSpec.defaults with
    type := chr 'x',align := chr '^',fill := chr '0',alt := true,zero := true,width := 9}

/-- The field is parsed without naming its fill character. -/
theorem preservesValue_sample :
    PreservesValue centredSpec (255 : UInt64).toNat↔HarmlessZeros centredSpec (255 : UInt64).toNat :=
  preservesValue_iff centredFormat (by decide +kernel : parseSpec centredFormat 0=some (centredSpec,8))
    (by decide +kernel) (by decide +kernel) 255

/-- A number aligned to the left with the zero flag. -/
def leftFormat : FormatString := ⟨['{',':','<','0','5','}'].map chr,by decide +kernel⟩

/-- Its specification. -/
def leftSpec : FormatSpec :=
  {FormatSpec.defaults with align := chr '<',fill := chr '0',zero := true,width := 5}

/-- A five in a field of five characters reads as fifty thousand. -/
theorem not_always_preservesValue :
    ¬∀ (s : FormatString) (start next : ℕ) (fs : FormatSpec), parseSpec s start=some (fs,next) →
      ¬ExplicitFill s start → fs.type∈numberTypes → ∀ v : UInt64, PreservesValue fs v.toNat := by
  intro h
  have hparse : parseSpec leftFormat 0=some (leftSpec,6) := by decide +kernel
  have hvalue := h leftFormat 0 6 leftSpec hparse (by decide +kernel) (by decide +kernel) 5
  rw [preservesValue_iff_harmless (parseSpec_plain hparse (by decide +kernel)) (by decide +kernel)
    (by decide)] at hvalue
  have houtside : ZerosOutside leftSpec 5 := ⟨rfl,by decide +kernel,by decide +kernel⟩
  exact absurd (hvalue houtside).1 (by decide)

end WorkbenchOS.FormattedNumbers
