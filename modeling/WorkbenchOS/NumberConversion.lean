import WorkbenchOS.ByteMemory
import WorkbenchOS.FormattedNumbers

/-!
# Numbers in character buffers

`LibStd/Convert.cpp` writes the digits of a number backwards from the end of a
buffer, as the console does before it emits them. The two take different
tables of digits, which matters for lower case only, and different
magnitudes of a negative number: the buffer version negates in the signed
type, which leaves the smallest number negative.
-/

namespace WorkbenchOS.NumberConversion

open ByteMemory LibStd Numerals FormatSpecs FormattedNumbers

/-- `character_digits`, with the null at its end. -/
def characterDigits : List UInt8 := "0123456789ABCDEF".toList.map chr++[0]

/-- `character_digits[digit]`. Beside the array the load returns whatever is
there. -/
def characterDigit (outside : ℤ→UInt8) (digit : ℤ) : UInt8 :=
  if 0≤digit ∧ digit<17 then characterDigits.getD digit.toNat 0 else outside digit

/-- The `do` loop of the conversions: the value left, the next index from the
end of the buffer and the memory. -/
def convertLoop (outside : ℤ→UInt8) (base bufferSize : ℤ) (out : ℕ) :
    (fuel : ℕ)→ℤ→ℕ→Memory→Option (ℕ×Memory)
  | 0,_,_,_ => none
  | fuel+1,n,outputIndex,memory =>
    let digit := n.tmod base
    let written := fill memory (toU64 (out+(bufferSize-outputIndex))) 1
      (characterDigit outside digit)
    let left := n.tdiv base
    if 0<left then convertLoop outside base bufferSize out fuel left (outputIndex+1) written
    else some (outputIndex+1,written)

/-- Rounds the loops are given: the digits of a 64-bit number in base two. -/
def convertFuel : ℕ := 64

/-- `uint64_t_to_cstring`. -/
def uint64ToCstring (outside : ℤ→UInt8) (memory : Memory) (n : ℕ) (base bufferSize : ℤ)
    (out : ℕ) : Option Memory :=
  (convertLoop outside base bufferSize out convertFuel n 1 memory).map Prod.snd

/-- `int32_t_to_cstring`. The negation is that of a 32-bit register, which has
no positive counterpart of the smallest number. -/
def int32ToCstring (outside : ℤ→UInt8) (memory : Memory) (n base bufferSize : ℤ) (out : ℕ) :
    Option Memory :=
  let isNegative := decide (n<0)
  let n := if isNegative then int32 (-n) else n
  (convertLoop outside base bufferSize out convertFuel n 1 memory).map fun outcome =>
    if isNegative ∧ base=10 then
      fill outcome.2 (toU64 (out+(bufferSize-outcome.1))) 1 (chr '-')
    else outcome.2

/-- The upper case of a digit. -/
def upperCase (c : UInt8) : UInt8 := if chr 'a'≤c ∧ c≤chr 'f' then c-32 else c

/-- A minus sign where it belongs and the decimal numeral of the magnitude,
without leading zeros. -/
def DecimalOf (text : List UInt8) (n : ℤ) : Prop :=
  ∃ digits,text=(if n<0 then chr '-'::digits else digits) ∧
    IsNumeral digitValue 10 digits n.natAbs ∧
      (n≠0 → ∀ c∈digits.head?,digitValue c≠0)

section Conversion

variable {v base bufferSize out : ℕ}

/-- The table of the conversions is the upper case one. -/
theorem characterDigit_eq (outside : ℤ→UInt8) :
    ∀ d<16,characterDigit outside (d : ℕ)=digit true d := by
  intro d hd
  rw [characterDigit,if_pos ⟨by omega,by omega⟩,Int.toNat_natCast]
  revert d
  decide +kernel

/-- The lower case table has the same digits. -/
theorem upperCase_digit (uppercase : Bool) : ∀ d<16,upperCase (digit uppercase d)=digit true d := by
  cases uppercase <;> decide +kernel

/-- Up to nine the tables are equal. -/
theorem digit_decimal (uppercase : Bool) : ∀ d<10,digit uppercase d=digit true d := by
  cases uppercase <;> decide +kernel

/-- The loop stores the numeral in front of the index it starts at. -/
theorem convertLoop_eq (outside : ℤ→UInt8) (hb : 2≤base) (hb16 : base≤16)
    (hout : out+bufferSize≤2^64) (fuel : ℕ) {v index : ℕ} (hi : 1≤ index) (hfuel : 0<fuel)
    (hv : v<2^fuel) (memory : Memory)
    (hroom : index+(numeral (digit true) base v).length≤bufferSize+1) :
    convertLoop outside base bufferSize out fuel v index memory=
      some (index+(numeral (digit true) base v).length,
        storeBytes memory (out+bufferSize+1-index-(numeral (digit true) base v).length)
          (numeral (digit true) base v)) := by
  induction fuel generalizing v index memory with
  | zero => omega
  | succ fuel ih =>
    have hlast : characterDigit outside ((v : ℤ).tmod base)=digit true (v%base) := by
      rw [← Int.ofNat_tmod]
      exact characterDigit_eq outside _ ((Nat.mod_lt v (by omega)).trans_le hb16)
    have hdiv : (v : ℤ).tdiv base=((v/base : ℕ) : ℤ) := (Int.ofNat_tdiv v base).symm
    have hplace : ∀ count,1≤count → index+count≤bufferSize+1 →
        toU64 ((out : ℤ)+((bufferSize : ℤ)-index))=out+bufferSize-index := by
      intro count hc hle
      have hz := @toU64_of_nonneg ((out : ℤ)+((bufferSize : ℤ)-index)) (by omega) (by omega)
      omega
    rw [convertLoop,hlast,hdiv]
    by_cases hzero : v/base=0
    · rw [numeral_of_div_eq_zero _ hb hzero,List.length_singleton] at hroom ⊢
      rw [hzero,if_neg (by decide),hplace 1 le_rfl hroom,fill_eq_storeBytes,
        show out+bufferSize+1-index-1=out+bufferSize-index by omega]
    · rw [numeral_of_div_ne_zero _ hb hzero] at hroom ⊢
      rw [List.length_append,List.length_singleton] at hroom ⊢
      have hsmaller : v/base<2^fuel := by
        rw [pow_succ] at hv
        exact (Nat.div_le_div_left hb (by decide)).trans_lt (by omega)
      have hpos : 0<fuel := by
        by_contra hnone
        rw [Nat.eq_zero_of_not_pos hnone,pow_zero] at hsmaller
        exact hzero (Nat.lt_one_iff.mp hsmaller)
      rw [if_pos (by exact_mod_cast Nat.pos_of_ne_zero hzero),
        hplace ((numeral (digit true) base (v/base)).length+1) (by omega) (by omega),
        ih (by omega) hpos hsmaller _ (by omega),fill_eq_storeBytes]
      have hshift : out+bufferSize-index=
          out+bufferSize+1-(index+1)-(numeral (digit true) base (v/base)).length+
            (numeral (digit true) base (v/base)).length := by omega
      rw [hshift,storeBytes_storeBytes,Nat.add_right_comm index 1,Nat.add_assoc index _ 1]
      congr 3
      omega

/-- `uint64_t_to_cstring` stores the numeral at the end of the buffer. -/
theorem uint64ToCstring_eq (outside : ℤ→UInt8) (memory : Memory) (hv : v<2^64) (hb : 2≤base)
    (hb16 : base≤16) (hout : out+bufferSize≤2^64)
    (hroom : (numeral (digit true) base v).length≤bufferSize) :
    uint64ToCstring outside memory v base bufferSize out=
      some (storeBytes memory (out+bufferSize-(numeral (digit true) base v).length)
        (numeral (digit true) base v)) := by
  rw [uint64ToCstring,convertLoop_eq outside hb hb16 hout convertFuel le_rfl (by decide) hv memory
    (by omega),Option.map_some]
  rfl

/-- The console's digits of a number and those of the buffer version are the
same numeral of the number, without a leading zero; in upper case, and in
every base up to ten, they are the same characters. The buffer version stores
nothing in front of them. -/
theorem formatUintRev_cstring (outside : ℤ→UInt8) (memory : Memory) (uppercase : Bool)
    {room : ℕ} (hroom : 64≤room) (hv : v<2^64) (hb : 2≤base) (hb16 : base≤16) :
    ∃ text,formatUintRev v base uppercase room=some text ∧ IsNumeral digitValue base text v ∧
      (v≠0 → ∀ c∈text.head?,digitValue c≠0) ∧
      (uppercase=true ∨ base≤10 → text.map upperCase=text) ∧
      (out+bufferSize≤2^64 → text.length≤bufferSize →
        ∃ after,uint64ToCstring outside memory v base bufferSize out=some after ∧
          bytesAt after (out+bufferSize-text.length) text.length=text.map upperCase ∧
          ∀ x, x<out+bufferSize-text.length ∨ out+bufferSize≤x → after x=memory x) := by
  have hvalue : ∀ d<base,digitValue (digit uppercase d)=d :=
    fun d hd => digitValue_digit uppercase d (hd.trans_le hb16)
  have hupper : (numeral (digit uppercase) base v).map upperCase=numeral (digit true) base v :=
    numeral_map hb (fun d hd => upperCase_digit uppercase d (hd.trans_le hb16)) v
  have hlength := congrArg List.length hupper
  rw [List.length_map] at hlength
  refine ⟨numeral (digit uppercase) base v,formatUintRev_eq uppercase hb hroom hv,
    isNumeral_numeral hb hvalue v,head_numeral_ne_zero hb hvalue,?_,?_⟩
  · rintro (rfl|hten)
    · exact hupper
    · have hsame : (numeral (digit uppercase) base v).map id=numeral (digit true) base v :=
        @numeral_map _ (digit uppercase) _ _ (digit true) id hb
          (fun d hd => digit_decimal uppercase d (hd.trans_le hten)) v
      rw [List.map_id] at hsame
      rw [hupper,hsame]
  · intro hout hfits
    rw [hlength] at hfits ⊢
    rw [hupper]
    refine ⟨_,uint64ToCstring_eq outside memory hv hb hb16 hout hfits,bytesAt_storeBytes _ _ _,?_⟩
    intro x hx
    exact storeBytes_outside memory (by omega)

/-- A number with a letter in it, printed in lower case. -/
theorem formatUintRev_cstring_lower : ∃ text,formatUintRev 0x2f 16 false 66=some text ∧
    ∃ after,uint64ToCstring (fun _ => 0) (fun _ => 0) 0x2f 16 8 0x1000=some after ∧
      bytesAt after (0x1008-text.length) text.length=text.map upperCase := by
  obtain ⟨text,htext,-,-,-,hstored⟩ := @formatUintRev_cstring 0x2f 16 8 0x1000 (fun _ => 0)
    (fun _ => 0) false 66 (by decide) (by decide) (by decide) (by decide)
  have hlength : (formatUintRev 0x2f 16 false 66).map List.length=some 2 := by decide +kernel
  rw [htext,Option.map_some,Option.some.injEq] at hlength
  obtain ⟨after,hafter,hsame,-⟩ := hstored (by decide) (by omega)
  exact ⟨text,htext,after,hafter,hsame⟩

/-- In lower case the characters differ. -/
theorem conversions_not_always_equal : ¬∀ uppercase v base bufferSize out text after,
    v<2^64 → 2≤base → base≤16 → out+bufferSize≤2^64 →
      formatUintRev v base uppercase 66=some text → text.length≤bufferSize →
        uint64ToCstring (fun _ => 0) (fun _ => 0) v base bufferSize out=some after →
          bytesAt after (out+bufferSize-text.length) text.length=text := by
  intro h
  have hstored : (uint64ToCstring (fun _ => 0) (fun _ => 0) 10 16 8 0x1000).map
      (fun after => bytesAt after 0x1007 1)=some [chr 'A'] := by decide +kernel
  obtain ⟨after,hafter,htext⟩ := Option.map_eq_some_iff.mp hstored
  have hsame : bytesAt after 0x1007 1=[chr 'a'] := h false 10 16 8 0x1000 [chr 'a'] after
    (by decide) (by decide) (by decide) (by decide) (by decide +kernel) (by decide) hafter
  rw [hsame] at htext
  exact absurd htext (by decide)

end Conversion

section Signed

variable {n : ℤ} {out : ℕ} {memory : Memory}

/-- The characters of a signed number. -/
def signedText (n : ℤ) : List UInt8 :=
  (if n<0 then [chr '-'] else [])++numeral (digit true) 10 n.natAbs

/-- `int32_t_to_cstring` in base ten leaves, at the end of a zeroed buffer of 32
bytes, what `format_and_emit_signed` emits by default, and that is the decimal
numeral of the number. -/
def PrintersAgree (outside : ℤ→UInt8) (memory : Memory) (out : ℕ) (n : ℤ) : Prop :=
  ∃ text after,formatAndEmitSigned n .defaults=some text ∧
    int32ToCstring outside memory n 10 32 out=some after ∧ text.length≤32 ∧
      bytesAt after out 32=List.replicate (32-text.length) 0++text ∧ DecimalOf text n

/-- The console negates without overflow. -/
theorem magnitude_eq (hl : -2^31≤n) (hu : n<2^31) : magnitude n=n.natAbs := by
  unfold magnitude
  split
  · have hz := @toU64_of_nonneg (-(n+1)) (by omega) (by omega)
    rw [u64_of_lt (by omega)]
    omega
  · have hz := @toU64_of_nonneg n (by omega) (by omega)
    omega

/-- By default nothing is filled. -/
theorem emitPaddedNumeric_defaults (sign digits : List UInt8) :
    emitPaddedNumeric sign [] digits .defaults=sign++digits := by
  have hpad : padding (-1) (sign.length+([] : List UInt8).length+digits.length)=0 :=
    if_neg (by omega)
  unfold emitPaddedNumeric FormatSpec.defaults
  dsimp only
  rw [hpad,if_neg (by decide)]
  simp [emitN,leftPad,rightPad]

/-- The default text of a number on the console. -/
theorem formatAndEmitSigned_defaults (hl : -2^31≤n) (hu : n<2^31) :
    formatAndEmitSigned n .defaults=some (signedText n) := by
  have hdigits : (numeral (digit false) 10 n.natAbs).map id=numeral (digit true) 10 n.natAbs :=
    @numeral_map _ (digit false) _ _ (digit true) id (by decide) (digit_decimal false) _
  rw [List.map_id] at hdigits
  have hsign : signOf n .defaults 10=if n<0 then [chr '-'] else [] := by
    unfold signOf
    rw [if_pos rfl]
    by_cases hn : n<0
    · rw [if_pos hn,if_pos hn]
    · rw [if_neg hn,if_neg hn,if_neg (by decide),if_neg (by decide)]
  unfold formatAndEmitSigned
  dsimp only
  rw [if_neg (by decide),show signedBase (if FormatSpec.defaults.type=0 then chr 'd' else
      FormatSpec.defaults.type)=10 by decide,magnitude_eq hl hu,
    formatUintRev_eq _ (by decide) (by decide) (by omega),Option.map_some,
    show altPrefix .defaults 10=[] by decide,emitPaddedNumeric_defaults,hsign]
  unfold signedText
  rw [← hdigits]
  rfl

/-- The text is the decimal numeral of the number. -/
theorem signedText_decimal (n : ℤ) : DecimalOf (signedText n) n := by
  have hvalue : ∀ d<10,digitValue (digit true d)=d :=
    fun d hd => digitValue_digit true d (hd.trans (by decide))
  refine ⟨numeral (digit true) 10 n.natAbs,?_,isNumeral_numeral (by decide) hvalue _,
    fun hn => head_numeral_ne_zero (by decide) hvalue (Int.natAbs_ne_zero.mpr hn)⟩
  unfold signedText
  split <;> rfl

/-- A 32-bit number has at most ten digits. -/
theorem signedDigits_length (hl : -2^31≤n) (hu : n<2^31) :
    (numeral (digit true) 10 n.natAbs).length≤10 :=
  numeral_length_le _ (by decide) (by decide) (by omega)

/-- Apart from the smallest number, `int32_t_to_cstring` stores the text at the
end of the buffer. -/
theorem int32ToCstring_eq (outside : ℤ→UInt8) (hl : -2^31<n) (hu : n<2^31)
    (hout : out+32≤2^64) : int32ToCstring outside memory n 10 32 out=
      some (storeBytes memory (out+32-(signedText n).length) (signedText n)) := by
  have hlength := signedDigits_length hl.le hu
  have hmagnitude : (if decide (n<0)=true then int32 (-n) else n)=(n.natAbs : ℤ) := by
    by_cases hn : n<0
    · rw [if_pos (decide_eq_true hn),int32_of_range (by omega) (by omega)]
      omega
    · rw [if_neg (by simpa using hn)]
      omega
  have hloop : convertLoop outside 10 32 out convertFuel n.natAbs 1 memory=
      some (1+(numeral (digit true) 10 n.natAbs).length,
        storeBytes memory (out+32+1-1-(numeral (digit true) 10 n.natAbs).length)
          (numeral (digit true) 10 n.natAbs)) :=
    @convertLoop_eq 10 32 out outside (by decide) (by decide) hout convertFuel n.natAbs 1 le_rfl
      (by decide) (by unfold convertFuel; omega) memory (by omega)
  unfold int32ToCstring
  dsimp only
  rw [hmagnitude,hloop,Option.map_some]
  unfold signedText
  generalize numeral (digit true) 10 n.natAbs=digits at hlength ⊢
  by_cases hn : n<0
  · have hz := @toU64_of_nonneg ((out : ℤ)+(32-((1+digits.length : ℕ) : ℤ))) (by omega) (by omega)
    have hplace : toU64 ((out : ℤ)+(32-((1+digits.length : ℕ) : ℤ)))=out+31-digits.length := by
      omega
    rw [if_pos ⟨decide_eq_true hn,rfl⟩,if_pos hn,hplace,fill_eq_storeBytes,
      show out+32+1-1-digits.length=out+31-digits.length+[chr '-'].length by
        rw [List.length_singleton]; omega,storeBytes_storeBytes]
    congr 2
    rw [List.length_append,List.length_singleton]
    omega
  · rw [if_neg (by simp [hn]),if_neg hn,List.nil_append]
    rfl

/-- A text stored at the end of a zeroed buffer. -/
theorem bytesAt_zeroed {text : List UInt8} {size : ℕ} (hfits : text.length≤ size)
    (hz : ∀ x, out≤x → x<out+size → memory x=0) :
    bytesAt (storeBytes memory (out+size-text.length) text) out size=
      List.replicate (size-text.length) 0++text := by
  obtain ⟨front,rfl⟩ : ∃ front,size=front+text.length := ⟨size-text.length,by omega⟩
  rw [bytesAt_add,Nat.add_sub_cancel,show out+(front+text.length)-text.length=out+front by omega,
    bytesAt_storeBytes]
  refine congrArg (·++text) (List.eq_replicate_iff.mpr ⟨length_bytesAt _ _ _,fun c hc => ?_⟩)
  obtain ⟨i,hi,rfl⟩ := List.mem_map.mp hc
  have hlt := List.mem_range.mp hi
  rw [storeBytes_outside _ (by omega)]
  exact hz _ (by omega) (by omega)

/-- Negating the smallest number leaves it negative: one character beside the
table and a sign are stored. -/
theorem int32ToCstring_smallest (outside : ℤ→UInt8) (memory : Memory) (hout : out+32≤2^64) :
    ∃ after,int32ToCstring outside memory (-2^31) 10 32 out=some after ∧
      ∀ x, x<out+30 → after x=memory x := by
  have hlast := @toU64_of_nonneg ((out : ℤ)+(32-((1 : ℕ) : ℤ))) (by omega) (by omega)
  have hsign := @toU64_of_nonneg ((out : ℤ)+(32-((1+1 : ℕ) : ℤ))) (by omega) (by omega)
  have hnegative : (if decide ((-2^31 : ℤ)<0)=true then int32 (-(-2^31)) else -2^31)=-2^31 := by
    decide
  refine ⟨fill (fill memory (toU64 ((out : ℤ)+(32-((1 : ℕ) : ℤ)))) 1
    (characterDigit outside ((-2^31 : ℤ).tmod 10))) (toU64 ((out : ℤ)+(32-((1+1 : ℕ) : ℤ)))) 1
      (chr '-'),?_,fun x hx => ?_⟩
  · unfold int32ToCstring convertFuel
    dsimp only
    rw [hnegative,convertLoop,if_neg (by decide),Option.map_some,if_pos ⟨by decide,rfl⟩]
  · rw [fill_outside _ _ (by omega),fill_outside _ _ (by omega)]

/-- For the smallest number the two texts differ. -/
theorem not_printersAgree_smallest (outside : ℤ→UInt8) (hout : out+32≤2^64)
    (hz : ∀ x, out≤x → x<out+32 → memory x=0) :
    ¬PrintersAgree outside memory out (-2^31) := by
  rintro ⟨text,after,hemitted,hstored,-,hbuffer,-⟩
  obtain ⟨after',hstored',hkept⟩ := @int32ToCstring_smallest out outside memory hout
  cases hstored.symm.trans hstored'
  have htext : formatAndEmitSigned (-2^31) .defaults=
      some (['-','2','1','4','7','4','8','3','6','4','8'].map chr) := by decide +kernel
  cases hemitted.symm.trans htext
  -- the emitted text begins where the buffer is still zero
  have hbyte := congrArg (fun bytes => bytes.getD 21 0) hbuffer
  have hzero : (bytesAt after out 32).getD 21 0=0 := by
    rw [List.getD_eq_getElem _ _ (by rw [length_bytesAt]; decide)]
    simp only [bytesAt,List.getElem_map,List.getElem_range]
    rw [hkept _ (by omega)]
    exact hz _ (by omega) (by omega)
  exact absurd (hzero.symm.trans hbyte) (by decide)

/-- The two decimal printers agree on every 32-bit number but the smallest. -/
theorem printersAgree_iff (outside : ℤ→UInt8) (hl : -2^31≤n) (hu : n<2^31)
    (hout : out+32≤2^64) (hz : ∀ x, out≤x → x<out+32 → memory x=0) :
    PrintersAgree outside memory out n ↔ n≠-2^31 := by
  constructor
  · rintro hagree rfl
    exact not_printersAgree_smallest outside hout hz hagree
  · intro hne
    have hfits : (signedText n).length≤32 := by
      have hdigits := signedDigits_length hl hu
      unfold signedText
      rw [List.length_append]
      split <;> simp <;> omega
    exact ⟨signedText n,_,formatAndEmitSigned_defaults hl hu,
      int32ToCstring_eq outside (lt_of_le_of_ne hl hne.symm) hu hout,hfits,
      bytesAt_zeroed hfits hz,signedText_decimal n⟩

/-- The smallest number but one. -/
theorem printersAgree_smallest_but_one :
    PrintersAgree (fun _ => 0) (fun _ => 0) 0x1000 (-2^31+1) :=
  (printersAgree_iff (fun _ => 0) (by decide) (by decide) (by decide)
    (fun _ _ _ => rfl)).mpr (by decide)

/-- The smallest number itself comes out as a sign and a stray character. -/
theorem printers_not_always_agree : ¬∀ outside memory out n, -2^31≤n → n<2^31 →
    out+32≤2^64 → (∀ x, out≤x → x<out+32 → memory x=0) →
      PrintersAgree outside memory out n :=
  fun h => not_printersAgree_smallest (fun _ => 0) (by decide) (fun _ _ _ => rfl)
    (h (fun _ => 0) (fun _ => 0) 0x1000 (-2^31) (by decide) (by decide) (by decide)
      (fun _ _ _ => rfl))

end Signed

end WorkbenchOS.NumberConversion
