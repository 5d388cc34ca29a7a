import WorkbenchOS.LibStd

/-!
# Text for one argument

`UnbufferedConsole.cpp` formats numbers by writing digits backwards into a
buffer on the stack and padding them to a width. The characters given to
`debug_putchar` are the list a definition returns. An `int` wraps; the buffer
is the number of characters in front of `end`, and nothing is returned when it
does not hold the digits.
-/

namespace WorkbenchOS.FormatSpecs

open LibStd

/-- A `char` of the source. -/
def chr (c : Char) : UInt8 := c.toNat.toUInt8

/-- `FormatSpec`. -/
structure FormatSpec where
  /-- The conversion, 0 for none. -/
  type : UInt8
  /-- `<`, `>` or `^`. -/
  align : UInt8
  /-- The character that fills. -/
  fill : UInt8
  /-- `+`, a space or 0. -/
  sign : UInt8
  /-- The alternate form. -/
  alt : Bool
  /-- The zero flag. -/
  zero : Bool
  /-- The width, -1 for none. -/
  width : ℤ
  /-- Upper case digits and prefix. -/
  uppercase : Bool
  deriving DecidableEq

/-- The defaults of `parse_spec`. -/
def FormatSpec.defaults : FormatSpec :=
  ⟨0,chr '>',chr ' ',0,false,false,-1,false⟩

/-- `emit_n`. -/
def emitN (c : UInt8) (count : ℤ) : List UInt8 := List.replicate count.toNat c

/-- `emit_str`. -/
def emitStr (text : List UInt8) (n : ℤ) : List UInt8 := text.take n.toNat

/-- What a width leaves to fill. -/
def padding (width length : ℤ) : ℤ := if length<width then int32 (width-length) else 0

/-- The fill in front of the text. -/
def leftPad (align : UInt8) (pad : ℤ) : ℤ :=
  if align=chr '<' then 0 else if align=chr '^' then pad/2 else pad

/-- The fill behind the text. -/
def rightPad (align : UInt8) (pad : ℤ) : ℤ :=
  if align=chr '<' then pad else if align=chr '^' then pad-pad/2 else 0

/-- The tail of every string overload of `select`: `n` characters of the text
between the fill characters. -/
def emitPadded (fs : FormatSpec) (text : List UInt8) (n : ℤ) : List UInt8 :=
  emitN fs.fill (leftPad fs.align (padding fs.width n))++emitStr text n++
    emitN fs.fill (rightPad fs.align (padding fs.width n))

/-- `digs_l` and `digs_u`. -/
def digits (uppercase : Bool) : List UInt8 :=
  (if uppercase then "0123456789ABCDEF" else "0123456789abcdef").toList.map chr

/-- `D[d]`. -/
def digit (uppercase : Bool) (d : ℕ) : UInt8 := (digits uppercase).getD d 0

/-- The loop of `format_uint_rev`: the room in front of what is written, the
value left and the characters written. -/
def formatUintLoop (base : ℕ) (uppercase : Bool) : ℕ→ℕ→List UInt8→Option (List UInt8)
  | 0,_,_ => none
  | room+1,v,written =>
    if v/base=0 then some (digit uppercase (v%base)::written)
    else formatUintLoop base uppercase room (v/base) (digit uppercase (v%base)::written)

/-- `format_uint_rev`: the characters from the first digit to `end`. -/
def formatUintRev (v base : ℕ) (uppercase : Bool) (room : ℕ) : Option (List UInt8) :=
  formatUintLoop base uppercase room v []

/-- `emit_padded_numeric`, and the same code at the end of
`format_and_emit_signed`; the sign is a list of at most one character. -/
def emitPaddedNumeric (sign pref digits : List UInt8) (fs : FormatSpec) : List UInt8 :=
  let pad := padding fs.width (sign.length+pref.length+digits.length)
  if fs.align=chr '>' ∧ fs.zero=true then sign++pref++emitN (chr '0') pad++digits
  else emitN fs.fill (leftPad fs.align pad)++sign++pref++digits++
    emitN fs.fill (rightPad fs.align pad)

/-- `0x` or `0X`. -/
def hexPrefix (uppercase : Bool) : List UInt8 := [chr '0',if uppercase then chr 'X' else chr 'x']

/-- The prefix of the alternate form. -/
def altPrefix (fs : FormatSpec) (base : ℕ) : List UInt8 :=
  if fs.alt then
    if base=16 then hexPrefix fs.uppercase
    else if base=8 then [chr '0']
    else if base=2 then [chr '0',if fs.uppercase then chr 'B' else chr 'b']
    else []
  else []

/-- The base of `format_and_emit_unsigned`, from the type with its default. -/
def unsignedBase (t : UInt8) : ℕ :=
  if t=chr 'x' ∨ t=chr 'X' then 16
  else if t=chr 'o' then 8
  else if t=chr 'b' then 2
  else if t=chr 'p' then 16
  else 10

/-- `format_and_emit_unsigned`. The type has its default by then, so the test
for a pointer without a type is never met. -/
def formatAndEmitUnsigned (uv : ℕ) (fs : FormatSpec) (isPointer : Bool) : Option (List UInt8) :=
  let t := if fs.type=0 then chr 'u' else fs.type
  if t=chr 'c' then some (emitN uv.toUInt8 1)
  else
    let base := unsignedBase t
    (formatUintRev uv base fs.uppercase 67).map fun digits =>
      let pref := if isPointer=true ∨ t=chr 'p' then hexPrefix fs.uppercase else altPrefix fs base
      emitPaddedNumeric [] pref digits fs

/-- The base of `format_and_emit_signed`. -/
def signedBase (t : UInt8) : ℕ :=
  if t=chr 'x' ∨ t=chr 'X' then 16
  else if t=chr 'o' then 8
  else if t=chr 'b' then 2
  else 10

/-- The magnitude of `format_and_emit_signed`, without overflow at the
smallest value. -/
def magnitude (sv : ℤ) : ℕ := if sv<0 then u64 (toU64 (-(sv+1))+1) else toU64 sv

/-- The sign of `format_and_emit_signed`, shown for decimal numbers only. -/
def signOf (sv : ℤ) (fs : FormatSpec) (base : ℕ) : List UInt8 :=
  if base=10 then
    if sv<0 then [chr '-']
    else if fs.sign=chr '+' then [chr '+']
    else if fs.sign=chr ' ' then [chr ' ']
    else []
  else []

/-- `format_and_emit_signed`. -/
def formatAndEmitSigned (sv : ℤ) (fs : FormatSpec) : Option (List UInt8) :=
  let t := if fs.type=0 then chr 'd' else fs.type
  if t=chr 'c' then some (emitN (toU64 sv).toUInt8 1)
  else
    let base := signedBase t
    (formatUintRev (magnitude sv) base fs.uppercase 66).map fun digits =>
      emitPaddedNumeric (signOf sv fs base) (altPrefix fs base) digits fs

/-- A value with less than as many bits as there is room for characters is
written, whatever the base. -/
theorem formatUintLoop_returns {base : ℕ} (uppercase : Bool) (hb : 2≤base) (room v : ℕ)
    (written : List UInt8) (hr : 0<room) (hv : v<2^room) :
    ∃ text, formatUintLoop base uppercase room v written=some text := by
  induction room generalizing v written with
  | zero => omega
  | succ room ih =>
    rw [formatUintLoop]
    by_cases hlast : v/base=0
    · exact ⟨_,if_pos hlast⟩
    · rw [if_neg hlast]
      have hhalf : v/base<2^room := by
        have hle : v/base≤v/2 := Nat.div_le_div_left hb (by decide)
        have hv2 : v/2<2^room := Nat.div_lt_of_lt_mul (by rwa [pow_succ'] at hv)
        exact hle.trans_lt hv2
      have hroom : 0<room := by
        refine Nat.pos_of_ne_zero ?_
        rintro rfl
        exact hlast (Nat.lt_one_iff.mp hhalf)
      exact ih _ _ hroom hhalf

/-- A buffer of 64 characters holds every `u64`. -/
theorem formatUintRev_returns {v base room : ℕ} (uppercase : Bool) (hb : 2≤base) (hr : 64≤room)
    (hv : v<2^64) : ∃ text, formatUintRev v base uppercase room=some text :=
  formatUintLoop_returns uppercase hb room v [] (by omega)
    (hv.trans_le (Nat.pow_le_pow_right (by decide) hr))

/-- No base is less than two. -/
theorem unsignedBase_two_le (t : UInt8) : 2≤unsignedBase t := by
  rw [unsignedBase]
  split_ifs <;> decide

/-- The buffer of `format_and_emit_unsigned` holds every value. -/
theorem formatAndEmitUnsigned_returns {uv : ℕ} (hv : uv<2^64) (fs : FormatSpec)
    (isPointer : Bool) : ∃ text, formatAndEmitUnsigned uv fs isPointer=some text := by
  rw [formatAndEmitUnsigned]
  dsimp only
  generalize (if fs.type=0 then chr 'u' else fs.type)=t
  by_cases hc : t=chr 'c'
  · exact ⟨_,if_pos hc⟩
  · obtain ⟨text,ht⟩ :=
      formatUintRev_returns fs.uppercase (unsignedBase_two_le t) (by decide : 64≤67) hv
    rw [if_neg hc,ht]
    exact ⟨_,rfl⟩

/-- No base is less than two. -/
theorem signedBase_two_le (t : UInt8) : 2≤ signedBase t := by
  rw [signedBase]
  split_ifs <;> decide

/-- The magnitude of a number fits 64 bits. -/
theorem magnitude_lt (sv : ℤ) : magnitude sv<2^64 := by
  rw [magnitude]
  split
  · exact u64_lt _
  · rw [toU64]
    omega

/-- The buffer of `format_and_emit_signed` holds every value. -/
theorem formatAndEmitSigned_returns (sv : ℤ) (fs : FormatSpec) :
    ∃ text, formatAndEmitSigned sv fs=some text := by
  rw [formatAndEmitSigned]
  dsimp only
  generalize (if fs.type=0 then chr 'd' else fs.type)=t
  by_cases hc : t=chr 'c'
  · exact ⟨_,if_pos hc⟩
  · obtain ⟨text,ht⟩ := formatUintRev_returns fs.uppercase (signedBase_two_le t)
      (by decide : 64≤66) (magnitude_lt sv)
    rw [if_neg hc,ht]
    exact ⟨_,rfl⟩

end WorkbenchOS.FormatSpecs
