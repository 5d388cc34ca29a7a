import Mathlib

/-!
# Numerals

A text denotes a number in a base through the value of each of its symbols,
the most significant first. The numeral of a number is the text whose symbols
are its digits, one zero for zero. Zeros in front keep the number, zeros behind
multiply it by a power of the base.
-/

namespace WorkbenchOS.Numerals

universe u

variable {α : Type u} {value : α→ℕ} {symbol : ℕ→α} {base v w : ℕ} {text : List α}

/-- The number a text denotes. -/
def read (value : α→ℕ) (base : ℕ) (text : List α) : ℕ :=
  Nat.ofDigits base (text.map value).reverse

/-- The text is not empty, and its symbols are digits that denote the number. -/
structure IsNumeral (value : α→ℕ) (base : ℕ) (text : List α) (v : ℕ) : Prop where
  /-- There is a digit. -/
  nonempty : text≠[]
  /-- All symbols are digits. -/
  digits_lt : ∀ c∈text,value c<base
  /-- They denote the number. -/
  read_eq : read value base text=v

/-- The digits of a number, the most significant first. -/
def numeral (symbol : ℕ→α) (base v : ℕ) : List α :=
  if v=0 then [symbol 0] else ((Nat.digits base v).map symbol).reverse

/-- A text in two parts. -/
theorem read_append (value : α→ℕ) (base : ℕ) (front back : List α) :
    read value base (front++back)=read value base back+base^back.length*read value base front := by
  rw [read,List.map_append,List.reverse_append,Nat.ofDigits_append,List.length_reverse,
    List.length_map]
  rfl

/-- Zeros denote zero. -/
theorem read_zeros {zero : α} (hz : value zero=0) (n : ℕ) :
    read value base (List.replicate n zero)=0 := by
  rw [read,List.map_replicate,hz,List.reverse_replicate,Nat.ofDigits_replicate_zero]

/-- Zeros are digits. -/
theorem zeros_lt {zero : α} (hz : value zero=0) (hb : 0<base) (n : ℕ) :
    ∀ c∈List.replicate n zero,value c<base := by
  intro c hc
  rw [List.eq_of_mem_replicate hc,hz]
  exact hb

/-- Zeros in front keep the number. -/
theorem IsNumeral.leading {zero : α} (h : IsNumeral value base text v) (hz : value zero=0)
    (hb : 0<base) (n : ℕ) : IsNumeral value base (List.replicate n zero++text) v where
  nonempty := List.append_ne_nil_of_right_ne_nil _ h.nonempty
  digits_lt := List.forall_mem_append.mpr ⟨zeros_lt hz hb n,h.digits_lt⟩
  read_eq := by
    rw [read_append,read_zeros hz,Nat.mul_zero,Nat.add_zero,h.read_eq]

/-- Zeros behind multiply the number. -/
theorem IsNumeral.trailing {zero : α} (h : IsNumeral value base text v) (hz : value zero=0)
    (hb : 0<base) (n : ℕ) : IsNumeral value base (text++List.replicate n zero) (base^n*v) where
  nonempty := List.append_ne_nil_of_left_ne_nil h.nonempty _
  digits_lt := List.forall_mem_append.mpr ⟨h.digits_lt,zeros_lt hz hb n⟩
  read_eq := by
    rw [read_append,read_zeros hz,List.length_replicate,Nat.zero_add,h.read_eq]

/-- Zeros behind keep no number but zero. -/
theorem pow_mul_eq_iff (hb : 2≤base) {n : ℕ} (hn : n≠0) : base^n*v=v↔v=0 := by
  have hpow : 1<base^n := Nat.one_lt_pow hn hb
  constructor
  · intro h
    by_contra hv
    have hlt := Nat.mul_lt_mul_of_pos_right hpow (Nat.pos_of_ne_zero hv)
    omega
  · rintro rfl
    exact Nat.mul_zero _

/-- The last digit of a number with several. -/
theorem numeral_of_div_ne_zero (symbol : ℕ→α) (hb : 2≤base) (h : v/base≠0) :
    numeral symbol base v=numeral symbol base (v/base)++[symbol (v%base)] := by
  have hv : v≠0 := by
    rintro rfl
    exact h (Nat.zero_div base)
  rw [numeral,if_neg hv,numeral,if_neg h,Nat.digits_def' hb (Nat.pos_of_ne_zero hv),List.map_cons,
    List.reverse_cons]

/-- A number with one digit. -/
theorem numeral_of_div_eq_zero (symbol : ℕ→α) (hb : 2≤base) (h : v/base=0) :
    numeral symbol base v=[symbol (v%base)] := by
  have hlt : v<base := by
    rcases Nat.div_eq_zero_iff.mp h with hz | hlt
    · omega
    · exact hlt
  rw [Nat.mod_eq_of_lt hlt,numeral]
  split
  · next hz => rw [hz]
  · next hz => rw [Nat.digits_of_lt base v hz hlt,List.map_singleton,List.reverse_singleton]

/-- A map of the symbols that agrees on the digits maps the numeral. -/
theorem numeral_map {β : Type*} {other : ℕ→β} {f : α→β} (hb : 2≤base)
    (hf : ∀ d<base,f (symbol d)=other d) (v : ℕ) :
    (numeral symbol base v).map f=numeral other base v := by
  rw [numeral,numeral]
  split
  · rw [List.map_singleton,hf 0 (by omega)]
  · rw [List.map_reverse,List.map_map]
    refine congrArg List.reverse (List.map_congr_left (fun d hd => ?_))
    exact hf d (Nat.digits_lt_base (by omega) hd)

/-- The first symbol of a number other than zero is not a zero. -/
theorem head_numeral_ne_zero (hb : 2≤base) (hs : ∀ d<base,value (symbol d)=d) (hv : v≠0) :
    ∀ c∈(numeral symbol base v).head?,value c≠0 := by
  intro c hc
  have hne : Nat.digits base v≠[] := Nat.digits_ne_nil_iff_ne_zero.mpr hv
  rw [numeral,if_neg hv,List.head?_reverse,List.getLast?_map,
    List.getLast?_eq_some_getLast hne,Option.map_some,Option.mem_some_iff] at hc
  rw [← hc,hs _ (Nat.digits_lt_base (by omega) (List.getLast_mem hne))]
  exact Nat.getLast_digit_ne_zero base hv

/-- A number below a power of the base has no more digits than that. -/
theorem numeral_length_le (symbol : ℕ→α) (hb : 2≤base) {count : ℕ} (hc : 1≤count)
    (hv : v<base^count) : (numeral symbol base v).length≤count := by
  rw [numeral]
  split
  · exact hc
  · rw [List.length_reverse,List.length_map]
    exact (Nat.digits_length_le_iff (by omega) v).mpr hv

/-- The numeral of a number denotes it. -/
theorem isNumeral_numeral (hb : 2≤base) (hs : ∀ d<base,value (symbol d)=d) (v : ℕ) :
    IsNumeral value base (numeral symbol base v) v := by
  induction v using Nat.strong_induction_on with
  | _ v ih =>
    have hpos : 0<base := by omega
    have hlast := hs (v%base) (Nat.mod_lt v hpos)
    have hlt : ∀ c∈[symbol (v%base)],value c<base := by
      intro c hc
      rw [List.mem_singleton.mp hc,hlast]
      exact Nat.mod_lt v hpos
    have hread : read value base [symbol (v%base)]=v%base := by
      rw [read,List.map_singleton,List.reverse_singleton,Nat.ofDigits_singleton,hlast]
    by_cases hdiv : v/base=0
    · rw [numeral_of_div_eq_zero symbol hb hdiv]
      have hself := Nat.mod_add_div v base
      rw [hdiv,Nat.mul_zero,Nat.add_zero] at hself
      exact ⟨List.cons_ne_nil _ _,hlt,by rw [hread,hself]⟩
    · have hv : 0<v := by
        refine Nat.pos_of_ne_zero ?_
        rintro rfl
        exact hdiv (Nat.zero_div base)
      have hfront := ih (v/base) (Nat.div_lt_self hv hb)
      rw [numeral_of_div_ne_zero symbol hb hdiv]
      refine ⟨List.append_ne_nil_of_left_ne_nil hfront.nonempty _,
        List.forall_mem_append.mpr ⟨hfront.digits_lt,hlt⟩,?_⟩
      rw [read_append,hread,hfront.read_eq,List.length_singleton,pow_one,Nat.mod_add_div]

end WorkbenchOS.Numerals
