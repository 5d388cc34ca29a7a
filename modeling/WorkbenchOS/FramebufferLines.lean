import WorkbenchOS.LibStd
import WorkbenchOS.FrameBitmap

/-!
# Lines and rectangles

`LinearFramebuffer` draws into 32-bit words, row after row. `hline` and `vline`
keep the position in 32 bits and count in an `int`; where `hline` multiplies
the row by the width, `vline` multiplies it by the height. The words an outline
writes are compared with those of the outline, and it turns out that the two
starts may differ in one way only and still give the same words.
-/

namespace WorkbenchOS.FramebufferLines

open LibStd FrameBitmap

/-- The words at `m_framebuffer`, by index. -/
abbrev Pixels := ℕ→BitVec 32

/-- A value wrapped to the 32 bits of `uint32_t`. -/
def u32 (value : ℕ) : ℕ := value%2^32

/-- The fields of `LinearFramebuffer`, with the words `m_framebuffer` points
at. -/
structure LinearFramebuffer where
  /-- `m_width`. -/
  width : ℕ
  /-- `m_height`. -/
  height : ℕ
  /-- The words at `m_framebuffer`. -/
  pixels : Pixels

/-- The loop of `hline` and `vline`: one word, and on by a step. -/
def lineLoop (step : ℕ) (colour : BitVec 32) : (remaining position : ℕ)→Pixels→Pixels
  | 0,_,pixels => pixels
  | remaining+1,position,pixels =>
    lineLoop step colour remaining (u32 (position+step))
      (Function.update pixels position colour)

/-- `LinearFramebuffer::hline`. -/
def hline (framebuffer : LinearFramebuffer) (x y width : ℕ) (colour : BitVec 32) :
    LinearFramebuffer :=
  let position := u32 (u64 (y*framebuffer.width+x))
  {framebuffer with
    pixels := lineLoop 1 colour (min width intIterations) position framebuffer.pixels}

/-- `LinearFramebuffer::vline`. The row is multiplied by the height. -/
def vline (framebuffer : LinearFramebuffer) (x y height : ℕ) (colour : BitVec 32) :
    LinearFramebuffer :=
  let position := u32 (u64 (y*framebuffer.height+x))
  {framebuffer with
    pixels := lineLoop framebuffer.width colour (min height intIterations) position
      framebuffer.pixels}

/-- The loop of `rect` over the rows of a filled rectangle, from row `i` on. Its
`int` counter is compared with a `uint32_t` and converted for it. -/
def fillLoop (x y w : ℕ) (colour : BitVec 32) : (remaining i : ℕ)→LinearFramebuffer→
    LinearFramebuffer
  | 0,_,framebuffer => framebuffer
  | remaining+1,i,framebuffer =>
    fillLoop x y w colour remaining (i+1) (hline framebuffer x (u32 (y+i)) w colour)

/-- `LinearFramebuffer::rect`. -/
def rect (framebuffer : LinearFramebuffer) (x y w h : ℕ) (colour : BitVec 32) (filled : Bool) :
    LinearFramebuffer :=
  if filled then fillLoop x y w colour h 0 framebuffer
  else
    let top := hline framebuffer x y w colour
    let bottom := hline top x (u32 (y+h)) w colour
    let left := vline bottom x y h colour
    vline left (u32 (x+w)) y h colour

/-- The words of an outline, where pixel `(i,j)` is word `j*width+i`. -/
def OnOutline (width x y w h word : ℕ) : Prop :=
  (∃ i, x≤ i ∧ i<x+w ∧ (word=y*width+i ∨ word=(y+h)*width+i)) ∨
    ∃ j, y≤j ∧ j<y+h ∧ (word=j*width+x ∨ word=j*width+(x+w))

/-- `rect` changes exactly the words of the outline, to the colour. -/
def DrawsOutline (width height x y w h : ℕ) : Prop :=
  ∀ pixels colour word,
    (OnOutline width x y w h word →
      (rect ⟨width,height,pixels⟩ x y w h colour false).pixels word=colour) ∧
    (¬OnOutline width x y w h word →
      (rect ⟨width,height,pixels⟩ x y w h colour false).pixels word=pixels word)

/-- The rectangle is not empty and lies on the screen. -/
structure OnScreen (width height x y w h : ℕ) : Prop where
  /-- At least one column. -/
  w_pos : 1≤w
  /-- At least one row. -/
  h_pos : 1≤h
  /-- Left of the right edge. -/
  right : x+w<width
  /-- Above the bottom. -/
  bottom : y+h<height
  /-- The arguments of `rect` are `uint32_t`. -/
  args : x<2^32 ∧ y<2^32 ∧ w<2^32 ∧ h<2^32

/-- All words of the outline are below 2^32 and the vertical lines start in
their columns; or else both are shifted by the width of the rectangle, the left
one into the place of the right one and the right one into words that belong to
the outline. -/
def StartsMatch (width height x y w h : ℕ) : Prop :=
  (y+h)*width+x+w≤2^32 ∧
    (y*height%2^32=y*width%2^32 ∨
      (y*height%2^32=(y*width+w)%2^32 ∧ (width=2*w ∨ (h=1 ∧ width≤2*w))))

instance (width height x y w h : ℕ) : Decidable (StartsMatch width height x y w h) :=
  inferInstanceAs (Decidable (_ ∧ _))

/-- The words a line from a position on writes. -/
def OnLine (step count position word : ℕ) : Prop := ∃ k, k<count ∧ word=u32 (position+k*step)

theorem u32_of_lt {value : ℕ} (h : value<2^32) : u32 value=value := Nat.mod_eq_of_lt h

theorem u32_lt (value : ℕ) : u32 value<2^32 := Nat.mod_lt _ (by decide)

/-- A sum in 64 bits, of which 32 are kept. -/
theorem u32_u64 (value : ℕ) : u32 (u64 value)=u32 value :=
  Nat.mod_mod_of_dvd value (pow_dvd_pow 2 (by decide))

/-- The line from the second position on. -/
theorem onLine_succ (step count position word : ℕ) :
    OnLine step (count+1) position word ↔
      word=u32 position ∨ OnLine step count (u32 (position+step)) word := by
  have hshift : ∀ k, u32 (u32 (position+step)+k*step)=u32 (position+(k+1)*step) := by
    intro k
    rw [u32,u32,Nat.mod_add_mod,u32,Nat.add_mul,Nat.one_mul,Nat.add_assoc,
      Nat.add_comm step]
  constructor
  · rintro ⟨k,hk,rfl⟩
    cases k with
    | zero => exact Or.inl (by rw [Nat.zero_mul,Nat.add_zero])
    | succ k => exact Or.inr ⟨k,by omega,(hshift k).symm⟩
  · rintro (rfl|⟨k,hk,rfl⟩)
    · exact ⟨0,Nat.succ_pos count,by rw [Nat.zero_mul,Nat.add_zero]⟩
    · exact ⟨k+1,by omega,hshift k⟩

/-- A line writes its words and no others. -/
theorem lineLoop_spec (step : ℕ) (colour : BitVec 32) (count : ℕ) {position : ℕ}
    (hp : position<2^32) (pixels : Pixels) (word : ℕ) :
    (OnLine step count position word → lineLoop step colour count position pixels word=colour) ∧
    (¬OnLine step count position word →
      lineLoop step colour count position pixels word=pixels word) := by
  induction count generalizing position pixels with
  | zero => exact ⟨fun ⟨k,hk,_⟩ => absurd hk (Nat.not_lt_zero k),fun _ => rfl⟩
  | succ count ih =>
    obtain ⟨hon,hoff⟩ := ih (u32_lt (position+step)) (Function.update pixels position colour)
    rw [onLine_succ,u32_of_lt hp,lineLoop]
    by_cases hrest : OnLine step count (u32 (position+step)) word
    · exact ⟨fun _ => hon hrest,fun h => absurd (Or.inr hrest) h⟩
    · rw [hoff hrest]
      constructor
      · intro h
        rw [h.resolve_right hrest,Function.update_self]
      · intro h
        rw [Function.update_of_ne (fun he => h (Or.inl he))]

/-- The words the four lines of an outline write. -/
def Written (width height x y w h word : ℕ) : Prop :=
  (OnLine 1 (min w intIterations) (u32 (y*width+x)) word ∨
    OnLine 1 (min w intIterations) (u32 (u32 (y+h)*width+x)) word) ∨
  (OnLine width (min h intIterations) (u32 (y*height+x)) word ∨
    OnLine width (min h intIterations) (u32 (y*height+u32 (x+w))) word)

/-- `rect` writes these words and no others. -/
theorem rect_spec (width height x y w h : ℕ) (pixels : Pixels) (colour : BitVec 32) (word : ℕ) :
    (Written width height x y w h word →
      (rect ⟨width,height,pixels⟩ x y w h colour false).pixels word=colour) ∧
    (¬Written width height x y w h word →
      (rect ⟨width,height,pixels⟩ x y w h colour false).pixels word=pixels word) := by
  rw [rect,if_neg (by decide)]
  simp only [hline,vline,u32_u64]
  have htop := lineLoop_spec 1 colour (min w intIterations) (u32_lt (y*width+x))
  have hbottom := lineLoop_spec 1 colour (min w intIterations) (u32_lt (u32 (y+h)*width+x))
  have hleft := lineLoop_spec width colour (min h intIterations) (u32_lt (y*height+x))
  have hright := lineLoop_spec width colour (min h intIterations)
    (u32_lt (y*height+u32 (x+w)))
  unfold Written
  constructor
  · intro hw
    by_cases hr : OnLine width (min h intIterations) (u32 (y*height+u32 (x+w))) word
    · exact (hright _ word).1 hr
    rw [(hright _ word).2 hr]
    by_cases hl : OnLine width (min h intIterations) (u32 (y*height+x)) word
    · exact (hleft _ word).1 hl
    rw [(hleft _ word).2 hl]
    by_cases hb : OnLine 1 (min w intIterations) (u32 (u32 (y+h)*width+x)) word
    · exact (hbottom _ word).1 hb
    rw [(hbottom _ word).2 hb]
    exact (htop _ word).1 ((hw.resolve_right (not_or.mpr ⟨hl,hr⟩)).resolve_right hb)
  · intro hw
    obtain ⟨hrows,hcolumns⟩ := not_or.mp hw
    obtain ⟨ht,hb⟩ := not_or.mp hrows
    obtain ⟨hl,hr⟩ := not_or.mp hcolumns
    rw [(hright _ word).2 hr,(hleft _ word).2 hl,(hbottom _ word).2 hb,(htop _ word).2 ht]

/-- An outline is drawn exactly when its words are the ones written. -/
theorem drawsOutline_iff_written {width height x y w h : ℕ} :
    DrawsOutline width height x y w h ↔
      ∀ word, Written width height x y w h word ↔ OnOutline width x y w h word := by
  constructor
  · intro hd word
    obtain ⟨hon,hoff⟩ := hd (fun _ => 0) 1 word
    obtain ⟨hwon,hwoff⟩ := rect_spec width height x y w h (fun _ => 0) 1 word
    constructor
    · intro hw
      by_contra ho
      have hcolour := hwon hw
      rw [hoff ho] at hcolour
      exact absurd hcolour (by decide)
    · intro ho
      by_contra hw
      have hcolour := hon ho
      rw [hwoff hw] at hcolour
      exact absurd hcolour (by decide)
  · intro hw pixels colour word
    rw [← hw word]
    exact rect_spec width height x y w h pixels colour word

section Outlines

variable {width height x y w h : ℕ}

/-- The words of the horizontal lines of an outline that begins at the word
`first`, and those of two vertical lines. -/
def OnLines (width w h first : ℕ) (left right : ℕ→ℕ) (word : ℕ) : Prop :=
  (∃ k, k<w ∧ (word=first+k ∨ word=first+h*width+k)) ∨ ∃ k, k<h ∧ (word=left k ∨ word=right k)

/-- The words of the outline, counted from its first one. -/
theorem onOutline_iff (word : ℕ) : OnOutline width x y w h word ↔
    OnLines width w h (y*width+x) (y*width+x+·*width) (y*width+x+w+·*width) word := by
  simp only [OnOutline,OnLines]
  constructor
  · rintro (⟨i,hl,hr,hword⟩|⟨j,hl,hr,hword⟩)
    · refine Or.inl ⟨i-x,by omega,?_⟩
      rw [Nat.add_mul] at hword
      omega
    · refine Or.inr ⟨j-y,by omega,?_⟩
      have hj : j*width=y*width+(j-y)*width := by rw [← Nat.add_mul]; congr 1; omega
      omega
  · rintro (⟨k,hk,hword⟩|⟨k,hk,hword⟩)
    · refine Or.inl ⟨x+k,by omega,by omega,?_⟩
      rw [Nat.add_mul]
      omega
    · refine Or.inr ⟨y+k,by omega,by omega,?_⟩
      rw [Nat.add_mul]
      omega

/-- Where the last word of the outline is below 2^32, so are all counts and
starts of the horizontal lines. -/
theorem OnScreen.counts (hs : OnScreen width height x y w h)
    (hlast : (y+h)*width+x+w≤2^32) :
    w≤ intIterations ∧ h≤ intIterations ∧ y+h<2^32 ∧ x+w<2^32 ∧ width<2^32 := by
  have hw := hs.w_pos
  have hh := hs.h_pos
  have hr := hs.right
  have hrows : width≤(y+h)*width := Nat.le_mul_of_pos_left _ (by omega)
  have hcolumns : (y+h)*2≤(y+h)*width := Nat.mul_le_mul_left _ (by omega)
  unfold intIterations
  omega

/-- Then the words written are those of the horizontal lines of the outline and
those of two vertical lines from the starts that `vline` computes. -/
theorem OnScreen.written_iff (hs : OnScreen width height x y w h)
    (hlast : (y+h)*width+x+w≤2^32) (word : ℕ) : Written width height x y w h word ↔
    OnLines width w h (y*width+x) (fun k => u32 (u32 (y*height+x)+k*width))
      (fun k => u32 (u32 (y*height+(x+w))+k*width)) word := by
  obtain ⟨hwi,hhi,hyh,hxw,-⟩ := hs.counts hlast
  have hw := hs.w_pos
  have hrow : y*width+h*width=(y+h)*width := (Nat.add_mul y h width).symm
  have htop : u32 (y*width+x)=y*width+x := u32_of_lt (by omega)
  have hbottom : u32 ((y+h)*width+x)=y*width+x+h*width := by
    rw [u32_of_lt (by omega)]
    omega
  rw [Written,Nat.min_eq_left hwi,Nat.min_eq_left hhi,u32_of_lt hyh,u32_of_lt hxw,htop,hbottom]
  unfold OnLine OnLines
  constructor
  · rintro ((⟨k,hk,hword⟩|⟨k,hk,hword⟩)|(⟨k,hk,hword⟩|⟨k,hk,hword⟩))
    · rw [u32_of_lt (by omega)] at hword
      exact Or.inl ⟨k,hk,Or.inl (by omega)⟩
    · rw [u32_of_lt (by omega)] at hword
      exact Or.inl ⟨k,hk,Or.inr (by omega)⟩
    · exact Or.inr ⟨k,hk,Or.inl hword⟩
    · exact Or.inr ⟨k,hk,Or.inr hword⟩
  · rintro (⟨k,hk,hword|hword⟩|⟨k,hk,hword|hword⟩)
    · exact Or.inl (Or.inl ⟨k,hk,by rw [u32_of_lt (by omega)]; omega⟩)
    · exact Or.inl (Or.inr ⟨k,hk,by rw [u32_of_lt (by omega)]; omega⟩)
    · exact Or.inr (Or.inl ⟨k,hk,hword⟩)
    · exact Or.inr (Or.inr ⟨k,hk,hword⟩)

/-- A line that starts below 2^32 and whose words all leave room for a row does
not wrap. -/
theorem line_lt {start count : ℕ} (hstart : start<2^32) (hwidth : width≤2^32)
    (hroom : ∀ k, k<count → width≤u32 (start+k*width)) :
    ∀ k, k<count → start+k*width<2^32 := by
  intro k
  induction k with
  | zero => simpa using fun _ => hstart
  | succ k ih =>
    intro hk
    have hbefore := ih (by omega)
    have hhere := hroom (k+1) hk
    rw [Nat.add_mul,Nat.one_mul] at hhere ⊢
    unfold u32 at hhere
    omega

/-- The row of a vertical line is one of those of the rectangle. -/
theorem row_le {k : ℕ} (hk : k<h) : k*width+width≤h*width := by
  have hle := Nat.mul_le_mul_right width (Nat.succ_le_of_lt hk)
  rwa [Nat.succ_mul] at hle

/-- Starts that agree modulo 2^32 stay so in the next columns. -/
theorem u32_add_congr {first second : ℕ} (heq : first%2^32=second%2^32) (offset : ℕ) :
    u32 (first+offset)=u32 (second+offset) :=
  Nat.ModEq.add_right offset heq

/-- When the left line is drawn in the right column and the right one where the
outline goes on one row below, or on the bottom, the outline is written. -/
theorem onLines_shifted {first : ℕ} (hw : 1≤w) (hw' : w<width)
    (hleft : ∀ k, k<h → first+w+k*width<2^32) (hright : ∀ k, k<h → first+2*w+k*width<2^32)
    (hshape : width=2*w ∨ (h=1 ∧ width≤2*w)) (word : ℕ) :
    OnLines width w h first (fun k => u32 (first+w+k*width))
        (fun k => u32 (first+2*w+k*width)) word ↔
      OnLines width w h first (first+·*width) (first+w+·*width) word := by
  simp only [OnLines]
  constructor
  · rintro (hrows|⟨k,hk,hword⟩)
    · exact Or.inl hrows
    rw [u32_of_lt (hleft k hk),u32_of_lt (hright k hk)] at hword
    rcases hword with hword|hword
    · exact Or.inr ⟨k,hk,Or.inr hword⟩
    rcases hshape with htwice|⟨hone,hle⟩
    · by_cases hlastRow : k+1<h
      · exact Or.inr ⟨k+1,hlastRow,Or.inl (by rw [Nat.add_mul,Nat.one_mul]; omega)⟩
      · have hk' : h=k+1 := by omega
        refine Or.inl ⟨0,hw,Or.inr ?_⟩
        rw [hk',Nat.add_mul,Nat.one_mul]
        omega
    · refine Or.inl ⟨2*w-width,by omega,Or.inr ?_⟩
      obtain rfl : k=0 := by omega
      rw [hone]
      omega
  · rintro (hrows|⟨k,hk,hword⟩)
    · exact Or.inl hrows
    rcases hword with hword|hword
    · by_cases hk0 : k=0
      · exact Or.inl ⟨0,hw,Or.inl (by rw [hword,hk0]; omega)⟩
      have htwice : width=2*w := by omega
      refine Or.inr ⟨k-1,by omega,Or.inr ?_⟩
      have hprevious : (k-1)*width+width=k*width := by
        rw [← Nat.succ_mul]
        congr 1
        omega
      rw [u32_of_lt (hright (k-1) (by omega))]
      omega
    · exact Or.inr ⟨k,hk,Or.inl (by rw [u32_of_lt (hleft k hk)]; exact hword)⟩

/-- With matching starts the outline is written. -/
theorem written_of_startsMatch (hs : OnScreen width height x y w h)
    (hm : StartsMatch width height x y w h) (word : ℕ) :
    Written width height x y w h word ↔ OnOutline width x y w h word := by
  obtain ⟨hlast,hstarts⟩ := hm
  rw [hs.written_iff hlast,onOutline_iff]
  have hw := hs.w_pos
  have hr := hs.right
  have hrow : y*width+h*width=(y+h)*width := (Nat.add_mul y h width).symm
  have hheight : width≤h*width := Nat.le_mul_of_pos_left _ hs.h_pos
  rcases hstarts with heq|⟨heq,hshape⟩
  · -- each column is drawn in its place
    have hleft : u32 (y*height+x)=y*width+x := by
      rw [u32_add_congr heq,u32_of_lt (by omega)]
    have hright : u32 (y*height+(x+w))=y*width+x+w := by
      rw [u32_add_congr heq,u32_of_lt (by omega),Nat.add_assoc]
    rw [hleft,hright]
    refine or_congr Iff.rfl (exists_congr fun k => and_congr_right fun hk => ?_)
    have hrowk := @row_le width h k hk
    dsimp only
    rw [u32_of_lt (by omega),u32_of_lt (by omega)]
  · -- both are shifted by the width of the rectangle
    have hleft : u32 (y*height+x)=y*width+x+w := by
      rw [u32_add_congr heq,u32_of_lt (by omega)]
      omega
    have hright : u32 (y*height+(x+w))=y*width+x+2*w := by
      rw [u32_add_congr heq,u32_of_lt (by omega)]
      omega
    rw [hleft,hright]
    refine onLines_shifted hw (by omega) ?_ ?_ hshape word
    · intro k hk
      have hrowk := @row_le width h k hk
      omega
    · intro k hk
      have hrowk := @row_le width h k hk
      omega

/-- Only no rows together are shorter than one. -/
theorem zero_of_small {k : ℕ} (hk : k*width<width) : k=0 := by
  by_contra hne
  have hle : width≤k*width := Nat.le_mul_of_pos_left _ (Nat.pos_of_ne_zero hne)
  omega

/-- Every word written is below 2^32. -/
theorem Written.word_lt {word : ℕ} (hw : Written width height x y w h word) : word<2^32 := by
  unfold Written OnLine at hw
  rcases hw with (⟨k,-,rfl⟩|⟨k,-,rfl⟩)|(⟨k,-,rfl⟩|⟨k,-,rfl⟩) <;> exact u32_lt _

/-- A line of which no word lies in front of one that is behind the first row
starts there or behind it, and does not wrap. -/
theorem line_bounds {start count first : ℕ} (hstart : start<2^32) (hwidth : width≤2^32)
    (hfirst : width≤first) (hcount : 1≤count)
    (hline : ∀ k, k<count → first≤u32 (start+k*width)) :
    first≤ start ∧ ∀ k, k<count → start+k*width<2^32 := by
  have hge := hline 0 hcount
  rw [Nat.zero_mul,Nat.add_zero,u32_of_lt hstart] at hge
  exact ⟨hge,line_lt hstart hwidth (fun k hk => hfirst.trans (hline k hk))⟩

/-- The words of an outline are behind its first one. -/
theorem OnLines.first_le {first word : ℕ}
    (hw : OnLines width w h first (first+·*width) (first+w+·*width) word) : first≤word := by
  simp only [OnLines] at hw
  rcases hw with ⟨k,-,hword|hword⟩|⟨k,-,hword|hword⟩ <;> omega

/-- Where a vertical line that starts behind the first word of the outline, or
at it, writes the word at an offset of less than a row, it starts there. -/
theorem start_of_word {start first offset k : ℕ} (hstart : first≤ start) (hoffset : offset<width)
    (hlt : start+k*width<2^32) (hword : first+offset=u32 (start+k*width)) :
    start=first+offset := by
  rw [u32_of_lt hlt] at hword
  have hk : k=0 := zero_of_small (show k*width<width by omega)
  rw [hk] at hword
  omega

/-- When the left line is drawn in the right column, the right line writes the
rest of the outline if it is one row below it, or is a single word that belongs
to the bottom. -/
theorem shape_of_shifted {first : ℕ} (hw : 1≤w) (hw' : w<width) (hh : 1≤h)
    (hleft : ∀ k, k<h → first+w+k*width<2^32) (hright : ∀ k, k<h → first+2*w+k*width<2^32)
    (hwords : ∀ word, OnLines width w h first (fun k => u32 (first+w+k*width))
        (fun k => u32 (first+2*w+k*width)) word ↔
      OnLines width w h first (first+·*width) (first+w+·*width) word) :
    width=2*w ∨ (h=1 ∧ width≤2*w) := by
  simp only [OnLines] at hwords
  by_cases hone : h=1
  · -- the right line is one word, which only the bottom can contain
    refine Or.inr ⟨hone,?_⟩
    have hstray := (hwords (first+2*w)).mp (Or.inr ⟨0,hh,Or.inr (by
      rw [Nat.zero_mul,Nat.add_zero,u32_of_lt (by have := hright 0 hh; omega)])⟩)
    rw [hone,Nat.one_mul] at hstray
    rcases hstray with ⟨j,hj,hat|hat⟩|⟨j,hj,hat|hat⟩
    · omega
    · omega
    · rw [show j=0 by omega] at hat
      omega
    · rw [show j=0 by omega] at hat
      omega
  · -- the second word of the left column is written by the right line
    refine Or.inl ?_
    have htwo : 2*width≤h*width := Nat.mul_le_mul_right _ (by omega)
    have hsecond := (hwords (first+width)).mpr (Or.inr ⟨1,by omega,Or.inl (by rw [Nat.one_mul])⟩)
    rcases hsecond with ⟨j,hj,hat|hat⟩|⟨j,hj,hat|hat⟩
    · omega
    · omega
    · rw [u32_of_lt (hleft j hj)] at hat
      have hj0 := zero_of_small (show j*width<width by omega)
      rw [hj0] at hat
      omega
    · rw [u32_of_lt (hright j hj)] at hat
      have hj0 := zero_of_small (show j*width<width by omega)
      rw [hj0] at hat
      omega

/-- Where the outline is written, its last word is below 2^32. -/
theorem last_of_written (hs : OnScreen width height x y w h)
    (hall : ∀ word, Written width height x y w h word ↔ OnOutline width x y w h word) :
    (y+h)*width+x+w≤2^32 := by
  have hw := hs.w_pos
  have hcorner : OnOutline width x y w h ((y+h)*width+(x+w-1)) :=
    Or.inl ⟨x+w-1,by omega,by omega,Or.inr rfl⟩
  have hlt := ((hall _).mpr hcorner).word_lt
  omega

/-- Where the outline is written, the starts match. -/
theorem startsMatch_of_written (hs : OnScreen width height x y w h)
    (hall : ∀ word, Written width height x y w h word ↔ OnOutline width x y w h word) :
    StartsMatch width height x y w h := by
  have hw := hs.w_pos
  have hh := hs.h_pos
  have hr := hs.right
  have hlast := last_of_written hs hall
  refine ⟨hlast,?_⟩
  by_cases hy : y=0
  · exact Or.inl (by rw [hy,Nat.zero_mul,Nat.zero_mul])
  obtain ⟨-,-,-,-,hwidth⟩ := hs.counts hlast
  have hrow : y*width+h*width=(y+h)*width := (Nat.add_mul y h width).symm
  have hheight : width≤h*width := Nat.le_mul_of_pos_left _ hh
  have hfirst : width≤y*width := Nat.le_mul_of_pos_left _ (Nat.pos_of_ne_zero hy)
  have hwords := fun word => (hs.written_iff hlast word).symm.trans
    ((hall word).trans (onOutline_iff word))
  obtain ⟨left,hleft⟩ : ∃ left,left=u32 (y*height+x) := ⟨_,rfl⟩
  obtain ⟨right,hright⟩ : ∃ right,right=u32 (y*height+(x+w)) := ⟨_,rfl⟩
  rw [← hleft,← hright] at hwords
  -- neither line wraps, so the right one starts `w` words behind the left one
  obtain ⟨hleftGe,hleftLt⟩ := @line_bounds width left h (y*width+x) (hleft ▸ u32_lt _) hwidth.le
    (by omega) hh (fun k hk => ((hwords _).mp (Or.inr ⟨k,hk,Or.inl rfl⟩)).first_le)
  obtain ⟨hrightGe,hrightLt⟩ := @line_bounds width right h (y*width+x) (hright ▸ u32_lt _)
    hwidth.le (by omega) hh (fun k hk => ((hwords _).mp (Or.inr ⟨k,hk,Or.inr rfl⟩)).first_le)
  have hapart : right=left+w := by
    unfold u32 at hleft hright
    omega
  have hcorner := (hwords (y*width+x+w)).mpr (Or.inr ⟨0,hh,Or.inr (by simp)⟩)
  rcases hcorner with ⟨k,hk,hword|hword⟩|⟨k,hk,hword|hword⟩
  · omega
  · omega
  · -- the left line begins in the corner
    have hstart := start_of_word hleftGe (by omega) (hleftLt k hk) hword
    have hstart' : right=y*width+x+2*w := by omega
    rw [hstart,hstart'] at hwords
    rw [hstart] at hleftLt
    rw [hstart'] at hrightLt
    exact Or.inr ⟨by unfold u32 at hleft; omega,
      shape_of_shifted hw (by omega) hh hleftLt hrightLt hwords⟩
  · -- the right line begins there, so both begin in their columns
    have hstart := start_of_word hrightGe (by omega) (hrightLt k hk) hword
    exact Or.inl (by unfold u32 at hleft; omega)

/-- On the screen, an outline is drawn exactly when its words are below 2^32
and the starts of its vertical lines match. -/
theorem drawsOutline_iff (hs : OnScreen width height x y w h) :
    DrawsOutline width height x y w h ↔ StartsMatch width height x y w h :=
  drawsOutline_iff_written.trans
    ⟨startsMatch_of_written hs,fun hm word => written_of_startsMatch hs hm word⟩

end Outlines

/-- A rectangle on a square framebuffer. -/
theorem drawsOutline_square : DrawsOutline 640 640 10 20 30 40 :=
  (drawsOutline_iff ⟨by decide,by decide,by decide,by decide,by decide⟩).mpr (by decide)

/-- On a screen of 640 times 480 words the left line of a rectangle in row 1
begins in row 0. -/
theorem not_always_drawsOutline : ¬∀ width height x y w h : ℕ,
    OnScreen width height x y w h → DrawsOutline width height x y w h := by
  intro hall
  have hdraws := hall 640 480 0 1 1 1 ⟨by decide,by decide,by decide,by decide,by decide⟩
  have hwritten : Written 640 480 0 1 1 1 480 :=
    Or.inr (Or.inl ⟨0,by decide,by decide⟩)
  have hon := (drawsOutline_iff_written.mp hdraws 480).mp hwritten
  rcases hon with ⟨i,hl,hr,hword⟩|⟨j,hl,hr,hword⟩ <;> omega

end WorkbenchOS.FramebufferLines
