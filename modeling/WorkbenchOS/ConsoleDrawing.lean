import WorkbenchOS.LibStd
import WorkbenchOS.FrameBitmap
import WorkbenchOS.ConsoleFont

/-!
# The pixels of the boot console

The cursor is a pair of `int`, the size of the framebuffer a pair of `u64`.
The comparisons convert the sum with the cursor to `u64`, the scroll converts
the height back to `int`. `write_character` tests for the right edge and for
the bottom before it draws, `println` moves to the next line without a test.
-/

namespace WorkbenchOS.ConsoleDrawing

open LibStd TransitionRuns ConsoleFont FrameBitmap
open BootConsole (Glyph newline)

/-- What `Console` keeps apart from its buffers. -/
structure Console where
  /-- `m_cursor_x`. -/
  cursorX : ℤ
  /-- `m_cursor_y`. -/
  cursorY : ℤ
  /-- `m_framebuffer_width`. -/
  width : ℕ
  /-- `m_framebuffer_height`. -/
  height : ℕ
  deriving DecidableEq

/-- `Console::initialise`. -/
def initialise (width height : ℕ) : Console := ⟨0,0,width,height⟩

/-- The result of a call: the console and the pixels it put, in order. -/
structure Drawn where
  /-- The console afterwards. -/
  console : Console
  /-- The arguments of `put_pixel`. -/
  pixels : List (ℤ×ℤ)

/-- `offset` of `put_pixel`. -/
def pixelOffset (width : ℕ) (pixel : ℤ×ℤ) : ℕ :=
  u64 (toU64 pixel.1+u64 (width*toU64 pixel.2))

/-- The cursor at the start of the next line. -/
def nextLine (console : Console) : Console :=
  {console with cursorX := 0,cursorY := int32 (console.cursorY+16)}

/-- The test for the right edge. -/
def Wraps (console : Console) (glyph : Glyph) : Prop :=
  console.width<toU64 (int32 (console.cursorX+glyph.width))

instance (console : Console) (glyph : Glyph) : Decidable (Wraps console glyph) :=
  inferInstanceAs (Decidable (_<_))

/-- The wrap of `write_character`. -/
def wrapLine (console : Console) (glyph : Glyph) : Console :=
  if Wraps console glyph then nextLine console else console

/-- The test for the bottom. A scroll moves the pixels and leaves the cursor on
the last line. -/
def scrollAtBottom (console : Console) : Console :=
  if console.height<toU64 (int32 (console.cursorY+16)) then
    {console with cursorY := int32 (u64Sub console.height 16)}
  else console

/-- The two drawing loops of `write_character`. -/
def drawGlyph (console : Console) (glyph : Glyph) : List (ℤ×ℤ) :=
  (List.range 16).flatMap fun y =>
    ((List.range glyph.width).filter fun x => (glyph.row y).getLsbD x).map fun x : ℕ =>
      (int32 (console.cursorX+x),int32 (console.cursorY+y))

/-- `Console::write_character`; nothing for a character that has no glyph. -/
def writeCharacter (console : Console) (c : UInt8) : Option Drawn :=
  if c=newline then some ⟨scrollAtBottom (nextLine console),[]⟩
  else fontBasic[c.toNat]?.map fun glyph =>
    let placed := scrollAtBottom (wrapLine console glyph)
    ⟨{placed with cursorX := int32 (placed.cursorX+glyph.width)},drawGlyph placed glyph⟩

/-- What the calls do to the cursor. -/
inductive Operation where
  /-- `write_character`. -/
  | writeCharacter (c : UInt8)
  /-- The end of `println`. -/
  | endLine

/-- One operation. -/
def perform (console : Console) : Operation→Option Drawn
  | .writeCharacter c => writeCharacter console c
  | .endLine => some ⟨nextLine console,[]⟩

/-- One operation as a step of the console. -/
def consoleStep (console : Console) (operation : Operation) : Option Console :=
  (perform console operation).map Drawn.console

/-- The calls that write text. -/
inductive ConsoleCall where
  /-- `write_character`. -/
  | writeCharacter (c : UInt8)
  /-- `print`. -/
  | print (message : List UInt8)
  /-- `println` of a C string. -/
  | println (message : List UInt8)
  /-- `println` of a string view. -/
  | printlnView (message : List UInt8)

/-- The characters a call writes: a C string ends at its NUL, the counter over
a string view is an `int`. -/
def ConsoleCall.characters : ConsoleCall→List UInt8
  | .writeCharacter c => [c]
  | .print message => message.takeWhile (·≠0)
  | .println message => message.takeWhile (·≠0)
  | .printlnView message => message.take intIterations

/-- The operations of a call. -/
def ConsoleCall.operations (call : ConsoleCall) : List Operation :=
  match call with
  | .writeCharacter _ => call.characters.map .writeCharacter
  | .print _ => call.characters.map .writeCharacter
  | .println _ => call.characters.map .writeCharacter++[.endLine]
  | .printlnView _ => call.characters.map .writeCharacter++[.endLine]

/-- The sums of type `int` that an operation forms from the cursor before it
draws. -/
def cursorSums (console : Console) : Operation→List ℤ
  | .endLine => [console.cursorY+16]
  | .writeCharacter c =>
    if c=newline then [console.cursorY+16,(nextLine console).cursorY+16]
    else match fontBasic[c.toNat]? with
      | none => []
      | some glyph =>
        [console.cursorX+glyph.width,(wrapLine console glyph).cursorY+16]++
          if Wraps console glyph then [console.cursorY+16] else []

/-- No sum with the cursor leaves the range of `int`. -/
def NoOverflow (console : Console) (operation : Operation) : Prop :=
  ∀ sum∈cursorSums console operation,sum<2^31

instance (console : Console) (operation : Operation) :
    Decidable (NoOverflow console operation) :=
  inferInstanceAs (Decidable (∀ sum∈cursorSums console operation,sum<2^31))

/-- A pixel on the screen. -/
structure Visible (width height : ℕ) (pixel : ℤ×ℤ) : Prop where
  /-- Right of the left edge. -/
  left : 0≤pixel.1
  /-- Left of the right edge. -/
  right : pixel.1<width
  /-- Below the top. -/
  top : 0≤pixel.2
  /-- Above the bottom. -/
  bottom : pixel.2<height
  /-- Inside the buffer. -/
  offset : pixelOffset width pixel<width*height

/-- The operation returns, every pixel it puts is on the screen, and so is the
column of the cursor afterwards. -/
def OnScreen (console : Console) (operation : Operation) : Prop :=
  ∃ drawn, perform console operation=some drawn ∧
    (∀ pixel∈drawn.pixels,Visible console.width console.height pixel) ∧
    0≤drawn.console.cursorX ∧ drawn.console.cursorX≤console.width

/-- The character has a glyph. -/
def Operation.HasGlyph : Operation→Prop
  | .writeCharacter c => c.toNat<127
  | .endLine => True

section Cursor

variable {console : Console} {glyph : Glyph}

/-- The comparison of a sum with a dimension is the comparison of the
numbers. -/
theorem lt_toU64_iff (bound : ℕ) {sum : ℤ} (hl : 0≤ sum) (hu : sum<2^31) :
    bound<toU64 (int32 sum)↔(bound : ℤ)<sum := by
  rw [int32_of_range (by omega) hu,←Int.ofNat_lt,toU64_of_nonneg hl (by omega)]

/-- Between two operations the column is on the screen or just right of it, the
row is any that an `int` can hold. -/
structure Between (width height : ℕ) (console : Console) : Prop where
  /-- The width does not change. -/
  width_eq : console.width=width
  /-- The height does not change. -/
  height_eq : console.height=height
  /-- Right of the left edge. -/
  left : 0≤console.cursorX
  /-- The column is on the screen. -/
  right : console.cursorX≤width
  /-- Below the top. -/
  top : 0≤console.cursorY
  /-- The column is an `int`. -/
  column : console.cursorX<2^31
  /-- The row is an `int`. -/
  row : console.cursorY<2^31

/-- A line that starts inside the range of `int`. -/
theorem nextLine_row (h : 0≤console.cursorY) (hs : console.cursorY+16<2^31) :
    (nextLine console).cursorY=console.cursorY+16 :=
  int32_of_range (by omega) hs

/-- The next line, wherever it is, is a place between two operations. -/
theorem nextLine_between {width height : ℕ} (h : Between width height console)
    (hs : console.cursorY+16<2^31) : Between width height (nextLine console) where
  width_eq := h.width_eq
  height_eq := h.height_eq
  left := le_rfl
  right := Int.natCast_nonneg width
  top := by
    have htop := h.top
    rw [nextLine_row htop hs]
    omega
  column := by
    show (0 : ℤ)<2^31
    decide
  row := by
    rw [nextLine_row h.top hs]
    omega

/-- A glyph that fits the screen fits the line after the test for the right
edge, in a column that is not behind the one before. -/
theorem wrapLine_fits {width height : ℕ} (h : Between width height console)
    (hg : glyph.width≤width) (hx : console.cursorX+glyph.width<2^31)
    (hy : Wraps console glyph → console.cursorY+16<2^31) :
    Between width height (wrapLine console glyph) ∧
      (wrapLine console glyph).cursorX≤console.cursorX ∧
      (wrapLine console glyph).cursorX+glyph.width≤width := by
  have hleft := h.left
  have hwraps := lt_toU64_iff console.width
    (show 0≤console.cursorX+glyph.width by omega) hx
  rw [wrapLine]
  by_cases hw : Wraps console glyph
  · rw [if_pos hw]
    have hzero : (nextLine console).cursorX=0 := rfl
    rw [hzero]
    exact ⟨nextLine_between h (hy hw),hleft,by omega⟩
  · rw [if_neg hw]
    have hfits := mt hwraps.mpr hw
    rw [h.width_eq] at hfits
    exact ⟨h,le_rfl,by omega⟩

/-- After the test for the bottom a whole line is on the screen, in the same
column and not below the row before. -/
theorem scrollAtBottom_fits {width height : ℕ} (h : Between width height console)
    (hh : 16≤height) (hs : console.cursorY+16<2^31) :
    Between width height (scrollAtBottom console) ∧
      (scrollAtBottom console).cursorX=console.cursorX ∧
      (scrollAtBottom console).cursorY≤console.cursorY ∧
      (scrollAtBottom console).cursorY+16≤height := by
  have htop := h.top
  have hbelow := lt_toU64_iff console.height
    (show 0≤console.cursorY+16 by omega) hs
  have hheight := h.height_eq
  rw [scrollAtBottom]
  by_cases hb : console.height<toU64 (int32 (console.cursorY+16))
  · rw [if_pos hb]
    have hlast : int32 (u64Sub console.height 16)=(height : ℤ)-16 := by
      have hlt := hbelow.mp hb
      have hsub : u64Sub console.height 16=height-16 := by
        rw [u64Sub,u64,hheight]
        omega
      rw [hsub,int32_of_range (by omega) (by omega)]
      omega
    have hlt := hbelow.mp hb
    dsimp only
    rw [hlast]
    exact ⟨{h with
      top := by dsimp only; omega
      row := by dsimp only; omega},rfl,by omega,by omega⟩
  · rw [if_neg hb]
    have hfits := mt hbelow.mpr hb
    exact ⟨h,rfl,le_rfl,by omega⟩

/-- Every pixel of a glyph that fits is on the screen. -/
theorem drawGlyph_visible {width height : ℕ} (h : Between width height console)
    (hx : console.cursorX+glyph.width≤width) (hy : console.cursorY+16≤height)
    (hc : console.cursorX+glyph.width<2^31) (hr : console.cursorY+16<2^31) :
    ∀ pixel∈drawGlyph console glyph,Visible width height pixel := by
  have hleft := h.left
  have htop := h.top
  intro pixel hp
  obtain ⟨y,hy16,hcolumn⟩ := List.mem_flatMap.mp hp
  obtain ⟨x,hset,rfl⟩ := List.mem_map.mp hcolumn
  have hxw : x<glyph.width := List.mem_range.mp (List.mem_of_mem_filter hset)
  have hyr : y<16 := List.mem_range.mp hy16
  rw [@int32_of_range (console.cursorX+x) (by omega) (by omega),
    @int32_of_range (console.cursorY+y) (by omega) (by omega)]
  obtain ⟨column,hcx⟩ := Int.eq_ofNat_of_zero_le (show 0≤console.cursorX+(x : ℤ) by omega)
  obtain ⟨row,hcy⟩ := Int.eq_ofNat_of_zero_le (show 0≤console.cursorY+(y : ℤ) by omega)
  rw [hcx,hcy]
  have hcolumn : column<width := by omega
  have hrow : row<height := by omega
  refine ⟨Int.natCast_nonneg _,Int.ofNat_lt.mpr hcolumn,Int.natCast_nonneg _,
    Int.ofNat_lt.mpr hrow,?_⟩
  -- the product of the row cannot wrap upwards, and the last row ends the buffer
  have htoX : toU64 column=column :=
    Int.ofNat_inj.mp (toU64_of_nonneg (Int.natCast_nonneg _) (by omega))
  have htoY : toU64 row=row :=
    Int.ofNat_inj.mp (toU64_of_nonneg (Int.natCast_nonneg _) (by omega))
  rw [pixelOffset,htoX,htoY]
  calc u64 (column+u64 (width*row))
      ≤ column+u64 (width*row) := Nat.mod_le _ _
    _ ≤ column+width*row := Nat.add_le_add_left (Nat.mod_le _ _) _
    _ < width*(row+1) := by
      rw [Nat.mul_succ]
      omega
    _ ≤ width*height := Nat.mul_le_mul_left _ hrow

/-- The sums formed for a character with a glyph. -/
theorem NoOverflow.glyph_sums {c : UInt8} (ho : NoOverflow console (.writeCharacter c))
    (hn : c≠newline) (hg : fontBasic[c.toNat]?=some glyph) :
    console.cursorX+glyph.width<2^31 ∧ (wrapLine console glyph).cursorY+16<2^31 ∧
      (Wraps console glyph → console.cursorY+16<2^31) := by
  rw [NoOverflow,cursorSums,if_neg hn,hg] at ho
  obtain ⟨hsums,hwrap⟩ := List.forall_mem_append.mp ho
  obtain ⟨hsum,hrest⟩ := List.forall_mem_cons.mp hsums
  refine ⟨hsum,hrest _ (List.mem_singleton_self _),?_⟩
  intro hwraps
  rw [if_pos hwraps] at hwrap
  exact hwrap _ (List.mem_singleton_self _)

/-- Where the glyph is drawn it fits the screen. -/
theorem glyph_placed {width height : ℕ} (h : Between width height console) (hh : 16≤height)
    (hg : glyph.width≤width) (hx : console.cursorX+glyph.width<2^31)
    (hy : (wrapLine console glyph).cursorY+16<2^31)
    (hwrap : Wraps console glyph → console.cursorY+16<2^31) :
    Between width height (scrollAtBottom (wrapLine console glyph)) ∧
      (scrollAtBottom (wrapLine console glyph)).cursorX+glyph.width≤width ∧
      (scrollAtBottom (wrapLine console glyph)).cursorX+glyph.width<2^31 ∧
      (scrollAtBottom (wrapLine console glyph)).cursorY+16≤height ∧
      (scrollAtBottom (wrapLine console glyph)).cursorY+16<2^31 := by
  obtain ⟨hwrapped,hbehind,hfits⟩ := wrapLine_fits h hg hx hwrap
  obtain ⟨hplaced,hcolumn,habove,hline⟩ := scrollAtBottom_fits hwrapped hh hy
  exact ⟨hplaced,by omega,by omega,hline,by omega⟩

/-- One character: if no sum leaves the range of `int`, everything drawn is on
the screen and so is the column afterwards. -/
theorem writeCharacter_onScreen {width height : ℕ} (h : Between width height console)
    (hw : 12≤width) (hh : 16≤height) {c : UInt8} (hc : c.toNat<127)
    (ho : NoOverflow console (.writeCharacter c)) :
    ∃ drawn, writeCharacter console c=some drawn ∧
      (∀ pixel∈drawn.pixels,Visible width height pixel) ∧ Between width height drawn.console := by
  rw [writeCharacter]
  by_cases hn : c=newline
  · rw [NoOverflow,cursorSums,if_pos hn,List.forall_mem_cons,List.forall_mem_singleton] at ho
    have hline := nextLine_between h ho.1
    obtain ⟨hplaced,-⟩ := scrollAtBottom_fits hline hh ho.2
    exact ⟨_,if_pos hn,fun _ hp => absurd hp List.not_mem_nil,hplaced⟩
  · obtain ⟨glyph,hglyph,h12⟩ := fontBasic_glyph hc
    obtain ⟨hx,hy,hwrap⟩ := ho.glyph_sums hn hglyph
    obtain ⟨hplaced,hright,hcolumn,hbottom,hrow⟩ :=
      glyph_placed h hh (h12.trans hw) hx hy hwrap
    have hleft := hplaced.left
    refine ⟨_,by rw [if_neg hn,hglyph,Option.map_some],
      drawGlyph_visible hplaced hright hbottom hcolumn hrow,?_⟩
    dsimp only
    rw [int32_of_range (by omega) hcolumn]
    exact {hplaced with
      left := by dsimp only; omega
      right := hright
      column := hcolumn}

/-- One operation on a screen that holds a glyph. -/
theorem perform_onScreen {width height : ℕ} (h : Between width height console)
    (hw : 12≤width) (hh : 16≤height) {operation : Operation} (hg : operation.HasGlyph)
    (ho : NoOverflow console operation) :
    ∃ drawn, perform console operation=some drawn ∧
      (∀ pixel∈drawn.pixels,Visible width height pixel) ∧ Between width height drawn.console := by
  cases operation with
  | writeCharacter c => exact writeCharacter_onScreen h hw hh hg ho
  | endLine =>
    have hline := nextLine_between h (ho _ (List.mem_singleton_self _))
    exact ⟨_,rfl,fun _ hp => absurd hp List.not_mem_nil,hline⟩

/-- The step of an operation keeps the cursor between two operations. -/
theorem consoleStep_between {width height : ℕ} (hw : 12≤width) (hh : 16≤height)
    (console : Console) (operation : Operation) (h : Between width height console)
    (hc : operation.HasGlyph ∧ NoOverflow console operation) :
    ∃ next, consoleStep console operation=some next ∧ Between width height next := by
  obtain ⟨drawn,hd,-,hb⟩ := perform_onScreen h hw hh hc.1 hc.2
  exact ⟨drawn.console,by rw [consoleStep,hd,Option.map_some],hb⟩

end Cursor

/-- The operations of calls whose characters have a glyph. -/
theorem operations_hasGlyph {calls : List ConsoleCall}
    (hg : ∀ call∈calls,∀ c∈call.characters,c.toNat<127) :
    ∀ operation∈calls.flatMap ConsoleCall.operations,operation.HasGlyph := by
  intro operation ho
  obtain ⟨call,hcall,hop⟩ := List.mem_flatMap.mp ho
  have hwritten : ∀ written∈call.characters.map Operation.writeCharacter,written.HasGlyph := by
    intro written hm
    obtain ⟨c,hc,rfl⟩ := List.mem_map.mp hm
    exact hg call hcall c hc
  have hline : ∀ last∈call.characters.map Operation.writeCharacter++[.endLine],
      last.HasGlyph := by
    rw [List.forall_mem_append,List.forall_mem_singleton]
    exact ⟨hwritten,trivial⟩
  cases call with
  | writeCharacter c => exact hwritten operation hop
  | print message => exact hwritten operation hop
  | println message => exact hline operation hop
  | printlnView message => exact hline operation hop

/-- The table as the font of `BootConsole`, whose cursor is a pair of natural
numbers. -/
def bootFont : BootConsole.Font := fun c => fontBasic[c.toNat]?.getD (blank 0)

/-- The cursor and the size are those of the other console. -/
structure Represents (console : Console) (boot : BootConsole.Console) : Prop where
  /-- The column. -/
  cursorX_eq : console.cursorX=boot.cursorX
  /-- The row. -/
  cursorY_eq : console.cursorY=boot.cursorY
  /-- The width. -/
  width_eq : console.width=boot.width
  /-- The height. -/
  height_eq : console.height=boot.height

section Represents

variable {console : Console} {boot : BootConsole.Console}

/-- The next line of both. -/
theorem nextLine_represents (h : Represents console boot) (hs : console.cursorY+16<2^31) :
    Represents (nextLine console) {boot with cursorX := 0,cursorY := boot.cursorY+16} where
  cursorX_eq := rfl
  cursorY_eq := by
    have hrow := h.cursorY_eq
    rw [nextLine_row (by omega) hs,hrow]
    exact (Int.natCast_add _ _).symm
  width_eq := h.width_eq
  height_eq := h.height_eq

/-- The test for the bottom of both. -/
theorem scrollAtBottom_represents (h : Represents console boot) (hh : 16≤console.height)
    (hs : console.cursorY+16<2^31) :
    Represents (scrollAtBottom console) (BootConsole.scrollAtBottom boot) := by
  have hrow := h.cursorY_eq
  have hheight := h.height_eq
  have hbelow := lt_toU64_iff console.height
    (show 0≤console.cursorY+16 by omega) hs
  rw [scrollAtBottom,BootConsole.scrollAtBottom]
  by_cases hb : BootConsole.BelowScreen boot
  · have hlt : boot.height<boot.cursorY+16 := hb
    have hsub : u64Sub console.height 16=boot.height-16 := by
      rw [u64Sub,u64]
      omega
    rw [if_pos hb,if_pos (hbelow.mpr (by omega)),hsub,int32_of_range (by omega) (by omega)]
    exact ⟨h.cursorX_eq,rfl,h.width_eq,hheight⟩
  · have hle : ¬boot.height<boot.cursorY+16 := hb
    rw [if_neg hb,if_neg (mt hbelow.mp (by omega))]
    exact h

/-- The test for the right edge of both. -/
theorem wrapLine_represents (h : Represents console boot) {c : UInt8} {glyph : Glyph}
    (hn : c≠newline) (hg : fontBasic[c.toNat]?=some glyph)
    (hx : console.cursorX+glyph.width<2^31)
    (hy : Wraps console glyph → console.cursorY+16<2^31) :
    Represents (wrapLine console glyph) (BootConsole.advance bootFont boot c) := by
  have hcolumn := h.cursorX_eq
  have hwidth := h.width_eq
  have hwraps := lt_toU64_iff console.width
    (show 0≤console.cursorX+glyph.width by omega) hx
  have hfont : bootFont c=glyph := by
    rw [bootFont,hg]
    rfl
  rw [wrapLine,BootConsole.advance,hfont]
  by_cases hw : Wraps console glyph
  · have hlt := hwraps.mp hw
    rw [if_pos hw,if_pos (Or.inr (by omega))]
    exact nextLine_represents h (hy hw)
  · have hle := mt hwraps.mpr hw
    rw [if_neg hw,if_neg (not_or.mpr ⟨hn,by omega⟩)]
    exact h

end Represents

/-- A character moves the `int` cursor as it moves the cursor of
`BootConsole`. -/
theorem writeCharacter_represents {width height : ℕ} {console : Console}
    {boot : BootConsole.Console} (h : Between width height console) (hr : Represents console boot)
    (hw : 12≤width) (hh : 16≤height) {c : UInt8} (hc : c.toNat<127)
    (ho : NoOverflow console (.writeCharacter c)) :
    ∃ drawn, writeCharacter console c=some drawn ∧
      Represents drawn.console (BootConsole.writeCharacter bootFont boot c) := by
  rw [writeCharacter,BootConsole.writeCharacter]
  dsimp only
  by_cases hn : c=newline
  · rw [NoOverflow,cursorSums,if_pos hn,List.forall_mem_cons,List.forall_mem_singleton] at ho
    have hline := nextLine_represents hr ho.1
    refine ⟨_,if_pos hn,?_⟩
    rw [if_pos hn,BootConsole.advance,if_pos (Or.inl hn)]
    exact scrollAtBottom_represents hline (hh.trans_eq h.height_eq.symm) ho.2
  · obtain ⟨glyph,hglyph,h12⟩ := fontBasic_glyph hc
    obtain ⟨hx,hy,hwrap⟩ := ho.glyph_sums hn hglyph
    obtain ⟨hplaced,-,hcolumn,-⟩ := glyph_placed h hh (h12.trans hw) hx hy hwrap
    have hleft := hplaced.left
    have hwrapped := wrapLine_represents hr hn hglyph hx hwrap
    have hfits := (wrapLine_fits h (h12.trans hw) hx hwrap).1
    have hscrolled := scrollAtBottom_represents hwrapped (hh.trans_eq hfits.height_eq.symm) hy
    have hfont : bootFont c=glyph := by
      rw [bootFont,hglyph]
      rfl
    obtain ⟨buffer,hbuffer⟩ := BootConsole.drawGlyph_buffer
      (BootConsole.scrollAtBottom (BootConsole.advance bootFont boot c)) glyph
    refine ⟨_,by rw [if_neg hn,hglyph,Option.map_some],?_⟩
    dsimp only
    rw [if_neg hn,hfont,hbuffer,int32_of_range (by omega) hcolumn,hscrolled.cursorX_eq]
    exact {hscrolled with cursorX_eq := (Int.natCast_add _ _).symm}

/-- On a framebuffer that holds the widest glyph, calls with characters that
have a glyph put every pixel on the screen and leave the column on it, as long
as no sum with the cursor leaves the range of `int`. -/
theorem calls_draw_on_screen {width height : ℕ} (hw : 12≤width) (hh : 16≤height)
    (calls : List ConsoleCall) (hg : ∀ call∈calls,∀ c∈call.characters,c.toNat<127)
    (ho : Each consoleStep NoOverflow (initialise width height)
      (calls.flatMap ConsoleCall.operations)) :
    Each consoleStep OnScreen (initialise width height)
      (calls.flatMap ConsoleCall.operations) := by
  have hzero : (0 : ℤ)<2^31 := by decide
  have hstart : Between width height (initialise width height) :=
    ⟨rfl,rfl,le_rfl,Int.natCast_nonneg width,le_rfl,hzero,hzero⟩
  have hglyphs : Each consoleStep (fun _ operation => operation.HasGlyph)
      (initialise width height) (calls.flatMap ConsoleCall.operations) :=
    each_of_forall (operations_hasGlyph hg) _
  refine each_of_each (consoleStep_between hw hh) ?_ hstart (hglyphs.and ho)
  intro console operation hb hc
  obtain ⟨drawn,hd,hvisible,hafter⟩ := perform_onScreen hb hw hh hc.1 hc.2
  rw [OnScreen,hb.width_eq,hb.height_eq]
  exact ⟨drawn,hd,hvisible,hafter.left,hafter.right⟩

/-- Three calls on a screen of two lines: the third letter wraps, the last line
is below the screen when the letter behind it is written. -/
theorem calls_draw_on_screen_sample :
    Each consoleStep OnScreen (initialise 20 32)
      ([.print [0x41,0x42,0x43],.println [0x4d,0],.printlnView [0x0a],.writeCharacter 0x57].flatMap
        ConsoleCall.operations) :=
  calls_draw_on_screen (by decide) (by decide) _ (by decide +kernel) (by decide +kernel)

end WorkbenchOS.ConsoleDrawing
