import WorkbenchOS.TransitionRuns

/-!
# The boot console

Text is drawn into a double buffer that `flip_buffer_screen` copies to the
framebuffer. Scrolling moves rows up in the double buffer, but takes them from
the framebuffer. `debug_putchar` flips after a newline has been handled, so
whatever was drawn since the flip before is not in the framebuffer when the
newline scrolls.
-/

namespace WorkbenchOS.BootConsole

open TransitionRuns

/-- `Glyph`: sixteen rows of bits. -/
structure Glyph where
  /-- The rows. -/
  row : ℕ→BitVec 16
  /-- The columns. -/
  width : ℕ

/-- `font_basic`, by character. -/
abbrev Font := UInt8→Glyph

/-- The fields of `Console` and the two buffers, by pixel. -/
structure Console where
  /-- `m_cursor_x`. -/
  cursorX : ℕ
  /-- `m_cursor_y`. -/
  cursorY : ℕ
  /-- What `m_framebuffer` points to. -/
  framebuffer : ℕ→BitVec 32
  /-- What `m_double_buffer` points to. -/
  doubleBuffer : ℕ→BitVec 32
  /-- `m_framebuffer_width`. -/
  width : ℕ
  /-- `m_framebuffer_height`. -/
  height : ℕ

/-- Four bytes of 0x77. -/
def background : BitVec 32 := 0x77777777#32

/-- `Console::initialise` of a console that was not used before. -/
def initialise (framebuffer : ℕ→BitVec 32) (width height : ℕ) : Console :=
  ⟨0,0,framebuffer,fun _ => background,width,height⟩

/-- `Console::put_pixel`. -/
def putPixel (console : Console) (x y : ℕ) (colour : BitVec 32) : Console :=
  {console with
    doubleBuffer := Function.update console.doubleBuffer (x+console.width*y) colour}

/-- The two drawing loops of `write_character`. -/
def drawGlyph (console : Console) (glyph : Glyph) : Console :=
  (List.range 16).foldl (fun console y => (List.range glyph.width).foldl (fun console x =>
    if (glyph.row y).getLsbD x then putPixel console (console.cursorX+x) (console.cursorY+y) 0#32
    else console) console) console

/-- `Console::scroll`: copy from the framebuffer, then clear. -/
def scroll (console : Console) (lines : ℕ) : Console :=
  let areaToScroll := console.width*(console.height-lines)
  let newArea := lines*console.width
  let endOfFramebuffer := console.width*console.height
  {console with doubleBuffer := fun i =>
    if endOfFramebuffer-newArea≤ i ∧ i<endOfFramebuffer then background
    else if i<areaToScroll then console.framebuffer (newArea+i)
    else console.doubleBuffer i}

/-- `Console::flip_buffer_screen`. -/
def flipBufferScreen (console : Console) : Console :=
  {console with framebuffer := fun i =>
    if i<console.width*console.height then console.doubleBuffer i else console.framebuffer i}

/-- `'\n'`. -/
def newline : UInt8 := 10

/-- The cursor of `write_character` before the height is tested: on a newline
it moves to the next line, else only when the glyph does not fit. -/
def advance (font : Font) (console : Console) (c : UInt8) : Console :=
  if c=newline ∨ console.width<console.cursorX+(font c).width then
    {console with cursorX := 0,cursorY := console.cursorY+16}
  else console

/-- A line below the screen. -/
def BelowScreen (console : Console) : Prop := console.height<console.cursorY+16

instance (console : Console) : Decidable (BelowScreen console) :=
  inferInstanceAs (Decidable (_<_))

/-- The console on which `scroll` is called: the cursor is back on the last
line. -/
def atLastLine (console : Console) : Console := {console with cursorY := console.height-16}

/-- The test for the height and the scroll, the same on both paths of
`write_character`. -/
def scrollAtBottom (console : Console) : Console :=
  if BelowScreen console then scroll (atLastLine console) 16 else console

/-- `Console::write_character`. -/
def writeCharacter (font : Font) (console : Console) (c : UInt8) : Console :=
  let placed := scrollAtBottom (advance font console c)
  if c=newline then placed
  else
    let drawn := drawGlyph placed (font c)
    {drawn with cursorX := drawn.cursorX+(font c).width}

/-- `debug_putchar`; the port write to the debug console is left out. -/
def debugPutchar (font : Font) (console : Console) (c : UInt8) : Console :=
  let written := writeCharacter font console c
  if c=newline then flipBufferScreen written else written

/-- The two ways text reaches the console. -/
inductive ConsoleAction where
  /-- `debug_putchar`. -/
  | debugPutchar (c : UInt8)
  /-- `Console::write_character`. -/
  | writeCharacter (c : UInt8)
  deriving DecidableEq

/-- The character written. -/
def ConsoleAction.character : ConsoleAction→UInt8
  | .debugPutchar c => c
  | .writeCharacter c => c

/-- One call. -/
def consoleStep (font : Font) (console : Console) : ConsoleAction → Option Console
  | .debugPutchar c => some (debugPutchar font console c)
  | .writeCharacter c => some (writeCharacter font console c)

/-- The rows of one buffer moved up by sixteen into another, with a cleared
end. -/
def MovedUp (width height : ℕ) (before after : ℕ→BitVec 32) : Prop :=
  ∀ i, i<width*height → after i=
    if i<width*(height-16) then before (i+16*width) else background

/-- If the call scrolls, the double buffer is moved up by the scroll. -/
def ScrollKeepsText (font : Font) (console : Console) (action : ConsoleAction) : Prop :=
  let before := advance font console action.character
  BelowScreen before →
    MovedUp console.width console.height (atLastLine before).doubleBuffer
      (scroll (atLastLine before) 16).doubleBuffer

/-- If the call scrolls, the two buffers agree below the top sixteen rows. -/
def FlippedBeforeScroll (font : Font) (console : Console) (action : ConsoleAction) : Prop :=
  BelowScreen (advance font console action.character) →
    ∀ row, row<console.height → 16≤row → ∀ column, column<console.width →
      console.framebuffer (column+console.width*row)=
        console.doubleBuffer (column+console.width*row)

instance (font : Font) (console : Console) (action : ConsoleAction) :
    Decidable (FlippedBeforeScroll font console action) :=
  inferInstanceAs (Decidable (BelowScreen (advance font console action.character) →
    ∀ row, row<console.height → 16≤row → ∀ column, column<console.width →
      console.framebuffer (column+console.width*row)=
        console.doubleBuffer (column+console.width*row)))

section Steps

variable {font : Font} {console : Console}

/-- Only the cursor moves before the height is tested. -/
theorem advance_buffers (font : Font) (console : Console) (c : UInt8) :
    (advance font console c).framebuffer=console.framebuffer ∧
    (advance font console c).doubleBuffer=console.doubleBuffer ∧
    (advance font console c).width=console.width ∧
    (advance font console c).height=console.height := by
  rw [advance]
  split
  · exact ⟨rfl,rfl,rfl,rfl⟩
  · exact ⟨rfl,rfl,rfl,rfl⟩

/-- A pixel by its row and column. -/
theorem pixel_place {width height i : ℕ} (hi : i<width*height) :
    i%width<width ∧ i/width<height ∧ i=i%width+width*(i/width) := by
  have hw : 0<width := by
    by_contra hw
    have hz : width=0 := by omega
    rw [hz,Nat.zero_mul] at hi
    omega
  exact ⟨Nat.mod_lt i hw,Nat.div_lt_of_lt_mul hi,(Nat.mod_add_div i width).symm⟩

/-- A scroll moves the double buffer up precisely when the framebuffer agrees
with it below the top sixteen rows. -/
theorem scroll_movedUp_iff (console : Console) (hh : 16≤console.height) :
    MovedUp console.width console.height console.doubleBuffer (scroll console 16).doubleBuffer↔
      ∀ row, row<console.height → 16≤row → ∀ column, column<console.width →
        console.framebuffer (column+console.width*row)=
          console.doubleBuffer (column+console.width*row) := by
  have harea : console.width*console.height-16*console.width=
      console.width*(console.height-16) := by
    rw [Nat.mul_sub,Nat.mul_comm 16]
  have hle : console.width*(console.height-16)≤console.width*console.height :=
    Nat.mul_le_mul_left _ (Nat.sub_le _ _)
  have hscroll : ∀ i, i<console.width*console.height → (scroll console 16).doubleBuffer i=
      if i<console.width*(console.height-16) then console.framebuffer (i+16*console.width)
      else background := by
    intro i hi
    simp only [scroll,harea]
    by_cases hmoved : i<console.width*(console.height-16)
    · rw [if_neg (by omega),if_pos hmoved,if_pos hmoved,Nat.add_comm]
    · rw [if_pos ⟨by omega,hi⟩,if_neg hmoved]
  constructor
  · intro h row hhigh hlow column hcolumn
    -- the pixel sixteen rows above is where this one is copied to
    have hplace : column+console.width*(row-16)+16*console.width=column+console.width*row := by
      rw [Nat.add_assoc,Nat.mul_comm 16,←Nat.mul_add,Nat.sub_add_cancel hlow]
    have hmoved : column+console.width*(row-16)<console.width*(console.height-16) := by
      have hrow : console.width*(row-16+1)≤console.width*(console.height-16) :=
        Nat.mul_le_mul_left _ (by omega)
      rw [Nat.mul_add,Nat.mul_one] at hrow
      omega
    have hi := lt_of_lt_of_le hmoved hle
    have hpixel := h _ hi
    rwa [hscroll _ hi,if_pos hmoved,if_pos hmoved,hplace] at hpixel
  · intro h i hi
    rw [hscroll i hi]
    by_cases hmoved : i<console.width*(console.height-16)
    · rw [if_pos hmoved,if_pos hmoved]
      obtain ⟨hcolumn,hrow,hplace⟩ := pixel_place hmoved
      have hnext : i+16*console.width=
          i%console.width+console.width*(i/console.width+16) := by
        rw [Nat.mul_add,←Nat.add_assoc,←hplace,Nat.mul_comm 16]
      rw [hnext]
      exact h _ (Nat.add_lt_of_lt_sub hrow) (Nat.le_add_left 16 _) _ hcolumn
    · rw [if_neg hmoved,if_neg hmoved]

/-- One call keeps the text it scrolls precisely when the buffers agree. -/
theorem scrollKeepsText_iff (hh : 16≤console.height) (action : ConsoleAction) :
    ScrollKeepsText font console action↔FlippedBeforeScroll font console action := by
  obtain ⟨hframe,hdouble,hwidth,hheight⟩ := advance_buffers font console action.character
  have hscroll := scroll_movedUp_iff (atLastLine (advance font console action.character))
    (hheight ▸ hh)
  simp only [atLastLine,hframe,hdouble,hwidth,hheight] at hscroll
  simp only [ScrollKeepsText,FlippedBeforeScroll,atLastLine,hframe,hdouble,hwidth,hheight]
  exact imp_congr_right (fun _ => hscroll)

/-- Drawing a glyph changes the double buffer only. -/
theorem drawGlyph_buffer (console : Console) (glyph : Glyph) :
    ∃ buffer, drawGlyph console glyph={console with doubleBuffer := buffer} := by
  have hpixels : ∀ (y : ℕ) (columns : List ℕ) (console : Console), ∃ buffer,
      columns.foldl (fun console x => if (glyph.row y).getLsbD x then
        putPixel console (console.cursorX+x) (console.cursorY+y) 0#32
        else console) console={console with doubleBuffer := buffer} := by
    intro y columns
    induction columns with
    | nil => exact fun console => ⟨console.doubleBuffer,rfl⟩
    | cons x rest ih =>
      intro console
      rw [List.foldl_cons]
      split
      · exact ih (putPixel console (console.cursorX+x) (console.cursorY+y) 0#32)
      · exact ih console
  have hrows : ∀ (rows : List ℕ) (console : Console), ∃ buffer,
      rows.foldl (fun console y => (List.range glyph.width).foldl (fun console x =>
        if (glyph.row y).getLsbD x then
          putPixel console (console.cursorX+x) (console.cursorY+y) 0#32
        else console) console) console={console with doubleBuffer := buffer} := by
    intro rows
    induction rows with
    | nil => exact fun console => ⟨console.doubleBuffer,rfl⟩
    | cons y rest ih =>
      intro console
      obtain ⟨row,hrow⟩ := hpixels y (List.range glyph.width) console
      rw [List.foldl_cons,hrow]
      exact ih {console with doubleBuffer := row}
  exact hrows _ console

/-- Drawing a glyph leaves the size of the screen. -/
theorem drawGlyph_height (console : Console) (glyph : Glyph) :
    (drawGlyph console glyph).height=console.height := by
  obtain ⟨buffer,hb⟩ := drawGlyph_buffer console glyph
  rw [hb]

/-- The height never changes. -/
theorem consoleStep_height {next : Console} {action : ConsoleAction}
    (hs : consoleStep font console action=some next) : next.height=console.height := by
  have hplaced : ∀ c, (scrollAtBottom (advance font console c)).height=console.height := by
    intro c
    rw [scrollAtBottom]
    split
    · exact (advance_buffers font console c).2.2.2
    · exact (advance_buffers font console c).2.2.2
  have hwrite : ∀ c, (writeCharacter font console c).height=console.height := by
    intro c
    rw [writeCharacter]
    dsimp only
    split
    · exact hplaced c
    · exact (drawGlyph_height _ _).trans (hplaced c)
  cases action with
  | writeCharacter c =>
    cases hs
    exact hwrite c
  | debugPutchar c =>
    cases hs
    rw [debugPutchar]
    split
    · exact hwrite c
    · exact hwrite c

/-- Every call returns and leaves a screen of the same height. -/
theorem consoleStep_tall (font : Font) {condition : Console → ConsoleAction → Prop}
    (console : Console) (action : ConsoleAction) (hh : 16≤console.height)
    (_ : condition console action) :
    ∃ next, consoleStep font console action=some next ∧ 16≤next.height := by
  have hreturns : ∃ next, consoleStep font console action=some next := by
    cases action with
    | debugPutchar c => exact ⟨_,rfl⟩
    | writeCharacter c => exact ⟨_,rfl⟩
  obtain ⟨next,hs⟩ := hreturns
  refine ⟨next,hs,?_⟩
  rw [consoleStep_height hs]
  exact hh

end Steps

/-- A font in which every character looks like the letter A. -/
def letterFont : Font := fun _ =>
  ⟨fun y => [0x00#16,0x00#16,0x00#16,0x3c#16,0x66#16,0x66#16,0x66#16,0x7e#16,
    0x66#16,0x66#16,0x66#16,0x66#16,0x00#16,0x00#16,0x00#16,0x00#16].getD y 0#16,8⟩

/-- A fresh console of two lines with one letter each. -/
def twoLineConsole : Console := initialise (fun _ => 0#32) 8 32

end WorkbenchOS.BootConsole
