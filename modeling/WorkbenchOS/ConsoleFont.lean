import WorkbenchOS.BootConsole

/-!
# The glyphs of the boot console

`ConsoleFont.h` has one glyph for each character from 0 to 126. Those that
cannot be shown have sixteen empty rows, most of them no width either.
-/

namespace WorkbenchOS.ConsoleFont

open BootConsole

/-- An entry of the table: its rows from the top, the lowest bit the leftmost
pixel, and its width. -/
def glyph (rows : List ℕ) (width : ℕ) : Glyph :=
  ⟨fun y => BitVec.ofNat 16 (rows.getD y 0),width⟩

/-- An entry with sixteen empty rows. -/
def blank (width : ℕ) : Glyph := glyph (List.replicate 16 0) width

/-- `font_basic`: the control characters, then the others from the space on. -/
def fontBasic : List Glyph := List.replicate 32 (blank 0)++
  [blank 4,
   glyph [0x0,0x0,0x0,0x6,0x6,0x6,0x6,0x6,0x6,0x0,0x6,0x6,0x0,0x0,0x0,0x0] 4,
   glyph [0x0,0x0,0x0,0xa,0xa,0xa,0x0,0x0,0x0,0x0,0x0,0x0,0x0,0x0,0x0,0x0] 5,
   glyph [0x0,0x0,0x0,0x48,0x48,0xfe,0x24,0x24,0x7f,0x12,0x12,0x0,0x0,0x0,0x0,0x0] 8,
   glyph [0x0,0x8,0x1c,0x2a,0xa,0xe,0x1c,0x38,0x28,0x2a,0x1c,0x8,0x0,0x0,0x0,0x0] 7,
   glyph [0x0,0x0,0x0,0x1ec,0x92,0x92,0x4c,0x40,0x1a0,0x250,0x250,0x188,0x0,0x0,0x0,0x0] 11,
   blank 0,
   glyph [0x0,0x0,0x0,0x2,0x2,0x2,0x0,0x0,0x0,0x0,0x0,0x0,0x0,0x0,0x0,0x0] 3,
   glyph [0x0,0x0,0x8,0x4,0x6,0x6,0x6,0x6,0x6,0x6,0x6,0x4,0x8,0x0,0x0,0x0] 5,
   glyph [0x0,0x0,0x2,0x4,0xc,0xc,0xc,0xc,0xc,0xc,0xc,0x4,0x2,0x0,0x0,0x0] 5,
   glyph [0x0,0x0,0x0,0x0,0x0,0x0,0x8,0x2a,0x1c,0x2a,0x8,0x0,0x0,0x0,0x0,0x0] 7,
   glyph [0x0,0x0,0x0,0x0,0x0,0x0,0x8,0x8,0x3e,0x8,0x8,0x0,0x0,0x0,0x0,0x0] 7,
   glyph [0x0,0x0,0x0,0x0,0x0,0x0,0x0,0x0,0x0,0x0,0x6,0x6,0x4,0x2,0x0,0x0] 4,
   glyph [0x0,0x0,0x0,0x0,0x0,0x0,0x0,0x7e,0x0,0x0,0x0,0x0,0x0,0x0,0x0,0x0] 8,
   glyph [0x0,0x0,0x0,0x0,0x0,0x0,0x0,0x0,0x0,0x0,0x6,0x6,0x0,0x0,0x0,0x0] 4,
   glyph [0x0,0x0,0x20,0x20,0x10,0x10,0x8,0x8,0x4,0x4,0x2,0x2,0x0,0x0,0x0,0x0] 7,
   glyph [0x0,0x0,0x0,0x3c,0x66,0x66,0x76,0x6e,0x66,0x66,0x66,0x3c,0x0,0x0,0x0,0x0] 8,
   glyph [0x0,0x0,0x0,0xc,0xe,0xc,0xc,0xc,0xc,0xc,0xc,0xc,0x0,0x0,0x0,0x0] 5,
   glyph [0x0,0x0,0x0,0x3c,0x62,0x60,0x60,0x30,0x18,0xc,0x6,0x7e,0x0,0x0,0x0,0x0] 8,
   glyph [0x0,0x0,0x0,0x7e,0x30,0x18,0x3c,0x60,0x60,0x60,0x62,0x3c,0x0,0x0,0x0,0x0] 8,
   glyph [0x0,0x0,0x0,0x60,0x70,0x68,0x64,0x62,0xfe,0x60,0x60,0x60,0x0,0x0,0x0,0x0] 9,
   glyph [0x0,0x0,0x0,0x7e,0x6,0x6,0x3e,0x60,0x60,0x60,0x62,0x3c,0x0,0x0,0x0,0x0] 8,
   glyph [0x0,0x0,0x0,0x38,0xc,0x6,0x3e,0x66,0x66,0x66,0x66,0x3c,0x0,0x0,0x0,0x0] 8,
   glyph [0x0,0x0,0x0,0x7e,0x60,0x60,0x60,0x30,0x18,0x18,0x18,0x18,0x0,0x0,0x0,0x0] 8,
   glyph [0x0,0x0,0x0,0x3c,0x66,0x66,0x66,0x3c,0x66,0x66,0x66,0x3c,0x0,0x0,0x0,0x0] 8,
   glyph [0x0,0x0,0x0,0x3c,0x66,0x66,0x66,0x66,0x7c,0x60,0x30,0x1c,0x0,0x0,0x0,0x0] 8,
   glyph [0x0,0x0,0x0,0x0,0x0,0x6,0x6,0x0,0x0,0x0,0x6,0x6,0x0,0x0,0x0,0x0] 4,
   glyph [0x0,0x0,0x0,0x0,0x0,0x6,0x6,0x0,0x0,0x0,0x6,0x6,0x4,0x2,0x0,0x0] 4,
   glyph [0x0,0x0,0x0,0x0,0x30,0x18,0xc,0x6,0xc,0x18,0x30,0x0,0x0,0x0,0x0,0x0] 7,
   glyph [0x0,0x0,0x0,0x0,0x0,0x0,0x7e,0x0,0x7e,0x0,0x0,0x0,0x0,0x0,0x0,0x0] 8,
   glyph [0x0,0x0,0x0,0x0,0x6,0xc,0x18,0x30,0x18,0xc,0x6,0x0,0x0,0x0,0x0,0x0] 7,
   glyph [0x0,0x0,0x0,0x3c,0x62,0x60,0x30,0x18,0x18,0x0,0x18,0x18,0x0,0x0,0x0,0x0] 8,
   glyph [0x0,0x0,0x0,0xf8,0x104,0x272,0x24a,0x24a,0x24a,0x1b2,0x4,0xf8,0x0,0x0,0x0,0x0] 11,
   glyph [0x0,0x0,0x0,0x3c,0x66,0x66,0x66,0x7e,0x66,0x66,0x66,0x66,0x0,0x0,0x0,0x0] 8,
   glyph [0x0,0x0,0x0,0x3e,0x66,0x66,0x66,0x3e,0x66,0x66,0x66,0x3e,0x0,0x0,0x0,0x0] 8,
   glyph [0x0,0x0,0x0,0x3c,0x46,0x6,0x6,0x6,0x6,0x6,0x46,0x3c,0x0,0x0,0x0,0x0] 8,
   glyph [0x0,0x0,0x0,0x3e,0x66,0x66,0x66,0x66,0x66,0x66,0x66,0x3e,0x0,0x0,0x0,0x0] 8,
   glyph [0x0,0x0,0x0,0x3e,0x6,0x6,0x6,0x1e,0x6,0x6,0x6,0x3e,0x0,0x0,0x0,0x0] 8,
   glyph [0x0,0x0,0x0,0x3e,0x6,0x6,0x6,0x1e,0x6,0x6,0x6,0x6,0x0,0x0,0x0,0x0] 7,
   glyph [0x0,0x0,0x0,0x3c,0x46,0x6,0x6,0x76,0x66,0x66,0x66,0x3c,0x0,0x0,0x0,0x0] 8,
   glyph [0x0,0x0,0x0,0x66,0x66,0x66,0x66,0x7e,0x66,0x66,0x66,0x66,0x0,0x0,0x0,0x0] 8,
   glyph [0x0,0x0,0x0,0x6,0x6,0x6,0x6,0x6,0x6,0x6,0x6,0x6,0x0,0x0,0x0,0x0] 4,
   glyph [0x0,0x0,0x0,0x60,0x60,0x60,0x60,0x60,0x66,0x66,0x66,0x3c,0x0,0x0,0x0,0x0] 8,
   glyph [0x0,0x0,0x0,0xc6,0x66,0x36,0x1e,0xe,0x1e,0x36,0x66,0xc6,0x0,0x0,0x0,0x0] 9,
   glyph [0x0,0x0,0x0,0x6,0x6,0x6,0x6,0x6,0x6,0x6,0x6,0x3e,0x0,0x0,0x0,0x0] 7,
   glyph [0x0,0x0,0x0,0x602,0x706,0x78e,0x7de,0x6fa,0x672,0x622,0x602,0x602,0x0,0x0,0x0,0x0] 12,
   glyph [0x0,0x0,0x0,0x82,0x86,0x8e,0x9e,0xba,0xf2,0xe2,0xc2,0x82,0x0,0x0,0x0,0x0] 9,
   glyph [0x0,0x0,0x0,0x3c,0x66,0x66,0x66,0x66,0x66,0x66,0x66,0x3c,0x0,0x0,0x0,0x0] 8,
   glyph [0x0,0x0,0x0,0x3e,0x66,0x66,0x66,0x3e,0x6,0x6,0x6,0x6,0x0,0x0,0x0,0x0] 8,
   glyph [0x0,0x0,0x0,0x3c,0x66,0x66,0x66,0x66,0x66,0x66,0x66,0x3c,0x60,0x0,0x0,0x0] 8,
   glyph [0x0,0x0,0x0,0x3e,0x66,0x66,0x66,0x3e,0x66,0x66,0x66,0x66,0x0,0x0,0x0,0x0] 8,
   glyph [0x0,0x0,0x0,0x1c,0x26,0x6,0xe,0x1c,0x38,0x30,0x32,0x1c,0x0,0x0,0x0,0x0] 6,
   glyph [0x0,0x0,0x0,0x7e,0x18,0x18,0x18,0x18,0x18,0x18,0x18,0x18,0x0,0x0,0x0,0x0] 8,
   glyph [0x0,0x0,0x0,0x66,0x66,0x66,0x66,0x66,0x66,0x66,0x66,0x3c,0x0,0x0,0x0,0x0] 8,
   glyph [0x0,0x0,0x0,0x66,0x66,0x66,0x66,0x66,0x66,0x66,0x26,0x1e,0x0,0x0,0x0,0x0] 8,
   glyph [0x0,0x0,0x0,0x666,0x666,0x666,0x666,0x666,0x666,0x666,0x266,0x1fe,0x0,0x0,0x0,0x0] 12,
   glyph [0x0,0x0,0x0,0x66,0x66,0x66,0x66,0x3c,0x66,0x66,0x66,0x66,0x0,0x0,0x0,0x0] 8,
   glyph [0x0,0x0,0x0,0x66,0x66,0x66,0x66,0x3c,0x18,0x18,0x18,0x18,0x0,0x0,0x0,0x0] 8,
   glyph [0x0,0x0,0x0,0x7e,0x60,0x60,0x30,0x18,0xc,0x6,0x6,0x7e,0x0,0x0,0x0,0x0] 8,
   glyph [0x0,0x0,0xe,0x6,0x6,0x6,0x6,0x6,0x6,0x6,0x6,0x6,0xe,0x0,0x0,0x0] 5,
   glyph [0x0,0x0,0x2,0x2,0x4,0x4,0x8,0x8,0x10,0x10,0x20,0x20,0x0,0x0,0x0,0x0] 7,
   glyph [0x0,0x0,0xe,0xc,0xc,0xc,0xc,0xc,0xc,0xc,0xc,0xc,0xe,0x0,0x0,0x0] 5,
   blank 0,
   glyph [0x0,0x0,0x0,0x0,0x0,0x0,0x0,0x0,0x0,0x0,0x0,0x0,0xff,0x0,0x0,0x0] 8,
   blank 0,
   glyph [0x0,0x0,0x0,0x0,0x0,0x3c,0x62,0x7c,0x66,0x66,0x66,0x7c,0x0,0x0,0x0,0x0] 8,
   glyph [0x0,0x0,0x0,0x6,0x6,0x3e,0x66,0x66,0x66,0x66,0x66,0x3e,0x0,0x0,0x0,0x0] 8,
   glyph [0x0,0x0,0x0,0x0,0x0,0x1c,0x26,0x6,0x6,0x6,0x26,0x1c,0x0,0x0,0x0,0x0] 7,
   glyph [0x0,0x0,0x0,0x60,0x60,0x7c,0x66,0x66,0x66,0x66,0x66,0x7c,0x0,0x0,0x0,0x0] 8,
   glyph [0x0,0x0,0x0,0x0,0x0,0x3c,0x66,0x66,0x7e,0x6,0x46,0x3c,0x0,0x0,0x0,0x0] 8,
   glyph [0x0,0x0,0x0,0x0,0x38,0xc,0x1e,0xc,0xc,0xc,0xc,0xc,0x0,0x0,0x0,0x0] 7,
   glyph [0x0,0x0,0x0,0x0,0x0,0x7c,0x66,0x66,0x66,0x66,0x66,0x7c,0x60,0x62,0x3c,0x0] 8,
   glyph [0x0,0x0,0x0,0x6,0x6,0x3e,0x66,0x66,0x66,0x66,0x66,0x66,0x0,0x0,0x0,0x0] 8,
   glyph [0x0,0x0,0x0,0x6,0x0,0x6,0x6,0x6,0x6,0x6,0x6,0x6,0x0,0x0,0x0,0x0] 4,
   glyph [0x0,0x0,0x0,0x30,0x0,0x30,0x30,0x30,0x30,0x30,0x30,0x32,0x1c,0x0,0x0,0x0] 7,
   glyph [0x0,0x0,0x0,0x6,0x6,0x66,0x36,0x1e,0xe,0x1e,0x36,0x66,0x0,0x0,0x0,0x0] 8,
   glyph [0x0,0x0,0x0,0x6,0x6,0x6,0x6,0x6,0x6,0x6,0x6,0x6,0x0,0x0,0x0,0x0] 4,
   glyph [0x0,0x0,0x0,0x0,0x0,0x3be,0x666,0x666,0x666,0x666,0x666,0x666,0x0,0x0,0x0,0x0] 12,
   glyph [0x0,0x0,0x0,0x0,0x0,0x3e,0x66,0x66,0x66,0x66,0x66,0x66,0x0,0x0,0x0,0x0] 8,
   glyph [0x0,0x0,0x0,0x0,0x0,0x3c,0x66,0x66,0x66,0x66,0x66,0x3c,0x0,0x0,0x0,0x0] 8,
   glyph [0x0,0x0,0x0,0x0,0x0,0x3e,0x66,0x66,0x66,0x66,0x66,0x3e,0x6,0x6,0x0,0x0] 8,
   glyph [0x0,0x0,0x0,0x0,0x0,0x7c,0x66,0x66,0x66,0x66,0x66,0x7c,0x60,0x60,0x0,0x0] 8,
   glyph [0x0,0x0,0x0,0x0,0x0,0x36,0x3e,0x6,0x6,0x6,0x6,0x6,0x0,0x0,0x0,0x0] 7,
   glyph [0x0,0x0,0x0,0x0,0x0,0x1c,0x26,0xe,0x1c,0x38,0x32,0x1c,0x0,0x0,0x0,0x0] 7,
   glyph [0x0,0x0,0x0,0xc,0xc,0x1e,0xc,0xc,0xc,0xc,0xc,0x18,0x0,0x0,0x0,0x0] 6,
   glyph [0x0,0x0,0x0,0x0,0x0,0x66,0x66,0x66,0x66,0x66,0x66,0x7c,0x0,0x0,0x0,0x0] 8,
   glyph [0x0,0x0,0x0,0x0,0x0,0x66,0x66,0x66,0x66,0x66,0x26,0x1e,0x0,0x0,0x0,0x0] 8,
   glyph [0x0,0x0,0x0,0x0,0x0,0x666,0x666,0x666,0x666,0x666,0x266,0x1fe,0x0,0x0,0x0,0x0] 12,
   glyph [0x0,0x0,0x0,0x0,0x0,0x66,0x66,0x66,0x3c,0x66,0x66,0x66,0x0,0x0,0x0,0x0] 8,
   glyph [0x0,0x0,0x0,0x0,0x0,0x66,0x66,0x66,0x66,0x66,0x66,0x7c,0x60,0x62,0x3c,0x0] 8,
   glyph [0x0,0x0,0x0,0x0,0x0,0x7e,0x60,0x30,0x18,0xc,0x6,0x7e,0x0,0x0,0x0,0x0] 8,
   glyph [0x0,0x0,0x8,0x4,0x4,0x4,0x4,0x2,0x4,0x4,0x4,0x4,0x8,0x0,0x0,0x0] 5,
   glyph [0x0,0x0,0x2,0x2,0x2,0x2,0x2,0x2,0x2,0x2,0x2,0x2,0x2,0x0,0x0,0x0] 3,
   glyph [0x0,0x0,0x2,0x4,0x4,0x4,0x4,0x8,0x4,0x4,0x4,0x4,0x2,0x0,0x0,0x0] 5,
   glyph [0x0,0x0,0x0,0x0,0x0,0x0,0x0,0x4c,0x32,0x0,0x0,0x0,0x0,0x0,0x0,0x0] 8]

/-- One glyph for each character from 0 to 126. -/
theorem fontBasic_length : fontBasic.length=127 := by decide +kernel

/-- The widest glyph has twelve columns. -/
theorem fontBasic_width : ∀ entry∈fontBasic,entry.width≤12 := by decide +kernel

/-- The glyph of a character of the table. -/
theorem fontBasic_glyph {c : UInt8} (hc : c.toNat<127) :
    ∃ entry, fontBasic[c.toNat]?=some entry ∧ entry.width≤12 := by
  have hlt : c.toNat<fontBasic.length := fontBasic_length ▸ hc
  exact ⟨fontBasic[c.toNat],List.getElem?_eq_getElem hlt,
    fontBasic_width _ (List.getElem_mem hlt)⟩

end WorkbenchOS.ConsoleFont
