import CallConv.Text.Rune

/-!
# Positions

A position in a source is a line and a column, which messages show, and a byte offset, which
splicing uses. Lines and columns count from one, columns count code points.
-/

namespace CallConv

/-- A position in a source. -/
structure Cursor where
  /-- The line, from one. -/
  line : Int
  /-- The column in code points, from one. -/
  column : Int
  /-- The offset in bytes, from zero. -/
  offset : Int
deriving DecidableEq, Repr, Inhabited

namespace Cursor

/-- The position of the first byte of a source. -/
def start : Cursor := ⟨1, 1, 0⟩

/-- The position that stands for the end of an input whose extent is not known. -/
def eof : Cursor := ⟨0, 0, 0⟩

/-- How messages show a position: `line:column`, or `EOF`. -/
def text (c : Cursor) : Text :=
  if c = eof then utf8 "EOF" else Text.ofInt c.line ++ utf8 ":" ++ Text.ofInt c.column

/-- The position right after `t`, which begins at `c`. -/
def advance (c : Cursor) (t : Text) : Cursor :=
  let breaks := t.count Byte.newline
  if breaks = 0 then
    { line := c.line, column := c.column + t.runeCount, offset := c.offset + t.length }
  else
    let lastLine : Text := (t.reverse.takeWhile (· != Byte.newline)).reverse
    { line := c.line + breaks, column := 1 + lastLine.runeCount, offset := c.offset + t.length }

end Cursor

end CallConv
