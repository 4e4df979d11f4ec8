/-!
Lines and columns. Both count from one; a column counts characters and not bytes.
-/

namespace StructuredText

structure Position where
  line : Nat
  column : Nat
  deriving DecidableEq, Repr

namespace Position

/-- The characters in the first bytes of a text, all of them if it is shorter. There is no answer
where the bytes end inside a character. -/
def before? : Nat → List Char → Option (List Char)
  | _, [] => some []
  | offset, c :: cs =>
    if offset = 0 then some []
    else if c.utf8Size ≤ offset then (before? (offset - c.utf8Size) cs).map (c :: ·)
    else none

/-- The position that follows some characters. -/
def after (cs : List Char) : Position :=
  ⟨cs.count '\n' + 1, (cs.reverse.takeWhile (· ≠ '\n')).length + 1⟩

/-- The position of a byte. An offset that is no place between two characters has the position of
the end of the text. -/
def ofOffset (source : List Char) (offset : Nat) : Position :=
  after ((before? offset source).getD source)

end Position

end StructuredText
