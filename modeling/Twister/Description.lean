import Twister.Word.Basic

/-!
# Descriptions and digests

Values are described for a reader by a name and their parts, in one line (`Description.line`) or
indented over several (`Description.indented`), where each part stands on lines of its own and
is closed by a comma. Parts are numbers and lists of numbers.

Lists of words that are too long for this are compared by a few numbers (`Digest`): a checksum,
which depends on the order of the words, and the last word, the checksum and the parity of a run of
draws. Of a list that is mostly zeros the other words are listed, each with its place.
-/

namespace Twister

namespace Description

/-- A part of a described value. -/
inductive Part
  | number (n : Int)
  | numbers (ns : List Int)

/-- The indentation of lines at a depth, of four spaces per level. -/
def indentation (depth : Nat) : String :=
  "".pushn ' ' (4 * depth)

namespace Part

/-- The part in one line. -/
def line : Part → String
  | number n => toString n
  | numbers ns => "[" ++ ", ".intercalate (ns.map toString) ++ "]"

/-- The part over several lines, the first of which is already indented to the depth. An empty list
    is not spread. -/
def indented (depth : Nat) : Part → String
  | number n => toString n
  | numbers [] => "[]"
  | numbers ns =>
    let items := ns.map fun n => indentation (depth + 1) ++ toString n ++ ",\n"
    "[\n" ++ String.join items ++ indentation depth ++ "]"

end Part

end Description

/-- The description of a value. -/
inductive Description
  /-- A name alone. -/
  | atom (name : String)
  /-- A name with a part. -/
  | tuple (name : String) (part : Description.Part)
  /-- A name with parts that have names too. -/
  | record (name : String) (fields : List (String × Description.Part))

namespace Description

/-- The description in one line. -/
def line : Description → String
  | atom name => name
  | tuple name part => name ++ "(" ++ part.line ++ ")"
  | record name fields =>
    let parts := fields.map fun (label, part) => label ++ ": " ++ part.line
    name ++ " \x7b " ++ ", ".intercalate parts ++ " \x7d"

/-- The description over several lines. -/
def indented : Description → String
  | atom name => name
  | tuple name part => name ++ "(\n" ++ indentation 1 ++ part.indented 1 ++ ",\n)"
  | record name fields =>
    let lines := fields.map fun (label, part) =>
      indentation 1 ++ label ++ ": " ++ part.indented 1 ++ ",\n"
    name ++ " \x7b\n" ++ String.join lines ++ "\x7d"

end Description

/-! ## Digests -/

namespace Digest

/-- The value of the words as digits to base 31, modulo `2 ^ 32`. -/
def checksum (words : List Word) : Word :=
  words.foldl (fun sum w => sum * 31 + w) 0

/-- The parity of the words at every bit. -/
def parity (words : List Word) : Word :=
  words.foldl (· ^^^ ·) 0

/-- The words other than zero, with their places. -/
def nonzero (words : List Word) : List (Nat × Word) :=
  (words.zipIdx.filter fun (w, _) => w ≠ 0).map fun (w, i) => (i, w)

end Digest

/-- A digest of a run of draws. -/
structure Digest where
  /-- The last word. -/
  last : Word
  /-- The checksum of the words. -/
  sum : Word
  /-- The parity of the words. -/
  xor : Word
  deriving DecidableEq, Repr

/-- The digest of the words drawn. There is none if nothing was drawn, for want of a last word. -/
def Digest.ofWords? (words : List Word) : Option Digest :=
  words.getLast?.map fun last => { last, sum := checksum words, xor := parity words }

end Twister
