import IgnoredPaths.Text.Lines

/-!
# Text in files

Files hold UTF-8. A text file is read with its line ends unified; a rule file may also open
with a byte-order mark, which is not part of its text.

- `decodeText?`: the text of a file, if its bytes are well-formed UTF-8.
- `decodeMarked?`: the same without a byte-order mark at the beginning. A file that holds
  nothing but the beginning of a mark is empty.
-/

namespace IgnoredPaths

/-- The bytes that a byte-order mark is written with. -/
def markBytes : List UInt8 := [0xEF, 0xBB, 0xBF]

/-- The character that a byte-order mark is read as. -/
def markChar : Char := '\uFEFF'

/-- The characters that a sequence of bytes encodes, if it is well-formed UTF-8. -/
def decodeUtf8? (bytes : ByteArray) : Option Text := (String.fromUTF8? bytes).map String.toList

/-- The bytes that encode a text in UTF-8. -/
def encodeUtf8 (s : Text) : ByteArray := (String.ofList s).toUTF8

/-- The text of a file. -/
def decodeText? (bytes : ByteArray) : Option Text := (decodeUtf8? bytes).map Text.unifyBreaks

/-- The text of a file that may open with a byte-order mark. -/
def decodeMarked? (bytes : ByteArray) : Option Text :=
  if bytes.size < 3 ∧ bytes.toList.isPrefixOf markBytes then some []
  else
    (decodeUtf8? bytes).map fun s =>
      Text.unifyBreaks (match s with
        | c :: r => if c = markChar then r else c :: r
        | [] => [])

end IgnoredPaths
