import FilterQuery.Text.Quoted

/-!
# Bytes as text

Bytes may stand where a text is expected, and then mean the text that they spell in UTF-8.  Where
they are shown as what they are, they stand in quotes behind the letter `b`: bytes of ASCII as in
quoted text, all others by number.
-/

namespace FilterQuery.Text

/-- The text that bytes spell in UTF-8. -/
def decodeOctets? (octets : List UInt8) : Option String :=
  String.fromUTF8? ⟨octets.toArray⟩

/-- The text that bytes spell in UTF-8, or the empty text. -/
def decodeOctets (octets : List UInt8) : String :=
  (decodeOctets? octets).getD ""

/-- One byte of a quoted run, where `mark` is the enclosing quote. -/
def octetText (mark : Char) (octet : UInt8) : List Char :=
  if octet.toNat < 0x80 then quoteChar mark (Char.ofNat octet.toNat)
  else '\\' :: 'x' :: hexDigits 2 octet.toNat

/-- Bytes in quotes. -/
def quoteOctets (octets : List UInt8) : String :=
  let mark := quoteMark (octets.map fun octet => Char.ofNat octet.toNat)
  String.ofList ('b' :: mark :: (octets.flatMap (octetText mark) ++ [mark]))

end FilterQuery.Text
