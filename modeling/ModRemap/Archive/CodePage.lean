import ModRemap.Text.Utf8

/-! Code page 437, in which archives write entry names that are not marked as UTF-8. -/

namespace ModRemap.CodePage

/-- The characters of the bytes from 128 on; those below are ASCII. -/
def upperHalf : String :=
  "ÇüéâäàåçêëèïîìÄÅÉæÆôöòûùÿÖÜ¢£¥₧ƒáíóúñÑªº¿⌐¬½¼¡«»░▒▓│┤╡╢╖╕╣║╗╝╜╛┐" ++
  "└┴┬├─┼╞╟╚╔╩╦╠═╬╧╨╤╥╙╘╒╓╫╪┘┌█▄▌▐▀αßΓπΣσµτΦΘΩδ∞φε∩≡±≥≤⌠⌡÷≈°∙·√ⁿ²■\u00A0"

def decodeByte (b : UInt8) : Char :=
  if b < 0x80 then Char.ofNat b.toNat else upperHalf.toList.getD (b.toNat - 128) '?'

def decode (s : Bytes) : String := String.ofList (s.map decodeByte)

end ModRemap.CodePage
