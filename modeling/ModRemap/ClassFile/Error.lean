/-! Why a class file is refused. -/

namespace ModRemap

inductive ClassError where
  | unexpectedEnd
  | invalidMagic
  | unsupportedConstant (tag : UInt8)
  | invalidIndex (index : UInt16)
  | malformedText (index : UInt16)
  | poolOverflow
  | trailingData (count : Nat)
deriving DecidableEq, Repr

def ClassError.message : ClassError → String
  | .unexpectedEnd => "unexpected end of class file"
  | .invalidMagic => "invalid class file magic header"
  | .unsupportedConstant tag => s!"unsupported constant pool tag {tag}"
  | .invalidIndex index => s!"invalid constant pool index {index}"
  | .malformedText index => s!"malformed modified UTF-8 in constant pool entry {index}"
  | .poolOverflow => "constant pool would exceed 65535 entries"
  | .trailingData count => s!"{count} bytes of trailing data after class file"

end ModRemap
