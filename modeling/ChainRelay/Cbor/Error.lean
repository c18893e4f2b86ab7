import ChainRelay.Cbor.Value

/-! What can be wrong with the bytes or the shape of a wire value. A defect names
the cause and its data; the wording is in `Defect.detail` and `Error.message`. -/
namespace ChainRelay.Cbor

inductive Defect where
  | notArray (found : Kind)
  | notUnsigned (found : Kind)
  | notBool (found : Kind)
  | notBytes (found : Kind)
  | notText (found : Kind)
  | notEmbedded (found : Kind)
  | notMap
  | negative
  | itemCount (wanted found : Nat)
  | fieldCount (wanted found : Nat)
  | pointSize (found : Nat)
  | versionFields (version : UInt64) (found : Nat)
  | hashSize
  | tooLarge
  | emptyMessage
  | empty
  | missing (what : String)
  | unknownVariant (variant : UInt64)
  deriving DecidableEq, Repr

def Defect.detail : Defect → String
  | .notArray k => s!"expected array, got {k.name}"
  | .notUnsigned k => s!"expected unsigned integer, got {k.name}"
  | .notBool k => s!"expected bool, got {k.name}"
  | .notBytes k => s!"expected bytes, got {k.name}"
  | .notText k => s!"expected text, got {k.name}"
  | .notEmbedded k => s!"expected tag 24, got {k.name}"
  | .notMap => "expected map"
  | .negative => "integer out of u64 range"
  | .itemCount wanted found => s!"expected {wanted} items, got {found}"
  | .fieldCount wanted found => s!"expected {wanted} fields, got {found}"
  | .pointSize found => s!"expected 0 or 2 items, got {found}"
  | .versionFields version found => s!"unexpected {found} fields for version {version}"
  | .hashSize => "expected 32 bytes"
  | .tooLarge => "out of range"
  | .emptyMessage => "empty message array"
  | .empty => "empty"
  | .missing what => s!"missing {what}"
  | .unknownVariant variant => s!"unknown variant {variant}"

inductive Error where
  | malformed
  | truncated
  | trailing (extra : Nat)
  | shape (context : String) (defect : Defect)
  | unknownTag (protocol : String) (tag : UInt64)
  | floats
  deriving DecidableEq, Repr

/-- What a reader of bytes says about them is not worded further than `malformed`. -/
def Error.message : Error → String
  | .malformed => "malformed cbor: "
  | .truncated => "truncated input"
  | .trailing extra => s!"{extra} trailing bytes after item"
  | .shape context defect => s!"unexpected structure in {context}: {defect.detail}"
  | .unknownTag protocol tag => s!"unknown {protocol} message tag {tag}"
  | .floats => "encoding error: floats are not supported"

def Error.kind : Error → String
  | .malformed => "Malformed"
  | .truncated => "Truncated"
  | .trailing _ => "TrailingBytes"
  | .shape _ _ => "Structure"
  | .unknownTag _ _ => "UnknownTag"
  | .floats => "Encoding"

end ChainRelay.Cbor
