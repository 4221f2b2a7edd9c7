/-!
# Failures of decoding

* `DecodeError`: why a byte string is not the encoding of a message.
-/

namespace ProtoWire

/-- Why reading from a buffer failed. -/
inductive DecodeError where
  | invalidTag
  | malformedVarint
  | truncated
  | negativeSize
  | recursionLimitExceeded
  | invalidEndTag
  | invalidWireType (value : UInt8)
  | invalidUtf8
deriving DecidableEq

def DecodeError.message : DecodeError → String
  | invalidTag => "protocol message contained an invalid tag (zero)"
  | malformedVarint => "protocol message contained a malformed varint"
  | truncated =>
    "protocol message was truncated, or a length-delimited field has an invalid size"
  | negativeSize => "protocol message contained a field with a negative size"
  | recursionLimitExceeded => "protocol message had too many levels of nesting"
  | invalidEndTag => "protocol message end-group tag did not match the expected tag"
  | invalidWireType value => s!"protocol message tag had invalid wire type {value.toNat}"
  | invalidUtf8 => "protocol message contained a string field with invalid UTF-8"

/-- Why an operation on a reader, a container or a message stopped. All but the first are broken
promises of the caller, and end the operation without a result. -/
inductive Fault where
  | decode (error : DecodeError)
  | capacityOverflow
  | allocationTooLarge
  | pastLimit (position limit : Nat)
  | notSet (field : String)
  | indexOutOfBounds
deriving DecidableEq

/-- The wording of a fault; an index or an allocation out of range has none of its own. -/
def Fault.message? : Fault → Option String
  | decode error => some error.message
  | capacityOverflow => some "repeated field capacity overflow"
  | allocationTooLarge => none
  | pastLimit position limit => some s!"position {position} is past the current limit {limit}"
  | notSet field => some ("field `" ++ field ++ "` is not set")
  | indexOutOfBounds => none

end ProtoWire
