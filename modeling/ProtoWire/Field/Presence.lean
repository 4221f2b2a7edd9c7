import ProtoWire.Field.Strategy

/-!
# Presence bits

Every singular field owns one bit of a row of 32-bit words, and every oneof owns one bit for all its
members. Bits are dealt out in declaration order; a oneof takes its bit at its first member.
Repeated fields have none, for they are present when they have values.
-/

namespace ProtoWire

/-- One presence bit. -/
structure PresenceBit where
  index : Nat
deriving DecidableEq

namespace PresenceBit

def word (bit : PresenceBit) : Nat :=
  bit.index / 32

def mask (bit : PresenceBit) : UInt32 :=
  1 <<< (bit.index % 32).toUInt32

end PresenceBit

/-- The presence words of a message. -/
abbrev Presence := List UInt32

namespace Presence

def none (words : Nat) : Presence :=
  List.replicate words 0

def test (p : Presence) (bit : PresenceBit) : Bool :=
  (p.getD bit.word 0 &&& bit.mask) != 0

def insert (p : Presence) (bit : PresenceBit) : Presence :=
  p.modify bit.word (· ||| bit.mask)

def erase (p : Presence) (bit : PresenceBit) : Presence :=
  p.modify bit.word (· &&& ~~~bit.mask)

end Presence

/-- Which bits belong to the fields and oneofs of a message. -/
structure BitAllocation where
  /-- By field, in declaration order. -/
  fields : List (Option PresenceBit)
  /-- By declared oneof; one without members has no bit. -/
  oneofs : List (Option PresenceBit)
  /-- How many words hold the bits. -/
  wordCount : Nat

/-- A stage of dealing out bits: how many are taken, and the bits of the oneofs so far. -/
structure BitSupply where
  next : Nat
  oneofs : List (Option PresenceBit)

/-- The bit of a field, and the supply afterwards. A member of an undeclared oneof has none. -/
def BitSupply.take (supply : BitSupply) : Cardinality → Option PresenceBit × BitSupply
  | .singular => (some ⟨supply.next⟩, { supply with next := supply.next + 1 })
  | .repeated _ => (none, supply)
  | .oneof index =>
    match supply.oneofs[index]? with
    | none => (none, supply)
    | some (some bit) => (some bit, supply)
    | some none =>
      (some ⟨supply.next⟩,
        { next := supply.next + 1, oneofs := supply.oneofs.set index (some ⟨supply.next⟩) })

def BitSupply.takeAll (supply : BitSupply) :
    List Cardinality → List (Option PresenceBit) × BitSupply
  | [] => ([], supply)
  | cardinality :: rest =>
    let (bit, supply) := supply.take cardinality
    let (bits, supply) := supply.takeAll rest
    (bit :: bits, supply)

/-- Deals out bits to fields in declaration order. -/
def allocate (cardinalities : List Cardinality) (oneofCount : Nat) : BitAllocation :=
  let (fields, supply) :=
    BitSupply.takeAll { next := 0, oneofs := List.replicate oneofCount none } cardinalities
  { fields, oneofs := supply.oneofs, wordCount := (supply.next + 31) / 32 }

theorem BitSupply.length_takeAll (supply : BitSupply) (cardinalities : List Cardinality) :
    (supply.takeAll cardinalities).1.length = cardinalities.length := by
  induction cardinalities generalizing supply with
  | nil => rfl
  | cons cardinality rest ih => simp [BitSupply.takeAll, ih]

theorem length_allocate (cardinalities : List Cardinality) (oneofCount : Nat) :
    (allocate cardinalities oneofCount).fields.length = cardinalities.length :=
  BitSupply.length_takeAll _ _

end ProtoWire
