import ProtoWire.Repeated.Basic

/-!
# Histories of a container

A history is a list of operations on a container, with their arguments.
-/

namespace ProtoWire.Repeated

inductive Step (α : Type) where
  | add (value : α)
  | addAll (values : List α)
  | addLength (n : Nat)
  | pushDefault
  | pushRecycled (reset : α → α)
  | copyFrom (values : List α)
  | reserve (n : Nat)
  | set (index : Nat) (value : α)
  /-- Replaces the value at an index, if there is one. -/
  | replace (index : Nat) (value : α)
  | reverse
  | clear
  | copy
  | discardRetained

/-- Carries out an operation, for elements of a size and a default. -/
def Step.run {α : Type} (elementSize : Nat) (default : α) : Step α → Edit α Unit
  | add value => Repeated.add elementSize value
  | addAll values => Repeated.addAll elementSize values
  | addLength n => Repeated.addLength elementSize default n
  | pushDefault => Repeated.add elementSize default
  | pushRecycled reset => Repeated.pushRecycled elementSize default reset
  | copyFrom values => Repeated.copyFrom elementSize values
  | reserve n => Repeated.reserve elementSize n
  | set index value => Repeated.set index value
  | replace index value => modify fun c => { c with values := c.values.set index value }
  | reverse => modify Repeated.reverse
  | clear => modify Repeated.clear
  | copy => modify Repeated.copy
  | discardRetained => modify Repeated.discardRetained

end ProtoWire.Repeated
