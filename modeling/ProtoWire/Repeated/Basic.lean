import ProtoWire.Wire.Error

/-!
# Containers of repeated fields

A container holds the values of a repeated field. Clearing it keeps the elements behind its values,
so that a later append can reuse one, and keeps the capacity, which grows by half at a time.

* `Repeated.Edit`: an action on a container that may stop with a fault; what was changed by then
  stays.

Allocation is exact: growing to a capacity gives that capacity.
-/

namespace ProtoWire

structure Repeated (α : Type) where
  /-- The values, in order. -/
  values : List α
  /-- Elements behind the values that an append may reuse, the next one first. -/
  retained : List α
  /-- How many elements there is room for. -/
  capacity : Nat

/-- The number of bytes an allocation must not pass. -/
def maxAllocation : Nat := 0x7fffffffffffffff

namespace Repeated

variable {α : Type}

/-- An action on a container. -/
abbrev Edit (α : Type) := EStateM Fault (Repeated α)

/-- The capacity that memory has room for. An element without size counts as one byte, so its
containers are bounded too. -/
def maxCapacity (elementSize : Nat) : Nat :=
  maxAllocation / max elementSize 1

def empty : Repeated α :=
  { values := [], retained := [], capacity := 0 }

instance : Inhabited (Repeated α) := ⟨empty⟩

/-- The container without values that has room for so many elements. -/
def withCapacity (elementSize capacity : Nat) : Except Fault (Repeated α) :=
  if capacity ≤ maxCapacity elementSize then .ok { empty with capacity }
  else .error .allocationTooLarge

/-- The container of some values, with room for no more. -/
def ofList (values : List α) : Repeated α :=
  { values, retained := [], capacity := values.length }

/-- The number of values that can be added before the container grows. -/
def remainingCapacity (c : Repeated α) : Nat :=
  c.capacity - c.values.length

/-- The capacity after growing for `required` elements: at least half as much again. -/
def grownCapacity (elementSize capacity required : Nat) : Nat :=
  max required (min (capacity + capacity / 2) (maxCapacity elementSize))

def reserve (elementSize additional : Nat) : Edit α Unit := do
  let c ← get
  if c.remainingCapacity < additional then
    let required := c.values.length + additional
    if maxCapacity elementSize < required then throw .capacityOverflow
    set { c with capacity := grownCapacity elementSize c.capacity required }

/-- Appends a value, over a retained element if there is one. -/
def add (elementSize : Nat) (value : α) : Edit α Unit := do
  match (← get).retained with
  | _ :: rest => modify fun c => { c with values := c.values ++ [value], retained := rest }
  | [] =>
    if (← get).remainingCapacity = 0 then reserve elementSize 1
    modify fun c => { c with values := c.values ++ [value] }

/-- Appends an element: a retained one after `reset`, or the default. -/
def pushRecycled (elementSize : Nat) (default : α) (reset : α → α) : Edit α Unit := do
  match (← get).retained with
  | element :: rest =>
    modify fun c => { c with values := c.values ++ [reset element], retained := rest }
  | [] => add elementSize default

/-- Appends values after dropping the retained elements. -/
def addAll (elementSize : Nat) (values : List α) : Edit α Unit := do
  modify fun c => { c with retained := [] }
  reserve elementSize values.length
  modify fun c => { c with values := c.values ++ values }

/-- Appends the default so many times, after dropping the retained elements. -/
def addLength (elementSize : Nat) (default : α) (n : Nat) : Edit α Unit := do
  modify fun c => { c with retained := [] }
  reserve elementSize n
  modify fun c => { c with values := c.values ++ List.replicate n default }

def clear (c : Repeated α) : Repeated α :=
  { c with values := [], retained := c.values ++ c.retained }

def copyFrom (elementSize : Nat) (values : List α) : Edit α Unit := do
  modify clear
  addAll elementSize values

def set (index : Nat) (value : α) : Edit α Unit := do
  if (← get).values.length ≤ index then throw .indexOutOfBounds
  modify fun c => { c with values := c.values.set index value }

def modifyLast (f : α → α) (c : Repeated α) : Repeated α :=
  { c with values := c.values.modify (c.values.length - 1) f }

def reverse (c : Repeated α) : Repeated α :=
  { c with values := c.values.reverse }

/-- A copy has room for its values alone. -/
def copy (c : Repeated α) : Repeated α :=
  ofList c.values

def discardRetained (c : Repeated α) : Repeated α :=
  { c with retained := [] }

/-- Containers are equal if their values are. -/
instance [BEq α] : BEq (Repeated α) :=
  ⟨fun c d => c.values == d.values⟩

end Repeated

end ProtoWire
