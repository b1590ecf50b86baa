/-! # Channels

    A channel hands every item to every reader that was there when it was sent.  It keeps a bounded
    number of items: a reader that falls behind loses the oldest ones, is told once how many, and
    goes on with the oldest item that is kept. -/

namespace CanScript

/-- The number of a reader of a channel. -/
abbrev ReaderId := Nat

/-- A channel with all that was ever sent on it, and the place of each reader in that history. -/
structure Channel (α : Type) where
  capacity : Nat
  history : Array α := #[]
  readers : List (ReaderId × Nat) := []
  nextReader : ReaderId := 0

/-- What a reader gets. -/
inductive Received (α : Type) where
  | item (a : α)
  | lagged (missed : Nat)
  deriving DecidableEq, Repr

namespace Channel

variable {α : Type}

def ofCapacity (capacity : Nat) : Channel α :=
  { capacity }

def room (c : Channel α) : Nat :=
  c.capacity.nextPowerOfTwo

def oldest (c : Channel α) : Nat :=
  c.history.size - c.room

def send (c : Channel α) (a : α) : Channel α :=
  { c with history := c.history.push a }

def readerCount (c : Channel α) : Nat :=
  c.readers.length

def subscribe (c : Channel α) : Channel α × ReaderId :=
  ({ c with
    readers := c.readers ++ [(c.nextReader, c.history.size)]
    nextReader := c.nextReader + 1 }, c.nextReader)

def unsubscribe (c : Channel α) (r : ReaderId) : Channel α :=
  { c with readers := c.readers.filter fun p => p.1 != r }

def moveTo (c : Channel α) (r : ReaderId) (place : Nat) : Channel α :=
  { c with readers := c.readers.map fun p => if p.1 == r then (r, place) else p }

def next? (c : Channel α) (place : Nat) : Option (Received α × Nat) :=
  if place < c.oldest then some (.lagged (c.oldest - place), c.oldest)
  else c.history[place]?.map fun a => (.item a, place + 1)

def receive? (c : Channel α) (r : ReaderId) : Option (Received α × Channel α) :=
  match c.readers.lookup r with
  | none => none
  | some place => (c.next? place).map fun (got, place) => (got, c.moveTo r place)

def drainFrom (c : Channel α) : Nat → Nat → List (Received α)
  | 0, _ => []
  | budget + 1, place =>
    match c.next? place with
    | some (got, place) => got :: drainFrom c budget place
    | none => []

def drain (c : Channel α) (r : ReaderId) : List (Received α) × Channel α :=
  match c.readers.lookup r with
  | none => ([], c)
  | some place => (c.drainFrom (c.room + 1) place, c.moveTo r c.history.size)

end Channel

end CanScript
