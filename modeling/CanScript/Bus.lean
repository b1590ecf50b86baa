import CanScript.Channel
import CanScript.Frame

/-! # The bus

    An adapter held in memory.  It records the frames that were written, delivers frames to the
    readers of a port, refuses writes to ports that were made to fail, and with loopback on delivers
    what is written, too. -/

namespace CanScript

/-- The state of the bus. -/
structure Bus where
  capacity : Nat
  channels : List (String × Channel Frame) := []
  sent : Array Frame := #[]
  failing : List String := []
  loopback : Bool := false

namespace Bus

def ofCapacity (capacity : Nat) : Bus :=
  { capacity := max capacity 1 }

def channel (b : Bus) (port : String) : Channel Frame :=
  (b.channels.lookup port).getD (.ofCapacity b.capacity)

def setChannel (b : Bus) (port : String) (c : Channel Frame) : Bus :=
  { b with channels := (port, c) :: b.channels.filter fun p => p.1 != port }

def subscribe (b : Bus) (port : String) : Bus × ReaderId :=
  let (c, r) := (b.channel port).subscribe
  (b.setChannel port c, r)

def unsubscribe (b : Bus) (port : String) (r : ReaderId) : Bus :=
  b.setChannel port ((b.channel port).unsubscribe r)

def receive? (b : Bus) (port : String) (r : ReaderId) : Option (Received Frame × Bus) :=
  ((b.channel port).receive? r).map fun (got, c) => (got, b.setChannel port c)

def drain (b : Bus) (port : String) (r : ReaderId) : List (Received Frame) × Bus :=
  let (got, c) := (b.channel port).drain r
  (got, b.setChannel port c)

def deliver (b : Bus) (f : Frame) : Bus :=
  b.setChannel f.port ((b.channel f.port).send f)

def inject (b : Bus) (now : Nat) (f : Frame) : Bus × Nat :=
  let f := if f.timestamp = 0 then { f with timestamp := now } else f
  (b.deliver f, (b.channel f.port).readerCount)

def isFailing (b : Bus) (port : String) : Bool :=
  b.failing.contains port

def write (b : Bus) (now : Nat) (f : Frame) : Bus × Bool :=
  if b.isFailing f.port then (b, false)
  else
    let f := { f with timestamp := now }
    let b := { b with sent := b.sent.push f }
    (if b.loopback then b.deliver f else b, true)

def setFailing (b : Bus) (port : String) (on : Bool) : Bus :=
  let others := b.failing.filter (· != port)
  { b with failing := if on then port :: others else others }

def setLoopback (b : Bus) (on : Bool) : Bus :=
  { b with loopback := on }

def clearSent (b : Bus) : Bus :=
  { b with sent := #[] }

def summary (b : Bus) : String :=
  s!"VirtualBus \x7b sent: {b.sent.size}, loopback: {b.loopback}, capacity: {b.capacity} \x7d"

def writerSummary : String :=
  "PortWriter \x7b bus: \"<dyn CanBus>\", locks: \"<Mutex<HashMap<String, Arc<Mutex<()>>>>>\" \x7d"

end Bus

end CanScript
