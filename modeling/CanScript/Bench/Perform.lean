import CanScript.Bench

/-! # Answers to requests

    One request of one task, performed on the bench: it is answered, or answered at the cost of
    letting other tasks go first, or it has to wait. A task that has to wait makes its request again
    later.

    When several things end a wait at once, the stop of the run comes first, then the end of the
    time, then a pause, then what the wait is for.  It could be any of them, but what holds of runs
    that go on does not depend on the order, except at the end of the time to wait for a frame; that
    one is left to chance.  What a task still gets after the stop it has before the stop is over,
    and it is refused at its next checkpoint.  A sleep that is paused at its end has nothing left to
    sleep.  A task that waits for a frame hears of a pause before a frame can enter the hub. -/

namespace CanScript

/-- What comes of a request. -/
inductive Outcome (op : Request) where
  | done (b : Bench) (reply : op.Reply)
  | yielded (b : Bench) (reply : op.Reply)
  | wait (b : Bench)

namespace Bench

def acquire (b : Bench) (t : TaskId) : Outcome .acquire :=
  if b.turn = some t then .done b true
  else if b.isCancelled then .done b false
  else if b.turn.isNone then .done { b with turn := some t } true
  else .wait b

def sleepUntil (b : Bench) (deadline : Nat) (heedPause : Bool) :
    Outcome (.sleepUntil deadline heedPause) :=
  if b.isCancelled then .done b Waking.stopped
  else if deadline ≤ b.now then .done b Waking.expired
  else if heedPause && b.isPaused then .done b Waking.paused
  else .wait b

/-- Whether the end of its time is what a wait takes when a pause or a frame is there as well.  It
    is as random as a number that a script asks for. -/
def favoursTime (b : Bench) : Bool :=
  b.seed % 2 == 0

def nextFrame (b : Bench) (r : ReaderId) (deadline : Nat) : Outcome (.nextFrame r deadline) :=
  if b.isCancelled then .done b Arrival.stopped
  else if deadline ≤ b.now ∧ b.favoursTime then .done b Arrival.expired
  else if b.isPaused then .done b Arrival.paused
  else
    match b.hub.receive? r with
    | some (.item f, hub) => .done { b with hub } (Arrival.frame f)
    | some (.lagged n, hub) => .done { b with hub } (Arrival.lagged n)
    | none => if deadline ≤ b.now then .done b Arrival.expired else .wait b

def receive? (b : Bench) : Source → Option (Received Frame × Bench)
  | .port port r => (b.bus.receive? port r).map fun (got, bus) => (got, { b with bus })
  | .hub r => (b.hub.receive? r).map fun (got, hub) => (got, { b with hub })

def receive (b : Bench) (source : Source) : Outcome (.receive source) :=
  if b.isCancelled then .done b (none : Option (Received Frame))
  else
    match b.receive? source with
    | some (got, b) => .done b (some got)
    | none => .wait b

def claimPort (b : Bench) (t : TaskId) (port : String) : Outcome (.claimPort port) :=
  if b.isCancelled then .done (b.dropClaim port t) false
  else
    let b := b.addClaim port t
    if (b.claimsOn port).head? = some t then .done b true else .wait b

/-- Performs a request of a task. -/
def perform (b : Bench) (t : TaskId) : (op : Request) → Outcome op
  | .standing => .done b b.standing
  | .acquire => b.acquire t
  | .release => .done (if b.turn = some t then { b with turn := none } else b) ()
  | .awaitRunning =>
    match b.standing with
    | .stopped => .done b false
    | .running => .done b true
    | .paused => .wait b
  | .yield => .yielded b ()
  | .clock => .done b b.now
  | .elapsed => .done b (b.now - (b.run.map (·.startedAt)).getD 0)
  | .sleepUntil deadline heedPause => b.sleepUntil deadline heedPause
  | .listen =>
    let (hub, r) := b.hub.subscribe
    .done { b with hub } r
  | .unlisten r => .done { b with hub := b.hub.unsubscribe r } ()
  | .nextFrame r deadline => b.nextFrame r deadline
  | .receive source => b.receive source
  | .leavePort port r => .done { b with bus := b.bus.unsubscribe port r } ()
  | .publish f => .done { b with hub := b.hub.send f } ()
  | .globals => .done b (if b.turn = some t then some b.globals else none)
  | .setGlobals globals =>
    if b.turn = some t then .done { b with globals } true else .done b false
  | .report d => .done (b.report d) ()
  | .print text => .done { b with log := b.log.recordOutput b.runId? text } ()
  | .finish => .done b.finish ()
  | .entropy =>
    let (n, b) := b.nextRandom
    .done b n
  | .spawn a => .done (if b.isCancelled then b else { b with spawned := b.spawned ++ [a] }) ()
  | .claimPort port => b.claimPort t port
  | .leaveClaim port => .done (b.dropClaim port t) ()
  | .writeTime => .done b b.writeTime
  | .transmit f =>
    let (bus, taken) := b.bus.write b.now f
    .done { b with bus } taken

end Bench

end CanScript
