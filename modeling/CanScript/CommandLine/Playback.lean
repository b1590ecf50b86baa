import CanScript.CommandLine.Arguments
import CanScript.Session

/-! # Playbacks

    A session in front of an observer: what it announces is shown as it happens, recorded frames are
    put on the bus when they are due, and it ends when the run does or when its time is over. -/

namespace CanScript.CommandLine

/-- A session under observation. -/
structure Playback where
  session : Session
  /-- Frames yet to be put on the bus. -/
  frames : List Frame := []
  /-- The port for these frames, if not their own. -/
  port? : Option String := none
  /-- The recorded time of the last frame. -/
  previous : Nat := 0
  /-- The moment when the last frame was due. -/
  lastDue : Nat := 0
  /-- The moment when the time is over. -/
  limit? : Option Nat := none
  /-- How many events were shown. -/
  shown : Nat := 0
  /-- How many error records were shown. -/
  filed : Nat := 0

namespace Playback

def settle (p : Playback) : Playback :=
  { p with session := p.session.settle }

def newEvents (p : Playback) : List Event :=
  p.session.bench.log.events.history.toList.drop p.shown

def newRecords (p : Playback) : List ErrorRecord :=
  p.session.bench.log.records.toList.drop p.filed

def markShown (p : Playback) : Playback :=
  { p with
    shown := p.session.bench.log.events.history.size
    filed := p.session.bench.log.records.size }

def nextDue? (p : Playback) : Option Nat :=
  p.frames.head?.map fun f => p.lastDue + (f.timestamp - p.previous)

def injectNext (p : Playback) : Playback :=
  match p.frames with
  | [] => p
  | f :: rest =>
    let (session, _) := p.session.inject { f with port := p.port?.getD f.port, timestamp := 0 }
    { p with
      session
      frames := rest
      previous := f.timestamp
      lastDue := p.lastDue + (f.timestamp - p.previous) }

/-- What a playback that cannot go on at this moment comes to next. -/
inductive Next where
  | over
  | frameDue
  | moment (t : Nat)
  | never

def nextMoment? (p : Playback) : Option Nat :=
  let deadlines := p.session.deadlines.filter (p.session.bench.now < ·)
  (deadlines ++ p.nextDue?.toList ++ p.limit?.toList).min?

def next (p : Playback) : Next :=
  let now := p.session.bench.now
  if p.session.isSettled || p.limit?.any (· ≤ now) then .over
  else if p.nextDue?.any (· ≤ now) then .frameDue
  else
    match p.nextMoment? with
    | some t => .moment t
    | none => .never

def moveTo (p : Playback) (t : Nat) : Playback :=
  { p with session := p.session.setClock t }

def stop (p : Playback) : Playback :=
  { p with session := p.session.stop }

end Playback

end CanScript.CommandLine
