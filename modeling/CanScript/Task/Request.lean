import CanScript.Channel
import CanScript.Diagnostic
import CanScript.Frame
import CanScript.Scope

/-! # Requests of a task

    A task computes by itself and asks for everything else: the shared variables, the clock, frames,
    the logs.  Each request has its own type of reply.  Some replies come at once, others only after
    time has passed or something has happened. -/

namespace CanScript

/-- A handler body that is to run as a task of its own. -/
inductive Activation where
  | receive (index : Nat) (frame : Frame)
  | interval (index : Nat)
  deriving DecidableEq, Repr

/-- How a run stands. -/
inductive Standing where
  | running
  | paused
  | stopped
  deriving DecidableEq, Repr

/-- Why a wait for a moment is over. -/
inductive Waking where
  | expired
  | paused
  | stopped
  deriving DecidableEq, Repr

/-- Why a wait for a frame is over. -/
inductive Arrival where
  | frame (f : Frame)
  | lagged (missed : Nat)
  | expired
  | paused
  | stopped
  deriving DecidableEq, Repr

/-- Where frames are read: from a port, or from the hub where the frames of all ports of a run come
    together. -/
inductive Source where
  | port (name : String) (reader : ReaderId)
  | hub (reader : ReaderId)
  deriving DecidableEq, Repr

/-- What a task may ask for. -/
inductive Request where
  /-- How the run stands. -/
  | standing
  /-- Waits for the turn; false if the run was stopped. -/
  | acquire
  /-- Gives the turn back. -/
  | release
  /-- Waits until the run is not paused; false if it was stopped. -/
  | awaitRunning
  /-- Lets other tasks go first. -/
  | yield
  /-- The time in milliseconds. -/
  | clock
  /-- The milliseconds since the run started. -/
  | elapsed
  /-- Waits for a moment; a pause ends the wait if it is heeded. -/
  | sleepUntil (deadline : Nat) (heedPause : Bool)
  /-- Adds a reader of the hub. -/
  | listen
  /-- Removes a reader of the hub. -/
  | unlisten (reader : ReaderId)
  /-- Waits for a frame in the hub, for a moment, or for a pause. -/
  | nextFrame (reader : ReaderId) (deadline : Nat)
  /-- Waits for a frame; nothing if the run was stopped. -/
  | receive (source : Source)
  /-- Removes a reader of a port. -/
  | leavePort (port : String) (reader : ReaderId)
  /-- Puts a frame into the hub. -/
  | publish (frame : Frame)
  /-- The global variables; nothing without the turn. -/
  | globals
  /-- Replaces the global variables; false without the turn. -/
  | setGlobals (globals : Bindings)
  /-- Records an error. -/
  | report (error : Diagnostic)
  /-- Records a printed text. -/
  | print (text : String)
  /-- Ends the run. -/
  | finish
  /-- A random number below `2 ^ 64`. -/
  | entropy
  /-- Starts a task for a handler body. -/
  | spawn (activation : Activation)
  /-- Waits for the exclusive use of a port; false if the run was stopped. -/
  | claimPort (port : String)
  /-- Ends the use of a port, or the wait for it. -/
  | leaveClaim (port : String)
  /-- The milliseconds that a write takes. -/
  | writeTime
  /-- Writes a frame; the reply is whether the port took it. -/
  | transmit (frame : Frame)

namespace Request

/-- The type of the reply to a request. -/
def Reply : Request → Type
  | standing => Standing
  | acquire => Bool
  | release => Unit
  | awaitRunning => Bool
  | yield => Unit
  | clock => Nat
  | elapsed => Nat
  | sleepUntil _ _ => Waking
  | listen => ReaderId
  | unlisten _ => Unit
  | nextFrame _ _ => Arrival
  | receive _ => Option (Received Frame)
  | leavePort _ _ => Unit
  | publish _ => Unit
  | globals => Option Bindings
  | setGlobals _ => Bool
  | report _ => Unit
  | print _ => Unit
  | finish => Unit
  | entropy => Nat
  | spawn _ => Unit
  | claimPort _ => Bool
  | leaveClaim _ => Unit
  | writeTime => Nat
  | transmit _ => Bool

def deadline? : Request → Option Nat
  | sleepUntil deadline _ => some deadline
  | nextFrame _ deadline => some deadline
  | _ => none

end Request

end CanScript
