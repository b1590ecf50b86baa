import CanScript.Main
import CanScript.CommandLine.Rehearsal
import CanScript.Proofs.Headway
import CanScript.Proofs.Containment
import CanScript.Proofs.Precedence
import CanScript.Proofs.Payload
import CanScript.Proofs.Settings
import CanScript.Proofs.Jumps
import CanScript.Proofs.Resolution
import CanScript.Proofs.Replay
import CanScript.Proofs.Announcements
import CanScript.Proofs.Atomicity
import CanScript.Proofs.PausedTraffic
import CanScript.Proofs.Ticks
import CanScript.Proofs.FirstMatch
import CanScript.Proofs.Handling
import CanScript.Proofs.Residue
import CanScript.Proofs.Halting
import CanScript.Proofs.Comparison
import CanScript.Proofs.Integers
import CanScript.Proofs.Exclusion
import CanScript.Proofs.Yielding
import CanScript.Proofs.Arithmetic
import CanScript.Proofs.Random
import CanScript.Proofs.Assignment
