import Intcode.Main
import Intcode.Proofs.Machine.Session
import Intcode.Proofs.Processor.Execution
import Intcode.Proofs.Machine.Course
import Intcode.Proofs.Circuit.Network
import Intcode.Proofs.Machine.Feeding
import Intcode.Proofs.Machine.Output
import Intcode.Proofs.Circuit.Traffic
import Intcode.Proofs.Circuit.Visit
import Intcode.Proofs.Circuit.Schedule
import Intcode.Proofs.Circuit.Streams
import Intcode.Proofs.Machine.Failure
import Intcode.Proofs.Circuit.Series
import Intcode.Proofs.Circuit.Deadlock
import Intcode.Proofs.Circuit.Backlog
import Intcode.Proofs.Machine.Input
import Intcode.Proofs.Circuit.Conservation
import Intcode.Proofs.Machine.Status
import Intcode.Proofs.Listing.RoundTrip
import Intcode.Proofs.Machine.Rounds
import Intcode.Proofs.Command.Solo
import Intcode.Proofs.Command.Dump
import Intcode.Proofs.Command.Sparse
import Intcode.Proofs.Circuit.OneShot
import Intcode.Proofs.Circuit.Finished
import Intcode.Proofs.Store.Access
import Intcode.Proofs.Store.Layout
import Intcode.Proofs.Instruction.Packed
import Intcode.Proofs.Hazard.Basic
import Intcode.Proofs.Hazard.Store
import Intcode.Proofs.Hazard.Machine
import Intcode.Proofs.Hazard.Circuit
import Intcode.Proofs.Hazard.Safety
import Intcode.Proofs.Machine.Effect
import Intcode.Proofs.Machine.Drivers
import Intcode.Proofs.Machine.History
import Intcode.Proofs.Circuit.CleanStop
import Intcode.Proofs.Circuit.Progress
import Intcode.Proofs.Command.Arguments
import Intcode.Proofs.Text.Legible
import Intcode.Proofs.Log.Trace
