import FlatMachine.Command
import FlatMachine.Script.Meaning
import FlatMachine.Stock.Services
import FlatMachine.Proofs.Machine.Checked
import FlatMachine.Proofs.Machine.Spelling
import FlatMachine.Proofs.Machine.Complaints
import FlatMachine.Proofs.Run
import FlatMachine.Proofs.Invocation.Cancel
import FlatMachine.Proofs.Machine.Soundness
import FlatMachine.Proofs.World.Tick
import FlatMachine.Proofs.Service.Publication
import FlatMachine.Proofs.Service.Order
import FlatMachine.Proofs.Service.Stopped
import FlatMachine.Proofs.Service.Absorbing
import FlatMachine.Proofs.Service.Exactness
import FlatMachine.Proofs.Service.Course
import FlatMachine.Proofs.Stock.Submission
import FlatMachine.Proofs.Invocation.Ending
import FlatMachine.Proofs.Stock.RequestOutcome
import FlatMachine.Proofs.Stock.Verdicts
import FlatMachine.Proofs.Service.Unmatched
import FlatMachine.Proofs.Service.Batch
import FlatMachine.Proofs.Service.Alone
import FlatMachine.Proofs.Service.Registration
import FlatMachine.Proofs.Service.WatchedServices
import FlatMachine.Proofs.Service.CallbackFrame
import FlatMachine.Proofs.Service.Stages
import FlatMachine.Proofs.Service.Crossing
import FlatMachine.Proofs.Service.Commitment
import FlatMachine.Proofs.Service.CandidateTaking
import FlatMachine.Proofs.Service.Passage
import FlatMachine.Proofs.Service.OutcomeOrigin
import FlatMachine.Proofs.Service.TriggeringEvent
import FlatMachine.Proofs.Service.Completion
import FlatMachine.Proofs.Machine.Refusals
import FlatMachine.Proofs.Service.Audience
import FlatMachine.Proofs.Service.Reporting
import FlatMachine.Proofs.Service.Transparency
import FlatMachine.Proofs.Event
import FlatMachine.Proofs.Machine.ContextOverride
import FlatMachine.Proofs.Service.ActionRuns
import FlatMachine.Proofs.Service.StartOverride
