import Orchestrator.Contract
import Orchestrator.Invariants.Blocking
import Orchestrator.Invariants.Budget
import Orchestrator.Invariants.Plans
import Orchestrator.Events.Late
import Orchestrator.Events.StopRace
import Orchestrator.Dispatch.Conserving
import Orchestrator.Host.Revisions
import Orchestrator.Host.ActiveTime
import Orchestrator.Events.Log
import Orchestrator.Events.ReportLog
import Orchestrator.Events.Held
import Orchestrator.Events.Materialize
import Orchestrator.Events.Questions
import Orchestrator.Events.Reviews
import Orchestrator.Events.Delivered
import Orchestrator.Instance.Epoch
import Orchestrator.Host.Gapless
import Orchestrator.Dispatch.Retries
import Orchestrator.Events.Acks
import Orchestrator.Events.Handled
import Orchestrator.Events.Pages
import Orchestrator.Events.Collected
import Orchestrator.Coordinator.WaitEvents
import Orchestrator.Host.Grants
import Orchestrator.Storage.Quota
import Orchestrator.Storage.Bodies
import Orchestrator.Fleet.Cap
import Orchestrator.Fleet.Fence
import Orchestrator.Fleet.Pins
import Orchestrator.Fleet.Rebinds
import Orchestrator.Coordinator.Sessions
import Orchestrator.Coordinator.Owners
import Orchestrator.Coordinator.Exit
import Orchestrator.Store.Summary
import Orchestrator.Events.Eligible
import Orchestrator.Host.Crash
import Orchestrator.Host.Leftover
import Orchestrator.Host.Lost
import Orchestrator.Coordinator.Dispatch
import Orchestrator.Host.Deadlock
import Orchestrator.Host.Chunking
import Orchestrator.Host.Ambiguous
import Orchestrator.Native.Pairing
import Orchestrator.Native.Retained
import Orchestrator.Native.Released
import Orchestrator.Native.Decoding
import Orchestrator.Native.Verdict
import Orchestrator.Native.Apart
import Orchestrator.Native.Receipts
import Orchestrator.Bridge.Generations
import Orchestrator.Bridge.Stages
import Orchestrator.Library.Sections
import Orchestrator.Install.Kept
import Orchestrator.Install.Package
import Orchestrator.Install.Recovery
import Orchestrator.Install.Recovered
import Orchestrator.Install.Submit
import Orchestrator.Gitops.Integrate
import Orchestrator.Gitops.Journal
import Orchestrator.Gitops.Recorded
import Orchestrator.Gitops.Removal
