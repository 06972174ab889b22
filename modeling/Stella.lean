import Stella.Conversation.Socket.Overflow
import Stella.Conversation.Socket.Scope
import Stella.Conversation.Socket.Watch
import Stella.Archive.Purge
import Stella.Conversation.Hub.Resume
import Stella.AgentActivity.Cache
import Stella.Conversation.Store.Cursor
import Stella.World.Intact
import Stella.OwnerGate.Settled
import Stella.OwnerGate.Deadlines
import Stella.OwnerGate.Once
import Stella.AgentThreads.Order
import Stella.Billing.Converge
import Stella.AgentThreads.Fenced
import Stella.AgentThreads.Delivered
import Stella.AgentThreads.Stopped
import Stella.Schedules.Pending
import Stella.Billing.Booked
import Stella.World.Commit
import Stella.ChatLog.Derived
import Stella.Drive.Turns
import Stella.AgentRecords.Kept
import Stella.OwnerJobs.Armed
import Stella.Media.Once
import Stella.JournalWrites.Once
import Stella.Pairing.Challenge
import Stella.TurnStates.Restorable
import Stella.OwnerLeases.Named
import Stella.MemoryGrants.Frozen
import Stella.Timeline.Pages
import Stella.Gateway.Accounts
import Stella.Gateway.Accounted
import Stella.Gateway.Solvent
import Stella.UserAsks.Closed
import Stella.Journal.AppendBudget
import Stella.Archive.Accounts
import Stella.Journal.Repair
import Stella.OwnerFence.Sound
import Stella.Conversation.Store.Bounded
import Stella.MemorySync.Passes
import Stella.FileWriteLock.Orders
import Stella.TurnCancellations.Ledger
import Stella.Patch.Read
import Stella.AgentActivity.Order
import Stella.Edit.Anchored
import Stella.Edit.Applied
import Stella.Outbox.Returned
import Stella.ToolOutput.HeadTail
import Stella.ToolOutput.Truncate
import Stella.AgentControls.Merge
import Stella.RunEvents.Log
import Stella.Schedules.Spacing
import Stella.Drive.Deletions
import Stella.ThreadRows.Bounded
import Stella.ToolOutput.Exact
import Stella.RunLane
import Stella.Billing.Months
import Stella.Gateway.TierBudget
import Stella.Gateway.Sse
