import AttackMap.Loop.Rehearsal
import AttackMap.Main
import AttackMap.Peer
import AttackMap.Proofs.Client.Accounts
import AttackMap.Proofs.Client.Parts
import AttackMap.Proofs.Client.Repetition
import AttackMap.Proofs.Config.Checks
import AttackMap.Proofs.Config.Stream
import AttackMap.Proofs.Control.Wakeups
import AttackMap.Proofs.Filter.Declaration
import AttackMap.Proofs.Filter.Stored
import AttackMap.Proofs.Frame.Decay
import AttackMap.Proofs.Frame.Finite
import AttackMap.Proofs.Frame.Impact
import AttackMap.Proofs.Journal.Changes
import AttackMap.Proofs.Liveness.History
import AttackMap.Proofs.Load.Windows
import AttackMap.Proofs.Loop.Admission
import AttackMap.Proofs.Loop.Attuned
import AttackMap.Proofs.Loop.Resyncs
import AttackMap.Proofs.Message.Delivery
import AttackMap.Proofs.Message.Rewriting
import AttackMap.Proofs.Reconnect.Streak
import AttackMap.Proofs.Resync.Request
import AttackMap.Proofs.Resync.TwoWays
import AttackMap.Proofs.Session.Frames
import AttackMap.Proofs.Session.Upkeep
