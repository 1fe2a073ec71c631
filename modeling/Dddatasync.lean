import Dddatasync.Library.AssocMap
import Dddatasync.Library.OsString
import Dddatasync.Library.FileSystem
import Dddatasync.Library.LinkTree
import Dddatasync.Library.TreeChanges
import Dddatasync.Library.Runs
import Dddatasync.Library.LastWrite
import Dddatasync.Library.Linearizable
import Dddatasync.Library.XorBlock
import Dddatasync.Library.Text
import Dddatasync.Library.Json
import Dddatasync.Library.Framing
import Dddatasync.Library.JsonText
import Dddatasync.TempNames
import Dddatasync.Store
import Dddatasync.StoreOps
import Dddatasync.FailedAdd
import Dddatasync.StoreThreads
import Dddatasync.StoreConcurrent
import Dddatasync.StoreHistory
import Dddatasync.StoreLinearizable
import Dddatasync.AddedFiles
import Dddatasync.Watcher
import Dddatasync.Address
import Dddatasync.Sync
import Dddatasync.TempClashes
import Dddatasync.Messages
import Dddatasync.Answers
import Dddatasync.FailedPull
import Dddatasync.ReceiveLimits
import Dddatasync.Network
import Dddatasync.NetworkMoves
import Dddatasync.Circulation
import Dddatasync.Quiescence
import Dddatasync.LastWriteWins
import Dddatasync.Spreading
import Dddatasync.PullSteps
import Dddatasync.PullFrame
import Dddatasync.Writers
import Dddatasync.VisibleFiles
import Dddatasync.Pushing
import Dddatasync.PushAcks
import Dddatasync.NotifyLoop
import Dddatasync.Delivery
import Dddatasync.Cleanup
import Dddatasync.GuardedDirs
import Dddatasync.StoppedAdd
import Dddatasync.Removal
import Dddatasync.NameFilters
import Dddatasync.Leftovers
import Dddatasync.Rendezvous.Registry
import Dddatasync.Rendezvous.PyRegistry
import Dddatasync.Rendezvous.Server
import Dddatasync.Rendezvous.History
import Dddatasync.Rendezvous.Ownership
import Dddatasync.Rendezvous.AccountMoves
import Dddatasync.Rendezvous.Calls
import Dddatasync.Rendezvous.RecordHistory
import Dddatasync.Rendezvous.AccountHistory
import Dddatasync.Rendezvous.Accounts
import Dddatasync.Rendezvous.Verification
import Dddatasync.Rendezvous.Stranded
import Dddatasync.Rendezvous.Approval
import Dddatasync.Rendezvous.LoginWork
import Dddatasync.Rendezvous.Refusals
import Dddatasync.Rendezvous.Wire
import Dddatasync.Rendezvous.PyServer
import Dddatasync.Rendezvous.PyVerify
import Dddatasync.Rendezvous.PyApi
import Dddatasync.Rendezvous.PyViews
import Dddatasync.Rendezvous.PyTables
import Dddatasync.Rendezvous.PyAccountHistory
import Dddatasync.Rendezvous.PyRecordHistory
import Dddatasync.Rendezvous.PyOwnership
import Dddatasync.Rendezvous.PyRevocation
import Dddatasync.Rendezvous.PeerAnswers
import Dddatasync.Rendezvous.SameApi
import Dddatasync.Rendezvous.Presence
import Dddatasync.Rendezvous.Revocation
import Dddatasync.Rendezvous.Serial
import Dddatasync.Rendezvous.SessionPruning
import Dddatasync.Rendezvous.Credentials
import Dddatasync.Rendezvous.RustCredentials
import Dddatasync.Rendezvous.Attribution
import Dddatasync.Rendezvous.PyCredentials
import Dddatasync.Auth
import Dddatasync.LocalLogin
import Dddatasync.IdentityFormat
import Dddatasync.SecretFiles
import Dddatasync.Salts
import Dddatasync.Enrolment
import Dddatasync.Client
import Dddatasync.OneServer
import Dddatasync.PeerPush
import Dddatasync.AddressWire
import Dddatasync.WatcherLoop
import Dddatasync.Keepalive
import Dddatasync.DialedPeers
