import CarAuction.Calls
import CarAuction.Schedule
import CarAuction.AuctionRow
import CarAuction.LostUpdate
import CarAuction.SerialBids
import CarAuction.ClosingRace
import CarAuction.BidAmounts
import CarAuction.Redelivery
import CarAuction.CacheCoherence
import CarAuction.CrashRecovery
import CarAuction.Lib.Topic
import CarAuction.Routing
import CarAuction.Gateway
import CarAuction.Lib.PubSub
import CarAuction.Jobs
import CarAuction.Delivery
import CarAuction.EventStream
import CarAuction.EndedOnce
import CarAuction.CloseRetry
import CarAuction.Lib.Isolation
import CarAuction.PhantomState
import CarAuction.NonInterference
import CarAuction.Guards
import CarAuction.Mediation
import CarAuction.Freshness
import CarAuction.Sessions
import CarAuction.JoinAuction
import CarAuction.ConnectionCaps
import CarAuction.DisconnectRace
import CarAuction.JoiningClient
import CarAuction.SessionLaw
import CarAuction.GhostPresence
import CarAuction.PresenceRace
import CarAuction.SessionExpiry
import CarAuction.Lib.Window
import CarAuction.Throttle
import CarAuction.ThrottleRace
import CarAuction.WholeCalls
import CarAuction.CachedAnswer
import CarAuction.SaleTerms
import CarAuction.Browser
import CarAuction.ShownBids
import CarAuction.Lib.Sends
import CarAuction.AuditTrail
import CarAuction.Lib.Fields
import CarAuction.IpBuckets
import CarAuction.Lib.Keyspace
import CarAuction.KeySchema
import CarAuction.StoredRegistry
import CarAuction.SocketLookups
import CarAuction.Lib.SerialTable
import CarAuction.Accounts
import CarAuction.AccountLaws
import CarAuction.Backend
import CarAuction.Provenance
import CarAuction.WinnerNames
import CarAuction.ServerRefines
import CarAuction.LedgerReplay
import CarAuction.Presence
import CarAuction.PresenceShown
import CarAuction.Page
import CarAuction.RoomCloses
