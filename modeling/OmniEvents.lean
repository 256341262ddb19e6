import OmniEvents.Lib.IStream
import OmniEvents.Lib.LockOrder
import OmniEvents.Lib.OrdMap
import OmniEvents.Locks
import OmniEvents.LogRecord
import OmniEvents.ReaderLaw
import OmniEvents.TransferOrder
import OmniEvents.CheckpointPass
import OmniEvents.DisconnectLog
import OmniEvents.CheckpointCommit
import OmniEvents.PushConsumerLog
import OmniEvents.CreateChannel
import OmniEvents.TornAppend
import OmniEvents.Overflow
import OmniEvents.PullFailure
import OmniEvents.Destroy
import OmniEvents.WakeUp
import OmniEvents.MainLoop
import OmniEvents.Ownership
import OmniEvents.PullRace
import OmniEvents.TransferPhase
import OmniEvents.LateReply
import OmniEvents.HandshakeEnds
import OmniEvents.DeferredRequests
import OmniEvents.GCServantLocator
import OmniEvents.ListChannels
import OmniEvents.PushPasses
import OmniEvents.Iterator
import OmniEvents.Naming
import OmniEvents.PullSchedule
import OmniEvents.PullGiveUp
import OmniEvents.PushDelivery
import OmniEvents.Criteria
import OmniEvents.ParameterRanges
import OmniEvents.FailedWrites
import OmniEvents.FailedCreation
import OmniEvents.ChannelViews
import OmniEvents.BindName
import OmniEvents.StreamChunks
import OmniEvents.Delivery
import OmniEvents.ServerLife
import OmniEvents.FederationFull
import OmniEvents.Daemon
import OmniEvents.CommandLine
import OmniEvents.NamingTree
import OmniEvents.UniqueIds
import OmniEvents.MainOptions
import OmniEvents.ServerFiles
import OmniEvents.ServerSteps
import OmniEvents.PushThread
