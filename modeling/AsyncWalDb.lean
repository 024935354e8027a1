import AsyncWalDb.CheckpointGap
import AsyncWalDb.CrashCut
import AsyncWalDb.TornTail
import AsyncWalDb.Acknowledged
import AsyncWalDb.FailedDrain
import AsyncWalDb.CommitOrder
import AsyncWalDb.Serializable
import AsyncWalDb.RecoverLive
import AsyncWalDb.CheckpointRace
import AsyncWalDb.SerialMap
import AsyncWalDb.Conserved
import AsyncWalDb.QueueBound
import AsyncWalDb.LostWakeup
import AsyncWalDb.RoundTrip
import AsyncWalDb.Shutdown
import AsyncWalDb.Truncation
import AsyncWalDb.Clones
import AsyncWalDb.Lifetimes
import AsyncWalDb.EmptyKey
import AsyncWalDb.Invisible
import AsyncWalDb.Format
import AsyncWalDb.LongestPrefix
import AsyncWalDb.AllOrNothing
import AsyncWalDb.LastWriter
import AsyncWalDb.CheckpointRecover
import AsyncWalDb.CheckpointExits
import AsyncWalDb.RecoverExits
import AsyncWalDb.Statistics
import AsyncWalDb.TornMarker
import AsyncWalDb.OrphanHeader
import AsyncWalDb.DroppedAppend
import AsyncWalDb.Lib.Settling
import AsyncWalDb.Quiescence
import AsyncWalDb.CheckpointAtomic
import AsyncWalDb.Corruption
import AsyncWalDb.FlushNotify
import AsyncWalDb.Isolation
import AsyncWalDb.Restarts
import AsyncWalDb.Scheduler
import AsyncWalDb.SelfDraining
import AsyncWalDb.Capacity
import AsyncWalDb.LockFree
import AsyncWalDb.OwnFiles
