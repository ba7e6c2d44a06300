import Otservpp.ByteMemory
import Otservpp.ByteParser
import Otservpp.Crypto
import Otservpp.BlockCipher
import Otservpp.ProgramLogic
import Otservpp.Instrumented
import Otservpp.EventSystem
import Otservpp.InMessage
import Otservpp.FrameReads
import Otservpp.OutMessage
import Otservpp.WireFormat
import Otservpp.OutPrefixes
import Otservpp.FieldCodec
import Otservpp.AtomicReads
import Otservpp.Connection
import Otservpp.Lifecycle
import Otservpp.SendLoop
import Otservpp.SendQueue
import Otservpp.Dispatch
import Otservpp.Teardown
import Otservpp.ReceiveLoop
import Otservpp.ReceiveFraming
import Otservpp.ReceiveServing
import Otservpp.ReadTargets
import Otservpp.Ownership
import Otservpp.OwnedRuns
import Otservpp.Lifetime
import Otservpp.Destruction
import Otservpp.Aftermath
import Otservpp.ServiceManager
import Otservpp.TimeoutCoverage
import Otservpp.Login
import Otservpp.Credentials
import Otservpp.AccountLogin
import Otservpp.CharacterList
import Otservpp.ConnectionPool
import Otservpp.SlotDeque
import Otservpp.PoolConnect
import Otservpp.RollingSum
import Otservpp.Corruption
import Otservpp.PeerAssertions
import Otservpp.ChecksumTrace
import Otservpp.TimerWaits
import Otservpp.IntervalTask
import Otservpp.SqlFetch
import Otservpp.SqlRelease
import Otservpp.WorkerThreads
import Otservpp.Offload
import Otservpp.SqlOperations
import Otservpp.SqlProgress
import Otservpp.Scheduler
import Otservpp.DeferredTask
import Otservpp.IntervalOwners
import Otservpp.Traversal
import Otservpp.ObjectToTuple
import Otservpp.TranslationErrors
