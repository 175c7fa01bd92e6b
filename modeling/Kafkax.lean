import Kafkax.Library.BoundedInt
import Kafkax.Library.Text
import Kafkax.Library.MaxRegister
import Kafkax.Library.Program
import Kafkax.Library.FileSystem
import Kafkax.Error
import Kafkax.OffsetStore
import Kafkax.OffsetFormat
import Kafkax.Library.AtomicReplace
import Kafkax.OffsetFile
import Kafkax.OffsetRefinement
import Kafkax.OffsetDurability
import Kafkax.OffsetSteps
import Kafkax.OffsetStores
import Kafkax.OffsetMeaning
import Kafkax.OffsetOrder
import Kafkax.Library.OwnedLock
import Kafkax.AtLeastOnce
import Kafkax.OffsetLock
import Kafkax.Redelivery
import Kafkax.FileSessions
import Kafkax.Library.Tally
import Kafkax.Library.Watch
import Kafkax.Lifecycle
import Kafkax.Shutdown
import Kafkax.Library.Progress
import Kafkax.Drain
import Kafkax.Gate
import Kafkax.Message
import Kafkax.ErrorMap
import Kafkax.ConsumerTask
import Kafkax.ConsumerProgress
import Kafkax.Producer
import Kafkax.PublishCounters
import Kafkax.Library.SortedMap
import Kafkax.PublishConsume
import Kafkax.LiveSession
import Kafkax.Topic
import Kafkax.ControlPlane
import Kafkax.DriverText
import Kafkax.Library.Interleave
import Kafkax.Stats
import Kafkax.Config
import Kafkax.Redaction
import Kafkax.Library.IpAddress
import Kafkax.Validate
import Kafkax.TomlFile
import Kafkax.Library.Cascade
import Kafkax.Retryable
import Kafkax.Connect
import Kafkax.Library.OnceCell
import Kafkax.TlsProvider
import Kafkax.Library.Unsigned
import Kafkax.EnvVars
import Kafkax.Library.Registers
import Kafkax.Builder
import Kafkax.TomlRange
