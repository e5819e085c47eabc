import PetProject.Foundation.Transition
import PetProject.Foundation.Tally
import PetProject.Foundation.TextSearch
import PetProject.ThreadPool.Model
import PetProject.ThreadPool.Ownership
import PetProject.ThreadPool.Wakeup
import PetProject.ThreadPool.Draining
import PetProject.ThreadPool.Shutdown
import PetProject.ThreadPool.Outliving
import PetProject.Foundation.FairRuns
import PetProject.ThreadPool.Unshrunk
import PetProject.ThreadPool.Stopping
import PetProject.Watch.Inotify
import PetProject.Foundation.SqlLexer
import PetProject.Workers.Sql
import PetProject.Workers.Model
import PetProject.Http.Requests
import PetProject.Http.Injection
import PetProject.Watch.Uuid
import PetProject.Foundation.MultiplyShift
import PetProject.Watch.BoundedRandom
import PetProject.Watch.SongData
import PetProject.Http.Resolve
import PetProject.Foundation.KeyedReplay
import PetProject.Watch.Mirror
import PetProject.Watch.Recording
import PetProject.Watch.Commuting
import PetProject.Watch.FileOps
import PetProject.Watch.Replacing
import PetProject.Watch.Feedback
import PetProject.Watch.Contention
import PetProject.Watch.Destruction
import PetProject.Daemon.Config
import PetProject.Daemon.SectionReads
import PetProject.Daemon.HttpMain
import PetProject.Daemon.Startup
import PetProject.Daemon.Refusal
import PetProject.Daemon.Life
import PetProject.Daemon.Logging
import PetProject.Logger.Retention
import PetProject.Logger.Rotation
import PetProject.Foundation.BlockCode
import PetProject.Foundation.Calendar
import PetProject.Foundation.FixedWidth
import PetProject.Foundation.Numerals
import PetProject.Workers.Timestamps
import PetProject.Foundation.Handles
import PetProject.Workers.PostgreHandles
import PetProject.Workers.SQLiteHandles
import PetProject.Workers.Interchange
import PetProject.Foundation.LowestFree
import PetProject.Http.Handling
import PetProject.Http.Descriptors
import PetProject.Http.Routing
import PetProject.Foundation.GrowingBuffer
import PetProject.Json1.Accumulator
import PetProject.Json1.Functions
import PetProject.Json1.Aggregates
import PetProject.Json1.Songs
import PetProject.Watch.Settling
import PetProject.Http.Serving
import PetProject.Foundation.LockedCalls
import PetProject.Logger.Concurrent
import PetProject.ThreadPool.Starvation
import PetProject.Foundation.JsonGrammar
import PetProject.Json1.Parser
import PetProject.Json1.Scanning
import PetProject.Json1.Parsing
import PetProject.Json1.Acceptance
