import Musgos.Foundation.GoMap
import Musgos.Foundation.Census
import Musgos.Foundation.Bytes
import Musgos.Foundation.UnixPath
import Musgos.Foundation.SqlText
import Musgos.Foundation.SqlLexer
import Musgos.Foundation.SqlCommands
import Musgos.Foundation.Base64
import Musgos.Foundation.Utf8
import Musgos.Foundation.Float64
import Musgos.Foundation.Chunking
import Musgos.Foundation.TokenBucket
import Musgos.Foundation.Transition
import Musgos.Foundation.TwoRuns
import Musgos.Foundation.Redis
import Musgos.Foundation.RedisExpiry
import Musgos.Foundation.RedisKeyspace
import Musgos.Foundation.Leases
import Musgos.Foundation.PackedTable
import Musgos.Foundation.Feistel
import Musgos.Foundation.Savepoints
import Musgos.Lingo.Value
import Musgos.Lingo.Wire
import Musgos.Lingo.WireTotal
import Musgos.Lingo.RoundTrip
import Musgos.Lingo.SelfDelimiting
import Musgos.Lingo.Text
import Musgos.Lingo.Codec
import Musgos.Lingo.Storage
import Musgos.Lingo.Lua
import Musgos.Lingo.LuaEcho
import Musgos.Lingo.LuaArray
import Musgos.Lingo.Binary
import Musgos.Lingo.Safety
import Musgos.Lingo.Reach
import Musgos.Lingo.Amplification
import Musgos.Lingo.Access
import Musgos.Smus.Message
import Musgos.Smus.Parsing
import Musgos.Smus.DeclaredSize
import Musgos.Domain.Ports
import Musgos.Services.Session
import Musgos.Services.Logon
import Musgos.Services.Authorizer
import Musgos.Services.MigrationRunner
import Musgos.Outbound.SessionStore
import Musgos.Outbound.SessionOps
import Musgos.Outbound.RedisSessionStore
import Musgos.Outbound.StoreAgreement
import Musgos.Outbound.RedisRooms
import Musgos.Outbound.SessionExpiry
import Musgos.Outbound.LuaJson
import Musgos.Outbound.ScriptLocks
import Musgos.Outbound.ScriptLongLocks
import Musgos.Outbound.ScriptResolution
import Musgos.Outbound.ModuleLoader
import Musgos.Outbound.TokenStore
import Musgos.Outbound.CacheAgreement
import Musgos.Outbound.TimedCache
import Musgos.Outbound.JsonIntegers
import Musgos.Outbound.MemoryLock
import Musgos.Outbound.RedisLock
import Musgos.Outbound.RedisQueue
import Musgos.Outbound.SqlDb
import Musgos.Outbound.AttributeStore
import Musgos.Outbound.BanHistory
import Musgos.Outbound.SqlDialect
import Musgos.Outbound.QueryBuilder
import Musgos.Outbound.QueryAlignment
import Musgos.Outbound.QueryMeaning
import Musgos.Outbound.SchemaText
import Musgos.Outbound.SchemaReading
import Musgos.Outbound.ColumnMigrations
import Musgos.Outbound.ScriptTransactions
import Musgos.Outbound.SqlSavepoints
import Musgos.Outbound.BlowfishBoxes
import Musgos.Outbound.Blowfish
import Musgos.Outbound.StreamCipher
import Musgos.Outbound.BlockTransform
import Musgos.Inbound.ConnPool
import Musgos.Inbound.TcpFraming
import Musgos.Inbound.PoolWrites
import Musgos.Inbound.Relay
import Musgos.Inbound.WholePacket
import Musgos.Sessions.System
import Musgos.Sessions.Takeover
import Musgos.Sessions.Presence
import Musgos.Sessions.LogonOutcome
import Musgos.Mus.World
import Musgos.Mus.Movie
import Musgos.Mus.GroupRace
import Musgos.Mus.MovieRace
import Musgos.Mus.Commands
import Musgos.Mus.DbCommands
import Musgos.Mus.SystemService
import Musgos.Mus.Sender
import Musgos.Mus.Dispatcher
import Musgos.Mus.Standalone
import Musgos.Mus.Levels
import Musgos.Mus.PlayerData
import Musgos.Mus.NoPanic
import Musgos.Mus.Rooms
import Musgos.Mus.Isolation
import Musgos.Inbound.RateLimiter
import Musgos.Inbound.BanChecker
import Musgos.Inbound.TimerManager
import Musgos.Inbound.TimerCommands
import Musgos.Inbound.SmusHandler
