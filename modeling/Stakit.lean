import Stakit.OrmIdentifiers
import Stakit.ModelValidation
import Stakit.ClaudeRequests
import Stakit.StreamChunks
import Stakit.StreamBytes
import Stakit.ModelNames
import Stakit.McpHttp
import Stakit.OpenAiUsage
import Stakit.OrmGeo
import Stakit.McpTools
import Stakit.OrmNanoid
import Stakit.OrmProjections
import Stakit.EagerLoading
import Stakit.TursoValues
import Stakit.InsertAlignment
import Stakit.ClientChunks
import Stakit.StreamCalls
import Stakit.ClientBatches
import Stakit.ClientHeaders
import Stakit.DeviceOutcomes
import Stakit.InboundRate
import Stakit.SessionSpares
import Stakit.RoleStatements
import Stakit.StoredResponses
import Stakit.SchemaAdmits
import Stakit.TsDescribes
import Stakit.AgentMetering
import Stakit.SocketCalls
import Stakit.OrmUpserts
import Stakit.OrmFilters
import Stakit.AgentPairing
import Stakit.AgentEvents
import Stakit.AgentReplay
import Stakit.TursoSession
import Stakit.DatabaseMigrations
import Stakit.PostgresReplayGuard
import Stakit.PubsubTopicKeys
import Stakit.PubsubPublishOrder
import Stakit.PubsubServerSubscription
import Stakit.PubsubKicks
import Stakit.PubsubResets
import Stakit.PubsubDevices
import Stakit.SocketDelivery
import Stakit.SocketClose
import Stakit.PubsubGaps
import Stakit.SessionErrorCodes
import Stakit.SchemaNames
import Stakit.MigrationReady
import Stakit.AgentBudget
import Stakit.ClientFrames
import Stakit.MigrationWarnings
