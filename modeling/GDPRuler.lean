import GDPRuler.Controller.Clients
import GDPRuler.Controller.Confidentiality
import GDPRuler.Controller.RocksDbClients
import GDPRuler.Controller.Races
import GDPRuler.Controller.LoggerThreads
import GDPRuler.Controller.BrokenLogs
import GDPRuler.Controller.LogRoundTrip
import GDPRuler.Controller.Audit
import GDPRuler.Controller.ReadYourWrites
import GDPRuler.Controller.TypedStore
import GDPRuler.Controller.Purposes
import GDPRuler.Controller.StorageLimitation
import GDPRuler.Controller.Undecryptable
import GDPRuler.Controller.Erasure
import GDPRuler.Controller.Encryption
import GDPRuler.Controller.CipherIntegrity
import GDPRuler.Controller.RocksDbServer
import GDPRuler.Controller.RocksDbGrammar
import GDPRuler.Controller.History
import GDPRuler.Controller.ClientTexts
import GDPRuler.Controller.Rendering
import GDPRuler.Controller.ValueParts
import GDPRuler.Controller.Connection
import GDPRuler.Controller.Exceptions
import GDPRuler.Controller.RequestFraming
import GDPRuler.Controller.Expiration
import GDPRuler.Controller.LogNames
import GDPRuler.Controller.LogSnapshot
import GDPRuler.Controller.MonitoringOn
import GDPRuler.Controller.FailedOpens
import GDPRuler.Controller.OpenFileLimit
import GDPRuler.Controller.Replies
import GDPRuler.Controller.RocksDbSession
import GDPRuler.Controller.PolicyMessages
import GDPRuler.PolicyCompiler.FrontEnds
