import Wdlp.Policy
import Wdlp.Log.Tail
import Wdlp.Storage.Codecs
import Wdlp.Storage.Kinds
import Wdlp.Storage.Migration
import Wdlp.Storage.NameEffects
import Wdlp.Storage.TwoHosts
import Wdlp.Session.HealthReport
import Wdlp.Session.Pipe
import Wdlp.Service.Trust
import Wdlp.Config.Exactness
import Wdlp.Config.InMemory
import Wdlp.Service.Polling
import Wdlp.Config.Readers
import Wdlp.Server.Linearity
import Wdlp.Server.Dates
import Wdlp.Service.Smbios
import Wdlp.Storage.RecoveryCrash
import Wdlp.Storage.Durability
import Wdlp.Drive.ContextPaths
import Wdlp.Drive.DataCallbacks
import Wdlp.HexDecoders
