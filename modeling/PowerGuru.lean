import PowerGuru.Common
import PowerGuru.Lib.Bytes
import PowerGuru.Lib.Strtol
import PowerGuru.Devices.Serial
import PowerGuru.Devices.OutbackParse
import PowerGuru.Devices.OutbackChecksum
import PowerGuru.Devices.OutbackFrame
import PowerGuru.Devices.OutbackWire
import PowerGuru.Devices.OutbackMain
import PowerGuru.Net.Xml
import PowerGuru.Net.Commands
import PowerGuru.Daemon.ClientHandler
import PowerGuru.Daemon.ClientRuns
import PowerGuru.Daemon.CommandStream
import PowerGuru.Net.Tcpip
import PowerGuru.Net.TcpipFraming
import PowerGuru.Devices.Menu
import PowerGuru.Devices.XantrexTable
import PowerGuru.Lib.Loops
import PowerGuru.Devices.XantrexUI
import PowerGuru.Devices.XantrexCursor
import PowerGuru.Lib.AssocMap
import PowerGuru.Net.XmlFaithful
import PowerGuru.Client.Console
import PowerGuru.Client.Replies
import PowerGuru.Devices.XantrexValid
import PowerGuru.Devices.Ownet
import PowerGuru.Lib.Carry
import PowerGuru.Python.Remote
import PowerGuru.Devices.Onewire
import PowerGuru.Devices.SensorIsolation
import PowerGuru.Devices.Discovery
import PowerGuru.Lib.Numeral
import PowerGuru.Lib.SqlLiteral
import PowerGuru.Store.Database
import PowerGuru.Store.Writers
import PowerGuru.Lib.Utf8
import PowerGuru.Net.XmlText
import PowerGuru.Net.XmlCost
import PowerGuru.Net.XmlVerbatim
import PowerGuru.Net.XmlRoundTrip
import PowerGuru.Devices.OutbackVerdict
import PowerGuru.Host.ProcessTable
import PowerGuru.Lib.Handles
import PowerGuru.Net.Descriptors
import PowerGuru.Net.Encodings
import PowerGuru.Net.HeloPeers
import PowerGuru.Net.MeterQuery
import PowerGuru.Lib.Words
import PowerGuru.Host.Rc
import PowerGuru.Lib.PyRepr
import PowerGuru.Python.Sensor
import PowerGuru.Lib.NullableTable
import PowerGuru.Lib.SqlText
import PowerGuru.Lib.Times
import PowerGuru.Store.Mergedb
import PowerGuru.Store.Weather
import PowerGuru.Net.Messages
import PowerGuru.Net.XmlAttribute
import PowerGuru.Devices.OutbackFailure
import PowerGuru.Devices.OutbackHistory
import PowerGuru.Daemon.ReplyText
import PowerGuru.Net.XmlValues
import PowerGuru.Net.TcpipWriting
import PowerGuru.Lib.Strtod
import PowerGuru.Devices.XantrexValues
import PowerGuru.Devices.XantrexPoll
import PowerGuru.Devices.XantrexReadings
import PowerGuru.Devices.XantrexRecords
import PowerGuru.Lib.Rounds
import PowerGuru.Devices.XantrexText
import PowerGuru.Devices.MenuTable
import PowerGuru.Lib.Hex
import PowerGuru.Devices.OnewireId
import PowerGuru.Lib.Binary32
import PowerGuru.Devices.OnewireBus
import PowerGuru.Net.VersionGate
import PowerGuru.Lib.Calendar
import PowerGuru.Python.Rtl433
import PowerGuru.Python.Rtl433Limit
import PowerGuru.Python.Options
import PowerGuru.Python.Gpiots
import PowerGuru.Net.Dispatch
import PowerGuru.Net.Cache
import PowerGuru.Client.ActionTable
import PowerGuru.Store.Mariadb
import PowerGuru.Net.Connecting
import PowerGuru.Devices.SerialRead
import PowerGuru.Net.AddrInfo
import PowerGuru.Net.PrintMsg
import PowerGuru.Web.XmlArray
import PowerGuru.Net.NodeEffects
import PowerGuru.Net.Exchange
import PowerGuru.Net.AnswerFraming
import PowerGuru.Devices.OutbackStore
import PowerGuru.Lib.Sweep
import PowerGuru.Daemon.Polling
import PowerGuru.Store.Schema
import PowerGuru.Daemon.OwnetPolling
import PowerGuru.Net.XmlBarrier
import PowerGuru.Python.SensorXml
import PowerGuru.Python.OwnetHandler
import PowerGuru.Daemon.CommandTexts
import PowerGuru.Client.Session
import PowerGuru.Web.Control
import PowerGuru.Web.PageRequests
