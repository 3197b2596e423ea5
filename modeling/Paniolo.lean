import Paniolo.Library.Machine
import Paniolo.Library.BigEndian
import Paniolo.Library.Fifo
import Paniolo.Library.Utf8
import Paniolo.Library.Utf8Cut
import Paniolo.Library.OrderedMap
import Paniolo.Library.Grid
import Paniolo.Library.Lines
import Paniolo.Library.JsonText
import Paniolo.Library.JsonValue
import Paniolo.Library.FileTree
import Paniolo.Library.Text
import Paniolo.Library.H264
import Paniolo.Library.Dialogue
import Paniolo.Library.Reader
import Paniolo.Daemon.Lifecycle
import Paniolo.Netbootd.Tftp.Transfer
import Paniolo.Netbootd.Tftp.Agreement
import Paniolo.Netbootd.Dhcp.Packet
import Paniolo.Netbootd.Dhcp.Serve
import Paniolo.Netbootd.Http
import Paniolo.Netbootd.BootUrl
import Paniolo.Hdmicap.PixelFormat
import Paniolo.Hdmicap.RfbServe.ClientFb
import Paniolo.Hdmicap.Zrle.Tile
import Paniolo.Hdmicap.RfbServe.Viewer
import Paniolo.Hdmicap.RfbServe.HeldKeys
import Paniolo.Hdmicap.Zrle.RoundTrip
import Paniolo.Hdmicap.Zrle.Size
import Paniolo.Hdmicap.Rfb
import Paniolo.Hdmicap.Rfb.Pixels
import Paniolo.Hdmicap.Rfb.Robust
import Paniolo.Library.Mixing
import Paniolo.Library.Streak
import Paniolo.Hdmicap.Digest
import Paniolo.Hdmicap.Settle
import Paniolo.Hdmicap.RfbServe.Inbound
import Paniolo.Hdmicap.Snapshot
import Paniolo.Hdmicap.Capture
import Paniolo.Hdmicap.Preview
import Paniolo.Netbootd.Http.Connection
import Paniolo.Netbootd.Dhcp.Codec
import Paniolo.Netbootd.Frame
import Paniolo.Serialcap.Auth
import Paniolo.Daemon.Gate
import Paniolo.Serialcap.Journal.Record
import Paniolo.Serialcap.Journal.Concurrent
import Paniolo.Serialcap.Journal.Restart
import Paniolo.Serialcap.Journal.TornTail
import Paniolo.HidProtocol.Typing
import Paniolo.Hidrig.Typing
import Paniolo.Hidrig.Dispatch
import Paniolo.Hidrig.InStep
import Paniolo.Hidrig.Uart
import Paniolo.Hidrig.Resync
import Paniolo.Hidrig.Owner
import Paniolo.Ch9329.Uart
import Paniolo.Ch9329.Typing
import Paniolo.Ch9329.TypeText
import Paniolo.Ch9329.LettingGo
import Paniolo.Jetkvm.Typing
import Paniolo.Jetkvm.Failing
import Paniolo.Jetkvm.Takeover
import Paniolo.Jetkvm.Rfb
import Paniolo.Jetkvm.Calls
import Paniolo.Jetkvm.Sps.PictureSize
import Paniolo.Jetkvm.Sps.Encoding
import Paniolo.Jetkvm.Sps.Stream
import Paniolo.Jetkvm.Video
import Paniolo.Jetkvm.Viewers
import Paniolo.Serialcap.Journal.Paging
import Paniolo.Serialcap.LineLog.Ingest
import Paniolo.Serialcap.LineLog.Strip
import Paniolo.Serialcap.LineLog.Reopen
import Paniolo.Serialcap.Stream
import Paniolo.Serialcap.Transaction
import Paniolo.Serialcap.Timestamp
import Paniolo.Serialcap.Wait.Reconnect
import Paniolo.Serialcap.Wait.Output
import Paniolo.Zigplug.Owner
import Paniolo.Cli.Accepted
import Paniolo.Cli.DoctorCommand
import Paniolo.Cli.HookLock
import Paniolo.Cli.Subnets
import Paniolo.Cli.ToolCalls
import Paniolo.Cli.Ssh
import Paniolo.Cli.Interface
import Paniolo.Cli.Strays
import Paniolo.Cli.Reap
import Paniolo.Cli.Reexec.Kept
import Paniolo.Library.Str
import Paniolo.Library.Xml
import Paniolo.Amt.XmlText
import Paniolo.Amt.Elements
import Paniolo.Amt.KvmPut
