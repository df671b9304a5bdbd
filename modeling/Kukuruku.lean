import Kukuruku.Foundation.Fir
import Kukuruku.Foundation.Machine
import Kukuruku.Foundation.PythonList
import Kukuruku.Foundation.Decimal
import Kukuruku.Foundation.PythonNumerals
import Kukuruku.Foundation.Lock
import Kukuruku.Foundation.Framing
import Kukuruku.Foundation.Ring
import Kukuruku.Foundation.Truncate
import Kukuruku.Foundation.Reconcile
import Kukuruku.Foundation.Stdio
import Kukuruku.Foundation.Preprocessor
import Kukuruku.Server.Constants
import Kukuruku.Server.XlateWorker
import Kukuruku.Server.FirBounds
import Kukuruku.Scanner.Xlater
import Kukuruku.Scanner.Carry
import Kukuruku.Server.BlockFilter
import Kukuruku.Server.ChannelChain
import Kukuruku.Server.TapsHandover
import Kukuruku.Server.NewTaps
import Kukuruku.Server.Amplitude
import Kukuruku.Server.SdrReader
import Kukuruku.Server.RecordCommands
import Kukuruku.Server.Recording
import Kukuruku.Server.WorkerThread
import Kukuruku.Server.HistoryStart
import Kukuruku.Server.FrameScale
import Kukuruku.Server.Pipeline
import Kukuruku.Server.WorkerLife
import Kukuruku.Server.OutputRing
import Kukuruku.Server.FrameSupply
import Kukuruku.Server.WorkerExit
import Kukuruku.Server.Spectrum
import Kukuruku.Server.SpectrumReads
import Kukuruku.Server.Histogram
import Kukuruku.Server.SamplingGrid
import Kukuruku.Server.MetadataLoop
import Kukuruku.Server.Messages
import Kukuruku.Server.Endian
import Kukuruku.Server.Bits
import Kukuruku.Server.WireOrder
import Kukuruku.Server.Socket
import Kukuruku.Server.ClientParser
import Kukuruku.Server.Threads
import Kukuruku.Server.Announcements
import Kukuruku.Server.Agreement
import Kukuruku.Server.Connections
import Kukuruku.Server.AgreementRuns
import Kukuruku.Server.SdrIface
import Kukuruku.Server.RadioConfig
import Kukuruku.Server.Subscriptions
import Kukuruku.Server.RequestBytes
import Kukuruku.Server.StreamIntegrity
import Kukuruku.Server.Listener
import Kukuruku.Server.Uninitialised
import Kukuruku.Server.MetadataRequests
import Kukuruku.Server.SubscriptionTable
import Kukuruku.Clients.LibClient
import Kukuruku.Clients.Transport
import Kukuruku.Clients.Payload
import Kukuruku.Clients.Squelch
import Kukuruku.Clients.SquelchDecision
import Kukuruku.Clients.XlaterPanel
import Kukuruku.Clients.XlatersLock
import Kukuruku.Clients.Network
import Kukuruku.Clients.PendingXlaters
import Kukuruku.Clients.Waterfall
import Kukuruku.Clients.RecordRequest
import Kukuruku.Clients.FilterDesign
import Kukuruku.Clients.EngNum
import Kukuruku.Clients.ListMirror
import Kukuruku.Clients.XlaterSet
import Kukuruku.Scanner.XdumpOutput
import Kukuruku.Scanner.Blacklist
import Kukuruku.Scanner.Activity
import Kukuruku.Scanner.ChannelAssignment
import Kukuruku.Scanner.ScanPlan
import Kukuruku.Clients.Requests
import Kukuruku.Clients.WireNetwork
import Kukuruku.Scanner.GainControl
import Kukuruku.Scanner.Noise
import Kukuruku.Scanner.WorkEnds
import Kukuruku.Scanner.FileNames
import Kukuruku.Scanner.Sorter
import Kukuruku.Clients.Programs
import Kukuruku.Clients.RecordButtons
import Kukuruku.Clients.Tuning
import Kukuruku.Clients.Toolbar
import Kukuruku.Scanner.ChannelPlan
