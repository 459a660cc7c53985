import Binkd.Accepted
import Binkd.Acknowledge
import Binkd.AddressOrder
import Binkd.AddressText
import Binkd.Agreement
import Binkd.AmigaSessions
import Binkd.Auth
import Binkd.Base64
import Binkd.BeforeLogin
import Binkd.Binding
import Binkd.Binlog
import Binkd.Bsy
import Binkd.Bsycleanup
import Binkd.BusyFlags
import Binkd.CallSelection
import Binkd.Calling
import Binkd.Challenge
import Binkd.Children
import Binkd.CipherWords
import Binkd.CommandTemplate
import Binkd.CompressedFile
import Binkd.ConfigLifetime
import Binkd.DataFrames
import Binkd.Decompress
import Binkd.Duplicates
import Binkd.EditLine
import Binkd.Encryption
import Binkd.FailedStore
import Binkd.Filebox
import Binkd.FloMark
import Binkd.Framing
import Binkd.Getw
import Binkd.HeaderLine
import Binkd.Identity
import Binkd.Lib.Absorb
import Binkd.Lib.Glob
import Binkd.Lib.Prune
import Binkd.Lib.Records
import Binkd.Md5Policy
import Binkd.Md5Stream
import Binkd.Misc.Freq
import Binkd.Misc.FreqPaths
import Binkd.Misc.FreqRun
import Binkd.Misc.MoveFile
import Binkd.Misc.Nodelist
import Binkd.Misc.ParseSrif
import Binkd.Misc.PrivateDirs
import Binkd.Misc.ProcessTic
import Binkd.Misc.RateLimit
import Binkd.Misc.Scan
import Binkd.Misc.SrifAnswer
import Binkd.Misc.Srifreq
import Binkd.Modes
import Binkd.MsgQueue
import Binkd.NextName
import Binkd.NodeTable
import Binkd.NotToSend
import Binkd.Outbound
import Binkd.PartialFiles
import Binkd.PktDialects
import Binkd.PktNames
import Binkd.PktOrigin
import Binkd.Pmatch
import Binkd.Presentation
import Binkd.ProxyReply
import Binkd.QSort
import Binkd.Quoting
import Binkd.Resuming
import Binkd.SentFiles
import Binkd.SharedAkas
import Binkd.Shares
import Binkd.SourceAddress
import Binkd.StatusFirst
import Binkd.Transfer
import Binkd.Tries
