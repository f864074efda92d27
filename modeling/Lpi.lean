import Lpi.Ports.SvshmXfrTotals
import Lpi.Ports.SvmsgFileLoss
import Lpi.Ports.SeqnumUnique
import Lpi.Ports.ThreadMultijoinJoins
import Lpi.Ports.MqNotifyIdle
import Lpi.Ports.CatchRtsigsPause
import Lpi.Ports.UsXfrTransfer
import Lpi.Ports.UdCasePairing
import Lpi.Ports.I6dUcasePairing
import Lpi.Ports.NumericArgsFamilies
import Lpi.Ports.NumericArgsNarrowing
import Lpi.Ports.SvshmXfrShutdown
import Lpi.Ports.SvmsgFileReaper
import Lpi.Ports.PipeSync
import Lpi.Ports.ThreadCleanupRelease
import Lpi.Ports.ThreadIncrMutexTotal
import Lpi.Ports.PshmHistory
import Lpi.Ports.Copy
import Lpi.Ports.SvsemSetall
import Lpi.Ports.FreeAndSbrk
import Lpi.Ports.SeekIoReference
import Lpi.Ports.HexDumps
import Lpi.Ports.IFcntlLockingLanguage
import Lpi.Ports.StripNewline
import Lpi.Ports.DemoInotify
import Lpi.Ports.SvmsgText
import Lpi.Ports.PmsgCreate
import Lpi.Ports.PmsgOptions
import Lpi.Ports.SvmsgCreate
import Lpi.Ports.NftwDirTree
import Lpi.Ports.IdShow
import Lpi.Ports.ListFiles
import Lpi.Ports.FifoSeqnumDescriptors
import Lpi.Ports.PipeLsWc
import Lpi.Ports.SigReceiver
import Lpi.Ports.SvshmXfrCounts
import Lpi.Ports.FilePerms
import Lpi.Ports.RelayLoops
import Lpi.Ports.ReserveSem
import Lpi.Ports.AddressLoops
import Lpi.Ports.ThreadIncr
import Lpi.Ports.SimplePipe
import Lpi.Ports.CmockaStrmatch
import Lpi.Ports.CmockaStrreplace
import Lpi.Ports.CmockaMock
import Lpi.Ports.SvmsgDemoServer
import Lpi.Ports.PmsgTransfer
import Lpi.Ports.TFlock
import Lpi.Ports.SignalFunctions
import Lpi.Ports.SigmaskLongjmp
import Lpi.Ports.NftwListing
import Lpi.Ports.CmockaRunner
import Lpi.Ports.Psem
