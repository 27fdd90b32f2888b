import PMTester.Lib.Bytes
import PMTester.Lib.Memory
import PMTester.Lib.Loop
import PMTester.Lib.Word
import PMTester.Lib.Run
import PMTester.Lib.Transfer
import PMTester.Lib.IStream
import PMTester.Lib.Span
import PMTester.Lib.Bits
import PMTester.Lib.Text
import PMTester.Types
import PMTester.DiskMod
import PMTester.Codec
import PMTester.FsFns
import PMTester.RecordOps
import PMTester.RecordedMods
import PMTester.Posix
import PMTester.FrameSize
import PMTester.ChangeLog
import PMTester.LogRoundTrip
import PMTester.WriteTracker
import PMTester.Replayer
import PMTester.TraceReplay
import PMTester.TraceEvents
import PMTester.RedoLog
import PMTester.Passthrough
import PMTester.Transparency
import PMTester.TesterCheck
import PMTester.DiskContents
import PMTester.DiskSoundness
import PMTester.Namespace
import PMTester.Descriptors
import PMTester.RenamePaths
import PMTester.TestResults
import PMTester.MmapTable
import PMTester.DeadNames
import PMTester.CutLog
import PMTester.WriteData
import PMTester.WriteDataMmap
import PMTester.ReceiveReply
import PMTester.HostFs
import PMTester.DeleteFiles
import PMTester.DeleteTree
import PMTester.SanityChecks
import PMTester.FailedCalls
import PMTester.WriteLocation
import PMTester.MsyncLocation
import PMTester.MsyncPath
import PMTester.Fallocate
import PMTester.CheckedSegment
import PMTester.FileCompare
import PMTester.MapComparison
import PMTester.OracleCheck
import PMTester.RangeClipping
import PMTester.CutTrace
import PMTester.TraceReader
import PMTester.FlushDecoding
import PMTester.MonitorCommand
import PMTester.MmapLoop
import PMTester.DeleteRoot
import PMTester.Harness
import PMTester.Testbed
import PMTester.Phases
import PMTester.MonitorSteps
import PMTester.CrashImage
import PMTester.Cleanup
import PMTester.Verdict
import PMTester.TestRun
import PMTester.JLang150
import PMTester.AcceptedLogs
import PMTester.CheckpointRedo
import PMTester.CheckpointRun
import PMTester.WriteDataRuns
import PMTester.RepeatedReplay
import PMTester.ResultText
import PMTester.SuiteTally
import PMTester.MountedRun
import PMTester.PerfectReplay
import PMTester.CrashVerdict
