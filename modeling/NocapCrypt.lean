import NocapCrypt.Core.RangeCorrectness
import NocapCrypt.Worker.ScheduleIndependence
import NocapCrypt.Worker.FailureContainment
import NocapCrypt.Worker.IvBinding
import NocapCrypt.Worker.Counting
import NocapCrypt.Cli.CiProgress
import NocapCrypt.Cli.Progress
import NocapCrypt.Library.Commands
import NocapCrypt.Library.Relational
import NocapCrypt.BlockIo.FileSystem
import NocapCrypt.KeyMgmt.Format
import NocapCrypt.KeyMgmt.Validate
import NocapCrypt.Cli.Command
import NocapCrypt.Cli.Keyload
import NocapCrypt.Cli.Dispatch
import NocapCrypt.Cli.Image
import NocapCrypt.Cli.Safety
import NocapCrypt.Cli.ImageRuns
import NocapCrypt.Cli.RoundTrip
import NocapCrypt.Cli.InputLength
import NocapCrypt.Luks.Structural
import NocapCrypt.Cli.Validate
import NocapCrypt.Entropy.Streaming
import NocapCrypt.Cli.Align
import NocapCrypt.Cli.Inspect
import NocapCrypt.Cli.Bench
import NocapCrypt.Cli.NumericOptions
import NocapCrypt.Cli.EarlyExit
import NocapCrypt.Cli.AutoKeys
import NocapCrypt.Cli.AcceptedKeys
import NocapCrypt.Cli.OutputAlignment
import NocapCrypt.Cli.FreshOutput
import NocapCrypt.BlockIo.ExactTransfer
import NocapCrypt.Worker.DirectIo
import NocapCrypt.Worker.CheckedArithmetic
import NocapCrypt.Cli.ExactSizes
import NocapCrypt.KeyMgmt.KeyFile
import NocapCrypt.Worker.DiskInfo
import NocapCrypt.Cli.BenchData
import NocapCrypt.Entropy.ShortReads
import NocapCrypt.Cli.EnvHeeded
import NocapCrypt.Cli.CryptsetupCompat
import NocapCrypt.Core.CbcDamage
import NocapCrypt.Cli.OutputModes
import NocapCrypt.Cli.Artifacts
import NocapCrypt.Entropy.ChiSquare
import NocapCrypt.KeyMgmt.Represent
import NocapCrypt.Cli.KeyCommands
import NocapCrypt.BlockIo.Frame
import NocapCrypt.Cli.Completions
import NocapCrypt.Cli.Process
import NocapCrypt.Cli.Contract
import NocapCrypt.Cli.CiFloat
import NocapCrypt.Worker.Cgroup
import NocapCrypt.Cli.Standalone
import NocapCrypt.Core.XtsBlocks
import NocapCrypt.Cli.CompatGuard
import NocapCrypt.Cli.ValidateHead
