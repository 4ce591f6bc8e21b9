import EnergyProfile.CommandLine.Action
import EnergyProfile.Files.Tree
import EnergyProfile.Main
import EnergyProfile.Proofs.Mask.Closing
import EnergyProfile.Proofs.Mask.Spans
import EnergyProfile.Proofs.Mask.Upsampling
import EnergyProfile.Proofs.Exact
import EnergyProfile.Proofs.Segmentation.Blocks
import EnergyProfile.Proofs.Analysis.Accounting
import EnergyProfile.Proofs.Segmentation.GapDuration
import EnergyProfile.Proofs.Batch.Independence
import EnergyProfile.Proofs.Batch.Accounts
import EnergyProfile.Proofs.Report.Agreement
import EnergyProfile.Proofs.Signal.Locality
import EnergyProfile.Proofs.Trace.Addressing
import EnergyProfile.Proofs.Signal.Unsmoothed
import EnergyProfile.Proofs.Analysis.Thresholds
import EnergyProfile.Proofs.Analysis.LongerGaps
import EnergyProfile.Proofs.Analysis.Outcome
import EnergyProfile.Proofs.RoundTrip.Keeping
import EnergyProfile.Proofs.RoundTrip.LoneTables
import EnergyProfile.Proofs.RoundTrip.Summary
import EnergyProfile.Proofs.Run.EarlyWindow
import EnergyProfile.Proofs.Batch.Holding
import EnergyProfile.Proofs.Settings.Saving
import EnergyProfile.Proofs.Settings.Reloading
import EnergyProfile.Proofs.Batch.Writing
import EnergyProfile.Proofs.Analysis.Timeline
import EnergyProfile.Proofs.Table.Written
import EnergyProfile.Proofs.Trace.Reading
import EnergyProfile.Proofs.Batch.Selection
import EnergyProfile.Proofs.Segmentation.Words
import EnergyProfile.Proofs.Run.Extraction
import EnergyProfile.Proofs.Signal.Convolution
import EnergyProfile.Proofs.Signal.Averaging
import EnergyProfile.Proofs.RoundTrip.Balance
import EnergyProfile.Proofs.RoundTrip.Rejections
import EnergyProfile.Proofs.Trace.Windows
import EnergyProfile.Proofs.Run.EarlySamples
import EnergyProfile.Proofs.Segmentation.FittedWindows
import EnergyProfile.Proofs.Mask.Composition
import EnergyProfile.Proofs.Table.Layout
import EnergyProfile.Proofs.Table.Markers
import EnergyProfile.Proofs.Report.Records
import EnergyProfile.Proofs.Run.Checking
import EnergyProfile.Proofs.Statistics.Sample
import EnergyProfile.Proofs.Signal.Reversal
import EnergyProfile.Proofs.Statistics.Constant
import EnergyProfile.Proofs.Settings.Blame
import EnergyProfile.Proofs.Mask.Downsampling
