import Cutlist.Main
import Cutlist.Recording
import Cutlist.Proofs.Building
import Cutlist.Proofs.Constancy
import Cutlist.Proofs.Cuts
import Cutlist.Proofs.InStep
import Cutlist.Proofs.Labels
import Cutlist.Proofs.Rounding
import Cutlist.Proofs.Tiling
import Cutlist.Proofs.Tolerance
import Cutlist.Proofs.TrimmedStages
import Cutlist.Proofs.Trimming
import Cutlist.Proofs.WiredExport
import Cutlist.Proofs.WiredStages
import Cutlist.Proofs.Wiring
import Cutlist.Proofs.FixedPlaces
import Cutlist.Proofs.TempoFactors
import Cutlist.Proofs.OneSpeed
import Cutlist.Proofs.PlainStretch
import Cutlist.Proofs.Footage
import Cutlist.Proofs.PlayedPieces
import Cutlist.Proofs.ShownPicture
import Cutlist.Proofs.Moments
import Cutlist.Proofs.CameraInStep
import Cutlist.Proofs.DrawnInTime
import Cutlist.Proofs.SourceOrder
import Cutlist.Proofs.Passing
import Cutlist.Proofs.PassedStages
import Cutlist.Proofs.LooseEnds
import Cutlist.Proofs.SeekBounds
import Cutlist.Proofs.NumberText
import Cutlist.Proofs.CommandWords
import Cutlist.Proofs.CommandShape
import Cutlist.Proofs.Quoting
import Cutlist.Proofs.BlandText
import Cutlist.Proofs.MarkedText
import Cutlist.Proofs.Recaption
import Cutlist.Proofs.UserText
import Cutlist.Proofs.Places
import Cutlist.Proofs.FileChanges
import Cutlist.Proofs.Outcomes
import Cutlist.Proofs.Finalizing
import Cutlist.Proofs.Results
import Cutlist.Proofs.LostFootage
import Cutlist.Proofs.MergedRecording
import Cutlist.Proofs.TimestampText
import Cutlist.Proofs.DocumentRoundTrip
import Cutlist.Proofs.NearestInBasin
import Cutlist.Proofs.EnoughDigits
import Cutlist.Proofs.ShortestReadsBack
import Cutlist.Proofs.NumberReadBack
import Cutlist.Proofs.JsonText
import Cutlist.Proofs.StoredProjects
import Cutlist.Proofs.DirectoryChanges
import Cutlist.Proofs.Shelves
import Cutlist.Proofs.LibraryMap
import Cutlist.Proofs.Deletions
import Cutlist.Proofs.NumbersInRange
import Cutlist.Proofs.DamagedProjects
import Cutlist.Proofs.Compiling
import Cutlist.Proofs.BreakingOff
import Cutlist.Proofs.LifeOfARun
import Cutlist.Proofs.Inquiries
import Cutlist.Proofs.ProbeAnswers
import Cutlist.Proofs.CheckedExports
import Cutlist.Proofs.DryRuns
import Cutlist.Proofs.FailureSources
import Cutlist.Proofs.ExitCodes
import Cutlist.Proofs.PrintedOrder
import Cutlist.Proofs.FewestFactors
import Cutlist.Proofs.MergedCuts
import Cutlist.Proofs.PrintedWindows
import Cutlist.Proofs.ZeroSigns
import Cutlist.Proofs.SideBySide
import Cutlist.Proofs.ListingOrder
import Cutlist.Proofs.AlikeExports
import Cutlist.Proofs.ManifestText
import Cutlist.Proofs.ProgressBlocks
import Cutlist.Proofs.BlocksInRange
import Cutlist.Proofs.AnnotationChain
import Cutlist.Proofs.CaptionsReadBack
import Cutlist.Proofs.PlainDecimals
import Cutlist.Proofs.ExportNames
import Cutlist.Proofs.JournalHandlers
import Cutlist.Proofs.FailedJournals
import Cutlist.Proofs.PadNumbers
