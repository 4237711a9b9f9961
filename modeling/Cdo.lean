import Cdo.Text
import Cdo.SortedMap
import Cdo.Query
import Cdo.Tables
import Cdo.QHatAggregations
import Cdo.LevelData
import Cdo.CellHistory
import Cdo.Params
import Cdo.Signals
import Cdo.LinearProgram
import Cdo.Objective
import Cdo.Constraint
import Cdo.WellPosed
import Cdo.LpText
import Cdo.BidCalc
import Cdo.RoundedSolution
import Cdo.DeltaSync
import Cdo.BidFiles
import Cdo.CellCaps
import Cdo.Misdelivery
import Cdo.SolutionFile
import Cdo.KeyedTable
import Cdo.NewCells
import Cdo.NetworkSwap
import Cdo.BidUploader
import Cdo.ByHour
import Cdo.RollupLevels
import Cdo.LogWindow
import Cdo.HourlyImport
import Cdo.PriceVolumeLoad
import Cdo.Pooling
import Cdo.Qhat
import Cdo.QhatBounds
import Cdo.QhatLevels
import Cdo.Batches
import Cdo.CellQueues
import Cdo.ImpSignals
import Cdo.VariableNames
import Cdo.SignificantDigits
import Cdo.SolutionLines
import Cdo.UploadBatches
import Cdo.BidDifferences
import Cdo.WindowMoves
import Cdo.ExactRollups
import Cdo.OldCells
import Cdo.Calendar
import Cdo.GmtDates
import Cdo.PriceVolumeLoaders
import Cdo.Transitions
import Cdo.LifeCycle
import Cdo.Curation
import Cdo.CurationRuns
import Cdo.CampaignModes
import Cdo.MediaDiscovery
import Cdo.Availability
import Cdo.PriceVolumeSchedule
import Cdo.ImportRuns
import Cdo.HourlyBids
import Cdo.MisdeliveryRuns
