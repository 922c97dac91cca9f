import Ecotiter.InterleavedProgram
import Ecotiter.ProgramProtocol
import Ecotiter.BuretteTypes
import Ecotiter.Calibration
import Ecotiter.OperationMachines
import Ecotiter.DeviceMemory
import Ecotiter.DeviceActions
import Ecotiter.MemoryFrames
import Ecotiter.StepperDriver
import Ecotiter.Motion
import Ecotiter.OperationRunners
import Ecotiter.MotorTask
import Ecotiter.BuretteHandlers
import Ecotiter.CalibrationHandlers
import Ecotiter.DeviceSystem
import Ecotiter.MotorPhases
import Ecotiter.MotorConformance
import Ecotiter.RunnerRules
import Ecotiter.MotorTaskConformance
import Ecotiter.ClientPhases
import Ecotiter.ClientConformance
import Ecotiter.TaskMoves
import Ecotiter.SystemRuns
import Ecotiter.HistoryPhases
import Ecotiter.Histories
import Ecotiter.LayeredRuns
import Ecotiter.MotionFlags
import Ecotiter.ActiveEndstop
import Ecotiter.ClaimLedger
import Ecotiter.CommandOrigins
import Ecotiter.RequestCommands
import Ecotiter.MotorActions
import Ecotiter.MotorTaskRule
import Ecotiter.DivisionSafety
import Ecotiter.DriverEnable
import Ecotiter.EmergencyStop
import Ecotiter.ValveSelection
import Ecotiter.LimitInterlock
import Ecotiter.ValveSettling
import Ecotiter.ValveFlow
import Ecotiter.FailedMotions
import Ecotiter.HomingEnds
import Ecotiter.HomingAtFull
import Ecotiter.PublishedVolume
import Ecotiter.ValveCalls
import Ecotiter.ValveConformance
import Ecotiter.SettleProtocol
import Ecotiter.ValveRuns
import Ecotiter.ValveExclusion
import Ecotiter.SettleTimer
import Ecotiter.StopRequests
import Ecotiter.ProgramOutcomes
import Ecotiter.ProgramViews
import Ecotiter.MotorView
import Ecotiter.StepCount
import Ecotiter.DoseCalibration
import Ecotiter.SpeedCalibration
import Ecotiter.StepSymbols
import Ecotiter.JsonText
import Ecotiter.BinaryRounding
import Ecotiter.CommandLine
import Ecotiter.ReplyId
import Ecotiter.SequentialRuns
import Ecotiter.CalibrationStorage
import Ecotiter.AdcCalibration
import Ecotiter.GridInterpolation
import Ecotiter.DensityCorrection
import Ecotiter.CalibrationSessions
import Ecotiter.FifoMap
import Ecotiter.WifiCredentials
import Ecotiter.CredentialFailures
import Ecotiter.DnsGrammar
import Ecotiter.DnsResponse
import Ecotiter.NumericParameters
import Ecotiter.DocumentedParameters
import Ecotiter.DoseDelivery
import Ecotiter.LineStream
import Ecotiter.MotorCalibration
import Ecotiter.ProgramTraces
import Ecotiter.RejectedCommands
import Ecotiter.ResultQueue
import Ecotiter.RinseMotions
import Ecotiter.RinseTermination
import Ecotiter.SerialReader
import Ecotiter.SerialLines
import Ecotiter.MotionParameters
import Ecotiter.ResultOrders
import Ecotiter.ResultIds
import Ecotiter.IntegerRounding
import Ecotiter.LeastSquares
import Ecotiter.AdcFit
import Ecotiter.AdcReadout
import Ecotiter.CalibrationRounds
import Ecotiter.DosePlans
import Ecotiter.SpeedSequence
import Ecotiter.SequenceStrokes
import Ecotiter.SpeedConversion
import Ecotiter.SpeedRegression
import Ecotiter.OrderStatistics
import Ecotiter.BoundedOutput
import Ecotiter.DecimalText
import Ecotiter.ResponseTexts
import Ecotiter.AdcSampling
import Ecotiter.TypedStore
import Ecotiter.CalibrationRoundTrip
import Ecotiter.DirectionText
import Ecotiter.JsonWriting
import Ecotiter.JsonPunctuation
import Ecotiter.Utf8Bytes
import Ecotiter.FlatObjects
import Ecotiter.NumberScan
import Ecotiter.QuotedText
import Ecotiter.JsonFinders
import Ecotiter.MemberFinding
import Ecotiter.ResponseJson
import Ecotiter.FinderResults
import Ecotiter.EnqueuedCommands
import Ecotiter.FormFields
import Ecotiter.ResponsesComplete
import Ecotiter.ResponseContract
import Ecotiter.IdInjection
import Ecotiter.OverlongLines
import Ecotiter.SerialPolls
import Ecotiter.SettleEvents
import Ecotiter.RingHistory
import Ecotiter.LogBuffer
import Ecotiter.BlackBox
import Ecotiter.BurstErrors
import Ecotiter.CheckedMemory
import Ecotiter.DomainNames
import Ecotiter.JsonStrings
import Ecotiter.JsonWalks
import Ecotiter.ErrorResponses
import Ecotiter.LogCapture
import Ecotiter.LogEvents
import Ecotiter.LogRequests
import Ecotiter.LogListing
import Ecotiter.TmcFrames
import Ecotiter.WebSocketSessions
import Ecotiter.QueueLedger
import Ecotiter.CommandDelivery
import Ecotiter.ByteBits
import Ecotiter.OneWire
import Ecotiter.RequestReplies
import Ecotiter.TemperatureThread
import Ecotiter.RecordedRuns
import Ecotiter.BleLink
import Ecotiter.BlePhases
import Ecotiter.BleDelivery
import Ecotiter.StatusBroadcast
import Ecotiter.BroadcastSchedule
