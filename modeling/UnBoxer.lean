import UnBoxer.AfcBridge
import UnBoxer.AppDiscovery
import UnBoxer.Archives
import UnBoxer.BackupContents
import UnBoxer.BackupEngine
import UnBoxer.BackupFrame
import UnBoxer.BackupLoop
import UnBoxer.BackupPaths
import UnBoxer.BackupStore
import UnBoxer.BackupWalk
import UnBoxer.Browser
import UnBoxer.Chains
import UnBoxer.Codes
import UnBoxer.Completeness
import UnBoxer.Confinement
import UnBoxer.Dashboard
import UnBoxer.DebugArgv
import UnBoxer.DebugLosses
import UnBoxer.DebugPackets
import UnBoxer.DebugSessions
import UnBoxer.DebugStub
import UnBoxer.Deletion
import UnBoxer.DeviceTables
import UnBoxer.DeviceTrees
import UnBoxer.DirAll
import UnBoxer.DirAllSteps
import UnBoxer.Effects
import UnBoxer.Endings
import UnBoxer.EngineLogs
import UnBoxer.EngineRuns
import UnBoxer.EscapeJson
import UnBoxer.ExtractCache
import UnBoxer.ExtractedTree
import UnBoxer.Extraction
import UnBoxer.ExtractionSteps
import UnBoxer.FailedBackup
import UnBoxer.Fuel
import UnBoxer.HashTables
import UnBoxer.Install
import UnBoxer.Instances
import UnBoxer.JsonArrays
import UnBoxer.JsonNumbers
import UnBoxer.JsonObjects
import UnBoxer.JsonParser
import UnBoxer.JsonPrinter
import UnBoxer.JsonSizes
import UnBoxer.LatePoints
import UnBoxer.Mounter
import UnBoxer.NodeLists
import UnBoxer.Pairing
import UnBoxer.PairingIdentity
import UnBoxer.PairingManager
import UnBoxer.PairingRuns
import UnBoxer.PairingStates
import UnBoxer.PathText
import UnBoxer.PlistCalls
import UnBoxer.PlistEdits
import UnBoxer.PlistKeys
import UnBoxer.PlistNodes
import UnBoxer.PlistRuns
import UnBoxer.PlistValues
import UnBoxer.Plists
import UnBoxer.Programs
import UnBoxer.Provision
import UnBoxer.QuietRuns
import UnBoxer.Responses
import UnBoxer.Restoring
import UnBoxer.RoundTrip
import UnBoxer.Rsd
import UnBoxer.RsdCache
import UnBoxer.Runs
import UnBoxer.RustIdevice
import UnBoxer.Selections
import UnBoxer.SizeLimit
import UnBoxer.Staging
import UnBoxer.TreeUpdates
import UnBoxer.TryBackup
import UnBoxer.TryExtract
