import BugHunt.Main
import BugHunt.Proofs.Bench
import BugHunt.Proofs.Building
import BugHunt.Proofs.CacheTransparency
import BugHunt.Proofs.Preparing
import BugHunt.Proofs.TestOnly
import BugHunt.Proofs.Asking
import BugHunt.Proofs.RecursiveCall
import BugHunt.Proofs.AbsoluteForms
import BugHunt.Proofs.Anchoring
import BugHunt.Proofs.PassThrough
import BugHunt.Proofs.Reconfiguring
import BugHunt.Proofs.Walking
import BugHunt.Proofs.SettingsRecalled
import BugHunt.Proofs.Mishaps
import BugHunt.Proofs.FailedReduction
import BugHunt.Proofs.Mirroring
import BugHunt.Proofs.Twins
import BugHunt.Proofs.TwinTools
import BugHunt.Proofs.TwinStages
import BugHunt.Proofs.TwinChecks
import BugHunt.Proofs.SideBySide
import BugHunt.Proofs.Exclusion
import BugHunt.Proofs.MinimizerEndings
import BugHunt.Proofs.Collecting
import BugHunt.Proofs.Gathering
import BugHunt.Proofs.Leftovers
import BugHunt.Proofs.Advancing
import BugHunt.Proofs.Courses
import BugHunt.Proofs.FanOut
import BugHunt.Proofs.Groupings
import BugHunt.Proofs.Scanning
import BugHunt.Proofs.Reports
import BugHunt.Proofs.Accounting
import BugHunt.Proofs.Remembering
import BugHunt.Proofs.Custody
import BugHunt.Proofs.Yard
import BugHunt.Proofs.Wholeness
import BugHunt.Proofs.Resuming
import BugHunt.Proofs.Readiness
import BugHunt.Proofs.ConfigPaths
import BugHunt.Proofs.SourceKeys
import BugHunt.Proofs.ExitStatus
import BugHunt.Proofs.FailedStores
import BugHunt.Proofs.Crews
import BugHunt.Proofs.Independence
import BugHunt.Proofs.Inflating
import BugHunt.Proofs.Precedence
import BugHunt.Proofs.Members
import BugHunt.Proofs.Verdicts
import BugHunt.Proofs.StageOrder
import BugHunt.Proofs.Homing
import BugHunt.Proofs.Housing
import BugHunt.Proofs.Cleanup
import BugHunt.Proofs.Grounds
import BugHunt.Proofs.Surfacing
import BugHunt.Proofs.DerivedNames
import BugHunt.Proofs.Estate
import BugHunt.Proofs.Sparing
import BugHunt.Proofs.Origins
import BugHunt.Proofs.Redispatch
import BugHunt.Proofs.Removals
import BugHunt.Proofs.LoneFiles
import BugHunt.Proofs.Containment
import BugHunt.Proofs.JsonTexts
import BugHunt.Proofs.CrashRecords
import BugHunt.Proofs.SharedSentinels
import BugHunt.Proofs.Fetching
import BugHunt.Proofs.Repositories
import BugHunt.Proofs.Prefixes
import BugHunt.Proofs.Fetched
import BugHunt.Proofs.Tails
import BugHunt.Proofs.Waiting
import BugHunt.Proofs.Discovery
import BugHunt.Proofs.TomlTables
import BugHunt.Proofs.SettingsForms
import BugHunt.Proofs.SettingsFormat
