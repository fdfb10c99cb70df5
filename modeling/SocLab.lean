import SocLab.Alerts.Commute
import SocLab.Alerts.Creation
import SocLab.Alerts.Failures
import SocLab.Alerts.History
import SocLab.Alerts.Isolation
import SocLab.Alerts.Lifecycle
import SocLab.Alerts.Policy
import SocLab.Alerts.Queue
import SocLab.Alerts.Refusals
import SocLab.Alerts.Session
import SocLab.Alerts.Snapshot
import SocLab.Alerts.Triage
import SocLab.Alerts.Validation
import SocLab.Detection.Bounds
import SocLab.Detection.Cidr
import SocLab.Detection.Composition
import SocLab.Detection.Connectives
import SocLab.Detection.Containment
import SocLab.Detection.Discovery
import SocLab.Detection.Engine
import SocLab.Detection.Evaluator
import SocLab.Detection.Evidence
import SocLab.Detection.Explanation
import SocLab.Detection.FieldPaths
import SocLab.Detection.Frame
import SocLab.Detection.Library
import SocLab.Detection.LoadCheck
import SocLab.Detection.Loader
import SocLab.Detection.Locations
import SocLab.Detection.Operators
import SocLab.Detection.Reference
import SocLab.Detection.RuleFile
import SocLab.Detection.RuleYaml
import SocLab.Detection.Safety
import SocLab.Detection.Semantics
import SocLab.Detection.Soundness
import SocLab.Detection.Success
import SocLab.Logic.Address
import SocLab.Logic.Block
import SocLab.Logic.Checks
import SocLab.Logic.Delivery
import SocLab.Logic.Except
import SocLab.Logic.Fleet
import SocLab.Logic.Heap
import SocLab.Logic.Kleene
import SocLab.Logic.Rewriting
import SocLab.Logic.Run
import SocLab.Logic.Worklist
import SocLab.Models.Alert
import SocLab.Models.ContextUnion
import SocLab.Models.Copies
import SocLab.Models.Detection
import SocLab.Models.DetectionMatch
import SocLab.Models.NormalizedEvent
import SocLab.Models.RawEvent
import SocLab.Models.RuleDocument
import SocLab.Models.RuleParsing
import SocLab.Models.Snapshot
import SocLab.Parsers.Columns
import SocLab.Parsers.Dispatch
import SocLab.Parsers.Errors
import SocLab.Parsers.EventData
import SocLab.Parsers.EventTree
import SocLab.Parsers.Notation
import SocLab.Parsers.Numbers
import SocLab.Parsers.Partition
import SocLab.Parsers.Pipeline
import SocLab.Parsers.Rows
import SocLab.Parsers.Shapes
import SocLab.Parsers.Sysmon
import SocLab.Parsers.WindowsEvent
import SocLab.Parsers.WindowsSecurity
import SocLab.Py.Builtin
import SocLab.Py.Copy
import SocLab.Py.DateTime
import SocLab.Py.Document
import SocLab.Py.ElementTree
import SocLab.Py.IPAddress
import SocLab.Py.IsoFormat
import SocLab.Py.Model
import SocLab.Py.Numeral
import SocLab.Py.Object
import SocLab.Py.Path
import SocLab.Py.Regex
import SocLab.Py.Snapshot
import SocLab.Py.Sorted
import SocLab.Py.Text
import SocLab.Py.Value
import SocLab.Py.Yaml
import SocLab.Rules.Windows
