import AgentKit.Agent
import AgentKit.Agent.Identifier
import AgentKit.Artifact
import AgentKit.Calendar.Date
import AgentKit.Command.Choice
import AgentKit.Command.Job
import AgentKit.Command.Loading
import AgentKit.Command.Overview
import AgentKit.Command.Renewal
import AgentKit.Command.Run
import AgentKit.CommandLine.Help
import AgentKit.CommandLine.Performance
import AgentKit.CommandLine.Places
import AgentKit.CommandLine.Reading
import AgentKit.CommandLine.Request
import AgentKit.CommandLine.Switch
import AgentKit.CommandLine.Word
import AgentKit.Definition
import AgentKit.Definition.Bundled
import AgentKit.Definition.Validation
import AgentKit.Delivery
import AgentKit.Document
import AgentKit.Document.Quoted
import AgentKit.Failure
import AgentKit.Files.Fault
import AgentKit.Files.Operations
import AgentKit.Files.Path
import AgentKit.Files.Tree
import AgentKit.Installation
import AgentKit.Json
import AgentKit.Locale
import AgentKit.Main
import AgentKit.Number.Binary64
import AgentKit.Number.Decimal
import AgentKit.Phrase
import AgentKit.Plan
import AgentKit.ProjectRoot
import AgentKit.Proofs.Files.Path
import AgentKit.Proofs.Text.Split
import AgentKit.Rendering.Claude
import AgentKit.Rendering.Copilot
import AgentKit.Rendering.Cursor
import AgentKit.Rendering.Gemini
import AgentKit.Rendering.Modes
import AgentKit.Rendering.OpenCode
import AgentKit.Rendering.Persona
import AgentKit.Rendering.Prompt
import AgentKit.Rendering.Skill
import AgentKit.Rendering.Workflow
import AgentKit.Rendering.Workspace
import AgentKit.Report.Catalogue
import AgentKit.Report.Installed
import AgentKit.Report.Overview
import AgentKit.Report.Roster
import AgentKit.Report.Table
import AgentKit.Roster
import AgentKit.RuleText
import AgentKit.Settings
import AgentKit.Settings.Reading
import AgentKit.Settings.Storage
import AgentKit.Settings.Writing
import AgentKit.StackProfile
import AgentKit.Target
import AgentKit.Text.Blank
import AgentKit.Text.Lines
import AgentKit.Text.LowerCase
import AgentKit.Text.Substring
import AgentKit.Timestamp
import AgentKit.Timestamp.Clock
import AgentKit.Timestamp.Reading
import AgentKit.Yaml.Character
import AgentKit.Yaml.Cursor
import AgentKit.Yaml.Error
import AgentKit.Yaml.FrontmatterScalar
import AgentKit.Yaml.Node
import AgentKit.Yaml.Node.Anchor
import AgentKit.Yaml.Node.Reading
import AgentKit.Yaml.Scalar
import AgentKit.Yaml.Scalar.Writing
import AgentKit.Yaml.Token
import AgentKit.Yaml.Token.Block
import AgentKit.Yaml.Token.Directive
import AgentKit.Yaml.Token.Gap
import AgentKit.Yaml.Token.Plain
import AgentKit.Yaml.Token.Property
import AgentKit.Yaml.Token.Quoted
import AgentKit.Yaml.Token.Stream
import AgentKit.Yaml.Value
import AgentKit.Yaml.Value.Reading
import AgentKit.Proofs.Files.Walk
import AgentKit.Proofs.Files.Change
import AgentKit.Proofs.Delivery.Interleaving
import AgentKit.Proofs.Delivery.Kept
import AgentKit.Proofs.Delivery.Effect
import AgentKit.Proofs.Definition.FileName
import AgentKit.Proofs.Files.Listing
import AgentKit.Proofs.Roster.Acceptance
import AgentKit.Proofs.Roster.Loading
import AgentKit.Proofs.Agent.Identifier
import AgentKit.Proofs.Plan.Paths
import AgentKit.Proofs.Plan.Clashes
import AgentKit.Proofs.Plan.Installed
import AgentKit.Proofs.Files.Ancestors
import AgentKit.Proofs.Files.Below
import AgentKit.Proofs.Delivery.Repetition
import AgentKit.Proofs.Plan.Neutral
import AgentKit.Proofs.Settings.Storage
import AgentKit.Proofs.Settings.Warnings
import AgentKit.Proofs.Command.Undisturbed
import AgentKit.Proofs.Command.Job
import AgentKit.Proofs.Command.Renewal
import AgentKit.Proofs.CommandLine.Tools
import AgentKit.Proofs.CommandLine.Upgrade
import AgentKit.Proofs.Text.Trimming
import AgentKit.Proofs.RuleText.Joining
import AgentKit.Proofs.Command.Rules
import AgentKit.Proofs.CommandLine.Performance
import AgentKit.Proofs.CommandLine.Rules
import AgentKit.Proofs.Toml.Reading
import AgentKit.Proofs.Toml.Escaping
import AgentKit.Proofs.Toml.Entries
import AgentKit.Proofs.Rendering.Gemini
import AgentKit.Proofs.Yaml.Line
import AgentKit.Proofs.Yaml.Fields
import AgentKit.Proofs.Yaml.FieldValues
import AgentKit.Proofs.Yaml.Meaning
import AgentKit.Proofs.Yaml.FrontmatterScalar
import AgentKit.Proofs.Document.Frontmatter
import AgentKit.Proofs.Rendering.SkillName
import AgentKit.Proofs.Text.Members
import AgentKit.Proofs.Plan.Area
import AgentKit.Proofs.Plan.Marker
import AgentKit.Proofs.Files.Within
import AgentKit.Proofs.Delivery.Touching
import AgentKit.Proofs.Delivery.Separate
import AgentKit.Proofs.Command.Order
import AgentKit.Proofs.Command.Detection
import AgentKit.Proofs.Command.Failing
import AgentKit.Proofs.CommandLine.Failing
import AgentKit.Proofs.Roster.Isolation
import AgentKit.Proofs.Roster.Shadowing
import AgentKit.Proofs.CommandLine.UpgradeSwitch
import AgentKit.Proofs.Number.Digits
import AgentKit.Proofs.Yaml.Scalar.Plain
import AgentKit.Proofs.Yaml.Scalar.Quoted
import AgentKit.Proofs.Yaml.Scalar.Literal
import AgentKit.Proofs.Yaml.Scalar.Reading
import AgentKit.Proofs.Yaml.Scalar.Number
import AgentKit.Proofs.Yaml.Entries
import AgentKit.Proofs.Yaml.Mapping
import AgentKit.Proofs.Timestamp.Reading
import AgentKit.Proofs.Files.Writing
import AgentKit.Proofs.Settings.RoundTrip
import AgentKit.Proofs.Json.Reading
import AgentKit.Proofs.Json.Writing
import AgentKit.Proofs.Rendering.Modes
import AgentKit.Proofs.Definition.Validation
import AgentKit.Proofs.Roster.Invariants
import AgentKit.Proofs.Command.Targets
import AgentKit.Proofs.CommandLine.Targets
import AgentKit.Proofs.Command.Listing
import AgentKit.Proofs.CommandLine.Reading
import AgentKit.Proofs.CommandLine.Listing
import AgentKit.Proofs.Document.Escaping
import AgentKit.Proofs.Rendering.Frontmatter
import AgentKit.Proofs.Document.Lines
import AgentKit.Proofs.Rendering.RuleList
import AgentKit.Proofs.Command.Recording
import AgentKit.Proofs.Command.Root
import AgentKit.Proofs.CommandLine.Recording
import AgentKit.Proofs.CommandLine.Root
import AgentKit.Proofs.CommandLine.Warnings
import AgentKit.Proofs.Text.Replacing
import AgentKit.Proofs.Phrase.Filling
import AgentKit.Proofs.Report.Installed
import AgentKit.Proofs.Command.Moment
import AgentKit.Proofs.CommandLine.JsonSwitch
import AgentKit.Proofs.Plan.Sources
import AgentKit.Proofs.Roster.Layers
import AgentKit.Proofs.Roster.Copying
import AgentKit.Proofs.Definition.Issues
import AgentKit.Proofs.Agent.SkillName
import AgentKit.Proofs.Plan.SingleFile
import AgentKit.Proofs.Files.Merging
import AgentKit.Proofs.Delivery.Directories
import AgentKit.Proofs.Text.LineEnding
import AgentKit.Proofs.Document.Building
import AgentKit.Proofs.Locale.Resolution
import AgentKit.Proofs.Phrase.Substitution
import AgentKit.Proofs.Report.Table
import AgentKit.Proofs.Report.Roster
import AgentKit.Proofs.RuleText.NormalForm
import AgentKit.Proofs.Document.Scanning
