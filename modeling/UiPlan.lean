import UiPlan.Calendar
import UiPlan.Check.Error
import UiPlan.Config.Basic
import UiPlan.Engine
import UiPlan.Http.Router
import UiPlan.Oracle.Gemini
import UiPlan.Plan.Decode
import UiPlan.Program.Compile
import UiPlan.Prompt.Guard
import UiPlan.Prompt.Instructions
import UiPlan.Proofs.Check.RawNodes
import UiPlan.Proofs.Service.Discretion
import UiPlan.Proofs.Service.Exchange
import UiPlan.Proofs.Service.Interleaving
import UiPlan.Proofs.Service.Versions
import UiPlan.Proofs.Session.Isolation
import UiPlan.Proofs.Tree.ReadBack
import UiPlan.Proofs.Tree.Styled
import UiPlan.Registry.Describe
import UiPlan.Service.Schedule
import UiPlan.Session.Stored
import UiPlan.Tree.Html
import UiPlan.Proofs.Engine.Html
import UiPlan.Proofs.Check.Props
import UiPlan.Proofs.Component.Vocabulary
import UiPlan.Proofs.Engine.Vocabulary
import UiPlan.Proofs.Program.Lines
import UiPlan.Proofs.Program.Whitelist
import UiPlan.Proofs.Engine.Texts
import UiPlan.Proofs.Plan.Encoding
import UiPlan.Proofs.Json.Spelling
import UiPlan.Proofs.Json.Taking
import UiPlan.Proofs.Json.Editing
import UiPlan.Proofs.Plan.Fencing
import UiPlan.Proofs.Text.References
import UiPlan.Proofs.Text.Decoding
import UiPlan.Proofs.Oracle.Categories
import UiPlan.Proofs.Engine.Restriction
import UiPlan.Proofs.Engine.Height
import UiPlan.Proofs.Engine.Words
import UiPlan.Proofs.Check.Strictness
import UiPlan.Registry.Indexed
import UiPlan.Proofs.Registry.Indexing
import UiPlan.Proofs.Service.Entries
import UiPlan.Proofs.Config.Settings
import UiPlan.Proofs.Text.Tidied
