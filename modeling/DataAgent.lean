import DataAgent.Python.Text
import DataAgent.Python.Strip
import DataAgent.Python.Json
import DataAgent.Python.Dumps
import DataAgent.Python.Dict
import DataAgent.Python.Effects
import DataAgent.Python.ExitStack
import DataAgent.Python.Alike
import DataAgent.Regex.Basic
import DataAgent.Regex.Lemmas
import DataAgent.Regex.Words
import DataAgent.Regex.Keyword
import DataAgent.Regex.Scan
import DataAgent.Regex.Layout
import DataAgent.Regex.Parallel
import DataAgent.TSql.Lexer
import DataAgent.TSql.Reading
import DataAgent.Relational
import DataAgent.Transition
import DataAgent.Sqlite.Check
import DataAgent.Sqlite.Store
import DataAgent.Odbc
import DataAgent.Models.TablePolicy
import DataAgent.Server.Executor
import DataAgent.Server.Driver
import DataAgent.Server.Execute
import DataAgent.Server.Inspect
import DataAgent.Server.Regroup
import DataAgent.Server.SystemCatalog
import DataAgent.Server.Sanitised
import DataAgent.Server.ConnectionString
import DataAgent.Mcp.ClientManager
import DataAgent.Mcp.Session
import DataAgent.Mcp.Serial
import DataAgent.Mcp.ToolResult
import DataAgent.Mcp.Contract
import DataAgent.Mcp.Boundary
import DataAgent.Mcp.Tools
import DataAgent.Core.Process
import DataAgent.Mcp.Lifecycle
import DataAgent.Db.Admin
import DataAgent.Models.Schema
import DataAgent.Models.Rows
import DataAgent.Models.AdminStore
import DataAgent.Core.Lifespan
import DataAgent.Agent.Llm
import DataAgent.Agent.LlmClient
import DataAgent.Agent.Intent
import DataAgent.Agent.Metadata
import DataAgent.Agent.Plan
import DataAgent.Agent.Scope
import DataAgent.Agent.Decode
import DataAgent.Agent.Coercion
import DataAgent.Agent.Catalog
import DataAgent.Agent.Startup
import DataAgent.Agent.Prompt
import DataAgent.Guardrail.Patterns
import DataAgent.Guardrail.Validate
import DataAgent.Guardrail.Raises
import DataAgent.Guardrail.Accepts
import DataAgent.Guardrail.Names
import DataAgent.Guardrail.Tokens
import DataAgent.Guardrail.References
import DataAgent.Guardrail.Clauses
import DataAgent.Guardrail.SortKey
import DataAgent.Guardrail.Joins
import DataAgent.Guardrail.Predicate
import DataAgent.Guardrail.Tables
import DataAgent.Guardrail.Items
import DataAgent.Guardrail.Split
import DataAgent.Guardrail.Counting
import DataAgent.Guardrail.Grain
import DataAgent.Guardrail.Layout
import DataAgent.Guardrail.Relaid
import DataAgent.Guardrail.Invariance
import DataAgent.Agent.Service
import DataAgent.Agent.Fence
import DataAgent.Agent.Classified
import DataAgent.Agent.Endpoint
import DataAgent.Guardrail.Agreement
import DataAgent.Agent.Answered
import DataAgent.Guardrail.Identifiers
import DataAgent.Guardrail.Statement
import DataAgent.Agent.Noninterference
