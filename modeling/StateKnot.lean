import StateKnot.JsonTokens
import StateKnot.Budget.Deduction
import StateKnot.Budget.Resolution
import StateKnot.Graph.Finite
import StateKnot.Graph.CallOrder
import StateKnot.Graph.Simulation
import StateKnot.Graph.Run
import StateKnot.Recovery.History
import StateKnot.Recovery.Interleaving
import StateKnot.Outbox.History
import StateKnot.Tool.History
import StateKnot.TimestampText
import StateKnot.Run.Waits
import StateKnot.ChildRun.Depth
import StateKnot.ChildRun.Commuting
import StateKnot.Agent.ProviderNativeRun
import StateKnot.Runtime.Fairness
import StateKnot.Integrations.SseEvents
import StateKnot.Integrations.StreamChunks
import StateKnot.Runtime.PolicyDecisions
import StateKnot.Artifact.Staging
import StateKnot.Integrations.CatalogPages
