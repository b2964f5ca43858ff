import ClrProfiling.IL.Export
import ClrProfiling.IL.Ecma335
import ClrProfiling.IL.Grammar
import ClrProfiling.IL.Listing
import ClrProfiling.IL.Resolution
import ClrProfiling.IL.Boundary
import ClrProfiling.IL.Acceptance
import ClrProfiling.IL.Layout
import ClrProfiling.IL.Emission
import ClrProfiling.IL.Patching
import ClrProfiling.IL.Relaxation
import ClrProfiling.IL.Exporting
import ClrProfiling.IL.References
import ClrProfiling.IL.RoundTrip
import ClrProfiling.IL.Blocks
import ClrProfiling.IL.Decoding
import ClrProfiling.IL.Edits
import ClrProfiling.IL.FlowPreservation
import ClrProfiling.IL.Regions
import ClrProfiling.IL.MaxStack
import ClrProfiling.IL.LeastWidening
import ClrProfiling.IL.PassBounds
import ClrProfiling.IL.TableLookups
import ClrProfiling.IL.Container
import ClrProfiling.Host.IpcClient
import ClrProfiling.IL.ReportedTokens
import ClrProfiling.IL.Invocations
import ClrProfiling.Host.Coverage
import ClrProfiling.Host.Containment
import ClrProfiling.Host.HookBridge
import ClrProfiling.Core.Routing
import ClrProfiling.Core.TokenResolution
import ClrProfiling.Core.ContextFlow
import ClrProfiling.IL.Prefixes
import ClrProfiling.Host.Nesting
import ClrProfiling.IL.Insertions
import ClrProfiling.IL.SwitchBlocks
import ClrProfiling.IL.Execution
import ClrProfiling.IL.Meaning
import ClrProfiling.IL.Layers
import ClrProfiling.Host.Steps
import ClrProfiling.Host.Registrations
import ClrProfiling.Host.MethodBodies
import ClrProfiling.Host.Layering
import ClrProfiling.Core.HostSession
import ClrProfiling.Host.Delivery
import ClrProfiling.Host.ProfiledBodies
import ClrProfiling.Core.ServerLog
