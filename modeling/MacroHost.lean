import MacroHost.Main
import MacroHost.Text.Alphanumeric
import MacroHost.Proofs.Capabilities.Footprint
import MacroHost.Proofs.Capabilities.Requests
import MacroHost.Proofs.Events.Reading
import MacroHost.Proofs.Macros.Metadata
import MacroHost.Proofs.Modifiers.Decimals
import MacroHost.Proofs.Modifiers.Limits
import MacroHost.Proofs.Modifiers.Rounds
import MacroHost.Proofs.Modifiers.Scanning
import MacroHost.Proofs.Modifiers.Stability
import MacroHost.Proofs.Modifiers.Values
import MacroHost.Proofs.Sessions.Abandoning
import MacroHost.Proofs.Sessions.Approval
import MacroHost.Proofs.Sessions.Attribution
import MacroHost.Proofs.Sessions.Cancelling
import MacroHost.Proofs.Sessions.Clearing
import MacroHost.Proofs.Sessions.Confinement
import MacroHost.Proofs.Sessions.Details
import MacroHost.Proofs.Sessions.Ending
import MacroHost.Proofs.Sessions.Lifecycle
import MacroHost.Proofs.Sessions.Locating
import MacroHost.Proofs.Sessions.Refusals
import MacroHost.Proofs.Sessions.Routes
import MacroHost.Proofs.Sessions.Templating
import MacroHost.Proofs.Sessions.Waits
