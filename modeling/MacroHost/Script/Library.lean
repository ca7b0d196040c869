import MacroHost.Script.Library.Base
import MacroHost.Script.Library.Strings
import MacroHost.Script.Library.Tables
import MacroHost.Script.Library.Numbers
import MacroHost.Script.Library.Characters
import MacroHost.Script.Library.Coroutines
import MacroHost.Script.Library.Inspection
import MacroHost.Script.Library.System
import MacroHost.Script.Library.Packages
import MacroHost.Script.Library.Host

/-!
# Native functions

What each function that is not written as a script does when it is called.
-/

namespace MacroHost
namespace Script

/-- Run a native function on its arguments. -/
def Native.run (native : Native) (arguments : List Value) : Act (List Value) :=
  match native with
  | .base .require => Library.requirePackage arguments
  | .base function => Library.runBase function arguments
  | .string function => Library.runString function arguments
  | .table function => Library.runTable function arguments
  | .math function => Library.runMath function arguments
  | .utf8 function => Library.runUtf8 function arguments
  | .coroutine function => Library.runCoroutine function arguments
  | .debug function => Library.runDebug function arguments
  | .system function => Library.runSystem function arguments
  | .package function => Library.runPackage function arguments
  | .object function => Library.runObject function arguments
  | .wrapped thread => Library.resumeWrapped thread arguments
  | .matches subject pattern place => Library.nextMatch subject pattern place
  | .report title conversion => Library.report title conversion arguments
  | .storedMacro => Library.storedMacro arguments
  | .host call => do Library.replyValues (← Library.withWorld (call arguments))
  | .describeError => Library.describeError arguments
  | .readField => do
      let arguments : Arguments := arguments
      return [← Operation.index .native none (arguments.valueAt 1) (arguments.valueAt 2)]
  | .refuse message => Library.raiseCallback (.external message)

end Script
end MacroHost
