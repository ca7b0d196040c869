import MacroHost.Script.Interpreter

/-!
# Fresh interpreters

An interpreter with the standard functions in its globals.  A safe one has no `debug` table and
refuses native libraries; a full one has both, and its host takes them away before a script runs.
-/

namespace MacroHost
namespace Script
namespace Standard

open Text

/-- Standard functions without a table. -/
def baseFunctions : List (String × BaseFunction) :=
  [("assert", .assert), ("collectgarbage", .collectGarbage), ("dofile", .doFile),
    ("error", .error), ("getmetatable", .getMetatable), ("ipairs", .ipairs),
    ("loadfile", .loadFile), ("load", .load), ("next", .next), ("pairs", .pairs),
    ("pcall", .pcall), ("print", .print), ("warn", .warn), ("rawequal", .rawEqual),
    ("rawlen", .rawLen), ("rawget", .rawGet), ("rawset", .rawSet), ("select", .select),
    ("setmetatable", .setMetatable), ("tonumber", .toNumber), ("tostring", .toString),
    ("type", .type), ("xpcall", .xpcall)]

/-- Standard functions on strings. -/
def stringFunctions : List (String × StringFunction) :=
  [("byte", .byte), ("char", .char), ("dump", .dump), ("find", .find), ("format", .format),
    ("gmatch", .gmatch), ("gsub", .gsub), ("len", .len), ("lower", .lower), ("match", .match),
    ("rep", .rep), ("reverse", .reverse), ("sub", .sub), ("upper", .upper), ("pack", .pack),
    ("packsize", .packSize), ("unpack", .unpack)]

/-- Operators on strings that denote numbers. -/
def stringOperators : List (String × ArithmeticOp) :=
  [("__add", .add), ("__sub", .sub), ("__mul", .mul), ("__mod", .mod), ("__pow", .pow),
    ("__div", .div), ("__idiv", .idiv), ("__unm", .unm)]

/-- Standard functions on tables. -/
def tableFunctions : List (String × TableFunction) :=
  [("concat", .concat), ("insert", .insert), ("pack", .pack), ("unpack", .unpack),
    ("remove", .remove), ("move", .move), ("sort", .sort)]

/-- Standard functions on numbers. -/
def mathFunctions : List (String × MathFunction) :=
  [("abs", .abs), ("ceil", .ceil), ("floor", .floor), ("max", .max), ("min", .min),
    ("fmod", .fmod), ("modf", .modf), ("log", .log), ("exp", .exp), ("sqrt", .sqrt),
    ("sin", .sin), ("cos", .cos), ("tan", .tan), ("asin", .asin), ("acos", .acos),
    ("atan", .atan), ("deg", .deg), ("rad", .rad), ("tointeger", .toInteger), ("type", .type),
    ("ult", .ult), ("random", .random), ("randomseed", .randomSeed)]

/-- Standard functions on UTF-8. -/
def utf8Functions : List (String × Utf8Function) :=
  [("char", .char), ("codepoint", .codepoint), ("codes", .codes), ("len", .len),
    ("offset", .offset)]

/-- Standard functions on coroutines. -/
def coroutineFunctions : List (String × CoroutineFunction) :=
  [("create", .create), ("resume", .resume), ("running", .running), ("status", .status),
    ("wrap", .wrap), ("yield", .yield), ("isyieldable", .isYieldable), ("close", .close)]

/-- Standard functions that inspect the running program. -/
def debugFunctions : List (String × DebugFunction) :=
  [("getinfo", .getInfo), ("getlocal", .getLocal), ("getmetatable", .getMetatable),
    ("setmetatable", .setMetatable), ("traceback", .traceback)]
    ++ ["debug", "gethook", "getregistry", "getupvalue", "getuservalue", "sethook", "setlocal",
      "setupvalue", "setuservalue", "upvalueid", "upvaluejoin"].map (·, .silent)

/-- Standard functions of the operating system. -/
def osFunctions : List (String × SystemFunction) :=
  [("clock", .clock), ("date", .date), ("difftime", .difference), ("getenv", .environment),
    ("time", .time)]
    ++ ["execute", "exit", "remove", "rename", "setlocale", "tmpname"].map (·, .silent)

/-- Standard functions on streams. -/
def ioFunctions : List (String × SystemFunction) :=
  [("open", .open), ("write", .write), ("type", .streamType)]
    ++ ["close", "flush", "input", "lines", "output", "popen", "read", "tmpfile"].map (·, .silent)

/-- Store new native functions in a table. -/
def installFunctions (heap : Heap) (ref : Ref) (functions : List (String × Native)) : Heap :=
  functions.foldl (fun heap (name, native) =>
    let (value, heap) := heap.newNative native
    heap.rawSetText ref name value) heap

/-- A new table of native functions. -/
def functionTable (heap : Heap) (functions : List (String × Native)) : Ref × Heap :=
  let (ref, heap) := heap.newTable {}
  (ref, installFunctions heap ref functions)

/-- Store values in a table. -/
def installValues (heap : Heap) (ref : Ref) (values : List (String × Value)) : Heap :=
  values.foldl (fun heap (name, value) => heap.rawSetText ref name value) heap

/-- Apply a constructor to the second parts. -/
def tagged {α : Type} (tag : α → Native) (functions : List (String × α)) :
    List (String × Native) :=
  functions.map fun (name, function) => (name, tag function)

/-- A pattern that matches one sequence of UTF-8. -/
def charPattern : Bytes :=
  ⟨#[91, 0, 45, 0x7F, 0xC2, 45, 0xFD, 93, 91, 0x80, 45, 0xBF, 93, 42]⟩

/-- Where packages are looked for. -/
def packagePath : String :=
  "/usr/local/share/lua/5.4/?.lua;/usr/local/share/lua/5.4/?/init.lua;"
    ++ "/usr/local/lib/lua/5.4/?.lua;/usr/local/lib/lua/5.4/?/init.lua;./?.lua;./?/init.lua"

/-- Where native packages are looked for. -/
def nativePath : String :=
  "/usr/local/lib/lua/5.4/?.so;/usr/local/lib/lua/5.4/loadall.so;./?.so"

/-- A metatable that scripts cannot see. -/
def hiddenMetatable (heap : Heap) (operators : List (String × Native)) (name : Option String) :
    Ref × Heap :=
  let (ref, heap) := functionTable heap operators
  let heap := heap.rawSetText ref "__metatable" (.boolean false)
  match name with
  | some name => (ref, heap.rawSetText ref "__name" (.ofText name))
  | none => (ref, heap)

/-- Operators of the objects that stand for modules and enumerations. -/
def objectOperators : List (String × Native) :=
  [("__index", .object .index), ("__newindex", .object .assign),
    ("__tostring", .object .describe)]

/-- The searchers of an interpreter, safe or full. -/
def searchers (safe : Bool) : List Native :=
  if safe then
    [.package .searchPreload, .package .searchFiles,
      .host fun _ world => (world, .ok [.text "\n\tcan't load C modules in safe mode"])]
  else
    [.package .searchPreload, .package .searchFiles, .package (.searchNative false),
      .package (.searchNative true)]

/-- The loader of native libraries. -/
def libraryLoader (safe : Bool) : Native :=
  if safe then .refuse "safety error: package.loadlib is disabled in safe mode"
  else .package .loadLibrary

/-- The table `package`, with `package.loaded` as given. -/
def packageTable (heap : Heap) (loaded : Ref) (safe : Bool) : Ref × Heap :=
  let (package, heap) := functionTable heap
    [("searchpath", .package .searchPath), ("loadlib", libraryLoader safe)]
  let (found, heap) := heap.newTable {}
  let heap := (searchers safe).zipIdx.foldl (fun heap (native, index) =>
    let (value, heap) := heap.newNative native
    heap.rawSet found (.ofNat (index + 1)) value) heap
  let (preload, heap) := heap.newTable {}
  let heap := heap.register "preload" (.table preload)
  (package, installValues heap package
    [("loaded", .table loaded), ("preload", .table preload), ("searchers", .table found),
      ("path", .ofText packagePath), ("cpath", .ofText nativePath),
      ("config", .ofText "/\n;\n?\n!\n-\n")])

/-- The heap of a fresh interpreter that shares nothing with its host. -/
def libraries (safe : Bool) : Heap :=
  let heap : Heap := {}
  let globals := heap.roots.globals
  let heap := installFunctions heap globals (tagged .base baseFunctions)
  let (loaded, heap) := heap.newTable {}
  let (package, heap) := packageTable heap loaded safe
  let (strings, heap) := functionTable heap (tagged .string stringFunctions)
  let (stringMeta, heap) := functionTable heap
    (tagged (fun op => .string (.arithmetic op)) stringOperators)
  let heap := heap.rawSetText stringMeta "__index" (.table strings)
  let (tables, heap) := functionTable heap (tagged .table tableFunctions)
  let (numbers, heap) := functionTable heap (tagged .math mathFunctions)
  let heap := installValues heap numbers
    [("pi", .number Library.halfTurn), ("huge", .number (1.0 / 0.0)),
      ("maxinteger", .integer Int64.maxValue), ("mininteger", .integer Int64.minValue)]
  let (characters, heap) := functionTable heap (tagged .utf8 utf8Functions)
  let heap := heap.rawSetText characters "charpattern" (.string charPattern)
  let (coroutines, heap) := functionTable heap (tagged .coroutine coroutineFunctions)
  let (system, heap) := functionTable heap (tagged .system osFunctions)
  let (streams, heap) := functionTable heap (tagged .system ioFunctions)
  let (streamMeta, heap) := hiddenMetatable heap [("__tostring", .object .describe)] (some "FILE*")
  let heap := ["stdin", "stdout", "stderr"].foldl (fun heap name =>
    let (value, heap) := heap.newObject (.stream name) (some streamMeta)
    heap.rawSetText streams name value) heap
  let heap := heap.register "standard output" (heap.rawGetText streams "stdout")
  let (moduleMeta, heap) := hiddenMetatable heap objectOperators (some "Namespace")
  let (enumerationMeta, heap) := hiddenMetatable heap objectOperators (some "EnumProxy")
  let (failureMeta, heap) := hiddenMetatable heap [("__tostring", .object .describe)] none
  let (listMeta, heap) := hiddenMetatable heap [] none
  let packages :=
    [("_G", globals), ("package", package), ("coroutine", coroutines), ("table", tables),
      ("io", streams), ("os", system), ("string", strings), ("math", numbers),
      ("utf8", characters)]
  let (packages, heap) :=
    if safe then (packages, heap)
    else
      let (inspection, heap) := functionTable heap (tagged .debug debugFunctions)
      (packages ++ [("debug", inspection)], heap)
  let entries := packages.map fun (name, ref) => (name, Value.table ref)
  let heap := installValues heap loaded entries
  let heap := installValues heap globals entries
  let heap := installFunctions heap globals [("require", .base .require)]
  let heap := heap.rawSetText globals "_VERSION" (.ofText "Lua 5.4")
  let (step, heap) := heap.newNative (.base .ipairsStep)
  let (describe, heap) := heap.newNative .describeError
  let heap := heap.register "next" (heap.rawGetText globals "next")
  let heap := heap.register "ipairs step" step
  let heap := heap.register "describe error" describe
  { heap with
    roots :=
      { heap.roots with
        loaded, package
        strings := some stringMeta
        modules := some moduleMeta
        enumerations := some enumerationMeta
        failures := some failureMeta
        streams := some streamMeta
        lists := some listMeta } }

/-- The heap of a fresh interpreter. -/
def heap (safe : Bool) (world : World) : Heap := { libraries safe with world }

end Standard

/-- A fresh interpreter, safe or full. -/
def Interpreter.fresh (safe : Bool) (world : World) : Interpreter :=
  { heap := Standard.heap safe world }

end Script
end MacroHost
