/-!
# Chunks of the host

The script code that the host runs in every session.  The names of these chunks have a common
beginning, which tells them apart from the code of users in an inspection of the stack.
-/

namespace MacroHost
namespace Sessions
namespace Chunks

/-- A chunk from its lines, the first of which is empty. -/
def ofLines (lines : List String) : String :=
  "\n" ++ String.join (lines.map (· ++ "\n"))

/-- Name of the function that holds the code of a user. -/
def entrypointName : String := "__arc_entrypoint"

/-- A chunk that returns a script as a function.  The script begins on the first line, so that line
numbers are those of the script itself. -/
def entrypoint (script : String) : String :=
  "local function " ++ entrypointName ++ "(...) " ++ script ++ "\nend\nreturn " ++ entrypointName

/-- Remembers the globals and the standard tables, then takes away what would let a script leave its
sandbox.  Returns a function that puts everything back, and two functions for inspecting the stack,
nil where there are none. -/
def sandbox : String :=
  ofLines [
    "local G, debug, package = _G, debug, package",
    "local next, type, select, rawget, rawset, pcall, error = "
      ++ "next, type, select, rawget, rawset, pcall, error",
    "local getmeta = debug and debug.getmetatable or getmetatable",
    "local setmeta = debug and debug.setmetatable or setmetatable",
    "",
    "local copies, metas = \x7b\x7d, \x7b\x7d",
    "local function record(t)",
    "  if copies[t] then",
    "    return false",
    "  end",
    "  local copy = \x7b\x7d",
    "  for k, v in next, t do",
    "    copy[k] = v",
    "  end",
    "  copies[t] = copy",
    "  metas[t] = getmeta(t)",
    "  return true",
    "end",
    "",
    "record(G)",
    "for _, value in next, G do",
    "  if type(value) == \"table\" and record(value) then",
    "    for _, inner in next, value do",
    "      if type(inner) == \"table\" then",
    "        record(inner)",
    "      end",
    "    end",
    "  end",
    "end",
    "local string_meta = getmeta(\"\")",
    "if type(string_meta) == \"table\" then",
    "  record(string_meta)",
    "end",
    "",
    "local function restore()",
    "  for t, copy in next, copies do",
    "    for k in next, t do",
    "      if rawget(copy, k) == nil then",
    "        rawset(t, k, nil)",
    "      end",
    "    end",
    "    for k, v in next, copy do",
    "      rawset(t, k, v)",
    "    end",
    "    pcall(setmeta, t, metas[t])",
    "  end",
    "end",
    "",
    "local raw_load, raw_loadfile = load, loadfile",
    "G.load = function(chunk, name, _, ...)",
    "  if select(\"#\", ...) > 0 then",
    "    return raw_load(chunk, name, \"t\", (...))",
    "  end",
    "  return raw_load(chunk, name, \"t\")",
    "end",
    "G.loadfile = function(file, _, ...)",
    "  if select(\"#\", ...) > 0 then",
    "    return raw_loadfile(file, \"t\", (...))",
    "  end",
    "  return raw_loadfile(file, \"t\")",
    "end",
    "G.dofile = function(file)",
    "  local chunk, err = raw_loadfile(file, \"t\")",
    "  if not chunk then",
    "    error(err, 2)",
    "  end",
    "  return chunk()",
    "end",
    "",
    "if package then",
    "  package.loadlib = nil",
    "  package.cpath = \"\"",
    "  local searchers = package.searchers",
    "  for i = #searchers, 3, -1 do",
    "    searchers[i] = nil",
    "  end",
    "  package.loaded.debug = nil",
    "end",
    "G.debug = nil",
    "",
    "return restore, debug and debug.getinfo, debug and debug.getlocal"]

/-- Makes the function that replaces expressions in braces inside a text.  It receives the function
that lists local variables, and without it sees globals only. -/
def formatting : String :=
  ofLines [
    "local getlocal = ...",
    "local setmetatable, load, pcall, tostring = setmetatable, load, pcall, tostring",
    "local G = _G",
    "",
    "return function(template)",
    "  local env = setmetatable(\x7b\x7d, \x7b __index = G \x7d)",
    "  local index = 1",
    "  while getlocal do",
    "    local name, value = getlocal(2, index)",
    "    if not name then break end",
    "    if name:sub(1, 1) ~= \"(\" then",
    "      env[name] = value",
    "    end",
    "    index = index + 1",
    "  end",
    "",
    "  return (tostring(template):gsub(\"%b\x7b\x7d\", function(block)",
    "    local chunk = load(\"return \" .. block:sub(2, -2), \"=arc:f\", \"t\", env)",
    "    if not chunk then",
    "      return block",
    "    end",
    "    local ok, result = pcall(chunk)",
    "    if not ok then",
    "      return block",
    "    end",
    "    return tostring(result)",
    "  end))",
    "end"]

/-- Makes the function that suspends a script.  It receives the default wait. -/
def waiting : String :=
  ofLines [
    "local default_wait = ...",
    "local yield = coroutine.yield",
    "",
    "return function(seconds)",
    "  return yield(seconds or default_wait)",
    "end"]

/-- Adds a search for stored macros and for files in approved directories to those for packages.  It
receives the function that reads stored macros, and the directories. -/
def requiring : String :=
  ofLines [
    "local get_macro_text, paths = ...",
    "local load, loadfile, error, ipairs = load, loadfile, error, ipairs",
    "local concat, format, searchpath = table.concat, string.format, package.searchpath",
    "",
    "local function searcher(name)",
    "  local body = get_macro_text(name)",
    "  if body then",
    "    local chunk, err = load(body, \"=\" .. name, \"t\")",
    "    if not chunk then",
    "      error(format(\"error loading macro '%s':\\n\\t%s\", name, err), 2)",
    "    end",
    "    return chunk, \":macro:\" .. name",
    "  end",
    "",
    "  local templates = \x7b\x7d",
    "  for _, dir in ipairs(paths) do",
    "    templates[#templates + 1] = dir .. \"/?.lua\"",
    "    templates[#templates + 1] = dir .. \"/?/init.lua\"",
    "  end",
    "  if #templates == 0 then",
    "    return format(\"no macro '%s'\", name)",
    "  end",
    "",
    "  local file, searched = searchpath(name, concat(templates, \";\"))",
    "  if not file then",
    "    return format(\"no macro '%s'%s\", name, searched or \"\")",
    "  end",
    "  local chunk, err = loadfile(file, \"t\")",
    "  if not chunk then",
    "    error(format(\"error loading module '%s' from file '%s':\\n\\t%s\", name, file, err), 2)",
    "  end",
    "  return chunk, file",
    "end",
    "",
    "table.insert(package.searchers, 2, searcher)"]

/-- Finds the place where a coroutine failed: in the code of a user if there is such an activation,
else in the code of the host.  It receives the coroutine and the function that inspects the
stack. -/
def locating : String :=
  ofLines [
    "local co, getinfo = ...",
    "if co == nil then",
    "  return \"Unknown error location\"",
    "end",
    "getinfo = getinfo or debug.getinfo",
    "",
    "local fallback",
    "local level = 0",
    "while true do",
    "  local info = getinfo(co, level, \"Sln\")",
    "  if not info then break end",
    "  if info.what ~= \"C\" then",
    "    local source = info.source",
    "    local lead = source:sub(1, 1)",
    "    if lead == \"@\" or lead == \"=\" then",
    "      source = source:sub(2)",
    "    end",
    "    local line = string.format(\"Error at %s:%d in function '%s'\",",
    "      source, info.currentline, info.name or \"(anonymous)\")",
    "    if info.source:sub(1, 5) ~= \"=arc:\" then",
    "      return line",
    "    end",
    "    fallback = fallback or line",
    "  end",
    "  level = level + 1",
    "end",
    "return fallback or \"Unknown error location\""]

end Chunks
end Sessions
end MacroHost
