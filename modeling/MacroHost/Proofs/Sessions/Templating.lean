import MacroHost.Proofs.Sessions.Formatting
import MacroHost.Proofs.Sessions.Routes

/-!
# Templates in bound sessions

Binding leaves scripts the function that replaces expressions in a text, with all that it needs.  It
fills templates in for whoever calls it: a name in braces stands for the innermost variable of the
caller with that name, or for a global.
-/

namespace MacroHost
namespace Script

deriving instance DecidableEq for StringFunction

namespace Heap

/-- The function for strings that a field holds. -/
def stringFunction? (heap : Heap) (ref : Ref) (name : String) : Option StringFunction :=
  match heap.rawGetText ref name with
  | .function function =>
      match heap.functions[function]? with
      | some (.native (.string op)) => some op
      | _ => none
  | _ => none

theorem exists_of_stringFunction? {heap : Heap} {ref : Ref} {name : String} {op : StringFunction}
    (found : heap.stringFunction? ref name = some op) :
    ∃ function : Nat, heap.rawGetText ref name = .function function ∧
      heap.functions[function]? = some (.native (.string op)) := by
  simp only [stringFunction?] at found
  split at found
  · rename_i function named
    split at found
    · rename_i stored
      obtain rfl := Option.some.inj found
      exact ⟨function, named, stored⟩
    · simp at found
  · simp at found

end Heap
end Script

namespace Sessions

open Script Evaluation Text Script.Library Capabilities Events Helpers Sandbox Pattern

/-! ## What binding leaves -/

/-- Names of globals that the function for templates captures. -/
def templateNames : List String := ["setmetatable", "_G", "load", "pcall"]

private theorem fresh_templates :
    let heap := (Interpreter.fresh false {}).heap
    let globals := heap.roots.globals
    (heap.baseFunction? globals "setmetatable" = some .setMetatable ∧
      heap.baseFunction? globals "tostring" = some .toString ∧
      heap.baseFunction? globals "pcall" = some .pcall ∧
      heap.baseFunction? globals "select" = some .select ∧
      heap.baseFunction? globals "load" = some .load ∧
      heap.global "_G" = .table globals) ∧
    (globals = 0 ∧ heap.tables.size = 19 ∧ heap.global "debug" = .table 18 ∧
      heap.debugFunction? 18 "getlocal" = some .getLocal) ∧
    (heap.roots.strings = some 6 ∧ heap.rawGetText 6 "__index" = .table 5 ∧
      heap.rawGetText 6 "__tostring" = .nil ∧ heap.stringFunction? 5 "sub" = some .sub ∧
      heap.stringFunction? 5 "gsub" = some .gsub) := by
  decide +kernel

/-- The methods of texts: a metatable that names a library with some functions. -/
private structure TextMethods (heap : Heap) (metatable library : Nat) : Prop where
  strings_eq : heap.roots.strings = some metatable
  apart : metatable ≠ heap.roots.globals ∧ library ≠ heap.roots.globals
  inside : metatable < heap.tables.size ∧ library < heap.tables.size
  index_eq : heap.rawGetText metatable "__index" = .table library
  plain : heap.rawGetText metatable "__tostring" = .nil
  sub : ∃ function : Nat, heap.rawGetText library "sub" = .function function ∧
    heap.functions[function]? = some (.native (.string .sub))
  gsub : ∃ function : Nat, heap.rawGetText library "gsub" = .function function ∧
    heap.functions[function]? = some (.native (.string .gsub))

/-- A heap with the functions that templates are filled in with. -/
private structure TemplateOrigins (heap : Heap) : Prop where
  setMetatable : heap.HoldsNative "setmetatable" (.base .setMetatable)
  toString : heap.HoldsNative "tostring" (.base .toString)
  pcall : heap.HoldsNative "pcall" (.base .pcall)
  select : heap.HoldsNative "select" (.base .select)
  load : heap.HoldsNative "load" (.base .load)
  globals : heap.global "_G" = .table heap.roots.globals
  getLocal : ∃ function : Nat, heap.ofLibrary "debug" "getlocal" = .function function ∧
    heap.functions[function]? = some (.native (.debug .getLocal))
  texts : TextMethods heap 6 5

private theorem TemplateOrigins.withWorld {heap : Heap} (origins : TemplateOrigins heap)
    (world : World) : TemplateOrigins { heap with world } :=
  { origins with texts := { origins.texts with } }

private theorem templateOrigins_fresh : TemplateOrigins (Interpreter.fresh false {}).heap := by
  obtain ⟨⟨setMetatable, toString, pcall, select, load, globals⟩,
    ⟨globals_eq, size_eq, debug_eq, getLocal⟩, strings_eq, index_eq, plain, sub, gsub⟩ :=
    fresh_templates
  exact
    { setMetatable := .of_baseFunction? setMetatable
      toString := .of_baseFunction? toString
      pcall := .of_baseFunction? pcall
      select := .of_baseFunction? select
      load := .of_baseFunction? load
      globals
      getLocal := by
        rw [Heap.ofLibrary_eq debug_eq]
        exact Heap.exists_of_debugFunction? getLocal
      texts :=
        { strings_eq
          apart := by rw [globals_eq]; decide
          inside := by rw [size_eq]; decide
          index_eq
          plain
          sub := Heap.exists_of_stringFunction? sub
          gsub := Heap.exists_of_stringFunction? gsub } }

/-- Methods of texts stay where they are. -/
private theorem TextMethods.retained {before after : Heap} {metatable library : Nat}
    {names : List String} {opened : List Nat} (methods : TextMethods before metatable library)
    (retains : Retains names opened before after) (metatableKept : metatable ∉ opened)
    (libraryKept : library ∉ opened) : TextMethods after metatable library := by
  have own {name : String} (kept : name ∉ closedNames) :
      after.rawGetText metatable name = before.rawGetText metatable name :=
    retains.field_eq _ methods.inside.1 methods.apart.1 metatableKept name kept
  have member {name : String} (kept : name ∉ closedNames) :
      after.rawGetText library name = before.rawGetText library name :=
    retains.field_eq _ methods.inside.2 methods.apart.2 libraryKept name kept
  obtain ⟨sub, sub_eq, cuts⟩ := methods.sub
  obtain ⟨gsub, gsub_eq, replaces⟩ := methods.gsub
  exact
    { strings_eq := retains.roots_eq ▸ methods.strings_eq
      apart := retains.roots_eq ▸ methods.apart
      inside := ⟨Nat.lt_of_lt_of_le methods.inside.1 retains.tables,
        Nat.lt_of_lt_of_le methods.inside.2 retains.tables⟩
      index_eq := (own (by decide)).trans methods.index_eq
      plain := (own (by decide)).trans methods.plain
      sub := ⟨sub, (member (by decide)).trans sub_eq, retains.function_eq cuts⟩
      gsub := ⟨gsub, (member (by decide)).trans gsub_eq, retains.function_eq replaces⟩ }

private theorem TextMethods.hasMethod {heap : Heap} {metatable library function : Nat} {name : String}
    (methods : TextMethods heap metatable library)
    (found : heap.rawGetText library name = .function function) :
    heap.HasMethod name.toUTF8 function :=
  ⟨metatable, library, methods.strings_eq, methods.inside.1, methods.index_eq, methods.inside.2, found⟩

/-- A heap with a global that fills templates in, in which texts are their own texts. -/
def HasFormatter (heap : Heap) : Prop :=
  (∃ (function : Nat) (tools : FormatTools), heap.global "f" = .function function ∧
    tools.globals = heap.roots.globals ∧ Formatter heap function tools) ∧
  ∀ text, Tells heap (.string text) text

/-- The function for templates has what it needs. -/
private theorem hasFormatter_of_retains {base heap : Heap} {names : List String} {opened : List Nat}
    (origins : TemplateOrigins base) (free : base.allowance = none)
    (retains : Retains names opened base heap) (metatableKept : 6 ∉ opened) (libraryKept : 5 ∉ opened)
    (kept : ∀ name ∈ ["setmetatable", "_G", "tostring", "pcall"], name ∉ names)
    (load : ∃ function : Nat, heap.global "load" = .function function ∧
      HandsOn heap function Sandbox.load .load)
    (holds : heap.HoldsClosure "f" format
      [heap.global "setmetatable", heap.global "_G", base.ofLibrary "debug" "getlocal",
        heap.global "tostring", heap.global "load", heap.global "pcall"]) : HasFormatter heap := by
  have native {name : String} {native : Native} (stored : base.HoldsNative name native)
      (among : name ∈ ["setmetatable", "_G", "tostring", "pcall"]) :
      ∃ function : Nat, heap.global name = .function function ∧
        heap.functions[function]? = some (.native native) := by
    obtain ⟨function, named, stored⟩ := stored
    exact ⟨function, (retains.global_eq name (kept name among)).trans named, retains.function_eq stored⟩
  obtain ⟨setMetatable, setMetatable_eq, sets⟩ := native origins.setMetatable (by decide)
  obtain ⟨toString, toString_eq, tells⟩ := native origins.toString (by decide)
  obtain ⟨pcall, pcall_eq, calls⟩ := native origins.pcall (by decide)
  obtain ⟨getLocal, getLocal_eq, finds⟩ := origins.getLocal
  obtain ⟨load, load_eq, loads⟩ := load
  have globals_eq : heap.global "_G" = .table heap.roots.globals := by
    rw [retains.global_eq "_G" (kept _ (by decide)), origins.globals, retains.roots_eq]
  have methods := origins.texts.retained retains metatableKept libraryKept
  obtain ⟨sub, sub_eq, cuts⟩ := methods.sub
  obtain ⟨gsub, gsub_eq, replaces⟩ := methods.gsub
  have hasSub := methods.hasMethod sub_eq
  obtain ⟨function, named, closure⟩ := holds
  rw [setMetatable_eq, globals_eq, getLocal_eq, toString_eq, load_eq, pcall_eq] at closure
  let tools : FormatTools :=
    { setMetatable, globals := heap.roots.globals, getLocal, toString, load, pcall, sub, gsub }
  refine ⟨⟨function, tools, named, rfl, ?_⟩, tells_text hasSub fun _ strings_eq =>
    Option.some.inj (strings_eq.symm.trans methods.strings_eq) ▸ methods.plain⟩
  exact
    { free := retains.free free
      closure
      setMetatable := sets
      getLocal := retains.function_eq finds
      toString := tells
      load := loads
      pcall := calls
      sub := cuts
      gsub := replaces
      hasSub
      hasGsub := methods.hasMethod gsub_eq }

/-- What fresh interpreters have in common. -/
private theorem template_outset {session : Session} {world : World}
    (fresh : session.interpreter = Interpreter.fresh false world) :
    Stock session.interpreter.heap ∧ session.interpreter.heap.Sound ∧
      Furnished session.interpreter.heap
        { coroutines := 10, tables := 7, strings := 5, packages := 2, searchers := 3 } ∧
      TemplateOrigins session.interpreter.heap := by
  rw [fresh, heap_fresh]
  exact ⟨stock_fresh.withWorld world, sound_withWorld sound_fresh world,
    furnished_fresh.withWorld world, templateOrigins_fresh.withWorld world⟩

/-- Binding leaves the function for templates in its place. -/
theorem hasFormatter_bind {session : Session} {world : World} (created : session.state = .created)
    (fresh : session.interpreter = Interpreter.fresh false world)
    (free : ∀ name ∈ session.registry.globalNames, name ∉ reservedNames ++ templateNames) :
    session.bind.2 = .ok () ∧ HasFormatter session.bind.1.interpreter.heap := by
  have unreserved : ∀ name ∈ session.registry.globalNames, name ∉ reservedNames :=
    fun name offered among => free name offered (List.mem_append_left _ among)
  have unnamed : ∀ name ∈ "tostring" :: templateNames, name ∉ session.registry.globalNames :=
    fun name among offered => free name offered
      ((show "tostring" :: templateNames ⊆ reservedNames ++ templateNames by decide) among)
  let base := session.interpreter.heap
  obtain ⟨stock, sound, furnished, origins⟩ := template_outset fresh
  obtain ⟨prepared, -, ⟨equipped, -, closed, locals, barred, sealing, amends, -⟩, bound, -, last_eq⟩ :=
    Session.bind_of_prepared created (Setup.succeeds_prepare_sealed stock sound furnished unreserved)
  let last := session.bind.1.interpreter.heap
  refine ⟨bound, show HasFormatter last from ?_⟩
  have lastAmends : prepared.interpreter.heap.Amends [triggerGlobal] [] last := by
    rw [show last = _ from last_eq]
    exact installTrigger_amends _ _
  have offers := session.registry.amends_bind closed
  have later := amends.trans lastAmends
  have retains := ((Retains.of_sealed barred sealing).trans (.of_amends offers)).trans (.of_amends later)
  have kept : ∀ name ∈ ["setmetatable", "_G", "tostring", "pcall"], name ∉
      closedNames ++ session.registry.globalNames ++
        (["print", storedMacroGlobal, "f", "arc"] ++ [triggerGlobal]) := by
    intro name among
    have own : name ∉ closedNames ∧ name ∉ ["print", storedMacroGlobal, "f", "arc"] ++ [triggerGlobal] ∧
        name ∈ "tostring" :: templateNames := by
      revert name
      decide
    rw [List.mem_append, List.mem_append, not_or, not_or]
    exact ⟨⟨own.1, unnamed name own.2.2⟩, own.2.1⟩
  have load := exists_handsOn
    ((barred.load.amends offers (unnamed _ (by decide))).amends later (by decide))
    retains.toGrows origins.select origins.load
  have beyond : prepared.interpreter.heap.roots.globals < base.tables.size := by
    rw [amends.roots_eq, offers.roots_eq, sealing.roots_eq]
    exact base.rooted
  exact hasFormatter_of_retains origins stock.free retains (by decide) (by decide) kept load
    (equipped.amends lastAmends beyond (by decide)).formatting

/-! ## A small heap -/

/-- Where the small heap keeps what is needed to fill a template in. -/
def templateTools : FormatTools where
  setMetatable := 1
  globals := 1
  getLocal := 2
  toString := 3
  load := 4
  pcall := 5
  sub := 6
  gsub := 7

/-- The fields of a table with two texts as names. -/
def pairOfFields (first second : Bytes × Value) : Table :=
  ((Table.withRoom 0 2).store (.ofBytes first.1) first.2).store (.ofBytes second.1) second.2

/-- A heap with the function that fills templates in and what it needs, with two globals and with two
more variables. -/
def templateHeap (outer inner : Value) : Heap where
  cells := (templateTools.values ++ [Value.function 8, .function 9, outer, inner]).toArray
  tables := #[{},
    pairOfFields ("x".toUTF8, .string "one".toUTF8) ("y".toUTF8, .string "two".toUTF8),
    (Table.withRoom 0 1).store (.ofText "__index") (.table 3),
    pairOfFields ("sub".toUTF8, .function 6) ("gsub".toUTF8, .function 7)]
  functions := #[.closure format #[0, 1, 2, 3, 4, 5], .native (.base .setMetatable),
    .native (.debug .getLocal), .native (.base .toString), .closure Sandbox.load #[6, 7],
    .native (.base .pcall), .native (.string .sub), .native (.string .gsub),
    .native (.base .select), .native (.base .load)]
  roots := { strings := some 2 }
  rooted := Nat.zero_lt_succ _

theorem lookup_pairOfFields (first second : Bytes × Value) (name : Bytes) :
    (pairOfFields first second).lookup (.ofBytes name) =
      if second.1 = name then second.2 else if first.1 = name then first.2 else .nil := by
  simp only [pairOfFields, Table.lookup_store, Table.lookup_withRoom, Key.ofBytes_inj]

section SmallHeap

variable (outer inner : Value)

theorem globals_templateHeap (name : Bytes) :
    ((templateHeap outer inner).table 1).lookup (.ofBytes name) =
      if "y".toUTF8 = name then .string "two".toUTF8
      else if "x".toUTF8 = name then .string "one".toUTF8 else .nil := by
  rw [← lookup_pairOfFields ("x".toUTF8, .string "one".toUTF8) ("y".toUTF8, .string "two".toUTF8)]
  rfl

theorem rawGetText_templateHeap (event : String) :
    (templateHeap outer inner).rawGetText 2 event =
      if "__index" = event then .table 3 else .nil := by
  change ((Table.withRoom 0 1).store (.ofText "__index") (.table 3)).lookup (.ofText event) = _
  rw [Table.lookup_store, Table.lookup_withRoom]
  simp only [Key.ofText_inj]

theorem hasMethod_templateHeap {name : Bytes} {function : Ref}
    (found : (pairOfFields ("sub".toUTF8, .function 6) ("gsub".toUTF8, .function 7)).lookup
      (.ofBytes name) = .function function) : (templateHeap outer inner).HasMethod name function :=
  ⟨2, 3, rfl, show 2 < 4 by decide, rawGetText_templateHeap outer inner "__index",
    show 3 < 4 by decide, found⟩

theorem formatter_templateHeap : Formatter (templateHeap outer inner) 0 templateTools where
  free := rfl
  closure := by
    refine ⟨#[0, 1, 2, 3, 4, 5], rfl, fun index value found => ?_⟩
    have inside : index < 6 := (List.getElem?_eq_some_iff.mp found).1
    interval_cases index <;> exact found
  setMetatable := rfl
  getLocal := rfl
  toString := rfl
  load := by
    refine ⟨8, 9, ⟨#[6, 7], rfl, fun index value found => ?_⟩, rfl, rfl⟩
    have inside : index < 2 := (List.getElem?_eq_some_iff.mp found).1
    interval_cases index <;> exact found
  pcall := rfl
  sub := rfl
  gsub := rfl
  hasSub := hasMethod_templateHeap outer inner
    ((lookup_pairOfFields _ _ _).trans ((if_neg (by decide +kernel)).trans (if_pos rfl)))
  hasGsub := hasMethod_templateHeap outer inner ((lookup_pairOfFields _ _ _).trans (if_pos rfl))

theorem tells_templateHeap (text : Bytes) : Tells (templateHeap outer inner) (.string text) text :=
  tells_text (formatter_templateHeap outer inner).hasSub
    (fun _ strings_eq => Option.some.inj strings_eq ▸ rawGetText_templateHeap outer inner "__tostring")
    text

end SmallHeap

/-! ## Bound sessions -/

/-- After binding, the global `f` fills templates in, and so does any function with the same code that
has all it needs, in any heap. -/
theorem bound_sessions_fill_templates {session : Session} {world : World}
    (created : session.state = .created)
    (fresh : session.interpreter = Interpreter.fresh false world)
    (free : ∀ name ∈ session.registry.globalNames, name ∉ reservedNames ++ templateNames) :
    session.bind.2 = .ok () ∧ HasFormatter session.bind.1.interpreter.heap ∧
      ∀ heap function tools, Formatter heap function tools →
        FillsTemplates heap function tools.globals := by
  obtain ⟨binds, has⟩ := hasFormatter_bind created fresh free
  exact ⟨binds, has, fun _ _ _ formatter => formatter.fillsTemplates⟩

/-- A session without modules, and a caller with two variables, one of which has no value and is passed
over. -/
theorem bound_sessions_fill_templates_variables :
    let session := ({} : Host).createSession 1 "macro" {}
    let heap := templateHeap .nil (.string "three".toUTF8)
    let caller : Frame :=
      { function := .function 0, site := { locals := [("x".toUTF8, 8), ("y".toUTF8, 9)] },
        continuation := fun _ => .done (.returned []) }
    session.bind.2 = .ok () ∧
      Replies caller [] {} heap 0 [.string "\x7bx\x7d\x7by\x7d".toUTF8] fun values _ =>
        values = [.string "onethree".toUTF8] := by
  intro session heap caller
  have created : session.state = .created := rfl
  have fresh : session.interpreter = Interpreter.fresh false {} := rfl
  have names : session.registry.globalNames = [] := rfl
  -- What follows holds of any such session, and is not to be computed for this one.
  clear_value session
  obtain ⟨binds, -, fills⟩ := bound_sessions_fill_templates created fresh (by simp [names])
  have tells : ∀ text, Tells heap (.string text) text := tells_templateHeap _ _
  have yields : Yields heap 1 "x".toUTF8 (.string "one".toUTF8) := by
    have found : (heap.table 1).lookup (.ofBytes "x".toUTF8) = .string "one".toUTF8 :=
      (globals_templateHeap _ _ _).trans ((if_neg (by decide +kernel)).trans (if_pos rfl))
    rw [← found]
    exact yields_of_lookup (show 1 < 4 by decide) (.inl (found ▸ Value.noConfusion))
  have firstName : IsName (bytesOf "x".toUTF8) :=
    ⟨by decide +kernel, by decide +kernel, by decide +kernel⟩
  have secondName : IsName (bytesOf "y".toUTF8) :=
    ⟨by decide +kernel, by decide +kernel, by decide +kernel⟩
  have first : Replaced heap caller.site.locals 1 1 (braced "x".toUTF8) "one".toUTF8 :=
    .named firstName (by decide +kernel)
      (.passed (show innermost? caller.site.locals "x".toUTF8 = some 8 by decide +kernel) rfl yields)
      (tells _)
  have second : Replaced heap caller.site.locals 1 1 (braced "y".toUTF8) "three".toUTF8 :=
    .named secondName (by decide +kernel)
      (.known (show innermost? caller.site.locals "y".toUTF8 = some 9 by decide +kernel)
        (show Value.string "three".toUTF8 ≠ .nil from Value.noConfusion)) (tells _)
  have template_eq : bytesOf "\x7bx\x7d\x7by\x7d".toUTF8 =
      bytesOf (braced "x".toUTF8) ++ (bytesOf (braced "y".toUTF8) ++ []) := by decide +kernel
  have result_eq : ofList (bytesOf "one".toUTF8 ++ (bytesOf "three".toUTF8 ++ [])) =
      "onethree".toUTF8 := by decide +kernel
  refine ⟨binds, ?_⟩
  rw [← result_eq]
  refine (fills heap 0 templateTools (formatter_templateHeap _ _) caller [] {} _ _ _ rfl (by decide)
    (by decide) (by decide) (by decide) (tells _) ?_).imp fun values after replied => replied.1
  rw [template_eq]
  exact fills_named firstName first (fills_named secondName second .nil)

end Sessions
end MacroHost
