/-!
# Library functions

The functions that scripts find in their library, and the libraries that they are in. Taken away from them are `os`,
`io`, `debug`, `package`, `require`, `loadfile`, `dofile` and `load`. Scripts also find functions that are left out
here: `coroutine` with all that is in it, and `pack`, `unpack`, `packsize` and `dump` of `string`.
-/

namespace Scriptorium.Script

/-- A function of the library. -/
inductive Builtin where
  | assert | collectGarbage | error | getMetatable | ipairs | next | pairs | pcall | print | rawEqual
  | rawGet | rawLength | rawSet | select | setMetatable | toNumber | toText | type | warn | xpcall
  | textByte | textChar | textFind | textFormat | textGlobalMatch | textReplace | textLength | textLower
  | textMatch | textRepeat | textReverse | textSub | textUpper
  | listConcat | listInsert | listMove | listPack | listRemove | listSort | listUnpack
  | mathAbs | mathAcos | mathAsin | mathAtan | mathCeil | mathCos | mathDeg | mathExp | mathFloor
  | mathFmod | mathLog | mathMax | mathMin | mathModf | mathRad | mathRandom | mathRandomSeed | mathSin
  | mathSqrt | mathTan | mathToInteger | mathType | mathUnsignedLess
  | utf8Char | utf8CodePoint | utf8Codes | utf8Length | utf8Offset
  /-- The function that `ipairs` gives. -/
  | ipairsStep
  /-- The function that `utf8.codes` gives. -/
  | utf8Step
  | gridColumns | gridColumnType | gridGet | gridRows
  deriving DecidableEq, Repr, Inhabited, Hashable

namespace Builtin

/-- The functions that are global, by name. -/
def globals : List (String × Builtin) :=
  [("assert", .assert), ("collectgarbage", .collectGarbage), ("error", .error),
   ("getmetatable", .getMetatable), ("ipairs", .ipairs), ("next", .next), ("pairs", .pairs),
   ("pcall", .pcall), ("print", .print), ("rawequal", .rawEqual), ("rawget", .rawGet),
   ("rawlen", .rawLength), ("rawset", .rawSet), ("select", .select), ("setmetatable", .setMetatable),
   ("tonumber", .toNumber), ("tostring", .toText), ("type", .type), ("warn", .warn),
   ("xpcall", .xpcall)]

/-- The functions in a library, by name. -/
def libraries : List (String × List (String × Builtin)) :=
  [("string",
     [("byte", .textByte), ("char", .textChar), ("find", .textFind), ("format", .textFormat),
      ("gmatch", .textGlobalMatch), ("gsub", .textReplace), ("len", .textLength),
      ("lower", .textLower), ("match", .textMatch), ("rep", .textRepeat), ("reverse", .textReverse),
      ("sub", .textSub), ("upper", .textUpper)]),
   ("table",
     [("concat", .listConcat), ("insert", .listInsert), ("move", .listMove), ("pack", .listPack),
      ("remove", .listRemove), ("sort", .listSort), ("unpack", .listUnpack)]),
   ("math",
     [("abs", .mathAbs), ("acos", .mathAcos), ("asin", .mathAsin), ("atan", .mathAtan),
      ("ceil", .mathCeil), ("cos", .mathCos), ("deg", .mathDeg), ("exp", .mathExp),
      ("floor", .mathFloor), ("fmod", .mathFmod), ("log", .mathLog), ("max", .mathMax),
      ("min", .mathMin), ("modf", .mathModf), ("rad", .mathRad), ("random", .mathRandom),
      ("randomseed", .mathRandomSeed), ("sin", .mathSin), ("sqrt", .mathSqrt), ("tan", .mathTan),
      ("tointeger", .mathToInteger), ("type", .mathType), ("ult", .mathUnsignedLess)]),
   ("utf8",
     [("char", .utf8Char), ("codepoint", .utf8CodePoint), ("codes", .utf8Codes), ("len", .utf8Length),
      ("offset", .utf8Offset)])]

/-- The name of a function with the library that it is in. -/
def qualifiedName (b : Builtin) : String :=
  let inLibraries := libraries.flatMap fun (library, members) =>
    members.map fun (name, b) => (library ++ "." ++ name, b)
  match (globals ++ inLibraries).find? (·.2 == b) with
  | some (name, _) => name
  | none => "?"

end Builtin

end Scriptorium.Script
