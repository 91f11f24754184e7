import ExScript.Library.Console
import ExScript.Library.Methods

/-!
# The library that programs run with

The functions on the streams and the methods of the four kinds of values, and the groups from which
this and other libraries are put together.
-/

namespace ExScript.Library

def consoleFunctions : FunctionGroup := ⟨.ok consoleTable⟩

def declaredFunctions : FunctionGroup := ⟨.error .declaredOnly⟩

def intMethods : MethodGroup := ⟨"Integer", .ok intTable⟩

def floatMethods : MethodGroup := ⟨"Float", .ok floatTable⟩

def stringMethods : MethodGroup := ⟨"String", .ok stringTable⟩

def boolMethods : MethodGroup := ⟨"Bool", .ok boolTable⟩

def declaredMethods : MethodGroup := ⟨"", .error .declaredOnly⟩

def standard : Library where
  functions := consoleTable
  methods := Table.ofList
    [("Integer", intTable), ("Float", floatTable), ("String", stringTable), ("Bool", boolTable)]

/-- The groups of the standard library give the standard library. -/
theorem functionsOf_consoleFunctions :
    functionsOf [consoleFunctions] = .ok standard.functions := by
  rfl

theorem methodsOf_allMethods :
    methodsOf [intMethods, floatMethods, stringMethods, boolMethods] = .ok standard.methods := by
  rfl

end ExScript.Library
