import Script.FunctionTable
import Script.Standard.Arithmetic
import Script.Standard.Collections
import Script.Standard.Conversion
import Script.Standard.Evaluation
import Script.Standard.Streams

namespace Script.Standard

/-- The builtins that every interpreter starts with. -/
def builtins : List Builtin := [
  ⟨"print", .any, print⟩,
  ⟨"println", .any, println⟩,
  ⟨"input", .any, input⟩,
  ⟨"len", .exactly 1, len⟩,
  ⟨"push", .exactly 2, push⟩,
  ⟨"range", .any, range⟩,
  ⟨"str", .exactly 1, str⟩,
  ⟨"int", .exactly 1, int⟩,
  ⟨"float", .exactly 1, float⟩,
  ⟨"typeof", .exactly 1, typeOf⟩,
  ⟨"abs", .exactly 1, abs⟩,
  ⟨"sqrt", .exactly 1, sqrt⟩,
  ⟨"pow", .exactly 2, pow⟩,
  ⟨"assert", .any, assert⟩,
  ⟨"error", .exactly 1, error⟩,
  ⟨"set_recursion_limit", .exactly 1, setRecursionLimit⟩,
  ⟨"get_recursion_limit", .exactly 0, getRecursionLimit⟩,
  ⟨"call_depth", .exactly 0, callDepth⟩,
  ⟨"stack_trace", .exactly 0, stackTrace⟩]

def functions : FunctionTable := builtins.foldl FunctionTable.addBuiltin .empty

end Script.Standard
