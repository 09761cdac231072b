import Clausal.Ty.Basic

/-!
# Built-in types

The types that every module knows, and the modules that declare them.
-/

namespace Clausal

/-- The module of the types that programs use. -/
def builtinModule : String := "builtin"

/-- The module of the types and primitives that only compiled code uses. -/
def privateModule : String := "private_builtin"

/-- The module of the tabling primitives and their types. -/
def tableModule : String := "table_builtin"

namespace Ty

def int : Ty := .named builtinModule "int" []
def char : Ty := .named builtinModule "character" []
def string : Ty := .named builtinModule "string" []
def float : Ty := .named builtinModule "float" []
def void : Ty := .named builtinModule "void" []

/-- The type of the state of the world. -/
def ioState : Ty := .named "io" "state" []

/-- The type of the descriptions of types. -/
def typeInfo : Ty := .named privateModule "type_info" []

/-- The type of the descriptions of type constructors. -/
def typeCtorInfo : Ty := .named privateModule "type_ctor_info" []

/-- The type of the witnesses of class constraints. -/
def dictionary : Ty := .named privateModule "typeclass_info" []

/-- The type of the method tables of instances. -/
def baseDictionary : Ty := .named privateModule "base_typeclass_info" []

end Ty

end Clausal
