import Clausal.Tabling.Status

/-!
# Runtime primitives

The primitives of the run-time system that compiled code calls, with their
signatures. They are found by name, so that the names are an agreement with
the run-time system. The input arguments of a primitive come before its
outputs. A primitive may have one type parameter; whoever calls it passes
the type-info itself, so calls of primitives are exempt from witness passing
(`Primitive.isExempt`).
-/

namespace Clausal

/-- The kind of an argument of a primitive. -/
inductive ArgKind where
  | int | char | string | float | ioState | typeInfo | dictionary
  | handle (h : Handle)
  | status (s : StatusType)
  /-- The closure that runs a generator. -/
  | generatorClosure
  /-- A value of the type parameter of the primitive. -/
  | poly
deriving DecidableEq, Repr, Inhabited

/-- The type of an argument, where `poly` stands for the type parameter. -/
def ArgKind.type (poly : Ty) : ArgKind → Ty
  | .int => .int
  | .char => .char
  | .string => .string
  | .float => .float
  | .ioState => .ioState
  | .typeInfo => .typeInfo
  | .dictionary => .dictionary
  | .handle h => h.type
  | .status s => s.type
  | .generatorClosure => .higherOrder .predicate []
  | .poly => poly

/-- The signature of a primitive. -/
structure PrimitiveSig where
  inputs : List ArgKind
  outputs : List ArgKind
  determinism : Determinism
  purity : Purity
deriving DecidableEq, Repr, Inhabited

/-- A primitive of the run-time system. -/
inductive Primitive where
  -- Of type-infos and dictionaries.
  | typeInfoFromDictionary | superclassFromDictionary | constraintFromDictionary | typeCast
  -- Steps of a call table.
  | lookupInt | lookupStartInt | lookupChar | lookupString | lookupFloat | lookupEnum
  | lookupUser | lookupUserAddr | lookupPoly | lookupPolyAddr | lookupTypeInfo
  | lookupDictionary
  -- Slots of an answer block.
  | saveInt | saveChar | saveString | saveFloat | saveIoState | saveAny | saveIoEntry
  | restoreInt | restoreChar | restoreString | restoreFloat | restoreIoState | restoreAny
  -- Loop checking.
  | loopSetup | loopMarkInactive | loopMarkInactiveAndFail | loopMarkActiveAndFail
  -- Memoing.
  | memoDetSetup | memoSemiSetup | memoNonSetup | memoMarkSucceeded | memoMarkFailed
  | memoCreateBlock | memoGetBlock | memoNonAnswerTable | memoNonAnswerIsNew
  | memoNonCreateBlock | memoMarkIncomplete | memoMarkCompleteAndFail | memoReturnAllNondet
  | memoReturnAllMulti
  -- Minimal models by copying stacks.
  | modelSetup | modelSuspendConsumer | modelReturnAll | modelAnswerTable | modelAnswerIsNew
  | modelCreateBlock | modelCompletion
  -- Minimal models by generators on stacks of their own.
  | generatorSaveInputs | generatorSetupConsumer | generatorConsumeNext | generatorPickupInputs
  | generatorAnswerTable | generatorAnswerIsNew | generatorCreateBlock | generatorReturnAnswer
  | generatorCompletion
  -- I/O, and the report of a broken table.
  | ioInRange | ioHasAnswer | ioLeftBracket | ioRightBracket | ioCopyState | tableError
deriving DecidableEq, Repr, Inhabited

namespace Primitive

/-- All primitives, in the order in which they are numbered. -/
def all : List Primitive :=
  [.typeInfoFromDictionary, .superclassFromDictionary, .constraintFromDictionary, .typeCast,
   .lookupInt, .lookupStartInt, .lookupChar, .lookupString, .lookupFloat, .lookupEnum,
   .lookupUser, .lookupUserAddr, .lookupPoly, .lookupPolyAddr, .lookupTypeInfo,
   .lookupDictionary, .saveInt, .saveChar, .saveString, .saveFloat, .saveIoState, .saveAny,
   .saveIoEntry, .restoreInt, .restoreChar, .restoreString, .restoreFloat, .restoreIoState,
   .restoreAny, .loopSetup, .loopMarkInactive, .loopMarkInactiveAndFail,
   .loopMarkActiveAndFail, .memoDetSetup, .memoSemiSetup, .memoNonSetup, .memoMarkSucceeded,
   .memoMarkFailed, .memoCreateBlock, .memoGetBlock, .memoNonAnswerTable, .memoNonAnswerIsNew,
   .memoNonCreateBlock, .memoMarkIncomplete, .memoMarkCompleteAndFail, .memoReturnAllNondet,
   .memoReturnAllMulti, .modelSetup, .modelSuspendConsumer, .modelReturnAll, .modelAnswerTable,
   .modelAnswerIsNew, .modelCreateBlock, .modelCompletion, .generatorSaveInputs,
   .generatorSetupConsumer, .generatorConsumeNext, .generatorPickupInputs,
   .generatorAnswerTable, .generatorAnswerIsNew, .generatorCreateBlock, .generatorReturnAnswer,
   .generatorCompletion, .ioInRange, .ioHasAnswer, .ioLeftBracket, .ioRightBracket,
   .ioCopyState, .tableError]

/-- Whether a primitive is part of the tabling runtime. -/
def isTabling : Primitive → Bool
  | .typeInfoFromDictionary | .superclassFromDictionary | .constraintFromDictionary
  | .typeCast => false
  | _ => true

/-- The name, without what the names of all tabling primitives start with. -/
def stem : Primitive → String
  | .typeInfoFromDictionary => "type_info_from_typeclass_info"
  | .superclassFromDictionary => "superclass_from_typeclass_info"
  | .constraintFromDictionary => "instance_constraint_from_typeclass_info"
  | .typeCast => "unsafe_type_cast"
  | .lookupInt => "lookup_insert_int"
  | .lookupStartInt => "lookup_insert_start_int"
  | .lookupChar => "lookup_insert_char"
  | .lookupString => "lookup_insert_string"
  | .lookupFloat => "lookup_insert_float"
  | .lookupEnum => "lookup_insert_enum"
  | .lookupUser => "lookup_insert_user"
  | .lookupUserAddr => "lookup_insert_user_addr"
  | .lookupPoly => "lookup_insert_poly"
  | .lookupPolyAddr => "lookup_insert_poly_addr"
  | .lookupTypeInfo => "lookup_insert_typeinfo"
  | .lookupDictionary => "lookup_insert_typeclassinfo"
  | .saveInt => "save_int_answer"
  | .saveChar => "save_char_answer"
  | .saveString => "save_string_answer"
  | .saveFloat => "save_float_answer"
  | .saveIoState => "save_io_state_answer"
  | .saveAny => "save_any_answer"
  | .saveIoEntry => "save_io_entry_answer"
  | .restoreInt => "restore_int_answer"
  | .restoreChar => "restore_char_answer"
  | .restoreString => "restore_string_answer"
  | .restoreFloat => "restore_float_answer"
  | .restoreIoState => "restore_io_state_answer"
  | .restoreAny => "restore_any_answer"
  | .loopSetup => "loop_setup"
  | .loopMarkInactive => "loop_mark_as_inactive"
  | .loopMarkInactiveAndFail => "loop_mark_as_inactive_and_fail"
  | .loopMarkActiveAndFail => "loop_mark_as_active_and_fail"
  | .memoDetSetup => "memo_det_setup"
  | .memoSemiSetup => "memo_semi_setup"
  | .memoNonSetup => "memo_non_setup"
  | .memoMarkSucceeded => "memo_mark_as_succeeded"
  | .memoMarkFailed => "memo_mark_as_failed"
  | .memoCreateBlock => "memo_create_answer_block"
  | .memoGetBlock => "memo_get_answer_block"
  | .memoNonAnswerTable => "memo_non_get_answer_table"
  | .memoNonAnswerIsNew => "memo_non_answer_is_not_duplicate"
  | .memoNonCreateBlock => "memo_non_create_answer_block"
  | .memoMarkIncomplete => "memo_mark_as_incomplete"
  | .memoMarkCompleteAndFail => "memo_mark_as_complete_and_fail"
  | .memoReturnAllNondet => "memo_return_all_answers_nondet"
  | .memoReturnAllMulti => "memo_return_all_answers_multi"
  | .modelSetup => "mm_setup"
  | .modelSuspendConsumer => "mm_suspend_consumer"
  | .modelReturnAll => "mm_return_all_nondet"
  | .modelAnswerTable => "mm_get_answer_table"
  | .modelAnswerIsNew => "mm_answer_is_not_duplicate"
  | .modelCreateBlock => "mm_create_answer_block"
  | .modelCompletion => "mm_completion"
  | .generatorSaveInputs => "mmos_save_inputs"
  | .generatorSetupConsumer => "mmos_setup_consumer"
  | .generatorConsumeNext => "mmos_consume_next_answer_nondet"
  | .generatorPickupInputs => "mmos_pickup_inputs"
  | .generatorAnswerTable => "mmos_get_answer_table"
  | .generatorAnswerIsNew => "mmos_answer_is_not_duplicate"
  | .generatorCreateBlock => "mmos_create_answer_block"
  | .generatorReturnAnswer => "mmos_return_answer"
  | .generatorCompletion => "mmos_completion"
  | .ioInRange => "io_in_range"
  | .ioHasAnswer => "io_has_answer"
  | .ioLeftBracket => "io_left_bracket_unitized_goal"
  | .ioRightBracket => "io_right_bracket_unitized_goal"
  | .ioCopyState => "io_copy_io_state"
  | .tableError => "error"

def name (p : Primitive) : String := if p.isTabling then "table_" ++ p.stem else p.stem

/-- The module that declares a primitive. -/
def home (p : Primitive) : String := if p.isTabling then tableModule else privateModule

def symName (p : Primitive) : SymName := .qualified p.home p.name

/-- The name under which inline foreign code reaches a primitive. -/
def inlineName (p : Primitive) : String :=
  (if p.isTabling then "MR_tbl_" else "MR_") ++ p.stem

def signature : Primitive → PrimitiveSig
  | .typeInfoFromDictionary => ⟨[.dictionary, .int], [.typeInfo], .det, .pure⟩
  | .superclassFromDictionary | .constraintFromDictionary =>
    ⟨[.dictionary, .int], [.dictionary], .det, .pure⟩
  | .typeCast => ⟨[.poly], [.poly], .det, .pure⟩
  | .lookupInt => ⟨[.handle .trie, .int], [.handle .trie], .det, .impure⟩
  | .lookupStartInt => ⟨[.handle .trie, .int, .int], [.handle .trie], .det, .impure⟩
  | .lookupChar => ⟨[.handle .trie, .char], [.handle .trie], .det, .impure⟩
  | .lookupString => ⟨[.handle .trie, .string], [.handle .trie], .det, .impure⟩
  | .lookupFloat => ⟨[.handle .trie, .float], [.handle .trie], .det, .impure⟩
  | .lookupEnum => ⟨[.handle .trie, .int, .poly], [.handle .trie], .det, .impure⟩
  | .lookupUser | .lookupUserAddr | .lookupPoly | .lookupPolyAddr =>
    ⟨[.typeInfo, .handle .trie, .poly], [.handle .trie], .det, .impure⟩
  | .lookupTypeInfo => ⟨[.handle .trie, .typeInfo], [.handle .trie], .det, .impure⟩
  | .lookupDictionary => ⟨[.handle .trie, .dictionary], [.handle .trie], .det, .impure⟩
  | .saveInt => ⟨[.handle .block, .int, .int], [], .det, .impure⟩
  | .saveChar => ⟨[.handle .block, .int, .char], [], .det, .impure⟩
  | .saveString => ⟨[.handle .block, .int, .string], [], .det, .impure⟩
  | .saveFloat => ⟨[.handle .block, .int, .float], [], .det, .impure⟩
  | .saveIoState => ⟨[.handle .block, .int, .ioState], [], .det, .impure⟩
  | .saveAny => ⟨[.typeInfo, .handle .block, .int, .poly], [], .det, .impure⟩
  | .saveIoEntry => ⟨[.handle .block, .int, .handle .ioEntry], [], .det, .impure⟩
  | .restoreInt => ⟨[.handle .block, .int], [.int], .det, .semipure⟩
  | .restoreChar => ⟨[.handle .block, .int], [.char], .det, .semipure⟩
  | .restoreString => ⟨[.handle .block, .int], [.string], .det, .semipure⟩
  | .restoreFloat => ⟨[.handle .block, .int], [.float], .det, .semipure⟩
  | .restoreIoState => ⟨[.handle .block, .int], [.ioState], .det, .semipure⟩
  | .restoreAny => ⟨[.typeInfo, .handle .block, .int], [.poly], .det, .semipure⟩
  | .loopSetup => ⟨[.handle .trie], [.status .loop], .det, .impure⟩
  | .loopMarkInactive | .memoMarkSucceeded | .memoMarkFailed =>
    ⟨[.handle .trie], [], .det, .impure⟩
  | .loopMarkInactiveAndFail | .loopMarkActiveAndFail => ⟨[.handle .trie], [], .failure, .impure⟩
  | .memoDetSetup => ⟨[.handle .trie], [.status .memoDet], .det, .impure⟩
  | .memoSemiSetup => ⟨[.handle .trie], [.status .memoSemi], .det, .impure⟩
  | .memoNonSetup => ⟨[.handle .trie], [.handle .record, .status .memoNon], .det, .impure⟩
  | .memoCreateBlock => ⟨[.handle .trie, .int], [.handle .block], .det, .impure⟩
  | .memoGetBlock => ⟨[.handle .trie], [.handle .block], .det, .semipure⟩
  | .memoNonAnswerTable => ⟨[.handle .record], [.handle .trie], .det, .semipure⟩
  | .memoNonAnswerIsNew | .modelAnswerIsNew | .generatorAnswerIsNew =>
    ⟨[.handle .trie], [], .semidet, .impure⟩
  | .memoNonCreateBlock => ⟨[.handle .record, .int], [.handle .block], .det, .impure⟩
  | .memoMarkIncomplete => ⟨[.handle .record], [], .det, .impure⟩
  | .memoMarkCompleteAndFail => ⟨[.handle .record], [], .failure, .impure⟩
  | .memoReturnAllNondet => ⟨[.handle .record], [.handle .block], .nondet, .semipure⟩
  | .memoReturnAllMulti => ⟨[.handle .record], [.handle .block], .multi, .semipure⟩
  | .modelSetup => ⟨[.handle .trie], [.handle .subgoal, .status .model], .det, .impure⟩
  | .modelSuspendConsumer => ⟨[.handle .subgoal], [.handle .block], .nondet, .impure⟩
  | .modelReturnAll => ⟨[.handle .subgoal], [.handle .block], .nondet, .semipure⟩
  | .modelAnswerTable => ⟨[.handle .subgoal], [.handle .trie], .det, .semipure⟩
  | .modelCreateBlock => ⟨[.handle .subgoal, .int], [.handle .block], .det, .impure⟩
  | .modelCompletion => ⟨[.handle .subgoal], [], .det, .impure⟩
  | .generatorSaveInputs => ⟨[], [], .det, .impure⟩
  | .generatorSetupConsumer =>
    ⟨[.handle .trie, .generatorClosure, .string], [.handle .consumer], .det, .impure⟩
  | .generatorConsumeNext => ⟨[.handle .consumer], [.handle .block], .nondet, .impure⟩
  | .generatorPickupInputs => ⟨[], [.handle .generator], .det, .impure⟩
  | .generatorAnswerTable => ⟨[.handle .generator], [.handle .trie], .det, .semipure⟩
  | .generatorCreateBlock => ⟨[.handle .generator, .int], [.handle .block], .det, .impure⟩
  | .generatorReturnAnswer => ⟨[.handle .generator, .handle .block], [], .det, .impure⟩
  | .generatorCompletion => ⟨[.handle .generator], [], .failure, .impure⟩
  | .ioInRange => ⟨[], [.handle .trie, .int, .int], .semidet, .impure⟩
  | .ioHasAnswer => ⟨[.handle .trie], [], .semidet, .semipure⟩
  | .ioLeftBracket => ⟨[], [.int], .det, .impure⟩
  | .ioRightBracket => ⟨[.int], [], .det, .impure⟩
  | .ioCopyState => ⟨[.ioState], [.ioState], .det, .pure⟩
  | .tableError => ⟨[.string], [], .erroneous, .pure⟩

def determinism (p : Primitive) : Determinism := p.signature.determinism

def purity (p : Primitive) : Purity := p.signature.purity

/-- The kinds of the arguments. -/
def argKinds (p : Primitive) : List ArgKind := p.signature.inputs ++ p.signature.outputs

def modes (p : Primitive) : List Mode :=
  p.signature.inputs.map (fun _ => .input) ++ p.signature.outputs.map (fun _ => .output)

def arity (p : Primitive) : Nat := p.argKinds.length

/-- Whether a primitive has a type parameter. -/
def isPolymorphic (p : Primitive) : Bool := p.argKinds.contains .poly

/-- The types of the arguments, where `poly` stands for the type parameter. -/
def argTypes (p : Primitive) (poly : Ty) : List Ty := p.argKinds.map (·.type poly)

/-- The type variables of the declaration: the type parameter, if there is
    one. -/
def scope (p : Primitive) : TypeScope := .ofNames (if p.isPolymorphic then ["T"] else [])

/-- The types of the arguments as declared. -/
def declaredTypes (p : Primitive) : List Ty := p.argTypes (.var ⟨0⟩)

/-- The number of a primitive among the predicates of every module. -/
def pred (p : Primitive) : PredId := ⟨p.ctorIdx⟩

/-- The procedure of a primitive. -/
def proc (p : Primitive) : ProcRef := ⟨p.pred, ⟨0⟩⟩

/-- The primitive with the given name. -/
def ofName? (name : String) : Option Primitive := all.find? (·.name == name)

/-- Whether there is a primitive with this name and arity in this module:
    its calls take their witnesses as ordinary arguments. -/
def isExempt (home name : String) (arity : Nat) : Bool :=
  all.any fun p => p.home == home && p.name == name && p.arity == arity

/-- The primitives are numbered by their place in the list of all. -/
theorem all_getElem?_pred (p : Primitive) : all[p.pred.index]? = some p := by
  cases p <;> rfl

end Primitive

end Clausal
