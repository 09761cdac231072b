import Clausal.Symbol
import Clausal.Ty.Builtin

/-!
# Handles and statuses of the tabling runtime

The tabling runtime hands out references to its data structures (`Handle`),
and reports in which state it finds a call (`Status`). Each way of tabling has
its own set of statuses (`StatusType.statuses`), which are the constants of an
enumeration type.
-/

namespace Clausal

/-- A kind of data structure that the tabling runtime owns. -/
inductive Handle where
  | trie | block | record | subgoal | consumer | generator | ioEntry
deriving DecidableEq, Repr, Inhabited

namespace Handle

def all : List Handle := [.trie, .block, .record, .subgoal, .consumer, .generator, .ioEntry]

def typeName : Handle → String
  | .trie => "ml_trie_node"
  | .block => "ml_answer_block"
  | .record => "ml_memo_non_record"
  | .subgoal => "ml_subgoal"
  | .consumer => "ml_consumer"
  | .generator => "ml_generator"
  | .ioEntry => "ml_table_io_entry"

def type (h : Handle) : Ty := .named tableModule h.typeName []

end Handle

/-- A way of tabling that keeps a status for each call. -/
inductive StatusType where
  | loop | memoDet | memoSemi | memoNon | model
deriving DecidableEq, Repr, Inhabited

/-- The state in which the runtime finds a call. -/
inductive Status where
  | loopInactive | loopActive
  | memoDetInactive | memoDetActive | memoDetSucceeded
  | memoSemiInactive | memoSemiActive | memoSemiSucceeded | memoSemiFailed
  | memoNonInactive | memoNonActive | memoNonComplete | memoNonIncomplete
  | modelInactive | modelActive | modelComplete
deriving DecidableEq, Repr, Inhabited

namespace Status

def name : Status → String
  | .loopInactive => "loop_inactive"
  | .loopActive => "loop_active"
  | .memoDetInactive => "memo_det_inactive"
  | .memoDetActive => "memo_det_active"
  | .memoDetSucceeded => "memo_det_succeeded"
  | .memoSemiInactive => "memo_semi_inactive"
  | .memoSemiActive => "memo_semi_active"
  | .memoSemiSucceeded => "memo_semi_succeeded"
  | .memoSemiFailed => "memo_semi_failed"
  | .memoNonInactive => "memo_non_inactive"
  | .memoNonActive => "memo_non_active"
  | .memoNonComplete => "memo_non_complete"
  | .memoNonIncomplete => "memo_non_incomplete"
  | .modelInactive => "mm_inactive"
  | .modelActive => "mm_active"
  | .modelComplete => "mm_complete"

/-- The constant that stands for a status. -/
def symbol (s : Status) : Symbol := .cons (.qualified tableModule s.name) 0

end Status

namespace StatusType

def all : List StatusType := [.loop, .memoDet, .memoSemi, .memoNon, .model]

def typeName : StatusType → String
  | .loop => "loop_status"
  | .memoDet => "memo_det_status"
  | .memoSemi => "memo_semi_status"
  | .memoNon => "memo_non_status"
  | .model => "mm_status"

def type (t : StatusType) : Ty := .named tableModule t.typeName []

/-- The statuses that a call can be in. -/
def statuses : StatusType → List Status
  | .loop => [.loopInactive, .loopActive]
  | .memoDet => [.memoDetInactive, .memoDetActive, .memoDetSucceeded]
  | .memoSemi => [.memoSemiInactive, .memoSemiActive, .memoSemiSucceeded, .memoSemiFailed]
  | .memoNon => [.memoNonInactive, .memoNonActive, .memoNonComplete, .memoNonIncomplete]
  | .model => [.modelInactive, .modelActive, .modelComplete]

end StatusType

end Clausal
