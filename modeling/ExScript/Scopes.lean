import ExScript.Failure
import ExScript.Table
import ExScript.Value

/-!
# Scopes

A stack of scopes with the global one at the bottom, which is never popped.  Names are read and
bound in the innermost scope only.
-/

namespace ExScript

structure Scopes where
  current : Table Value
  /-- The scopes below the current one, the global scope last. -/
  outer : List (Table Value)

namespace Scopes

instance : Inhabited Scopes := ⟨⟨default, []⟩⟩

def initial : Scopes := ⟨Table.empty, []⟩

def size (s : Scopes) : Nat := s.outer.length + 1

def globals (s : Scopes) : Table Value := s.outer.getLast?.getD s.current

def push (s : Scopes) : Scopes := ⟨Table.empty, s.current :: s.outer⟩

def pop (s : Scopes) : Except Crash Scopes :=
  match s.outer with
  | [] => .error .popGlobalScope
  | below :: rest => .ok ⟨below, rest⟩

def bind (s : Scopes) (name : String) (v : Value) : Scopes :=
  { s with current := s.current.insert name v }

def get? (s : Scopes) (name : String) : Option Value := s.current.find? name

theorem size_push (s : Scopes) : s.push.size = s.size + 1 := rfl

theorem size_bind (s : Scopes) (name : String) (v : Value) : (s.bind name v).size = s.size := rfl

theorem pop_push (s : Scopes) : s.push.pop = .ok s := rfl

theorem pop_bind_push (s : Scopes) (name : String) (v : Value) :
    (s.push.bind name v).pop = .ok s := rfl

/-- Nothing of the scopes below shows in a new one. -/
theorem get?_push (s : Scopes) (name : String) : s.push.get? name = none := rfl

theorem get?_bind (s : Scopes) (name query : String) (v : Value) :
    (s.bind name v).get? query = if query = name then some v else s.get? query :=
  Table.find?_insert s.current name query v

theorem pop_eq_error_iff (s : Scopes) : s.pop = .error .popGlobalScope ↔ s.size = 1 := by
  cases s with
  | mk current outer => cases outer <;> simp [pop, size]

end Scopes

end ExScript
