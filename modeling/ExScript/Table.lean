/-!
# Tables by name

A table keeps its entries in the order in which their names came in.  A name that comes again keeps
its place and gets the new entry.
-/

namespace ExScript

structure Table (α : Type) where
  entries : List (String × α)

namespace Table

variable {α : Type}

instance : Inhabited (Table α) := ⟨⟨[]⟩⟩

def empty : Table α := ⟨[]⟩

def find? (t : Table α) (name : String) : Option α := t.entries.lookup name

def insertEntry (name : String) (a : α) : List (String × α) → List (String × α)
  | [] => [(name, a)]
  | (n, b) :: rest => if n = name then (n, a) :: rest else (n, b) :: insertEntry name a rest

def insert (t : Table α) (name : String) (a : α) : Table α := ⟨insertEntry name a t.entries⟩

theorem find?_empty (name : String) : (empty : Table α).find? name = none := rfl

theorem find?_insert (t : Table α) (name query : String) (a : α) :
    (t.insert name a).find? query = if query = name then some a else t.find? query := by
  cases t with
  | mk entries =>
    simp only [find?, insert]
    induction entries with
    | nil => by_cases h : query = name <;> simp [insertEntry, h]
    | cons entry rest ih =>
      obtain ⟨n, b⟩ := entry
      by_cases h : n = name <;> by_cases hq : query = n <;>
        simp_all [insertEntry, List.lookup_cons, beq_false_of_ne]

/-- A name keeps its place, and a new one comes last. -/
theorem map_fst_insert (t : Table α) (name : String) (a : α) :
    (t.insert name a).entries.map Prod.fst =
      if name ∈ t.entries.map Prod.fst then t.entries.map Prod.fst
      else t.entries.map Prod.fst ++ [name] := by
  cases t with
  | mk entries =>
    simp only [insert]
    induction entries with
    | nil => rfl
    | cons entry rest ih => by_cases h : entry.1 = name <;> grind [insertEntry]

def ofList (entries : List (String × α)) : Table α :=
  entries.foldl (fun t entry => t.insert entry.1 entry.2) empty

/-- The entries of the second table win. -/
def merge (t u : Table α) : Table α :=
  u.entries.foldl (fun t entry => t.insert entry.1 entry.2) t

def contains (t : Table α) (name : String) : Bool := (t.find? name).isSome

/-- The entries in the order of their names. -/
def sorted (t : Table α) : List (String × α) := t.entries.mergeSort fun a b => a.1 ≤ b.1

end Table

end ExScript
