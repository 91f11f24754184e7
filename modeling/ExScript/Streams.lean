/-!
# Text streams

The input that is not read yet and the output so far.  Input is handed out by lines, which end at
line feeds only; a last line without one counts if it is not empty.
-/

namespace ExScript

structure Streams where
  input : List Char
  output : String
  deriving Repr

namespace Streams

instance : Inhabited Streams := ⟨⟨[], ""⟩⟩

def ofInput (text : String) : Streams := ⟨text.toList, ""⟩

def write (s : Streams) (text : String) : Streams := { s with output := s.output ++ text }

/-- The next line without its line feed. -/
def takeLine (s : Streams) : Option (List Char) × Streams :=
  match s.input with
  | [] => (none, s)
  | input =>
    let line := input.takeWhile (· != '\n')
    (some line, { s with input := input.drop (line.length + 1) })

theorem takeLine_of_ne_nil {input : List Char} (output : String) (nonempty : input ≠ []) :
    takeLine ⟨input, output⟩ =
      (some (input.takeWhile (· != '\n')),
        ⟨input.drop ((input.takeWhile (· != '\n')).length + 1), output⟩) := by
  cases input with
  | nil => exact absurd rfl nonempty
  | cons c rest => rfl

theorem takeWhile_append_of_not_mem {line : List Char} (rest : List Char) (whole : '\n' ∉ line) :
    (line ++ rest).takeWhile (· != '\n') = line ++ rest.takeWhile (· != '\n') :=
  List.takeWhile_append_of_pos fun _ member => bne_iff_ne.2 fun same => whole (same ▸ member)

theorem takeLine_of_lineFeed {line : List Char} (rest : List Char) (output : String)
    (whole : '\n' ∉ line) :
    takeLine ⟨line ++ '\n' :: rest, output⟩ = (some line, ⟨rest, output⟩) := by
  have taken : (line ++ '\n' :: rest).takeWhile (· != '\n') = line :=
    (takeWhile_append_of_not_mem _ whole).trans (List.append_nil line)
  have left : (line ++ '\n' :: rest).drop (line.length + 1) = rest := by
    rw [← List.drop_drop, List.drop_left]
    rfl
  rw [takeLine_of_ne_nil output (List.append_ne_nil_of_right_ne_nil _ (List.cons_ne_nil _ _)),
    taken, left]

/-- The rest of the input is a line unless it is empty. -/
theorem takeLine_of_not_mem {line : List Char} (output : String) (whole : '\n' ∉ line)
    (nonempty : line ≠ []) : takeLine ⟨line, output⟩ = (some line, ⟨[], output⟩) := by
  have taken : line.takeWhile (· != '\n') = line := by
    have appended := takeWhile_append_of_not_mem [] whole
    rwa [List.takeWhile_nil, List.append_nil] at appended
  rw [takeLine_of_ne_nil output nonempty, taken, List.drop_eq_nil_of_le (Nat.le_succ _)]

end Streams

end ExScript
