import ExScript.Library.Default
import ExScript.Proofs.SourceLines
import ExScript.Proofs.StandardLimits

/-!
# Line input

The input is a queue of lines (`inputLines`).  Every `read` with at most one argument takes the next
of them, whether it is empty or not, and fails once there is none.  No other call touches the input
(`call_served`).  So after any calls, however they ended, the line that a `read` gets is counted
from the beginning of the input by the calls before it, and the output is what all of the calls
wrote (`input_by_lines`).
-/

namespace ExScript

/-! ## The lines of an input -/

/-- What stands behind the last line feed is a line unless it is empty. -/
def inputLines (input : List Char) : List (List Char) :=
  let pieces := input.splitOn '\n'
  if pieces.getLast? = some [] then pieces.dropLast else pieces

section

variable {line rest : List Char}

theorem inputLines_line (h : '\n' ∉ line) (rest : List Char) :
    inputLines (line ++ '\n' :: rest) = line :: inputLines rest := by
  obtain ⟨first, more, hrest⟩ := List.exists_cons_of_ne_nil (List.splitOn_ne_nil '\n' rest)
  simp only [inputLines, splitOn_line h, hrest, List.getLast?_cons_cons, List.dropLast_cons_cons]
  split <;> rfl

theorem inputLines_last (h : '\n' ∉ line) (hne : line ≠ []) : inputLines line = [line] := by
  have hlast : [line].getLast? ≠ some [] := by simpa using hne
  rw [inputLines, List.splitOn_eq_singleton h]
  exact if_neg hlast

namespace Streams

/-- The input as a queue of lines. -/
theorem takeLine_lines (s : Streams) :
    s.takeLine.1 = (inputLines s.input).head? ∧
      inputLines s.takeLine.2.input = (inputLines s.input).tail ∧
        s.takeLine.2.output = s.output := by
  obtain ⟨input, output⟩ := s
  by_cases hmem : '\n' ∈ input
  · obtain ⟨line, rest, rfl, hline⟩ := List.eq_append_cons_of_mem hmem
    rw [takeLine_of_lineFeed rest output hline, inputLines_line hline]
    exact ⟨rfl, rfl, rfl⟩
  · by_cases hne : input = []
    · subst hne
      exact ⟨rfl, rfl, rfl⟩
    · rw [takeLine_of_not_mem output hmem hne, inputLines_last hmem hne]
      exact ⟨rfl, rfl, rfl⟩

end Streams

end

namespace Library

/-! ## Calls -/

/-- The host writes out no integer of more digits than it reads. -/
def Writable : Value → Prop
  | .int n => (Nat.toDigits 10 n.natAbs).length ≤ maxDigits
  | _ => True

/-- So all integers that operators and methods make are written out. -/
theorem writable_of_inIntRange {n : Int} (h : inIntRange n = true) : Writable (.int n) := by
  have hrange := inIntRange_iff.mp h
  have hbound : n.natAbs < 10 ^ 19 := by
    simp only [minInt, maxInt] at hrange
    omega
  have hlen := (Nat.length_toDigits_le_iff (by decide) (by decide)).mpr hbound
  exact hlen.trans (by decide)

abbrev Argument := { v : Value // Writable v }

/-- A call of one of the functions on the streams. -/
inductive ConsoleCall where
  | write (args : List Argument)
  | writeln (args : List Argument)
  | read (args : List Argument)

abbrev CallResult := Except LibraryFault (Option Value)

namespace ConsoleCall

def name : ConsoleCall → String
  | write _ => "write"
  | writeln _ => "writeln"
  | read _ => "read"

def function : ConsoleCall → LibraryFunction
  | write _ => Library.write
  | writeln _ => Library.writeln
  | read _ => Library.read

def args : ConsoleCall → List Value
  | write args => args.map Subtype.val
  | writeln args => args.map Subtype.val
  | read args => args.map Subtype.val

theorem find?_name (c : ConsoleCall) : standard.functions.find? c.name = some c.function := by
  cases c <;> rfl

/-- The result of the call, and the streams that it leaves in either case. -/
def on (c : ConsoleCall) (s : Streams) : CallResult × Streams :=
  match c.function c.args s with
  | .ok result s => (.ok result, s)
  | .error fault s => (.error fault, s)

/-- The call takes a line from the input if there is one left. -/
def takesLine : ConsoleCall → Bool
  | read args => args.length ≤ 1
  | _ => false

def displayed (args : List Argument) : String := String.join (args.map fun v => v.val.display)

/-- What the call writes, however it ends. -/
def written : ConsoleCall → String
  | write args => displayed args
  | writeln args => displayed args ++ "\n"
  | read args => if args.length ≤ 1 then displayed args else ""

end ConsoleCall

/-- Calls one after the other, however they end. -/
def runCalls : List ConsoleCall → Streams → List CallResult × Streams
  | [], s => ([], s)
  | c :: more, s =>
    let (result, s) := c.on s
    let (results, s) := runCalls more s
    (result :: results, s)

/-- A line without the carriage return that may stand at its end. -/
def Chomped (line text : List Char) : Prop :=
  line = text ++ ['\r'] ∨ line = text ∧ line.getLast? ≠ some '\r'

theorem chomped_chomp (line : List Char) : Chomped line (chomp line) := by
  unfold chomp
  split
  next h => exact .inl (List.dropLast_append_getLast? '\r' h).symm
  next h => exact .inr ⟨rfl, h⟩

/-- The result of a call when these lines are left. -/
inductive Answer (lines : List (List Char)) : ConsoleCall → CallResult → Prop
  | write {args : List Argument} : Answer lines (.write args) (.ok none)
  | writeln {args : List Argument} : Answer lines (.writeln args) (.ok none)
  | refused {args : List Argument} (h : 1 < args.length) :
    Answer lines (.read args) (.error (.error (.tooManyArguments args.length)))
  | line {args : List Argument} {line : List Char} {text : String} (h : args.length ≤ 1)
    (hline : lines.head? = some line) (htext : Chomped line text.toList) :
    Answer lines (.read args) (.ok (some (.string text)))
  | exhausted {args : List Argument} (h : args.length ≤ 1) (hlines : lines = []) :
    Answer lines (.read args) (.error (.error .endOfInput))

/-- An empty line is a line. -/
theorem Answer.of_blank {lines : List (List Char)} {args : List Argument} {result : CallResult}
    (h : Answer lines (.read args) result) (hargs : args.length ≤ 1)
    (hblank : lines.head? = some []) : result = .ok (some (.string "")) := by
  cases h with
  | refused h => exact absurd hargs (Nat.not_le.mpr h)
  | exhausted _ hline =>
    rw [hline] at hblank
    cases hblank
  | @line _ _ text _ hline htext =>
    cases hline.symm.trans hblank
    have hempty : text.toList = [] := by
      rcases htext with h | ⟨h, -⟩
      · exact absurd h.symm (List.append_ne_nil_of_right_ne_nil _ (List.cons_ne_nil _ _))
      · exact h.symm
    rw [String.toList_eq_nil_iff.mp hempty]

theorem writeAll_eq (s : Streams) (args : List Argument) :
    writeAll s (args.map Subtype.val) = s.write (ConsoleCall.displayed args) := by
  induction args generalizing s with
  | nil => simp [writeAll, Streams.write, ConsoleCall.displayed]
  | cons arg args ih =>
    show writeAll (s.write arg.val.display) (args.map Subtype.val) = _
    rw [ih]
    simp [Streams.write, ConsoleCall.displayed, String.append_assoc]

/-- What one call does to the streams. -/
structure Served (s : Streams) (c : ConsoleCall) (result : CallResult) (s' : Streams) : Prop where
  answer : Answer (inputLines s.input) c result
  output : s'.output = s.output ++ c.written
  input : inputLines s'.input = (inputLines s.input).drop (if c.takesLine then 1 else 0)

/-- Nothing happens to the streams. -/
theorem read_refused {args : List Argument} (h : 1 < args.length) (s : Streams) :
    read (args.map Subtype.val) s = .error (.error (.tooManyArguments args.length)) s := by
  rw [← args.length_map Subtype.val] at h ⊢
  unfold read
  split
  · rfl
  next hn => exact absurd h hn

theorem read_takes {args : List Argument} (h : args.length ≤ 1) (s : Streams) :
    read (args.map Subtype.val) s = match (writeAll s (args.map Subtype.val)).takeLine with
      | (none, s) => .error (.error .endOfInput) s
      | (some line, s) => .ok (some (.string (String.ofList (chomp line)))) s := by
  rw [← args.length_map Subtype.val] at h
  unfold read
  split
  next hn => exact absurd hn (Nat.not_lt.mpr h)
  · simp only [modify, takeLine, bind_modifyGet]
    obtain ⟨taken, s'⟩ := (writeAll s (args.map Subtype.val)).takeLine
    cases taken <;> rfl

theorem call_served (c : ConsoleCall) (s : Streams) : Served s c (c.on s).1 (c.on s).2 := by
  cases c with
  | write args =>
    have hon : ConsoleCall.on (.write args) s = (.ok none, writeAll s (args.map Subtype.val)) := rfl
    rw [hon, writeAll_eq]
    exact ⟨.write, rfl, rfl⟩
  | writeln args =>
    have hon : ConsoleCall.on (.writeln args) s =
        (.ok none, (writeAll s (args.map Subtype.val)).write "\n") := rfl
    rw [hon, writeAll_eq]
    exact ⟨.writeln, String.append_assoc, rfl⟩
  | read args =>
    have hon : ConsoleCall.on (.read args) s = match read (args.map Subtype.val) s with
      | .ok result s => (.ok result, s)
      | .error fault s => (.error fault, s) := rfl
    by_cases hargs : args.length ≤ 1
    · obtain ⟨htaken, hinput, houtput⟩ := (writeAll s (args.map Subtype.val)).takeLine_lines
      rw [hon, read_takes hargs]
      rw [writeAll_eq] at *
      have hwritten : ConsoleCall.written (.read args) = ConsoleCall.displayed args := if_pos hargs
      have htakes : ConsoleCall.takesLine (.read args) = true := decide_eq_true hargs
      cases htake : (s.write (ConsoleCall.displayed args)).takeLine with
      | mk taken s' =>
        rw [htake] at htaken hinput houtput
        rw [← hwritten] at houtput
        rw [← List.drop_one] at hinput
        cases taken with
        | none =>
          exact ⟨.exhausted hargs (List.head?_eq_none_iff.mp htaken.symm), houtput, by rwa [htakes]⟩
        | some line =>
          refine ⟨.line hargs htaken.symm ?_, houtput, by rwa [htakes]⟩
          rw [String.toList_ofList]
          exact chomped_chomp line
    · rw [hon, read_refused (Nat.lt_of_not_le hargs)]
      refine ⟨.refused (Nat.lt_of_not_le hargs), ?_, ?_⟩
      · simp [ConsoleCall.written, hargs]
      · simp [ConsoleCall.takesLine, hargs]

/-- Whatever is called, the lines are handed out one after the other. -/
theorem runCalls_served (calls : List ConsoleCall) (s : Streams) :
    (runCalls calls s).1.length = calls.length ∧
      (∀ i call result, calls[i]? = some call → (runCalls calls s).1[i]? = some result →
        Answer ((inputLines s.input).drop ((calls.take i).countP ConsoleCall.takesLine)) call
          result) ∧
      (runCalls calls s).2.output = s.output ++ String.join (calls.map ConsoleCall.written) ∧
      inputLines (runCalls calls s).2.input =
        (inputLines s.input).drop (calls.countP ConsoleCall.takesLine) := by
  induction calls generalizing s with
  | nil => simp [runCalls]
  | cons c more ih =>
    obtain ⟨hanswer, houtput, hinput⟩ := call_served c s
    obtain ⟨hlength, hresults, houtputs, hinputs⟩ := ih (c.on s).2
    have hcount (before : List ConsoleCall) : (c :: before).countP ConsoleCall.takesLine =
        (if c.takesLine then 1 else 0) + before.countP ConsoleCall.takesLine := by
      rw [List.countP_cons, Nat.add_comm]
    simp only [runCalls]
    refine ⟨?_, ?_, ?_, ?_⟩
    · rw [List.length_cons, hlength, List.length_cons]
    · rintro (_ | i) call result hcall hresult
      · cases hcall
        cases hresult
        exact hanswer
      · have hnext := hresults i call result hcall hresult
        rwa [hinput, List.drop_drop, ← hcount] at hnext
    · rw [houtputs, houtput, List.map_cons, String.join_cons, String.append_assoc]
    · rw [hinputs, hinput, List.drop_drop, hcount]

/-- The functions that programs know as `write`, `writeln` and `read`, called in any order with values
that the host writes out.  Every `read` with at most one argument gets the line whose number is that
of the earlier ones, or fails behind the last line, and one with more arguments fails without any
effect.  The output is what the calls wrote, failed ones included. -/
theorem input_by_lines (calls : List ConsoleCall) (s : Streams) :
    (∀ c : ConsoleCall, standard.functions.find? c.name = some c.function) ∧
      (runCalls calls s).1.length = calls.length ∧
      (∀ i c result, calls[i]? = some c → (runCalls calls s).1[i]? = some result →
        let before := (calls.take i).countP ConsoleCall.takesLine
        Answer ((inputLines s.input).drop before) c result ∧
          ∀ args, c = .read args → args.length ≤ 1 → (inputLines s.input)[before]? = some [] →
            result = .ok (some (.string ""))) ∧
      (runCalls calls s).2.output = s.output ++ String.join (calls.map ConsoleCall.written) ∧
      inputLines (runCalls calls s).2.input =
        (inputLines s.input).drop (calls.countP ConsoleCall.takesLine) ∧
      LibraryError.endOfInput.message = "end of input" := by
  obtain ⟨hlength, hresults, houtput, hinput⟩ := runCalls_served calls s
  refine ⟨ConsoleCall.find?_name, hlength, fun i c result hcall hresult => ?_, houtput, hinput, rfl⟩
  have hanswer := hresults i c result hcall hresult
  refine ⟨hanswer, ?_⟩
  rintro args rfl hargs hblank
  rw [← List.head?_drop] at hblank
  exact hanswer.of_blank hargs hblank

example :
    let text (text : String) : Argument := ⟨.string text, trivial⟩
    let one : Argument := ⟨.int 1, writable_of_inIntRange rfl⟩
    runCalls [.read [text "? "], .read [], .writeln [one, ⟨.bool true, trivial⟩], .read [one, one],
        .read [], .read [text "! "]] (.ofInput "a\r\r\n\nb") =
      ([.ok (some (.string "a\r")), .ok (some (.string "")), .ok none,
        .error (.error (.tooManyArguments 2)), .ok (some (.string "b")),
        .error (.error .endOfInput)], ⟨[], "? 1true\n! "⟩) := by
  rfl

end Library

end ExScript
