import PartialUpdate.Json.Basic
import PartialUpdate.Report.Counts

/-!
Reports as tables of text. A frame surrounds the header and the cells; cells stand at the left
of their columns, and a cell with line feeds takes several lines.
-/

set_option autoImplicit false

namespace PartialUpdate.Report

structure Table where
  columns : List (String × String)
  rows : List (List String)

namespace Table

/-- Longer texts are cut. -/
def longestText : Nat := 30

def cut (text : List Char) : List Char :=
  if text.length ≤ longestText then text else text.take longestText ++ ['…']

def cellLines : List Char → List (List Char)
  | [] => [[]]
  | '\n' :: rest => [] :: cellLines rest
  | c :: rest => match cellLines rest with
    | [] => [[c]]
    | line :: others => (c :: line) :: others

def cell (text : String) : List (List Char) := cellLines (cut text.toList)

def header (column : String × String) : List (List Char) :=
  cell column.1 ++ ["---".toList, column.2.toList]

def width (lines : List (List Char)) : Nat :=
  lines.foldl (fun most line => max most line.length) 0

def maxWidths : List Nat → List Nat → List Nat
  | a :: as, b :: bs => max a b :: maxWidths as bs
  | _, _ => []

def widths (head : List (List (List Char))) (body : List (List (List (List Char)))) : List Nat :=
  body.foldl (fun most row => maxWidths most (row.map width)) (head.map width)

def rule (left middle right : Char) (line : Char) (widths : List Nat) : List Char :=
  left :: (([middle].intercalate (widths.map fun w => List.replicate (w + 2) line)) ++ [right])

def padded (w : Nat) (line : List Char) : List Char :=
  ' ' :: (line ++ List.replicate (w - line.length + 1) ' ')

/-- The lines of a row; cells with fewer lines than others end with empty ones. -/
def rowLines (widths : List Nat) (row : List (List (List Char))) : List (List Char) :=
  let height := row.foldl (fun most cell => max most cell.length) 0
  (List.range height).map fun n =>
    let line := List.zipWith (fun w cell => padded w (cell.getD n [])) widths row
    '│' :: (['┆'].intercalate line ++ ['│'])

/-- The digits of a number, with an underscore before every third one from the end. -/
def grouped (n : Nat) : List Char :=
  let digits := Decimal.digitChars n
  (List.range digits.length).zip digits |>.flatMap fun (place, digit) =>
    if place ≠ 0 ∧ (digits.length - place) % 3 = 0 then ['_', digit] else [digit]

def lines (table : Table) : List (List Char) :=
  let head := table.columns.map header
  let body := table.rows.map fun row => row.map cell
  let widths := widths head body
  ["shape: (".toList ++ grouped table.rows.length ++ ", ".toList ++
      grouped table.columns.length ++ [')'],
    rule '┌' '┬' '┐' '─' widths] ++
  rowLines widths head ++ [rule '╞' '╪' '╡' '═' widths] ++
  body.flatMap (rowLines widths) ++ [rule '└' '┴' '┘' '─' widths]

/-- The text of a table; no line break follows its last line. -/
def text (table : Table) : String := String.ofList (['\n'].intercalate table.lines)

def field : Option String → String
  | some name => name
  | none => "null"

def ofRows (rows : List Row) : Table where
  columns := [("record_index", "i64"), ("field", "str"), ("operation", "str")]
  rows := rows.map fun row => [toString row.index, field row.key.field, row.key.operation.label]

def ofCounts (counts : List Count) : Table where
  columns := [("field", "str"), ("operation", "str"), ("count", "u32")]
  rows := counts.map fun entry =>
    [field entry.key.field, entry.key.operation.label, toString entry.count]

end Table
end PartialUpdate.Report
