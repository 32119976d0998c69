import FlowPlan.Row.Cell
import FlowPlan.Text.Class

namespace FlowPlan

/-- A place in a row: a value, or a cell that copies of the row share. -/
inductive Slot where
  | value (v : Scalar)
  | cell (id : CellId)
  deriving DecidableEq

/-- A row without names, by position. -/
abbrev Row := List Slot

/-- What a client addresses a column by: a signed or unsigned position, or a name. -/
inductive ColumnRef where
  | position (index : Int)
  | count (index : Nat)
  | name (name : String)
  deriving DecidableEq, Repr

def Field.label (f : Field) : String := f.name ++ " " ++ f.type.sqlName

namespace ColumnRef

/-- The position of a signed index. -/
def checkPosition (columns : Schema) (index : Int) : Except RowError Nat :=
  if index < 0 || columns.length ≤ index then .error (.outOfRange index columns.length)
  else .ok index.toNat

/-- The position that is meant. Unsigned positions past the signed ones count as the last of
those; a name means the first column that has exactly it. -/
def resolve (columns : Schema) : ColumnRef → Except RowError Nat
  | .position index => checkPosition columns index
  | .count index => checkPosition columns (min index Int64.maxValue.toInt)
  | .name wanted =>
    match columns.indexOf? wanted with
    | some i => .ok i
    | none => .error (.unknownColumn wanted)

end ColumnRef

/-- A row for clients: its columns, its slots, and what decodes the cells among them. -/
structure RowView (m : Type → Type) where
  columns : Schema
  row : Row
  decode : Decoder m

namespace RowView

variable {m : Type → Type}

/-- Puts columns to a row, which has to have as many slots. -/
def make (columns : Schema) (row : Row) (decode : Decoder m) : Except RowError (RowView m) :=
  if row.length = columns.length then .ok ⟨columns, row, decode⟩
  else .error (.columnCount columns.length row.length)

def slot (r : RowView m) (i : Nat) : Except RowError Slot :=
  match r.row[i]? with
  | some s => .ok s
  | none => .error (.outOfRange i r.row.length)

def slotOf (r : RowView m) (column : ColumnRef) : Except RowError Slot := do
  let i ← column.resolve r.columns
  r.slot i

/-- What a slot holds, without decoding it. Cells that were never made hold no bytes. -/
def contents (cells : Cells) : Slot → Cell
  | .value v => .decoded v
  | .cell id => cells.getD id (.encoded [])

/-- The value of a slot. A cell is decoded by its first read and keeps the value. -/
def read [Monad m] (decode : Decoder m) (s : Slot) : StateT Cells m (Except RowError Scalar) := do
  match s with
  | .value v => pure (.ok v)
  | .cell id => Cells.force decode id (contents (← StateT.get) s)

def get [Monad m] (r : RowView m) (column : ColumnRef) : StateT Cells m (Except RowError Scalar) :=
  match r.slotOf column with
  | .error e => pure (.error e)
  | .ok s => read r.decode s

/-- What a column holds, without decoding it. -/
def getRaw (r : RowView m) (cells : Cells) (column : ColumnRef) : Except RowError Cell :=
  contents cells <$> r.slotOf column

def cellText : Cell → String
  | .decoded v => v.toText
  | .encoded payload => s!"<{payload.length} bytes>"

/-- The texts of columns over slots, position by position. -/
def columnTexts (cells : Cells) : List Field → Row → List String
  | [], _ => []
  | f :: fields, [] => (f.label ++ "=?") :: columnTexts cells fields []
  | f :: fields, s :: row =>
    (f.label ++ "=" ++ cellText (contents cells s)) :: columnTexts cells fields row

/-- The row as it is, without decoding anything. -/
def toText (r : RowView m) (cells : Cells) : String :=
  "[" ++ Text.joined ", " (columnTexts cells r.columns.fields r.row) ++ "]"

def toLabelledText (r : RowView m) (cells : Cells) : String := "SqlRow" ++ r.toText cells

end RowView

/-- Rows under the same columns and decoder. -/
structure RowSet (m : Type → Type) where
  columns : Schema
  decode : Decoder m
  rows : List Row

namespace RowSet

variable {m : Type → Type}

/-- Adds a row, which has to have as many slots as there are columns. -/
def push (s : RowSet m) (row : Row) : Except RowError (RowSet m) :=
  if row.length = s.columns.length then .ok { s with rows := s.rows ++ [row] }
  else .error (.columnCount s.columns.length row.length)

/-- The rows as clients see them. Views of one row share its cells. -/
def views (s : RowSet m) : List (RowView m) := s.rows.map fun row => ⟨s.columns, row, s.decode⟩

end RowSet

end FlowPlan
