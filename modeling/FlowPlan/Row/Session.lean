import FlowPlan.Row.View

namespace FlowPlan

/-- Something a client does. Rows, views and sets are meant by their numbers. -/
inductive Action where
  | get (view : Nat) (column : ColumnRef)
  | getRaw (view : Nat) (column : ColumnRef)
  | toText (view : Nat)
  | copy (view : Nat)
  | push (set row : Nat)
  | views (set : Nat)
  deriving DecidableEq, Repr

/-- What comes back. There is nothing to do where there is no row, view or set of a number. -/
inductive Reply where
  | value (result : Except RowError Scalar)
  | contents (result : Except RowError Cell)
  | text (text : String)
  | done (result : Except RowError Unit)
  | missing

/-- Everything that clients hold: rows without names, views of rows, and sets. -/
structure Session (m : Type → Type) where
  cells : Cells
  rows : List Row
  views : List (RowView m)
  sets : List (RowSet m)

namespace Session

variable {m : Type → Type} [Monad m]

/-- Does what a client wants. A copy, and every view of a set, is held beside all others. -/
def perform (s : Session m) : Action → m (Reply × Session m)
  | .get view column =>
    match s.views[view]? with
    | some r => do
      let (result, cells) ← (r.get column).run s.cells
      pure (.value result, { s with cells })
    | none => pure (.missing, s)
  | .getRaw view column =>
    match s.views[view]? with
    | some r => pure (.contents (r.getRaw s.cells column), s)
    | none => pure (.missing, s)
  | .toText view =>
    match s.views[view]? with
    | some r => pure (.text (r.toText s.cells), s)
    | none => pure (.missing, s)
  | .copy view =>
    match s.views[view]? with
    | some r => pure (.done (.ok ()), { s with views := s.views ++ [r] })
    | none => pure (.missing, s)
  | .push set row =>
    match s.sets[set]?, s.rows[row]? with
    | some rs, some r =>
      match rs.push r with
      | .ok rs => pure (.done (.ok ()), { s with sets := s.sets.set set rs })
      | .error e => pure (.done (.error e), s)
    | _, _ => pure (.missing, s)
  | .views set =>
    match s.sets[set]? with
    | some rs => pure (.done (.ok ()), { s with views := s.views ++ rs.views })
    | none => pure (.missing, s)

/-- Does what clients want, one thing after another, and says what came back each time. -/
def performAll (s : Session m) : List Action → m (List Reply × Session m)
  | [] => pure ([], s)
  | a :: rest => do
    let (reply, s) ← s.perform a
    let (replies, s) ← s.performAll rest
    pure (reply :: replies, s)

end Session

end FlowPlan
