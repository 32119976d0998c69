import FlowPlan.Row.Session

namespace FlowPlan

/-- The payloads that a decoder was called on, in order. -/
abbrev Recorder := StateM (List (List UInt8))

/-- A decoder that is a function of the payload, with its calls on record. -/
def recorded (d : List UInt8 → Except RowError Scalar) : Decoder Recorder := fun payload => do
  modify (· ++ [payload])
  pure (d payload)

namespace Cell

/-- The value of a cell for whoever reads it. -/
def value (d : List UInt8 → Except RowError Scalar) : Cell → Except RowError Scalar
  | .encoded p => d p
  | .decoded v => .ok v

/-- The cell after it was read. -/
def settled (d : List UInt8 → Except RowError Scalar) (cell : Cell) : Cell :=
  match cell.value d with
  | .ok v => .decoded v
  | .error _ => cell

/-- What has to be decoded for a read. -/
def pending : Cell → List (List UInt8)
  | .encoded p => [p]
  | .decoded _ => []

end Cell

/-- How a cell that was made with a payload stands, and how often that was decoded. -/
inductive Cell.Made (d : List UInt8 → Except RowError Scalar) (p : List UInt8) : Nat → Cell → Prop
  | encoded : Made d p 0 (.encoded p)
  | decoded {v : Scalar} (ok : d p = .ok v) : Made d p 1 (.decoded v)

def Slot.cell? : Slot → Option CellId
  | .value _ => none
  | .cell id => some id

namespace Session

section

variable {m : Type → Type}

/-- What a view has in a column. -/
def slot? (s : Session m) (view : Nat) (column : ColumnRef) : Option Slot :=
  s.views[view]?.bind fun r => (r.slotOf column).toOption

/-- The cell that an action wants the value of. Only `get` wants one. -/
def target? (s : Session m) : Action → Option CellId
  | .get view column => (s.slot? view column).bind Slot.cell?
  | _ => none

end

/-- All views and sets use one decoder. -/
structure Uses (d : List UInt8 → Except RowError Scalar) (s : Session Recorder) : Prop where
  views : ∀ r ∈ s.views, r.decode = recorded d
  sets : ∀ rs ∈ s.sets, rs.decode = recorded d

section

variable (s : Session Recorder) (a : Action)

def reply : Reply := ((s.perform a).run []).1.1

def next : Session Recorder := ((s.perform a).run []).1.2

/-- The payloads that the decoder is called on for an action. -/
def calls : List (List UInt8) := ((s.perform a).run []).2

def after (actions : List Action) : Session Recorder := actions.foldl next s

end

/-- How often the decoder succeeds on a cell in the course of an action. -/
def successes (d : List UInt8 → Except RowError Scalar) (c : CellId) (s : Session Recorder)
    (a : Action) : Nat :=
  if s.target? a = some c then (s.calls a).countP fun p => (d p).isOk else 0

/-- How often the decoder succeeds on a cell in the course of some actions. -/
def decodings (d : List UInt8 → Except RowError Scalar) (c : CellId) (s : Session Recorder) :
    List Action → Nat
  | [] => 0
  | a :: rest => s.successes d c a + (s.next a).decodings d c rest

end Session

variable {d : List UInt8 → Except RowError Scalar} {cells : Cells} {cell : Cell}
  {s : Session Recorder} {r : RowView Recorder} {a : Action} {view : Nat} {column : ColumnRef}
  {c id : CellId} {p : List UInt8} {n : Nat} {log : List (List UInt8)}

theorem Cell.made_iff : Made d p n cell ↔
    n = 0 ∧ cell = .encoded p ∨ n = 1 ∧ ∃ v, d p = .ok v ∧ cell = .decoded v := by
  constructor
  · rintro (_ | ok)
    · exact .inl ⟨rfl, rfl⟩
    · exact .inr ⟨rfl, _, ok, rfl⟩
  · rintro (⟨rfl, rfl⟩ | ⟨rfl, v, ok, rfl⟩)
    · exact .encoded
    · exact .decoded ok

namespace Cell.Made

theorem value_eq (h : Made d p n cell) : cell.value d = d p := by
  cases h with
  | encoded => rfl
  | decoded ok => exact ok.symm

theorem settled (h : Made d p n cell) :
    Made d p (n + cell.pending.countP fun p => (d p).isOk) (cell.settled d) := by
  cases h with
  | encoded =>
    cases hd : d p with
    | ok v => simpa [Cell.settled, value, pending, hd, Except.isOk, Except.toBool] using decoded hd
    | error e =>
      simpa [Cell.settled, value, pending, hd, Except.isOk, Except.toBool] using encoded
  | decoded ok => exact decoded ok

end Cell.Made

theorem RowView.contents_of_getElem? (h : cells[id]? = some cell) :
    contents cells (.cell id) = cell := by
  simp [contents, h]

theorem Cells.set_contents (cells : Cells) (id : CellId) :
    cells.set id (RowView.contents cells (.cell id)) = cells := by
  by_cases h : id < cells.length
  · rw [RowView.contents, ← List.getElem_eq_getD (h := h), List.set_getElem_self]
  · -- there is no such cell to set
    rw [List.set_eq_of_length_le (Nat.le_of_not_lt h)]

theorem Cells.force_recorded (hcell : cells.set id cell = cells) :
    ((Cells.force (recorded d) id cell).run cells).run log =
      ((cell.value d, cells.set id (cell.settled d)), log ++ cell.pending) := by
  cases cell with
  | decoded v =>
    have hsettled : (Cell.decoded v).settled d = .decoded v := rfl
    rw [hsettled, hcell, Cell.pending, List.append_nil]
    rfl
  | encoded p =>
    simp only [Cells.force, recorded, Cell.value, Cell.settled, Cell.pending]
    cases hd : d p with
    | ok v => rfl
    | error e => simp only [hcell]; rfl

theorem RowView.get_recorded (hr : r.decode = recorded d) (hslot : r.slotOf column = .ok (.cell id))
    (hcell : contents cells (.cell id) = cell) :
    ((r.get column).run cells).run log =
      ((cell.value d, cells.set id (cell.settled d)), log ++ cell.pending) := by
  rw [get, hslot, hr]
  subst hcell
  exact Cells.force_recorded (Cells.set_contents cells id)

namespace Session

theorem slot?_eq_some {slot : Slot} : s.slot? view column = some slot ↔
    ∃ r, s.views[view]? = some r ∧ r.slotOf column = .ok slot := by
  rw [slot?, Option.bind_eq_some_iff]
  refine exists_congr fun r => and_congr_right fun _ => ?_
  cases r.slotOf column <;> simp [Except.toOption]

/-- What an action comes to: a read settles its cell, and nothing else touches a cell or has
anything decoded. -/
inductive Step (d : List UInt8 → Except RowError Scalar) (s : Session Recorder) (a : Action) :
    (Reply × Session Recorder) × List (List UInt8) → Prop where
  | read {id : CellId} {cell : Cell} (target : s.target? a = some id)
      (holds : RowView.contents s.cells (.cell id) = cell) :
      Step d s a ((.value (cell.value d), { s with cells := s.cells.set id (cell.settled d) }),
        cell.pending)
  | still {reply : Reply} {views : List (RowView Recorder)} {sets : List (RowSet Recorder)}
      (target : s.target? a = none) (uses : Uses d { s with views, sets }) :
      Step d s a ((reply, { s with views, sets }), [])

theorem step_get (hs : s.Uses d) (view : Nat) (column : ColumnRef) :
    Step d s (.get view column) ((s.perform (.get view column)).run []) := by
  rw [perform]
  cases hr : s.views[view]? with
  | none => exact .still (by simp [target?, slot?, hr]) hs
  | some r =>
    cases hcolumn : r.slotOf column with
    | error e =>
      simp only [RowView.get, hcolumn]
      exact .still (by simp [target?, slot?, hr, hcolumn, Except.toOption]) hs
    | ok slot =>
      have hslot := slot?_eq_some.mpr ⟨r, hr, hcolumn⟩
      cases slot with
      | value v =>
        simp only [RowView.get, hcolumn]
        exact .still (by rw [target?, hslot]; rfl) hs
      | cell id =>
        have hdecode := hs.views r (List.mem_of_getElem? hr)
        simp only [StateT.run_bind, RowView.get_recorded hdecode hcolumn rfl]
        exact .read (by rw [target?, hslot]; rfl) rfl

theorem step_push (hs : s.Uses d) (set row : Nat) :
    Step d s (.push set row) ((s.perform (.push set row)).run []) := by
  rw [perform]
  cases hset : s.sets[set]? with
  | none => exact .still rfl hs
  | some rs =>
    cases s.rows[row]? with
    | none => exact .still rfl hs
    | some r =>
      simp only [RowSet.push]
      split
      next rs' hpush =>
        split at hpush
        · refine .still rfl ⟨hs.views, fun q hq => ?_⟩
          rcases List.mem_or_eq_of_mem_set hq with hq | rfl
          · exact hs.sets q hq
          · cases hpush
            exact hs.sets rs (List.mem_of_getElem? hset)
        · cases hpush
      next => exact .still rfl hs

theorem step (hs : s.Uses d) (a : Action) : Step d s a ((s.perform a).run []) := by
  cases a with
  | get view column => exact step_get hs view column
  | push set row => exact step_push hs set row
  | getRaw view column | toText view =>
    rw [perform]
    cases s.views[view]? <;> exact .still rfl hs
  | copy view =>
    rw [perform]
    cases hr : s.views[view]? with
    | none => exact .still rfl hs
    | some r =>
      refine .still rfl ⟨List.forall_mem_append.mpr ⟨hs.views, ?_⟩, hs.sets⟩
      exact List.forall_mem_singleton.mpr (hs.views r (List.mem_of_getElem? hr))
  | views set =>
    rw [perform]
    cases hset : s.sets[set]? with
    | none => exact .still rfl hs
    | some rs =>
      refine .still rfl ⟨List.forall_mem_append.mpr ⟨hs.views, ?_⟩, hs.sets⟩
      simpa [RowSet.views] using fun row _ => hs.sets rs (List.mem_of_getElem? hset)

theorem Uses.next (hs : s.Uses d) (a : Action) : (s.next a).Uses d := by
  have h := step hs a
  rw [Session.next]
  generalize (s.perform a).run [] = outcome at h ⊢
  cases h with
  | read target holds => exact ⟨hs.views, hs.sets⟩
  | still target uses => exact uses

theorem getElem?_next_of_ne (hs : s.Uses d) (h : s.target? a ≠ some id) :
    (s.next a).cells[id]? = s.cells[id]? := by
  have hstep := step hs a
  rw [next]
  generalize (s.perform a).run [] = outcome at hstep ⊢
  cases hstep with
  | read target holds =>
    exact List.getElem?_set_ne fun he => h (by rw [target, he])
  | still target uses => rfl

theorem still_of_target_none (hs : s.Uses d) (h : s.target? a = none) :
    (s.next a).cells = s.cells ∧ s.calls a = [] := by
  have hstep := step hs a
  rw [next, calls]
  generalize (s.perform a).run [] = outcome at hstep ⊢
  cases hstep with
  | read target holds => cases h.symm.trans target
  | still target uses => exact ⟨rfl, rfl⟩

theorem read_target (hs : s.Uses d) (h : s.target? a = some id) (hc : s.cells[id]? = some cell) :
    s.reply a = .value (cell.value d) ∧ (s.next a).cells[id]? = some (cell.settled d) ∧
      s.calls a = cell.pending := by
  have hstep := step hs a
  rw [reply, next, calls]
  generalize (s.perform a).run [] = outcome at hstep ⊢
  cases hstep with
  | read target holds =>
    cases h.symm.trans target
    cases (RowView.contents_of_getElem? hc).symm.trans holds
    obtain ⟨hlt, -⟩ := List.getElem?_eq_some_iff.mp hc
    exact ⟨rfl, List.getElem?_set_self hlt, rfl⟩
  | still target uses => cases h.symm.trans target

theorem getElem?_after (hs : s.Uses d) (hc : s.cells[c]? = some cell) (hm : cell.Made d p n)
    (actions : List Action) :
    ∃ cell', (s.after actions).cells[c]? = some cell' ∧
      cell'.Made d p (n + s.decodings d c actions) := by
  -- how the cell was made stays true of it, with one more success at most to count
  induction actions generalizing s cell n with
  | nil => exact ⟨cell, hc, hm⟩
  | cons a rest ih =>
    rw [decodings, successes, ← Nat.add_assoc]
    split
    next target =>
      obtain ⟨-, hnext, hcalls⟩ := read_target hs target hc
      rw [hcalls]
      exact ih (hs.next a) hnext hm.settled
    next target =>
      exact ih (hs.next a) ((getElem?_next_of_ne hs target).trans hc) hm

theorem Uses.after (hs : s.Uses d) (actions : List Action) : (s.after actions).Uses d := by
  induction actions generalizing s with
  | nil => exact hs
  | cons a rest ih => exact ih (hs.next a)

theorem reply_getRaw (hslot : s.slot? view column = some (.cell c)) (hc : s.cells[c]? = some cell) :
    s.reply (.getRaw view column) = .contents (.ok cell) := by
  obtain ⟨r, hr, hcolumn⟩ := slot?_eq_some.mp hslot
  rw [reply, perform, hr]
  simp only [RowView.getRaw, hcolumn, ← RowView.contents_of_getElem? hc]
  rfl

theorem views_next_copy (hr : s.views[view]? = some r) :
    (s.next (.copy view)).views = s.views ++ [r] := by
  simp only [next, perform, hr]
  rfl

theorem views_next_views {rs : RowSet Recorder} {set : Nat} (hset : s.sets[set]? = some rs) :
    (s.next (.views set)).views = s.views ++ rs.views := by
  simp only [next, perform, hset]
  rfl

/-- A copy reads the slots of what it is a copy of. -/
theorem slot?_copy (hr : s.views[view]? = some r) (column : ColumnRef) :
    (s.next (.copy view)).slot? s.views.length column = s.slot? view column := by
  rw [slot?, views_next_copy hr, List.getElem?_concat_length, slot?, hr]

/-- A view of a set reads the slots of a row that was pushed. -/
theorem slot?_views {rs : RowSet Recorder} {set i : Nat} {row : Row}
    (hset : s.sets[set]? = some rs) (hrow : rs.rows[i]? = some row) (column : ColumnRef) :
    (s.next (.views set)).slot? (s.views.length + i) column =
      (RowView.slotOf ⟨rs.columns, row, rs.decode⟩ column).toOption := by
  rw [slot?, views_next_views hset, List.getElem?_append_right (Nat.le_add_right ..),
    Nat.add_sub_cancel_left, RowSet.views, List.getElem?_map, hrow]
  rfl

theorem after_concat (s : Session Recorder) (actions : List Action) (a : Action) :
    s.after (actions ++ [a]) = (s.after actions).next a := by
  rw [after, List.foldl_append]
  rfl

/-- A read that succeeds leaves the value in the cell for good, one that fails the payload. -/
theorem getElem?_next_get (ht : s.Uses d) (hslot : s.slot? view column = some (.cell c))
    (hc : s.cells[c]? = some cell) (hm : cell.Made d p n) :
    s.reply (.get view column) = .value (d p) ∧
    (∀ v, d p = .ok v → (s.next (.get view column)).cells[c]? = some (.decoded v)) ∧
    ∀ e, d p = .error e → (s.next (.get view column)).cells[c]? = some (.encoded p) := by
  have htarget : s.target? (.get view column) = some c := by rw [target?, hslot]; rfl
  obtain ⟨hreply, hnext, -⟩ := read_target ht htarget hc
  refine ⟨by rw [hreply, hm.value_eq], fun v hv => ?_, fun e he => ?_⟩
  · rw [hnext, Cell.settled, hm.value_eq, hv]
  · rw [hnext, Cell.settled, hm.value_eq, he]
    cases hm with
    | encoded => rfl
    | decoded ok => cases ok.symm.trans he

/-- Whatever is done with rows, copies and sets in any order, a decoder that is a function of the
payload succeeds on a cell once at most. Whoever holds the cell finds the payload in it until then
and the value from then on, and gets what the payload decodes to. An action changes no cell but the
one it gets the value of, and that one only if the decoder succeeds. -/
theorem cell_decoded_once (hs : s.Uses d) (hc : s.cells[c]? = some (.encoded p))
    (actions : List Action) :
    (∃ cell, (s.after actions).cells[c]? = some cell ∧
      (s.decodings d c actions = 0 ∧ cell = .encoded p ∨
        s.decodings d c actions = 1 ∧ ∃ v, d p = .ok v ∧ cell = .decoded v) ∧
      ∀ view column, (s.after actions).slot? view column = some (.cell c) →
        (s.after actions).reply (.getRaw view column) = .contents (.ok cell)) ∧
    (∀ view column, (s.after actions).slot? view column = some (.cell c) →
      (s.after actions).reply (.get view column) = .value (d p) ∧
      (∀ v, d p = .ok v → s.decodings d c (actions ++ [.get view column]) = 1) ∧
      ∀ e, d p = .error e →
        ((s.after actions).next (.get view column)).cells[c]? = some (.encoded p)) ∧
    (∀ a id, (s.after actions).target? a ≠ some id →
      ((s.after actions).next a).cells[id]? = (s.after actions).cells[id]?) ∧
    (∀ a, (∀ view column, a ≠ .get view column) →
      ((s.after actions).next a).cells = (s.after actions).cells ∧
        (s.after actions).calls a = []) ∧
    (∀ view r column, (s.after actions).views[view]? = some r →
      ((s.after actions).next (.copy view)).slot? (s.after actions).views.length column =
        (s.after actions).slot? view column) ∧
    ∀ set rs i row column, (s.after actions).sets[set]? = some rs → rs.rows[i]? = some row →
      ((s.after actions).next (.views set)).slot? ((s.after actions).views.length + i) column =
        (RowView.slotOf ⟨rs.columns, row, rs.decode⟩ column).toOption := by
  have ht := hs.after actions
  obtain ⟨cell, hcell, hmade⟩ := getElem?_after hs hc .encoded actions
  rw [Nat.zero_add] at hmade
  refine ⟨⟨cell, hcell, Cell.made_iff.mp hmade,
      fun view column hslot => reply_getRaw hslot hcell⟩,
    fun view column hslot => ?_, fun a id h => getElem?_next_of_ne ht h, fun a ha => ?_,
    fun view r column hr => slot?_copy hr column,
    fun set rs i row column hset hrow => slot?_views hset hrow column⟩
  · obtain ⟨hreply, hok, herror⟩ := getElem?_next_get ht hslot hcell hmade
    refine ⟨hreply, fun v hv => ?_, herror⟩
    obtain ⟨cell', hcell', hmade'⟩ := getElem?_after hs hc .encoded (actions ++ [.get view column])
    rw [after_concat, hok v hv] at hcell'
    cases hcell'
    rcases Cell.made_iff.mp hmade' with ⟨-, hencoded⟩ | ⟨hn, -⟩
    · cases hencoded
    · rwa [Nat.zero_add] at hn
  · refine still_of_target_none ht ?_
    cases a with
    | get view column => exact absurd rfl (ha view column)
    | getRaw view column | toText view | copy view | push set row | views set => rfl

/-- A client with one view of a row that has one cell, in wire form. -/
def lent (p : List UInt8) : Session Recorder where
  cells := [.encoded p]
  rows := []
  views := [⟨⟨[⟨"amount", .int32, true⟩]⟩, [.cell 0], recorded fun p => Wire.decode p⟩]
  sets := []

theorem lent_uses : (lent p).Uses fun p => Wire.decode p :=
  ⟨List.forall_mem_singleton.mpr rfl, fun _ h => absurd h List.not_mem_nil⟩

/-- What is read through a copy is decoded for the original; bytes with an unknown tag stay. -/
theorem cell_decoded_once_lent :
    ((lent [2, 7, 0, 0, 0]).after [.copy 0, .get 1 (.count 0)]).reply (.getRaw 0 (.count 0)) =
      .contents (.ok (.decoded (.int32 7))) ∧
    ((lent [9]).next (.get 0 (.count 0))).cells[0]? = some (.encoded [9]) := by
  have hseven := cell_decoded_once (c := 0) (p := [2, 7, 0, 0, 0]) lent_uses rfl
  have hunknown := cell_decoded_once (c := 0) (p := [9]) lent_uses rfl
  refine ⟨?_, ?_⟩
  · obtain ⟨-, hget, -⟩ := hseven [.copy 0]
    obtain ⟨-, honce, -⟩ := hget 1 (.count 0) rfl
    have hn := honce (.int32 7) rfl
    obtain ⟨⟨cell, -, hhistory, hraw⟩, -⟩ := hseven [.copy 0, .get 1 (.count 0)]
    rcases hhistory with ⟨hzero, -⟩ | ⟨-, v, hv, rfl⟩
    · cases hn.symm.trans hzero
    · cases hv
      exact hraw 0 (.count 0) rfl
  · obtain ⟨-, hget, -⟩ := hunknown []
    obtain ⟨-, -, hfail⟩ := hget 0 (.count 0) rfl
    exact hfail (.decode (.unknownTag 9)) rfl

end Session

end FlowPlan
