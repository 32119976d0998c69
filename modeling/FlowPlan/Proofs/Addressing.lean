import FlowPlan.Proofs.Sharing
import Mathlib

namespace FlowPlan

variable {σ : Type} {columns : Schema} {column : ColumnRef} {wanted : String} {i : Nat}
  {e : RowError}

/-- Every column has a signed position of 64 bits. There is no memory for more columns. -/
def Schema.Addressable (columns : Schema) : Prop := columns.length ≤ Int64.maxValue.toInt

instance (columns : Schema) : Decidable columns.Addressable := inferInstanceAs (Decidable (_ ≤ _))

/-- The index of a name is the first position that has it. -/
theorem Schema.indexOf?_eq_some : columns.indexOf? wanted = some i ↔
    (columns.field? i).map Field.name = some wanted ∧
      ∀ j < i, (columns.field? j).map Field.name ≠ some wanted := by
  rw [indexOf?, List.findIdx?_eq_some_iff_getElem]
  constructor
  · rintro ⟨hlt, hname, hfirst⟩
    refine ⟨by simpa [field?, hlt] using hname, fun j hj => ?_⟩
    simpa [field?, hj.trans hlt] using hfirst j hj
  · rintro ⟨hname, hfirst⟩
    obtain ⟨f, hf, rfl⟩ := Option.map_eq_some_iff.mp hname
    obtain ⟨hlt, rfl⟩ := List.getElem?_eq_some_iff.mp hf
    refine ⟨hlt, beq_self_eq_true _, fun j hj => ?_⟩
    simpa [field?, hj.trans hlt] using hfirst j hj

namespace ColumnRef

/-- There is no such column: no position of one, or no name of one. -/
def Misses (columns : Schema) : ColumnRef → Prop
  | .position index => index < 0 ∨ columns.length ≤ index
  | .count index => columns.length ≤ index
  | .name wanted => ∀ f ∈ columns.fields, f.name ≠ wanted

instance (columns : Schema) (column : ColumnRef) : Decidable (column.Misses columns) :=
  match column with
  | .position _ => inferInstanceAs (Decidable (_ ∨ _))
  | .count _ => inferInstanceAs (Decidable (_ ≤ _))
  | .name _ => inferInstanceAs (Decidable (∀ f ∈ columns.fields, _))

/-- The column at a position is meant, or the first one of a name. -/
def Means (columns : Schema) (i : Nat) : ColumnRef → Prop
  | .position index => index = i ∧ i < columns.length
  | .count index => index = i ∧ i < columns.length
  | .name wanted => (columns.field? i).map Field.name = some wanted ∧
      ∀ j < i, (columns.field? j).map Field.name ≠ some wanted

/-- What is said where there is no such column. -/
def refusal (columns : Schema) : ColumnRef → RowError
  | .position index => .outOfRange index columns.length
  | .count index => .outOfRange (min index Int64.maxValue.toInt) columns.length
  | .name wanted => .unknownColumn wanted

theorem checkPosition_eq_ok {index : Int} :
    checkPosition columns index = .ok i ↔ index = i ∧ i < columns.length := by
  simp only [checkPosition, Bool.or_eq_true, decide_eq_true_eq]
  split
  next h =>
    simp only [reduceCtorEq, false_iff]
    omega
  next h =>
    rw [Except.ok.injEq]
    omega

theorem checkPosition_eq_error {index : Int} : checkPosition columns index = .error e ↔
    (index < 0 ∨ columns.length ≤ index) ∧ e = .outOfRange index columns.length := by
  simp only [checkPosition, Bool.or_eq_true, decide_eq_true_eq]
  split
  next h => simp [h, eq_comm]
  next h => simp [h]

theorem resolve_eq_ok (hcolumns : columns.Addressable) :
    column.resolve columns = .ok i ↔ column.Means columns i := by
  cases column with
  | position index => exact checkPosition_eq_ok
  | count index =>
    rw [resolve, checkPosition_eq_ok, Means]
    unfold Schema.Addressable at hcolumns
    omega
  | name wanted =>
    rw [resolve, Means, ← Schema.indexOf?_eq_some]
    cases columns.indexOf? wanted <;> simp

theorem resolve_eq_error (hcolumns : columns.Addressable) :
    column.resolve columns = .error e ↔ column.Misses columns ∧ e = column.refusal columns := by
  cases column with
  | position index => exact checkPosition_eq_error
  | count index =>
    rw [resolve, checkPosition_eq_error, Misses, refusal]
    unfold Schema.Addressable at hcolumns
    exact and_congr_left fun _ => by omega
  | name wanted =>
    have hnone : columns.indexOf? wanted = none ↔ Misses columns (.name wanted) := by
      simp [Schema.indexOf?, Misses, List.findIdx?_eq_none_iff]
    rw [resolve, refusal, ← hnone]
    cases columns.indexOf? wanted <;> simp [eq_comm]

theorem Means.lt (h : column.Means columns i) : i < columns.length := by
  cases column with
  | position index | count index => exact h.2
  | name wanted =>
    obtain ⟨f, hf, -⟩ := Option.map_eq_some_iff.mp h.1
    exact (List.getElem?_eq_some_iff.mp hf).1

/-- Whatever addresses a column misses, or means one column. -/
theorem misses_or_means (hcolumns : columns.Addressable) (column : ColumnRef) :
    column.Misses columns ∨ ∃ i, column.Means columns i := by
  cases h : column.resolve columns with
  | ok i => exact .inr ⟨i, (resolve_eq_ok hcolumns).mp h⟩
  | error e => exact .inl ((resolve_eq_error hcolumns).mp h).1

theorem Means.not_misses (h : column.Means columns i) : ¬ column.Misses columns := by
  cases column with
  | position index | count index =>
    obtain ⟨rfl, hlt⟩ := h
    simp only [Misses]
    omega
  | name wanted =>
    obtain ⟨f, hf, rfl⟩ := Option.map_eq_some_iff.mp h.1
    exact fun hmiss => hmiss f (List.mem_of_getElem? hf) rfl

end ColumnRef

/-- Every payload that is still there was there before. -/
def Cells.Settles (before after : Cells) : Prop :=
  ∀ (id : CellId) (p : List UInt8),
    after[id]? = some (.encoded p) → before[id]? = some (.encoded p)

namespace Cells

variable {cells cells' later : Cells}

theorem Settles.trans (h : cells.Settles cells') (hlater : cells'.Settles later) :
    cells.Settles later :=
  fun id p hp => h id p (hlater id p hp)

theorem settles_set (cells : Cells) (id : CellId) (v : Scalar) :
    cells.Settles (cells.set id (.decoded v)) := by
  intro other p hp
  rw [List.getElem?_set] at hp
  split at hp
  next => split at hp <;> cases hp
  next => exact hp

theorem run_force_encoded (decode : Decoder (StateM σ)) (id : CellId) (p : List UInt8)
    (cells : Cells) (x : σ) :
    ((force decode id (.encoded p)).run cells).run x =
      match (decode p).run x with
      | (.ok v, x') => ((.ok v, cells.set id (.decoded v)), x')
      | (.error e, x') => ((.error e, cells), x') := by
  simp only [force, StateT.run_bind, StateT.run_monadLift, bind_assoc, pure_bind, monadLift_self]
  generalize (decode p).run x = outcome
  obtain ⟨result, x'⟩ := outcome
  cases result <;> rfl

end Cells

namespace RowView

variable {r : RowView (StateM σ)} {slot : Slot} {cells : Cells} {x : σ}

/-- What the decoder of a row makes of a payload as it stands. -/
def decoding (r : RowView (StateM σ)) (x : σ) (payload : List UInt8) : Except RowError Scalar :=
  ((r.decode payload).run x).1

/-- How a read ends: without a slot, with the value that a slot has, or with one decoded now. -/
inductive Reads (r : RowView (StateM σ)) (cells : Cells) (x : σ) (column : ColumnRef) :
    Except RowError Scalar × Cells → Prop where
  | refused {e : RowError} (missing : r.slotOf column = .error e) :
      Reads r cells x column (.error e, cells)
  | found {slot : Slot} (slot_eq : r.slotOf column = .ok slot) :
      Reads r cells x column ((contents cells slot).value (r.decoding x), cells)
  | decoded {id : CellId} {v : Scalar} (slot_eq : r.slotOf column = .ok (.cell id))
      (ok : (contents cells (.cell id)).value (r.decoding x) = .ok v) :
      Reads r cells x column (.ok v, cells.set id (.decoded v))

theorem reads_get (r : RowView (StateM σ)) (cells : Cells) (x : σ) (column : ColumnRef) :
    r.Reads cells x column (((r.get column).run cells).run x).1 := by
  cases hslot : r.slotOf column with
  | error e =>
    rw [get, hslot]
    exact .refused hslot
  | ok slot =>
    have hfound : r.Reads cells x column ((contents cells slot).value (r.decoding x), cells) :=
      .found hslot
    cases slot with
    | value v =>
      rw [get, hslot]
      exact hfound
    | cell id =>
      have hdecoded (v : Scalar) (ok : (contents cells (.cell id)).value (r.decoding x) = .ok v) :
          r.Reads cells x column (.ok v, cells.set id (.decoded v)) := .decoded hslot ok
      have hget : (r.get column).run cells =
          (Cells.force r.decode id (contents cells (.cell id))).run cells := by
        rw [get, hslot]
        rfl
      rw [hget]
      generalize contents cells (.cell id) = cell at hfound hdecoded ⊢
      cases cell with
      | decoded v => exact hfound
      | encoded p =>
        rw [Cells.run_force_encoded]
        simp only [Cell.value, decoding] at hfound hdecoded
        generalize (r.decode p).run x = outcome at hfound hdecoded ⊢
        obtain ⟨result, x'⟩ := outcome
        cases result with
        | ok v => exact hdecoded v rfl
        | error e => exact hfound

/-- What reading a column gives. -/
def result (r : RowView (StateM σ)) (cells : Cells) (x : σ) (column : ColumnRef) :
    Except RowError Scalar :=
  (((r.get column).run cells).run x).1.1

/-- A read gives the value of the slot that is found, if there is one. -/
theorem result_eq (r : RowView (StateM σ)) (cells : Cells) (x : σ) (column : ColumnRef) :
    r.result cells x column =
      r.slotOf column >>= fun slot => (contents cells slot).value (r.decoding x) := by
  have hreads := r.reads_get cells x column
  rw [result]
  generalize (((r.get column).run cells).run x).1 = outcome at hreads ⊢
  cases hreads with
  | refused missing =>
    rw [missing]
    rfl
  | found slot_eq =>
    rw [slot_eq]
    rfl
  | decoded slot_eq ok =>
    rw [slot_eq]
    exact ok.symm

theorem columnTexts_eq_zipWith (cells : Cells) {fields : List Field} {row : Row}
    (h : row.length = fields.length) : columnTexts cells fields row =
      List.zipWith (fun f s => f.label ++ "=" ++ cellText (contents cells s)) fields row := by
  induction fields generalizing row with
  | nil => rfl
  | cons f fields ih =>
    cases row with
    | nil => cases h
    | cons s row => rw [columnTexts, List.zipWith_cons_cons, ih (Nat.succ.inj h)]

/-- The decoder refuses the payload that a column still has. -/
def Refuses (r : RowView (StateM σ)) (cells : Cells) (x : σ) (column : ColumnRef) (e : RowError) :
    Prop :=
  ∃ i slot p, column.Means r.columns i ∧ r.row[i]? = some slot ∧
    contents cells slot = .encoded p ∧ r.decoding x p = .error e

/-- A row with a slot for each of its columns. Whatever addresses a column finds its slot, and a
read fails only where no column is addressed or the decoder refuses the payload of the column. -/
structure Addressed (r : RowView (StateM σ)) : Prop where
  width : r.row.length = r.columns.length
  /-- No position is looked at that has no slot. -/
  slots : ∀ (column : ColumnRef) (i : Nat), column.resolve r.columns = .ok i →
    ∃ slot, r.slot i = .ok slot
  /-- No column is shown without its slot. -/
  text : ∀ cells, r.toText cells = "[" ++ Text.joined ", " (List.zipWith
    (fun f slot => f.label ++ "=" ++ cellText (contents cells slot)) r.columns.fields r.row) ++ "]"
  meant : ∀ column : ColumnRef,
    ¬ column.Misses r.columns ↔ ∃ i, column.Means r.columns i
  getRaw_error : ∀ cells column e, r.getRaw cells column = .error e ↔
    column.Misses r.columns ∧ e = column.refusal r.columns
  get_error : ∀ cells x column e, r.result cells x column = .error e ↔
    column.Misses r.columns ∧ e = column.refusal r.columns ∨ r.Refuses cells x column e
  found : ∀ (column : ColumnRef) (i : Nat), column.Means r.columns i →
    ∃ slot, r.row[i]? = some slot ∧
      (∀ cells, r.getRaw cells column = .ok (contents cells slot)) ∧
      ∀ cells x, r.result cells x column = (contents cells slot).value (r.decoding x)
  /-- A name is read as the position that it means. -/
  same : ∀ (a b : ColumnRef) (i : Nat), a.Means r.columns i → b.Means r.columns i →
    r.get a = r.get b ∧ ∀ cells, r.getRaw cells a = r.getRaw cells b

/-- A row goes with its columns. -/
structure Fits (r : RowView (StateM σ)) : Prop where
  columns : r.columns.Addressable
  width : r.row.length = r.columns.length

namespace Fits

theorem slot_eq (h : r.Fits) (hi : i < r.columns.length) :
    ∃ slot, r.row[i]? = some slot ∧ r.slot i = .ok slot := by
  have hlt : i < r.row.length := h.width ▸ hi
  exact ⟨r.row[i], List.getElem?_eq_getElem hlt, by simp [RowView.slot, hlt]⟩

theorem slotOf_of_means (h : r.Fits) (hmeans : column.Means r.columns i) :
    ∃ slot, r.row[i]? = some slot ∧ r.slotOf column = .ok slot := by
  obtain ⟨slot, hrow, hslot⟩ := h.slot_eq hmeans.lt
  refine ⟨slot, hrow, ?_⟩
  rw [slotOf, (ColumnRef.resolve_eq_ok h.columns).mpr hmeans]
  exact hslot

theorem slotOf_of_misses (h : r.Fits) (hmiss : column.Misses r.columns) :
    r.slotOf column = .error (column.refusal r.columns) := by
  rw [slotOf, (ColumnRef.resolve_eq_error h.columns).mpr ⟨hmiss, rfl⟩]
  rfl

theorem getRaw_eq_error (h : r.Fits) (cells : Cells) (column : ColumnRef) (e : RowError) :
    r.getRaw cells column = .error e ↔
      column.Misses r.columns ∧ e = column.refusal r.columns := by
  rcases ColumnRef.misses_or_means h.columns column with hmiss | ⟨i, hmeans⟩
  · rw [getRaw, h.slotOf_of_misses hmiss]
    simp [Functor.map, Except.map, hmiss, eq_comm]
  · obtain ⟨slot, -, hslot⟩ := h.slotOf_of_means hmeans
    rw [getRaw, hslot]
    simp [Functor.map, Except.map, hmeans.not_misses]

theorem result_eq_error (h : r.Fits) (cells : Cells) (x : σ) (column : ColumnRef) (e : RowError) :
    r.result cells x column = .error e ↔
      column.Misses r.columns ∧ e = column.refusal r.columns ∨ r.Refuses cells x column e := by
  constructor
  · intro he
    rcases ColumnRef.misses_or_means h.columns column with hmiss | ⟨i, hmeans⟩
    · rw [result_eq, h.slotOf_of_misses hmiss] at he
      cases he
      exact .inl ⟨hmiss, rfl⟩
    · obtain ⟨slot, hrow, hslot⟩ := h.slotOf_of_means hmeans
      rw [result_eq, hslot] at he
      change (contents cells slot).value (r.decoding x) = .error e at he
      cases hc : contents cells slot with
      | encoded p => exact .inr ⟨i, slot, p, hmeans, hrow, hc, by rwa [hc] at he⟩
      | decoded v =>
        rw [hc] at he
        cases he
  · rintro (⟨hmiss, rfl⟩ | ⟨i, slot, p, hmeans, hrow, hc, he⟩)
    · rw [result_eq, h.slotOf_of_misses hmiss]
      rfl
    · obtain ⟨slot', hrow', hslot⟩ := h.slotOf_of_means hmeans
      cases hrow.symm.trans hrow'
      rw [result_eq, hslot]
      exact (congrArg (Cell.value (r.decoding x)) hc).trans he

theorem addressed (h : r.Fits) : r.Addressed where
  width := h.width
  slots column i hi := by
    have hmeans := (ColumnRef.resolve_eq_ok h.columns).mp hi
    obtain ⟨slot, -, hslot⟩ := h.slot_eq hmeans.lt
    exact ⟨slot, hslot⟩
  text cells := by rw [toText, columnTexts_eq_zipWith cells h.width]
  meant column := by
    constructor
    · exact (ColumnRef.misses_or_means h.columns column).resolve_left
    · rintro ⟨i, hmeans⟩
      exact hmeans.not_misses
  getRaw_error := h.getRaw_eq_error
  get_error := h.result_eq_error
  found column i hmeans := by
    obtain ⟨slot, hrow, hslot⟩ := h.slotOf_of_means hmeans
    refine ⟨slot, hrow, fun cells => ?_, fun cells x => ?_⟩
    · rw [getRaw, hslot]
      rfl
    · rw [result_eq, hslot]
      rfl
  same a b i ha hb := by
    have hab : r.slotOf a = r.slotOf b := by
      rw [slotOf, (ColumnRef.resolve_eq_ok h.columns).mpr ha, slotOf,
        (ColumnRef.resolve_eq_ok h.columns).mpr hb]
    exact ⟨by rw [get, get, hab], fun cells => by rw [getRaw, getRaw, hab]⟩

end Fits

theorem fits_of_make {row : Row} {decode : Decoder (StateM σ)} (hcolumns : columns.Addressable)
    (h : make columns row decode = .ok r) : r.Fits := by
  rw [make] at h
  split at h
  next hwidth =>
    cases h
    exact ⟨hcolumns, hwidth⟩
  next => cases h

end RowView

/-- Whatever is pushed to a set goes with its columns. -/
structure RowSet.Fits (rs : RowSet (StateM σ)) : Prop where
  columns : rs.columns.Addressable
  width : ∀ row ∈ rs.rows, row.length = rs.columns.length

namespace Session

variable {s s' : Session (StateM σ)} {x x' : σ} {a : Action} {reply : Reply}
  {replies : List Reply}

/-- How clients begin: with views that were made of columns and a row, and with empty sets. -/
structure Opened (s : Session (StateM σ)) : Prop where
  views : ∀ r ∈ s.views, ∃ (columns : Schema) (row : Row) (decode : Decoder (StateM σ)),
    columns.Addressable ∧ RowView.make columns row decode = .ok r
  sets : ∀ rs ∈ s.sets, rs.columns.Addressable ∧ rs.rows = []

/-- Every row that can be looked at goes with its columns. -/
structure Fitting (s : Session (StateM σ)) : Prop where
  views : ∀ r ∈ s.views, r.Fits
  sets : ∀ rs ∈ s.sets, rs.Fits

/-- What an action comes to. -/
inductive Does (s : Session (StateM σ)) : Session (StateM σ) → Prop where
  | still : Does s s
  | decoded (id : CellId) (v : Scalar) : Does s { s with cells := s.cells.set id (.decoded v) }
  | copied {r : RowView (StateM σ)} (held : r ∈ s.views) :
      Does s { s with views := s.views ++ [r] }
  | pushed {rs : RowSet (StateM σ)} {row : Row} (set : Nat) (held : rs ∈ s.sets)
      (width : row.length = rs.columns.length) :
      Does s { s with sets := s.sets.set set { rs with rows := rs.rows ++ [row] } }
  | viewed {rs : RowSet (StateM σ)} (held : rs ∈ s.sets) :
      Does s { s with views := s.views ++ rs.views }

theorem does_get (s : Session (StateM σ)) (view : Nat) (column : ColumnRef) (x : σ) :
    Does s ((s.perform (.get view column)).run x).1.2 := by
  rw [perform]
  cases s.views[view]? with
  | none => exact .still
  | some r =>
    have hreads := r.reads_get s.cells x column
    change Does s { s with cells := (((r.get column).run s.cells).run x).1.2 }
    generalize (((r.get column).run s.cells).run x).1 = outcome at hreads ⊢
    cases hreads with
    | refused missing | found slot_eq => exact .still
    | @decoded id v slot_eq ok => exact .decoded id v

theorem does_push (s : Session (StateM σ)) (set row : Nat) (x : σ) :
    Does s ((s.perform (.push set row)).run x).1.2 := by
  rw [perform]
  cases hset : s.sets[set]? with
  | none => exact .still
  | some rs =>
    cases s.rows[row]? with
    | none => exact .still
    | some slots =>
      simp only [RowSet.push]
      by_cases hwidth : slots.length = rs.columns.length
      · rw [if_pos hwidth]
        exact .pushed set (List.mem_of_getElem? hset) hwidth
      · rw [if_neg hwidth]
        exact .still

theorem does_perform (s : Session (StateM σ)) (a : Action) (x : σ) :
    Does s ((s.perform a).run x).1.2 := by
  cases a with
  | get view column => exact does_get s view column x
  | push set row => exact does_push s set row x
  | getRaw view column | toText view =>
    rw [perform]
    cases s.views[view]? <;> exact .still
  | copy view =>
    rw [perform]
    cases hr : s.views[view]? with
    | none => exact .still
    | some r => exact .copied (List.mem_of_getElem? hr)
  | views set =>
    rw [perform]
    cases hset : s.sets[set]? with
    | none => exact .still
    | some rs => exact .viewed (List.mem_of_getElem? hset)

theorem Opened.fitting (hs : s.Opened) : s.Fitting where
  views r hr := by
    obtain ⟨columns, row, decode, hcolumns, hmake⟩ := hs.views r hr
    exact RowView.fits_of_make hcolumns hmake
  sets rs hrs := by
    obtain ⟨hcolumns, hrows⟩ := hs.sets rs hrs
    exact ⟨hcolumns, by simp [hrows]⟩

theorem Does.fitting (h : Does s s') (hs : s.Fitting) : s'.Fitting := by
  cases h with
  | still => exact hs
  | decoded id v => exact ⟨hs.views, hs.sets⟩
  | copied held =>
    exact ⟨List.forall_mem_append.mpr
      ⟨hs.views, List.forall_mem_singleton.mpr (hs.views _ held)⟩, hs.sets⟩
  | @pushed rs row set held width =>
    refine ⟨hs.views, fun q hq => ?_⟩
    rcases List.mem_or_eq_of_mem_set hq with hq | rfl
    · exact hs.sets q hq
    · have hrs := hs.sets rs held
      exact ⟨hrs.columns, List.forall_mem_append.mpr
        ⟨hrs.width, List.forall_mem_singleton.mpr width⟩⟩
  | @viewed rs held =>
    refine ⟨List.forall_mem_append.mpr ⟨hs.views, fun r hr => ?_⟩, hs.sets⟩
    obtain ⟨row, hrow, rfl⟩ := List.mem_map.mp hr
    exact ⟨(hs.sets rs held).columns, (hs.sets rs held).width row hrow⟩

theorem Does.settles (h : Does s s') : s.cells.Settles s'.cells := by
  cases h with
  | decoded id v => exact Cells.settles_set s.cells id v
  | still | copied held | pushed set held width | viewed held => exact fun _ _ hp => hp

theorem run_performAll_cons (s : Session (StateM σ)) (a : Action) (rest : List Action) (x : σ) :
    ((s.performAll (a :: rest)).run x).1.2 =
      ((((s.perform a).run x).1.2.performAll rest).run ((s.perform a).run x).2).1.2 :=
  rfl

/-- What no action breaks holds of all that clients can come to. -/
theorem performAll_induction {P : Session (StateM σ) → Prop}
    (hstep : ∀ s s', Does s s' → P s → P s') (hs : P s) (actions : List Action) (x : σ) :
    P ((s.performAll actions).run x).1.2 := by
  induction actions generalizing s x with
  | nil => exact hs
  | cons a rest ih =>
    rw [run_performAll_cons]
    exact ih (hstep _ _ (does_perform s a x) hs) _

theorem push_refused {set row : Nat} {rs : RowSet (StateM σ)} {slots : Row}
    (hset : s.sets[set]? = some rs) (hrow : s.rows[row]? = some slots)
    (hwidth : slots.length ≠ rs.columns.length) :
    (s.perform (.push set row)).run x =
      ((.done (.error (.columnCount rs.columns.length slots.length)), s), x) := by
  rw [perform, hset, hrow]
  simp only [RowSet.push, if_neg hwidth]
  rfl

/-- Whatever clients do with rows that were made and sets that were empty, every row they come to
hold has a slot for each of its columns, and is read by them as it should be. Payloads that are
left are those of the beginning, and a row of another width is refused by a set and changes
nothing. -/
theorem rows_addressed (hs : s.Opened) {actions : List Action}
    (h : (s.performAll actions).run x = ((replies, s'), x')) :
    (∀ r ∈ s'.views, r.Addressed) ∧ s.cells.Settles s'.cells ∧
    ∀ set row rs slots, s'.sets[set]? = some rs → s'.rows[row]? = some slots →
      slots.length ≠ rs.columns.length →
      (s'.perform (.push set row)).run x' =
        ((.done (.error (.columnCount rs.columns.length slots.length)), s'), x') := by
  have hfitting := performAll_induction (fun _ _ => Does.fitting) hs.fitting actions x
  have hsettles := performAll_induction (P := fun t => s.cells.Settles t.cells)
    (fun _ _ hdoes ht => ht.trans hdoes.settles) (fun _ _ hp => hp) actions x
  rw [h] at hfitting hsettles
  exact ⟨fun r hr => (hfitting.views r hr).addressed, hsettles,
    fun set row rs slots hset hrow hwidth => push_refused hset hrow hwidth⟩

/-- A set under columns of which two share a name, with a row for it and one that is too short. -/
def gathering : Session (StateM Unit) where
  cells := [.encoded [9]]
  rows := [[.value (.int32 1), .cell 0, .value (.text "one")], [.value (.int32 2)]]
  views := []
  sets := [⟨⟨[⟨"a", .int32, true⟩, ⟨"b", .int64, true⟩, ⟨"a", .utf8, true⟩]⟩, wireDecoder, []⟩]

theorem gathering_opened : gathering.Opened :=
  ⟨fun _ h => absurd h List.not_mem_nil, List.forall_mem_singleton.mpr ⟨by decide, rfl⟩⟩

/-- A copy of a view of the set is read at the first column of a shared name, and not past the last
column; bytes with an unknown tag cannot be read. -/
theorem rows_addressed_gathering :
    ∃ r s', (gathering.performAll [.push 0 1, .push 0 0, .views 0, .copy 0]).run () =
        (([.done (.error (.columnCount 3 1)), .done (.ok ()), .done (.ok ()), .done (.ok ())], s'),
          ()) ∧
      s'.views[1]? = some r ∧
      r.getRaw s'.cells (.name "a") = .ok (.decoded (.int32 1)) ∧
      r.getRaw s'.cells (.count (2 ^ 64 - 1)) = .error (.outOfRange (2 ^ 63 - 1) 3) ∧
      r.result s'.cells () (.name "b") = .error (.decode (.unknownTag 9)) := by
  have hrun : (gathering.performAll [.push 0 1, .push 0 0, .views 0, .copy 0]).run () = _ := rfl
  obtain ⟨hrows, -, -⟩ := rows_addressed gathering_opened hrun
  have hcopy := hrows _ (List.mem_of_getElem? (i := 1) rfl)
  refine ⟨_, _, rfl, rfl, ?_, ?_, ?_⟩
  · obtain ⟨slot, hslot, hraw, -⟩ :=
      hcopy.found (.name "a") 0 ⟨rfl, fun j hj => absurd hj (Nat.not_lt_zero j)⟩
    cases hslot
    exact hraw _
  · exact (hcopy.getRaw_error _ _ _).mpr ⟨by decide, rfl⟩
  · exact (hcopy.get_error _ _ _ _).mpr
      (.inr ⟨1, .cell 0, [9], ⟨rfl, by decide⟩, rfl, rfl, rfl⟩)

end Session

end FlowPlan
