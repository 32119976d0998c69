import FlowPlan.Json.Settings
import FlowPlan.Proofs.Encoding
import FlowPlan.Proofs.GraphIds
import FlowPlan.Proofs.Reading

namespace FlowPlan

open Json

/-- A finite number whose text is read as the number. -/
def Binary.Rereads {f : Format} (least most : Int) (x : Binary f) : Prop :=
  x.isFinite = true ∧ (numeric? ((Layout.json least most).text x)).map Numeric.toBinary = some x

theorem Binary.Rereads.recovers {f : Format} {least most : Int} {x : Binary f}
    (h : x.Rereads least most) : Recovers binary? (ofBinary least most x) x := by
  intro r _
  rw [ofBinary, if_pos h.1]
  exact h.2

theorem Binary.Rereads.sound {f : Format} {least most : Int} {x : Binary f}
    (h : x.Rereads least most) : (ofBinary least most x).Sound := by
  intro levels _
  obtain ⟨v, hv, -⟩ := Option.map_eq_some_iff.mp h.2
  rw [ofBinary, if_pos h.1, isSound, hv]
  rfl

abbrev Single.Rereads (x : Single) : Prop := Binary.Rereads (-6) 12 x

abbrev Double.Rereads (x : Double) : Prop := Binary.Rereads (-5) 15 x

namespace Scalar

def Rereads : Scalar → Prop
  | .float32 x => Single.Rereads x
  | .float64 x => Double.Rereads x
  | _ => True

theorem recovers_toJson {v : Scalar} (h : v.Rereads) : Recovers ofJson? v.toJson v := by
  cases v with
  | null => exact fun r _ => rfl
  | bool b =>
    exact recovers_tagged ((recovers_bool b).map Scalar.bool)
  | int32 v =>
    have hl := v.le_toInt
    have hu := v.toInt_lt
    have hread : Recovers (Json.integer? Int32.minValue.toInt Int32.maxValue.toInt) (.ofInt v.toInt)
        v.toInt := recovers_integer (by omega) (by omega) v.minValue_le_toInt v.toInt_le
    refine recovers_tagged fun inner hi => (congrArg (Option.map _) (hread inner hi)).trans ?_
    simp
  | int64 v =>
    have hl := v.le_toInt
    have hu := v.toInt_lt
    have hread : Recovers (Json.integer? Int64.minValue.toInt Int64.maxValue.toInt) (.ofInt v.toInt)
        v.toInt := recovers_integer (by omega) (by omega) v.minValue_le_toInt v.toInt_le
    refine recovers_tagged fun inner hi => (congrArg (Option.map _) (hread inner hi)).trans ?_
    simp
  | float32 x =>
    exact recovers_tagged ((Binary.Rereads.recovers h).map Scalar.float32)
  | float64 x =>
    exact recovers_tagged ((Binary.Rereads.recovers h).map Scalar.float64)
  | text s =>
    exact recovers_tagged ((recovers_text s).map Scalar.text)
  | binary b =>
    have hread : Recovers (Json.list? (Json.natural? 8)) (.array (b.map fun x => .ofNat x.toNat))
        (b.map UInt8.toNat) :=
      recovers_list fun x _ => recovers_natural (by decide) x.toNat_lt
    refine recovers_tagged fun inner hi => (congrArg (Option.map _) (hread inner hi)).trans ?_
    simp [Function.comp_def]

theorem sound_toJson {v : Scalar} (h : v.Rereads) : v.toJson.Sound := by
  cases v with
  | null => exact sound_string _
  | bool b => exact sound_tagged (sound_bool b)
  | int32 v =>
    have hl := v.le_toInt
    have hu := v.toInt_lt
    exact sound_tagged (sound_ofInt (by omega) (by omega))
  | int64 v =>
    have hl := v.le_toInt
    have hu := v.toInt_lt
    exact sound_tagged (sound_ofInt (by omega) (by omega))
  | float32 x => exact sound_tagged (Binary.Rereads.sound h)
  | float64 x => exact sound_tagged (Binary.Rereads.sound h)
  | text s => exact sound_tagged (sound_string s)
  | binary b =>
    refine sound_tagged (sound_array fun j hj => ?_)
    obtain ⟨x, -, rfl⟩ := List.mem_map.mp hj
    exact sound_ofNat (Nat.lt_trans x.toNat_lt (by decide))

end Scalar

namespace Schema

theorem recovers_fieldToJson (f : Field) : Recovers fieldOfJson? (fieldToJson f) f := by
  intro r hr
  obtain ⟨m, hfound, hm⟩ := exists_members ["name", "data_type", "nullable"] rfl
    (by decide) hr
  have hname := hm.field "name" rfl (recovers_text f.name)
  have htype := hm.field "data_type" rfl (recovers_oneOf (DataType.ofName?_name f.type))
  have hnullable := hm.field "nullable" rfl (recovers_bool f.nullable)
  rw [fieldOfJson?, fieldToJson, hfound]
  simp only [Option.bind_eq_bind, Option.bind_some, hname, htype, hnullable]
  rfl

theorem recovers_toJson (s : Schema) : Recovers ofJson? s.toJson s := by
  intro r hr
  obtain ⟨m, hfound, hm⟩ := exists_members ["fields"] rfl (by decide) hr
  have hfields := hm.field "fields" rfl (recovers_list_self fun f _ => recovers_fieldToJson f)
  rw [ofJson?, toJson, hfound]
  simp only [Option.bind_eq_bind, Option.bind_some, hfields]
  rfl

end Schema

namespace Expr

mutual

/-- An expression that is read back: its columns have positions of 64 bits, and its literals are read
back. -/
def Rereads : Expr → Prop
  | .column i => i < 2 ^ 64
  | .literal v => v.Rereads
  | .compare _ l r => Rereads l ∧ Rereads r
  | .arithmetic _ l r => Rereads l ∧ Rereads r
  | .and items => RereadsItems items
  | .or items => RereadsItems items
  | .not e => Rereads e
  | .isNull e => Rereads e
  | .isNotNull e => Rereads e

def RereadsItems : List Expr → Prop
  | [] => True
  | e :: rest => Rereads e ∧ RereadsItems rest

end

theorem rereadsItems_iff {items : List Expr} : RereadsItems items ↔ ∀ e ∈ items, e.Rereads := by
  induction items with
  | nil => simp [RereadsItems]
  | cons e rest ih => simp [RereadsItems, ih]

theorem itemsToJson_eq_map (items : List Expr) : itemsToJson items = items.map toJson := by
  induction items with
  | nil => rw [itemsToJson, List.map_nil]
  | cons e rest ih => rw [itemsToJson, List.map_cons, ih]

theorem recovers_pairToJson {α : Type} {op : String} {find : String → Option α} {o : α}
    {operand : Reader Expr} {l r : Expr} {combine : α → Expr → Expr → Expr}
    (ho : find op = some o) (hl : Recovers operand l.toJson l) (hr : Recovers operand r.toJson r) :
    Recovers (pairOfJson? find operand combine)
      (.object [("op", .string op), ("left", l.toJson), ("right", r.toJson)]) (combine o l r) := by
  intro room hroom
  obtain ⟨m, hfound, hm⟩ := exists_members ["op", "left", "right"] rfl (by decide) hroom
  have hop := hm.field "op" rfl (recovers_oneOf ho)
  have hleft := hm.field "left" rfl hl
  have hright := hm.field "right" rfl hr
  rw [pairOfJson?, hfound]
  simp only [Option.bind_eq_bind, Option.bind_some, hop, hleft, hright]
  rfl

/-- Both operands of an operator are less deep than what it is written as. -/
theorem depth_operands_lt {op : String} {left right : Json} {n : Nat}
    (h : (Json.object [("op", .string op), ("left", left), ("right", right)]).depth < n) :
    left.depth < n ∧ right.depth < n :=
  ⟨(depth_member_lt (m := ("left", left)) (by simp)).trans h,
    (depth_member_lt (m := ("right", right)) (by simp)).trans h⟩

/-- An expression is read where the reader goes deeper than it. -/
theorem recovers_within {n : Nat} {e : Expr} (h : e.Rereads) (hn : e.toJson.depth < n) :
    Recovers (ofJsonWithin? n) e.toJson e := by
  induction n generalizing e with
  | zero => exact absurd hn (Nat.not_lt_zero _)
  | succ n ih =>
    have hitems : ∀ {items}, RereadsItems items → (Json.array (itemsToJson items)).depth ≤ n →
        Recovers (list? (ofJsonWithin? n)) (.array (itemsToJson items)) items := by
      intro items hi hdepth
      rw [rereadsItems_iff] at hi
      rw [itemsToJson_eq_map] at hdepth ⊢
      exact recovers_list_self fun e he => ih (hi e he)
        (Nat.lt_of_lt_of_le (depth_item_lt (List.mem_map_of_mem he)) hdepth)
    cases e with
    | column i =>
      rw [Rereads] at h
      rw [toJson]
      exact recovers_tagged ((recovers_natural (by decide) h).map Expr.column)
    | literal v =>
      rw [Rereads] at h
      rw [toJson]
      exact recovers_tagged ((Scalar.recovers_toJson h).map Expr.literal)
    | compare op l r =>
      rw [Rereads] at h
      rw [toJson, pairToJson, depth_tagged] at hn
      obtain ⟨hl, hr⟩ := depth_operands_lt (Nat.lt_of_succ_lt_succ hn)
      rw [toJson]
      exact recovers_tagged (recovers_pairToJson (Comparison.ofName?_name op) (ih h.1 hl) (ih h.2 hr))
    | arithmetic op l r =>
      rw [Rereads] at h
      rw [toJson, pairToJson, depth_tagged] at hn
      obtain ⟨hl, hr⟩ := depth_operands_lt (Nat.lt_of_succ_lt_succ hn)
      rw [toJson]
      exact recovers_tagged (recovers_pairToJson (Arithmetic.ofName?_name op) (ih h.1 hl) (ih h.2 hr))
    | and items =>
      rw [Rereads] at h
      rw [toJson, depth_tagged] at hn
      rw [toJson]
      exact recovers_tagged ((hitems h (by omega)).map Expr.and)
    | or items =>
      rw [Rereads] at h
      rw [toJson, depth_tagged] at hn
      rw [toJson]
      exact recovers_tagged ((hitems h (by omega)).map Expr.or)
    | not e =>
      rw [Rereads] at h
      rw [toJson, depth_tagged] at hn
      rw [toJson]
      exact recovers_tagged ((ih h (by omega)).map Expr.not)
    | isNull e =>
      rw [Rereads] at h
      rw [toJson, depth_tagged] at hn
      rw [toJson]
      exact recovers_tagged ((ih h (by omega)).map Expr.isNull)
    | isNotNull e =>
      rw [Rereads] at h
      rw [toJson, depth_tagged] at hn
      rw [toJson]
      exact recovers_tagged ((ih h (by omega)).map Expr.isNotNull)

theorem recovers_toJson {e : Expr} (h : e.Rereads) : Recovers ofJson? e.toJson e :=
  fun r hr => recovers_within h (Nat.lt_succ_of_le hr) r hr

mutual

theorem sound_toJson : {e : Expr} → e.Rereads → e.toJson.Sound
  | .column i, h => by
    rw [Rereads] at h
    rw [toJson]
    exact sound_tagged (sound_ofNat h)
  | .literal v, h => by
    rw [Rereads] at h
    rw [toJson]
    exact sound_tagged (Scalar.sound_toJson h)
  | .compare op l r, h => by
    rw [Rereads] at h
    rw [toJson, pairToJson]
    exact sound_tagged (sound_object (by
      simpa using ⟨sound_string op.name, sound_toJson h.1, sound_toJson h.2⟩))
  | .arithmetic op l r, h => by
    rw [Rereads] at h
    rw [toJson, pairToJson]
    exact sound_tagged (sound_object (by
      simpa using ⟨sound_string op.name, sound_toJson h.1, sound_toJson h.2⟩))
  | .and items, h => by
    rw [Rereads] at h
    rw [toJson]
    exact sound_tagged (sound_array (sound_itemsToJson h))
  | .or items, h => by
    rw [Rereads] at h
    rw [toJson]
    exact sound_tagged (sound_array (sound_itemsToJson h))
  | .not e, h => by
    rw [Rereads] at h
    rw [toJson]
    exact sound_tagged (sound_toJson h)
  | .isNull e, h => by
    rw [Rereads] at h
    rw [toJson]
    exact sound_tagged (sound_toJson h)
  | .isNotNull e, h => by
    rw [Rereads] at h
    rw [toJson]
    exact sound_tagged (sound_toJson h)

theorem sound_itemsToJson : {items : List Expr} → RereadsItems items →
    ∀ j ∈ itemsToJson items, j.Sound
  | [], _ => by simp [itemsToJson]
  | e :: rest, h => by
    rw [RereadsItems] at h
    rw [itemsToJson, List.forall_mem_cons]
    exact ⟨sound_toJson h.1, sound_itemsToJson h.2⟩

end

end Expr

namespace Operator

def Rereads : Operator → Prop
  | .scan .. => True
  | .filter p => p.Rereads
  | .project exprs _ => ∀ e ∈ exprs, e.Rereads
  | .root => True

theorem recovers_scan (container : String) (s : Schema) : Recovers scanOfJson?
    (.object [("container", .string container), ("schema", s.toJson)]) (.scan container s) := by
  intro r hr
  obtain ⟨m, hfound, hm⟩ := exists_members ["container", "schema"] rfl (by decide) hr
  have hcontainer := hm.field "container" rfl (recovers_text container)
  have hschema := hm.field "schema" rfl (Schema.recovers_toJson s)
  simp only [scanOfJson?, Option.bind_eq_bind, Option.bind_some, hfound, hcontainer, hschema]
  rfl

theorem recovers_filter {p : Expr} (h : p.Rereads) :
    Recovers filterOfJson? (.object [("predicate", p.toJson)]) (.filter p) := by
  intro r hr
  obtain ⟨m, hfound, hm⟩ := exists_members ["predicate"] rfl (by decide) hr
  have hpredicate := hm.field "predicate" rfl (Expr.recovers_toJson h)
  simp only [filterOfJson?, Option.bind_eq_bind, Option.bind_some, hfound, hpredicate]
  rfl

theorem recovers_project {exprs : List Expr} (t : Schema) (h : ∀ e ∈ exprs, e.Rereads) :
    Recovers projectOfJson?
      (.object [("exprs", .array (exprs.map Expr.toJson)), ("row_type", t.toJson)])
      (.project exprs t) := by
  intro r hr
  obtain ⟨m, hfound, hm⟩ := exists_members ["exprs", "row_type"] rfl (by decide) hr
  have hexprs := hm.field "exprs" rfl (recovers_list_self fun e he => Expr.recovers_toJson (h e he))
  have htype := hm.field "row_type" rfl (Schema.recovers_toJson t)
  simp only [projectOfJson?, Option.bind_eq_bind, Option.bind_some, hfound, hexprs, htype]
  rfl

theorem recovers_toJson {op : Operator} (h : op.Rereads) : Recovers ofJson? op.toJson op := by
  cases op with
  | scan container s => exact recovers_tagged fun inner hi => recovers_scan container s inner hi
  | filter p => exact recovers_tagged fun inner hi => recovers_filter h inner hi
  | project exprs t => exact recovers_tagged fun inner hi => recovers_project t h inner hi
  | root => exact fun r _ => rfl

end Operator

theorem Traits.recovers_toJson (t : Traits) : Recovers ofJson? t.toJson t := by
  intro r hr
  obtain ⟨m, hfound, hm⟩ := exists_members ["convention", "distribution"] rfl (by decide) hr
  have hconvention := hm.field "convention" rfl (recovers_oneOf (Convention.ofName?_name t.convention))
  have hdistribution :=
    hm.field "distribution" rfl (recovers_oneOf (Distribution.ofName?_name t.distribution))
  rw [ofJson?, toJson, hfound]
  simp only [Option.bind_eq_bind, Option.bind_some, hconvention, hdistribution]
  rfl

namespace Plan

/-- A plan all of whose operators are read back. -/
def Rereads (p : Plan) : Prop := ∀ q ∈ p.nodes, q.op.Rereads

theorem mem_nodesOf {plans : List Plan} {q : Plan} :
    q ∈ nodesOf plans ↔ ∃ p ∈ plans, q ∈ p.nodes := by
  induction plans with
  | nil => simp [nodesOf]
  | cons p rest ih => simp [nodesOf, ih]

theorem inputsToJson_eq_map (inputs : List Plan) : inputsToJson inputs = inputs.map toJson := by
  induction inputs with
  | nil => rw [inputsToJson, List.map_nil]
  | cons p rest ih => rw [inputsToJson, List.map_cons, ih]

/-- A plan is read where the reader goes deeper than it. -/
theorem recovers_within {n : Nat} {p : Plan} (h : p.Rereads) (hn : p.toJson.depth < n) :
    Recovers (ofJsonWithin? n) p.toJson p := by
  induction n generalizing p with
  | zero => exact absurd hn (Nat.not_lt_zero _)
  | succ n ih =>
    obtain ⟨t, op, inputs⟩ := p
    rw [Rereads, nodes, List.forall_mem_cons] at h
    rw [toJson, inputsToJson_eq_map] at hn ⊢
    have hdepth : (Json.array (inputs.map toJson)).depth < n :=
      Nat.lt_of_lt_of_le (depth_member_lt (m := ("inputs", .array (inputs.map toJson))) (by simp))
        (Nat.lt_succ_iff.mp hn)
    intro r hr
    obtain ⟨m, hfound, hm⟩ := exists_members ["traits", "op", "inputs"] rfl (by decide) hr
    have htraits := hm.field "traits" rfl (Traits.recovers_toJson t)
    have hop := hm.field "op" rfl (Operator.recovers_toJson h.1)
    have hinputs := hm.field "inputs" rfl (recovers_list_self fun p hp =>
      ih (fun q hq => h.2 q (mem_nodesOf.mpr ⟨p, hp, hq⟩))
        ((depth_item_lt (List.mem_map_of_mem hp)).trans hdepth))
    simp only [ofJsonWithin?, Option.bind_eq_bind, Option.bind_some, hfound, htraits, hop, hinputs]
    rfl

theorem recovers_toJson {p : Plan} (h : p.Rereads) : Recovers ofJson? p.toJson p :=
  fun r hr => recovers_within h (Nat.lt_succ_of_le hr) r hr

end Plan

theorem CostOrdering.ofName?_name (o : CostOrdering) : ofName? o.name = some o := by
  cases o <;> decide

theorem CostOrdering.recovers_toJson (o : CostOrdering) : Recovers ofJson? o.toJson o :=
  recovers_oneOf (ofName?_name o)

theorem recovers_word32 (n : UInt32) : Recovers word32OfJson? (.ofNat n.toNat) n := by
  intro r hr
  rw [word32OfJson?, recovers_natural (by decide) n.toNat_lt r hr]
  simp

theorem recovers_word64 (n : UInt64) : Recovers word64OfJson? (.ofNat n.toNat) n := by
  intro r hr
  rw [word64OfJson?, recovers_natural (by decide) n.toNat_lt r hr]
  simp

theorem recovers_optionalWord32 (n : Option UInt32) :
    Recovers (orNull? word32OfJson?) (.ofOption (fun n => .ofNat n.toNat) n) n :=
  recovers_ofOption_self (by simp) fun n _ => recovers_word32 n

structure Settings.Rereads (s : Settings Double) : Prop where
  minFilteredRows : Double.Rereads s.minFilteredRows
  defaultSelectivity : Double.Rereads s.defaultSelectivity
  projectCpuPerExpr : Double.Rereads s.projectCpuPerExpr

theorem Settings.recovers_toJson {s : Settings Double} (h : s.Rereads) :
    Recovers ofJson? s.toJson s := by
  intro r hr
  obtain ⟨m, hfound, hm⟩ := exists_members settingNames rfl (by decide) hr
  rw [ofJson?, toJson, hfound]
  simp only [Option.bind_eq_bind, Option.bind_some,
    hm.fieldOr "cost_ordering" rfl (CostOrdering.recovers_toJson s.ordering),
    hm.fieldOr "min_filtered_rows" rfl h.minFilteredRows.recovers,
    hm.fieldOr "default_selectivity" rfl h.defaultSelectivity.recovers,
    hm.fieldOr "project_cpu_per_expr" rfl h.projectCpuPerExpr.recovers,
    hm.fieldOr "fuse_operators" rfl (recovers_bool s.fuse),
    hm.fieldOr "local_parallelism" rfl (recovers_optionalWord32 s.parallelism),
    hm.fieldOr "stats_refresh_ms" rfl (recovers_word64 s.refreshMs)]
  rfl

structure Overrides.Rereads (o : Overrides Double) : Prop where
  minFilteredRows : ∀ x ∈ o.minFilteredRows, Double.Rereads x
  defaultSelectivity : ∀ x ∈ o.defaultSelectivity, Double.Rereads x
  projectCpuPerExpr : ∀ x ∈ o.projectCpuPerExpr, Double.Rereads x

theorem recovers_optionalDouble {x : Option Double} (h : ∀ y ∈ x, Double.Rereads y) :
    Recovers (orNull? binary?) (.ofOption .ofDouble x) x :=
  recovers_ofOption_self (fun y hy => by simp [Json.ofDouble, ofBinary, (h y hy).1])
    fun y hy => (h y hy).recovers

theorem Overrides.recovers_toJson {o : Overrides Double} (h : o.Rereads) :
    Recovers ofJson? o.toJson o := by
  intro r hr
  obtain ⟨m, hfound, hm⟩ := exists_members settingNames rfl (by decide) hr
  have hordering := recovers_ofOption_self (v := o.ordering) (by simp [CostOrdering.toJson])
    fun p _ => CostOrdering.recovers_toJson p
  have hfuse := recovers_ofOption_self (v := o.fuse) (by simp) fun b _ => recovers_bool b
  have hrefresh := recovers_ofOption_self (v := o.refreshMs) (by simp) fun n _ => recovers_word64 n
  rw [ofJson?, toJson, hfound]
  simp only [Option.bind_eq_bind, Option.bind_some,
    hm.fieldOr "cost_ordering" rfl hordering,
    hm.fieldOr "min_filtered_rows" rfl (recovers_optionalDouble h.minFilteredRows),
    hm.fieldOr "default_selectivity" rfl (recovers_optionalDouble h.defaultSelectivity),
    hm.fieldOr "project_cpu_per_expr" rfl (recovers_optionalDouble h.projectCpuPerExpr),
    hm.fieldOr "fuse_operators" rfl hfuse,
    hm.fieldOr "local_parallelism" rfl (recovers_optionalWord32 o.parallelism),
    hm.fieldOr "stats_refresh_ms" rfl hrefresh]
  rfl

structure Cost.Rereads (c : Cost Double) : Prop where
  rows : Double.Rereads c.rows
  cpu : Double.Rereads c.cpu
  io : Double.Rereads c.io

theorem Cost.recovers_toJson {c : Cost Double} (h : c.Rereads) : Recovers ofJson? c.toJson c := by
  intro r hr
  obtain ⟨m, hfound, hm⟩ := exists_members ["rows", "cpu", "io"] rfl (by decide) hr
  rw [ofJson?, toJson, hfound]
  simp only [Option.bind_eq_bind, Option.bind_some, hm.field "rows" rfl h.rows.recovers,
    hm.field "cpu" rfl h.cpu.recovers, hm.field "io" rfl h.io.recovers]
  rfl

namespace Processor

def Rereads : Processor → Prop
  | .scan _ => True
  | .filter p => p.Rereads
  | .project exprs => ∀ e ∈ exprs, e.Rereads
  | .calc p exprs => p.Rereads ∧ ∀ e ∈ exprs, e.Rereads
  | .root => True

theorem sound_exprs {exprs : List Expr} (h : ∀ e ∈ exprs, e.Rereads) :
    (Json.array (exprs.map Expr.toJson)).Sound := by
  refine sound_array fun j hj => ?_
  obtain ⟨e, he, rfl⟩ := List.mem_map.mp hj
  exact Expr.sound_toJson (h e he)

theorem recovers_toJson {p : Processor} (h : p.Rereads) : Recovers ofJson? p.toJson p := by
  match p, h with
  | .scan container, _ =>
    refine recovers_kind (by simp) (by simp [sound_string]) fun inside hi => ?_
    obtain ⟨m, hfound, hm⟩ := exists_members ["container"] rfl (by decide) hi
    simp only [Option.bind_eq_bind, Option.bind_some, hfound,
      hm.field "container" rfl (recovers_text container)]
    rfl
  | .filter p, h =>
    refine recovers_kind (by simp) (by simpa using Expr.sound_toJson h) fun inside hi => ?_
    obtain ⟨m, hfound, hm⟩ := exists_members ["predicate"] rfl (by decide) hi
    simp only [Option.bind_eq_bind, Option.bind_some, hfound,
      hm.field "predicate" rfl (Expr.recovers_toJson h)]
    rfl
  | .project exprs, h =>
    refine recovers_kind (by simp) (by simpa using sound_exprs h) fun inside hi => ?_
    obtain ⟨m, hfound, hm⟩ := exists_members ["exprs"] rfl (by decide) hi
    simp only [exprsOf?, Option.bind_eq_bind, Option.bind_some, hfound,
      hm.field "exprs" rfl (recovers_list_self fun e he => Expr.recovers_toJson (h e he))]
    rfl
  | .calc p exprs, h =>
    refine recovers_kind (by simp) (by simpa using ⟨Expr.sound_toJson h.1, sound_exprs h.2⟩)
      fun inside hi => ?_
    obtain ⟨m, hfound, hm⟩ := exists_members ["predicate", "exprs"] rfl (by decide) hi
    simp only [exprsOf?, Option.bind_eq_bind, Option.bind_some, hfound,
      hm.field "predicate" rfl (Expr.recovers_toJson h.1),
      hm.field "exprs" rfl (recovers_list_self fun e he => Expr.recovers_toJson (h.2 e he))]
    rfl
  | .root, _ => exact recovers_kind (by simp) (by simp) fun inside hi => rfl

end Processor

structure Vertex.Rereads (v : Vertex) : Prop where
  id : v.id < 2 ^ 64
  processor : v.processor.Rereads

theorem Vertex.recovers_toJson {v : Vertex} (h : v.Rereads) : Recovers ofJson? v.toJson v := by
  intro r hr
  obtain ⟨m, hfound, hm⟩ := exists_members
    ["id", "name", "local_parallelism", "distribution", "schema", "processor"] rfl
    (by decide) hr
  have hparallelism : Recovers (orNull? (natural? 32)) (.ofOption (fun n => .ofNat n.toNat) v.parallelism)
      (v.parallelism.map UInt32.toNat) :=
    recovers_ofOption (by simp) fun n _ => recovers_natural (by decide) n.toNat_lt
  rw [ofJson?, toJson, hfound]
  simp only [Option.bind_eq_bind, Option.bind_some,
    hm.field "id" rfl (recovers_natural (by decide) h.id), hm.field "name" rfl (recovers_text v.name),
    hm.fieldOr "local_parallelism" rfl hparallelism,
    hm.field "distribution" rfl (recovers_oneOf (Distribution.ofName?_name v.distribution)),
    hm.field "schema" rfl (Schema.recovers_toJson v.schema),
    hm.field "processor" rfl (Processor.recovers_toJson h.processor)]
  simp [Function.comp_def]

structure Edge.Rereads (e : Edge) : Prop where
  id : e.id < 2 ^ 64
  source : e.source < 2 ^ 64
  target : e.target < 2 ^ 64
  ordinal : e.ordinal < 2 ^ 64

theorem Edge.recovers_toJson {e : Edge} (h : e.Rereads) : Recovers ofJson? e.toJson e := by
  intro r hr
  obtain ⟨m, hfound, hm⟩ := exists_members ["id", "from", "to", "ordinal", "routing"] rfl
    (by decide) hr
  rw [ofJson?, toJson, hfound]
  simp only [Option.bind_eq_bind, Option.bind_some,
    hm.field "id" rfl (recovers_natural (by decide) h.id),
    hm.field "from" rfl (recovers_natural (by decide) h.source),
    hm.field "to" rfl (recovers_natural (by decide) h.target),
    hm.field "ordinal" rfl (recovers_natural (by decide) h.ordinal),
    hm.field "routing" rfl (recovers_oneOf (Routing.ofName?_name e.routing))]
  rfl

/-- A graph all of whose vertices and edges are read back. -/
structure Graph.Rereads (g : Graph) : Prop where
  vertices : ∀ v ∈ g.vertices, v.Rereads
  edges : ∀ e ∈ g.edges, e.Rereads

theorem Graph.recovers_toJson {g : Graph} (h : g.Rereads) : Recovers ofJson? g.toJson g := by
  intro r hr
  obtain ⟨m, hfound, hm⟩ := exists_members ["id", "version", "vertices", "edges"] rfl
    (by decide) hr
  rw [ofJson?, toJson, hfound]
  simp only [Option.bind_eq_bind, Option.bind_some,
    hm.field "id" rfl (recovers_text (graphIdText g.id)), graphIdOfText?_graphIdText,
    hm.field "version" rfl (recovers_text g.version),
    hm.field "vertices" rfl (recovers_list_self fun v hv => Vertex.recovers_toJson (h.vertices v hv)),
    hm.field "edges" rfl (recovers_list_self fun e he => Edge.recovers_toJson (h.edges e he))]
  rfl

end FlowPlan
