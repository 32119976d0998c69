import FlowPlan.Json.Graph
import FlowPlan.Json.Plan
import FlowPlan.Proofs.Blur
import FlowPlan.Proofs.JsonText

namespace FlowPlan

/-- Names that are read back are different for different values. -/
theorem name_inj_of_read {α : Type} {name : α → String} {ofName? : String → Option α}
    (h : ∀ a, ofName? (name a) = some a) {a b : α} : name a = name b ↔ a = b := by
  constructor
  · intro hname
    have ha := h a
    rw [hname, h b] at ha
    exact (Option.some.inj ha).symm
  · rintro rfl
    rfl

theorem Comparison.ofName?_name (c : Comparison) : ofName? c.name = some c := by
  cases c <;> decide

theorem Arithmetic.ofName?_name (a : Arithmetic) : ofName? a.name = some a := by
  cases a <;> decide

theorem DataType.ofName?_name (t : DataType) : ofName? t.name = some t := by
  cases t <;> decide

theorem Convention.ofName?_name (c : Convention) : ofName? c.name = some c := by
  cases c <;> decide

theorem Distribution.ofName?_name (d : Distribution) : ofName? d.name = some d := by
  cases d <;> decide

theorem Routing.ofName?_name (r : Routing) : ofName? r.name = some r := by
  cases r <;> decide

@[simp] theorem Comparison.name_inj {a b : Comparison} : a.name = b.name ↔ a = b :=
  name_inj_of_read ofName?_name

@[simp] theorem Arithmetic.name_inj {a b : Arithmetic} : a.name = b.name ↔ a = b :=
  name_inj_of_read ofName?_name

@[simp] theorem DataType.name_inj {a b : DataType} : a.name = b.name ↔ a = b :=
  name_inj_of_read ofName?_name

@[simp] theorem Convention.name_inj {a b : Convention} : a.name = b.name ↔ a = b :=
  name_inj_of_read ofName?_name

@[simp] theorem Distribution.name_inj {a b : Distribution} : a.name = b.name ↔ a = b :=
  name_inj_of_read ofName?_name

@[simp] theorem Routing.name_inj {a b : Routing} : a.name = b.name ↔ a = b :=
  name_inj_of_read ofName?_name

namespace Json

@[simp] theorem writable_ofInt (n : Int) : (ofInt n).Writable := by
  rw [ofInt, Writable]
  exact ⟨_, _, writes_int n⟩

@[simp] theorem ofInt_inj {m n : Int} : ofInt m = ofInt n ↔ m = n := by
  constructor
  · intro h
    have htext : toString m = toString n := Json.number.inj h
    have hm := writes_int m
    rw [htext] at hm
    obtain ⟨hs, hq⟩ := hm.unique (writes_int n)
    have habs : m.natAbs = n.natAbs := by exact_mod_cast hq
    have hsign : m < 0 ↔ n < 0 := decide_eq_decide.mp hs
    omega
  · rintro rfl
    rfl

@[simp] theorem writable_ofNat (n : Nat) : (ofNat n).Writable := writable_ofInt n

@[simp] theorem ofNat_inj {m n : Nat} : ofNat m = ofNat n ↔ m = n :=
  (ofInt_inj (m := m) (n := n)).trans Int.ofNat_inj

end Json

namespace Binary

variable {f : Format} {x y : Binary f} {least most : Int}

theorem isFinite_infinity {negative : Bool} :
    (infinity negative : Binary f).isFinite = false := by
  rw [Bool.eq_false_iff, ne_eq, isFinite_iff, infinity, body_signed Format.infinity_lt_signWeight]
  exact Nat.lt_irrefl _

theorem writable_ofBinary (hf : f.fraction ≤ 54) : (Json.ofBinary least most x).Writable := by
  rw [Json.ofBinary]
  split
  · next h =>
    obtain ⟨q, -, hwrites⟩ := exists_writes hf (.json least most) h
    rw [Json.Writable]
    exact ⟨_, q, hwrites⟩
  · rw [Json.Writable]
    trivial

theorem ofBinary_inj (hpos : 0 < f.fraction) (hf : f.fraction ≤ 54) :
    Json.ofBinary least most x = Json.ofBinary least most y ↔ x.blur = y.blur := by
  have hinfinity : ∀ {z : Binary f}, z.isFinite = true → z ≠ infinity false := by
    rintro z hz rfl
    rw [isFinite_infinity] at hz
    cases hz
  rw [Json.ofBinary, Json.ofBinary, blur, blur]
  by_cases hx : x.isFinite = true
  · by_cases hy : y.isFinite = true
    · rw [if_pos hx, if_pos hy, if_pos hx, if_pos hy, Json.number.injEq]
      constructor
      · exact text_injective hpos hf hx hy
      · rintro rfl
        rfl
    · simp [hx, hy, hinfinity hx]
  · by_cases hy : y.isFinite = true
    · simp [hx, hy, (hinfinity hy).symm]
    · simp [hx, hy]

end Binary

namespace Json

@[simp] theorem writable_ofDouble (x : Double) : (ofDouble x).Writable :=
  Binary.writable_ofBinary (by decide)

@[simp] theorem writable_ofSingle (x : Single) : (ofSingle x).Writable :=
  Binary.writable_ofBinary (by decide)

@[simp] theorem ofDouble_inj {x y : Double} : ofDouble x = ofDouble y ↔ x.blur = y.blur :=
  Binary.ofBinary_inj (by decide) (by decide)

@[simp] theorem ofSingle_inj {x y : Single} : ofSingle x = ofSingle y ↔ x.blur = y.blur :=
  Binary.ofBinary_inj (by decide) (by decide)

theorem writableItems_iff {items : List Json} : WritableItems items ↔ ∀ j ∈ items, Writable j := by
  induction items with
  | nil => simp [WritableItems]
  | cons j items ih => simp [WritableItems, ih]

@[simp] theorem writable_array {items : List Json} :
    (array items).Writable ↔ ∀ j ∈ items, Writable j := by
  rw [Writable, writableItems_iff]

@[simp] theorem writable_object {members : List (String × Json)} :
    (object members).Writable ↔ ∀ m ∈ members, Writable m.2 := by
  rw [Writable]
  induction members with
  | nil => simp [WritableMembers]
  | cons m members ih => simp [WritableMembers, ih]

@[simp] theorem writable_tagged {name : String} {content : Json} :
    (tagged name content).Writable ↔ content.Writable := by
  simp [tagged]

@[simp] theorem writable_string (s : String) : (string s).Writable := by
  rw [Writable]
  trivial

@[simp] theorem writable_bool (b : Bool) : (bool b).Writable := by
  rw [Writable]
  trivial

@[simp] theorem writable_null : null.Writable := by
  rw [Writable]
  trivial

@[simp] theorem tagged_inj {name other : String} {j k : Json} :
    tagged name j = tagged other k ↔ name = other ∧ j = k := by
  simp [tagged]

@[simp] theorem tagged_ne_string {name s : String} {j : Json} : tagged name j ≠ string s := by
  simp [tagged]

@[simp] theorem string_ne_tagged {name s : String} {j : Json} : string s ≠ tagged name j := by
  simp [tagged]

/-- Lists of one length in which the values at every place are written alike. -/
theorem map_inj_of {α β : Type} {write : α → Json} {keep : α → β}
    (h : ∀ a b, write a = write b ↔ keep a = keep b) :
    (as bs : List α) → (as.map write = bs.map write ↔ as.map keep = bs.map keep)
  | [], [] => by simp
  | [], b :: bs => by simp
  | a :: as, [] => by simp
  | a :: as, b :: bs => by simp [h, map_inj_of h as bs]

end Json

namespace Scalar

@[simp] theorem writable_toJson (v : Scalar) : v.toJson.Writable := by
  cases v <;> simp [toJson]

theorem bytes_inj {a b : List UInt8} :
    a.map (fun x => Json.ofNat x.toNat) = b.map (fun x => Json.ofNat x.toNat) ↔ a = b :=
  List.map_inj_right fun _ _ h => UInt8.toNat_inj.mp (Json.ofNat_inj.mp h)

@[simp] theorem toJson_inj {v w : Scalar} : v.toJson = w.toJson ↔ v.blur = w.blur := by
  cases v <;> cases w <;> simp [toJson, blur, bytes_inj, Int32.toInt_inj, Int64.toInt_inj]

end Scalar

namespace Schema

@[simp] theorem fieldToJson_inj {a b : Field} : fieldToJson a = fieldToJson b ↔ a = b := by
  cases a
  cases b
  simp [fieldToJson]

@[simp] theorem writable_fieldToJson (f : Field) : (fieldToJson f).Writable := by
  simp [fieldToJson]

@[simp] theorem toJson_inj {s t : Schema} : s.toJson = t.toJson ↔ s = t := by
  cases s
  cases t
  simp [toJson, List.map_inj_right fun a b => fieldToJson_inj.mp]

@[simp] theorem writable_toJson (s : Schema) : s.toJson.Writable := by
  simp [toJson]

end Schema

namespace Expr

mutual

theorem writable_toJson : (e : Expr) → e.toJson.Writable
  | .column _ => by simp [toJson]
  | .literal _ => by simp [toJson]
  | .compare _ l r => by simp [toJson, pairToJson, writable_toJson l, writable_toJson r]
  | .arithmetic _ l r => by simp [toJson, pairToJson, writable_toJson l, writable_toJson r]
  | .and items => by simpa [toJson] using writable_itemsToJson items
  | .or items => by simpa [toJson] using writable_itemsToJson items
  | .not e => by simp [toJson, writable_toJson e]
  | .isNull e => by simp [toJson, writable_toJson e]
  | .isNotNull e => by simp [toJson, writable_toJson e]

theorem writable_itemsToJson : (items : List Expr) → ∀ j ∈ itemsToJson items, j.Writable
  | [] => by simp [itemsToJson]
  | e :: rest => by simpa [itemsToJson, writable_toJson e] using writable_itemsToJson rest

end

mutual

/-- Expressions written alike are alike but for numbers that are not finite. -/
theorem toJson_inj : (a b : Expr) → (a.toJson = b.toJson ↔ a.blur = b.blur)
  | .column _, b => by cases b <;> simp [toJson, blur, pairToJson]
  | .literal _, b => by cases b <;> simp [toJson, blur, pairToJson]
  | .compare _ l r, b => by
    cases b <;> simp [toJson, blur, pairToJson, toJson_inj l, toJson_inj r]
  | .arithmetic _ l r, b => by
    cases b <;> simp [toJson, blur, pairToJson, toJson_inj l, toJson_inj r]
  | .and items, b => by cases b <;> simp [toJson, blur, pairToJson, itemsToJson_inj items]
  | .or items, b => by cases b <;> simp [toJson, blur, pairToJson, itemsToJson_inj items]
  | .not e, b => by cases b <;> simp [toJson, blur, pairToJson, toJson_inj e]
  | .isNull e, b => by cases b <;> simp [toJson, blur, pairToJson, toJson_inj e]
  | .isNotNull e, b => by cases b <;> simp [toJson, blur, pairToJson, toJson_inj e]

theorem itemsToJson_inj :
    (as bs : List Expr) → (itemsToJson as = itemsToJson bs ↔ blurItems as = blurItems bs)
  | [], bs => by cases bs <;> simp [itemsToJson, blurItems]
  | a :: as, bs => by
    cases bs <;> simp [itemsToJson, blurItems, toJson_inj a, itemsToJson_inj as]

end

end Expr

namespace Operator

@[simp] theorem writable_toJson (op : Operator) : op.toJson.Writable := by
  cases op <;> simp [toJson, Expr.writable_toJson]

@[simp] theorem toJson_inj {a b : Operator} : a.toJson = b.toJson ↔ a.blur = b.blur := by
  cases a <;> cases b <;>
    simp [toJson, blur, Expr.toJson_inj, Json.map_inj_of Expr.toJson_inj]

end Operator

namespace Traits

@[simp] theorem writable_toJson (t : Traits) : t.toJson.Writable := by
  simp [toJson]

@[simp] theorem toJson_inj {s t : Traits} : s.toJson = t.toJson ↔ s = t := by
  cases s
  cases t
  simp [toJson]

end Traits

namespace Plan

mutual

theorem writable_toJson : (p : Plan) → p.toJson.Writable
  | .node _ _ inputs => by simpa [toJson] using writable_inputsToJson inputs

theorem writable_inputsToJson : (inputs : List Plan) → ∀ j ∈ inputsToJson inputs, j.Writable
  | [] => by simp [inputsToJson]
  | p :: rest => by simpa [inputsToJson, writable_toJson p] using writable_inputsToJson rest

end

mutual

/-- Plans written alike are alike but for numbers that are not finite. -/
theorem toJson_inj : (p q : Plan) → (p.toJson = q.toJson ↔ p.blur = q.blur)
  | .node _ _ inputs, .node _ _ others => by
    simp [toJson, blur, inputsToJson_inj inputs others]

theorem inputsToJson_inj :
    (ps qs : List Plan) → (inputsToJson ps = inputsToJson qs ↔ blurInputs ps = blurInputs qs)
  | [], qs => by cases qs <;> simp [inputsToJson, blurInputs]
  | p :: ps, [] => by simp [inputsToJson, blurInputs]
  | p :: ps, q :: qs => by
    simp [inputsToJson, blurInputs, toJson_inj p q, inputsToJson_inj ps qs]

end

/-- The text that a plan is told apart by says everything but which of the numbers that are not
finite it has. -/
theorem compact_inj {p q : Plan} : p.toJson.compact = q.toJson.compact ↔ p.blur = q.blur := by
  rw [← toJson_inj]
  constructor
  · exact Json.compact_injective p.writable_toJson q.writable_toJson
  · exact congrArg Json.compact

end Plan

namespace Processor

@[simp] theorem writable_toJson (p : Processor) : p.toJson.Writable := by
  cases p <;> simp [toJson, Expr.writable_toJson]

@[simp] theorem toJson_inj {p q : Processor} : p.toJson = q.toJson ↔ p.blur = q.blur := by
  cases p <;> cases q <;>
    simp [toJson, kindName, blur, Expr.toJson_inj, Json.map_inj_of Expr.toJson_inj]

end Processor

namespace Vertex

theorem parallelism_inj {m n : Option UInt32} :
    Json.ofOption (fun n : UInt32 => .ofNat n.toNat) m = .ofOption (fun n => .ofNat n.toNat) n ↔
      m = n := by
  have hnull : ∀ k : Nat, Json.null ≠ .ofNat k := fun k => by simp [Json.ofNat]
  cases m <;> cases n <;> simp [Json.ofOption, UInt32.toNat_inj, hnull, (hnull _).symm]

@[simp] theorem writable_toJson (v : Vertex) : v.toJson.Writable := by
  cases v with
  | mk id name parallelism distribution schema processor =>
    cases parallelism <;> simp [toJson, Json.ofOption]

@[simp] theorem toJson_inj {v w : Vertex} : v.toJson = w.toJson ↔ v.blur = w.blur := by
  cases v
  cases w
  simp [toJson, blur, parallelism_inj]

end Vertex

namespace Edge

@[simp] theorem writable_toJson (e : Edge) : e.toJson.Writable := by
  simp [toJson]

@[simp] theorem toJson_inj {d e : Edge} : d.toJson = e.toJson ↔ d = e := by
  cases d
  cases e
  simp [toJson]

end Edge

namespace Graph

theorem writable_fingerprint (g : Graph) : (Json.array [.string g.version,
    .array (g.vertices.map Vertex.toJson), .array (g.edges.map Edge.toJson)]).Writable := by
  simp

/-- The text that a graph is told apart by says everything but its number and which of the numbers
that are not finite it has. -/
theorem fingerprintText_inj {g h : Graph} : g.fingerprintText = h.fingerprintText ↔
    g.version = h.version ∧ g.vertices.map Vertex.blur = h.vertices.map Vertex.blur ∧
      g.edges = h.edges := by
  have hvertices : g.vertices.map Vertex.toJson = h.vertices.map Vertex.toJson ↔
      g.vertices.map Vertex.blur = h.vertices.map Vertex.blur :=
    Json.map_inj_of (fun _ _ => Vertex.toJson_inj) _ _
  have hedges : g.edges.map Edge.toJson = h.edges.map Edge.toJson ↔ g.edges = h.edges :=
    List.map_inj_right fun _ _ => Edge.toJson_inj.mp
  rw [← hvertices, ← hedges]
  constructor
  · intro htext
    simpa using Json.compact_injective g.writable_fingerprint h.writable_fingerprint htext
  · rintro ⟨hversion, hvertices, hedges⟩
    rw [fingerprintText, fingerprintText, hversion, hvertices, hedges]

end Graph

end FlowPlan
