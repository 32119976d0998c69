import FlowPlan.Json.Decode
import FlowPlan.Proofs.JsonText

namespace FlowPlan

namespace Json

mutual

/-- How many containers are nested in a value. -/
def depth : Json → Nat
  | .array items => depthOfItems items + 1
  | .object members => depthOfMembers members + 1
  | _ => 0

def depthOfItems : List Json → Nat
  | [] => 0
  | j :: rest => max (depth j) (depthOfItems rest)

def depthOfMembers : List (String × Json) → Nat
  | [] => 0
  | (_, j) :: rest => max (depth j) (depthOfMembers rest)

end

theorem depthOfItems_le {items : List Json} {n : Nat} :
    depthOfItems items ≤ n ↔ ∀ j ∈ items, j.depth ≤ n := by
  induction items with
  | nil => simp [depthOfItems]
  | cons j rest ih => simp [depthOfItems, ih]

theorem depthOfMembers_le {members : List (String × Json)} {n : Nat} :
    depthOfMembers members ≤ n ↔ ∀ m ∈ members, m.2.depth ≤ n := by
  induction members with
  | nil => simp [depthOfMembers]
  | cons m rest ih => simp [depthOfMembers, ih]

theorem depth_item_lt {items : List Json} {j : Json} (h : j ∈ items) :
    j.depth < (array items).depth := by
  rw [depth, Nat.lt_succ_iff]
  exact depthOfItems_le.mp le_rfl j h

theorem depth_member_lt {members : List (String × Json)} {m : String × Json} (h : m ∈ members) :
    m.2.depth < (object members).depth := by
  rw [depth, Nat.lt_succ_iff]
  exact depthOfMembers_le.mp le_rfl m h

@[simp] theorem depth_tagged (name : String) (content : Json) :
    (tagged name content).depth = content.depth + 1 := by
  simp [tagged, depth, depthOfMembers]

/-- A container is entered where there is room for it, and leaves room for what is in it. -/
theorem exists_enter {r : Room} {n : Nat} (h : n + 1 ≤ r.levels) :
    ∃ inner, r.enter = some inner ∧ n ≤ inner.levels := by
  obtain ⟨levels, buffered⟩ := r
  cases levels with
  | zero => exact absurd h (Nat.not_succ_le_zero n)
  | succ levels => exact ⟨_, rfl, Nat.le_of_succ_le_succ h⟩

variable {α β : Type} {read : Reader α} {j : Json} {v : α} {r : Room}

/-- The reader makes the value of what was written, wherever there is room for it. -/
def Recovers (read : Reader α) (j : Json) (v : α) : Prop :=
  ∀ r : Room, j.depth ≤ r.levels → read r j = some v

theorem Recovers.map (f : α → β) (h : Recovers read j v) :
    Recovers (fun r j => f <$> read r j) j (f v) :=
  fun r hr => congrArg (f <$> ·) (h r hr)

theorem recovers_bool (b : Bool) : Recovers bool? (.bool b) b := fun _ _ => rfl

theorem recovers_text (s : String) : Recovers text? (.string s) s := fun _ _ => rfl

/-- Digits are collected as long as their number fits. -/
theorem collect_eq {collected : Nat} {digits : List Char}
    (h : Nat.ofDigitChars 10 digits collected ≤ mostDigits) :
    collect collected digits = (Nat.ofDigitChars 10 digits collected, []) := by
  induction digits generalizing collected with
  | nil => rfl
  | cons c rest ih =>
    rw [Nat.ofDigitChars_cons] at h ⊢
    have hnext : 10 * collected + (c.toNat - '0'.toNat) ≤ mostDigits := by
      rw [Nat.ofDigitChars_eq_ofDigitChars_zero] at h
      have hpower := Nat.le_mul_of_pos_left (10 * collected + (c.toNat - '0'.toNat))
        (Nat.pow_pos (n := rest.length) (show 0 < 10 by decide))
      omega
    simp only [collect, if_pos hnext]
    exact ih h

/-- An integer of 64 bits, signed or not, is read as one. -/
theorem numeric?_int {n : Int} (hl : -2 ^ 63 ≤ n) (hu : n < 2 ^ 64) :
    numeric? (toString n) = some (if n < 0 then .negative n.natAbs else .natural n.natAbs) := by
  have hread : lexeme? (toString n).toList = some (Lexeme.ofInt n) := by
    rw [← Lexeme.toChars_ofInt, Lexeme.lexeme?_toChars (Lexeme.wellFormed_ofInt n)]
  have hmost : mostDigits = 2 ^ 64 - 1 := rfl
  have hleast : Nat.pow 2 63 = 2 ^ 63 := rfl
  have hnatural : Nat.ofDigitChars 10 (Nat.toDigits 10 n.natAbs) 0 = n.natAbs :=
    Decimal.natural_toDigits n.natAbs
  have hcollect : collect 0 (Nat.toDigits 10 n.natAbs) = (n.natAbs, []) := by
    rw [collect_eq (by rw [hnatural]; omega), hnatural]
  rw [numeric?, hread]
  by_cases hsign : n < 0
  · have hzero : n ≠ 0 := by omega
    have hfits : ¬ Nat.pow 2 63 < n.natAbs := by omega
    simp [Lexeme.value?, Lexeme.ofInt, hcollect, hsign, hzero, hfits]
  · simp [Lexeme.value?, Lexeme.ofInt, hcollect, hsign]

theorem recovers_integer {least most n : Int} (hl : -2 ^ 63 ≤ n) (hu : n < 2 ^ 64) (h : least ≤ n)
    (k : n ≤ most) : Recovers (integer? least most) (.ofInt n) n := by
  intro r _
  have hvalue : Numeric.integer? (if n < 0 then .negative n.natAbs else .natural n.natAbs) =
      some n := by
    split <;> simp only [Numeric.integer?, Option.some.injEq] <;> omega
  simp only [integer?, ofInt, numeric?_int hl hu, Option.bind_eq_bind, Option.bind_some, hvalue, h,
    k, decide_true, Bool.and_self, ↓reduceIte]

theorem recovers_natural {bits n : Nat} (hb : bits ≤ 64) (h : n < 2 ^ bits) :
    Recovers (natural? bits) (.ofNat n) n := by
  intro r hr
  have hpower : 2 ^ bits ≤ 2 ^ 64 := Nat.pow_le_pow_right (by decide) hb
  have hmost : (Nat.pow 2 bits : Int) = ((2 ^ bits : Nat) : Int) := rfl
  have hread : integer? 0 (Nat.pow 2 bits - 1) r (.ofInt n) = some (n : Int) :=
    recovers_integer (by omega) (by omega) (by omega) (by omega) r hr
  exact congrArg (Int.toNat <$> ·) hread

@[simp] theorem ofNat_ne_null (n : Nat) : ofNat n ≠ .null := by
  simp [ofNat]

theorem recovers_orNull_none : Recovers (orNull? read) .null none := fun _ _ => rfl

theorem recovers_orNull_some (hne : j ≠ .null) (h : Recovers read j v) :
    Recovers (orNull? read) j (some v) := by
  intro r hr
  rw [orNull?, h r hr]
  · rfl
  · exact hne

/-- What may be missing is read if what it may be is, and is not written as null. -/
theorem recovers_ofOption {γ : Type} {write : γ → Json} {f : γ → α} {v : Option γ}
    (hne : ∀ a ∈ v, write a ≠ .null) (h : ∀ a ∈ v, Recovers read (write a) (f a)) :
    Recovers (orNull? read) (.ofOption write v) (v.map f) := by
  cases v with
  | none => exact recovers_orNull_none
  | some a => exact recovers_orNull_some (hne a rfl) (h a rfl)

theorem recovers_ofOption_self {write : α → Json} {v : Option α} (hne : ∀ a ∈ v, write a ≠ .null)
    (h : ∀ a ∈ v, Recovers read (write a) a) : Recovers (orNull? read) (.ofOption write v) v := by
  have hread := recovers_ofOption (f := id) hne h
  rwa [Option.map_id] at hread

/-- An array of values that are each read is read. -/
theorem recovers_list {γ : Type} {write : γ → Json} {f : γ → α} {xs : List γ}
    (h : ∀ x ∈ xs, Recovers read (write x) (f x)) :
    Recovers (list? read) (.array (xs.map write)) (xs.map f) := by
  intro r hr
  obtain ⟨inner, henter, hinner⟩ := exists_enter (by rwa [depth] at hr)
  have hitems : (xs.map write).mapM (read inner) = some (xs.map f) := by
    rw [depthOfItems_le] at hinner
    clear hr
    induction xs with
    | nil => rfl
    | cons x rest ih =>
      rw [List.map_cons, List.forall_mem_cons] at hinner
      rw [List.forall_mem_cons] at h
      rw [List.map_cons, List.mapM_cons, h.1 inner hinner.1, ih h.2 hinner.2]
      rfl
  simp only [list?, henter, Option.bind_eq_bind, Option.bind_some, hitems]

theorem recovers_list_self {write : α → Json} {xs : List α} (h : ∀ x ∈ xs, Recovers read (write x) x) :
    Recovers (list? read) (.array (xs.map write)) xs := by
  have hread := recovers_list (f := id) h
  rwa [List.map_id] at hread

/-- A choice that has content is read by its name. -/
theorem recovers_tagged {name : String} {k : Choice → Option α}
    (h : ∀ inner, j.depth ≤ inner.levels → k ⟨name, some (inner, j)⟩ = some v) :
    Recovers (fun r j => choice? r j >>= k) (.tagged name j) v := by
  intro r hr
  obtain ⟨inner, henter, hinner⟩ := exists_enter (by rwa [depth_tagged] at hr)
  simp only [choice?, tagged, henter, Option.bind_eq_bind, Option.bind_some]
  exact h inner hinner

/-- A choice without content is its name. -/
theorem recovers_oneOf {find : String → Option α} {name : String} (h : find name = some v) :
    Recovers (oneOf? find) (.string name) v := by
  intro r _
  simp only [oneOf?, choice?, Option.bind_eq_bind, Option.bind_some, h, Choice.bare?]

/-- What was found of a structure is all of its members, with room for what is in them. -/
structure Members.Holds (m : Members) (members : List (String × Json)) : Prop where
  found : m.found = members
  fits : ∀ x ∈ members, x.2.depth ≤ m.room.levels

/-- All fields of a structure are found where each was written once. -/
theorem exists_members (names : List String) {members : List (String × Json)}
    (hnames : members.map Prod.fst = names) (hnodup : names.Nodup)
    (hr : (object members).depth ≤ r.levels) :
    ∃ m, members? names r (.object members) = some m ∧ m.Holds members := by
  obtain ⟨inner, henter, hinner⟩ := exists_enter (by rwa [depth] at hr)
  refine ⟨⟨inner, members⟩, ?_, rfl, depthOfMembers_le.mp hinner⟩
  have hknown : known names members = some members := by
    have hkeep : ∀ m ∈ members, names.contains m.1 = true := by
      intro m hm
      rw [List.contains_iff_mem, ← hnames]
      exact List.mem_map_of_mem hm
    have hall := List.filter_eq_self.mpr hkeep
    have hfound : known names members = if ((members.filter fun m => names.contains m.1).map
        Prod.fst).Nodup then some (members.filter fun m => names.contains m.1) else none := rfl
    rw [hfound, hall, hnames, if_pos hnodup]
  simp only [members?, henter, Option.bind_eq_bind, Option.bind_some, hknown]
  rfl

theorem lookup_mem {members : List (String × Json)} {name : String}
    (h : members.lookup name = some j) : (name, j) ∈ members := by
  obtain ⟨before, after, rfl, -⟩ := List.lookup_eq_some_iff.mp h
  exact List.mem_append_right _ List.mem_cons_self

variable {m : Members} {members : List (String × Json)}

theorem Members.Holds.field (hm : m.Holds members) (name : String)
    (hl : members.lookup name = some j) (h : Recovers read j v) : m.field? name read = some v := by
  rw [field?, hm.found, hl]
  exact h m.room (hm.fits _ (lookup_mem hl))

theorem Members.Holds.fieldOr {missing : α} (hm : m.Holds members) (name : String)
    (hl : members.lookup name = some j) (h : Recovers read j v) :
    m.fieldOr? name missing read = some v := by
  simp only [fieldOr?, hm.found, hl]
  exact h m.room (hm.fits _ (lookup_mem hl))

/-- The value can be taken in whole, wherever there is room for it. -/
def Sound (j : Json) : Prop := ∀ levels, j.depth ≤ levels → isSound levels j = true

theorem sound_bool (b : Bool) : (bool b).Sound := fun _ _ => by rw [isSound] <;> simp

theorem sound_string (s : String) : (string s).Sound := fun _ _ => by rw [isSound] <;> simp

theorem sound_ofInt {n : Int} (hl : -2 ^ 63 ≤ n) (hu : n < 2 ^ 64) : (ofInt n).Sound := by
  intro levels _
  rw [ofInt, isSound, numeric?_int hl hu]
  rfl

theorem sound_ofNat {n : Nat} (h : n < 2 ^ 64) : (ofNat n).Sound :=
  sound_ofInt (n := n) (by omega) (by omega)

theorem sound_array {items : List Json} (h : ∀ j ∈ items, j.Sound) : (array items).Sound := by
  intro levels hlevels
  rw [depth] at hlevels
  have hall : ∀ n, depthOfItems items ≤ n → areSound n items = true := by
    intro n hn
    rw [depthOfItems_le] at hn
    clear hlevels
    induction items with
    | nil => rw [areSound]
    | cons j rest ih =>
      rw [List.forall_mem_cons] at h hn
      rw [areSound, h.1 n hn.1, ih h.2 hn.2]
      rfl
  rw [isSound, hall _ (by omega)]
  simp only [Bool.and_true, bne_iff_ne]
  omega

theorem sound_object {members : List (String × Json)} (h : ∀ m ∈ members, m.2.Sound) :
    (object members).Sound := by
  intro levels hlevels
  rw [depth] at hlevels
  have hall : ∀ n, depthOfMembers members ≤ n → areSoundMembers n members = true := by
    intro n hn
    rw [depthOfMembers_le] at hn
    clear hlevels
    induction members with
    | nil => rw [areSoundMembers]
    | cons m rest ih =>
      rw [List.forall_mem_cons] at h hn
      rw [areSoundMembers, h.1 n hn.1, ih h.2 hn.2]
      rfl
  rw [isSound, hall _ (by omega)]
  simp only [Bool.and_true, bne_iff_ne]
  omega

theorem sound_tagged {name : String} {content : Json} (h : content.Sound) :
    (tagged name content).Sound :=
  sound_object (by simpa using h)

/-- The kind of a structure is in the one member with its tag. -/
theorem kind?_object {tag key kind : String} {members : List (String × Json)}
    (hs : isSound r.levels (.object members) = true)
    (htagged : members.filter (fun m => m.1 == tag) = [(key, .string kind)]) :
    kind? tag r (.object members) =
      some (kind, ⟨r.levels, true⟩, .object (members.filter fun m => m.1 != tag)) := by
  simp only [kind?, hs, Bool.not_true, Bool.false_eq_true, ↓reduceIte]
  split
  next hfound =>
    cases htagged.symm.trans hfound
    rfl
  next hother => exact absurd htagged (hother key kind)

/-- A structure that names its kind first is read by its kind and its other fields. -/
theorem recovers_kind {tag kind : String} {fields : List (String × Json)}
    {k : String × Room × Json → Option α} (hfields : ∀ m ∈ fields, m.1 ≠ tag)
    (hs : ∀ m ∈ fields, m.2.Sound)
    (h : ∀ inside, (object fields).depth ≤ inside.levels →
      k (kind, inside, .object fields) = some v) :
    Recovers (fun r j => kind? tag r j >>= k) (.object ((tag, .string kind) :: fields)) v := by
  intro r hr
  have hsound : isSound r.levels (.object ((tag, .string kind) :: fields)) = true :=
    sound_object (List.forall_mem_cons.mpr ⟨sound_string kind, hs⟩) _ hr
  have htagged : ((tag, Json.string kind) :: fields).filter (fun m => m.1 == tag) =
      [(tag, .string kind)] := by
    simpa using hfields
  have hrest : ((tag, Json.string kind) :: fields).filter (fun m => m.1 != tag) = fields := by
    simpa using hfields
  have hdepth : (object fields).depth ≤ r.levels := by
    rw [depth, depthOfMembers] at hr
    rw [depth]
    omega
  simp only [kind?_object hsound htagged, hrest, Option.bind_eq_bind, Option.bind_some]
  exact h _ hdepth

end Json

end FlowPlan
