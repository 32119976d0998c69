import FlowPlan.Proofs.Progress
import FlowPlan.Proofs.Rounding

namespace FlowPlan

namespace Scalar

variable {a b c x : Scalar} {o p : Ordering} {i j l m n : Int}

/-- Two different integers that both compare as equal to a floating point number. -/
def MeetAt (x a b : Scalar) : Prop := x.integer? = none ∧ ∃ i j, a.integer? = some i ∧
  b.integer? = some j ∧ i ≠ j ∧ a.compare? x = some .eq ∧ b.compare? x = some .eq

/-- Two of three values are different integers that the third does not tell apart. -/
def Blurred (a b c : Scalar) : Prop := c.MeetAt a b ∨ a.MeetAt b c ∨ b.MeetAt a c

/-- The place of a number among the doubles, to which it is rounded. A NaN has none. -/
def place? (v : Scalar) : Option Int :=
  v.double?.bind fun x => if x.isNaN then none else some x.rank

theorem compareBytes_eq (s t : List UInt8) :
    compareBytes s t = List.compareLex (compareOn UInt8.toNat) s t := by
  induction s generalizing t with
  | nil => cases t <;> rfl
  | cons u s ih =>
    cases t with
    | nil => rfl
    | cons v t =>
      rw [compareBytes, ih, List.compareLex_cons_cons]
      rfl

theorem compareChars_eq (s t : List Char) :
    compareChars s t = List.compareLex (compareOn Char.toNat) s t := by
  induction s generalizing t with
  | nil => cases t <;> rfl
  | cons u s ih =>
    cases t with
    | nil => rfl
    | cons v t =>
      rw [compareChars, ih, List.compareLex_cons_cons]
      rfl

theorem numeric_of_integer (ha : a.integer? = some i) : a.type.isNumeric = true := by
  rcases integer_type ha with h | h <;> rw [h] <;> rfl

theorem integer_cases (a b : Scalar) : (∃ i j, a.integer? = some i ∧ b.integer? = some j) ∨
    (a.integer? = none ∨ b.integer? = none) := by
  cases a.integer? with
  | none => exact .inr (.inl rfl)
  | some i =>
    cases b.integer? with
    | none => exact .inr (.inr rfl)
    | some j => exact .inl ⟨i, j, rfl, rfl⟩

theorem compare?_integers (ha : a.integer? = some i) (hb : b.integer? = some j) :
    a.compare? b = some (compare i j) := by
  rw [compare?_numbers (numeric_of_integer ha), compareNumbers?, ha, hb]

theorem place?_of_integer (ha : a.integer? = some i) :
    a.place? = some (Binary.ofInt i : Double).rank := by
  have hdouble : a.double? = some (.ofInt i) := by
    cases a <;> simp_all [integer?, double?]
  rw [place?, hdouble, Option.bind_some, Binary.isNaN_ofInt]
  rfl

/-- A pair with a floating point number in it is compared by places. -/
theorem compare?_places (ha : a.type.isNumeric = true)
    (h : a.integer? = none ∨ b.integer? = none) :
    a.compare? b = a.place?.bind fun m => b.place?.map fun n => compare m n := by
  have hdoubles : a.compare? b = a.double?.bind fun x => b.double?.bind fun y => x.compare? y := by
    rw [compare?_numbers ha, compareNumbers?]
    split
    next hi hj => simp [hi, hj] at h
    next => rfl
  rw [hdoubles, place?, place?]
  cases a.double? with
  | none => rfl
  | some x =>
    cases b.double? with
    | none => simp
    | some y => cases hx : x.isNaN <;> cases hy : y.isNaN <;> simp [Binary.compare?, hx, hy]

/-- Numbers that compare have places. -/
theorem exists_places (ha : a.type.isNumeric = true) (h : a.compare? b = some o) :
    ∃ m n, a.place? = some m ∧ b.place? = some n := by
  rcases integer_cases a b with ⟨i, j, hi, hj⟩ | hnone
  · exact ⟨_, _, place?_of_integer hi, place?_of_integer hj⟩
  · rw [compare?_places ha hnone] at h
    obtain ⟨m, hm, h⟩ := Option.bind_eq_some_iff.mp h
    obtain ⟨n, hn, -⟩ := Option.map_eq_some_iff.mp h
    exact ⟨m, n, hm, hn⟩

/-- A comparison that does not fail puts the places in the order of the numbers. -/
theorem places_le (ha : a.type.isNumeric = true) (h : a.compare? b = some o) (ho : o.isLE = true)
    (hm : a.place? = some m) (hn : b.place? = some n) : m ≤ n := by
  rcases integer_cases a b with ⟨i, j, hi, hj⟩ | hnone
  · rw [compare?_integers hi hj] at h
    obtain rfl := Option.some.inj h
    rw [place?_of_integer hi] at hm
    rw [place?_of_integer hj] at hn
    obtain rfl := Option.some.inj hm
    obtain rfl := Option.some.inj hn
    exact Binary.rank_ofInt_mono (compare_le_iff_le.mp (Ordering.isLE_iff_ne_gt.mp ho))
  · rw [compare?_places ha hnone, hm, hn] at h
    obtain rfl := Option.some.inj h
    exact compare_le_iff_le.mp (Ordering.isLE_iff_ne_gt.mp ho)

theorem numeric_of_compare? (ha : a.type.isNumeric = true) (h : a.compare? b = some o) :
    b.type.isNumeric = true := by
  by_contra hb
  rw [compare?_of_not_comparesWith] at h
  · cases h
  · cases a <;> cases b <;> simp_all [DataType.comparesWith, Scalar.type, DataType.isNumeric]

theorem compare?_swap_numbers (ha : a.type.isNumeric = true) (hb : b.type.isNumeric = true) :
    b.compare? a = (a.compare? b).map Ordering.swap := by
  rcases integer_cases a b with ⟨i, j, hi, hj⟩ | hnone
  · rw [compare?_integers hi hj, compare?_integers hj hi]
    exact congrArg some Std.OrientedCmp.eq_swap
  · rw [compare?_places hb hnone.symm, compare?_places ha hnone]
    cases a.place? with
    | none => cases b.place? <;> rfl
    | some m =>
      cases b.place? with
      | none => rfl
      | some n => exact congrArg some Std.OrientedCmp.eq_swap

/-- The sides of a comparison can be changed. -/
theorem compare?_swap (a b : Scalar) : b.compare? a = (a.compare? b).map Ordering.swap := by
  by_cases hnumeric : a.type.isNumeric = true ∧ b.type.isNumeric = true
  · exact compare?_swap_numbers hnumeric.1 hnumeric.2
  · cases a <;> cases b <;> first | rfl | exact absurd ⟨rfl, rfl⟩ hnumeric | skip
    case bool.bool u v => exact congrArg some Std.OrientedCmp.eq_swap
    case text.text s t =>
      rw [compare?, compare?, compareChars_eq, compareChars_eq]
      exact congrArg some Std.OrientedCmp.eq_swap
    case binary.binary s t =>
      rw [compare?, compare?, compareBytes_eq, compareBytes_eq]
      exact congrArg some Std.OrientedCmp.eq_swap

/-- Three values that compare by keys of one order. -/
def Keyed (a b c : Scalar) : Prop :=
  ∃ (α : Type) (cmp : α → α → Ordering) (_ : Std.TransCmp cmp) (x y z : α),
    a.compare? b = some (cmp x y) ∧ b.compare? c = some (cmp y z) ∧ a.compare? c = some (cmp x z)

/-- In an order, what is not above something equal is equal, and otherwise it is below. -/
theorem Keyed.trans (h : Keyed a b c) (hab : a.compare? b = some o) (hbc : b.compare? c = some p)
    (ho : o.isLE = true) (hp : p.isLE = true) : a.compare? c = some (o.then p) := by
  obtain ⟨α, cmp, _, x, y, z, hxy, hyz, hxz⟩ := h
  obtain rfl := Option.some.inj (hab.symm.trans hxy)
  obtain rfl := Option.some.inj (hbc.symm.trans hyz)
  rw [hxz]
  cases h : cmp x y with
  | eq => rw [Ordering.eq_then, Std.TransCmp.congr_left h]
  | lt => rw [Ordering.lt_then, Std.TransCmp.lt_of_lt_of_isLE h hp]
  | gt => simp [h] at ho

/-- Other values than numbers compare with those of their own kind. -/
theorem keyed_of_not_numeric (ha : a.type.isNumeric = false) (hab : a.compare? b = some o)
    (hbc : b.compare? c = some p) : Keyed a b c := by
  cases a with
  | null => cases hab
  | bool u =>
    obtain ⟨v, rfl⟩ : ∃ v, b = .bool v := by
      cases b <;> first | exact ⟨_, rfl⟩ | cases hab
    obtain ⟨w, rfl⟩ : ∃ w, c = .bool w := by
      cases c <;> first | exact ⟨_, rfl⟩ | cases hbc
    exact ⟨Nat, compare, inferInstance, u.toNat, v.toNat, w.toNat, rfl, rfl, rfl⟩
  | text s =>
    obtain ⟨t, rfl⟩ : ∃ t, b = .text t := by
      cases b <;> first | exact ⟨_, rfl⟩ | cases hab
    obtain ⟨u, rfl⟩ : ∃ u, c = .text u := by
      cases c <;> first | exact ⟨_, rfl⟩ | cases hbc
    refine ⟨_, List.compareLex (compareOn Char.toNat), inferInstance, s.toList, t.toList, u.toList, ?_⟩
    simp only [compare?, compareChars_eq, and_self]
  | binary s =>
    obtain ⟨t, rfl⟩ : ∃ t, b = .binary t := by
      cases b <;> first | exact ⟨_, rfl⟩ | cases hab
    obtain ⟨u, rfl⟩ : ∃ u, c = .binary u := by
      cases c <;> first | exact ⟨_, rfl⟩ | cases hbc
    refine ⟨_, List.compareLex (compareOn UInt8.toNat), inferInstance, s, t, u, ?_⟩
    simp only [compare?, compareBytes_eq, and_self]
  | int32 v => cases ha
  | int64 v => cases ha
  | float32 v => cases ha
  | float64 v => cases ha

/-- A pair that is not of two different integers is compared by places. -/
theorem compare?_of_places (ha : a.type.isNumeric = true)
    (hint : ∀ i j, a.integer? = some i → b.integer? = some j → i = j) (hm : a.place? = some m)
    (hn : b.place? = some n) : a.compare? b = some (compare m n) := by
  rcases integer_cases a b with ⟨i, j, hi, hj⟩ | hnone
  · obtain rfl := hint i j hi hj
    obtain rfl : m = n := Option.some.inj <| by
      rw [← hm, ← hn, place?_of_integer hi, place?_of_integer hj]
    rw [compare?_integers hi hj, compare_eq_iff_eq.mpr rfl, compare_eq_iff_eq.mpr rfl]
  · rw [compare?_places ha hnone, hm, hn]
    rfl

/-- Different integers meet at a floating point number if all three are at one place. -/
theorem meetAt_of_places (hx : x.integer? = none) (ha : a.integer? = some i)
    (hb : b.integer? = some j) (hne : i ≠ j) (hxm : x.place? = some m) (ham : a.place? = some m)
    (hbm : b.place? = some m) : x.MeetAt a b := by
  have heq : ∀ {v : Scalar} {l}, v.integer? = some l → v.place? = some m →
      v.compare? x = some .eq := by
    intro v l hl hv
    rw [compare?_of_places (numeric_of_integer hl) (by simp [hx]) hv hxm, compare_eq_iff_eq.mpr rfl]
  exact ⟨hx, i, j, ha, hb, hne, heq ha ham, heq hb hbm⟩

/-- Three numbers that compare, and their places in order. -/
structure Placed (a b c : Scalar) (l m n : Int) : Prop where
  numeric : a.type.isNumeric = true ∧ b.type.isNumeric = true ∧ c.type.isNumeric = true
  first : a.place? = some l
  second : b.place? = some m
  third : c.place? = some n
  ordered : l ≤ m ∧ m ≤ n

theorem exists_placed (ha : a.type.isNumeric = true) (hab : a.compare? b = some o)
    (hbc : b.compare? c = some p) (ho : o.isLE = true) (hp : p.isLE = true) :
    ∃ l m n, Placed a b c l m n := by
  have hb := numeric_of_compare? ha hab
  obtain ⟨l, m, hl, hm⟩ := exists_places ha hab
  obtain ⟨_, n, -, hn⟩ := exists_places hb hbc
  exact ⟨l, m, n, ⟨ha, hb, numeric_of_compare? hb hbc⟩, hl, hm, hn,
    places_le ha hab ho hl hm, places_le hb hbc hp hm hn⟩

/-- Equal numbers are at one place. -/
theorem places_eq (ha : a.type.isNumeric = true) (h : a.compare? b = some .eq)
    (hm : a.place? = some m) (hn : b.place? = some n) : m = n := by
  have hswap : b.compare? a = some .eq := by
    rw [compare?_swap, h]
    rfl
  exact le_antisymm (places_le ha h rfl hm hn)
    (places_le (numeric_of_compare? ha h) hswap rfl hn hm)

/-- A number at a lower place is below. -/
theorem compare?_of_places_lt (ha : a.type.isNumeric = true) (hm : a.place? = some m)
    (hn : b.place? = some n) (hlt : m < n) : a.compare? b = some .lt := by
  rcases integer_cases a b with ⟨i, j, hi, hj⟩ | hnone
  · rw [place?_of_integer hi, Option.some.injEq] at hm
    rw [place?_of_integer hj, Option.some.injEq] at hn
    have hij : i < j := by
      by_contra hle
      have := Binary.rank_ofInt_mono (f := .double) (not_lt.mp hle)
      omega
    rw [compare?_integers hi hj, compare_lt_iff_lt.mpr hij]
  · rw [compare?_places ha hnone, hm, hn]
    exact congrArg some (compare_lt_iff_lt.mpr hlt)

namespace Placed

/-- Places that differ leave no doubt about an order. -/
theorem trans_of_lt (h : Placed a b c l m n) (hab : a.compare? b = some o)
    (hbc : b.compare? c = some p) (ho : o.isLE = true) (hp : p.isLE = true) (hlt : l < n) :
    a.compare? c = some (o.then p) := by
  obtain ⟨⟨ha, hb, -⟩, hl, hm, hn, -⟩ := h
  have hthen : o.then p = .lt := by
    cases o with
    | gt => cases ho
    | lt => rfl
    | eq =>
      cases p with
      | gt => cases hp
      | lt => rfl
      | eq =>
        have hlm := places_eq ha hab hl hm
        have hmn := places_eq hb hbc hm hn
        omega
  rw [hthen, compare?_of_places_lt ha hl hn hlt]

/-- At one place, three numbers are in an order unless two of them are integers that meet. -/
theorem keyed_or_blurred (h : Placed a b c l m n) (heq : l = n) : Keyed a b c ∨ Blurred a b c := by
  obtain ⟨⟨ha, hb, hc⟩, hl, hm, hn, hle⟩ := h
  obtain rfl : l = m := by omega
  obtain rfl := heq
  by_cases hints : ∃ i j k, a.integer? = some i ∧ b.integer? = some j ∧ c.integer? = some k
  · obtain ⟨i, j, k, hi, hj, hk⟩ := hints
    exact .inl ⟨Int, compare, inferInstance, i, j, k, compare?_integers hi hj,
      compare?_integers hj hk, compare?_integers hi hk⟩
  -- Not all three are integers, so that the one beside two integers is none.
  have hnone : ∀ {v w x : Scalar}, (∀ i j k, v.integer? = some i → w.integer? = some j →
      x.integer? ≠ some k) → v.place? = some l → w.place? = some l → x.place? = some l →
      ¬ x.MeetAt v w → ∀ i j, v.integer? = some i → w.integer? = some j → i = j := by
    intro v w x hthree hv hw hx hmeet i j hi hj
    by_contra hne
    exact hmeet (meetAt_of_places (Option.eq_none_iff_forall_ne_some.mpr fun k =>
      hthree i j k hi hj) hi hj hne hx hv hw)
  by_cases hblurred : Blurred a b c
  · exact .inr hblurred
  simp only [Blurred, not_or] at hblurred
  obtain ⟨hab, hbc, hac⟩ := hblurred
  refine .inl ⟨Int, compare, inferInstance, l, l, l,
    compare?_of_places ha (hnone ?_ hl hm hn hab) hl hm,
    compare?_of_places hb (hnone ?_ hm hn hl hbc) hm hn,
    compare?_of_places ha (hnone ?_ hl hn hm hac) hl hn⟩
  · exact fun i j k hi hj hk => hints ⟨i, j, k, hi, hj, hk⟩
  · exact fun i j k hi hj hk => hints ⟨k, i, j, hk, hi, hj⟩
  · exact fun i j k hi hj hk => hints ⟨i, k, j, hi, hk, hj⟩

end Placed

/-- Comparisons can be chained, unless two of the values are integers that the third does not tell
apart. -/
theorem trans_or_blurred (hab : a.compare? b = some o) (hbc : b.compare? c = some p)
    (ho : o.isLE = true) (hp : p.isLE = true) :
    a.compare? c = some (o.then p) ∨ Blurred a b c := by
  cases ha : a.type.isNumeric with
  | false => exact .inl ((keyed_of_not_numeric ha hab hbc).trans hab hbc ho hp)
  | true =>
    obtain ⟨l, m, n, h⟩ := exists_placed ha hab hbc ho hp
    rcases (h.ordered.1.trans h.ordered.2).eq_or_lt with heq | hlt
    · exact (h.keyed_or_blurred heq).imp_left fun hkeyed => hkeyed.trans hab hbc ho hp
    · exact .inl (h.trans_of_lt hab hbc ho hp hlt)

theorem compare?_ne_eq (ha : a.integer? = some i) (hb : b.integer? = some j) (hne : i ≠ j) :
    a.compare? b ≠ some .eq := by
  rw [compare?_integers ha hb]
  simpa using hne

/-- The integers that meet compare by themselves, and each as equal to the third value. -/
theorem Blurred.not_trans (h : Blurred a b c) (hab : a.compare? b = some o)
    (hbc : b.compare? c = some p) (ho : o.isLE = true) (hp : p.isLE = true) :
    (∃ q, a.compare? c = some q) ∧ a.compare? c ≠ some (o.then p) := by
  have hlt : ∀ {v w : Scalar} {q : Ordering} {i j}, v.integer? = some i → w.integer? = some j →
      i ≠ j → v.compare? w = some q → q.isLE = true → q = .lt := by
    intro v w q i j hi hj hne hq hle
    have hneq := compare?_ne_eq hi hj hne
    rw [hq] at hneq
    cases q <;> simp_all
  rcases h with ⟨-, i, j, hi, hj, hne, hac, hbc'⟩ | ⟨-, j, k, hj, hk, hne, hba, hca⟩ |
    ⟨-, i, k, hi, hk, hne, hab', hcb⟩
  · obtain rfl := hlt hi hj hne hab ho
    exact ⟨⟨_, hac⟩, by rw [hac]; simp⟩
  · obtain rfl := hlt hj hk hne hbc hp
    have hac : a.compare? c = some .eq := by
      rw [compare?_swap, hca]
      rfl
    refine ⟨⟨_, hac⟩, ?_⟩
    rw [hac]
    cases o <;> simp_all
  · obtain rfl := Option.some.inj (hab.symm.trans hab')
    have hbc' : b.compare? c = some .eq := by
      rw [compare?_swap, hcb]
      rfl
    obtain rfl := Option.some.inj (hbc.symm.trans hbc')
    exact ⟨⟨_, compare?_integers hi hk⟩, compare?_ne_eq hi hk hne⟩

/-- Integers of up to 53 bits do not meet. -/
theorem not_meetAt (ha : ∀ i, a.integer? = some i → i.natAbs ≤ 2 ^ 53)
    (hb : ∀ j, b.integer? = some j → j.natAbs ≤ 2 ^ 53) : ¬ x.MeetAt a b := by
  rintro ⟨-, i, j, hi, hj, hne, hax, hbx⟩
  obtain ⟨_, m, hm, hx⟩ := exists_places (numeric_of_integer hi) hax
  obtain rfl := places_eq (numeric_of_integer hi) hax hm hx
  have hn := place?_of_integer hj
  have hnm := places_eq (numeric_of_integer hj) hbx hn hx
  rw [place?_of_integer hi, Option.some.injEq] at hm
  exact hne (Binary.rank_ofInt_inj (ha i hi) (hb j hj) (hm.trans hnm.symm))

/-- Any two values compare alike from both sides. Of three values that do not descend, the first
and the last always compare, and they do as the order of their neighbours says, equal if both steps
are and below if one is, if and only if no two of the three are different integers that the third, a
floating point number, does not tell apart. Integers of up to 53 bits are always told apart. -/
theorem order_consistent_iff : (∀ a b : Scalar, b.compare? a = (a.compare? b).map Ordering.swap) ∧
    ∀ (a b c : Scalar) (o p : Ordering), a.compare? b = some o → b.compare? c = some p →
      o.isLE = true → p.isLE = true →
      (∃ q, a.compare? c = some q) ∧
      (a.compare? c = some (o.then p) ↔ ¬ Blurred a b c) ∧
      ((∀ v ∈ [a, b, c], ∀ i, v.integer? = some i → i.natAbs ≤ 2 ^ 53) → ¬ Blurred a b c) := by
  refine ⟨compare?_swap, fun a b c o p hab hbc ho hp => ⟨?_, ⟨?_, ?_⟩, ?_⟩⟩
  · rcases trans_or_blurred hab hbc ho hp with htrans | hblurred
    · exact ⟨_, htrans⟩
    · exact (hblurred.not_trans hab hbc ho hp).1
  · exact fun htrans hblurred => (hblurred.not_trans hab hbc ho hp).2 htrans
  · exact fun hsharp => (trans_or_blurred hab hbc ho hp).resolve_right hsharp
  · intro hsmall
    simp only [List.forall_mem_cons] at hsmall
    obtain ⟨ha, hb, hc, -⟩ := hsmall
    rintro (hmeet | hmeet | hmeet)
    · exact not_meetAt ha hb hmeet
    · exact not_meetAt hb hc hmeet
    · exact not_meetAt ha hc hmeet

/-- Two integers on the two sides of a fraction, the second one too long for a double. -/
theorem order_consistent_iff_mixed :
    (int64 2).compare? (float64 (.ofQuotient false 5 2)) = some .lt ∧
    (float64 (.ofQuotient false 5 2)).compare? (int64 9007199254740993) = some .lt ∧
    ((int64 2).compare? (int64 9007199254740993) = some .lt ↔
      ¬ Blurred (int64 2) (float64 (.ofQuotient false 5 2)) (int64 9007199254740993)) := by
  have hfirst : (int64 2).compare? (float64 (.ofQuotient false 5 2)) = some .lt := by
    decide +kernel
  have hsecond : (float64 (.ofQuotient false 5 2)).compare? (int64 9007199254740993) = some .lt := by
    decide +kernel
  exact ⟨hfirst, hsecond, (order_consistent_iff.2 _ _ _ _ _ hfirst hsecond rfl rfl).2.1⟩

/-- The double that two neighbouring integers are rounded to: each is equal to it, and the first is
above the second. -/
theorem integers_meet_at_double :
    (int64 9007199254740993).compare? (float64 (.ofPattern 0x4340000000000000)) = some .eq ∧
    (float64 (.ofPattern 0x4340000000000000)).compare? (int64 9007199254740992) = some .eq ∧
    (int64 9007199254740993).compare? (int64 9007199254740992) = some .gt := by
  decide +kernel

end Scalar

end FlowPlan
